import MuirFpga.Quux.WalkBooks
import MuirFpga.Sync.Trace
import Mathlib.Data.Nat.Count

/-!
# The blocks a walk counts

The walk's registers alone, whatever the seam and memory bring: the bytes in and out of the queue
say where in its page it is, the pages that ended where its base is, and the charges how many
blocks it has moved. None is from 2^28 on, so the block counter does not wrap.
-/

namespace MuirFpga.Quux

namespace Walk

/-- The store's words of the page that the queue has passed. -/
def through (w : Walk) : Nat :=
  256 * w.k.toNat + match w.v with
    | .read => if w.drained then 256 else w.chW.toNat
    | .write => w.chW.toNat
    | _ => 0

end Walk

/-- A walk from a disk address that has charged so many blocks. -/
inductive Tally (w : Walk) (da moved : Nat) : Prop
  | entry (place : w.v = .ccw) (room : w.base.toNat ≤ 2 ^ 28) (count : da + moved = w.base.toNat)
  | gather (place : w.v = .glook ∨ w.v = .gwait) (reads : w.writing = false)
      (empty : w.dReq = false ∧ w.sn.toNat = 0 ∧ w.mw.toNat = 0) (block : w.k.toNat < w.size)
      (room : w.base.toNat + w.k.toNat ≤ 2 ^ 28) (count : da + moved = w.base.toNat + w.k.toNat)
  | fetch (place : w.v = .look ∨ w.v = .wait ∨ w.v = .read) (reads : w.writing = false)
      (free : w.v ≠ .read → w.dReq = false ∧ w.sn.toNat < w.size) (block : w.k.toNat < w.size)
      (room : w.base.toNat + w.size ≤ 2 ^ 28) (count : da + moved = w.base.toNat + w.size)
      (bytes : 4 * w.through = w.size * (w.mw.toNat + w.dReq.toNat) + w.sn.toNat)
  | store (place : w.v = .look ∨ w.v = .wait ∨ w.v = .write) (writes : w.writing = true)
      (asked : w.dReq = true → w.v = .write ∧ w.sn.toNat < 4) (block : w.k.toNat < w.size)
      (room : w.base.toNat + w.k.toNat ≤ 2 ^ 28)
      (below : w.v = .write → w.base.toNat + w.k.toNat < 2 ^ 28)
      (count : da + moved = w.base.toNat + w.k.toNat)
      (bytes : ∃ got, w.size * got = 4 * w.through + w.sn.toNat) (short : w.sn.toNat < 4 + w.size)
  | rest (place : w.v = .ended ∨ w.v = .idle) (room : w.base.toNat ≤ 2 ^ 28)
      (count : da + moved ≤ 2 ^ 28)

namespace Tally

variable {mainWords : Nat} {i : WalkInput} {m : Seam} {s : BlockStore} {w : Walk} {da moved : Nat}

theorem most (tally : Tally w da moved) : da + moved ≤ 2 ^ 28 ∧ w.base.toNat ≤ 2 ^ 28 := by
  cases tally with
  | entry _ room count => exact ⟨by omega, room⟩
  | gather _ _ _ _ room count => exact ⟨by omega, by omega⟩
  | fetch _ _ _ _ room count _ => exact ⟨by omega, by omega⟩
  | store _ _ _ _ room _ count _ _ => exact ⟨by omega, by omega⟩
  | rest _ room count => exact ⟨count, room⟩

/-- It does not depend on a clock's pulses, nor on the look. -/
theorem aside (tally : Tally w da moved) (post wrote hit we charge fin : Bool) (lba : BitVec 28)
    (age : BitVec 2) (hits : BitVec 5 → Bool) :
    Tally { w with
      reqPost := post, chWrote := wrote, chHit := hit, chbWe := we, charge := charge, fin := fin
      lba := lba, lookAge := age, hitQ := hits } da moved := by
  cases tally with
  | entry place room count => exact .entry place room count
  | gather place reads empty block room count => exact .gather place reads empty block room count
  | fetch place reads free block room count bytes =>
    exact .fetch place reads free block room count bytes
  | store place writes asked block room below count bytes short =>
    exact .store place writes asked block room below count bytes short
  | rest place room count => exact .rest place room count

theorem follows {x y : Walk} (next : Walk.Follows w x y) (tally : Tally x da (moved + x.charge.toNat)) :
    Tally y da (moved + y.charge.toNat) := by
  obtain ⟨age, hits, rfl⟩ := next
  exact tally.aside x.reqPost x.chWrote x.chHit x.chbWe x.charge x.fin w.block age hits

theorem holds {y : Walk} (tally : Tally w da moved) (next : Walk.Follows w w.pulses y) :
    Tally y da (moved + y.charge.toNat) :=
  follows next (tally.aside false false false false false false w.lba w.pulses.lookAge w.hitQ)

theorem size_pos (w : Walk) : 0 < w.size := by
  rcases size_cases w with ⟨-, size, -⟩ | ⟨-, size, -⟩ <;> omega

theorem final_block (final : w.k = w.perPage - 1) : w.k.toNat + 1 = w.size := by
  rw [final]
  rcases size_cases w with ⟨-, size, per⟩ | ⟨-, size, per⟩ <;> rw [size, per] <;> rfl

theorem handed_less (enough : 4#4 ≤ w.sn) : 4 ≤ w.sn.toNat ∧ (w.sn - 4).toNat = w.sn.toNat - 4 :=
  ⟨BitVec.le_def.mp enough, BitVec.toNat_sub_of_le enough⟩

theorem start (rst : i.rst = false) (place : w.v = .idle) (starts : i.start = true)
    (present : i.drivePresent = true) :
    Tally (w.next mainWords i m s) i.stDa.toNat (0 + (w.next mainWords i m s).charge.toNat) := by
  have idles : Walk.Idles i w (w.next mainWords i m s) := Walk.next_idle rst place
  cases idles with
  | stays unstarted _ => exact absurd ⟨starts, present⟩ unstarted
  | started _ _ next =>
    have base : (0#1 ++ i.stDa).toNat = i.stDa.toNat := by
      simp only [BitVec.toNat_append, BitVec.toNat_ofNat, Nat.zero_mod, Nat.zero_shiftLeft, Nat.zero_or]
    have less := i.stDa.isLt
    have room : (0#1 ++ i.stDa).toNat ≤ 2 ^ 28 := by omega
    exact follows next (.entry rfl room base.symm)

section

variable (tally : Tally w da moved) (rst : i.rst = false)

include tally rst

theorem ccw (place : w.v = .ccw) :
    Tally (w.next mainWords i m s) da (moved + (w.next mainWords i m s).charge.toNat) := by
  obtain ⟨room, count⟩ : w.base.toNat ≤ 2 ^ 28 ∧ da + moved = w.base.toNat := by
    cases tally <;> simp_all
  have most : da + moved ≤ 2 ^ 28 := count ▸ room
  have enters : Walk.Enters mainWords i w (w.next mainWords i m s) := Walk.next_ccw rst place
  cases enters with
  | entryPast _ _ next | pagePast _ _ _ next => exact follows next (.rest (Or.inl rfl) room most)
  | asks _ _ next => exact follows next (.entry place room count)
  | holds _ _ next => exact tally.holds next
  | takes _ _ _ next =>
    cases writes : w.writing with
    | false =>
      simp only [writes, Bool.false_eq_true, if_false] at next
      exact follows next (.gather (Or.inl rfl) writes ⟨rfl, rfl, rfl⟩ (size_pos w) room count)
    | true =>
      simp only [writes, if_true] at next
      have short : 0 < 4 + w.size := Nat.lt_add_right _ (by decide)
      exact follows next (.store (Or.inl rfl) writes (fun asked => absurd asked Bool.false_ne_true)
        (size_pos w) room (fun other => WalkState.noConfusion other) count ⟨0, rfl⟩ short)

theorem glook (place : w.v = .glook) :
    Tally (w.next mainWords i m s) da (moved + (w.next mainWords i m s).charge.toNat) := by
  obtain ⟨reads, empty, block, room, count⟩ : w.writing = false ∧
      (w.dReq = false ∧ w.sn.toNat = 0 ∧ w.mw.toNat = 0) ∧ w.k.toNat < w.size ∧
      w.base.toNat + w.k.toNat ≤ 2 ^ 28 ∧ da + moved = w.base.toNat + w.k.toNat := by
    cases tally <;> simp_all
  have base : w.base.toNat ≤ 2 ^ 28 := by omega
  have most : da + moved ≤ 2 ^ 28 := count ▸ room
  have gathers : Walk.Gathers w (w.next mainWords i m s) := Walk.next_glook rst place
  cases gathers with
  | past _ next => exact follows next (.rest (Or.inl rfl) base most)
  | foundLast slot inside _ _ last next =>
    have below := cur_inside base inside
    have final := final_block last
    have whole : w.base.toNat + w.size ≤ 2 ^ 28 := by omega
    have counted : da + (moved + 1) = w.base.toNat + w.size := by omega
    have none_ : 4 * (256 * 0 + 0) = w.size * (w.mw.toNat + w.dReq.toNat) + w.sn.toNat := by
      rw [empty.1, empty.2.1, empty.2.2]
      rfl
    exact follows next (.fetch (Or.inl rfl) reads (fun _ => ⟨empty.1, empty.2.1.symm ▸ size_pos w⟩)
      (size_pos w) whole counted none_)
  | found slot inside _ _ further next =>
    have below := cur_inside base inside
    obtain ⟨here, less⟩ := next_block block further
    have onward : w.base.toNat + (w.k + 1).toNat ≤ 2 ^ 28 := by omega
    have counted : da + (moved + 1) = w.base.toNat + (w.k + 1).toNat := by omega
    exact follows next (.gather (Or.inl place) reads empty (here.symm ▸ less) onward counted)
  | asks _ _ next => exact follows next (.gather (Or.inr rfl) reads empty block room count)
  | holds next => exact tally.holds next

theorem gwait (place : w.v = .gwait) :
    Tally (w.next mainWords i m s) da (moved + (w.next mainWords i m s).charge.toNat) := by
  obtain ⟨reads, empty, block, room, count⟩ : w.writing = false ∧
      (w.dReq = false ∧ w.sn.toNat = 0 ∧ w.mw.toNat = 0) ∧ w.k.toNat < w.size ∧
      w.base.toNat + w.k.toNat ≤ 2 ^ 28 ∧ da + moved = w.base.toNat + w.k.toNat := by
    cases tally <;> simp_all
  have most : da + moved ≤ 2 ^ 28 := count ▸ room
  have waits : Walk.Waits .glook m w (w.next mainWords i m s) := Walk.next_gwait rst place
  cases waits with
  | denied _ next => exact follows next (.rest (Or.inl rfl) (by omega : w.base.toNat ≤ 2 ^ 28) most)
  | comes _ _ next => exact follows next (.gather (Or.inl rfl) reads empty block room count)
  | holds _ next => exact tally.holds next

theorem look (place : w.v = .look) :
    Tally (w.next mainWords i m s) da (moved + (w.next mainWords i m s).charge.toNat) := by
  obtain ⟨most, base⟩ := most tally
  have through : w.through = 256 * w.k.toNat := by simp [Walk.through, place]
  have looks : Walk.Looks w (w.next mainWords i m s) := Walk.next_look rst place
  cases looks with
  | past _ next => exact follows next (.rest (Or.inl rfl) base most)
  | asks _ _ next =>
    cases tally with
    | fetch _ reads free block room count bytes =>
      rw [through] at bytes
      exact follows next (.fetch (Or.inr (Or.inl rfl)) reads (fun _ => free (by simp [place])) block room
        count bytes)
    | store _ writes asked block room below count bytes short =>
      rw [through] at bytes
      exact follows next (.store (Or.inr (Or.inl rfl)) writes
        (fun req => absurd (asked req).1 (by simp [place])) block room
        (fun other => WalkState.noConfusion other) count bytes short)
    | entry there | gather there | rest there => simp [place] at there
  | holds next => exact tally.holds next
  | chooses slot inside _ _ next =>
    have below := cur_inside base inside
    cases tally with
    | fetch _ reads free block room count bytes =>
      rw [through] at bytes
      simp only [reads, Bool.false_eq_true, if_false] at next
      exact follows next (.fetch (Or.inr (Or.inr rfl)) reads (fun other => absurd rfl other) block room
        count bytes)
    | store _ writes asked block room _ count bytes short =>
      rw [through] at bytes
      simp only [writes, if_true] at next
      exact follows next (.store (Or.inr (Or.inr rfl)) writes
        (fun req => absurd (asked req).1 (by simp [place])) block room (fun _ => below) count bytes short)
    | entry there | gather there | rest there => simp [place] at there

theorem wait (place : w.v = .wait) :
    Tally (w.next mainWords i m s) da (moved + (w.next mainWords i m s).charge.toNat) := by
  obtain ⟨most, base⟩ := most tally
  have through : w.through = 256 * w.k.toNat := by simp [Walk.through, place]
  have waits : Walk.Waits .look m w (w.next mainWords i m s) := Walk.next_wait rst place
  cases waits with
  | denied _ next => exact follows next (.rest (Or.inl rfl) base most)
  | holds _ next => exact tally.holds next
  | comes _ _ next =>
    cases tally with
    | fetch _ reads free block room count bytes =>
      rw [through] at bytes
      exact follows next (.fetch (Or.inl rfl) reads (fun _ => free (by simp [place])) block room count bytes)
    | store _ writes asked block room _ count bytes short =>
      rw [through] at bytes
      exact follows next (.store (Or.inl rfl) writes (fun req => absurd (asked req).1 (by simp [place])) block
        room (fun other => WalkState.noConfusion other) count bytes short)
    | entry there | gather there | rest there => simp [place] at there

end

theorem page_base (room : w.base.toNat + w.size ≤ 2 ^ 28) :
    (w.base + w.perPage.setWidth 29).toNat = w.base.toNat + w.size := by
  rw [BitVec.toNat_add, BitVec.toNat_setWidth]
  rcases size_cases w with ⟨-, size, per⟩ | ⟨-, size, per⟩ <;> rw [size] at room ⊢ <;> rw [per]
  · change (w.base.toNat + 4) % 2 ^ 29 = _
    omega
  · change (w.base.toNat + 5) % 2 ^ 29 = _
    omega

theorem page {x y : Walk} (next : Walk.Follows w (w.paged x) y) (base : x.base = w.base)
    (room : w.base.toNat + w.size ≤ 2 ^ 28)
    (count : da + (moved + x.charge.toNat) = w.base.toNat + w.size) : Tally y da (moved + y.charge.toNat) := by
  have most : da + (moved + x.charge.toNat) ≤ 2 ^ 28 := count ▸ room
  cases more : w.more with
  | true =>
    have onward := page_base room
    unfold Walk.paged at next
    simp only [more, if_true] at next
    exact follows next (.entry rfl (onward.symm ▸ room) (onward.symm ▸ count))
  | false =>
    unfold Walk.paged at next
    simp only [more, Bool.false_eq_true, if_false] at next
    have less : x.base.toNat ≤ 2 ^ 28 := by
      rw [base]
      omega
    exact follows next (.rest (Or.inl rfl) less most)

theorem read (tally : Tally w da moved) (rst : i.rst = false) (place : w.v = .read) :
    Tally (w.next mainWords i m s) da (moved + (w.next mainWords i m s).charge.toNat) := by
  obtain ⟨reads, block, room, count, bytes⟩ : w.writing = false ∧ w.k.toNat < w.size ∧
      w.base.toNat + w.size ≤ 2 ^ 28 ∧ da + moved = w.base.toNat + w.size ∧
      4 * w.through = w.size * (w.mw.toNat + w.dReq.toNat) + w.sn.toNat := by
    cases tally <;> simp_all
  have through : w.through = 256 * w.k.toNat + if w.drained then 256 else w.chW.toNat := by
    simp [Walk.through, place]
  have per := perPage_wide w
  have steps : Walk.Reads s i w (w.next mainWords i m s) := Walk.next_read rst place
  cases steps with
  | emits free enough next =>
    have least : w.size ≤ w.sn.toNat := per ▸ BitVec.le_def.mp enough
    have left : (w.sn - w.perPage.setWidth 4).toNat = w.sn.toNat - w.size := by
      rw [BitVec.toNat_sub_of_le enough, per]
    have onward : 4 * w.through = w.size * (w.mw.toNat + 1) + (w.sn - w.perPage.setWidth 4).toNat := by
      rw [bytes, free, left, Nat.mul_add, Nat.mul_add]
      change _ + w.size * 0 + _ = _
      omega
    exact follows next (.fetch (Or.inr (Or.inr place)) reads (fun other => absurd place other) block room
      count onward)
  | blockDone free short drained next =>
    have less : w.sn.toNat < w.size := per ▸ BitVec.lt_def.mp short
    have last := w.mw.isLt
    rw [through, drained, if_pos rfl, free] at bytes
    change _ = w.size * w.mw.toNat + _ at bytes
    -- The page is not over: its last word is not in memory.
    have further : w.k ≠ w.perPage - 1 := by
      intro final
      have top := final_block final
      have words : w.size * w.mw.toNat ≤ w.size * 1023 := Nat.mul_le_mul_left _ (by omega)
      omega
    obtain ⟨here, inside⟩ := next_block block further
    have onward : 4 * (256 * (w.k + 1).toNat + 0) = w.size * (w.mw.toNat + w.dReq.toNat) + w.sn.toNat := by
      rw [here, free]
      change _ = w.size * w.mw.toNat + _
      omega
    exact follows next (.fetch (Or.inl rfl) reads (fun _ => ⟨free, less⟩) (here.symm ▸ inside) room count
      onward)
  | pushes free short undrained valid next =>
    have less : w.sn.toNat < w.size := per ▸ BitVec.lt_def.mp short
    have most : w.size ≤ 5 := by rcases size_cases w with ⟨-, size, -⟩ | ⟨-, size, -⟩ <;> omega
    have more : (w.sn + 4).toNat = w.sn.toNat + 4 := by
      rw [BitVec.toNat_add]
      change (w.sn.toNat + 4) % 16 = _
      omega
    refine follows next (.fetch (Or.inr (Or.inr place)) reads (fun other => absurd place other) block room
      count ?_)
    rw [through, undrained, if_neg Bool.false_ne_true] at bytes
    unfold Walk.through
    dsimp only [Walk.pulses]
    rw [place]
    dsimp only
    rw [taken_next undrained, more]
    change _ = w.size * (w.mw.toNat + w.dReq.toNat) + _
    omega
  | latches free short undrained next =>
    exact follows next (.fetch (Or.inr (Or.inr place)) reads (fun other => absurd place other) block room
      count bytes)
  | lands asked done further next =>
    have onward : 4 * w.through = w.size * ((w.mw + 1).toNat + false.toNat) + w.sn.toNat := by
      rw [bytes, asked, next_mw further]
      rfl
    exact follows next (.fetch (Or.inr (Or.inr place)) reads (fun other => absurd place other) block room
      count onward)
  | pageDone asked done last next => exact page next rfl room count
  | holds asked waits next => exact tally.holds next

theorem write (tally : Tally w da moved) (rst : i.rst = false) (place : w.v = .write) :
    Tally (w.next mainWords i m s) da (moved + (w.next mainWords i m s).charge.toNat) := by
  obtain ⟨writes, asked, block, below, count, ⟨got, bytes⟩, short⟩ : w.writing = true ∧
      (w.dReq = true → w.sn.toNat < 4) ∧ w.k.toNat < w.size ∧ w.base.toNat + w.k.toNat < 2 ^ 28 ∧
      da + moved = w.base.toNat + w.k.toNat ∧ (∃ got, w.size * got = 4 * w.through + w.sn.toNat) ∧
      w.sn.toNat < 4 + w.size := by
    cases tally <;> simp_all
  have through : w.through = 256 * w.k.toNat + w.chW.toNat := by simp [Walk.through, place]
  have per := perPage_wide w
  have steps : Walk.Writes i w (w.next mainWords i m s) := Walk.next_write rst place
  cases steps with
  | stores free enough further next =>
    obtain ⟨least, left⟩ := handed_less enough
    have bytes' : ∃ got, w.size * got = 4 * (256 * w.k.toNat + (w.chW + 1).toNat) + (w.sn - 4).toNat := by
      refine ⟨got, ?_⟩
      rw [bytes, through, next_word further, left]
      omega
    have here : Walk.through { w.handed with chW := w.chW + 1 } = 256 * w.k.toNat + (w.chW + 1).toNat := by
      simp [Walk.through, Walk.handed, Walk.pulses, place]
    rw [← here] at bytes'
    have short' : (w.sn - 4).toNat < 4 + w.size := by omega
    have room : w.base.toNat + w.k.toNat ≤ 2 ^ 28 := Nat.le_of_lt below
    exact follows next (.store (Or.inr (Or.inr place)) writes
      (fun req => absurd (free.symm.trans req) Bool.false_ne_true) block room (fun _ => below) count bytes'
      short')
  | blockDone free enough last further next =>
    obtain ⟨least, left⟩ := handed_less enough
    obtain ⟨here, inside⟩ := next_block block further
    have bytes' : ∃ got, w.size * got = 4 * (256 * (w.k + 1).toNat + 0) + (w.sn - 4).toNat := by
      refine ⟨got, ?_⟩
      rw [bytes, through, last, here, left]
      change 4 * (256 * w.k.toNat + 255) + _ = _
      omega
    have short' : (w.sn - 4).toNat < 4 + w.size := by omega
    have room : w.base.toNat + (w.k + 1).toNat ≤ 2 ^ 28 := by omega
    have counted : da + (moved + 1) = w.base.toNat + (w.k + 1).toNat := by omega
    exact follows next (.store (Or.inl rfl) writes
      (fun req => absurd (free.symm.trans req) Bool.false_ne_true) (here.symm ▸ inside) room
      (fun other => WalkState.noConfusion other) counted bytes' short')
  | pageDone free enough last final next =>
    have top : w.k.toNat + 1 = w.size := final_block final
    have room : w.base.toNat + w.size ≤ 2 ^ 28 := by omega
    have counted : da + (moved + 1) = w.base.toNat + w.size := by omega
    exact page next rfl room counted
  | asks free few next =>
    have less : w.sn.toNat < 4 := BitVec.lt_def.mp few
    have room : w.base.toNat + w.k.toNat ≤ 2 ^ 28 := Nat.le_of_lt below
    exact follows next (.store (Or.inr (Or.inr place)) writes (fun _ => ⟨place, less⟩) block room
      (fun _ => below) count ⟨got, bytes⟩ short)
  | takes req done next =>
    have less := asked req
    have most : w.size ≤ 5 := by rcases size_cases w with ⟨-, size, -⟩ | ⟨-, size, -⟩ <;> omega
    have more : (w.sn + w.perPage.setWidth 4).toNat = w.sn.toNat + w.size := by
      rw [BitVec.toNat_add, per]
      omega
    have bytes' : w.size * (got + 1) = 4 * w.through + (w.sn + w.perPage.setWidth 4).toNat := by
      rw [Nat.mul_succ, bytes, more]
      omega
    have short' : (w.sn + w.perPage.setWidth 4).toNat < 4 + w.size := by omega
    have room : w.base.toNat + w.k.toNat ≤ 2 ^ 28 := Nat.le_of_lt below
    exact follows next (.store (Or.inr (Or.inr place)) writes
      (fun other => absurd other Bool.false_ne_true) block room (fun _ => below) count ⟨got + 1, bytes'⟩
      short')
  | holds req waits next => exact tally.holds next

theorem ended (tally : Tally w da moved) (rst : i.rst = false) (place : w.v = .ended) :
    Tally (w.next mainWords i m s) da (moved + (w.next mainWords i m s).charge.toNat) := by
  obtain ⟨most, base⟩ := most tally
  exact follows (Walk.next_ended rst place) (.rest (Or.inr rfl) base most)

theorem reset (tally : Tally w da moved) (rst : i.rst = true) :
    Tally (w.next mainWords i m s) da (moved + (w.next mainWords i m s).charge.toNat) := by
  have most := (most tally).1
  unfold Walk.next
  rw [rst]
  exact .rest (Or.inr rfl) (Nat.zero_le _) most

theorem next (tally : Tally w da moved) (busy : w.v ≠ .idle) :
    Tally (w.next mainWords i m s) da (moved + (w.next mainWords i m s).charge.toNat) := by
  cases rst : i.rst with
  | true => exact tally.reset rst
  | false =>
    cases place : w.v with
    | idle => exact absurd place busy
    | ccw => exact tally.ccw rst place
    | glook => exact tally.glook rst place
    | gwait => exact tally.gwait rst place
    | look => exact tally.look rst place
    | wait => exact tally.wait rst place
    | read => exact tally.read rst place
    | write => exact tally.write rst place
    | ended => exact tally.ended rst place

theorem stateStep_base : (w.stateStep mainWords s i m w.pulses).base = w.base := by
  unfold Walk.stateStep
  cases w.v with
  | idle | ended => rfl
  | ccw =>
    unfold Walk.ccwStep
    split_ifs <;> rfl
  | glook =>
    unfold Walk.glookStep
    split_ifs <;> rfl
  | gwait | wait =>
    unfold Walk.waitStep
    split_ifs <;> rfl
  | look =>
    unfold Walk.lookStep
    cases w.hit <;> dsimp only <;> split_ifs <;> rfl
  | read =>
    unfold Walk.readStep
    split_ifs <;> rfl
  | write =>
    unfold Walk.writeStep Walk.wroteBlock
    split_ifs <;> rfl

theorem page_room (tally : Tally w da moved) (ends : w.pageDone i = true) :
    w.base.toNat + w.size ≤ 2 ^ 28 := by
  unfold Walk.pageDone at ends
  simp only [Bool.or_eq_true, Bool.and_eq_true, beq_iff_eq] at ends
  rcases ends with ⟨⟨⟨place, -⟩, -⟩, -⟩ | ⟨⟨⟨⟨place, -⟩, -⟩, -⟩, final⟩
  · cases tally with
    | fetch _ _ _ _ room _ _ => exact room
    | entry there | gather there | store there | rest there => simp [place] at there
  · have top := final_block final
    cases tally with
    | store _ _ _ _ _ below _ _ _ =>
      have less := below place
      omega
    | entry there | gather there | fetch there | rest there => simp [place] at there

theorem base_next (tally : Tally w da moved) (rst : i.rst = false) (busy : w.v ≠ .idle) :
    (w.next mainWords i m s).base.toNat =
      w.base.toNat + if w.pageDone i && w.more then w.size else 0 := by
  have follows : Walk.Follows w (w.pageStep i (w.stateStep mainWords s i m w.pulses))
    (w.next mainWords i m s) := Walk.next_follows rst busy
  obtain ⟨age, hits, same⟩ := follows
  have step : (w.stateStep mainWords s i m w.pulses).base = w.base := stateStep_base
  rw [same]
  change (w.pageStep i _).base.toNat = _
  unfold Walk.pageStep
  cases ends : w.pageDone i with
  | false =>
    rw [if_neg Bool.false_ne_true, step]
    rfl
  | true =>
    have room := tally.page_room ends
    rw [if_pos rfl]
    cases more : w.more with
    | false =>
      dsimp only
      rw [if_neg Bool.false_ne_true, step]
      rfl
    | true =>
      dsimp only
      rw [if_pos rfl]
      exact page_base room

end Tally

/-- The store and the walk, clocked together. -/
structure Walking where
  store : BlockStore
  walk : Walk

namespace Walking

def next (mainWords : Nat) (i : WalkInput) (m : Seam) (c : Walking) : Walking where
  store := c.store.next i.rst m c.walk
  walk := c.walk.next mainWords i m c.store

/-- A run from a reset. -/
def run (mainWords : Nat) (c : Walking) (i : Nat → WalkInput) (m : Nat → Seam) : Nat → Walking
  | 0 => c.next mainWords { i 0 with rst := true } (m 0)
  | clock + 1 => (run mainWords c i m clock).next mainWords (i clock) (m clock)

/-- A START taken. -/
def starts (c : Walking) (i : WalkInput) : Bool :=
  !i.rst && c.walk.v == .idle && i.start && i.drivePresent

/-- The blocks charged after a clock and up to another. -/
def moved (c : Nat → Walking) (a t : Nat) : Nat :=
  Nat.count (fun k => (c (a + 1 + k)).walk.charge = true) (t - a)

variable {mainWords : Nat} {first : Walking} {i : Nat → WalkInput} {m : Nat → Seam} {a t : Nat}

/-- The tally is kept along a walk. -/
theorem tally_run (begun : (run mainWords first i m a).starts (i a) = true) (after : a < t)
    (busy : ∀ u, a < u → u < t → (run mainWords first i m u).walk.v ≠ .idle) :
    Tally (run mainWords first i m t).walk (i a).stDa.toNat (moved (run mainWords first i m) a t) := by
  induction t, after using Nat.le_induction with
  | base =>
    unfold starts at begun
    simp only [Bool.and_eq_true, Bool.not_eq_true', beq_iff_eq] at begun
    obtain ⟨⟨⟨rst, place⟩, start⟩, present⟩ := begun
    have tally : Tally (run mainWords first i m (a + 1)).walk (i a).stDa.toNat
        (0 + (run mainWords first i m (a + 1)).walk.charge.toNat) := Tally.start rst place start present
    have count : moved (run mainWords first i m) a (a + 1) =
        0 + (run mainWords first i m (a + 1)).walk.charge.toNat := by
      unfold moved
      rw [Nat.add_sub_cancel_left, Nat.count_succ]
      cases (run mainWords first i m (a + 1)).walk.charge <;> rfl
    rw [count]
    exact tally
  | succ t after ih =>
    have tally := ih fun u later before => busy u later (by omega)
    have count : moved (run mainWords first i m) a (t + 1) =
        moved (run mainWords first i m) a t + (run mainWords first i m (t + 1)).walk.charge.toNat := by
      unfold moved
      rw [show t + 1 - a = t - a + 1 by omega, Nat.count_succ, show a + 1 + (t - a) = t + 1 by omega]
      cases (run mainWords first i m (t + 1)).walk.charge <;> rfl
    rw [count]
    exact tally.next (busy t after (Nat.lt_succ_self t))

theorem tally_busy (busy : (run mainWords first i m t).walk.v ≠ .idle) :
    ∃ da moved, Tally (run mainWords first i m t).walk da moved := by
  induction t with
  | zero => exact absurd (Walk.next_reset rfl).1 busy
  | succ t ih =>
    by_cases idle : (run mainWords first i m t).walk.v = .idle
    · cases rst : (i t).rst with
      | true => exact absurd (Walk.next_reset rst).1 busy
      | false =>
        by_cases starts : (i t).start = true ∧ (i t).drivePresent = true
        · exact ⟨_, _, Tally.start rst idle starts.1 starts.2⟩
        · have idles : Walk.Idles (i t) (run mainWords first i m t).walk
            (run mainWords first i m (t + 1)).walk := Walk.next_idle rst idle
          cases idles with
          | started start present _ => exact absurd ⟨start, present⟩ starts
          | stays _ next =>
            obtain ⟨age, hits, same⟩ := next
            rw [same] at busy
            exact absurd idle busy
    · obtain ⟨da, moved, tally⟩ := ih idle
      exact ⟨da, _, tally.next idle⟩

end Walking

end MuirFpga.Quux
