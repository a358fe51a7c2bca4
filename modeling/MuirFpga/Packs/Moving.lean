import MuirFpga.Packs.Stages
import Mathlib.Tactic.SplitIfs

/-!
# A move is exact

Each clock of a move, state by state, and from them that every move of every run is exact: a fetch
lays the record's words each at its own place and tags the slot last, if no beat was flawed; a
write-back sends the slot's words and nothing else; and a move the fabric's reset finds before its
tag ends its burst, tags nothing and is never done, and leaves a clean master. The runs are those
where the reset does not find the record's last word going into the store, and no go is accepted
in the tick a drained move's end is taken.
-/

namespace MuirFpga.Packs.DiskPack

variable {c : Config} {i : Input c} {g : Regs} {accepted : Bool} {rdata : BitVec 32} {m n : Mover}
  {t : Disk.Store} {p : Owed} {d : Move}

namespace Mover

/-- A clock's registers with what the fabric's reset leaves of them while a burst is owed. -/
def draining (i : Input c) (m x : Mover) : Mover :=
  { x with
    done := x.done && !i.fabricRst
    error := x.error && !i.fabricRst
    pDrop := x.pDrop || i.fabricRst
    takeOnly := !i.fabricRst && m.takeOnly
    storeWe := m.seam.1
    storeSlot := m.pSlot
    storeAddr := m.seam.2.1
    storeWdata := m.seam.2.2 }

theorem master_busy (live : i.rst = false) (running : m.pst ≠ .idle) :
    m.master accepted g rdata i = m.fabric i (m.stateStep accepted g rdata i (m.addressed i)) := by
  unfold master drained
  simp [live, running]

theorem next_owed (live : i.rst = false) (owed : m.owed = true) (running : m.pst ≠ .idle) :
    m.next accepted g rdata i =
      draining i m (m.stateStep accepted g rdata i (m.addressed i)) := by
  unfold next
  rw [master_busy live running]
  unfold fabric draining
  cases reset : i.fabricRst with
  | true => simp [owed, live]
  | false => simp [live, running]

theorem next_unowed (live : i.rst = false) (owed : m.owed = false) (running : m.pst ≠ .idle) :
    m.next accepted g rdata i =
      let x := m.stateStep accepted g rdata i (m.addressed i)
      if i.fabricRst then
        { draining i m x with
          pDrop := x.pDrop, pst := .idle, busy := false, hiPending := false, rbValid := false }
      else draining i m x := by
  unfold next
  rw [master_busy live running]
  unfold fabric draining
  cases reset : i.fabricRst with
  | true => simp [owed, live]
  | false => simp [live, running]

end Mover

theorem drops_eq (running : m.pst ≠ .idle) (early : m.pst ≠ .tag) :
    Move.drops i m = i.fabricRst := by
  have other : (m.pst != .idle) = true := bne_iff_ne.2 running
  have before : (m.pst != .tag) = true := bne_iff_ne.2 early
  simp [Move.drops, other, before]

theorem error_kept {dropped error flaw : Bool} (stands : dropped = false → error = flaw)
    (kept : (dropped || i.fabricRst) = false) : (error && !i.fabricRst) = flaw := by
  rw [Bool.or_eq_false_iff] at kept
  rw [stands kept.1, kept.2]
  simp

theorem silent (at_ : m.pst = .idle ∨ m.pst = .take ∨ m.pst = .tag ∨ m.pst = .aw) :
    m.arvalid = false ∧ m.rready = false ∧ m.wvalid = false ∧ m.bready = false := by
  rcases at_ with place | place | place | place <;>
    simp [Mover.arvalid, Mover.rready, Mover.wvalid, Mover.bready, place]

theorem owed_silent (silent : m.arvalid = false ∧ m.rready = false ∧ m.wvalid = false ∧ m.bready = false)
    (address : m.awOn = false) : p.next i m = p := by
  obtain ⟨ar, r, w, b⟩ := silent
  unfold Owed.next
  simp [ar, r, w, b, address]

theorem InAr.step (live : i.rst = false) (place : m.pst = .ar) (stage : InAr m p d)
    (named : Named m d) (t' : Disk.Store) :
    Stage (m.next accepted g rdata i) t' (p.next i m)
      (d.next i t m (m.next accepted g rdata i)) := by
  obtain ⟨ar, r, w, b⟩ : m.arvalid = true ∧ m.rready = false ∧ m.wvalid = false ∧
      m.bready = false := by
    simp [Mover.arvalid, Mover.rready, Mover.wvalid, Mover.bready, place]
  have drops : Move.drops i m = i.fabricRst := drops_eq (by simp [place]) (by simp [place])
  have few := stage.placed.burst
  obtain ⟨address, addressed, ended⟩ := stage.fetching.address
  have count := stage.fetching.count
  rw [Mover.next_owed live (by simp [Mover.owed, place]) (by simp [place])]
  cases ready : i.mArready with
  | false =>
    have port : p.next i m = p := by
      unfold Owed.next
      simp [ar, r, w, b, ready, address]
    rw [port]
    simp only [Stage, Mover.draining, Mover.stateStep, place, ready, Mover.addressed, Move.next,
      Mover.seam, drops, ar, r, w, b, address, Bool.and_false, Bool.false_and, Bool.false_eq_true,
      if_false, reduceCtorEq]
    exact
      { placed := ⟨few, stage.placed.addr⟩
        low := stage.low
        fetching :=
          { stage.fetching with
            error := error_kept stage.fetching.error
            address := ⟨rfl, addressed, ended⟩ }
        whole := stage.whole }
  | true =>
    have port : p.next i m = { p with beats := m.len.toNat + 1 } := by
      unfold Owed.next
      simp [ar, w, b, ready, address, stage.whole]
    rw [port]
    simp only [Stage, Mover.draining, Mover.stateStep, place, ready, Mover.addressed, Move.next,
      Mover.seam, drops, ar, r, w, b, address, Bool.and_false, Bool.and_true, Bool.false_eq_true,
      if_false, if_true, reduceCtorEq]
    have length := stage.placed.len
    have before := stage.placed.before
    rw [stage.whole] at count
    exact
      { placed := ⟨few, stage.placed.addr⟩
        inside := fun _ => Nat.zero_le 1
        fetching :=
          { errand := stage.fetching.errand
            reads := by
              rw [burstsOf_succ, stage.fetching.reads, stage.placed.offer, named.base]
            count := by
              dsimp only
              omega
            deposits := by
              rw [stage.fetching.deposits, stage.low.1]
              congr 1
              change 32 * m.pBurst.toNat = 2 * (16 * m.pBurst.toNat + 0) + 0
              omega
            error := error_kept stage.fetching.error
            address := ⟨rfl, addressed, ended⟩
            aside := stage.fetching.aside }
        came := by
          rw [stage.low.1, stage.low.2]
          change d.beats.length = 16 * m.pBurst.toNat + 0 + 0
          omega
        high := fun up => absurd up (by simp [stage.low.1])
        low := fun up => absurd up (by simp [stage.low.2]) }

section Beat

/-- The beats that have come after a clock. -/
def took (i : Input c) (m : Mover) (d : Move) : List ReadBeat :=
  if i.mRvalid && m.rready then d.beats ++ [⟨i.mRdata, i.mRresp, i.mRlast⟩] else d.beats

theorem took_length :
    (took i m d).length = d.beats.length + (i.mRvalid && m.rready).toNat := by
  unfold took
  cases i.mRvalid && m.rready <;> simp

theorem filling_took {slot : BitVec 5} {words : Nat} (came : words ≤ 2 * d.beats.length) :
    filling slot (took i m d) words = filling slot d.beats words := by
  unfold took
  split_ifs
  · exact filling_append came _
  · rfl

theorem getD_concat {α : Type} (before : List α) (last other : α) {place : Nat}
    (length : before.length = place) : (before ++ [last]).getD place other = last := by
  rw [List.getD_append_right _ _ _ _ (Nat.le_of_eq length), length, Nat.sub_self]
  rfl

theorem took_new (taken : (i.mRvalid && m.rready) = true) :
    ((took i m d).getD d.beats.length ⟨0, 0, false⟩).data = i.mRdata := by
  unfold took
  rw [if_pos taken, getD_concat _ _ _ rfl]

theorem flawed_took (final : m.takeLast = closes d.beats.length) :
    flawed (took i m d) = (flawed d.beats || (i.mRvalid && m.rready) &&
      (i.mRresp.getLsbD 1 || i.mRlast != m.takeLast)) := by
  unfold took
  cases i.mRvalid && m.rready with
  | true =>
    rw [if_pos rfl, flawed_append, final]
    simp [Bool.or_assoc]
  | false => simp

theorem count_took (ar : m.arvalid = false)
    (lawful : i.mRvalid = true → m.rready = true → 0 < p.beats) :
    (took i m d).length + (p.next i m).beats = d.beats.length + p.beats := by
  rw [took_length]
  unfold Owed.next
  rw [ar]
  cases valid : i.mRvalid with
  | false => simp
  | true =>
    cases ready : m.rready with
    | false => simp
    | true =>
      have due := lawful valid ready
      simp
      omega

end Beat

theorem Mover.beatIn_eq (x : Mover) : m.beatIn i x =
    { x with
      rbData := if i.mRvalid && m.rready then i.mRdata else x.rbData
      rbValid := (i.mRvalid && m.rready) || x.rbValid
      error := x.error || (i.mRvalid && m.rready) &&
        (i.mRresp.getLsbD 1 || i.mRlast != m.takeLast) } := by
  unfold Mover.beatIn
  cases i.mRvalid && m.rready with
  | true => simp [Bool.or_assoc]
  | false => simp

theorem Owed.next_aside (address : m.awOn = false) (w : m.wvalid = false) (b : m.bready = false) :
    (p.next i m).addressed = p.addressed ∧ (p.next i m).ended = p.ended := by
  unfold Owed.next
  simp [address, w, b]

theorem Fetching.error_took {bursts words : Nat} (fetching : Fetching m p d bursts words)
    (final : m.takeLast = closes d.beats.length) (kept : (d.dropped || i.fabricRst) = false) :
    ((m.error || (i.mRvalid && m.rready) &&
        (i.mRresp.getLsbD 1 || i.mRlast != m.takeLast)) && !i.fabricRst) =
      flawed (took i m d) := by
  rw [flawed_took final]
  rw [Bool.or_eq_false_iff] at kept
  rw [← fetching.error kept.1, kept.2]
  simp

theorem InR.step_free (live : i.rst = false) (place : m.pst = .r) (stage : InR m p d)
    (hi : m.hiPending = false) (rb : m.rbValid = false)
    (lawful : i.mRvalid = true → m.rready = true → 0 < p.beats) (t' : Disk.Store) :
    Stage (m.next accepted g rdata i) t' (p.next i m)
      (d.next i t m (m.next accepted g rdata i)) := by
  obtain ⟨ar, w, b⟩ : m.arvalid = false ∧ m.wvalid = false ∧ m.bready = false := by
    simp [Mover.arvalid, Mover.wvalid, Mover.bready, place]
  have drops : Move.drops i m = i.fabricRst := drops_eq (by simp [place]) (by simp [place])
  obtain ⟨address, addressed, ended⟩ := stage.fetching.address
  have came : d.beats.length = m.index := by simpa [hi, rb] using stage.came
  have count := count_took (d := d) ar lawful
  have length : (took i m d).length = _ := took_length
  have final : m.takeLast = closes d.beats.length := by
    rw [came, ← (Mover.index_facts stage.placed stage.inside).1]
    simp [Mover.takeLast, Mover.lastBeat, hi]
  have aside := Owed.next_aside (p := p) (i := i) address w b
  rw [Mover.next_owed live (by simp [Mover.owed, place]) (by simp [place])]
  simp only [Stage, Mover.draining, Mover.stateStep, place, Mover.addressed, Move.next,
    Mover.seam, Mover.wordIn, Mover.beatIn_eq, drops, ar, w, b, address, hi, rb, Bool.and_false, Bool.false_and,
    Bool.false_eq_true, if_false, reduceCtorEq, Bool.or_false]
  have deposits := stage.fetching.deposits
  rw [hi] at deposits
  have held := stage.fetching.count
  exact
    { placed := ⟨stage.placed.burst, stage.placed.addr⟩
      inside := stage.inside
      fetching :=
        { errand := stage.fetching.errand
          reads := stage.fetching.reads
          count := count.trans held
          deposits := by
            refine deposits.trans (filling_took ?_).symm
            rw [came, Bool.toNat_false]
            exact Nat.le_refl _
          error := stage.fetching.error_took final
          address := ⟨rfl, aside.1.trans addressed, aside.2.trans ended⟩
          aside := stage.fetching.aside }
      came := by
        change (took i m d).length = m.index + (i.mRvalid && m.rready).toNat
        rw [length, came]
      high := fun up => absurd up (by simp)
      low := fun taken => by
        dsimp only at taken ⊢
        rw [if_pos taken]
        have new := took_new (d := d) taken
        rw [came] at new
        exact new.symm }

theorem Fetched.stopped (bursts words : Nat) (reads : d.reads = burstsOf d.base bursts)
    (few : bursts ≤ 9) (whole : d.beats.length = beatsOf bursts)
    (deposits : d.deposits = filling d.slot d.beats words) (inside : words ≤ 259)
    (came : words ≤ 2 * d.beats.length) (aside : d.writes = [] ∧ d.sends = [])
    (dropped : d.dropped = true) (undone : m.done = false) : Fetched m d := by
  have length : d.reads.length = bursts := by simp [reads, burstsOf]
  exact
    { reads := by rw [length, reads]
      few := by rw [length]; exact few
      whole := by rw [length]; exact whole
      filled := Or.inr (Or.inl ⟨words, inside, came, deposits⟩)
      aside := aside
      complete := fun kept => absurd kept (by simp [dropped])
      judged := fun up => absurd up (by simp [undone]) }

theorem InIdle.of_fetched (errand : d.errand = .fetch)
    (port : m.awOn = false ∧ p.beats = 0 ∧ p.addressed = false ∧ p.ended = false)
    (fetched : Fetched m d) : InIdle m p d where
  port := port
  fetched := fun _ => fetched
  returned := fun back => absurd (errand.symm.trans back) (by simp)
  emptied := fun away => absurd (errand.symm.trans away) (by simp)

theorem InR.step_low (live : i.rst = false) (place : m.pst = .r) (stage : InR m p d)
    (named : Named m d) (hi : m.hiPending = false) (rb : m.rbValid = true)
    (apart : i.fabricRst = true → m.padBeat = true → m.pDrop = true)
    (held : m.pDrop = d.dropped) (t' : Disk.Store) :
    Stage (m.next accepted g rdata i) t' (p.next i m)
      (d.next i t m (m.next accepted g rdata i)) := by
  obtain ⟨ar, r, w, b⟩ : m.arvalid = false ∧ m.rready = false ∧ m.wvalid = false ∧
      m.bready = false := by
    simp [Mover.arvalid, Mover.rready, Mover.wvalid, Mover.bready, place, rb]
  have drops : Move.drops i m = i.fabricRst := drops_eq (by simp [place]) (by simp [place])
  obtain ⟨address, addressed, ended⟩ := stage.fetching.address
  have came : d.beats.length = m.index + 1 := by simpa [hi, rb] using stage.came
  have port : p.next i m = p := owed_silent ⟨ar, r, w, b⟩ address
  have facts := Mover.index_facts stage.placed stage.inside
  have words := Mover.wordLo_index stage.placed stage.inside
  have data := stage.low rb
  have count := stage.fetching.count
  have few := stage.placed.burst
  have size := m.pBeat.isLt
  have even : 2 * m.index / 2 = m.index := Nat.mul_div_cancel_left m.index (by decide)
  have laid : d.deposits ++ [⟨m.pSlot, m.wordLo, m.rbData.extractLsb' 0 32⟩] =
      filling d.slot d.beats (2 * m.index + 1) := by
    rw [filling_succ, stage.fetching.deposits, hi, words.1, named.slot]
    unfold wordOf
    rw [even, ← data, Nat.mul_mod_right]
    rfl
  rw [Mover.next_owed live (by simp [Mover.owed, place]) (by simp [place]), port]
  cases pad : m.padBeat with
  | true =>
    have last : m.index = 129 := facts.2.1.1 pad
    have nine : m.pBurst.toNat + 1 = 9 := by
      unfold Mover.index at last
      omega
    have whole : beatsOf (m.pBurst.toNat + 1) = 130 := by
      rw [nine]
      rfl
    have none : p.beats = 0 := by omega
    rw [last] at laid
    cases drop : m.pDrop with
    | true =>
      simp only [Stage, Mover.draining, Mover.stateStep, place, Mover.addressed, Move.next,
        Mover.seam, Mover.wordIn, Mover.beatIn, Mover.bump, drops, ar, r, w, b, address, hi, rb, pad,
        drop, Bool.and_false, Bool.false_and, Bool.false_eq_true, if_false, if_true, reduceCtorEq]
      refine InIdle.of_fetched (by exact stage.fetching.errand) ⟨rfl, none, addressed, ended⟩ ?_
      apply Fetched.stopped 9 259
      · exact stage.fetching.reads.trans (by rw [nine])
      · exact Nat.le_refl 9
      · exact came.trans (by rw [last]; rfl)
      · exact laid
      · exact Nat.le_refl 259
      · change 259 ≤ 2 * d.beats.length
        omega
      · exact stage.fetching.aside
      · simp [← held, drop]
      · simp [named.undone]
    | false =>
      have calm : i.fabricRst = false := by
        cases reset : i.fabricRst with
        | false => rfl
        | true => exact absurd (apart reset pad) (by simp [drop])
      simp only [Stage, Mover.draining, Mover.stateStep, place, Mover.addressed, Move.next,
        Mover.seam, Mover.wordIn, Mover.beatIn, Mover.bump, drops, ar, r, w, b, address, hi, rb, pad,
        drop, Bool.and_false, Bool.false_and, Bool.false_eq_true, if_false, if_true, reduceCtorEq]
      exact
        { fetching :=
            { errand := stage.fetching.errand
              reads := stage.fetching.reads.trans (by rw [nine])
              count := count.trans (by rw [nine])
              deposits := laid
              error := error_kept stage.fetching.error
              address := ⟨rfl, addressed, ended⟩
              aside := stage.fetching.aside }
          whole := none
          standing := by simp [calm, ← held, drop] }
  | false =>
    simp only [Stage, Mover.draining, Mover.stateStep, place, Mover.addressed, Move.next,
      Mover.seam, Mover.wordIn, Mover.beatIn, drops, ar, r, w, b, address, hi, rb, pad,
      Bool.and_false, Bool.false_and, Bool.false_eq_true, if_false, if_true, reduceCtorEq]
    exact
      { placed := ⟨few, stage.placed.addr⟩
        inside := stage.inside
        fetching :=
          { errand := stage.fetching.errand
            reads := stage.fetching.reads
            count := count
            deposits := laid
            error := error_kept stage.fetching.error
            address := ⟨rfl, addressed, ended⟩
            aside := stage.fetching.aside }
        came := came
        high := fun _ => by
          refine ⟨rfl, fun last => ?_, ?_⟩
          · rw [facts.2.1.2 last] at pad
            simp at pad
          · change m.rbData.extractLsb' 32 32 = wordOf d.beats (2 * m.index + 1)
            have odd : (2 * m.index + 1) / 2 = m.index := by omega
            have one : (2 * m.index + 1) % 2 = 1 := by omega
            unfold wordOf
            rw [odd, one, ← data]
        low := fun up => absurd up (by simp) }

theorem InR.step_high (live : i.rst = false) (place : m.pst = .r) (stage : InR m p d)
    (named : Named m d) (hi : m.hiPending = true)
    (lawful : i.mRvalid = true → m.rready = true → 0 < p.beats) (held : m.pDrop = d.dropped)
    (t' : Disk.Store) :
    Stage (m.next accepted g rdata i) t' (p.next i m)
      (d.next i t m (m.next accepted g rdata i)) := by
  obtain ⟨rb, whole, word⟩ := stage.high hi
  obtain ⟨ar, r, w, b⟩ : m.arvalid = false ∧ m.rready = true ∧ m.wvalid = false ∧
      m.bready = false := by
    simp [Mover.arvalid, Mover.rready, Mover.wvalid, Mover.bready, place, rb]
  have drops : Move.drops i m = i.fabricRst := drops_eq (by simp [place]) (by simp [place])
  obtain ⟨address, addressed, ended⟩ := stage.fetching.address
  have came : d.beats.length = m.index + 1 := by simpa [hi] using stage.came
  have facts := Mover.index_facts stage.placed stage.inside
  have words := Mover.wordLo_index stage.placed stage.inside
  have count := stage.fetching.count
  have few := stage.placed.burst
  have bumped := stage.placed.bumped
  have aside := Owed.next_aside (p := p) (i := i) address w b
  have laid : d.deposits ++ [⟨m.pSlot, m.wordLo ||| 1#9, m.hiWord⟩] =
      filling d.slot d.beats (2 * m.index + 2) := by
    rw [filling_succ, stage.fetching.deposits, hi, words.2, named.slot, word]
    rfl
  rw [Mover.next_owed live (by simp [Mover.owed, place]) (by simp [place])]
  cases final : m.lastBeat with
  | true =>
    have data : m.last = false := by
      cases last : m.last with
      | false => rfl
      | true =>
        have one : m.pBeat = 1#4 := by simpa [Mover.lastBeat, last] using final
        have pad : m.padBeat = true := by simp [Mover.padBeat, last, one]
        exact absurd (facts.2.1.1 pad) whole
    have length := facts.2.2.1 final
    have none : p.beats = 0 := by omega
    have quiet : i.mRvalid = false := by
      cases valid : i.mRvalid with
      | false => rfl
      | true => exact absurd (lawful valid r) (by omega)
    have port : p.next i m = p := by
      unfold Owed.next
      simp [ar, w, b, address, quiet]
    have before := Mover.burst_data data few
    rw [port]
    cases drop : m.pDrop with
    | true =>
      simp only [Stage, Mover.draining, Mover.stateStep, place, Mover.addressed, Move.next,
        Mover.seam, Mover.wordIn, Mover.beatIn, Mover.bump, drops, ar, r, w, b, address, hi, final,
        quiet, drop, Bool.and_false, Bool.false_and, Bool.false_eq_true, if_false, if_true,
        reduceCtorEq]
      refine InIdle.of_fetched (by exact stage.fetching.errand) ⟨rfl, none, addressed, ended⟩ ?_
      apply Fetched.stopped (m.pBurst.toNat + 1) (2 * m.index + 2)
      · exact stage.fetching.reads
      · omega
      · exact came.trans length
      · exact laid
      · have most : beatsOf (m.pBurst.toNat + 1) = 16 * (m.pBurst.toNat + 1) := if_pos (by omega)
        omega
      · change 2 * m.index + 2 ≤ 2 * d.beats.length
        omega
      · exact stage.fetching.aside
      · simp [← held, drop]
      · simp [named.undone]
    | false =>
      simp only [Stage, Mover.draining, Mover.stateStep, place, Mover.addressed, Move.next,
        Mover.seam, Mover.wordIn, Mover.beatIn, Mover.bump, drops, ar, r, w, b, address, hi, final,
        quiet, drop, data, Bool.and_false, Bool.false_and, Bool.false_eq_true, if_false, if_true,
        reduceCtorEq]
      exact
        { placed := ⟨by simp only [bumped]; omega, rfl⟩
          low := ⟨rfl, rb⟩
          fetching :=
            { errand := stage.fetching.errand
              reads := stage.fetching.reads.trans (by rw [bumped])
              count := count.trans (by rw [bumped])
              deposits := laid.trans (by
                simp only [bumped]
                congr 1
                have most : beatsOf (m.pBurst.toNat + 1) = 16 * (m.pBurst.toNat + 1) :=
                  if_pos (by omega)
                omega)
              error := error_kept stage.fetching.error
              address := ⟨rfl, addressed, ended⟩
              aside := stage.fetching.aside }
          whole := none }
  | false =>
    obtain ⟨more, step, inside⟩ := facts.2.2.2 final
    have judged : m.takeLast = closes d.beats.length := by
      have next := (Mover.index_facts (m := { m with pBeat := m.pBeat + 1 })
        ⟨few, stage.placed.addr⟩ inside).1
      have index : Mover.index { m with pBeat := m.pBeat + 1 } = m.index + 1 := by
        unfold Mover.index
        simp only [step]
        rfl
      rw [came, ← index, ← next]
      simp [Mover.takeLast, Mover.lastBeat, Mover.last, hi]
    have length : (took i m d).length = _ := took_length
    have taken := count_took (d := d) ar lawful
    simp only [Stage, Mover.draining, Mover.stateStep, place, Mover.addressed, Move.next,
      Mover.seam, Mover.wordIn, Mover.beatIn_eq, drops, ar, w, b, address, hi, rb, final,
      Bool.and_false, Bool.false_and, Bool.false_eq_true, if_false, if_true, reduceCtorEq,
      Bool.or_false]
    have index : 16 * m.pBurst.toNat + (m.pBeat + 1).toNat = m.index + 1 := by
      rw [step]
      rfl
    exact
      { placed := ⟨few, stage.placed.addr⟩
        inside := inside
        fetching :=
          { errand := stage.fetching.errand
            reads := stage.fetching.reads
            count := taken.trans count
            deposits := by
              refine laid.trans ?_
              unfold Mover.index
              simp only [index]
              refine (filling_took ?_).symm
              omega
            error := stage.fetching.error_took judged
            address := ⟨rfl, aside.1.trans addressed, aside.2.trans ended⟩
            aside := stage.fetching.aside }
        came := by
          unfold Mover.index
          simp only [index]
          change (took i m d).length = m.index + 1 + (i.mRvalid && m.rready).toNat
          rw [length, came]
        high := fun up => absurd up (by simp)
        low := fun valid => by
          unfold Mover.index
          simp only [index]
          dsimp only at valid
          have new := took_new (d := d) valid
          rw [came] at new
          rw [if_pos valid]
          exact new.symm }

theorem InTake.step (live : i.rst = false) (place : m.pst = .take) (stage : InTake m p d)
    (named : Named m d) (t' : Disk.Store) :
    Stage (m.next accepted g rdata i) t' (p.next i m)
      (d.next i t m (m.next accepted g rdata i)) := by
  obtain ⟨ar, r, w, b⟩ := silent (m := m) (by simp [place])
  have drops : Move.drops i m = i.fabricRst := drops_eq (by simp [place]) (by simp [place])
  obtain ⟨address, none, addressed, ended⟩ := stage.port
  obtain ⟨reads, beats, deposits, writes, sends⟩ := stage.blank
  obtain ⟨drop, standing, good⟩ := stage.standing
  have port : p.next i m = p := owed_silent ⟨ar, r, w, b⟩ address
  have taken : d.deposits ++ [⟨m.pSlot, 259#9, 1#1 ++ 0#31⟩] = [takenAway d.slot] := by
    rw [deposits, named.slot]
    rfl
  have kind : d.errand = .fetch ∧ m.takeOnly = false ∨ d.errand = .away ∧ m.takeOnly = true := by
    have only := stage.bare
    cases errand : d.errand with
    | fetch => exact Or.inl ⟨rfl, by simpa [errand] using only⟩
    | away => exact Or.inr ⟨rfl, by simpa [errand] using only⟩
    | back => exact absurd errand stage.errand
  rw [Mover.next_unowed live (by simp [Mover.owed, place, address]) (by simp [place]), port]
  cases reset : i.fabricRst with
  | true =>
    simp only [Stage, Mover.draining, Mover.stateStep, place, Mover.addressed, Move.next,
      Mover.seam, drops, ar, r, w, b, address, reset, Bool.and_false, Bool.false_and,
      Bool.false_eq_true, if_false, if_true]
    refine ⟨⟨?_, none, addressed, ended⟩, fun fetch => ?_, fun back => ?_, fun away => ?_⟩
    · split_ifs <;> rfl
    · apply Fetched.stopped 0 0
      · exact reads
      · exact Nat.zero_le 9
      · exact congrArg List.length beats
      · exact taken
      · exact Nat.zero_le 259
      · exact Nat.zero_le _
      · exact ⟨writes, sends⟩
      · simp
      · simp
    · exact absurd back stage.errand
    · exact ⟨Or.inr taken, ⟨reads, beats, writes, sends⟩, fun _ => taken⟩
  | false =>
    rcases kind with ⟨errand, only⟩ | ⟨errand, only⟩
    · simp only [Stage, Mover.draining, Mover.stateStep, place, Mover.addressed, Move.next,
        Mover.seam, drops, ar, r, w, b, address, reset, only, Bool.and_false, Bool.false_and,
        Bool.false_eq_true, if_false, if_true]
      have zero : m.pBurst.toNat = 0 := by rw [stage.first]; rfl
      exact
        { placed := ⟨stage.placed.burst, stage.placed.addr⟩
          low := stage.low
          fetching :=
            { errand := errand
              reads := by rw [zero]; exact reads
              count := by
                simp only [zero, beats, none]
                rfl
              deposits := by
                simp only [zero, beats]
                exact taken
              error := fun _ => by
                simp only [beats, good]
                rfl
              address := ⟨rfl, addressed, ended⟩
              aside := ⟨writes, sends⟩ }
          whole := none }
    · simp only [Stage, Mover.draining, Mover.stateStep, place, Mover.addressed, Move.next,
        Mover.seam, drops, ar, r, w, b, address, reset, only, Bool.and_false, Bool.false_and,
        Bool.false_eq_true, if_false, if_true]
      exact
        { port := ⟨rfl, none, addressed, ended⟩
          fetched := fun fetch => absurd (errand.symm.trans fetch) (by simp)
          returned := fun back => absurd back stage.errand
          emptied := fun _ => ⟨Or.inr taken, ⟨reads, beats, writes, sends⟩, fun _ => taken⟩ }

theorem InTag.step (live : i.rst = false) (place : m.pst = .tag) (stage : InTag m p d)
    (named : Named m d) (t' : Disk.Store) :
    Stage (m.next accepted g rdata i) t' (p.next i m)
      (d.next i t m (m.next accepted g rdata i)) := by
  obtain ⟨ar, r, w, b⟩ := silent (m := m) (by simp [place])
  have drops : Move.drops i m = false := by
    unfold Move.drops
    rw [place]
    simp
  obtain ⟨address, addressed, ended⟩ := stage.fetching.address
  obtain ⟨drop, standing⟩ := stage.standing
  have error := stage.fetching.error standing
  have length : d.reads.length = 9 := by simp [stage.fetching.reads, burstsOf]
  have whole : d.beats.length = 130 := by
    have count := stage.fetching.count
    rw [stage.whole] at count
    exact count
  have port : p.next i m = p := owed_silent ⟨ar, r, w, b⟩ address
  have laid : (if (!m.error) = true then d.deposits ++ [⟨m.pSlot, 259#9, 0#1 ++ m.pTag⟩]
      else d.deposits) = filling d.slot d.beats 259 ++
        if flawed d.beats then [] else [tagged d.slot d.tag] := by
    rw [error, stage.fetching.deposits, named.slot, named.tag]
    cases flawed d.beats with
    | true => simp
    | false => rfl
  have filled {d' : Move} (same : d'.slot = d.slot ∧ d'.tag = d.tag ∧ d'.beats = d.beats ∧
      d'.dropped = false) (deposits : d'.deposits = filling d.slot d.beats 259 ++
        if flawed d.beats then [] else [tagged d.slot d.tag]) : Filled d' := by
    obtain ⟨slot, tag, beats, undropped⟩ := same
    unfold Filled
    rw [deposits, slot, tag, beats, undropped]
    cases flaw : flawed d.beats with
    | true => exact Or.inr (Or.inl ⟨259, Nat.le_refl 259, by simp [whole], by simp⟩)
    | false => exact Or.inr (Or.inr ⟨rfl, rfl, whole, rfl⟩)
  rw [Mover.next_unowed live (by simp [Mover.owed, place, address]) (by simp [place]), port]
  cases reset : i.fabricRst
  all_goals
    simp only [Stage, Mover.draining, Mover.stateStep, place, Mover.addressed, Move.next,
      Mover.seam, drops, ar, r, w, b, address, reset, Bool.and_false, Bool.false_and,
      Bool.false_eq_true, if_false, if_true]
    refine InIdle.of_fetched (by exact stage.fetching.errand)
      ⟨rfl, stage.whole, addressed, ended⟩ ?_
    exact
      { reads := by
          simp only [length]
          exact stage.fetching.reads
        few := Nat.le_of_eq length
        whole := by
          simp only [length]
          exact whole
        filled := filled ⟨rfl, rfl, rfl, by simp [standing]⟩ laid
        aside := stage.fetching.aside
        complete := fun _ => ⟨length, laid⟩
        judged := by simp [error] }

theorem onItsWay_next (seam : Quux.Seam) (ctl : Disk.Controller) :
    onItsWay (t.next seam ctl) = wordAt t seam.slot seam.addr := by
  change (if (!decide (seam.addr < 256#9)) = true then t.seamMeta seam
    else t.ram (Disk.Store.seamWord seam)) = wordAt t seam.slot seam.addr
  unfold wordAt
  by_cases data : seam.addr < 256#9 <;> simp [data] <;> rfl

theorem Returning.addressed {sends seen : Nat}
    (returning : Returning m p d m.pBurst.toNat sends seen) (placed : m.Placed)
    (base : d.base = m.pBase) (address : m.awOn = !p.addressed) :
    (if (m.awOn && i.mAwready) = true then d.writes ++ [⟨m.burstAddr, m.len⟩] else d.writes) =
        burstsOf d.base (m.pBurst.toNat + (p.addressed || (m.awOn && i.mAwready)).toNat) ∧
      (m.addressed i).awOn = !(p.addressed || (m.awOn && i.mAwready)) := by
  have writes := returning.writes
  unfold Mover.addressed
  cases taken : p.addressed with
  | true =>
    have off : m.awOn = false := by simpa [taken] using address
    rw [taken] at writes
    simp [off, writes]
  | false =>
    have out : m.awOn = true := by simpa [taken] using address
    rw [taken] at writes
    cases ready : i.mAwready with
    | true =>
      simp only [out, Bool.and_true, if_true, Bool.or_true, Bool.toNat_true, Bool.not_true]
      refine ⟨?_, trivial⟩
      rw [burstsOf_succ, writes, placed.offer, base]
      rfl
    | false => simp [out, writes]

theorem InWords.onward {read sum : Nat} (stage : InWords m p d read) (named : Named m d)
    (quiet : m.arvalid = false ∧ m.rready = false ∧ (m.wvalid && i.mWready) = false ∧
      (i.mBvalid && m.bready) = false)
    (still : n.pBurst = m.pBurst ∧ n.pBeat = m.pBeat ∧ n.pBase = m.pBase ∧
      n.burstAddr = m.burstAddr ∧ n.awOn = (m.addressed i).awOn ∧ n.storeWe = false)
    (reads : read + (m.pst == .w1 || m.pst == .w2).toNat = sum) :
    InWords n (p.next i m) (d.next i t m n) sum := by
  obtain ⟨ar, r, w, b⟩ := quiet
  obtain ⟨burst, beat, base, addr, on, we⟩ := still
  have index : n.index = m.index := by
    unfold Mover.index
    rw [burst, beat]
  have port : (p.next i m).addressed = (p.addressed || (m.awOn && i.mAwready)) := by
    simp only [Owed.next, b, Bool.false_eq_true, if_false]
  have returning := stage.returning
  obtain ⟨writes, out⟩ := returning.addressed (i := i) stage.placed named.base stage.address
  exact
    { placed := ⟨by rw [burst]; exact stage.placed.burst, by
        rw [addr, base, burst]
        exact stage.placed.addr⟩
      inside := fun last => by
        rw [beat]
        refine stage.inside ?_
        simpa [Mover.last, burst] using last
      returning :=
        { errand := returning.errand
          writes := by
            rw [port, burst]
            exact writes
          sends := by
            rw [index]
            simp only [Move.next, w, Bool.false_eq_true, if_false]
            rw [returning.sends]
            split_ifs
            · refine (sendings_append ?_ _).symm
              rw [returning.seen]
              exact Nat.le_add_right _ _
            · rfl
          seen := by
            rw [index, ← reads]
            simp only [Move.next]
            cases m.pst == .w1 || m.pst == .w2 with
            | true =>
              rw [if_pos rfl, List.length_append, returning.seen]
              rfl
            | false => exact returning.seen
          answers := by
            simp only [Move.next, b, Bool.false_eq_true, if_false]
            rw [burst]
            exact returning.answers
          aside := by
            obtain ⟨beats, reads, came, deposits⟩ := returning.aside
            simp [Move.next, Owed.next, ar, r, we, beats, reads, came, deposits] }
      address := by
        rw [port, on]
        exact out
      open_ := by simp [Owed.next, w, b, stage.open_] }

theorem seen_next {read : Nat} (place : (m.pst == .w1 || m.pst == .w2) = true)
    (length : d.seen.length = read) (slot : d.slot = m.pSlot) (n : Mover) :
    (d.next i t m n).seen = d.seen ++ [wordAt t m.pSlot (BitVec.ofNat 9 read)] := by
  rw [← length, ← slot]
  exact if_pos place

theorem Words.step_reads (live : i.rst = false) (stage : Words m t p d) (named : Named m d)
    (place : m.pst = .w0 ∨ m.pst = .w1 ∨ m.pst = .w2 ∨ m.pst = .w3 ∨ m.pst = .w4)
    {seam : Quux.Seam} (slot : seam.slot = m.storeSlot) (addr : seam.addr = m.storeAddr)
    (ctl : Disk.Controller) :
    Stage (m.next accepted g t.rdata i) (t.next seam ctl) (p.next i m)
      (d.next i t m (m.next accepted g t.rdata i)) := by
  have running : m.pst ≠ .idle := by
    rcases place with h | h | h | h | h <;> simp [h]
  have owed : m.owed = true := by
    unfold Mover.owed
    rcases place with h | h | h | h | h <;> simp [h]
  have quiet : m.arvalid = false ∧ m.rready = false ∧ (m.wvalid && i.mWready) = false ∧
      (i.mBvalid && m.bready) = false := by
    unfold Mover.arvalid Mover.rready Mover.wvalid Mover.bready
    rcases place with h | h | h | h | h <;> simp [h]
  have we : m.seam.1 = false := by
    unfold Mover.seam
    rcases place with h | h | h | h | h <;> simp [h]
  have way : onItsWay (t.next seam ctl) = wordAt t m.storeSlot m.storeAddr := by
    rw [← slot, ← addr]
    exact onItsWay_next seam ctl
  have data : (t.next seam ctl).rdata = onItsWay t := rfl
  unfold Words at stage
  rw [Mover.next_owed live owed running]
  rcases place with h | h | h | h | h <;> rw [h] at stage <;> dsimp only at stage
  · have next : m.stateStep accepted g t.rdata i (m.addressed i) =
        { m.addressed i with pst := .w1 } := by
      unfold Mover.stateStep
      rw [h]
    rw [next]
    refine ⟨stage.onward named quiet ⟨rfl, rfl, rfl, rfl, rfl, we⟩ (by rw [h]; rfl), rfl, ?_⟩
    change m.seam.2.1 = BitVec.ofNat 9 (2 * m.index)
    rw [← (Mover.wordLo_index stage.placed stage.inside).1]
    unfold Mover.seam
    simp [h]
  · have next : m.stateStep accepted g t.rdata i (m.addressed i) =
        { m.addressed i with pst := .w2 } := by
      unfold Mover.stateStep
      rw [h]
    rw [next]
    obtain ⟨words, port, place⟩ := stage
    refine ⟨words.onward named quiet ⟨rfl, rfl, rfl, rfl, rfl, we⟩ (by rw [h]; rfl), rfl, ?_, ?_⟩
    · change m.seam.2.1 = BitVec.ofNat 9 (2 * m.index + 1)
      rw [← (Mover.wordLo_index words.placed words.inside).2]
      unfold Mover.seam
      simp [h]
    · rw [way, port, place]
      rw [seen_next (by rw [h]; rfl) words.returning.seen named.slot]
      exact (getD_concat _ _ _ words.returning.seen).symm
  · have next : m.stateStep accepted g t.rdata i (m.addressed i) =
        { m.addressed i with pst := .w3 } := by
      unfold Mover.stateStep
      rw [h]
    rw [next]
    obtain ⟨words, port, place, low⟩ := stage
    have seen (n : Mover) : (d.next i t m n).seen = _ :=
      seen_next (by rw [h]; rfl) words.returning.seen named.slot n
    refine ⟨words.onward named quiet ⟨rfl, rfl, rfl, rfl, rfl, we⟩ (by rw [h]; rfl), ?_, ?_⟩
    · rw [data, low, seen]
      refine (List.getD_append _ _ _ _ ?_).symm
      rw [words.returning.seen]
      exact Nat.lt_succ_self _
    · rw [way, port, place, seen]
      exact (getD_concat _ _ _ words.returning.seen).symm
  · have next : m.stateStep accepted g t.rdata i (m.addressed i) =
        { m.addressed i with wlo := t.rdata, pst := .w4 } := by
      unfold Mover.stateStep
      rw [h]
    rw [next]
    obtain ⟨words, low, high⟩ := stage
    have seen (n : Mover) : (d.next i t m n).seen = d.seen := by
      unfold Move.next
      simp only [h]
      rfl
    refine ⟨words.onward named quiet ⟨rfl, rfl, rfl, rfl, rfl, we⟩ (by rw [h]; rfl), ?_, ?_⟩
    · rw [seen]
      exact low
    · rw [data, seen]
      exact high
  · have next : m.stateStep accepted g t.rdata i (m.addressed i) =
        { m.addressed i with whi := t.rdata, pst := .w5 } := by
      unfold Mover.stateStep
      rw [h]
    rw [next]
    obtain ⟨words, low, high⟩ := stage
    have seen (n : Mover) : (d.next i t m n).seen = d.seen := by
      unfold Move.next
      simp only [h]
      rfl
    refine ⟨words.onward named quiet ⟨rfl, rfl, rfl, rfl, rfl, we⟩ (by rw [h]; rfl), ?_, ?_⟩
    · rw [seen]
      exact low
    · rw [seen]
      exact high

theorem InWords.beat {read : Nat} (stage : InWords m p d read)
    (low : m.wlo = d.seen.getD (2 * m.index) 0) (high : m.whi = d.seen.getD (2 * m.index + 1) 0) :
    (⟨m.wdata, m.wstrb, m.lastBeat⟩ : WriteBeat) = sending d.seen m.index := by
  have facts := Mover.index_facts stage.placed stage.inside
  have strobes : m.wstrb = if m.index = 129 then 0x0F#8 else 0xFF#8 := by
    change (if m.padBeat = true then _ else _) = _
    simp only [facts.2.1]
  unfold sending Mover.wdata
  rw [strobes, facts.1, low, high]

theorem Words.step_sends (live : i.rst = false) (place : m.pst = .w5) (stage : Words m t p d)
    (named : Named m d) (t' : Disk.Store) :
    Stage (m.next accepted g rdata i) t' (p.next i m)
      (d.next i t m (m.next accepted g rdata i)) := by
  obtain ⟨ar, r, w, b⟩ : m.arvalid = false ∧ m.rready = false ∧ m.wvalid = true ∧
      (i.mBvalid && m.bready) = false := by
    simp [Mover.arvalid, Mover.rready, Mover.wvalid, Mover.bready, place]
  have we : m.seam.1 = false := by
    unfold Mover.seam
    simp [place]
  have unread : (m.pst == .w1 || m.pst == .w2) = false := by rw [place]; rfl
  unfold Words at stage
  rw [place] at stage
  obtain ⟨words, low, high⟩ := stage
  have facts := Mover.index_facts words.placed words.inside
  rw [Mover.next_owed live (by simp [Mover.owed, place]) (by simp [place])]
  cases ready : i.mWready with
  | false =>
    have next : m.stateStep accepted g rdata i (m.addressed i) = m.addressed i := by
      unfold Mover.stateStep
      simp [place, ready]
    have stay : (Mover.draining i m (m.addressed i)).pst = .w5 := place
    have goes : InWords (Mover.draining i m (m.addressed i)) (p.next i m)
        (d.next i t m (Mover.draining i m (m.addressed i))) 2 :=
      words.onward named ⟨ar, r, by simp [ready], b⟩ ⟨rfl, rfl, rfl, rfl, rfl, we⟩
        (by rw [unread]; rfl)
    have seen (n : Mover) : (d.next i t m n).seen = d.seen := if_neg (by simp [unread])
    rw [next]
    unfold Stage
    rw [stay]
    dsimp only
    unfold Words
    rw [stay]
    refine ⟨goes, ?_, ?_⟩
    · rw [seen]
      exact low
    · rw [seen]
      exact high
  | true =>
    obtain ⟨writes, out⟩ := words.returning.addressed (i := i) words.placed named.base words.address
    obtain ⟨none, reads, beats, deposits⟩ := words.returning.aside
    have sends : d.sends ++ [⟨m.wdata, m.wstrb, m.lastBeat⟩] = sendings d.seen (m.index + 1) := by
      rw [sendings_succ, words.returning.sends, words.beat low high]
    have length := words.returning.seen
    cases final : m.lastBeat with
    | true =>
      have gone := facts.2.2.1 final
      rw [final, gone] at sends
      rw [show 2 * m.index + 2 = 2 * (m.index + 1) from rfl, gone] at length
      simp only [Stage, Mover.draining, Mover.stateStep, place, ready, Move.next, Owed.next,
        Mover.seam, ar, r, w, b, final, Bool.and_false, Bool.false_and, Bool.and_self,
        Bool.false_eq_true, if_false, if_true, Bool.or_true]
      exact
        { placed := ⟨words.placed.burst, words.placed.addr⟩
          returning :=
            { errand := words.returning.errand
              writes := writes
              sends := sends
              seen := length
              answers := words.returning.answers
              aside := ⟨none, reads, beats, deposits⟩ }
          address := out
          ended := rfl }
    | false =>
      obtain ⟨-, step, inside⟩ := facts.2.2.2 final
      rw [final] at sends
      simp only [Stage, Words, Mover.draining, Mover.stateStep, place, ready, Move.next, Owed.next,
        Mover.seam, ar, r, w, b, final, Bool.and_false, Bool.false_and, Bool.and_self,
        Bool.false_eq_true, if_false, if_true, Bool.or_false]
      have index : 16 * m.pBurst.toNat + (m.pBeat + 1).toNat = m.index + 1 := by
        rw [step]
        rfl
      exact
        { placed := ⟨words.placed.burst, words.placed.addr⟩
          inside := inside
          returning :=
            { errand := words.returning.errand
              writes := writes
              sends := by
                change _ = sendings d.seen (16 * m.pBurst.toNat + (m.pBeat + 1).toNat)
                rw [index]
                exact sends
              seen := by
                change d.seen.length = 2 * (16 * m.pBurst.toNat + (m.pBeat + 1).toNat) + 0
                rw [index]
                exact length
              answers := words.returning.answers
              aside := ⟨none, reads, beats, deposits⟩ }
          address := out
          open_ := words.open_ }

theorem InAw.step (live : i.rst = false) (place : m.pst = .aw) (stage : InAw m p d)
    (t' : Disk.Store) :
    Stage (m.next accepted g rdata i) t' (p.next i m)
      (d.next i t m (m.next accepted g rdata i)) := by
  obtain ⟨ar, r, w, b⟩ := silent (m := m) (by simp [place])
  obtain ⟨address, addressed, ended⟩ := stage.address
  obtain ⟨none, reads, beats, deposits⟩ := stage.returning.aside
  have port : p.next i m = p := owed_silent ⟨ar, r, w, b⟩ address
  rw [Mover.next_owed live (by simp [Mover.owed, place]) (by simp [place]), port]
  simp only [Stage, Words, Mover.draining, Mover.stateStep, place, Move.next, Mover.addressed,
    Mover.seam, ar, r, w, b, address, Bool.and_false, Bool.false_and, Bool.false_eq_true, if_false]
  exact
    { placed := ⟨stage.placed.burst, stage.placed.addr⟩
      inside := fun _ => Nat.zero_le 1
      returning :=
        { errand := stage.returning.errand
          writes := stage.returning.writes
          sends := stage.returning.sends
          seen := stage.returning.seen.trans (by
            change 32 * m.pBurst.toNat = 2 * (16 * m.pBurst.toNat + 0) + 0
            omega)
          answers := stage.returning.answers
          aside := ⟨none, reads, beats, deposits⟩ }
      address := by rw [addressed]; rfl
      open_ := ended }

/-- `P_B`: the burst is answered once its address and its beats are taken, and the master goes on
to the next, or rests. -/
theorem InB.step (live : i.rst = false) (place : m.pst = .b) (stage : InB m p d)
    (named : Named m d) (lawful : i.mBvalid = true → p.addressed = true ∨
      m.awOn = true ∧ i.mAwready = true) (held : m.pDrop = d.dropped) (t' : Disk.Store) :
    Stage (m.next accepted g rdata i) t' (p.next i m)
      (d.next i t m (m.next accepted g rdata i)) := by
  obtain ⟨ar, r, w, b⟩ : m.arvalid = false ∧ m.rready = false ∧ m.wvalid = false ∧
      m.bready = true := by
    simp [Mover.arvalid, Mover.rready, Mover.wvalid, Mover.bready, place]
  obtain ⟨writes, out⟩ := stage.returning.addressed (i := i) stage.placed named.base stage.address
  obtain ⟨none, reads, beats, deposits⟩ := stage.returning.aside
  have few := stage.placed.burst
  have here : (m.addressed i).pst = .b := place
  rw [Mover.next_owed live (by simp [Mover.owed, place]) (by simp [place])]
  cases valid : i.mBvalid with
  | false =>
    simp only [Stage, Mover.draining, Mover.stateStep, place, here, Move.next, Owed.next,
      Mover.respond, Mover.seam, ar, r, w, b, valid, Bool.and_false, Bool.false_and, Bool.false_eq_true, if_false,
      Bool.or_false]
    exact
      { placed := ⟨few, stage.placed.addr⟩
        returning :=
          { errand := stage.returning.errand
            writes := writes
            sends := stage.returning.sends
            seen := stage.returning.seen
            answers := stage.returning.answers
            aside := ⟨none, reads, beats, deposits⟩ }
        address := out
        ended := stage.ended }
  | true =>
    have taken : (p.addressed || (m.awOn && i.mAwready)) = true := by
      rcases lawful valid with before | ⟨on, ready⟩
      · simp [before]
      · simp [on, ready]
    rw [taken] at writes out
    have off : (m.addressed i).awOn = false := out
    have bumped := stage.placed.bumped
    have length : (burstsOf d.base (m.pBurst.toNat + 1)).length = m.pBurst.toNat + 1 := by
      simp [burstsOf]
    have returned {d' : Move} (writes : d'.writes = burstsOf d.base (m.pBurst.toNat + 1))
        (base : d'.base = d.base) (sends : d'.sends = d.sends) (seen : d'.seen = d.seen)
        (answers : d'.answers = d.answers + 1)
        (aside : d'.reads = [] ∧ d'.beats = [] ∧ d'.deposits = [])
        (complete : d'.dropped = false → m.pBurst.toNat + 1 = 9) : Returned d' := by
      have count : d'.writes.length = m.pBurst.toNat + 1 := by rw [writes, length]
      exact
        { writes := by rw [count, writes, base]
          few := by omega
          sends := by
            rw [count, sends, seen]
            exact stage.returning.sends
          read := by
            rw [count, seen, stage.returning.seen]
          answered := by rw [count, answers, stage.returning.answers]
          aside := aside
          complete := fun kept => count.trans (complete kept) }
    have rests {n : Mover} {d' : Move} (errand : d'.errand = .back) (on : n.awOn = false)
        (returned : Returned d') : InIdle n ⟨p.beats, false, false⟩ d' :=
      { port := ⟨on, none, rfl, rfl⟩
        fetched := fun fetch => absurd (errand.symm.trans fetch) (by simp)
        returned := fun _ => returned
        emptied := fun away => absurd (errand.symm.trans away) (by simp) }
    cases last : m.last with
    | true =>
      have eight : m.pBurst = 8#4 := by simpa [Mover.last] using last
      simp only [Stage, Mover.draining, Mover.stateStep, place, Move.next, Owed.next,
        Mover.respond, Mover.bump, Mover.seam, ar, r, w, b, valid, last, Bool.and_false,
        Bool.false_and, Bool.and_self, Bool.false_eq_true, if_false, if_true]
      refine rests stage.returning.errand off (returned writes rfl rfl rfl rfl
        ⟨reads, beats, deposits⟩ fun _ => ?_)
      rw [eight]
      rfl
    | false =>
      have data := Mover.burst_data last few
      cases drop : m.pDrop with
      | true =>
        simp only [Stage, Mover.draining, Mover.stateStep, place, Move.next, Owed.next,
          Mover.respond, Mover.bump, Mover.seam, ar, r, w, b, valid, last, drop, Bool.and_false,
          Bool.false_and, Bool.and_self, Bool.false_eq_true, if_false, if_true]
        refine rests stage.returning.errand off (returned writes rfl rfl rfl rfl
          ⟨reads, beats, deposits⟩ fun kept => ?_)
        have undropped : (d.dropped || Move.drops i m) = false := kept
        simp [← held, drop] at undropped
      | false =>
        have half : beatsOf (m.pBurst.toNat + 1) = 16 * (m.pBurst.toNat + 1) := if_pos (by omega)
        simp only [Stage, Mover.draining, Mover.stateStep, place, Move.next, Owed.next,
          Mover.respond, Mover.bump, Mover.seam, ar, r, w, b, valid, last, drop, Bool.and_false,
          Bool.false_and, Bool.and_self, Bool.false_eq_true, if_false, if_true]
        exact
          { placed := ⟨by simp only [bumped]; omega, rfl⟩
            returning :=
              { errand := stage.returning.errand
                writes := by
                  simp only [bumped]
                  exact writes
                sends := by
                  simp only [bumped]
                  rw [← half]
                  exact stage.returning.sends
                seen := by
                  simp only [bumped]
                  have seen := stage.returning.seen
                  rw [half] at seen
                  exact seen.trans (by omega)
                answers := by
                  simp only [bumped]
                  rw [stage.returning.answers]
                aside := ⟨none, reads, beats, deposits⟩ }
            address := ⟨off, rfl, rfl⟩ }

section Idle

theorem Mover.next_rests (live : i.rst = false) (idle : m.pst = .idle) (address : m.awOn = false) :
    (m.next false g rdata i).pst = .idle ∧ (m.next false g rdata i).awOn = false ∧
      (m.next false g rdata i).storeWe = false ∧
      ((m.next false g rdata i).done = true → m.done = true ∧
        (m.next false g rdata i).error = m.error) := by
  have we : m.seam.1 = false := by
    unfold Mover.seam
    simp [idle]
  unfold Mover.next Mover.master Mover.fabric Mover.drained Mover.stateStep Mover.addressed
  simp only [live, idle, address, we, Bool.false_eq_true, if_false]
  cases m.pDrop <;> cases i.fabricRst <;> simp [idle, Mover.owed, address]

theorem Mover.next_begins (live : i.rst = false) (idle : m.pst = .idle) (address : m.awOn = false)
    (drop : m.pDrop = false) : m.next true g rdata i =
      let x := Mover.begin g (m.addressed i)
      if i.fabricRst then
        { draining i m x with
          pDrop := false, takeOnly := false, pst := .idle, busy := false, hiPending := false,
          rbValid := false }
      else { draining i m x with pDrop := false, takeOnly := g.goQ.getLsbD 2 } := by
  have whole : m.master true g rdata i = m.fabric i (Mover.begin g (m.addressed i)) := by
    unfold Mover.master Mover.drained Mover.stateStep
    simp [live, idle, drop]
  have off : m.owed = false := by simp [Mover.owed, idle, address]
  have falls : (m.addressed i).pDrop = false := drop
  unfold Mover.next
  rw [whole]
  unfold Mover.fabric Mover.draining
  cases reset : i.fabricRst with
  | true => simp [off, live, Mover.begin, falls]
  | false => simp [live, idle, Mover.begin, falls]

theorem InIdle.step (live : i.rst = false) (place : m.pst = .idle) (stage : InIdle m p d)
    (t' : Disk.Store) : Stage (m.next false g rdata i) t' (p.next i m)
      (d.next i t m (m.next false g rdata i)) := by
  obtain ⟨ar, r, w, b⟩ := silent (m := m) (by simp [place])
  obtain ⟨address, none, addressed, ended⟩ := stage.port
  obtain ⟨idle, off, we, done⟩ : (m.next false g rdata i).pst = .idle ∧ _ :=
    Mover.next_rests live place address
  have port : p.next i m = p := owed_silent ⟨ar, r, w, b⟩ address
  have record : d.next i t m (m.next false g rdata i) = d := by
    unfold Move.next Move.drops
    rw [we, ar, r, w, b, address, place]
    simp
  rw [port, record]
  unfold Stage
  rw [idle]
  exact
    { port := ⟨off, none, addressed, ended⟩
      fetched := fun fetch =>
        { stage.fetched fetch with
          judged := fun up => by
            rw [(done up).2]
            exact (stage.fetched fetch).judged (done up).1 }
      returned := stage.returned
      emptied := stage.emptied }

theorem InIdle.blank (port : m.awOn = false ∧ p.beats = 0 ∧ p.addressed = false ∧ p.ended = false)
    (undone : m.done = false) : InIdle m p (.begun g true) where
  port := port
  fetched := fun _ =>
    { reads := rfl
      few := Nat.zero_le 9
      whole := rfl
      filled := Or.inl rfl
      aside := ⟨rfl, rfl⟩
      complete := fun kept => absurd kept (by simp [Move.begun])
      judged := fun up => absurd up (by simp [undone]) }
  returned := fun _ =>
    { writes := rfl
      few := Nat.zero_le 9
      sends := rfl
      read := Nat.zero_le 0
      answered := rfl
      aside := ⟨rfl, rfl, rfl⟩
      complete := fun kept => absurd kept (by simp [Move.begun]) }
  emptied := fun _ =>
    { deposits := Or.inl rfl
      aside := ⟨rfl, rfl, rfl, rfl⟩
      complete := fun kept => absurd kept (by simp [Move.begun]) }

/-- A go accepted begins a move: a fetch or a take-away with its slot, a write-back with its first
burst; the fabric's reset in that tick leaves it over before it began. -/
theorem InIdle.begins (live : i.rst = false) (place : m.pst = .idle) (stage : InIdle m p d)
    (drop : m.pDrop = false) (t' : Disk.Store) :
    Stage (m.next true g rdata i) t' (p.next i m) (.begun g i.fabricRst) := by
  obtain ⟨ar, r, w, b⟩ := silent (m := m) (by simp [place])
  obtain ⟨address, none, addressed, ended⟩ := stage.port
  have port : p.next i m = p := owed_silent ⟨ar, r, w, b⟩ address
  have off : (m.addressed i).awOn = false := by simp [Mover.addressed, address]
  have placed : (Mover.begin g (m.addressed i)).Placed := ⟨by simp [Mover.begin], rfl⟩
  rw [Mover.next_begins live place address drop, port]
  cases reset : i.fabricRst with
  | true =>
    simp only [Stage, Mover.draining, reset, if_true]
    exact InIdle.blank ⟨off, none, addressed, ended⟩ (by simp)
  | false =>
    cases back : g.goQ.getLsbD 1 with
    | true =>
      simp only [Stage, Mover.draining, Mover.begin, reset, back, Bool.false_eq_true, if_false,
        if_true]
      exact
        { placed := ⟨placed.burst, rfl⟩
          returning :=
            { errand := if_pos back
              writes := by
                rw [addressed]
                rfl
              sends := rfl
              seen := rfl
              answers := rfl
              aside := ⟨none, rfl, rfl, rfl⟩ }
          address := ⟨off, addressed, ended⟩ }
    | false =>
      simp only [Stage, Mover.draining, Mover.begin, reset, back, Bool.false_eq_true, if_false]
      have errand : (Move.begun g false).errand =
          if g.goQ.getLsbD 2 then .away else .fetch := by
        simp only [Move.begun, back, Bool.false_eq_true, if_false]
      exact
        { placed := ⟨placed.burst, rfl⟩
          first := rfl
          errand := by
            rw [errand]
            cases g.goQ.getLsbD 2 <;> simp
          bare := by
            rw [errand]
            cases g.goQ.getLsbD 2 <;> rfl
          standing := ⟨rfl, rfl, rfl⟩
          low := ⟨rfl, rfl⟩
          port := ⟨off, none, addressed, ended⟩
          blank := ⟨rfl, rfl, rfl, rfl, rfl⟩ }

end Idle

section Kept

/-- What a state's own clock keeps of a running move: its registers and the drop, and that it is
busy and undone unless it ends. -/
structure Mover.Keeps (m x : Mover) : Prop where
  base : x.pBase = m.pBase
  slot : x.pSlot = m.pSlot
  tag : x.pTag = m.pTag
  drop : x.pDrop = m.pDrop
  runs : x.pst ≠ .idle → x.busy = m.busy ∧ x.done = m.done
  undone : m.pst ≠ .take → m.pst ≠ .tag → m.pDrop = true → x.done = true → m.done = true

theorem Mover.stateStep_keeps (running : m.pst ≠ .idle) :
    m.Keeps (m.stateStep accepted g rdata i (m.addressed i)) := by
  have beat (x : Mover) : (m.beatIn i x).pBase = x.pBase ∧ (m.beatIn i x).pSlot = x.pSlot ∧
      (m.beatIn i x).pTag = x.pTag ∧ (m.beatIn i x).pDrop = x.pDrop ∧
      (m.beatIn i x).busy = x.busy ∧ (m.beatIn i x).done = x.done := by
    unfold Mover.beatIn
    split_ifs <;> exact ⟨rfl, rfl, rfl, rfl, rfl, rfl⟩
  have word (x : Mover) : (m.wordIn x).pBase = x.pBase ∧ (m.wordIn x).pSlot = x.pSlot ∧
      (m.wordIn x).pTag = x.pTag ∧ (m.wordIn x).pDrop = x.pDrop ∧
      (m.wordIn x).busy = x.busy ∧ (m.wordIn x).done = x.done := by
    unfold Mover.wordIn Mover.bump
    split_ifs <;> exact ⟨rfl, rfl, rfl, rfl, rfl, rfl⟩
  unfold Mover.stateStep
  cases place : m.pst with
  | idle => exact absurd place running
  | take =>
    dsimp only
    split_ifs
    · exact ⟨rfl, rfl, rfl, rfl, by simp, fun other => absurd place other⟩
    · exact ⟨rfl, rfl, rfl, rfl, fun _ => ⟨rfl, rfl⟩, fun _ _ _ => id⟩
  | ar =>
    dsimp only
    split_ifs <;> exact ⟨rfl, rfl, rfl, rfl, fun _ => ⟨rfl, rfl⟩, fun _ _ _ => id⟩
  | r =>
    obtain ⟨base, slot, tag, drop, busy, done⟩ := word (m.beatIn i (m.addressed i))
    obtain ⟨base', slot', tag', drop', busy', done'⟩ := beat (m.addressed i)
    exact ⟨base.trans base', slot.trans slot', tag.trans tag', drop.trans drop',
      fun _ => ⟨busy.trans busy', done.trans done'⟩,
      fun _ _ _ up => by rw [← up]; exact (done.trans done').symm⟩
  | tag => exact ⟨rfl, rfl, rfl, rfl, by simp, fun _ other => absurd place other⟩
  | b =>
    dsimp only
    unfold Mover.respond Mover.bump
    split_ifs
    · exact ⟨rfl, rfl, rfl, rfl, by simp, fun _ _ drop up => by simp [drop] at up⟩
    · exact ⟨rfl, rfl, rfl, rfl, fun _ => ⟨rfl, rfl⟩, fun _ _ _ => id⟩
    · exact ⟨rfl, rfl, rfl, rfl, fun _ => ⟨rfl, rfl⟩, fun _ _ _ => id⟩
    · exact ⟨rfl, rfl, rfl, rfl, fun _ => ⟨rfl, rfl⟩, fun _ _ _ => id⟩
  | w5 =>
    dsimp only
    split_ifs <;> exact ⟨rfl, rfl, rfl, rfl, fun _ => ⟨rfl, rfl⟩, fun _ _ _ => id⟩
  | aw => exact ⟨rfl, rfl, rfl, rfl, fun _ => ⟨rfl, rfl⟩, fun _ _ _ => id⟩
  | w0 => exact ⟨rfl, rfl, rfl, rfl, fun _ => ⟨rfl, rfl⟩, fun _ _ _ => id⟩
  | w1 => exact ⟨rfl, rfl, rfl, rfl, fun _ => ⟨rfl, rfl⟩, fun _ _ _ => id⟩
  | w2 => exact ⟨rfl, rfl, rfl, rfl, fun _ => ⟨rfl, rfl⟩, fun _ _ _ => id⟩
  | w3 => exact ⟨rfl, rfl, rfl, rfl, fun _ => ⟨rfl, rfl⟩, fun _ _ _ => id⟩
  | w4 => exact ⟨rfl, rfl, rfl, rfl, fun _ => ⟨rfl, rfl⟩, fun _ _ _ => id⟩

/-- What the fabric's reset leaves of a running move's clock, and the store's port. -/
structure Mover.Runs (i : Input c) (m x n : Mover) : Prop where
  base : n.pBase = x.pBase
  slot : n.pSlot = x.pSlot
  tag : n.pTag = x.pTag
  done : n.done = (x.done && !i.fabricRst)
  port : n.storeWe = m.seam.1 ∧ n.storeSlot = m.pSlot ∧ n.storeAddr = m.seam.2.1 ∧
    n.storeWdata = m.seam.2.2
  goes : n.pst = x.pst ∧ n.busy = x.busy ∨ n.pst = .idle
  drop : n.pDrop = (x.pDrop || i.fabricRst) ∨ n.pst = .idle

section

variable (live : i.rst = false) (running : m.pst ≠ .idle)

include live running

theorem Mover.next_runs :
    Mover.Runs i m (m.stateStep accepted g rdata i (m.addressed i))
      (m.next accepted g rdata i) := by
  cases owed : m.owed with
  | true =>
    rw [Mover.next_owed live owed running]
    exact ⟨rfl, rfl, rfl, rfl, ⟨rfl, rfl, rfl, rfl⟩, Or.inl ⟨rfl, rfl⟩, Or.inl rfl⟩
  | false =>
    rw [Mover.next_unowed live owed running]
    cases reset : i.fabricRst with
    | true =>
      exact ⟨rfl, rfl, rfl, by simp [Mover.draining, reset], ⟨rfl, rfl, rfl, rfl⟩, Or.inr rfl,
        Or.inr rfl⟩
    | false =>
      exact ⟨rfl, rfl, rfl, by simp [Mover.draining, reset], ⟨rfl, rfl, rfl, rfl⟩,
        Or.inl ⟨rfl, rfl⟩, Or.inl (by simp [Mover.draining, reset])⟩

theorem Mover.next_kept :
    m.Keeps (m.stateStep accepted g rdata i (m.addressed i)) ∧
      Mover.Runs i m (m.stateStep accepted g rdata i (m.addressed i)) (m.next accepted g rdata i) :=
  ⟨Mover.stateStep_keeps running, Mover.next_runs live running⟩

theorem Named.next (named : Named m d) (goes : (m.next accepted g rdata i).pst ≠ .idle) :
    Named (m.next accepted g rdata i) (d.next i t m (m.next accepted g rdata i)) := by
  obtain ⟨keeps, runs⟩ := @Mover.next_kept _ i g accepted rdata m live running
  obtain ⟨place, busy⟩ := runs.goes.resolve_right goes
  obtain ⟨up, undone⟩ := keeps.runs (place ▸ goes)
  exact
    { busy := by rw [busy, up, named.busy]
      undone := by rw [runs.done, undone, named.undone]; rfl
      slot := by rw [runs.slot, keeps.slot]; exact named.slot
      base := by rw [runs.base, keeps.base]; exact named.base
      tag := by rw [runs.tag, keeps.tag]; exact named.tag }

theorem dropped_next (named : Named m d)
    (held : d.dropped = true → m.pst ≠ .take ∧ m.pst ≠ .tag ∧ m.pDrop = true)
    (dropped : (d.dropped || Move.drops i m) = true) :
    (m.next accepted g rdata i).done = false ∧
      ((m.next accepted g rdata i).pst = .idle ∨ (m.next accepted g rdata i).pDrop = true) := by
  obtain ⟨keeps, runs⟩ := @Mover.next_kept _ i g accepted rdata m live running
  have done := runs.done
  have drop := runs.drop
  cases reset : i.fabricRst with
  | true =>
    rw [reset] at done drop
    refine ⟨by rw [done]; simp, ?_⟩
    rcases drop with drop | idle
    · exact Or.inr (by rw [drop]; simp)
    · exact Or.inl idle
  | false =>
    have before : d.dropped = true := by simpa [Move.drops, reset] using dropped
    obtain ⟨take, tag, up⟩ := held before
    constructor
    · cases ended : (m.next accepted g rdata i).done with
      | false => rfl
      | true =>
        rw [ended, reset, Bool.not_false, Bool.and_true] at done
        have still := keeps.undone take tag up done.symm
        rw [named.undone] at still
        exact still.symm
    · rcases drop with drop | idle
      · exact Or.inr (by rw [drop, keeps.drop, up]; rfl)
      · exact Or.inl idle

theorem drained_next (held : m.pDrop = true → d.dropped = true)
    (goes : (m.next accepted g rdata i).pst ≠ .idle)
    (drop : (m.next accepted g rdata i).pDrop = true) :
    (d.dropped || Move.drops i m) = true := by
  obtain ⟨keeps, runs⟩ := @Mover.next_kept _ i g accepted rdata m live running
  have early : m.pst ≠ .tag := fun tag => goes ((Mover.next_ends live).2 tag)
  rw [drops_eq running early]
  rw [runs.drop.resolve_right goes, keeps.drop] at drop
  cases before : m.pDrop with
  | true => rw [held before, Bool.true_or]
  | false =>
    rw [before, Bool.false_or] at drop
    rw [drop, Bool.or_true]

end

end Kept

namespace Regs

variable {busy : Bool} {beat : Option (BitVec 4)} {ch : Channel}

theorem write_addr (x : Regs) (ctl : beat = some 3#4) :
    (g.write beat i (bookWalk ch g busy (g.bookWrites beat i (g.bookGo busy x)))).addr =
      x.addr := by
  have go : (g.bookGo busy x).addr = x.addr := by
    unfold bookGo
    split_ifs <;> rfl
  rw [write_ctl ctl]
  exact go

theorem next_judged (asked : (g.next busy beat ch i).goAny = true)
    (judged : (g.next busy beat ch i).badAlignQ = false) :
    (g.next busy beat ch i).addr.toNat % 128 = 0 := by
  obtain ⟨rst, fabric, ctl, -⟩ := next_asked asked
  have addr : (g.next busy beat ch i).addr = g.addr := by
    unfold next
    simp only [rst, fabric, Bool.or_self, Bool.false_eq_true, if_false]
    exact write_addr _ ctl
  have low : g.addr.extractLsb' 0 7 = 0#7 := by
    change (g.addr.extractLsb' 0 7 != 0#7) = false at judged
    simpa using judged
  have value := congrArg BitVec.toNat low
  rw [BitVec.extractLsb'_toNat, Nat.shiftRight_zero] at value
  rw [addr]
  exact value

/-- A go accepted is one of the three, of a master that is free, and a fetch or a write-back has
an address that was judged. -/
theorem accepts_cases (taken : g.accepts busy = true) : g.goAny = true ∧ busy = false ∧
    ((g.goQ.getLsbD 1 = true → g.goQ.getLsbD 2 = false) ∧
      (g.goQ.getLsbD 2 = false → g.badAlignQ = false)) := by
  have one : ∀ go : BitVec 4, (go.extractLsb' 0 3 == 1#3 || go.extractLsb' 0 3 == 2#3 ||
      go.extractLsb' 0 3 == 4#3) = true → go.getLsbD 1 = true → go.getLsbD 2 = false := by decide
  unfold accepts refuse at taken
  cases any : g.goAny with
  | false => simp [any] at taken
  | true =>
    simp only [any, Bool.true_and, Bool.not_eq_true', Bool.or_eq_false_iff,
      Bool.not_eq_false'] at taken
    obtain ⟨⟨⟨⟨⟨single, align⟩, -⟩, free⟩, -⟩, -⟩ := taken
    refine ⟨rfl, free, one g.goQ single, fun bare => ?_⟩
    cases bad : g.badAlignQ with
    | false => rfl
    | true =>
      rw [bad, bare] at align
      simp at align

end Regs

section Clocks

open Transfer (Lawful Timely)

variable {e : Clock c} {s : Transfer c}

theorem Standing.free (standing : Standing s) (taken : s.pack.accepts = true) :
    s.pack.mover.pst = .idle := by
  by_contra running
  have free := (Regs.accepts_cases taken).2.1
  rw [(standing.named running).busy] at free
  simp at free

theorem Standing.stage_running (standing : Standing s) (lawful : Lawful e s) (timely : Timely e s)
    (running : s.pack.mover.pst ≠ .idle) :
    Stage (s.next e).pack.mover (s.next e).store (s.next e).port
      (s.move.next e.input s.store s.pack.mover (s.next e).pack.mover) := by
  have live := lawful.live
  have named := standing.named running
  have stage := standing.stage
  have held : s.pack.mover.pDrop = s.move.dropped := by
    rw [Bool.eq_iff_iff]
    exact ⟨standing.drained running, fun dropped =>
      (standing.dropped dropped).2.resolve_left running⟩
  have reads (place : s.pack.mover.pst = .w0 ∨ s.pack.mover.pst = .w1 ∨ s.pack.mover.pst = .w2 ∨
      s.pack.mover.pst = .w3 ∨ s.pack.mover.pst = .w4)
      (words : Words s.pack.mover s.store s.port s.move) :
      Stage (s.next e).pack.mover (s.next e).store (s.next e).port
        (s.move.next e.input s.store s.pack.mover (s.next e).pack.mover) :=
    Words.step_reads live words named place (rfl : s.seam.slot = _) (rfl : s.seam.addr = _)
      e.controller
  unfold Stage at stage
  cases place : s.pack.mover.pst with
  | idle => exact absurd place running
  | take =>
    rw [place] at stage
    exact InTake.step live place stage named _
  | ar =>
    rw [place] at stage
    exact InAr.step live place stage named _
  | r =>
    rw [place] at stage
    cases hi : s.pack.mover.hiPending with
    | true => exact InR.step_high live place stage named hi lawful.beats held _
    | false =>
      cases rb : s.pack.mover.rbValid with
      | true =>
        exact InR.step_low live place stage named hi rb (fun reset => timely.apart reset place rb)
          held _
      | false => exact InR.step_free live place stage hi rb lawful.beats _
  | tag =>
    rw [place] at stage
    exact InTag.step live place stage named _
  | aw =>
    rw [place] at stage
    exact InAw.step live place stage _
  | w0 =>
    rw [place] at stage
    exact reads (Or.inl place) stage
  | w1 =>
    rw [place] at stage
    exact reads (by simp [place]) stage
  | w2 =>
    rw [place] at stage
    exact reads (by simp [place]) stage
  | w3 =>
    rw [place] at stage
    exact reads (by simp [place]) stage
  | w4 =>
    rw [place] at stage
    exact reads (by simp [place]) stage
  | w5 =>
    rw [place] at stage
    exact Words.step_sends live place stage named _
  | b =>
    rw [place] at stage
    exact InB.step live place stage named
      (fun valid => (lawful.answers valid (by simp [Mover.bready, place])).2) held _

theorem Standing.next (standing : Standing s) (lawful : Lawful e s) (timely : Timely e s) :
    Standing (s.next e) := by
  have live := lawful.live
  have idle (taken : s.pack.accepts = true) : s.pack.mover.pst = .idle := standing.free taken
  have judged : (s.next e).pack.regs.goAny = true → (s.next e).pack.regs.badAlignQ = false →
      (s.next e).pack.regs.addr.toNat % 128 = 0 := Regs.next_judged
  have mover : (s.next e).pack.mover =
      s.pack.mover.next s.pack.accepts s.pack.regs s.store.rdata e.input := rfl
  cases taken : s.pack.accepts with
  | true =>
    have place := idle taken
    have drop := timely.free taken
    obtain ⟨any, -, single, good⟩ := Regs.accepts_cases taken
    have rest : InIdle s.pack.mover s.port s.move := by
      have stage := standing.stage
      unfold Stage at stage
      rw [place] at stage
      exact stage
    have move : (s.next e).move = .begun s.pack.regs e.input.fabricRst := if_pos taken
    rw [taken] at mover
    have begins : s.pack.mover.next true s.pack.regs s.store.rdata e.input = _ :=
      Mover.next_begins live place rest.port.1 drop
    exact
      { judged := judged
        aligned := fun other => by
          rw [move] at other ⊢
          refine standing.judged any (good ?_)
          cases back : s.pack.regs.goQ.getLsbD 1 with
          | true => exact single back
          | false =>
            cases away : s.pack.regs.goQ.getLsbD 2 with
            | false => rfl
            | true => exact absurd (by simp only [Move.begun, back, away]; rfl) other
        named := fun running => by
          rw [mover, begins] at running ⊢
          rw [move]
          cases reset : e.input.fabricRst with
          | true =>
            rw [reset] at running
            exact absurd rfl running
          | false => exact ⟨rfl, by simp [Mover.draining, Mover.begin], rfl, rfl, rfl⟩
        dropped := fun dropped => by
          rw [move] at dropped
          have reset : e.input.fabricRst = true := dropped
          rw [mover, begins, reset]
          exact ⟨by simp [Mover.draining, reset], Or.inl rfl⟩
        drained := fun running dropped => by
          rw [mover, begins] at running dropped
          cases reset : e.input.fabricRst with
          | true =>
            rw [reset] at running
            exact absurd rfl running
          | false =>
            rw [reset] at dropped
            exact absurd dropped (by simp)
        stage := by
          rw [move, mover]
          exact rest.begins live place drop _ }
  | false =>
    have move : (s.next e).move =
        s.move.next e.input s.store s.pack.mover (s.next e).pack.mover := if_neg (by simp [taken])
    have aligned : (s.next e).move.errand ≠ .away → (s.next e).move.base.toNat % 128 = 0 := by
      rw [move]
      exact standing.aligned
    by_cases place : s.pack.mover.pst = .idle
    · have rest : InIdle s.pack.mover s.port s.move := by
        have stage := standing.stage
        unfold Stage at stage
        rw [place] at stage
        exact stage
      rw [taken] at mover
      obtain ⟨still, -, -, done⟩ : (s.pack.mover.next false s.pack.regs s.store.rdata
        e.input).pst = .idle ∧ _ := Mover.next_rests live place rest.port.1
      exact
        { judged := judged
          aligned := aligned
          named := fun running => by
            rw [mover] at running
            exact absurd still running
          dropped := fun dropped => by
            rw [move] at dropped
            have before : s.move.dropped = true := by
              have drops : (s.move.dropped || Move.drops e.input s.pack.mover) = true := dropped
              simpa [Move.drops, place] using drops
            rw [mover]
            refine ⟨?_, Or.inl still⟩
            cases ended : (s.pack.mover.next false s.pack.regs s.store.rdata e.input).done with
            | false => rfl
            | true =>
              have up := (done ended).1
              rw [(standing.dropped before).1] at up
              exact up.symm
          drained := fun running => by
            rw [mover] at running
            exact absurd still running
          stage := by
            rw [move, mover]
            exact rest.step live place _ }
    · have named := standing.named place
      exact
        { judged := judged
          aligned := aligned
          named := fun goes => by
            rw [move]
            exact Named.next live place named goes
          dropped := fun dropped => by
            rw [move] at dropped
            refine dropped_next live place named (fun before => ?_) dropped
            have stage := standing.stage
            unfold Stage at stage
            refine ⟨fun take => ?_, fun tag => ?_,
              (standing.dropped before).2.resolve_left place⟩
            · rw [take] at stage
              rw [stage.standing.2.1] at before
              simp at before
            · rw [tag] at stage
              rw [stage.standing.2] at before
              simp at before
          drained := fun running drop => by
            rw [move]
            exact drained_next live place (standing.drained place) running drop
          stage := by
            rw [move]
            exact standing.stage_running lawful timely place }

end Clocks
end MuirFpga.Packs.DiskPack
