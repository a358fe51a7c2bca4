import MuirFpga.Disk.Trap

/-!
# A block, from its lookup to its data

The header's states between `C_LOOK` and the data leave the walk on the block with its first word at the port. A
Write then takes the page's words into the store and makes the checkword of them.
-/

namespace MuirFpga.Disk

open Arith
open Quux (Seam)

namespace Machine

variable {x : Input × Seam} {d : Machine} {b : Block}

section Header

/-- The states in which a block's header is read. -/
def atHeader (state : ChState) : Prop := state = .hdrc ∨ state = .hdre ∨ state = .hdrck ∨ state = .pf

/-- The first word at the walk's port, so many clocks on. -/
def Ported (b : Block) (p : Nat) (d : Machine) : Prop :=
  b.read = true → (1 ≤ p → d.s.chbQ = b.words 0#8) ∧ (2 ≤ p → d.s.chbQ2 = b.words 0#8)

/-- The walk on a block with none of its words taken. -/
structure Opening (b : Block) (place : ChState) (d : Machine) : Prop where
  on : Standing b d
  state : d.c.walk.chState = place
  word : d.c.walk.chI = 0#9
  address : d.c.walk.chRa = 0#9

/-- The walk between `C_LOOK` and the data. -/
inductive Approaching (b : Block) (d : Machine) : Prop
  | hdrc (p : Nat) (within : p < 3) (on : Opening b .hdrc d) (phase : d.c.walk.chPh = BitVec.ofNat 3 p)
    (ported : Ported b p d)
  | hdre (on : Opening b .hdre d) (ported : Ported b 2 d)
  | hdrck (on : Opening b .hdrck d) (ported : Ported b 2 d)
  | pf (on : Opening b .pf d) (clear : d.c.walk.chPh = 0#3 ∧ d.c.walk.eccR = 0#32) (ported : Ported b 2 d)

/-- The walk at the first clock of the data. -/
structure Arrived (b : Block) (d : Machine) : Prop where
  on : Opening b (if b.read then .data else .move) d
  clear : d.c.walk.chPh = 0#3 ∧ d.c.walk.eccR = 0#32
  ported : Ported b 2 d

/-- What a clock of the header's states comes to. -/
inductive Approached (b : Block) (d : Machine) : Prop
  | header (there : Approaching b d)
  | data (there : Arrived b d)
  | left (off : d.c.walk.chState = .accmul ∨ d.c.walk.chState = .look)

theorem Opening.ported {place : ChState} (f : Opening b place d) {p : Nat} (ported : Ported b p d) :
    Ported b (p + 1) (d.next x) := by
  intro reads
  refine ⟨fun _ => ?_, fun two => (ported reads).1 (by omega)⟩
  rw [f.on.chbQ reads, f.address]
  rfl

theorem Ported.settled (ported : Ported b 3 d) : Ported b 2 d :=
  fun reads => ⟨fun _ => (ported reads).1 (by decide), fun _ => (ported reads).2 (by decide)⟩

variable (calm : Undisturbed x d) (leaves : Leaves b.slot x)

include calm leaves

theorem Opening.step {place onward : ChState} (f : Opening b place d) (away : place ≠ .move) {y : Controller}
    (made : stated x d = y) (keeps : Keeps y (d.c.flow x.1 d.s))
    (kept : y.walk.chI = d.c.walk.chI ∧ y.walk.chRa = (d.c.flow x.1 d.s).walk.chRa ∨
      y.walk.chI = 0#9 ∧ y.walk.chRa = 0#9) (goes : y.walk.chState = onward) :
    Opening b onward (d.next x) ∧ (d.next x).c.walk = y.walk := by
  obtain ⟨on, walk⟩ := f.on.step calm leaves (by rw [f.state]; exact away) made keeps
  refine ⟨⟨on, (congrArg Walk.chState walk).trans goes, (congrArg Walk.chI walk).trans ?_, (congrArg Walk.chRa walk).trans ?_⟩, walk⟩
  · exact kept.elim (fun same => same.1.trans f.word) And.left
  · exact kept.elim (fun same => same.2.trans ((f.on.flow_chRa x).trans f.address)) And.right

theorem Approaching.next (f : Approaching b d) : Approached b (d.next x) := by
  have stated {place : ChState} (on : Opening b place d) (apart : place ≠ .trd) :
      stated x d = d.c.stateStep x.1 x.2 d.s (d.c.flow x.1 d.s) := stated_of_ne (by rw [on.state]; exact apart)
  have leaves_ {y : Controller} (made : Machine.stated x d = y) (off : y.walk.chState = .accmul ∨ y.walk.chState = .look) :
      Approached b (d.next x) := by
    apply Approached.left
    rw [calm.alike.walk, made]
    exact off
  cases f with
  | hdrc p within on phase ported =>
    have made := stated on (by decide)
    unfold Controller.stateStep at made
    rw [on.state] at made
    unfold Controller.hdrcStep at made
    by_cases settled : p = 2
    · subst settled
      rw [if_neg (not_not.mpr phase)] at made
      cases good : d.c.walk.hdrEqQ with
      | false =>
        rw [good] at made
        exact leaves_ made (.inl rfl)
      | true =>
        rw [good] at made
        obtain ⟨after, -⟩ := on.step calm leaves (by decide) made ⟨rfl, rfl, rfl, rfl, rfl, rfl, rfl, rfl⟩ (.inl ⟨rfl, rfl⟩) rfl
        exact .header (.hdre after (on.ported ported).settled)
    · have among : p = 0 ∨ p = 1 := by omega
      rw [if_pos (by rw [phase]; rcases among with rfl | rfl <;> decide)] at made
      obtain ⟨after, walk⟩ := on.step calm leaves (by decide) made ⟨rfl, rfl, rfl, rfl, rfl, rfl, rfl, rfl⟩ (.inl ⟨rfl, rfl⟩) on.state
      refine .header (.hdrc (p + 1) (by omega) after ((congrArg Walk.chPh walk).trans ?_) (on.ported ported))
      exact (congrArg (· + 1) phase).trans (BitVec.ofNat_add _ _).symm
  | hdre on ported =>
    have made := stated on (by decide)
    unfold Controller.stateStep at made
    rw [on.state] at made
    unfold Controller.hdreStep at made
    by_cases last : d.c.walk.chPh = 3#3
    · rw [if_pos last] at made
      obtain ⟨after, -⟩ := on.step calm leaves (by decide) made ⟨rfl, rfl, rfl, rfl, rfl, rfl, rfl, rfl⟩ (.inl ⟨rfl, rfl⟩) rfl
      exact .header (.hdrck after (on.ported ported).settled)
    · rw [if_neg last] at made
      obtain ⟨after, -⟩ := on.step calm leaves (by decide) made ⟨rfl, rfl, rfl, rfl, rfl, rfl, rfl, rfl⟩ (.inl ⟨rfl, rfl⟩) on.state
      exact .header (.hdre after (on.ported ported).settled)
  | hdrck on ported =>
    have made := stated on (by decide)
    unfold Controller.stateStep at made
    rw [on.state] at made
    unfold Controller.hdrckStep at made
    by_cases first : d.c.walk.chPh = 0#3
    · rw [if_pos first] at made
      obtain ⟨after, -⟩ := on.step calm leaves (by decide) made ⟨rfl, rfl, rfl, rfl, rfl, rfl, rfl, rfl⟩ (.inl ⟨rfl, rfl⟩) on.state
      exact .header (.hdrck after (on.ported ported).settled)
    rw [if_neg first] at made
    cases placed : d.c.request.slotOkQ with
    | false =>
      rw [placed] at made
      exact leaves_ made (.inr rfl)
    | true =>
      cases good : d.c.walk.hckEqQ with
      | false =>
        rw [placed, good] at made
        exact leaves_ made (.inl rfl)
      | true =>
        rw [placed, good] at made
        have took (onward : ChState) (goes : (if d.c.walk.chMore && !d.c.ahead.nbOffPack then ChState.pf
            else if d.c.walk.chRead then .data else .move) = onward) := on.step calm leaves (by decide) made
          ⟨rfl, rfl, rfl, rfl, rfl, rfl, rfl, rfl⟩ (.inr ⟨rfl, rfl⟩) goes
        cases more : d.c.walk.chMore && !d.c.ahead.nbOffPack with
        | true =>
          obtain ⟨after, walk⟩ := took .pf (if_pos more)
          exact .header (.pf after ⟨congrArg Walk.chPh walk, congrArg Walk.eccR walk⟩ (on.ported ported).settled)
        | false =>
          obtain ⟨after, walk⟩ := took _ (if_neg (by rw [more]; exact Bool.false_ne_true))
          rw [on.on.read] at after
          exact .data ⟨after, ⟨congrArg Walk.chPh walk, congrArg Walk.eccR walk⟩, (on.ported ported).settled⟩
  | pf on clear ported =>
    have made := stated on (by decide)
    unfold Controller.stateStep at made
    rw [on.state] at made
    unfold Controller.pfStep at made
    by_cases last : d.c.walk.pfN = 3#2
    · rw [if_neg (not_not.mpr last)] at made
      obtain ⟨after, walk⟩ := on.step calm leaves (by decide) made ⟨rfl, rfl, rfl, rfl, rfl, rfl, rfl, rfl⟩ (.inl ⟨rfl, rfl⟩)
        (show _ = if d.c.walk.chRead then ChState.data else .move from rfl)
      rw [on.on.read] at after
      exact .data ⟨after, ⟨(congrArg Walk.chPh walk).trans clear.1, (congrArg Walk.eccR walk).trans clear.2⟩,
        (on.ported ported).settled⟩
    · rw [if_pos last] at made
      obtain ⟨after, walk⟩ := on.step calm leaves (by decide) made ⟨rfl, rfl, rfl, rfl, rfl, rfl, rfl, rfl⟩ (.inl ⟨rfl, rfl⟩) on.state
      exact .header (.pf after ⟨(congrArg Walk.chPh walk).trans clear.1, (congrArg Walk.eccR walk).trans clear.2⟩
        (on.ported ported).settled)

end Header

theorem Arrived.fetching (f : Arrived b d) (reads : b.read = true) : Fetching b 0 0 d := by
  have state := f.on.state
  rw [reads] at state
  constructor
  case on => exact f.on.on
  case reads => exact reads
  case state => exact state
  case phase => exact f.clear.1
  case word => exact f.on.word
  case address => exact f.on.address
  case ecc => exact f.clear.2
  case ahead => exact fun _ => (f.ported reads).1 (by decide)
  case ahead2 => exact fun _ => (f.ported reads).2 (by decide)
  all_goals exact fun later => absurd rfl later

section Write

/-- The walk in `C_MOVE` of a Write, at a phase of a word. -/
structure Storing (slot : BitVec 5) (k p : Nat) (d : Machine) : Prop where
  here : d.c.walk.chSlot = slot
  writes : d.c.walk.chRead = false
  block : d.c.walk.chTrack = false
  unlaid : d.c.parser.psWr = false
  state : d.c.walk.chState = .move
  inside : k < 256 ∧ p < 6
  phase : d.c.walk.chPh = BitVec.ofNat 3 p
  word : d.c.walk.chI = BitVec.ofNat 9 k
  last : p ≠ 0 → d.c.walk.chILast = decide (k = 255)
  ecc : d.c.walk.eccR = Fire.code.run (BitVec.ofNat 32 0)
    (bitsBefore (d.words slot) k ++ lowBits (d.words slot (BitVec.ofNat 8 k)) (8 * (p - 2)))
  left : 3 ≤ p → d.c.walk.blkW = d.words slot (BitVec.ofNat 8 k) >>> (8 * (p - 2))

/-- The walk in `C_WEND`: the checkword of the words stored is made. -/
structure Stored (slot : BitVec 5) (d : Machine) : Prop where
  here : d.c.walk.chSlot = slot
  unlaid : d.c.parser.psWr = false
  state : d.c.walk.chState = .wend
  ecc : d.c.walk.eccR = Packs.PackFile.eccOverWords (listOf (d.words slot))

theorem Arrived.storing (f : Arrived b d) (writes : b.read = false) : Storing b.slot 0 0 d := by
  have state := f.on.state
  rw [writes] at state
  constructor
  case here => exact f.on.on.slot
  case writes => exact f.on.on.read.trans writes
  case block => exact f.on.on.block
  case unlaid => exact f.on.on.unlaid.1
  case state => exact state
  case inside => decide
  case phase => exact f.clear.1
  case word => exact f.on.word
  case last => exact fun later => absurd rfl later
  case ecc => exact f.clear.2
  case left => exact fun later => by omega

variable {slot : BitVec 5} {k p : Nat}

theorem Storing.stated (f : Storing slot k p d) : stated x d = d.c.moveWrite x.1 (d.c.flow x.1 d.s) := by
  rw [stated_of_ne (by rw [f.state]; decide)]
  unfold Controller.stateStep
  rw [f.state]
  show (if d.c.walk.chRead then _ else _) = _
  rw [f.writes, if_neg Bool.false_ne_true]

theorem Storing.words (f : Storing slot k p d) (leaves : Leaves slot x) : (d.next x).words slot =
    if p = 2 then Function.update (d.words slot) (BitVec.ofNat 8 k) d.c.walk.blkW else d.words slot := by
  have writes : d.c.chbWe = decide (p = 2) := by
    unfold Controller.chbWe
    rw [f.state, f.writes, f.unlaid, f.phase, Bool.or_false]
    show (BitVec.ofNat 3 p == 2#3) = _
    have among : p = 0 ∨ p = 1 ∨ p = 2 ∨ p = 3 ∨ p = 4 ∨ p = 5 := by have := f.inside.2; omega
    rcases among with rfl | rfl | rfl | rfl | rfl | rfl <;> rfl
  by_cases taken : p = 2
  · rw [if_pos taken]
    have place : d.c.chbA = slot ++ BitVec.ofNat 8 k ∧ d.c.chbD = d.c.walk.blkW := by
      unfold Controller.chbA Controller.chbD
      rw [f.writes, f.block, f.here, f.word, ← low_address]
      exact ⟨rfl, rfl⟩
    funext j
    show Store.ramNext x.2 d.c d.s.ram (slot ++ j) = _
    unfold Store.ramNext
    rw [writes, decide_eq_true taken, if_pos rfl, place.1, place.2]
    by_cases here : j = BitVec.ofNat 8 k
    · rw [here, Function.update_self, Function.update_self]
    · rw [Function.update_of_ne (fun same => here ((BitVec.append_right_inj slot).mp same)), Function.update_of_ne here]
      split
      · next written =>
        apply Function.update_of_ne
        intro same
        exact leaves (.inl written) (slot_of_address same).symm
      · rfl
  · rw [if_neg taken]
    exact words_next leaves (writes.trans (decide_eq_false taken))

theorem bitsBefore_update (words : BitVec 8 → BitVec 32) (inside : k < 256) (v : BitVec 32) :
    bitsBefore (Function.update words (BitVec.ofNat 8 k) v) k = bitsBefore words k := by
  apply bitsBefore_congr
  intro j before
  apply Function.update_of_ne
  intro same
  have number := congrArg BitVec.toNat same
  rw [BitVec.toNat_ofNat, BitVec.toNat_ofNat] at number
  omega

/-- What a clock of a Write's words leaves of the walk. -/
def Carries (y : Controller) (d : Machine) : Prop :=
  y.walk.chSlot = d.c.walk.chSlot ∧ y.walk.chRead = d.c.walk.chRead ∧ y.walk.chTrack = d.c.walk.chTrack ∧
    y.parser.psWr = false ∧ y.walk.chILast = (d.c.walk.chI == 255#9)

theorem Storing.phase_next (f : Storing slot k p d) (calm : Undisturbed x d) {y : Controller} {q : Nat}
    (made : Machine.stated x d = y) (carries : Carries y d) (within : q < 6)
    (stays : y.walk.chState = d.c.walk.chState ∧ y.walk.chPh = BitVec.ofNat 3 q ∧ y.walk.chI = d.c.walk.chI)
    (ecc : y.walk.eccR = Fire.code.run (BitVec.ofNat 32 0) (bitsBefore ((d.next x).words slot) k ++
      lowBits ((d.next x).words slot (BitVec.ofNat 8 k)) (8 * (q - 2))))
    (left : 3 ≤ q → y.walk.blkW = (d.next x).words slot (BitVec.ofNat 8 k) >>> (8 * (q - 2))) :
    Storing slot k q (d.next x) := by
  subst made
  have walk := calm.alike.walk
  constructor
  case here => exact (congrArg Walk.chSlot walk).trans (carries.1.trans f.here)
  case writes => exact (congrArg Walk.chRead walk).trans (carries.2.1.trans f.writes)
  case block => exact (congrArg Walk.chTrack walk).trans (carries.2.2.1.trans f.block)
  case unlaid => exact (congrArg Parser.psWr calm.alike.parser).trans carries.2.2.2.1
  case state => exact (congrArg Walk.chState walk).trans (stays.1.trans f.state)
  case inside => exact ⟨f.inside.1, within⟩
  case phase => exact (congrArg Walk.chPh walk).trans stays.2.1
  case word => exact (congrArg Walk.chI walk).trans (stays.2.2.trans f.word)
  case last =>
    refine fun _ => (congrArg Walk.chILast walk).trans (carries.2.2.2.2.trans ?_)
    rw [f.word, last_word f.inside.1]
  case ecc => exact (congrArg Walk.eccR walk).trans ecc
  case left => exact fun later => (congrArg Walk.blkW walk).trans (left later)

theorem Storing.next (f : Storing slot k p d) (calm : Undisturbed x d) (leaves : Leaves slot x)
    (stays : (d.next x).c.walk.chState ≠ .accmul) :
    (∃ k p, Storing slot k p (d.next x)) ∨ Stored slot (d.next x) := by
  have words := f.words leaves
  have made := @f.stated x
  unfold Controller.moveWrite at made
  have among : p = 0 ∨ p = 1 ∨ p = 2 ∨ (p = 3 ∨ p = 4) ∨ p = 5 := by have := f.inside.2; omega
  rcases among with rfl | rfl | rfl | among | rfl
  · rw [if_pos f.phase] at made
    refine .inl ⟨k, 1, f.phase_next calm made ⟨rfl, rfl, rfl, rfl, rfl⟩ (by decide) ⟨rfl, rfl, rfl⟩ ?_
      (fun later => absurd later (by decide))⟩
    rw [words]
    exact f.ecc
  · rw [if_neg (by rw [f.phase]; decide), if_pos f.phase] at made
    cases done : x.1.chDone with
    | false =>
      rw [done, if_neg Bool.false_ne_true] at made
      refine .inl ⟨k, 1, f.phase_next calm made ⟨rfl, rfl, rfl, rfl, rfl⟩ (by decide) ⟨rfl, f.phase, rfl⟩ ?_
        (fun later => absurd later (by decide))⟩
      rw [words]
      exact f.ecc
    | true =>
      rw [done, if_pos rfl] at made
      cases missing : x.1.chNxm with
      | true =>
        rw [missing, if_pos rfl] at made
        have off : (d.next x).c.walk.chState = .accmul := by
          rw [calm.alike.walk, made]
          rfl
        exact absurd off stays
      | false =>
        rw [missing, if_neg Bool.false_ne_true] at made
        refine .inl ⟨k, 2, f.phase_next calm made ⟨rfl, rfl, rfl, rfl, rfl⟩ (by decide) ⟨rfl, rfl, rfl⟩ ?_
          (fun later => absurd later (by decide))⟩
        rw [words]
        exact f.ecc
  · -- The word goes into the store whole and its first byte through the code.
    rw [if_neg (by rw [f.phase]; decide), if_neg (by rw [f.phase]; decide), if_pos (by rw [f.phase]; decide)] at made
    rw [if_pos rfl] at words
    refine .inl ⟨k, 3, f.phase_next calm made ⟨rfl, rfl, rfl, rfl, rfl⟩ (by decide)
      ⟨rfl, congrArg (· + 1) f.phase, rfl⟩ ?_ fun _ => ?_⟩
    · rw [words, bitsBefore_update _ f.inside.1, Function.update_self, Feedback.run_append]
      have before := f.ecc
      rw [show lowBits (d.words slot (BitVec.ofNat 8 k)) (8 * (2 - 2)) = [] from rfl, List.append_nil] at before
      show eccByte d.c.walk.eccR (d.c.walk.blkW.extractLsb' 0 8) = _
      rw [before, eccByte_eq, lowBits_extract _ (Nat.le_refl 8)]
    · rw [words, Function.update_self]
      rfl
  · have through : 3 ≤ p ∧ p < 5 ∧ p ≠ 2 := by omega
    rw [if_neg (by rw [f.phase]; rcases among with rfl | rfl <;> decide),
      if_neg (by rw [f.phase]; rcases among with rfl | rfl <;> decide),
      if_pos (by rw [f.phase]; rcases among with rfl | rfl <;> decide)] at made
    rw [if_neg through.2.2] at words
    refine .inl ⟨k, p + 1, f.phase_next calm made ⟨rfl, rfl, rfl, rfl, rfl⟩ (by omega)
      ⟨rfl, (congrArg (· + 1) f.phase).trans (BitVec.ofNat_add _ _).symm, rfl⟩ ?_ fun _ => ?_⟩
    · show eccByte d.c.walk.eccR (d.c.walk.blkW.extractLsb' 0 8) = _
      rw [words, f.ecc, f.left through.1, Feedback.run_append, eccByte_shifted, Feedback.run_append,
        show 8 * (p - 2) + 8 = 8 * (p + 1 - 2) by omega]
    · show d.c.walk.blkW >>> 8 = _
      rw [words, f.left through.1, ← BitVec.shiftRight_add, show 8 * (p - 2) + 8 = 8 * (p + 1 - 2) by omega]
  · rw [if_neg (by rw [f.phase]; decide), if_neg (by rw [f.phase]; decide), if_neg (by rw [f.phase]; decide)] at made
    rw [if_neg (by decide)] at words
    have whole : eccByte d.c.walk.eccR (d.c.walk.blkW.extractLsb' 0 8) =
        Fire.code.run (BitVec.ofNat 32 0) (bitsBefore ((d.next x).words slot) (k + 1)) := by
      rw [words, f.ecc, f.left (by decide), Feedback.run_append, eccByte_shifted, bitsBefore_succ, Feedback.run_append]
    have walk := calm.alike.walk
    cases last : d.c.walk.chILast with
    | true =>
      have end_ : k = 255 := of_decide_eq_true ((f.last (by decide)).symm.trans last)
      rw [last, if_pos rfl] at made
      rw [made] at walk
      refine .inr ⟨(congrArg Walk.chSlot walk).trans f.here, ?_, congrArg Walk.chState walk, ?_⟩
      · rw [calm.alike.parser, made]
        rfl
      · rw [eccOverWords_eq]
        refine (congrArg Walk.eccR walk).trans (whole.trans ?_)
        rw [end_]
        rfl
    | false =>
      have more : k ≠ 255 := of_decide_eq_false ((f.last (by decide)).symm.trans last)
      rw [last, if_neg Bool.false_ne_true] at made
      rw [made] at walk
      refine .inl ⟨k + 1, 0, ?_⟩
      constructor
      case here => exact (congrArg Walk.chSlot walk).trans f.here
      case writes => exact (congrArg Walk.chRead walk).trans f.writes
      case block => exact (congrArg Walk.chTrack walk).trans f.block
      case unlaid =>
        rw [calm.alike.parser, made]
        rfl
      case state => exact (congrArg Walk.chState walk).trans f.state
      case inside => exact ⟨by have := f.inside.1; omega, by decide⟩
      case phase => exact congrArg Walk.chPh walk
      case word => exact (congrArg Walk.chI walk).trans ((congrArg (· + 1) f.word).trans (BitVec.ofNat_add _ _).symm)
      case last => exact fun later => absurd rfl later
      case ecc =>
        refine (congrArg Walk.eccR walk).trans (whole.trans ?_)
        exact congrArg _ (List.append_nil _).symm
      case left => exact fun later => absurd later (by decide)

theorem Stored.next (f : Stored slot d) (calm : Undisturbed x d) (leaves : Leaves slot x) :
    (d.next x).c.walk.chDckWe = true ∧ (d.next x).c.walk.chDckSlot = slot ∧
      (d.next x).c.walk.chDckVal = Packs.PackFile.eccOverWords (listOf ((d.next x).words slot)) := by
  have still : d.c.chbWe = false := by
    unfold Controller.chbWe
    rw [f.state, f.unlaid]
    rfl
  rw [words_next leaves still, ← f.ecc, calm.alike.walk, stated_of_ne (by rw [f.state]; decide)]
  unfold Controller.stateStep
  rw [f.state]
  exact ⟨rfl, f.here, rfl⟩

end Write

end Machine

end MuirFpga.Disk
