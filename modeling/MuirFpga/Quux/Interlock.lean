import MuirFpga.Quux.BlockWalk
import MuirFpga.Packs.Books
import MuirFpga.Sync.Trace
import Mathlib.Tactic.SplitIfs

/-!
# The slot interlock of the block disk

The walk joined to the pack side. The pack side judges the walk through registers two clocks
behind, and the walk judges a move only as it chooses a slot, so a move accepted in the clock the
walk chooses its slot, or in the two after it, meets the walk on the slot. Away from those clocks
the slot the walk is on is its own until its last word has moved.
-/

namespace MuirFpga.Quux

open Packs

/-- The walk and its store joined to the pack side, with the history of the data words. -/
structure Joined (c : DiskPack.Config) where
  store : BlockStore
  walk : Walk
  pack : DiskPack.State c
  laid : BitVec 5 → BitVec 9 → Laid
  moves : Nat

/-- A clock's inputs to the two modules. -/
structure JoinedInput (c : DiskPack.Config) where
  walk : WalkInput
  pack : DiskPack.Input c

namespace Joined

variable {c : DiskPack.Config}

/-- The pack side's books. -/
def books (j : Joined c) : Books c := ⟨j.pack, j.store.valid, j.store.tag, j.laid, j.moves⟩

/-- The seam as the pack side drives it. -/
def seam (j : Joined c) : Seam := j.books.seam

/-- The walk's side as the pack side meets it. -/
def channel (j : Joined c) : DiskPack.Channel where
  active := j.walk.active
  waiting := j.walk.waiting
  slot := j.walk.chSlot
  wrote := j.walk.chWrote
  hit := j.walk.chHit
  reqValid := j.walk.reqValid
  reqTag := j.walk.reqTag
  reqPost := j.walk.reqPost
  miss := j.walk.storeMiss
  rdata := j.store.rdata

/-- A clock of the two modules; a data word the seam writes is laid by the move in progress. -/
def next (mainWords : Nat) (i : JoinedInput c) (j : Joined c) : Joined c where
  store := j.store.next i.walk.rst j.seam j.walk
  walk := j.walk.next mainWords { i.walk with drivePresent := j.pack.regs.drive.getLsbD 0 }
    j.seam j.store
  pack := j.pack.next i.pack j.channel
  laid :=
    if j.seam.data then
      Function.update j.laid j.seam.slot
        (Function.update (j.laid j.seam.slot) j.seam.addr ⟨j.moves, j.pack.mover.pTag⟩)
    else j.laid
  moves := if j.pack.mover.pst == .idle && j.pack.accepts then j.moves + 1 else j.moves

/-- A fetch or a take-away of a slot is accepted this clock. -/
def Starts (j : Joined c) (slot : BitVec 5) : Prop := j.books.Starts slot

/-- A fetch or a take-away is on a slot, or its last write to it is on the seam. -/
def Engaged (j : Joined c) (slot : BitVec 5) : Prop := j.books.Engaged slot

/-- The walk moves a slot's words. -/
def On (j : Joined c) (slot : BitVec 5) : Prop :=
  (j.walk.v = .read ∨ j.walk.v = .write) ∧ j.walk.chSlot = slot

/-- The walk chooses a slot this clock. -/
def Chooses (j : Joined c) (slot : BitVec 5) : Prop := j.walk.chooses j.seam = some slot

end Joined

namespace Joined

variable {c : DiskPack.Config} {mainWords : Nat} {i : JoinedInput c} {j : Joined c}

/-- What every clock keeps between the mover, the seam and the store's 256 words a slot. -/
def Sound (j : Joined c) : Prop := j.books.Sound 256

theorem books_next :
    (j.next mainWords i).books = j.books.next 256 i.walk.rst i.pack j.channel := rfl

theorem sound_next (sound : j.Sound)
    (clean : j.pack.accepts = true → j.pack.mover.pDrop = false) :
    (j.next mainWords i).Sound := by
  exact Books.sound_next (by decide) sound clean

theorem stands_next {slot : BitVec 5} (running : i.walk.rst = false)
    (off : ¬ (j.seam.we = true ∧ j.seam.slot = slot)) :
    (j.next mainWords i).store.valid slot = j.store.valid slot ∧
      (j.next mainWords i).store.tag slot = j.store.tag slot := by
  have stands : (i.walk.rst = false →
      (j.books.next 256 i.walk.rst i.pack j.channel).valid slot = j.books.valid slot) ∧
      (j.books.next 256 i.walk.rst i.pack j.channel).tag slot = j.books.tag slot :=
    Books.stands_next off
  exact ⟨stands.1 running, stands.2⟩

theorem sound_reset (walk : i.walk.rst = true) (pack : i.pack.rst = true) :
    (j.next mainWords i).Sound :=
  @Books.sound_reset _ 256 _ i.pack j.channel j.books walk pack

/-- A run from a reset of both modules. -/
structure Runs (mainWords : Nat) (inputs : Nat → JoinedInput c) (j : Nat → Joined c) : Prop where
  reset : ∃ (start : Joined c) (first : JoinedInput c), first.walk.rst = true ∧
    first.pack.rst = true ∧ j 0 = start.next mainWords first
  step : ∀ clock, j (clock + 1) = (j clock).next mainWords (inputs clock)

/-- The two sides keep apart: no fetch or take-away is accepted on a slot in the clock the walk
chooses it or in the two after, nor three before; the pack side is reset only away from a walk's
slot; and no request is accepted before a drained move's end is taken. -/
structure Apart (inputs : Nat → JoinedInput c) (j : Nat → Joined c) : Prop where
  chosen : ∀ clock slot, (j clock).Chooses slot →
    ∀ later ≤ 2, ¬ (j (clock + later)).Starts slot
  taken : ∀ clock slot, (j clock).Starts slot → ¬ (j (clock + 3)).Chooses slot
  reset : ∀ clock, ((inputs clock).pack.rst || (inputs clock).pack.fabricRst) = true →
    (j clock).walk.moves → (inputs clock).walk.rst = true
  drained : ∀ clock, (j clock).pack.accepts = true → (j clock).pack.mover.pDrop = false

section Runs

variable {inputs : Nat → JoinedInput c} {j : Nat → Joined c} {slot : BitVec 5}

section

variable (runs : Runs mainWords inputs j) (apart : Apart inputs j)

include runs apart

omit apart in
theorem Runs.books (clock : Nat) : (j (clock + 1)).books =
    (j clock).books.next 256 (inputs clock).walk.rst (inputs clock).pack (j clock).channel := by
  rw [runs.step]
  exact books_next

theorem Runs.sound (clock : Nat) :
    (j clock).Sound := by
  induction clock with
  | zero =>
    obtain ⟨start, first, walk, pack, same⟩ := runs.reset
    rw [same]
    exact sound_reset walk pack
  | succ clock ih =>
    rw [runs.step]
    exact sound_next ih (apart.drained clock)

omit apart in
theorem Runs.quiet : (j 0).walk.v = .idle ∧
    (j 0).walk.chbWe = false ∧ (j 0).seam.we = false ∧ (j 0).pack.mover.pst = .idle := by
  obtain ⟨start, first, walk, pack, same⟩ := runs.reset
  rw [same]
  obtain ⟨idle, port, -⟩ := Walk.next_reset (w := start.walk) (m := start.seam)
    (s := start.store)
    (i := { first.walk with drivePresent := start.pack.regs.drive.getLsbD 0 }) walk
  obtain ⟨we, still, -⟩ :
      (start.books.next 256 first.walk.rst first.pack start.channel).seam.we = false ∧
        (start.books.next 256 first.walk.rst first.pack start.channel).pack.mover.pst = .idle ∧
        _ := Books.next_seam_reset pack
  exact ⟨idle, port, we, still⟩

omit apart in
theorem Runs.walk (clock : Nat) : ∃ i : WalkInput, i.rst = (inputs clock).walk.rst ∧
      (j (clock + 1)).walk = (j clock).walk.next mainWords i (j clock).seam (j clock).store := by
  rw [runs.step]
  exact ⟨{ (inputs clock).walk with
    drivePresent := (j clock).pack.regs.drive.getLsbD 0 }, rfl, rfl⟩

theorem Runs.refused {clock : Nat} (on : (j clock).On slot) (running : (inputs clock).walk.rst = false) :
    ¬ (j (clock + 2)).Starts slot := by
  intro starts
  have accepts : (j (clock + 2)).pack.accepts = true := starts.1
  have place : (j (clock + 2)).pack.regs.slot = slot := starts.2.2
  have live : ((inputs clock).pack.rst || (inputs clock).pack.fabricRst) = false := by
    cases reset : ((inputs clock).pack.rst || (inputs clock).pack.fabricRst) with
    | false => rfl
    | true =>
      have held := apart.reset clock reset on.1
      rw [running] at held
      exact held.symm
  rw [Bool.or_eq_false_iff] at live
  have follows : (j (clock + 1)).pack.regs.chActiveQ = (j clock).channel.active ∧
      (j (clock + 1)).pack.regs.chWaitingQ = (j clock).channel.waiting ∧
      (j (clock + 1)).pack.regs.chSlotQ = (j clock).channel.slot := by
    rw [runs.step]
    exact DiskPack.Regs.next_follows live.1 live.2
  have asked : (j (clock + 2)).pack.regs.goAny = true ∧
      (j (clock + 2)).pack.regs.badChQ = false := by
    unfold DiskPack.State.accepts DiskPack.Regs.accepts DiskPack.Regs.refuse at accepts
    cases bad : (j (clock + 2)).pack.regs.badChQ <;> simp_all
  have stands : (j (clock + 2)).pack.regs.slot = (j (clock + 1)).pack.regs.slot := by
    rw [runs.step] at asked ⊢
    exact (DiskPack.Regs.next_asked asked.1).2.2.2
  have judged : (j (clock + 2)).pack.regs.badChQ =
      ((j (clock + 1)).pack.regs.chActiveQ && !(j (clock + 1)).pack.regs.chWaitingQ &&
        (j (clock + 1)).pack.regs.slot == (j (clock + 1)).pack.regs.chSlotQ) := by
    rw [runs.step]
    rfl
  have active : (j clock).walk.active = true ∧ (j clock).walk.waiting = false := by
    rcases on.1 with v | v <;> simp [Walk.active, Walk.waiting, v]
  rw [asked.2, follows.1, follows.2.1, follows.2.2, ← stands, place] at judged
  simp [channel, active, on.2] at judged

/-- The walk on a slot chose it at some clock, and was on it at every one since. -/
structure Visit (j : Nat → Joined c) (slot : BitVec 5) (first last : Nat) : Prop where
  order : first ≤ last
  chosen : (j first).Chooses slot
  on : ∀ clock, first < clock → clock ≤ last → (j clock).On slot

omit apart in
theorem Runs.came {clock : Nat} (on : (j (clock + 1)).On slot) :
    (inputs clock).walk.rst = false ∧ ((j clock).Chooses slot ∨ (j clock).On slot) := by
  obtain ⟨i, rst, step⟩ := runs.walk clock
  obtain ⟨moves, place⟩ := on
  rw [step] at moves place
  obtain ⟨running, came⟩ := Walk.next_visit (Or.inl moves)
  refine ⟨rst ▸ running, ?_⟩
  rcases came with ⟨taken, chooses, chosen⟩ | ⟨before, stayed⟩
  · rw [chosen.slot] at place
    exact Or.inl (place ▸ chooses)
  · exact Or.inr ⟨before, stayed.slot.symm.trans place⟩

omit apart in
theorem Runs.visit {clock : Nat} (on : (j clock).On slot) :
    ∃ first, Visit j slot first clock := by
  induction clock with
  | zero =>
    have idle := runs.quiet.1
    rcases on.1 with v | v <;> simp [idle] at v
  | succ clock ih =>
    rcases (runs.came on).2 with chooses | before
    · refine ⟨clock, Nat.le_succ clock, chooses, fun later after before => ?_⟩
      rw [show later = clock + 1 by omega]
      exact on
    · obtain ⟨first, visit⟩ := ih before
      refine ⟨first, Nat.le_succ_of_le visit.order, visit.chosen, fun later after upTo => ?_⟩
      rcases Nat.lt_or_ge clock later with last | inside
      · rw [show later = clock + 1 by omega]
        exact on
      · exact visit.on later after inside

theorem Runs.unstarted {first last clock : Nat} (visit : Visit j slot first last) (after : first ≤ clock)
    (upTo : clock ≤ last + 1) : ¬ (j clock).Starts slot := by
  rcases Nat.lt_or_ge (first + 2) clock with late | early
  · obtain ⟨before, rfl⟩ : ∃ before, clock = before + 2 := ⟨clock - 2, by omega⟩
    have on := visit.on before (by omega) (by omega)
    have next := visit.on (before + 1) (by omega) (by omega)
    exact runs.refused apart on (runs.came next).1
  · obtain ⟨later, rfl⟩ : ∃ later, clock = first + later := ⟨clock - first, by omega⟩
    exact apart.chosen first slot visit.chosen later (by omega)

theorem Runs.unengaged {first last clock : Nat} (visit : Visit j slot first last) (after : first ≤ clock)
    (upTo : clock ≤ last + 1) : ¬ (j clock).Engaged slot := by
  induction clock, after using Nat.le_induction with
  | base =>
    rintro ⟨moving, -, place⟩
    exact (Walk.chooses_spec visit.chosen).2.2.2 ⟨moving, place⟩
  | succ clock after ih =>
    intro engaged
    change (j (clock + 1)).books.Engaged slot at engaged
    rw [runs.books] at engaged
    rcases Books.engaged_next (runs.sound apart clock) (apart.drained clock)
      engaged with on | starts
    · exact ih (by omega) on
    · exact runs.unstarted apart visit after (by omega) starts

omit runs apart in
theorem unwritten {j : Joined c} (sound : j.Sound) (off : ¬ j.Engaged slot) :
    ¬ (j.seam.we = true ∧ j.seam.slot = slot) := by
  exact Books.unwritten sound off

theorem Runs.taken {clock : Nat} (away : (j clock).seam.tagWrite true = true) :
    ∃ before, clock = before + 2 ∧ (j before).Starts (j clock).seam.slot := by
  have we := (Books.tagWrite_place away).1
  cases clock with
  | zero => simp [runs.quiet.2.2.1] at we
  | succ clock =>
    change (j (clock + 1)).books.seam.tagWrite true = true at away
    change ∃ before, clock + 1 = before + 2 ∧ (j before).Starts (j (clock + 1)).books.seam.slot
    rw [runs.books] at away ⊢
    obtain ⟨take, slot⟩ := Books.away_next (runs.sound apart clock) away
    rw [slot]
    cases clock with
    | zero =>
      change (j 0).pack.mover.pst = .take at take
      simp [runs.quiet.2.2.2] at take
    | succ clock =>
      refine ⟨clock, rfl, ?_⟩
      rw [runs.books] at take ⊢
      have starts := Books.taken_next (runs.sound apart clock) (apart.drained clock) take
      exact starts

theorem Runs.found {clock : Nat} (chooses : (j clock).Chooses slot) : (j clock).store.valid slot = true ∧
      (j clock).store.tag slot = (j clock).walk.reqTag ∧
      (j clock).walk.lba = (j clock).walk.block := by
  obtain ⟨place, looked, hit, -⟩ := Walk.chooses_spec chooses
  cases clock with
  | zero => simp [runs.quiet.1] at place
  | succ clock =>
    obtain ⟨i, rst, step⟩ := runs.walk clock
    have same : (j (clock + 1)).walk.lba = (j (clock + 1)).walk.block := by
      simp only [Walk.looked, Bool.and_eq_true, beq_iff_eq] at looked
      exact looked.2
    rw [step] at looked hit
    obtain ⟨running, -, lba⟩ := Walk.next_looked looked
    rw [← step] at lba
    have hits : (j clock).store.valid slot = true ∧
        (j clock).store.tag slot = (j clock).walk.reqTag := by
      unfold Walk.next at hit
      simpa using hit
    have off : ¬ ((j clock).seam.we = true ∧ (j clock).seam.slot = slot) := by
      rintro ⟨we, written⟩
      rcases (runs.sound apart clock).written we with away | empty
      · obtain ⟨before, two, starts⟩ := runs.taken apart away
        rw [written] at starts
        apply apart.taken before slot starts
        rw [show before + 3 = clock + 1 by omega]
        exact chooses
      · change (j clock).store.valid (j clock).seam.slot = false at empty
        rw [written, hits.1] at empty
        exact Bool.noConfusion empty
    have stands : (j (clock + 1)).store.valid slot = (j clock).store.valid slot ∧
        (j (clock + 1)).store.tag slot = (j clock).store.tag slot := by
      rw [runs.step]
      exact stands_next (rst ▸ running) off
    refine ⟨stands.1.trans hits.1, stands.2.trans (hits.2.trans ?_), same⟩
    unfold Walk.reqTag
    rw [lba]

/-- The slot of the walk's block: valid, with the block's tag. -/
def Found (j : Joined c) (slot : BitVec 5) : Prop :=
  j.store.valid slot = true ∧ j.store.tag slot = j.walk.reqTag

omit apart in
theorem Runs.found_next {clock : Nat} (running : (inputs clock).walk.rst = false)
    (off : ¬ ((j clock).seam.we = true ∧ (j clock).seam.slot = slot))
    (found : (j clock).Found slot) (looked : (j clock).walk.lba = (j clock).walk.block) :
    (j (clock + 1)).Found slot ∧ (j (clock + 1)).walk.lba = (j clock).walk.block := by
  obtain ⟨i, rst, step⟩ := runs.walk clock
  have lba : (j (clock + 1)).walk.lba = (j clock).walk.block := by
    rw [step, Walk.next_running (rst.trans running)]
  refine ⟨?_, lba⟩
  unfold Found Walk.reqTag
  rw [lba, ← looked, runs.step]
  have stands : ((j clock).next mainWords (inputs clock)).store.valid slot =
      (j clock).store.valid slot ∧ ((j clock).next mainWords (inputs clock)).store.tag slot =
        (j clock).store.tag slot := stands_next running off
  exact ⟨stands.1.trans found.1, stands.2.trans found.2⟩

theorem Runs.kept {first last clock : Nat} (visit : Visit j slot first last) (after : first ≤ clock)
    (upTo : clock ≤ last) :
    (j clock).Found slot ∧ (j clock).walk.lba = (j clock).walk.block := by
  induction clock, after using Nat.le_induction with
  | base =>
    obtain ⟨valid, tag, looked⟩ := runs.found apart visit.chosen
    exact ⟨⟨valid, tag⟩, looked⟩
  | succ clock after ih =>
    obtain ⟨found, looked⟩ := ih (by omega)
    have on := visit.on (clock + 1) (by omega) upTo
    have off := unwritten (runs.sound apart clock)
      (runs.unengaged apart visit after (by omega))
    obtain ⟨next, lba⟩ := runs.found_next (runs.came on).1 off found looked
    refine ⟨next, lba.trans ?_⟩
    obtain ⟨i, -, step⟩ := runs.walk clock
    have moves := on.1
    rw [step] at moves
    rw [step]
    obtain ⟨-, came⟩ := Walk.next_visit (Or.inl moves)
    rcases came with ⟨_, -, chosen⟩ | ⟨-, stayed⟩
    · exact chosen.block.symm
    · exact (stayed.block moves).symm

/-- The walk has chosen a slot this clock, is on it, or lands its last word in it. -/
def Holds (j : Joined c) (slot : BitVec 5) : Prop :=
  j.Chooses slot ∨ j.On slot ∨ j.walk.chbWe = true ∧ j.walk.chSlot = slot

/-- A slot is the walk's own: no fetch or take-away is accepted on it or on it, the mover writes
none of its words and does not take it away, and all its words are one move's record of the
block looked up. -/
structure Owns (j : Joined c) (slot : BitVec 5) : Prop where
  unstarted : ¬ j.Starts slot
  unengaged : ¬ j.Engaged slot
  unwritten : ¬ (j.seam.we = true ∧ j.seam.slot = slot)
  found : j.Found slot
  record : j.books.Whole 256 slot j.walk.reqTag

theorem Runs.owns_of_found {first last clock : Nat} (visit : Visit j slot first last) (after : first ≤ clock)
    (upTo : clock ≤ last + 1) (found : (j clock).Found slot) : (j clock).Owns slot := by
  have off := runs.unengaged apart visit after upTo
  refine ⟨runs.unstarted apart visit after upTo, off, unwritten (runs.sound apart clock) off,
    found, ?_⟩
  obtain ⟨record, tag, laid⟩ := (runs.sound apart clock).whole slot found.1
  exact ⟨record, tag.trans found.2, laid⟩

omit apart in
theorem Runs.wrote {clock : Nat} (we : (j clock).walk.chbWe = true) : ∃ before, clock = before + 1 ∧
      (inputs before).walk.rst = false ∧ (j before).On (j clock).walk.chSlot ∧
      (j clock).walk.chbA = (j before).walk.chWord := by
  cases clock with
  | zero => simp [runs.quiet.2.1] at we
  | succ clock =>
    obtain ⟨i, rst, step⟩ := runs.walk clock
    rw [step] at we ⊢
    obtain ⟨running, came⟩ := Walk.next_visit (Or.inr we)
    rcases came with ⟨_, -, chosen⟩ | ⟨moves, stayed⟩
    · simp [chosen.port] at we
    · exact ⟨clock, rfl, rst ▸ running, ⟨moves, stayed.slot.symm⟩, (stayed.port we).2⟩

/-- A slot held is the walk's own. -/
theorem Runs.owns {clock : Nat} (holds : (j clock).Holds slot) : (j clock).Owns slot := by
  rcases holds with chooses | on | ⟨we, place⟩
  · have visit : Visit j slot clock clock :=
      ⟨Nat.le_refl clock, chooses, fun later after upTo => absurd after (Nat.not_lt.mpr upTo)⟩
    exact runs.owns_of_found apart visit (Nat.le_refl clock) (Nat.le_succ clock)
      (runs.kept apart visit (Nat.le_refl clock) (Nat.le_refl clock)).1
  · obtain ⟨first, visit⟩ := runs.visit on
    exact runs.owns_of_found apart visit visit.order (Nat.le_succ clock)
      (runs.kept apart visit visit.order (Nat.le_refl clock)).1
  · obtain ⟨before, rfl, running, on, -⟩ := runs.wrote we
    rw [place] at on
    obtain ⟨first, visit⟩ := runs.visit on
    obtain ⟨found, looked⟩ := runs.kept apart visit visit.order (Nat.le_refl before)
    have off := unwritten (runs.sound apart before)
      (runs.unengaged apart visit visit.order (Nat.le_succ before))
    exact runs.owns_of_found apart visit (Nat.le_succ_of_le visit.order) (Nat.le_refl _)
      (runs.found_next running off found looked).1

omit runs apart in
theorem seamWord_ne {j : Joined c} {slot : BitVec 5} {word : BitVec 8} (other : j.seam.slot ≠ slot) :
    slot ++ word ≠ BlockStore.seamWord j.seam := by
  intro same
  apply other
  have high : BitVec.extractLsb' 8 5 (slot ++ word : BitVec (5 + 8)) =
      BitVec.extractLsb' 8 5 (j.seam.slot ++ j.seam.addr.extractLsb' 0 8 : BitVec (5 + 8)) :=
    congrArg (BitVec.extractLsb' 8 5) same
  rw [BitVec.extractLsb'_append_eq_left, BitVec.extractLsb'_append_eq_left] at high
  exact high.symm

omit runs apart in
theorem ram_stands {j : Joined c} {i : JoinedInput c} {word : BitVec 8}
    (off : ¬ (j.seam.we = true ∧ j.seam.slot = slot)) (port : j.walk.chbWe = false) :
    (j.next mainWords i).store.ram (slot ++ word) = j.store.ram (slot ++ word) := by
  unfold next BlockStore.next
  simp only [port, Bool.false_eq_true, if_false]
  split_ifs with data
  · apply Function.update_of_ne
    apply seamWord_ne
    intro same
    exact off ⟨(Bool.and_eq_true .. ▸ data).1, same⟩
  · rfl

/-- A word read is the slot's. -/
theorem Runs.reads (clock : Nat) :
    (j clock).walk.v = .read → (j clock).walk.chbWe = false ∧
      ((j clock).walk.rdValid = true →
        (j clock).store.chbQ = (j clock).store.ram (j clock).walk.chWord) := by
  induction clock with
  | zero =>
    intro place
    simp [runs.quiet.1] at place
  | succ clock ih =>
    intro place
    obtain ⟨i, -, step⟩ := runs.walk clock
    have moves : (j (clock + 1)).walk.moves := Or.inl place
    rw [step] at moves
    obtain ⟨-, came⟩ := Walk.next_visit (Or.inl moves)
    rw [← step] at came moves
    rcases came with ⟨_, -, chosen⟩ | ⟨-, stayed⟩
    · exact ⟨chosen.port, by simp [chosen.unread]⟩
    · have port : (j (clock + 1)).walk.chbWe = false := by
        cases we : (j (clock + 1)).walk.chbWe with
        | false => rfl
        | true => exact absurd place (stayed.port we).1
      refine ⟨port, fun valid => ?_⟩
      have before : (j clock).walk.v = .read := (stayed.same moves).symm.trans place
      have on : (j clock).On (j clock).walk.chSlot := ⟨Or.inl before, rfl⟩
      have off := (runs.owns apart (Or.inr (Or.inl on))).unwritten
      have word : (j (clock + 1)).walk.chWord = (j clock).walk.chWord := by
        unfold Walk.chWord
        rw [stayed.slot, stayed.fresh place valid]
      have taken : (j (clock + 1)).store.chbQ = (j clock).store.ram (j clock).walk.chWord := by
        rw [runs.step]
        change (j clock).store.ram (j clock).walk.chbPort = _
        unfold Walk.chbPort
        rw [(ih before).1]
        rfl
      rw [word, taken, runs.step]
      exact (ram_stands off (ih before).1).symm

end

/-- While the two sides keep apart, the slot interlock holds at every clock: the slot the walk
chooses is its own until its last word has moved, a word it reads is that slot's, and a word it
writes goes into it. -/
theorem interlock_holds (runs : Runs mainWords inputs j) (apart : Apart inputs j) :
    (∀ clock slot, (j clock).Holds slot → (j clock).Owns slot) ∧
    (∀ clock, (j clock).walk.v = .read → (j clock).walk.rdValid = true →
      (j clock).store.chbQ = (j clock).store.ram (j clock).walk.chWord) ∧
    (∀ clock, (j clock).walk.chbWe = true →
      ∃ word : BitVec 8, (j clock).walk.chbPort = (j clock).walk.chSlot ++ word) := by
  refine ⟨fun clock slot => runs.owns apart, fun clock place => (runs.reads apart clock place).2,
    fun clock we => ?_⟩
  obtain ⟨before, -, -, on, port⟩ := runs.wrote we
  refine ⟨(j before).walk.chW, ?_⟩
  unfold Walk.chbPort
  rw [we, if_pos rfl, port]
  unfold Walk.chWord
  rw [on.2]

end Runs

section Played

/-- The Zynq boards' pack side. -/
def zynq : DiskPack.Config := ⟨slots, 0x40000000#32, 0x5041434B#32, 12, 4⟩

/-- The registers before the reset. -/
def cold : Joined zynq where
  store := .blank
  walk := .blank
  pack := ⟨.reset, ⟨0, 0, 0, 0, false, 0, false, false, 0, false, 0, 0, 0, 0, 0, false, false,
    false, false, false, false⟩, ⟨false, false, .idle, false, 0, 0, 0, 0, 0, false, 0, false, 0,
    0, 0, false, false, false, 0, false, false, 0, 0, 0⟩⟩
  laid := fun _ _ => ⟨0, 0⟩
  moves := 0

/-- The processor's port quiet, the memory port ready with a beat for every burst out. -/
def ready (j : Joined zynq) : DiskPack.Input zynq where
  rst := false
  fabricRst := false
  portLive := true
  awaddr := 0
  awid := 0
  awvalid := false
  wdata := 1#32
  wstrb := 15
  wlast := false
  wvalid := false
  bready := true
  araddr := 0
  arlen := 0
  arid := 0
  arvalid := false
  rready := true
  mAwready := true
  mWready := true
  mBresp := 0
  mBvalid := true
  mArready := true
  mRdata := 0
  mRresp := 0
  mRlast := j.pack.mover.takeLast
  mRvalid := j.pack.mover.rready && !(j.pack.mover.hiPending && j.pack.mover.lastBeat)

/-- Linux fetches block 0 into slot 1 and says a pack is present; the machine STARTs a write of
block 0 at clock 300; and Linux asks for the fetch again in a CTL beat at `again`. -/
def script (again : Option Nat) (clock : Nat) (j : Joined zynq) : JoinedInput zynq where
  walk := ⟨false, clock == 300, 9#32, 0, 0, false, j.walk.dReq, 0⟩
  pack :=
    { ready j with
      awvalid := clock == 0 || some (clock + 1) == again
      awaddr := if clock == 0 then 0x40000008#32 else 0x4000000C#32
      wvalid := decide (1 ≤ clock ∧ clock ≤ 3) || some clock == again
      wlast := decide (3 ≤ clock) }

/-- The run of a script. -/
def played (again : Option Nat) : Nat → Joined zynq
  | 0 => cold.next 0x200000 ⟨⟨true, false, 0, 0, 0, false, false, 0⟩, { ready cold with rst := true }⟩
  | clock + 1 => (played again clock).next 0x200000 (script again clock (played again clock))

theorem played_runs (again : Option Nat) :
    Runs 0x200000 (fun clock => script again clock (played again clock)) (played again) :=
  ⟨⟨cold, _, rfl, rfl, rfl⟩, fun _ => rfl⟩

theorem played_accepts (clock : Nat) (accepts : (played none clock).pack.accepts = true) :
    clock ≤ 4 := by
  cases clock with
  | zero => omega
  | succ clock =>
    have asked : (played none (clock + 1)).pack.regs.goAny = true :=
      (Bool.and_eq_true .. ▸ accepts).1
    obtain ⟨-, -, beat, -⟩ := DiskPack.Regs.next_asked asked
    unfold DiskPack.Port.beat at beat
    split_ifs at beat with lands
    have valid : (script none clock (played none clock)).pack.wvalid = true := by
      simp only [Bool.and_eq_true] at lands
      exact lands.1.1
    simp [script] at valid
    omega

theorem played_apart : Apart (fun clock => script none clock (played none clock))
    (played none) := by
  have early : ∀ clock ≤ 7, (played none clock).walk.v = .idle := by decide
  have off (clock : Nat) (slot : BitVec 5) (few : clock ≤ 7) :
      ¬ (played none clock).Chooses slot := by
    intro chooses
    have place := (Walk.chooses_spec chooses).1
    simp [early clock few] at place
  constructor
  · intro clock slot chooses later _ starts
    have few := played_accepts _ starts.1
    exact off clock slot (by omega) chooses
  · intro clock slot starts chooses
    have few := played_accepts _ starts.1
    exact off _ slot (by omega) chooses
  · intro clock reset
    simp [script, ready] at reset
  · intro clock accepts
    have few := played_accepts clock accepts
    have undropped : ∀ clock ≤ 4, (played none clock).pack.mover.pDrop = false := by
      decide
    exact undropped clock few

/-- In that run the walk chooses the slot at clock 305, and it is the walk's own. -/
theorem interlock_holds_played : (played none 305).Holds 1#5 ∧ (played none 305).Owns 1#5 := by
  have holds : (played none 305).Holds 1#5 := by
    left
    unfold Chooses
    decide +kernel
  exact ⟨holds, (interlock_holds (played_runs none) played_apart).1 305 1#5 holds⟩

/-- A fetch asked for in the clock before the walk chooses its slot is accepted in the clock it
chooses it, and is on the slot while the walk writes its words there. -/
theorem interlock_broken : ¬ ∀ (inputs : Nat → JoinedInput zynq) (j : Nat → Joined zynq),
    Runs 0x200000 inputs j → ∀ clock slot, (j clock).Holds slot → (j clock).Owns slot := by
  intro claim
  have on : (played (some 304) 306).walk.v = .write ∧
      (played (some 304) 306).walk.chSlot = 1#5 := by decide +kernel
  have engaged : (played (some 304) 306).pack.mover.moving = true ∧
      (played (some 304) 306).pack.mover.pWrite = false ∧
      (played (some 304) 306).pack.mover.pSlot = 1#5 := by decide +kernel
  have owns := claim _ _ (played_runs (some 304)) 306 1#5 (Or.inr (Or.inl ⟨Or.inr on.1, on.2⟩))
  exact owns.unengaged engaged

end Played

end Joined

end MuirFpga.Quux
