import MuirFpga.Quux.BlockWalk
import MuirFpga.Packs.Mover
import Mathlib.Tactic.SplitIfs

/-!
# What the pack side leaves of a store

The pack side joined to the tags and the valid bits of a block store, with the history of the
words: which move laid each. A slot being filled is empty, its words are laid in their order
before its tag, and a valid slot is one move's record. A walk that keeps a slot on its side of
the interlock finds it so until it leaves.
-/

namespace MuirFpga.Packs

open Quux (Seam)

/-- Which move laid a word of a store: the moves accepted so far, counted, and its tag. -/
structure Laid where
  move : Nat
  tag : BitVec 31
  deriving DecidableEq

/-- The pack side and what it writes of a store, with the history of the words. -/
structure Books (c : DiskPack.Config) where
  pack : DiskPack.State c
  valid : BitVec 5 → Bool
  tag : BitVec 5 → BitVec 31
  laid : BitVec 5 → BitVec 9 → Laid
  moves : Nat

namespace Books

variable {c : DiskPack.Config}

/-- The seam as the pack side drives it. -/
def seam (b : Books c) : Seam where
  we := b.pack.mover.storeWe
  slot := b.pack.mover.storeSlot
  addr := b.pack.mover.storeAddr
  wdata := b.pack.mover.storeWdata
  deny := b.pack.regs.goQ.getLsbD 3
  busy := b.pack.mover.moving
  busySlot := b.pack.mover.pSlot

/-- A word of the first `words` places is on the seam. -/
def lays (words : Nat) (b : Books c) : Bool := b.seam.we && decide (b.seam.addr.toNat < words)

/-- A clock of the pack side; a word the seam writes is laid by the move in progress. -/
def next (words : Nat) (rst : Bool) (i : DiskPack.Input c) (ch : DiskPack.Channel)
    (b : Books c) : Books c where
  pack := b.pack.next i ch
  valid :=
    if rst then fun _ => false
    else if b.seam.tagWrite true then Function.update b.valid b.seam.slot false
    else if b.seam.tagWrite false then Function.update b.valid b.seam.slot true
    else b.valid
  tag :=
    if b.seam.tagWrite false then
      Function.update b.tag b.seam.slot (b.seam.wdata.extractLsb' 0 31)
    else b.tag
  laid :=
    if b.lays words then
      Function.update b.laid b.seam.slot (Function.update (b.laid b.seam.slot) b.seam.addr
        ⟨b.moves, b.pack.mover.pTag⟩)
    else b.laid
  moves := if b.pack.mover.pst == .idle && b.pack.accepts then b.moves + 1 else b.moves

/-- A fetch or a take-away of a slot is accepted this clock. -/
def Starts (b : Books c) (slot : BitVec 5) : Prop :=
  b.pack.accepts = true ∧ b.pack.regs.goQ.getLsbD 1 = false ∧ b.pack.regs.slot = slot

/-- A fetch or a take-away is on a slot, or its last write to it is on the seam. -/
def Engaged (b : Books c) (slot : BitVec 5) : Prop :=
  b.pack.mover.moving = true ∧ b.pack.mover.pWrite = false ∧ b.pack.mover.pSlot = slot

/-- A slot's words are one move's record, and its tag is the slot's. -/
def Whole (words : Nat) (b : Books c) (slot : BitVec 5) (tag : BitVec 31) : Prop :=
  ∃ record : Laid, record.tag = tag ∧
    ∀ word : BitVec 9, word.toNat < words → b.laid slot word = record

/-- What every clock keeps between the mover, the seam and the store: a slot being filled is
empty, the words gone to the seam are laid in order, and a valid slot is one move's record. -/
structure Sound (words : Nat) (b : Books c) : Prop where
  mover : b.pack.mover.Sound
  seamed : b.seam.we = true → b.seam.slot = b.pack.mover.pSlot ∧ b.pack.mover.pWrite = false
  tagged : b.seam.tagWrite false = true → ¬ b.pack.mover.pst.fetching
  emptied : b.pack.mover.pst = .r ∨ b.pack.mover.pst = .tag →
    b.valid b.pack.mover.pSlot = false
  emptying : b.pack.mover.pst = .ar →
    b.valid b.pack.mover.pSlot = false ∨ b.seam.tagWrite true = true
  written : b.seam.we = true → b.seam.tagWrite true = true ∨ b.valid b.seam.slot = false
  filling : b.pack.mover.pst.fetching → ∀ word : BitVec 9, word.toNat < words →
    word.toNat < b.pack.mover.sent →
      b.laid b.pack.mover.pSlot word = ⟨b.moves, b.pack.mover.pTag⟩ ∨
        b.lays words = true ∧ b.seam.addr = word
  filled : b.seam.tagWrite false = true →
    b.Whole words b.seam.slot (b.seam.wdata.extractLsb' 0 31)
  whole : ∀ slot, b.valid slot = true → b.Whole words slot (b.tag slot)

variable {words : Nat} {rst : Bool} {i : DiskPack.Input c} {ch : DiskPack.Channel} {b : Books c}
  {slot : BitVec 5}

theorem next_mover : (b.next words rst i ch).pack.mover =
    b.pack.mover.next b.pack.accepts b.pack.regs ch.rdata i := rfl

theorem next_seam (run : i.rst = false) :
    (b.next words rst i ch).seam.we = b.pack.mover.seam.1 ∧
      (b.next words rst i ch).seam.slot = b.pack.mover.pSlot ∧
      (b.next words rst i ch).seam.addr = b.pack.mover.seam.2.1 ∧
      (b.next words rst i ch).seam.wdata = b.pack.mover.seam.2.2 := by
  simp [seam, next, DiskPack.State.next, DiskPack.Mover.next, run]

theorem next_seam_reset (reset : i.rst = true) : (b.next words rst i ch).seam.we = false ∧
    (b.next words rst i ch).pack.mover.pst = .idle ∧
    (b.next words rst i ch).pack.mover.busy = false := by
  simp [seam, next, DiskPack.State.next, DiskPack.Mover.next, DiskPack.Mover.master,
    DiskPack.Mover.reset, reset]

theorem laid_stands {word : BitVec 9}
    (other : b.lays words = true → b.seam.slot = slot → b.seam.addr ≠ word) :
    (b.next words rst i ch).laid slot word = b.laid slot word := by
  unfold next
  dsimp only
  split_ifs with lays
  · by_cases place : slot = b.seam.slot
    · subst place
      rw [Function.update_self, Function.update_of_ne (Ne.symm (other lays rfl))]
    · rw [Function.update_of_ne place]
  · rfl

theorem laid_written (lays : b.lays words = true) :
    (b.next words rst i ch).laid b.seam.slot b.seam.addr = ⟨b.moves, b.pack.mover.pTag⟩ := by
  unfold next
  simp only [lays, if_true]
  rw [Function.update_self, Function.update_self]

theorem tagWrite_place {m : Seam} {away : Bool} (tag : m.tagWrite away = true) :
    m.we = true ∧ m.data = false := by
  simp only [Seam.tagWrite, Seam.beside, Bool.and_eq_true] at tag
  refine ⟨tag.1.1.1, ?_⟩
  unfold Seam.data
  rw [tag.1.1.1]
  simpa using tag.1.1.2

theorem tagWrite_exclusive {m : Seam} (away : m.tagWrite true = true) :
    m.tagWrite false = false := by
  simp only [Seam.tagWrite, Bool.and_eq_true, beq_iff_eq] at away
  simp [Seam.tagWrite, away.2]

theorem valid_next_false
    (empty : b.valid slot = false ∨ b.seam.tagWrite true = true ∧ b.seam.slot = slot)
    (untagged : b.seam.tagWrite false = false) :
    (b.next words rst i ch).valid slot = false := by
  unfold next
  dsimp only
  split_ifs with reset away
  · rfl
  · by_cases same : slot = b.seam.slot
    · rw [same, Function.update_self]
    · rw [Function.update_of_ne same]
      exact empty.resolve_right fun place => same place.2.symm
  · rename_i tagged
    simp [untagged] at tagged
  · exact empty.resolve_right fun place => away place.1

theorem stands_next (other : ¬ (b.seam.we = true ∧ b.seam.slot = slot)) :
    (rst = false → (b.next words rst i ch).valid slot = b.valid slot) ∧
      (b.next words rst i ch).tag slot = b.tag slot := by
  have apart (away : Bool) (up : b.seam.tagWrite away = true) : slot ≠ b.seam.slot :=
    fun same => other ⟨(tagWrite_place up).1, same.symm⟩
  unfold next
  dsimp only
  constructor
  · intro run
    rw [if_neg (by simp [run])]
    split_ifs with away tagged
    · exact Function.update_of_ne (apart true away) ..
    · exact Function.update_of_ne (apart false tagged) ..
    · rfl
  · split_ifs with tagged
    · exact Function.update_of_ne (apart false tagged) ..
    · rfl

theorem untouched {away : Bool} (few : words ≤ 259) (tag : b.seam.tagWrite away = true) :
    b.lays words = false := by
  simp only [Seam.tagWrite, Seam.beside, Bool.and_eq_true, Bool.not_eq_true',
    decide_eq_false_iff_not, beq_iff_eq] at tag
  have low := congrArg BitVec.toNat tag.1.2
  have past : 256 ≤ b.seam.addr.toNat := by simpa [BitVec.lt_def] using tag.1.1.2
  simp [BitVec.extractLsb'_toNat] at low
  unfold lays
  simp only [Bool.and_eq_false_imp, decide_eq_false_iff_not]
  omega

theorem whole_next (few : words ≤ 259) (sound : b.Sound words) (slot : BitVec 5)
    (valid : (b.next words rst i ch).valid slot = true) :
    (b.next words rst i ch).Whole words slot ((b.next words rst i ch).tag slot) := by
  have run : rst = false := by
    cases reset : rst with
    | false => rfl
    | true => simp [next, reset] at valid
  by_cases tags : b.seam.tagWrite false = true ∧ b.seam.slot = slot
  · obtain ⟨record, tag, laid⟩ := sound.filled tags.1
    refine ⟨record, ?_, fun word inside => ?_⟩
    · rw [tag]
      simp [next, tags.1, tags.2]
    · rw [laid_stands (by simp [untouched few tags.1]), ← tags.2]
      exact laid word inside
  · have before : b.valid slot = true ∧ (b.next words rst i ch).tag slot = b.tag slot := by
      simp only [next, run, Bool.false_eq_true, if_false] at valid ⊢
      by_cases away : b.seam.tagWrite true = true
      · rw [if_pos away] at valid
        have other : slot ≠ b.seam.slot := fun same => by simp [same] at valid
        rw [Function.update_of_ne other] at valid
        simp [valid, tagWrite_exclusive away]
      · rw [if_neg away] at valid
        by_cases laid : b.seam.tagWrite false = true
        · have other : slot ≠ b.seam.slot := fun same => tags ⟨laid, same.symm⟩
          rw [if_pos laid, Function.update_of_ne other] at valid
          simp [valid, laid, Function.update_of_ne other]
        · rw [if_neg laid] at valid
          simp [valid, laid]
    obtain ⟨record, tag, laid⟩ := sound.whole slot before.1
    refine ⟨record, by rw [tag, before.2], fun word inside => ?_⟩
    rw [laid_stands, laid word inside]
    intro lays place
    have we : b.seam.we = true := (Bool.and_eq_true .. ▸ lays).1
    rcases sound.written we with away | empty
    · simp [untouched few away] at lays
    · rw [place, before.1] at empty
      exact Bool.noConfusion empty

theorem Sound.quiet (we : b.seam.we = false) (idle : b.pack.mover.pst = .idle)
    (whole : ∀ slot, b.valid slot = true → b.Whole words slot (b.tag slot)) : b.Sound words := by
  have off : ¬ b.pack.mover.pst.fetching := by simp [idle, DiskPack.PState.fetching]
  have untagged (away : Bool) : b.seam.tagWrite away = false := by
    simp [Seam.tagWrite, Seam.beside, we]
  exact {
    mover := DiskPack.Mover.Sound.aside off
    seamed := by simp [we]
    tagged := fun _ => off
    emptied := by simp [idle]
    emptying := by simp [idle]
    written := by simp [we]
    filling := fun fetch => absurd fetch off
    filled := by simp [untagged]
    whole := whole }

theorem laid_filled (sound : b.Sound words) (fetch : b.pack.mover.pst.fetching) (word : BitVec 9)
    (inside : word.toNat < words) (gone : word.toNat < b.pack.mover.sent) :
    (b.next words rst i ch).laid b.pack.mover.pSlot word = ⟨b.moves, b.pack.mover.pTag⟩ := by
  by_cases here : b.lays words = true ∧ b.seam.addr = word
  · have we : b.seam.we = true := (Bool.and_eq_true .. ▸ here.1).1
    rw [← (sound.seamed we).1, ← here.2]
    exact laid_written here.1
  · rcases sound.filling fetch word inside gone with laid | lays
    · rw [laid_stands (fun lays _ place => here ⟨lays, place⟩)]
      exact laid
    · exact absurd lays here

theorem begun_or_goes (b : Books c) : b.pack.mover.pst = .idle ∧ b.pack.accepts = true ∨
    (b.pack.mover.pst ≠ .idle ∨ b.pack.accepts = false) := by
  by_cases idle : b.pack.mover.pst = .idle
  · cases accepts : b.pack.accepts with
    | true => exact Or.inl ⟨idle, rfl⟩
    | false => exact Or.inr (Or.inr rfl)
  · exact Or.inr (Or.inl idle)

theorem next_tagWrite (sound : b.Sound words) (run : i.rst = false)
    (up : b.pack.mover.seam.1 = true) :
    ((b.next words rst i ch).seam.tagWrite true = true ↔ b.pack.mover.pst = .take) ∧
      ((b.next words rst i ch).seam.tagWrite false = true → b.pack.mover.pst = .tag ∧
        (b.next words rst i ch).seam.wdata.extractLsb' 0 31 = b.pack.mover.pTag) := by
  obtain ⟨we, -, addr, wdata⟩ : (b.next words rst i ch).seam.we = b.pack.mover.seam.1 ∧
    _ ∧ (b.next words rst i ch).seam.addr = b.pack.mover.seam.2.1 ∧
    (b.next words rst i ch).seam.wdata = b.pack.mover.seam.2.2 := next_seam run
  unfold Seam.tagWrite Seam.beside
  rw [we, addr, wdata, up]
  rcases DiskPack.Mover.seam_cases sound.mover.toCounts up with
    ⟨place, away⟩ | ⟨place, data⟩ | ⟨place, tag⟩
  · rw [away]
    exact ⟨iff_of_true (by decide) place, by simp⟩
  · have other (bit : Bool) : (true && !decide (b.pack.mover.seam.2.1 < 256#9) &&
        b.pack.mover.seam.2.1.extractLsb' 0 2 == 3#2 &&
          b.pack.mover.seam.2.2.getLsbD 31 == bit) = true → False := by
      intro tag
      simp only [Bool.true_and, Bool.and_eq_true, Bool.not_eq_true', decide_eq_false_iff_not,
        beq_iff_eq] at tag
      exact data tag.1
    exact ⟨iff_of_false (other true) (by simp [place]), fun tag => (other false tag).elim⟩
  · rw [tag]
    have top : (0#1 ++ b.pack.mover.pTag).getLsbD 31 = false := by
      rw [BitVec.getLsbD_append]
      simp
    exact ⟨iff_of_false (by rw [top]; simp) (by simp [place]),
      fun _ => ⟨place, BitVec.extractLsb'_append_eq_right⟩⟩

theorem untagged (sound : b.Sound words) (fetch : b.pack.mover.pst.fetching) :
    b.seam.tagWrite false = false := by
  cases tag : b.seam.tagWrite false with
  | false => rfl
  | true => exact absurd fetch (sound.tagged tag)

theorem empty_next (sound : b.Sound words) (fetch : b.pack.mover.pst.fetching)
    (late : b.pack.mover.pst ≠ .take) :
    (b.next words rst i ch).valid b.pack.mover.pSlot = false := by
  apply valid_next_false _ (untagged sound fetch)
  rcases fetch with place | place | place | place
  · exact absurd place late
  · rcases sound.emptying place with empty | away
    · exact Or.inl empty
    · exact Or.inr ⟨away, (sound.seamed (tagWrite_place away).1).1⟩
  · exact Or.inl (sound.emptied (Or.inl place))
  · exact Or.inl (sound.emptied (Or.inr place))

theorem running_of_fetching (fetch : b.pack.mover.pst.fetching) : b.pack.mover.pst ≠ .idle := by
  intro idle
  simp [DiskPack.PState.fetching, idle] at fetch

theorem next_fetching (sound : b.Sound words) (run : i.rst = false)
    (clean : b.pack.accepts = true → b.pack.mover.pDrop = false) :
    (b.next words rst i ch).pack.mover.Sound ∧
      ((b.next words rst i ch).pack.mover.pst.fetching →
        (b.next words rst i ch).pack.mover.pst = .take ∧
            (b.next words rst i ch).pack.mover.sent = 0 ∨
          b.pack.mover.pst.fetching ∧ (b.next words rst i ch).pack.mover.pst ≠ .take ∧
            DiskPack.Mover.Sends b.pack.mover (b.next words rst i ch).pack.mover) := by
  rw [next_mover]
  rcases begun_or_goes b with ⟨idle, accepts⟩ | other
  · rw [accepts]
    obtain ⟨kept, -, first⟩ := DiskPack.Mover.next_begun (g := b.pack.regs) run idle
      (clean accepts)
    exact ⟨kept, fun fetch => Or.inl (first fetch)⟩
  · obtain ⟨kept, goes⟩ := DiskPack.Mover.next_sound (g := b.pack.regs) run other sound.mover
    exact ⟨kept, fun fetch => Or.inr ⟨(goes fetch).1, (goes fetch).2.2, (goes fetch).2.1⟩⟩

theorem sound_next (few : words ≤ 259) (sound : b.Sound words)
    (clean : b.pack.accepts = true → b.pack.mover.pDrop = false) :
    (b.next words rst i ch).Sound words := by
  cases run : i.rst with
  | true =>
    exact Sound.quiet (next_seam_reset run).1 (next_seam_reset run).2.1
      (whole_next few sound)
  | false =>
    obtain ⟨we, slot, addr, -⟩ : (b.next words rst i ch).seam.we = b.pack.mover.seam.1 ∧
      (b.next words rst i ch).seam.slot = b.pack.mover.pSlot ∧
      (b.next words rst i ch).seam.addr = b.pack.mover.seam.2.1 ∧ _ := next_seam run
    have decoded (up : b.pack.mover.seam.1 = true) :
        ((b.next words rst i ch).seam.tagWrite true = true ↔ b.pack.mover.pst = .take) ∧
          ((b.next words rst i ch).seam.tagWrite false = true → b.pack.mover.pst = .tag ∧
            (b.next words rst i ch).seam.wdata.extractLsb' 0 31 = b.pack.mover.pTag) :=
      next_tagWrite sound run up
    have ends : (b.pack.mover.pst = .take → (b.next words rst i ch).pack.mover.pst = .ar ∨
        (b.next words rst i ch).pack.mover.pst = .idle) ∧
        (b.pack.mover.pst = .tag → (b.next words rst i ch).pack.mover.pst = .idle) :=
      DiskPack.Mover.next_ends run
    have same (fetch : b.pack.mover.pst.fetching) :
        DiskPack.Mover.Same b.pack.mover (b.next words rst i ch).pack.mover :=
      (DiskPack.Mover.next_goes run (Or.inl (running_of_fetching fetch))).1
    have before : (b.next words rst i ch).pack.mover.Sound ∧ _ := next_fetching sound run clean
    exact {
      mover := before.1
      seamed := fun up => by
        rw [we] at up
        have fetch := DiskPack.Mover.seam_fetching up
        rw [slot, (same fetch).slot, (same fetch).write]
        exact ⟨rfl, sound.mover.read fetch⟩
      tagged := fun tag => by
        have up := (tagWrite_place tag).1
        rw [we] at up
        rw [ends.2 ((decoded up).2 tag).1]
        simp [DiskPack.PState.fetching]
      emptied := fun place => by
        have late : (b.next words rst i ch).pack.mover.pst.fetching := by
          rcases place with place | place <;> simp [DiskPack.PState.fetching, place]
        rcases before.2 late with ⟨first, -⟩ | ⟨fetch, -, -⟩
        · simp [first] at place
        · rw [(same fetch).slot]
          apply empty_next sound fetch
          intro first
          rcases ends.1 first with next | next <;> simp [next] at place
      emptying := fun place => by
        have late : (b.next words rst i ch).pack.mover.pst.fetching := Or.inr (Or.inl place)
        rcases before.2 late with ⟨first, -⟩ | ⟨fetch, -, -⟩
        · simp [first] at place
        · rw [(same fetch).slot]
          by_cases first : b.pack.mover.pst = .take
          · have up : b.pack.mover.seam.1 = true := by simp [DiskPack.Mover.seam, first]
            exact Or.inr ((decoded up).1.mpr first)
          · exact Or.inl (empty_next sound fetch first)
      written := fun up => by
        rw [we] at up
        rw [slot]
        by_cases first : b.pack.mover.pst = .take
        · exact Or.inl ((decoded up).1.mpr first)
        · exact Or.inr (empty_next sound (DiskPack.Mover.seam_fetching up) first)
      filling := fun late word inside gone => by
        rcases before.2 late with ⟨-, zero⟩ | ⟨fetch, -, sends⟩
        · omega
        · have count : (b.next words rst i ch).moves = b.moves := by
            simp [next, running_of_fetching fetch]
          rw [(same fetch).slot, (same fetch).tag, count]
          by_cases old : word.toNat < b.pack.mover.sent
          · exact Or.inl (laid_filled sound fetch word inside old)
          · rcases sends late with less | ⟨more, up, place⟩
            · omega
            · right
              have last : b.pack.mover.seam.2.1 = word := BitVec.eq_of_toNat_eq (by omega)
              unfold lays
              rw [we, addr, last, up]
              exact ⟨by simpa using inside, rfl⟩
      filled := fun tag => by
        have up := (tagWrite_place tag).1
        rw [we] at up
        have fetch := DiskPack.Mover.seam_fetching up
        obtain ⟨place, wdata⟩ := (decoded up).2 tag
        refine ⟨⟨b.moves, b.pack.mover.pTag⟩, wdata.symm, fun word inside => ?_⟩
        rw [slot]
        apply laid_filled sound fetch word inside
        simp only [DiskPack.Mover.sent, place, if_true]
        omega
      whole := whole_next few sound }

theorem sound_reset (store : rst = true) (pack : i.rst = true) :
    (b.next words rst i ch).Sound words :=
  Sound.quiet (next_seam_reset pack).1 (next_seam_reset pack).2.1 (by simp [next, store])

theorem engaged_next (sound : b.Sound words)
    (clean : b.pack.accepts = true → b.pack.mover.pDrop = false)
    (engaged : (b.next words rst i ch).Engaged slot) : b.Engaged slot ∨ b.Starts slot := by
  obtain ⟨moving, read, place⟩ := engaged
  unfold DiskPack.Mover.moving at moving
  cases run : i.rst with
  | true =>
    simp [next, DiskPack.State.next, DiskPack.Mover.next, DiskPack.Mover.master,
      DiskPack.Mover.reset, run] at moving
  | false =>
    have we : (b.next words rst i ch).seam.we = b.pack.mover.seam.1 := (next_seam run).1
    rw [next_mover] at moving read place
    rcases begun_or_goes b with ⟨idle, accepts⟩ | other
    · rw [accepts] at moving read place
      obtain ⟨-, same, -⟩ := DiskPack.Mover.next_begun (g := b.pack.regs) (i := i) run idle
        (clean accepts)
      rw [same.write] at read
      rw [same.slot] at place
      exact Or.inr ⟨accepts, read, place⟩
    · obtain ⟨same, busy⟩ := DiskPack.Mover.next_goes (g := b.pack.regs) (i := i) run other
      rw [same.write] at read
      rw [same.slot] at place
      refine Or.inl ⟨?_, read, place⟩
      unfold DiskPack.Mover.moving
      rcases Bool.or_eq_true .. ▸ moving with up | up
      · rw [busy up]
        rfl
      · have fetch := DiskPack.Mover.seam_fetching (we.symm.trans up)
        rw [sound.mover.busy fetch]
        rfl

theorem taken_next (sound : b.Sound words)
    (clean : b.pack.accepts = true → b.pack.mover.pDrop = false)
    (take : (b.next words rst i ch).pack.mover.pst = .take) :
    b.Starts (b.next words rst i ch).pack.mover.pSlot := by
  have run : i.rst = false := by
    cases run : i.rst with
    | false => rfl
    | true => simp [next_seam_reset run] at take
  rw [next_mover] at take ⊢
  rcases begun_or_goes b with ⟨idle, accepts⟩ | other
  · rw [accepts] at take ⊢
    obtain ⟨kept, same, -⟩ := DiskPack.Mover.next_begun (g := b.pack.regs) (i := i)
      run idle (clean accepts)
    have read := kept.read (Or.inl take)
    rw [same.write] at read
    exact ⟨accepts, read, same.slot.symm⟩
  · obtain ⟨-, goes⟩ := DiskPack.Mover.next_sound (g := b.pack.regs) (i := i) run other
      sound.mover
    exact absurd take (goes (Or.inl take)).2.2

theorem away_next (sound : b.Sound words)
    (away : (b.next words rst i ch).seam.tagWrite true = true) :
    b.pack.mover.pst = .take ∧ (b.next words rst i ch).seam.slot = b.pack.mover.pSlot := by
  have we := (tagWrite_place away).1
  have run : i.rst = false := by
    cases run : i.rst with
    | false => rfl
    | true => simp [next_seam_reset run] at we
  obtain ⟨up, slot, -⟩ : (b.next words rst i ch).seam.we = b.pack.mover.seam.1 ∧
    (b.next words rst i ch).seam.slot = b.pack.mover.pSlot ∧ _ := next_seam run
  exact ⟨(next_tagWrite sound run (up.symm.trans we)).1.mp away, slot⟩

theorem unwritten (sound : b.Sound words) (off : ¬ b.Engaged slot) :
    ¬ (b.seam.we = true ∧ b.seam.slot = slot) := by
  rintro ⟨we, place⟩
  obtain ⟨same, read⟩ := sound.seamed we
  refine off ⟨?_, read, same.symm.trans place⟩
  unfold DiskPack.Mover.moving
  rw [show b.pack.mover.storeWe = true from we, Bool.or_true]

end Books

end MuirFpga.Packs
