import MuirFpga.Sync.Trace
import MuirFpga.Sync.ByteMemory
import Mathlib.Data.BitVec

/-!
# What the console reads as several words

A read beat of `cadr_console` passes `R_START`, `R_PREP`, `R_PREP2` and `R_DATA`. The high half of a counter is
taken in the first and the low half in the third, so the two are of one tick unless a carry comes between; `VMA`,
`Q` and `MD`, and the readout's echo and word, are taken together in the second.
-/

namespace MuirFpga.Spy

/-- `rstate_e`. -/
inductive ReadState
  | addr | start | cycle | prep | prep2 | data
  deriving DecidableEq, Inhabited

/-- A tick, as the console's reads see it; `page0` and `page2` are the words that are read straight. -/
structure ReadTick where
  rst : Bool
  fabricRst : Bool
  machRst : Bool
  arvalid : Bool
  araddr : BitVec 32
  arlen : Nat
  rready : Bool
  clockEdge : Bool
  machineRst : Bool
  mclk : Bool
  vma : BitVec 32
  q : BitVec 32
  md : BitVec 32
  roEcho : BitVec 18
  roData : BitVec 48
  engDone : Bool
  engRdata : BitVec 16
  engLost : Bool
  tvMap : BitVec 24
  tvColorMap : BitVec 24
  page0 : BitVec 4 → BitVec 32
  page2 : BitVec 5 → BitVec 32
  unmapped : BitVec 32
  deriving Inhabited

/-- The read side's registers, the counters and `cadr_console_state`. -/
structure ConsoleRead where
  state : ReadState
  at_ : BitVec 32
  left : Nat
  mapQ : Bool
  inQ : Bool
  hiQ : Bool
  idxQ : BitVec 5
  mapWord : BitVec 24
  spy : BitVec 16
  lost : Bool
  heldArm : Bool
  roArm : Bool
  rdata : BitVec 32
  cycles : BitVec 64
  ticks : BitVec 64
  cyclesHi : BitVec 32
  ticksHi : BitVec 32
  conVma : BitVec 32
  conQ : BitVec 32
  conMd : BitVec 32
  heldVma : BitVec 32
  heldQ : BitVec 32
  heldMd : BitVec 32
  heldEcho : BitVec 18
  heldData : BitVec 48
  deriving Inhabited

namespace ConsoleRead

/-- `RO_NONE` and `RO_NO_MEMORY`. -/
def roNone : BitVec 18 := 0x3FFFF#18
def roNoMemory : BitVec 48 := 0xA5A55A5AA5A5#48

variable (base : BitVec 32) (i : ReadTick) (c : ConsoleRead)

/-- `in_window`, of a window so far past the base. -/
def inWindow (past : BitVec 32) : Bool := c.at_.extractLsb' 7 25 == (base + past).extractLsb' 7 25

def idx : BitVec 5 := c.at_.extractLsb' 2 5

/-- What `cadr_console_state` holds, and what is held of it and of the readout. -/
def con : BitVec 32 × BitVec 32 × BitVec 32 := (c.conVma, c.conQ, c.conMd)
def held : BitVec 32 × BitVec 32 × BitVec 32 := (c.heldVma, c.heldQ, c.heldMd)
def readout : BitVec 18 × BitVec 48 := (c.heldEcho, c.heldData)

/-- The beat now starting names a word of page 0. -/
def names (word : BitVec 4) : Bool :=
  c.inWindow base 0 && !c.idx.getLsbD 4 && c.idx.extractLsb' 0 4 == word

/-- `r_word`, of page 0. -/
def word0 : BitVec 4 → BitVec 32
  | 2#4 => c.cycles.extractLsb' 0 32
  | 3#4 => c.cyclesHi
  | 4#4 => c.ticks.extractLsb' 0 32
  | 5#4 => c.ticksHi
  | 7#4 => c.heldVma
  | 8#4 => c.heldQ
  | 9#4 => c.heldMd
  | 10#4 => 0#14 ++ c.heldEcho
  | 11#4 => c.heldData.extractLsb' 0 32
  | 12#4 => 0#16 ++ c.heldData.extractLsb' 32 16
  | other => i.page0 other

/-- `r_word`. -/
def word : BitVec 32 :=
  if c.mapQ then 0#8 ++ c.mapWord
  else if !c.inQ then if c.hiQ then i.page2 c.idxQ else i.unmapped
  else if c.idxQ.getLsbD 4 then 0#15 ++ BitVec.ofBool c.lost ++ c.spy
  else c.word0 i (c.idxQ.extractLsb' 0 4)

/-- The counters and `cadr_console_state`, a clock on. -/
def counted : ConsoleRead :=
  { c with
    cycles := if i.rst || i.fabricRst || i.machRst then 0
      else if i.clockEdge then c.cycles + 1 else c.cycles
    ticks := if i.rst || i.fabricRst || i.machRst then 0 else c.ticks + 1
    conVma := if i.machineRst then 0 else if i.mclk then i.vma else c.conVma
    conQ := if i.machineRst then 0 else if i.mclk then i.q else c.conQ
    conMd := if i.machineRst then 0 else if i.mclk then i.md else c.conMd }

/-- The reads, in their states. -/
def reads (x : ConsoleRead) : ConsoleRead :=
  match c.state with
  | .addr => if i.arvalid then { x with at_ := i.araddr, left := i.arlen, state := .start } else x
  | .start =>
    { x with
      mapQ := c.inWindow base 0x100, inQ := c.inWindow base 0, hiQ := c.inWindow base 0x80, idxQ := c.idx
      cyclesHi := if c.names base 2 then c.cycles.extractLsb' 32 32 else c.cyclesHi
      ticksHi := if c.names base 4 then c.ticks.extractLsb' 32 32 else c.ticksHi
      heldArm := c.names base 7, roArm := c.names base 10
      state := if c.inWindow base 0 && c.idx.getLsbD 4 then .cycle else .prep }
  | .cycle => if i.engDone then { x with spy := i.engRdata, lost := i.engLost, state := .prep } else x
  | .prep =>
    { x with
      mapWord := if c.idxQ.getLsbD 4 then i.tvColorMap else i.tvMap
      heldVma := if c.heldArm then c.conVma else c.heldVma
      heldQ := if c.heldArm then c.conQ else c.heldQ
      heldMd := if c.heldArm then c.conMd else c.heldMd
      heldEcho := if c.roArm then i.roEcho else c.heldEcho
      heldData := if c.roArm then i.roData else c.heldData
      state := .prep2 }
  | .prep2 => { x with rdata := c.word i, state := .data }
  | .data =>
    if i.rready then
      if c.left = 0 then { x with at_ := c.at_ + 4, state := .addr }
      else { x with at_ := c.at_ + 4, left := c.left - 1, state := .start }
    else x

/-- The port's reset. -/
def cleared (x : ConsoleRead) : ConsoleRead :=
  { x with
    state := .addr, at_ := 0, left := 0, mapQ := false, inQ := false, hiQ := false, idxQ := 0, mapWord := 0, spy := 0
    lost := false, heldArm := false, roArm := false, rdata := 0 }

/-- A clock. -/
def next : ConsoleRead :=
  let x := if i.rst then cleared (c.counted i) else c.reads base i (c.counted i)
  if i.rst || i.fabricRst then
    { x with
      cyclesHi := 0, ticksHi := 0, heldVma := 0, heldQ := 0, heldMd := 0, heldEcho := roNone, heldData := roNoMemory }
  else x

end ConsoleRead

namespace ConsoleRead

variable {base : BitVec 32} {i : ReadTick} {c d : ConsoleRead}

/-- No reset comes. -/
def Unreset (i : ReadTick) : Prop :=
  i.rst = false ∧ i.fabricRst = false ∧ i.machRst = false ∧ i.machineRst = false

/-- A clock in which no reset comes. -/
def Steps (base : BitVec 32) (i : ReadTick) (c d : ConsoleRead) : Prop := Unreset i ∧ d = c.next base i

theorem Steps.eq (step : Steps base i c d) : d = c.reads base i (c.counted i) := by
  obtain ⟨⟨rst, fabric, -⟩, rfl⟩ := step
  unfold next
  rw [rst, fabric]
  rfl

theorem reads_counts (x : ConsoleRead) : (c.reads base i x).cycles = x.cycles ∧ (c.reads base i x).ticks = x.ticks ∧
    (c.reads base i x).conVma = x.conVma ∧ (c.reads base i x).conQ = x.conQ ∧ (c.reads base i x).conMd = x.conMd := by
  unfold reads
  split <;> first | exact ⟨rfl, rfl, rfl, rfl, rfl⟩ | (split_ifs <;> exact ⟨rfl, rfl, rfl, rfl, rfl⟩)

section

variable (step : Steps base i c d)

include step

theorem Steps.cycles_next : d.cycles = if i.clockEdge then c.cycles + 1 else c.cycles := by
  rw [step.eq, (reads_counts _).1]
  unfold counted
  rw [step.1.1, step.1.2.1, step.1.2.2.1]
  rfl

theorem Steps.ticks_next : d.ticks = c.ticks + 1 := by
  rw [step.eq, (reads_counts _).2.1]
  unfold counted
  rw [step.1.1, step.1.2.1, step.1.2.2.1]
  rfl

theorem Steps.con_next : d.con = if i.mclk then (i.vma, i.q, i.md) else c.con := by
  obtain ⟨-, -, vma, q, md⟩ := @reads_counts base i c (c.counted i)
  unfold con
  rw [step.eq, vma, q, md]
  unfold counted
  rw [step.1.2.2.2]
  cases i.mclk <;> rfl

/-- A clock takes a high half, or arms, at a start, and takes what is held where it is armed. -/
theorem Steps.takes : (d.cyclesHi, d.ticksHi) =
        (if c.state = .start ∧ c.names base 2 = true then c.cycles.extractLsb' 32 32 else c.cyclesHi,
          if c.state = .start ∧ c.names base 4 = true then c.ticks.extractLsb' 32 32 else c.ticksHi) ∧
      (d.heldArm, d.roArm) = (if c.state = .start then c.names base 7 else c.heldArm,
        if c.state = .start then c.names base 10 else c.roArm) ∧
      d.held = (if c.state = .prep ∧ c.heldArm = true then c.con else c.held) ∧
      d.readout = if c.state = .prep ∧ c.roArm = true then (i.roEcho, i.roData) else c.readout := by
  rw [step.eq]
  unfold reads
  cases c.state with
  | start =>
    simp only [true_and, if_true, reduceCtorEq, false_and, if_false]
    exact ⟨rfl, rfl⟩
  | prep =>
    simp only [true_and, if_false, reduceCtorEq, false_and]
    refine ⟨rfl, rfl, ?_, ?_⟩
    · cases c.heldArm <;> rfl
    · cases c.roArm <;> rfl
  | prep2 =>
    simp only [reduceCtorEq, false_and, if_false]
    exact ⟨rfl, rfl, rfl, rfl⟩
  | addr | cycle | data =>
    simp only [reduceCtorEq, false_and, if_false]
    split_ifs <;> exact ⟨rfl, rfl, rfl, rfl⟩

theorem Steps.high_next :
    (d.cyclesHi = if c.state = .start ∧ c.names base 2 = true then c.cycles.extractLsb' 32 32 else c.cyclesHi) ∧
      (d.ticksHi = if c.state = .start ∧ c.names base 4 = true then c.ticks.extractLsb' 32 32 else c.ticksHi) :=
  Prod.mk.inj step.takes.1

theorem Steps.arms_next :
    (d.heldArm = if c.state = .start then c.names base 7 else c.heldArm) ∧
      (d.roArm = if c.state = .start then c.names base 10 else c.roArm) := Prod.mk.inj step.takes.2.1

theorem Steps.held_next :
    (d.held = if c.state = .prep ∧ c.heldArm = true then c.con else c.held) ∧
      (d.readout = if c.state = .prep ∧ c.roArm = true then (i.roEcho, i.roData) else c.readout) := step.takes.2.2

end

theorem past_next {x : ConsoleRead} (same : x.state = c.state) (start : c.state ≠ .start) (cycle : c.state ≠ .cycle) :
    (c.reads base i x).state ≠ .prep ∧ (c.reads base i x).state ≠ .cycle := by
  unfold reads
  split <;> rename_i state
  · split_ifs
    · exact ⟨nofun, nofun⟩
    · rw [same, state]
      exact ⟨nofun, nofun⟩
  · exact absurd state start
  · exact absurd state cycle
  · exact ⟨nofun, nofun⟩
  · exact ⟨nofun, nofun⟩
  · split_ifs
    · exact ⟨nofun, nofun⟩
    · exact ⟨nofun, nofun⟩
    · rw [same, state]
      exact ⟨nofun, nofun⟩

theorem names_spec {word : BitVec 4} (names : c.names base word = true) : c.inWindow base 0 = true ∧
    c.inWindow base 0x100 = false ∧ c.idx.getLsbD 4 = false ∧ c.idx.extractLsb' 0 4 = word := by
  unfold ConsoleRead.names at names
  simp only [Bool.and_eq_true, Bool.not_eq_true', beq_iff_eq] at names
  refine ⟨names.1.1, ?_, names.1.2, names.2⟩
  have page := names.1.1
  unfold inWindow at page ⊢
  rw [beq_iff_eq, show base + 0 = base from BitVec.add_zero base] at page
  rw [page, beq_eq_false_iff_ne]
  intro same
  have value := congrArg BitVec.toNat same
  rw [BitVec.extractLsb'_toNat, BitVec.extractLsb'_toNat, BitVec.toNat_add, Nat.shiftRight_eq_div_pow,
    Nat.shiftRight_eq_div_pow, show (256 : BitVec 32).toNat = 256 from rfl] at value
  have bound := base.isLt
  omega

end ConsoleRead

section Pairs

/-- How often a counter counts in so many ticks from one. -/
def ups (up : Nat → Bool) (t : Nat) : Nat → Nat
  | 0 => 0
  | n + 1 => ups up t n + if up (t + n) then 1 else 0

variable {counter : Nat → BitVec 64} {up : Nat → Bool} {t n : Nat}

theorem ups_all (t n : Nat) : ups (fun _ => true) t n = n := by
  induction n with
  | zero => rfl
  | succ n ih => exact congrArg (· + 1) ih

theorem ups_mono : Monotone (ups up t) := monotone_nat_of_le_succ fun _ => Nat.le_add_right _ _

theorem ups_meets {goal : Nat} (reached : goal ≤ ups up t n) : ∃ k, k ≤ n ∧ ups up t k = goal := by
  induction n with
  | zero => exact ⟨0, Nat.le_refl 0, Nat.le_antisymm (Nat.zero_le _) reached⟩
  | succ n ih =>
    by_cases before : goal ≤ ups up t n
    · obtain ⟨k, upTo, met⟩ := ih before
      exact ⟨k, by omega, met⟩
    · refine ⟨n + 1, Nat.le_refl _, ?_⟩
      unfold ups at reached ⊢
      split_ifs at reached ⊢ <;> omega

theorem counter_ups (counts : ∀ t, counter (t + 1) = if up t then counter t + 1 else counter t) (t n : Nat) :
    (counter (t + n)).toNat = ((counter t).toNat + ups up t n) % 2 ^ 64 := by
  induction n with
  | zero => exact (Nat.mod_eq_of_lt (counter t).isLt).symm
  | succ n ih =>
    rw [← Nat.add_assoc, counts, ups]
    split_ifs
    · rw [BitVec.toNat_add, ih, show (1 : BitVec 64).toNat = 1 from rfl]
      omega
    · exact ih

/-- A high half taken two ticks before the low half is of one tick with it when no carry comes between, or when
the counter comes round to it. -/
theorem pair_iff (counts : ∀ t, counter (t + 1) = if up t then counter t + 1 else counter t) (t held : Nat)
    (after : 2 ≤ held) :
    (∃ n, n ≤ held ∧ (counter t).extractLsb' 32 32 ++ (counter (t + 2)).extractLsb' 0 32 = counter (t + n)) ↔
      (counter t).toNat % 2 ^ 32 + ups up t 2 < 2 ^ 32 ∨ 2 ^ 64 + ups up t 2 ≤ ups up t held + 2 ^ 32 := by
  have few : ups up t 2 ≤ 2 := by
    unfold ups ups ups
    split_ifs <;> omega
  have pair : ((counter t).extractLsb' 32 32 ++ (counter (t + 2)).extractLsb' 0 32).toNat =
      (counter t).toNat / 2 ^ 32 * 2 ^ 32 + ((counter t).toNat + ups up t 2) % 2 ^ 32 := by
    rw [Sync.toNat_append_add, BitVec.extractLsb'_toNat, BitVec.extractLsb'_toNat, counter_ups counts,
      Nat.shiftRight_eq_div_pow, Nat.shiftRight_eq_div_pow]
    have bound := (counter t).isLt
    omega
  have bound := (counter t).isLt
  constructor
  · rintro ⟨n, upTo, same⟩
    have value := (congrArg BitVec.toNat same).symm.trans pair
    have most : ups up t n ≤ ups up t held := ups_mono upTo
    rw [counter_ups counts] at value
    omega
  · rintro (calm | round)
    · refine ⟨2, after, BitVec.eq_of_toNat_eq (pair.trans ?_)⟩
      rw [counter_ups counts]
      omega
    · by_cases carry : (counter t).toNat % 2 ^ 32 + ups up t 2 < 2 ^ 32
      · refine ⟨2, after, BitVec.eq_of_toNat_eq (pair.trans ?_)⟩
        rw [counter_ups counts]
        omega
      · obtain ⟨n, upTo, met⟩ := ups_meets (show 2 ^ 64 + ups up t 2 - 2 ^ 32 ≤ ups up t held by omega)
        refine ⟨n, upTo, BitVec.eq_of_toNat_eq (pair.trans ?_)⟩
        rw [counter_ups counts, met]
        omega

end Pairs

section Beats

variable {base : BitVec 32} {inputs : Nat → ReadTick} {run : Nat → ConsoleRead} {t u v : Nat} {word other : BitVec 4}

/-- A run of the reads in which no reset comes. -/
def Reads (base : BitVec 32) (inputs : Nat → ReadTick) (run : Nat → ConsoleRead) : Prop :=
  ∀ t, ConsoleRead.Steps base (inputs t) (run t) (run (t + 1))

/-- A read beat of a word of page 0 starts in a tick. -/
def Beat (base : BitVec 32) (run : Nat → ConsoleRead) (word : BitVec 4) (t : Nat) : Prop :=
  (run t).state = .start ∧ (run t).names base word = true

/-- A later tick, with no other beat of the word started before it. -/
def Before (base : BitVec 32) (run : Nat → ConsoleRead) (word : BitVec 4) (t u : Nat) : Prop :=
  t < u ∧ ∀ w, t < w → w < u → ¬ Beat base run word w

instance (t : Nat) : Decidable (Beat base run word t) := inferInstanceAs (Decidable (_ ∧ _))

instance (t u : Nat) : Decidable (Before base run word t u) :=
  inferInstanceAs (Decidable (_ ∧ ∀ w, t + 1 ≤ w → w < u → ¬ Beat base run word w))

/-- The word its beat gives. -/
def gives (run : Nat → ConsoleRead) (t : Nat) : BitVec 32 :=
  (run (t + 3)).rdata

variable (reads : Reads base inputs run)

include reads

theorem Beat.passes (beat : Beat base run word t) :
    (run (t + 1)).state = .prep ∧ (run (t + 2)).state = .prep2 ∧
      gives run t = (run (t + 2)).word (inputs (t + 2)) ∧
      (run (t + 2)).mapQ = false ∧ (run (t + 2)).inQ = true ∧
      (run (t + 2)).idxQ.getLsbD 4 = false ∧
      (run (t + 2)).idxQ.extractLsb' 0 4 = word := by
  obtain ⟨state, names⟩ := beat
  obtain ⟨inside, outside, page, index⟩ := ConsoleRead.names_spec names
  have one := (reads t).eq
  unfold ConsoleRead.reads at one
  rw [state] at one
  have prep : (run (t + 1)).state = .prep := by
    rw [one]
    dsimp only
    rw [page, Bool.and_false]
    rfl
  have two := (reads (t + 1)).eq
  unfold ConsoleRead.reads at two
  rw [prep] at two
  have prep2 : (run (t + 2)).state = .prep2 := congrArg ConsoleRead.state two
  have three := (reads (t + 2)).eq
  unfold ConsoleRead.reads at three
  rw [prep2] at three
  have kept : (run (t + 2)).mapQ = (run (t + 1)).mapQ ∧
      (run (t + 2)).inQ = (run (t + 1)).inQ ∧
      (run (t + 2)).idxQ = (run (t + 1)).idxQ := by
    rw [show t + 2 = t + 1 + 1 from rfl, two]
    exact ⟨rfl, rfl, rfl⟩
  rw [kept.1, kept.2.1, kept.2.2, one]
  exact ⟨one ▸ prep, prep2, congrArg ConsoleRead.rdata three, outside, inside, page, index⟩

/-- A read gives its register two ticks on. -/
theorem Beat.gives_eq (beat : Beat base run word t) :
    gives run t = (run (t + 2)).word0 (inputs (t + 2)) word := by
  obtain ⟨-, -, gives, map, inside, page, index⟩ := beat.passes reads
  rw [gives, ConsoleRead.word, map, inside, page, index]
  rfl

theorem Beat.alone (beat : Beat base run other u) (differs : other ≠ word)
    (between : Before base run word t u) : Before base run word t (u + 2) := by
  refine ⟨Nat.lt_add_right 2 between.1, fun w after before => ?_⟩
  obtain early | rfl | rfl : w < u ∨ w = u ∨ w = u + 1 := by omega
  · exact between.2 w after early
  · intro again
    exact differs ((ConsoleRead.names_spec beat.2).2.2.2.symm.trans (ConsoleRead.names_spec again.2).2.2.2)
  · intro again
    exact absurd ((beat.passes reads).1.symm.trans again.1) (by decide)

theorem Beat.alone_self (beat : Beat base run word t) : Before base run word t (t + 2) := by
  refine ⟨by omega, fun w after before again => ?_⟩
  obtain rfl : w = t + 1 := by omega
  exact absurd ((beat.passes reads).1.symm.trans again.1) (by decide)

omit reads in
theorem high_stays {read : ConsoleRead → BitVec 32} {counter : ConsoleRead → BitVec 64}
    (loads : ∀ t, read (run (t + 1)) = if (run t).state = .start ∧ (run t).names base word = true then
      (counter (run t)).extractLsb' 32 32 else read (run t))
    (beat : Beat base run word t) (alone : Before base run word t v) :
    read (run v) = (counter (run t)).extractLsb' 32 32 :=
  (Sync.stands_between (fun w => read (run w)) alone.1 fun w lo hi =>
    (loads w).trans (if_neg (alone.2 w lo hi))).trans ((loads t).trans (if_pos beat))

section Held

variable {Value : Type} (held : ConsoleRead → Value) (taken : Nat → Value) {arm : ConsoleRead → Bool}
  (arms : ∀ t, arm (run (t + 1)) = if (run t).state = .start then (run t).names base word else arm (run t))
  (takes : ∀ t, held (run (t + 1)) =
    if (run t).state = .prep ∧ arm (run t) = true then taken t else held (run t))

include arms takes

theorem held_stays (beat : Beat base run word t) (after : t + 2 ≤ v) (alone : Before base run word t v) :
    held (run v) = taken (t + 1) := by
  obtain ⟨prep, prep2, -⟩ := beat.passes reads
  have armed : arm (run (t + 1)) = true := (arms t).trans ((if_pos beat.1).trans beat.2)
  -- What is armed past the beat is past its `R_PREP`.
  have past (w : Nat) (lo : t + 2 ≤ w) : w ≤ v → arm (run w) = true →
      (run w).state ≠ .prep ∧ (run w).state ≠ .cycle := by
    induction w, lo using Nat.le_induction with
    | base =>
      intro _ _
      rw [prep2]
      decide
    | succ w lo ih =>
      intro upTo now
      rw [arms w] at now
      by_cases start : (run w).state = .start
      · rw [if_pos start] at now
        exact absurd ⟨start, now⟩ (alone.2 w (by omega) (by omega))
      · rw [if_neg start] at now
        rw [(reads w).eq]
        exact ConsoleRead.past_next rfl start (ih (by omega) now).2
  calc held (run v)
      = held (run (t + 2)) :=
        Sync.stands_between (fun w => held (run w)) after fun w lo hi =>
          (takes w).trans (if_neg fun both => (past w lo (by omega) both.2).1 both.1)
    _ = taken (t + 1) := (takes (t + 1)).trans (if_pos ⟨prep, armed⟩)

/-- Three reads in order give one instant. -/
theorem held_three {second third : BitVec 4} (low : Beat base run word t) (mid : Beat base run second u) (high : Beat base run third v)
    (apart : second ≠ word ∧ third ≠ word) (order : t < u ∧ u < v) (between : Before base run word t v) :
    held (run (t + 2)) = taken (t + 1) ∧ held (run (u + 2)) = taken (t + 1) ∧ held (run (v + 2)) = taken (t + 1) := by
  have early : Before base run word t u := ⟨order.1, fun w lo hi => between.2 w lo (by omega)⟩
  have stays (w : Nat) (after : t + 2 ≤ w) := held_stays reads held taken arms takes low after
  exact ⟨stays (t + 2) (by omega) (low.alone_self reads), stays (u + 2) (by omega) (mid.alone reads apart.1 early),
    stays (v + 2) (by omega) (high.alone reads apart.2 between)⟩

end Held

/-- A pair is of one instant just when no carry falls between its halves. -/
theorem pair_gives (read : ConsoleRead → BitVec 32) (counter : ConsoleRead → BitVec 64) {up : Nat → Bool}
    (counts : ∀ t, counter (run (t + 1)) = if up t then counter (run t) + 1 else counter (run t))
    (loads : ∀ t, read (run (t + 1)) = if (run t).state = .start ∧ (run t).names base word = true then
      (counter (run t)).extractLsb' 32 32 else read (run t))
    (low : ∀ c : ConsoleRead, ∀ i, c.word0 i word = (counter c).extractLsb' 0 32)
    (high : ∀ c : ConsoleRead, ∀ i, c.word0 i other = read c) (differs : other ≠ word) {held : Nat}
    (long : 2 ≤ held) (beat : Beat base run word t) (after : Beat base run other u)
    (between : Before base run word t u) :
    (∃ n, n ≤ held ∧ gives run u ++ gives run t = counter (run (t + n))) ↔
      (counter (run t)).toNat % 2 ^ 32 + ups up t 2 < 2 ^ 32 ∨ 2 ^ 64 + ups up t 2 ≤ ups up t held + 2 ^ 32 := by
  rw [after.gives_eq reads, beat.gives_eq reads, high, low,
    high_stays loads beat (after.alone reads differs between)]
  exact @pair_iff (fun t => counter (run t)) up counts t held long

theorem con_boundary (boundary : ∃ b, b ≤ t ∧ (inputs b).mclk = true) : ∃ b, b ≤ t ∧ (inputs b).mclk = true ∧
    (run (t + 1)).con = ((inputs b).vma, (inputs b).q, (inputs b).md) := by
  induction t with
  | zero =>
    obtain ⟨b, upTo, edge⟩ := boundary
    obtain rfl := Nat.le_zero.mp upTo
    exact ⟨0, upTo, edge, (reads 0).con_next.trans (if_pos edge)⟩
  | succ t ih =>
    by_cases edge : (inputs (t + 1)).mclk = true
    · exact ⟨t + 1, Nat.le_refl _, edge, (reads (t + 1)).con_next.trans (if_pos edge)⟩
    · obtain ⟨b, upTo, earlier⟩ := boundary
      have before : b ≤ t := by
        by_contra late
        obtain rfl : b = t + 1 := by omega
        exact edge earlier
      obtain ⟨b, upTo, earlier, same⟩ := ih ⟨b, before, earlier⟩
      exact ⟨b, by omega, earlier, ((reads (t + 1)).con_next.trans (if_neg edge)).trans same⟩

end Beats

/-- Read as several words, a counter is that of one tick of the low word's beat just where its low half does not carry
between the beat's `R_START` and `R_PREP2`, or the beat is held until the counter comes round; `VMA`, `Q` and `MD` are
those of one boundary just where one has come, and the readout's echo and word those of one tick. -/
theorem words_instant (base : BitVec 32) (inputs : Nat → ReadTick) (run : Nat → ConsoleRead)
    (reads : Reads base inputs run) :
    (∀ t u held, 2 ≤ held → Beat base run 2 t → Beat base run 3 u → Before base run 2 t u →
      ((∃ n, n ≤ held ∧ gives run u ++ gives run t = (run (t + n)).cycles) ↔
        (run t).cycles.toNat % 2 ^ 32 + ups (fun v => (inputs v).clockEdge) t 2 < 2 ^ 32 ∨
          2 ^ 64 + ups (fun v => (inputs v).clockEdge) t 2 ≤
            ups (fun v => (inputs v).clockEdge) t held + 2 ^ 32)) ∧
    (∀ t u held, 2 ≤ held → Beat base run 4 t → Beat base run 5 u → Before base run 4 t u →
      ((∃ n, n ≤ held ∧ gives run u ++ gives run t = (run (t + n)).ticks) ↔
        (run t).ticks.toNat % 2 ^ 32 + 2 < 2 ^ 32 ∨ 2 ^ 64 + 2 ≤ held + 2 ^ 32)) ∧
    (∀ t u v, Beat base run 7 t → Beat base run 8 u → Beat base run 9 v → t < u ∧ u < v → Before base run 7 t v →
      ((∃ b, b ≤ t ∧ (inputs b).mclk = true ∧
          (gives run t, gives run u, gives run v) = ((inputs b).vma, (inputs b).q, (inputs b).md)) ↔
        ∃ b, b ≤ t ∧ (inputs b).mclk = true)) ∧
    ∀ t u v, Beat base run 10 t → Beat base run 11 u → Beat base run 12 v → t < u ∧ u < v → Before base run 10 t v →
      ∃ s, t < s ∧ s ≤ t + 2 ∧ gives run t = 0#14 ++ (inputs s).roEcho ∧
        gives run u = (inputs s).roData.extractLsb' 0 32 ∧
        gives run v = 0#16 ++ (inputs s).roData.extractLsb' 32 16 := by
  refine ⟨fun t u held long low high between => ?_, fun t u held long low high between => ?_,
    fun t u v low mid high order between => ?_, fun t u v low mid high order between => ?_⟩
  · exact pair_gives reads ConsoleRead.cyclesHi ConsoleRead.cycles (fun t => (reads t).cycles_next)
      (fun t => (reads t).high_next.1) (fun _ _ => rfl) (fun _ _ => rfl) (by decide) long low high between
  · have pair := pair_gives reads ConsoleRead.ticksHi ConsoleRead.ticks
      (fun t => (reads t).ticks_next.trans (if_pos rfl).symm) (fun t => (reads t).high_next.2)
      (fun _ _ => rfl) (fun _ _ => rfl) (by decide) long low high between
    rw [ups_all, ups_all] at pair
    exact pair
  · obtain ⟨one, two, three⟩ := held_three reads ConsoleRead.held (fun w => (run w).con) (fun t => (reads t).arms_next.1)
      (fun t => (reads t).held_next.1) low mid high (by decide) order between
    have same : (gives run t, gives run u, gives run v) = (run (t + 1)).con := by
      rw [low.gives_eq reads, mid.gives_eq reads, high.gives_eq reads]
      exact congrArg₂ Prod.mk (congrArg (·.1) one)
        (congrArg₂ Prod.mk (congrArg (·.2.1) two) (congrArg (·.2.2) three))
    constructor
    · rintro ⟨b, upTo, edge, -⟩
      exact ⟨b, upTo, edge⟩
    · intro boundary
      rw [same]
      exact con_boundary reads boundary
  · obtain ⟨one, two, three⟩ := held_three reads ConsoleRead.readout (fun w => ((inputs w).roEcho, (inputs w).roData))
      (fun t => (reads t).arms_next.2) (fun t => (reads t).held_next.2) low mid high (by decide) order between
    rw [low.gives_eq reads, mid.gives_eq reads, high.gives_eq reads]
    exact ⟨t + 1, by omega, by omega, congrArg (fun x => 0#14 ++ x.1) one,
      congrArg (fun x => x.2.extractLsb' 0 32) two, congrArg (fun x => 0#16 ++ x.2.extractLsb' 32 16) three⟩

section Polled

/-- The face read without a pause, `TICKS` and then `TICKSH`. -/
def polled : ReadTick :=
  { (default : ReadTick) with arvalid := true, araddr := 16, arlen := 1, rready := true, mclk := true }

/-- Its run from a count of ticks. -/
def polls (ticks : BitVec 64) : Nat → ConsoleRead :=
  Sync.trace (ConsoleRead.next 0) { (default : ConsoleRead) with ticks := ticks } fun _ => polled

theorem polls_reads (ticks : BitVec 64) : Reads 0 (fun _ => polled) (polls ticks) :=
  fun _ => ⟨⟨rfl, rfl, rfl, rfl⟩, rfl⟩

/-- Read in the last tick before the low half carries, the two are of no tick of the beat. -/
theorem words_instant_carry : Reads 0 (fun _ => polled) (polls 0xFFFFFFFE) ∧ Beat 0 (polls 0xFFFFFFFE) 4 1 ∧
    Beat 0 (polls 0xFFFFFFFE) 5 5 ∧ Before 0 (polls 0xFFFFFFFE) 4 1 5 ∧
    (polls 0xFFFFFFFE 4).state = .data ∧ (polls 0xFFFFFFFE 5).state = .start ∧
    gives (polls 0xFFFFFFFE) 5 ++ gives (polls 0xFFFFFFFE) 1 = 1#64 ∧
    ∀ n, n ≤ 3 → gives (polls 0xFFFFFFFE) 5 ++ gives (polls 0xFFFFFFFE) 1 ≠ (polls 0xFFFFFFFE (1 + n)).ticks :=
  ⟨polls_reads _, by decide⟩

/-- Read earlier, they are of one tick. -/
theorem words_instant_early : ∃ n, n ≤ 3 ∧ gives (polls 0) 5 ++ gives (polls 0) 1 = (polls 0 (1 + n)).ticks :=
  ((words_instant 0 (fun _ => polled) (polls 0) (polls_reads 0)).2.1 1 5 3 (by decide)
    (by decide) (by decide) (by decide)).mpr (.inl (by decide))

end Polled

end MuirFpga.Spy
