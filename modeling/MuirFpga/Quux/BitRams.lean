import MuirFpga.Quux.Mmu
import MuirFpga.Sync.LastWrite
import MuirFpga.Sync.Trace
import Mathlib.Tactic.SplitIfs

/-!
# Bits in RAM

`quux15_validmap` at any power of two of entries from 64 up: 64 columns of a bit a group, and a bit a
group that a clear drops while the columns keep theirs. `quux15_recency`: a bit a set, written three
times a clock, as the exclusive or of three banks. Both are a plain array.
-/

namespace MuirFpga.Quux

open Sync

section ValidMap

/-- What a clock brings the valid map of `2 ^ (groupBits + 6)` entries. -/
structure ValidClock (groupBits : Nat) where
  rst : Bool
  clear : Bool
  we : Bool
  waddr : BitVec (groupBits + 6)
  wbit : Bool
  raddr0 : BitVec (groupBits + 6)
  raddr1 : BitVec (groupBits + 6)
  raddr2 : BitVec (groupBits + 6)

/-- The map's registers: the groups' bits and the 64 columns. -/
structure ValidRam (groupBits : Nat) where
  gv : BitVec groupBits → Bool
  m : BitVec 6 → BitVec groupBits → Bool

namespace ValidRam

variable {groupBits : Nat} (e : ValidClock groupBits) (v : ValidRam groupBits)

/-- An entry's group and its column. -/
def group (addr : BitVec (groupBits + 6)) : BitVec groupBits := addr.extractLsb' 6 groupBits
def column (addr : BitVec (groupBits + 6)) : BitVec 6 := addr.extractLsb' 0 6

/-- `whole`: every column of a group being made valid is written. -/
def whole : Bool := e.clear || !v.gv (group e.waddr)

/-- `col_we` and `col_wd`. -/
def colWe (c : BitVec 6) : Bool := e.we && (v.whole e || column e.waddr == c)
def colWd (c : BitVec 6) : Bool := if column e.waddr == c then e.wbit else false

/-- An entry as it reads. -/
def entry (raddr : BitVec (groupBits + 6)) : Bool := v.gv (group raddr) && v.m (column raddr) (group raddr)

/-- The three reads, `READS` of them. -/
def rbit0 : Bool := v.entry e.raddr0
def rbit1 (reads : Nat) : Bool := decide (1 < reads) && v.entry e.raddr1
def rbit2 (reads : Nat) : Bool := decide (2 < reads) && v.entry e.raddr2

/-- A clock. -/
def next : ValidRam groupBits where
  gv :=
    if e.rst then fun _ => false
    else
      let held := if e.clear then fun _ => false else v.gv
      if e.we then Function.update held (group e.waddr) true else held
  m c := if v.colWe e c then Function.update (v.m c) (group e.waddr) (colWd e c) else v.m c

/-- The map as it is configured. -/
def initial : ValidRam groupBits := ⟨fun _ => false, fun _ _ => false⟩

/-- The map at every clock. -/
def run (e : Nat → ValidClock groupBits) : Nat → ValidRam groupBits := trace next initial e

variable {e v}

theorem addr_eq_iff {a b : BitVec (groupBits + 6)} : a = b ↔ group a = group b ∧ column a = column b := by
  constructor
  · rintro rfl
    exact ⟨rfl, rfl⟩
  · rintro ⟨groups, columns⟩
    apply BitVec.eq_of_getLsbD_eq
    intro k inside
    by_cases low : k < 6
    · have bit := congrArg (·.getLsbD k) columns
      simpa [column, low] using bit
    · have bit := congrArg (·.getLsbD (k - 6)) groups
      have place : 6 + (k - 6) = k := by omega
      have high : k - 6 < groupBits := by omega
      simpa [group, place, high] using bit

/-- What a clock leaves at an entry: false in a reset, the bit written, or false under a clear. -/
def effect (e : ValidClock groupBits) (addr : BitVec (groupBits + 6)) : Option Bool :=
  if e.rst then some false
  else if e.we && e.waddr == addr then some e.wbit
  else if e.clear then some false
  else none

theorem entry_next (addr : BitVec (groupBits + 6)) :
    (v.next e).entry addr = (effect e addr).getD (v.entry addr) := by
  unfold effect entry next
  cases rst : e.rst with
  | true => simp
  | false =>
    cases we : e.we with
    | false => cases clear : e.clear <;> simp [colWe, we]
    | true =>
      by_cases same : group addr = group e.waddr
      · by_cases here : e.waddr = addr
        · subst here
          simp [colWe, colWd, we]
        · have other : column e.waddr ≠ column addr :=
            fun columns => here (addr_eq_iff.mpr ⟨same.symm, columns⟩)
          cases clear : e.clear <;> cases gv : v.gv (group e.waddr) <;>
            simp [colWe, colWd, whole, we, clear, gv, same, here, other]
      · have here : e.waddr ≠ addr := by
          rintro rfl
          exact same rfl
        cases clear : e.clear with
        | true => simp [same, here]
        | false =>
          have column : (if v.colWe e (column addr) then
              Function.update (v.m (column addr)) (group e.waddr) (colWd e (column addr))
              else v.m (column addr)) (group addr) = v.m (column addr) (group addr) := by
            split
            · rw [Function.update_of_ne same]
            · rfl
          simp [same, here, column]

theorem entry_run (e : Nat → ValidClock groupBits) (addr : BitVec (groupBits + 6)) (n : Nat) :
    (run e n).entry addr = lastWrite false (fun k => effect (e k) addr) n :=
  @eq_lastWrite _ _ _ (fun n => (run e n).entry addr) rfl (fun _ => entry_next addr) n

/-- A clock writes a bit to an entry. -/
def Written (e : Nat → ValidClock groupBits) (addr : BitVec (groupBits + 6)) (k : Nat) : Prop :=
  (e k).rst = false ∧ (e k).we = true ∧ (e k).waddr = addr

/-- A clock clears the map, or resets it. -/
def Emptied (e : Nat → ValidClock groupBits) (k : Nat) : Prop := (e k).rst = true ∨ (e k).clear = true

/-- A read is of the last bit written to the entry since the map was last emptied, the write of the
same clock as a clear after the clear, and false if there is none. -/
def ReadsLast (e : Nat → ValidClock groupBits) (n : Nat) (addr : BitVec (groupBits + 6)) (bit : Bool) :
    Prop :=
  (∀ k, k < n → Written e addr k →
    (∀ j, k < j → j < n → ¬ Written e addr j ∧ ¬ Emptied e j) → bit = (e k).wbit) ∧
  ((∀ k, k < n → Written e addr k → ∃ j, k < j ∧ j < n ∧ Emptied e j) → bit = false)

theorem effect_eq_none {e : Nat → ValidClock groupBits} {addr : BitVec (groupBits + 6)} {k : Nat}
    (unwritten : ¬ Written e addr k) (kept : ¬ Emptied e k) : effect (e k) addr = none := by
  unfold Emptied at kept
  simp only [not_or, Bool.not_eq_true] at kept
  unfold Written at unwritten
  unfold effect
  have not : ((e k).we && (e k).waddr == addr) = false := by
    simpa [kept.1] using unwritten
  simp [kept, not]

theorem effect_of_written {e : Nat → ValidClock groupBits} {addr : BitVec (groupBits + 6)} {k : Nat}
    (written : Written e addr k) : effect (e k) addr = some (e k).wbit := by
  obtain ⟨live, we, here⟩ := written
  unfold effect
  simp [live, we, here]

theorem entry_readsLast (e : Nat → ValidClock groupBits) (n : Nat) (addr : BitVec (groupBits + 6)) :
    ReadsLast e n addr ((run e n).entry addr) := by
  constructor
  · intro k before written since
    rw [entry_run]
    exact lastWrite_of_wrote (effect_of_written written) before
      fun j after upTo => effect_eq_none (since j after upTo).1 (since j after upTo).2
  · intro stale
    rw [entry_run]
    rcases lastWrite_cases false (fun k => effect (e k) addr) n with
      ⟨held, -⟩ | ⟨k, before, wrote, since⟩
    · exact held
    · by_cases written : Written e addr k
      · obtain ⟨j, after, upTo, emptied⟩ := stale k before written
        have kept := since j after upTo
        unfold effect at kept
        rcases emptied with rst | clear
        · simp [rst] at kept
        · split_ifs at kept
      · generalize lastWrite false (fun k => effect (e k) addr) n = bit at wrote
        unfold Written at written
        unfold effect at wrote
        split_ifs at wrote <;> simp_all

/-- The map is a plain array of as many booleans as there are entries: at every clock each of its
reads is of the last bit written to its entry since the last clear or reset, and false with none. -/
theorem reads_last (reads : Nat) (e : Nat → ValidClock groupBits) (n : Nat) :
    ReadsLast e n (e n).raddr0 ((run e n).rbit0 (e n)) ∧
      (1 < reads → ReadsLast e n (e n).raddr1 ((run e n).rbit1 (e n) reads)) ∧
      (2 < reads → ReadsLast e n (e n).raddr2 ((run e n).rbit2 (e n) reads)) := by
  refine ⟨entry_readsLast e n _, fun two => ?_, fun three => ?_⟩
  · have whole : (run e n).rbit1 (e n) reads = (run e n).entry (e n).raddr1 := by simp [rbit1, two]
    rw [whole]
    exact entry_readsLast e n _
  · have whole : (run e n).rbit2 (e n) reads = (run e n).entry (e n).raddr2 := by simp [rbit2, three]
    rw [whole]
    exact entry_readsLast e n _

end ValidRam

end ValidMap

section Recency

/-- What a clock brings the recency bits: the three writes. -/
structure RecencyClock (sets : Nat) where
  we0 : Bool
  wa0 : Fin sets
  wd0 : Bool
  we1 : Bool
  wa1 : Fin sets
  wd1 : Bool
  we2 : Bool
  wa2 : Fin sets
  wd2 : Bool

/-- The three banks. -/
structure RecencyRam (sets : Nat) where
  b0 : Fin sets → Bool
  b1 : Fin sets → Bool
  b2 : Fin sets → Bool

namespace RecencyRam

variable {sets : Nat} (e : RecencyClock sets) (r : RecencyRam sets)

/-- Each write's enable, a later one to its set taking its place. -/
def e2 : Bool := e.we2
def e1 : Bool := e.we1 && !(e.we2 && e.wa2 == e.wa1)
def e0 : Bool := e.we0 && !(e.we1 && e.wa1 == e.wa0) && !(e.we2 && e.wa2 == e.wa0)

/-- A set's bit as it reads. -/
def rd (ra : Fin sets) : Bool := r.b0 ra ^^ r.b1 ra ^^ r.b2 ra

/-- A clock: each bank on the other two as they stand. -/
def next : RecencyRam sets where
  b0 := if e0 e then Function.update r.b0 e.wa0 (e.wd0 ^^ r.b1 e.wa0 ^^ r.b2 e.wa0) else r.b0
  b1 := if e1 e then Function.update r.b1 e.wa1 (e.wd1 ^^ r.b0 e.wa1 ^^ r.b2 e.wa1) else r.b1
  b2 := if e2 e then Function.update r.b2 e.wa2 (e.wd2 ^^ r.b0 e.wa2 ^^ r.b1 e.wa2) else r.b2

/-- The banks as they are configured. -/
def initial : RecencyRam sets := ⟨fun _ => false, fun _ => false, fun _ => false⟩

/-- The banks at every clock. -/
def run (e : Nat → RecencyClock sets) : Nat → RecencyRam sets := trace next initial e

variable {e r}

/-- What a clock writes to a set: writer 2's bit before 1's before 0's. -/
def wrote (e : RecencyClock sets) (set : Fin sets) : Option Bool :=
  if e.we2 && e.wa2 == set then some e.wd2
  else if e.we1 && e.wa1 == set then some e.wd1
  else if e.we0 && e.wa0 == set then some e.wd0
  else none

theorem update_at (b : Fin sets → Bool) (enable : Bool) (place set : Fin sets) (bit : Bool) :
    (if enable then Function.update b place bit else b) set =
      if enable && place == set then bit else b set := by
  cases enable with
  | false => rfl
  | true =>
    by_cases here : place = set
    · subst here
      simp
    · simp [here, Function.update_of_ne (Ne.symm here)]

theorem enables (set : Fin sets) :
    (e2 e && e.wa2 == set) = (e.we2 && e.wa2 == set) ∧
    (e1 e && e.wa1 == set) = ((e.we1 && e.wa1 == set) && !(e.we2 && e.wa2 == set)) ∧
    (e0 e && e.wa0 == set) =
      ((e.we0 && e.wa0 == set) && !(e.we1 && e.wa1 == set) && !(e.we2 && e.wa2 == set)) := by
  refine ⟨rfl, ?_, ?_⟩
  · by_cases here : e.wa1 = set
    · subst here
      simp [e1]
    · have miss : (e.wa1 == set) = false := by simpa using here
      simp [miss]
  · by_cases here : e.wa0 = set
    · subst here
      simp [e0]
    · have miss : (e.wa0 == set) = false := by simpa using here
      simp [miss]

theorem rd_next (set : Fin sets) : (r.next e).rd set = (wrote e set).getD (r.rd set) := by
  obtain ⟨two, one, zero⟩ := @enables _ e set
  have bank0 := update_at r.b0 (e0 e) e.wa0 set (e.wd0 ^^ r.b1 e.wa0 ^^ r.b2 e.wa0)
  have bank1 := update_at r.b1 (e1 e) e.wa1 set (e.wd1 ^^ r.b0 e.wa1 ^^ r.b2 e.wa1)
  have bank2 := update_at r.b2 (e2 e) e.wa2 set (e.wd2 ^^ r.b0 e.wa2 ^^ r.b1 e.wa2)
  rw [zero] at bank0
  rw [one] at bank1
  rw [two] at bank2
  unfold rd next wrote
  dsimp only
  rw [bank0, bank1, bank2]
  -- the banks' bits cancel but for the bit written
  cases w2 : (e.we2 && e.wa2 == set) with
  | true =>
    have here : e.wa2 = set := by simp_all
    rw [here]
    cases r.b0 set <;> cases r.b1 set <;> cases e.wd2 <;> simp
  | false =>
    cases w1 : (e.we1 && e.wa1 == set) with
    | true =>
      have here : e.wa1 = set := by simp_all
      rw [here]
      cases r.b0 set <;> cases r.b2 set <;> cases e.wd1 <;> simp
    | false =>
      cases w0 : (e.we0 && e.wa0 == set) with
      | true =>
        have here : e.wa0 = set := by simp_all
        rw [here]
        cases r.b1 set <;> cases r.b2 set <;> cases e.wd0 <;> simp
      | false => simp

theorem rd_run (e : Nat → RecencyClock sets) (n : Nat) (set : Fin sets) :
    (run e n).rd set = lastWrite false (fun k => wrote (e k) set) n :=
  @eq_lastWrite _ _ _ (fun n => (run e n).rd set) rfl (fun _ => rd_next set) n

/-- The banks are a plain array of as many bits as there are sets: the bit read of a set at a clock
is the one the last clock to write it wrote there, the later writer's where that clock writes it
twice, and false when none has. -/
theorem rd_last (e : Nat → RecencyClock sets) (n : Nat) (set : Fin sets) :
    (∀ k bit, k < n → wrote (e k) set = some bit →
      (∀ j, k < j → j < n → wrote (e j) set = none) → (run e n).rd set = bit) ∧
    ((∀ k, k < n → wrote (e k) set = none) → (run e n).rd set = false) := by
  rw [rd_run]
  exact ⟨fun k bit before now since => lastWrite_of_wrote now before since,
    fun never => lastWrite_of_none never⟩

end RecencyRam

end Recency

end MuirFpga.Quux
