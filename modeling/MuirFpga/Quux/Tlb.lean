import MuirFpga.Quux.Mmu
import MuirFpga.Sync.Pending
import MuirFpga.Sync.Trace

/-!
# The TLB as a plain table

The two lookups of `quux15_mmu` against a direct-mapped table of 4,096 entries whose writes are made at
once: through the queue, the write taken at the last edge and the groups' valid bits, each lookup reads
what the table holds, as long as no write is lost off the queue's end.
-/

namespace MuirFpga.Quux

open Sync

/-- What a write leaves in its entry. -/
def TlbWrite.entry (w : TlbWrite) : Option (BitVec 40) := if w.bit then some w.data else none

/-- A write as a place and what it leaves there. -/
def TlbWrite.placed (w : TlbWrite) : BitVec 12 × Option (BitVec 40) := (w.idx, w.entry)

namespace Tlb

variable (t : Tlb)

/-- The entries as the RAMs hold them. -/
def settled (place : BitVec 12) : Option (BitVec 40) :=
  if t.valid.rbit place then some (t.mem place) else none

/-- A word read out of the RAMs at the last edge, with the write that edge took. -/
def through (q : BitVec 40) (place : BitVec 12) : BitVec 40 :=
  match t.hist with
  | some w => if w.idx = place then w.data else q
  | none => q

/-- The store stands for a table: the table is the RAMs' entries with the queue's writes made, and each
output register, through the write of its edge, is the RAM's word if the entry is valid. -/
structure StandsFor (table : BitVec 12 → Option (BitVec 40)) : Prop where
  table_eq : table = applied t.settled (t.fq.map TlbWrite.placed)
  a : t.valid.rbit t.aIdxQ = true → t.through t.raQ t.aIdxQ = t.mem t.aIdxQ
  b : t.valid.rbit t.bIdxQ = true → t.through t.rbQ t.bIdxQ = t.mem t.bIdxQ

variable {t}

theorem foldl_entry (fq : List TlbWrite) (place : BitVec 12) (bit : Bool) (q : BitVec 40) :
    (fq.map TlbWrite.placed).foldl
        (fun found write => if write.1 = place then write.2 else found)
        (if bit then some q else none) =
      if fq.foldl (fun r w => if w.idx = place then w.bit else r) bit
      then some (fq.foldl (fun r w => if w.idx = place then w.data else r) q) else none := by
  induction fq generalizing bit q with
  | nil => rfl
  | cons w fq ih =>
    simp only [List.map_cons, List.foldl_cons]
    by_cases here : w.idx = place
    · simp only [TlbWrite.placed, here, if_true]
      exact ih w.bit w.data
    · simp only [TlbWrite.placed, here, if_false]
      exact ih bit q

theorem lookup_eq {table : BitVec 12 → Option (BitVec 40)} {q : BitVec 40} {place : BitVec 12}
    (table_eq : table = applied t.settled (t.fq.map TlbWrite.placed))
    (register : t.valid.rbit place = true → t.through q place = t.mem place) :
    table place = if t.validBit place then some (t.word q place) else none := by
  have base : t.settled place = if t.valid.rbit place then some (t.through q place) else none := by
    unfold settled
    by_cases valid : t.valid.rbit place = true
    · rw [if_pos valid, if_pos valid, register valid]
    · rw [if_neg valid, if_neg valid]
  rw [table_eq, applied_apply, base]
  exact foldl_entry t.fq place _ _

end Tlb

theorem ValidMap.rbit_cleared (v : ValidMap) {rst clear we : Bool} {waddr : BitVec 12} {wbit : Bool}
    (cleared : rst = true ∨ clear = true ∧ we = false) (raddr : BitVec 12) :
    (v.next rst clear we waddr wbit).rbit raddr = false := by
  unfold rbit next
  rcases cleared with rst | ⟨clear, we⟩
  · simp [rst]
  · cases rst <;> simp [clear, we]

theorem ValidMap.rbit_kept (v : ValidMap) {waddr : BitVec 12} {wbit : Bool} (raddr : BitVec 12) :
    (v.next false false false waddr wbit).rbit raddr = v.rbit raddr := by
  simp [rbit, next]

theorem ValidMap.rbit_written (v : ValidMap) (waddr : BitVec 12) (wbit : Bool) (raddr : BitVec 12) :
    (v.next false false true waddr wbit).rbit raddr =
      if raddr = waddr then wbit else v.rbit raddr := by
  unfold rbit next
  by_cases here : raddr = waddr
  · simp [here]
  · by_cases beside : group raddr = group waddr
    · cases valid : v.gv (group waddr) <;> simp [here, beside, valid]
    · simp [here, beside]

namespace Tlb

variable {t : Tlb} {writes : List TlbWrite} {aNext bNext : BitVec 12}

theorem queued_eq {w : TlbWrite} {rest : List TlbWrite} (waiting : t.fq ++ writes = w :: rest)
    (fits : t.fq.length - 1 + writes.length ≤ 4) : t.queued writes false = rest := by
  unfold queued
  cases fq : t.fq with
  | nil =>
    rw [fq] at waiting fits
    simp only [List.length_nil] at fits
    rw [List.nil_append] at waiting
    subst waiting
    simp only [List.length_cons] at fits
    simp only [Bool.false_eq_true, if_false, List.tail_nil, List.nil_append, List.isEmpty_nil, if_true]
    rw [List.take_of_length_le (by simp only [List.length_cons]; omega), List.tail_cons]
  | cons first queue =>
    rw [fq] at waiting fits
    simp only [List.cons_append, List.cons.injEq] at waiting
    simp only [List.length_cons] at fits
    simp only [Bool.false_eq_true, if_false, List.tail_cons, List.isEmpty_cons]
    rw [List.take_of_length_le (by simp only [List.length_append]; omega)]
    exact waiting.2

theorem standsFor_cleared {rst conReset empty : Bool}
    (cleared : rst = true ∨ conReset = true ∨ empty = true) :
    (t.next rst conReset writes empty aNext bNext).StandsFor fun _ => none := by
  have bits : ∀ place,
      (t.next rst conReset writes empty aNext bNext).valid.rbit place = false := by
    intro place
    unfold next
    cases taken : t.taken writes empty with
    | none =>
      apply ValidMap.rbit_cleared
      rcases cleared with rst | conReset | empty
      · exact Or.inl rst
      · exact Or.inr ⟨by simp [conReset], rfl⟩
      · exact Or.inr ⟨by simp [empty], rfl⟩
    | some w =>
      apply ValidMap.rbit_cleared
      rcases cleared with rst | conReset | empty
      · exact Or.inl rst
      · exact Or.inr ⟨by simp [conReset], by simp [conReset]⟩
      · simp [Tlb.taken, empty] at taken
  have queue : (t.next rst conReset writes empty aNext bNext).fq = [] := by
    unfold next queued
    rcases cleared with rst | conReset | empty
    · simp [rst]
    · simp [conReset]
    · simp [empty]
  refine ⟨?_, fun valid => ?_, fun valid => ?_⟩
  · funext place
    rw [queue]
    simp [settled, bits]
  · rw [bits] at valid
    exact absurd valid (by decide)
  · rw [bits] at valid
    exact absurd valid (by decide)

theorem standsFor_next {table : BitVec 12 → Option (BitVec 40)} (stands : t.StandsFor table)
    (fits : t.fq.length - 1 + writes.length ≤ 4) :
    (t.next false false writes false aNext bNext).StandsFor
      (applied table (writes.map TlbWrite.placed)) := by
  have all : applied table (writes.map TlbWrite.placed) =
      applied t.settled ((t.fq ++ writes).map TlbWrite.placed) := by
    rw [stands.table_eq, List.map_append, applied_append]
  rw [all]
  cases waiting : t.fq ++ writes with
  | nil =>
    obtain ⟨noQueue, noWrites⟩ := List.append_eq_nil_iff.mp waiting
    have taken : t.taken writes false = none := by simp [Tlb.taken, waiting]
    have queue : t.queued writes false = [] := by simp [queued, noQueue, noWrites]
    refine ⟨?_, fun _ => ?_, fun _ => ?_⟩
    · funext place
      simp [next, taken, queue, settled, ValidMap.rbit_kept]
    · simp [next, taken, through]
    · simp [next, taken, through]
  | cons w rest =>
    have taken : t.taken writes false = some w := by simp [Tlb.taken, waiting]
    have queue := queued_eq waiting fits
    have mem : (t.next false false writes false aNext bNext).mem =
        Function.update t.mem w.idx w.data := by simp [next, taken]
    have settledN : (t.next false false writes false aNext bNext).settled =
        Function.update t.settled w.idx w.entry := by
      funext place
      unfold settled
      rw [mem]
      have bit : (t.next false false writes false aNext bNext).valid.rbit place =
          if place = w.idx then w.bit else t.valid.rbit place := by
        simp only [next, taken]
        exact ValidMap.rbit_written t.valid w.idx w.bit place
      rw [bit]
      by_cases here : place = w.idx
      · rw [here, if_pos rfl, Function.update_self, Function.update_self]
        rfl
      · rw [if_neg here, Function.update_of_ne here, Function.update_of_ne here]
    refine ⟨?_, fun _ => ?_, fun _ => ?_⟩
    · rw [settledN, List.map_cons, applied_cons]
      simp only [next, Bool.or_self, Bool.false_eq_true, if_false, queue]
      rfl
    · rw [mem]
      by_cases here : w.idx = aNext
      · simp [next, taken, through, here]
      · simp [next, taken, through, here, Function.update_of_ne (Ne.symm here)]
    · rw [mem]
      by_cases here : w.idx = bNext
      · simp [next, taken, through, here]
      · simp [next, taken, through, here, Function.update_of_ne (Ne.symm here)]

end Tlb

/-- The table after a clock: the clock's writes made at once, or all of it cleared. -/
def Mmu.tableNext (frames : BitVec 18) (m : Mmu) (i : MmuInput)
    (table : BitVec 12 → Option (BitVec 40)) : BitVec 12 → Option (BitVec 40) :=
  if i.rst || i.conReset || Mmu.opEmpty i then fun _ => none
  else applied table ((m.writes frames i).map TlbWrite.placed)

/-- A clock's writes go past the queue's four places, when nothing clears them. -/
def Mmu.Overflows (frames : BitVec 18) (m : Mmu) (i : MmuInput) : Prop :=
  (i.rst || i.conReset || Mmu.opEmpty i) = false ∧
    4 < m.tlb.fq.length - 1 + (m.writes frames i).length

variable (frames : BitVec 18) (m : Mmu) (inputs : Nat → MmuInput)

/-- A run from reset, and the table beside it, empty at first. -/
def mmuTrace : Nat → Mmu × (BitVec 12 → Option (BitVec 40)) :=
  trace (fun i state => (state.1.next frames i, state.1.tableNext frames i state.2))
    (m.reset, fun _ => none) inputs

def mmuRun (clock : Nat) : Mmu := (mmuTrace frames m inputs clock).1
def mmuTable (clock : Nat) : BitVec 12 → Option (BitVec 40) := (mmuTrace frames m inputs clock).2

/-- A lookup's index was a port's next address the clock before. -/
def Presented (nextVa va : MmuInput → BitVec 32) : Nat → Prop
  | 0 => True
  | clock + 1 => Mmu.idx (va (inputs (clock + 1))) = Mmu.idx (nextVa (inputs clock))

variable {frames m inputs}

theorem tlb_next (i : MmuInput) : (m.next frames i).tlb = m.tlbNext frames i := by
  unfold Mmu.next
  split <;> rfl

/-- The TLB stands for the table in every run that does not overflow. -/
theorem tlb_standsFor {clock : Nat}
    (fits : ∀ earlier, earlier < clock →
      ¬ (mmuRun frames m inputs earlier).Overflows frames (inputs earlier)) :
    (mmuRun frames m inputs clock).tlb.StandsFor (mmuTable frames m inputs clock) := by
  induction clock with
  | zero =>
    refine ⟨?_, fun valid => absurd valid ?_, fun valid => absurd valid ?_⟩
    · funext place
      simp [mmuRun, mmuTable, mmuTrace, trace, Mmu.reset, Tlb.settled, ValidMap.rbit]
    · simp [mmuRun, mmuTrace, trace, Mmu.reset, ValidMap.rbit]
    · simp [mmuRun, mmuTrace, trace, Mmu.reset, ValidMap.rbit]
  | succ clock ih =>
    have before := ih fun earlier early => fits earlier (Nat.lt_succ_of_lt early)
    have run : (mmuRun frames m inputs (clock + 1)).tlb =
        (mmuRun frames m inputs clock).tlbNext frames (inputs clock) := tlb_next _
    have table : mmuTable frames m inputs (clock + 1) =
        (mmuRun frames m inputs clock).tableNext frames (inputs clock)
          (mmuTable frames m inputs clock) := rfl
    rw [run, table]
    unfold Mmu.tlbNext Mmu.tableNext
    by_cases cleared :
        ((inputs clock).rst || (inputs clock).conReset || Mmu.opEmpty (inputs clock)) = true
    · rw [if_pos cleared]
      apply Tlb.standsFor_cleared
      simpa [or_assoc] using cleared
    · have kept := cleared
      rw [Bool.not_eq_true] at kept
      have few := fits clock (Nat.lt_succ_self clock)
      unfold Mmu.Overflows at few
      simp only [kept, true_and, Nat.not_lt] at few
      rw [if_neg cleared]
      simp only [Bool.or_eq_false_iff] at kept
      rw [kept.1.1, kept.1.2, kept.2]
      exact Tlb.standsFor_next before few

theorem mmuTable_reset {clock : Nat} (rst : (inputs clock).rst = true) :
    mmuTable frames m inputs (clock + 1) = fun _ => none := by
  have table : mmuTable frames m inputs (clock + 1) =
      (mmuRun frames m inputs clock).tableNext frames (inputs clock)
        (mmuTable frames m inputs clock) := rfl
  rw [table]
  unfold Mmu.tableNext
  rw [rst]
  rfl

theorem aIdxQ_next {clock : Nat} (rst : (inputs clock).rst = false) :
    (mmuRun frames m inputs (clock + 1)).tlb.aIdxQ = Mmu.idx (inputs clock).aNextVa ∧
      (mmuRun frames m inputs (clock + 1)).tlb.bIdxQ = Mmu.idx (inputs clock).bNextVa := by
  have run : (mmuRun frames m inputs (clock + 1)).tlb =
      (mmuRun frames m inputs clock).tlbNext frames (inputs clock) := tlb_next _
  rw [run]
  simp [Mmu.tlbNext, Tlb.next, rst]

/-- A place of the table looked up: the entry is there with the address's tag. -/
def hits (table : BitVec 12 → Option (BitVec 40)) (va : BitVec 32) : Bool :=
  (table (Mmu.idx va)).any fun word => word.extractLsb' 30 10 == Mmu.tag va

theorem hits_eq {table : BitVec 12 → Option (BitVec 40)} {va : BitVec 32} {bit : Bool}
    {word : BitVec 40} (entry : table (Mmu.idx va) = if bit then some word else none) :
    (bit && word.extractLsb' 30 10 == Mmu.tag va) = hits table va ∧
      ∀ held, table (Mmu.idx va) = some held → word = held := by
  unfold hits
  rw [entry]
  cases bit with
  | false => exact ⟨rfl, nofun⟩
  | true => exact ⟨rfl, fun held same => Option.some.inj same⟩

theorem entry_presented {register : BitVec 12} {va : BitVec 32} {bit : Bool} {word : BitVec 40}
    {table : BitVec 12 → Option (BitVec 40)} (entry : table register = (if bit then some word else none))
    (which : register = Mmu.idx va ∨ table = fun _ => none) :
    table (Mmu.idx va) = if bit then some word else none := by
  rcases which with same | empty
  · rw [← same]
    exact entry
  · rw [empty] at entry ⊢
    exact entry

/-- A lookup hits as the table does. -/
theorem aLookup {clock : Nat}
    (fits : ∀ earlier, earlier < clock →
      ¬ (mmuRun frames m inputs earlier).Overflows frames (inputs earlier))
    (presented : Presented inputs MmuInput.aNextVa MmuInput.aVa clock) :
    (mmuRun frames m inputs clock).aHit (inputs clock) =
        hits (mmuTable frames m inputs clock) (inputs clock).aVa ∧
      ∀ word, mmuTable frames m inputs clock (Mmu.idx (inputs clock).aVa) = some word →
        (mmuRun frames m inputs clock).aWord = word := by
  have stands := tlb_standsFor fits
  apply hits_eq (entry_presented (Tlb.lookup_eq stands.table_eq stands.a) _)
  cases clock with
  | zero => exact Or.inr rfl
  | succ clock =>
    cases rst : (inputs clock).rst with
    | true => exact Or.inr (mmuTable_reset rst)
    | false => exact Or.inl ((aIdxQ_next rst).1.trans presented.symm)

/-- The TLB is a plain table: in a run whose writes do not go past the queue's four places, at every
clock each port's lookup of an index presented the clock before hits when the table does, and reads the
table's word, where the table is written by every write at once, in order, and cleared by an empty and
by a reset. -/
theorem tlb_refines_table (frames : BitVec 18) (m : Mmu) (inputs : Nat → MmuInput) (clock : Nat)
    (fits : ∀ earlier, earlier < clock →
      ¬ (mmuRun frames m inputs earlier).Overflows frames (inputs earlier)) :
    (Presented inputs MmuInput.aNextVa MmuInput.aVa clock →
      (mmuRun frames m inputs clock).aHit (inputs clock) =
        hits (mmuTable frames m inputs clock) (inputs clock).aVa ∧
      ∀ word, mmuTable frames m inputs clock (Mmu.idx (inputs clock).aVa) = some word →
        (mmuRun frames m inputs clock).aWord = word) ∧
    (Presented inputs MmuInput.bNextVa MmuInput.bVa clock →
      (mmuRun frames m inputs clock).bHit (inputs clock) =
        hits (mmuTable frames m inputs clock) (inputs clock).bVa ∧
      ∀ word, mmuTable frames m inputs clock (Mmu.idx (inputs clock).bVa) = some word →
        (mmuRun frames m inputs clock).bWord = word) := by
  have stands := tlb_standsFor fits
  refine ⟨aLookup fits, fun presented => ?_⟩
  apply hits_eq (entry_presented (Tlb.lookup_eq stands.table_eq stands.b) _)
  cases clock with
  | zero => exact Or.inr rfl
  | succ clock =>
    cases rst : (inputs clock).rst with
    | true => exact Or.inr (mmuTable_reset rst)
    | false => exact Or.inl ((aIdxQ_next rst).2.trans presented.symm)

/-- The module's own assertion fails: the queue's last place is taken and there is a write. -/
def Mmu.overflowError (frames : BitVec 18) (m : Mmu) (i : MmuInput) : Bool :=
  !i.rst && m.tlb.fq.length == 4 && !(m.writes frames i).isEmpty

theorem writes_idle {frames : BitVec 18} {m : Mmu} {i : MmuInput} (aReq : i.aReq = false)
    (kReq : i.kReq = false) (bReq : i.bReq = false) (opV : i.opV = false) :
    m.writes frames i = [] := by
  have or : (m.back frames i).or = false := by
    unfold Mmu.back
    simp [kReq, Mmu.backStay]
  have fill : m.awFill frames i = false := by
    unfold Mmu.awFill Mmu.aLook
    simp [aReq]
  have called : m.bCalled i = false := by
    unfold Mmu.bCalled
    simp [bReq]
  simp [Mmu.writes, Mmu.awV, Mmu.bwV, or, fill, called, Mmu.opLoad, Mmu.opInval, Mmu.opIs, opV]

/-- The registers at power-on. -/
def Mmu.blank : Mmu where
  tlb := ⟨fun _ => 0#40, 0#40, 0#40, 0#12, 0#12, ⟨fun _ => false, fun _ => false⟩, [], none⟩
  wState := .idle
  wVa := 0#32
  wOwnerA := false
  kState := .idle
  kBits := 0#30
  kPage := 0#29
  kWordV := false
  kWord := 0#40
  sweepLeft := 0#13
  directory := 0#18
  ephemeral := false
  pointerTypes := 0#64
  refused := 0#32

/-- Three writes in a clock that finds three queued: port B's walk is begun and held, the write-back's
bits and a load enter the queue for three clocks, and then the walk's fill comes with both. -/
def overfull (clock : Nat) : MmuInput where
  rst := false
  conReset := false
  aNextVa := if clock < 5 then 0x400#32 else 0xC00#32
  bNextVa := 0x800#32
  aReq := decide (2 ≤ clock ∧ clock ≤ 5)
  aVa := if clock ≤ 5 then 0x400#32 else 0xC00#32
  kReq := decide (2 ≤ clock ∧ clock ≤ 5)
  kVa := 0x400#32
  kEntry := 0#30
  kWrite := false
  kMd := 0#40
  postOk := true
  bReq := decide (clock = 1 ∨ clock = 2 ∨ clock = 5)
  bVa := 0x800#32
  bWalked := false
  opV := decide (clock = 0 ∨ (2 ≤ clock ∧ clock ≤ 5))
  opVma := BitVec.ofNat 40 (1 <<< 32)
  opMd := if clock = 0 then 0x400#40 else if clock = 5 then 0xC00#40 else 0x1000#40
  tReady := decide (clock = 2 ∨ clock = 5)
  tWord := if clock = 2 then BitVec.ofNat 40 (4 <<< 24) else BitVec.ofNat 40 (1 <<< 24)
  rwV := decide (clock < 2)
  rwK := 0o220#8
  rwData := if clock = 0 then 4#32 else 0#32

/-- Port A's lookup with three writes queued, the newest of its entry among them. -/
theorem tlb_refines_table_queued :
    (mmuRun 2048#18 Mmu.blank overfull 5).tlb.fq.length = 3 ∧
      (mmuRun 2048#18 Mmu.blank overfull 5).aHit (overfull 5) = true := by
  have fits : ∀ earlier, earlier < 5 →
      ¬ (mmuRun 2048#18 Mmu.blank overfull earlier).Overflows 2048#18 (overfull earlier) := by
    intro earlier early
    unfold Mmu.Overflows
    match earlier, early with
    | 0, _ | 1, _ | 2, _ | 3, _ | 4, _ => decide
  have lookup := (tlb_refines_table 2048#18 Mmu.blank overfull 5 fits).1 rfl
  exact ⟨by decide, lookup.1.trans (by decide)⟩

/-- The assertion does not see three writes enter behind three: the last, a load, is lost, and port A
misses the entry that the table holds. -/
theorem overflow_unasserted :
    (∀ clock, (mmuRun 2048#18 Mmu.blank overfull clock).overflowError 2048#18 (overfull clock) =
      false) ∧
    (∀ clock, Presented overfull MmuInput.aNextVa MmuInput.aVa clock) ∧
    (∀ clock, Presented overfull MmuInput.bNextVa MmuInput.bVa clock) ∧
    (mmuRun 2048#18 Mmu.blank overfull 6).aHit (overfull 6) = false ∧
    hits (mmuTable 2048#18 Mmu.blank overfull 6) (overfull 6).aVa = true := by
  refine ⟨fun clock => ?_, fun clock => ?_, fun clock => ?_, by decide, by decide⟩
  · match clock with
    | 0 | 1 | 2 | 3 | 4 | 5 => decide
    | later + 6 =>
      unfold Mmu.overflowError
      rw [writes_idle]
      · simp
      all_goals
        simp only [overfull, decide_eq_false_iff_not]
        omega
  · cases clock with
    | zero => trivial
    | succ clock =>
      unfold Presented overfull
      congr 1
  · cases clock with
    | zero => trivial
    | succ clock => rfl

end MuirFpga.Quux
