import MuirFpga.Quux.BitRams

/-!
# The memories on an Agilex 5

`quux15_validmap`, `quux15_mdmem` and `quux15_tdp` of `plumbing/agilex5` beside those of `machine`, with none of
the simulation's poisons defined. Where an MLAB is still taking a write, what a read of that cell gives is any
value at all.
-/

namespace MuirFpga.Quux

open Sync

section ValidMap

/-- The Agilex 5 map's registers: the columns with the groups' bits, and the write forwarded. `busy` and `busyAt`
are the MLABs' write windows, which the source keeps for its poison alone. -/
structure ValidMlab (groupBits : Nat) where
  ram : ValidRam groupBits
  fwWe : BitVec 6 → Bool
  fwWd : BitVec 6 → Bool
  fwWa : BitVec groupBits
  busy : BitVec 6 → Bool
  busyAt : BitVec groupBits

namespace ValidMlab

open ValidRam (group column colWe colWd)

variable {groupBits : Nat} (e : ValidClock groupBits) (v : ValidMlab groupBits)

/-- A column's bit of a group, `any` where its MLAB is taking a write there. -/
def colq (any : BitVec 6 → Bool) (raddr : BitVec (groupBits + 6)) (c : BitVec 6) : Bool :=
  if v.busy c && v.busyAt == group raddr then any c else v.ram.m c (group raddr)

/-- An entry as it reads: the held write's, in the clock after it. -/
def entry (any : BitVec 6 → Bool) (raddr : BitVec (groupBits + 6)) : Bool :=
  let held := v.fwWe (column raddr) && v.fwWa == group raddr
  v.ram.gv (group raddr) && if held then v.fwWd (column raddr) else v.colq any raddr (column raddr)

/-- The three reads, `READS` of them. -/
def rbit0 (any : BitVec 6 → Bool) : Bool := v.entry any e.raddr0
def rbit1 (reads : Nat) (any : BitVec 6 → Bool) : Bool := decide (1 < reads) && v.entry any e.raddr1
def rbit2 (reads : Nat) (any : BitVec 6 → Bool) : Bool := decide (2 < reads) && v.entry any e.raddr2

/-- A clock. -/
def next : ValidMlab groupBits where
  ram := v.ram.next e
  fwWe := v.ram.colWe e
  fwWd := colWd e
  fwWa := group e.waddr
  busy := v.ram.colWe e
  busyAt := group e.waddr

/-- The map as it is configured. -/
def initial : ValidMlab groupBits := ⟨ValidRam.initial, fun _ => false, fun _ => false, 0, fun _ => false, 0⟩

/-- The map at every clock. -/
def run (e : Nat → ValidClock groupBits) : Nat → ValidMlab groupBits := trace next initial e

/-- What is forwarded is what the MLABs are taking, and is where they will have it. -/
structure Forwards (v : ValidMlab groupBits) : Prop where
  same : v.busy = v.fwWe ∧ v.busyAt = v.fwWa
  taken : ∀ c, v.fwWe c = true → v.ram.m c v.fwWa = v.fwWd c

theorem next_forwards : (v.next e).Forwards where
  same := ⟨rfl, rfl⟩
  taken c writes := by
    show (if v.ram.colWe e c then Function.update (v.ram.m c) (group e.waddr) (colWd e c) else v.ram.m c) (group e.waddr)
      = colWd e c
    have column : v.ram.colWe e c = true := writes
    rw [if_pos column, Function.update_self]

theorem run_forwards (e : Nat → ValidClock groupBits) (n : Nat) : (run e n).Forwards := by
  cases n with
  | zero => exact ⟨⟨rfl, rfl⟩, fun _ writes => nomatch writes⟩
  | succ n => exact next_forwards (e n) (run e n)

theorem run_ram (e : Nat → ValidClock groupBits) (n : Nat) : (run e n).ram = ValidRam.run e n := by
  induction n with
  | zero => rfl
  | succ n ih =>
    show ((run e n).ram.next (e n)) = (ValidRam.run e n).next (e n)
    rw [ih]

theorem entry_eq {v : ValidMlab groupBits} (forwards : v.Forwards) (any : BitVec 6 → Bool)
    (raddr : BitVec (groupBits + 6)) : v.entry any raddr = v.ram.entry raddr := by
  unfold entry ValidRam.entry colq
  rw [forwards.same.1, forwards.same.2]
  dsimp only
  split
  · rename_i held
    rw [Bool.and_eq_true, beq_iff_eq] at held
    rw [← held.2, forwards.taken _ held.1]
  · rfl

theorem reads_eq (reads : Nat) (e : Nat → ValidClock groupBits) (any : Nat → Fin 3 → BitVec 6 → Bool) (n : Nat) :
    (run e n).rbit0 (e n) (any n 0) = (ValidRam.run e n).rbit0 (e n)
      ∧ (run e n).rbit1 (e n) reads (any n 1) = (ValidRam.run e n).rbit1 (e n) reads
      ∧ (run e n).rbit2 (e n) reads (any n 2) = (ValidRam.run e n).rbit2 (e n) reads := by
  have entry (raddr : BitVec (groupBits + 6)) (any : BitVec 6 → Bool) :
      (run e n).entry any raddr = (ValidRam.run e n).entry raddr := by
    rw [entry_eq (run_forwards e n), run_ram]
  exact ⟨entry _ _, congrArg (_ && ·) (entry _ _), congrArg (_ && ·) (entry _ _)⟩

end ValidMlab

end ValidMap

section MdMem

/-- What a clock brings the macro dispatch memory: the write, and the addresses of the five reads, `rd`, `rx`, `ex`,
`d` and `ro`. -/
structure MdClock where
  we : Bool
  waddr : BitVec 10
  wdata : BitVec 18
  ra : Fin 5 → BitVec 10

/-- What a clock writes at an address. -/
def MdClock.writes (e : MdClock) (addr : BitVec 10) : Option (BitVec 18) :=
  if e.we ∧ e.waddr = addr then some e.wdata else none

namespace MdMem

/-- The array of `machine/quux15_mdmem`, a clock later. -/
def next (e : MdClock) (mem : BitVec 10 → BitVec 18) : BitVec 10 → BitVec 18 :=
  if e.we then Function.update mem e.waddr e.wdata else mem

/-- It at every clock. -/
def run (e : Nat → MdClock) : Nat → BitVec 10 → BitVec 18 := trace next (fun _ => 0) e

/-- Its reads. -/
def re (e : MdClock) (mem : BitVec 10 → BitVec 18) (k : Fin 5) : BitVec 18 := mem (e.ra k)

theorem run_last (e : Nat → MdClock) (addr : BitVec 10) (n : Nat) :
    run e n addr = lastWrite 0 (fun i => (e i).writes addr) n := by
  induction n with
  | zero => rfl
  | succ n ih =>
    show (if (e n).we then Function.update (run e n) (e n).waddr (e n).wdata else run e n) addr
      = ((e n).writes addr).getD (lastWrite 0 _ n)
    rw [← ih, MdClock.writes]
    by_cases here : (e n).we = true ∧ (e n).waddr = addr
    · rw [if_pos here, if_pos here.1, ← here.2, Function.update_self]
      rfl
    · rw [if_neg here]
      split
      · rename_i writes
        exact Function.update_of_ne (fun same => here ⟨writes, same.symm⟩) _ _
      · rfl

end MdMem

/-- The write the Agilex 5 version holds a clock. -/
structure MdHeld where
  weQ : Bool
  waddrQ : BitVec 10
  wdataQ : BitVec 18

namespace MdHeld

/-- A clock, and the registers at every clock. -/
def next (e : MdClock) (_ : MdHeld) : MdHeld := ⟨e.we, e.waddr, e.wdata⟩
def run (e : Nat → MdClock) : Nat → MdHeld := trace next ⟨false, 0, 0⟩ e

/-- The reads: the held write's, of its address, or the copies'. -/
def re (e : MdClock) (held : MdHeld) (mq : Fin 5 → BitVec 18) (k : Fin 5) : BitVec 18 :=
  if held.weQ && held.waddrQ == e.ra k then held.wdataQ else mq k

end MdHeld

/-- `altdpram` as the five copies are: `q n k addr` is what copy `k` gives at clock `n` of an address. It is every
write taken before, but of an address written in the clock before, whose write it is still taking. -/
def Altdpram (e : Nat → MdClock) (q : Nat → Fin 5 → BitVec 10 → BitVec 18) : Prop :=
  ∀ n k addr, ((MdHeld.run e n).weQ && (MdHeld.run e n).waddrQ == addr) = false →
    q n k addr = lastWrite 0 (fun i => (e i).writes addr) n

theorem MdHeld.re_eq {e : Nat → MdClock} {q : Nat → Fin 5 → BitVec 10 → BitVec 18} (altdpram : Altdpram e q)
    (n : Nat) (k : Fin 5) :
    MdHeld.re (e n) (MdHeld.run e n) (fun k => q n k ((e n).ra k)) k = MdMem.re (e n) (MdMem.run e n) k := by
  unfold MdHeld.re MdMem.re
  split
  · rename_i held
    cases n with
    | zero => exact nomatch held
    | succ n =>
      rw [Bool.and_eq_true, beq_iff_eq] at held
      obtain ⟨we, there⟩ := held
      have we : (e n).we = true := we
      have there : (e n).waddr = (e (n + 1)).ra k := there
      show (e n).wdata = (if (e n).we then Function.update (MdMem.run e n) (e n).waddr (e n).wdata else MdMem.run e n) _
      rw [if_pos we, there, Function.update_self]
  · rename_i held
    show q n k ((e n).ra k) = _
    rw [altdpram n k _ (Bool.eq_false_iff.mpr held), MdMem.run_last]

end MdMem

section Tdp

/-- What a clock brings a port of the true dual-port RAM, its word as columns of bytes: byte `k` of the source is
byte `k % 5` of column `k / 5`, or the one byte of the one column. -/
structure TdpPort (addrBits cols last byte : Nat) where
  en : Bool
  we : Fin cols → Fin (last + 1) → Bool
  addr : BitVec addrBits
  wdata : Fin cols → Fin (last + 1) → BitVec byte

/-- Both ports', and whose process of the two that write runs last. -/
structure TdpClock (addrBits cols last byte : Nat) where
  a : TdpPort addrBits cols last byte
  b : TdpPort addrBits cols last byte
  bLast : Bool

section Behavioral

variable {addrBits cols last byte : Nat}

/-- `machine/quux15_tdp`: the array, and the ports' words. -/
structure Tdp (addrBits cols last byte : Nat) where
  mem : BitVec addrBits → Fin cols → Fin (last + 1) → BitVec byte
  aQ : Fin cols → Fin (last + 1) → BitVec byte
  bQ : Fin cols → Fin (last + 1) → BitVec byte

/-- A port names no byte to write. -/
def TdpPort.Reads (p : TdpPort addrBits cols last byte) : Prop := ∀ k j, p.we k j = false

instance (p : TdpPort addrBits cols last byte) : Decidable p.Reads := by
  unfold TdpPort.Reads
  infer_instance

/-- A port's process that writes, over an array. -/
def TdpPort.write (p : TdpPort addrBits cols last byte) (mem : BitVec addrBits → Fin cols → Fin (last + 1) → BitVec byte) :
    BitVec addrBits → Fin cols → Fin (last + 1) → BitVec byte :=
  fun addr k j => if p.en ∧ p.we k j ∧ p.addr = addr then p.wdata k j else mem addr k j

namespace Tdp

variable (e : TdpClock addrBits cols last byte) (t : Tdp addrBits cols last byte)

/-- A clock. -/
def next : Tdp addrBits cols last byte where
  mem := if e.bLast then e.b.write (e.a.write t.mem) else e.a.write (e.b.write t.mem)
  aQ := if e.a.en ∧ e.a.Reads then t.mem e.a.addr else t.aQ
  bQ := if e.b.en ∧ e.b.Reads then t.mem e.b.addr else t.bQ

/-- The RAM at power-on: `INIT_WORD` everywhere, the ports' words whatever they come up as. -/
def initial (initWord aQ bQ : Fin cols → Fin (last + 1) → BitVec byte) : Tdp addrBits cols last byte :=
  ⟨fun _ => initWord, aQ, bQ⟩

/-- It at every clock. -/
def run (start : Tdp addrBits cols last byte) (e : Nat → TdpClock addrBits cols last byte) :
    Nat → Tdp addrBits cols last byte :=
  trace next start e

end Tdp

end Behavioral

section Columns

/-- What a clock brings a port of a column. -/
structure ColPort (addrBits : Nat) (Word : Type) where
  we : Bool
  re : Bool
  addr : BitVec addrBits
  wdata : Word

/-- `quux15_tdp_col`. -/
structure TdpCol (addrBits : Nat) (Word : Type) where
  mem : BitVec addrBits → Word
  aQ : Word
  bQ : Word

namespace TdpCol

variable {addrBits : Nat} {Word : Type}

/-- A port's process that writes. -/
def write (p : ColPort addrBits Word) (mem : BitVec addrBits → Word) : BitVec addrBits → Word :=
  fun addr => if p.we ∧ p.addr = addr then p.wdata else mem addr

/-- A clock. -/
def next (a b : ColPort addrBits Word) (bLast : Bool) (c : TdpCol addrBits Word) : TdpCol addrBits Word where
  mem := if bLast then write b (write a c.mem) else write a (write b c.mem)
  aQ := if a.re then c.mem a.addr else c.aQ
  bQ := if b.re then c.mem b.addr else c.bQ

end TdpCol

variable {addrBits cols last byte : Nat}

/-- A port as `plumbing/agilex5/quux15_tdp` gives it to a column: written by the column's first enable, read when the
whole word writes nothing. -/
def TdpPort.column (p : TdpPort addrBits cols last byte) (k : Fin cols) : ColPort addrBits (Fin (last + 1) → BitVec byte) where
  we := p.en && p.we k 0
  re := p.en && decide p.Reads
  addr := p.addr
  wdata := p.wdata k

/-- `plumbing/agilex5/quux15_tdp`: its columns. -/
abbrev TdpCols (addrBits cols last byte : Nat) := Fin cols → TdpCol addrBits (Fin (last + 1) → BitVec byte)

namespace TdpCols

/-- A clock. -/
def next (e : TdpClock addrBits cols last byte) (t : TdpCols addrBits cols last byte) : TdpCols addrBits cols last byte :=
  fun k => (t k).next (e.a.column k) (e.b.column k) e.bLast

def initial (initWord aQ bQ : Fin cols → Fin (last + 1) → BitVec byte) : TdpCols addrBits cols last byte :=
  fun k => ⟨fun _ => initWord k, aQ k, bQ k⟩

def run (start : TdpCols addrBits cols last byte) (e : Nat → TdpClock addrBits cols last byte) :
    Nat → TdpCols addrBits cols last byte :=
  trace next start e

end TdpCols

/-- A port's enables are all equal within each column. -/
def TdpPort.Even (p : TdpPort addrBits cols last byte) : Prop := ∀ k j, p.we k j = p.we k 0

/-- The columns of a RAM. -/
def Tdp.columns (t : Tdp addrBits cols last byte) : TdpCols addrBits cols last byte :=
  fun k => ⟨fun addr => t.mem addr k, t.aQ k, t.bQ k⟩

theorem column_write {p : TdpPort addrBits cols last byte} (even : p.Even) (k : Fin cols)
    (mem : BitVec addrBits → Fin cols → Fin (last + 1) → BitVec byte) :
    TdpCol.write (p.column k) (fun addr => mem addr k) = fun addr => p.write mem addr k := by
  funext addr j
  have enables : ((p.column k).we = true ∧ p.addr = addr) ↔ (p.en = true ∧ p.we k j = true ∧ p.addr = addr) := by
    show ((p.en && p.we k 0) = true ∧ p.addr = addr) ↔ _
    rw [even k j, Bool.and_eq_true, and_assoc]
  by_cases writes : (p.column k).we = true ∧ p.addr = addr
  · exact (congrFun (if_pos writes) j).trans (if_pos (enables.mp writes)).symm
  · exact (congrFun (if_neg writes) j).trans (if_neg fun there => writes (enables.mpr there)).symm

theorem columns_next {e : TdpClock addrBits cols last byte} (evenA : e.a.Even) (evenB : e.b.Even)
    (t : Tdp addrBits cols last byte) : TdpCols.next e t.columns = (t.next e).columns := by
  funext k
  have reads (p : TdpPort addrBits cols last byte) (q : Fin cols → Fin (last + 1) → BitVec byte) :
      (if (p.column k).re then t.mem p.addr k else q k) = (if p.en ∧ p.Reads then t.mem p.addr else q) k := by
    have same : (p.column k).re = true ↔ p.en = true ∧ p.Reads := by
      show (p.en && decide p.Reads) = true ↔ _
      rw [Bool.and_eq_true, decide_eq_true_iff]
    by_cases asked : p.en = true ∧ p.Reads
    · rw [if_pos asked, if_pos (same.mpr asked)]
    · rw [if_neg asked, if_neg fun there => asked (same.mp there)]
  have mem : (if e.bLast then TdpCol.write (e.b.column k) (TdpCol.write (e.a.column k) fun addr => t.mem addr k)
        else TdpCol.write (e.a.column k) (TdpCol.write (e.b.column k) fun addr => t.mem addr k))
      = fun addr => (t.next e).mem addr k := by
    unfold Tdp.next
    dsimp only
    cases e.bLast with
    | true => rw [if_pos rfl, if_pos rfl, column_write evenA, column_write evenB]
    | false =>
      rw [if_neg Bool.false_ne_true, if_neg Bool.false_ne_true, column_write evenB, column_write evenA]
  show TdpCol.mk _ _ _ = TdpCol.mk _ _ _
  exact congr (congr (congrArg TdpCol.mk mem) (reads e.a t.aQ)) (reads e.b t.bQ)

theorem columns_run {e : Nat → TdpClock addrBits cols last byte} (even : ∀ n, (e n).a.Even ∧ (e n).b.Even)
    (initWord aQ bQ : Fin cols → Fin (last + 1) → BitVec byte) (n : Nat) :
    TdpCols.run (.initial initWord aQ bQ) e n = (Tdp.run (.initial initWord aQ bQ) e n).columns := by
  induction n with
  | zero => rfl
  | succ n ih =>
    show TdpCols.next (e n) (TdpCols.run _ e n) = _
    rw [ih]
    exact columns_next (even n).1 (even n).2 _

end Columns

end Tdp

/-- **The Agilex 5 memories are the behavioral ones.** The valid map returns on every read what the behavioral map
does, whatever an MLAB gives in the clock after a write to the cell; so does the macro dispatch memory, out of any
`altdpram` that is right but in its write's window; and the dual-port RAM's words are the behavioral RAM's at every
clock, whatever is read and written at one address, as long as every port's enables are equal within each column. -/
theorem agilex_rams_same :
    (∀ (groupBits reads : Nat) (e : Nat → ValidClock groupBits) (any : Nat → Fin 3 → BitVec 6 → Bool) (n : Nat),
      (ValidMlab.run e n).rbit0 (e n) (any n 0) = (ValidRam.run e n).rbit0 (e n)
        ∧ (ValidMlab.run e n).rbit1 (e n) reads (any n 1) = (ValidRam.run e n).rbit1 (e n) reads
        ∧ (ValidMlab.run e n).rbit2 (e n) reads (any n 2) = (ValidRam.run e n).rbit2 (e n) reads)
    ∧ (∀ (e : Nat → MdClock) (q : Nat → Fin 5 → BitVec 10 → BitVec 18), Altdpram e q → ∀ n k,
      MdHeld.re (e n) (MdHeld.run e n) (fun k => q n k ((e n).ra k)) k = MdMem.re (e n) (MdMem.run e n) k)
    ∧ ∀ (addrBits cols last byte : Nat) (e : Nat → TdpClock addrBits cols last byte)
        (initWord aQ bQ : Fin cols → Fin (last + 1) → BitVec byte), (∀ n, (e n).a.Even ∧ (e n).b.Even) → ∀ n k,
      (TdpCols.run (.initial initWord aQ bQ) e n k).aQ = (Tdp.run (.initial initWord aQ bQ) e n).aQ k
        ∧ (TdpCols.run (.initial initWord aQ bQ) e n k).bQ = (Tdp.run (.initial initWord aQ bQ) e n).bQ k := by
  refine ⟨fun groupBits reads e any n => ValidMlab.reads_eq reads e any n,
    fun e q altdpram n k => MdHeld.re_eq altdpram n k, fun addrBits cols last byte e initWord aQ bQ even n k => ?_⟩
  rw [columns_run even initWord aQ bQ n]
  exact ⟨rfl, rfl⟩

/-- An `altdpram` that gives the new entry's complement in a write's window. -/
def complementAltdpram (e : Nat → MdClock) (n : Nat) (_ : Fin 5) (addr : BitVec 10) : BitVec 18 :=
  let entry := lastWrite 0 (fun i => (e i).writes addr) n
  if (MdHeld.run e n).weQ && (MdHeld.run e n).waddrQ == addr then ~~~entry else entry

theorem complementAltdpram_right (e : Nat → MdClock) : Altdpram e (complementAltdpram e) :=
  fun _ _ _ outside => if_neg (Bool.eq_false_iff.mp outside)

/-- Of such an `altdpram`, an entry written and read at every clock; and of a RAM of eight columns, of which one port
writes one while the other reads the word. -/
theorem agilex_rams_same_complement :
    (∀ n k, let e : Nat → MdClock := fun n => ⟨true, 5#10, BitVec.ofNat 18 n, fun _ => 5#10⟩
      MdHeld.re (e n) (MdHeld.run e n) (fun k => complementAltdpram e n k 5#10) k = MdMem.re (e n) (MdMem.run e n) k)
    ∧ ∀ n k, let e : Nat → TdpClock 12 8 4 8 := fun n =>
        ⟨⟨true, fun k _ => k == 3, 7#12, fun _ _ => BitVec.ofNat 8 n⟩, ⟨true, fun _ _ => false, 7#12, fun _ _ => 0⟩, true⟩
      (TdpCols.run (.initial (fun _ _ => 0) (fun _ _ => 0) fun _ _ => 0) e n k).bQ
        = (Tdp.run (.initial (fun _ _ => 0) (fun _ _ => 0) fun _ _ => 0) e n).bQ k := by
  refine ⟨fun n k => ?_, fun n k => ?_⟩
  · exact agilex_rams_same.2.1 (fun n => ⟨true, 5#10, BitVec.ofNat 18 n, fun _ => 5#10⟩) _
      (complementAltdpram_right _) n k
  · exact (agilex_rams_same.2.2 12 8 4 8 _ _ _ _ (fun _ => ⟨fun _ _ => rfl, fun _ _ => rfl⟩) n k).2

end MuirFpga.Quux
