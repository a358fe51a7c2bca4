import MuirFpga.Quux.Exec
import MuirFpga.Arith.Steps
import MuirFpga.Sync.Trace
import Mathlib.Tactic.SplitIfs

/-!
# MUL and DIV

`quux_muldiv`: the product of a MUL as one sum of 64 bits, and the divider, two of DIV's 32 steps a
tick. Both are what the steps of EX's datapath leave, run 32 times.
-/

namespace MuirFpga.Quux

open Arith Sync

/-- What a tick brings `quux_muldiv`. -/
structure MulDivIn where
  rst : Bool
  load : Bool
  m : BitVec 32
  dm : BitVec 32
  a : BitVec 32
  q : BitVec 32

section Multiplier

/-- The product, as the 64-bit sum the 32 steps make. -/
def product (m a q : BitVec 32) : BitVec 64 :=
  m.signExtend 64 + (a.signExtend 63).signExtend 64 * (0#32 ++ q)

def mulOb (m a q : BitVec 32) : BitVec 32 := (product m a q).extractLsb' 32 32
def mulQ (m a q : BitVec 32) : BitVec 32 := (product m a q).extractLsb' 0 32

end Multiplier

/-- The divider's registers. -/
structure Divider where
  dvR : BitVec 32
  dvQ : BitVec 32
  dvA : BitVec 32
  dvK : BitVec 6

namespace Divider

/-- A step: the array, the partial remainder shifted left with the quotient register's top bit in, and
that shifted left with the complement of the array's bit 31 in. -/
def array (sub : Bool) (a r : BitVec 32) : BitVec 33 :=
  if sub then r.signExtend 33 - a.signExtend 33 else r.signExtend 33 + a.signExtend 33
def rNext (f : BitVec 33) (q : BitVec 32) : BitVec 32 := f.extractLsb' 0 31 ++ BitVec.ofBool (q.getLsbD 31)
def qNext (f : BitVec 33) (q : BitVec 32) : BitVec 32 :=
  q.extractLsb' 0 31 ++ BitVec.ofBool (!f.getLsbD 31)

variable (d : Divider)

def sub1 : Bool := if d.dvK == 0#6 then !d.dvA.getLsbD 31 else d.dvQ.getLsbD 0 ^^ d.dvA.getLsbD 31
def f1 : BitVec 33 := array d.sub1 d.dvA d.dvR
def r1 : BitVec 32 := rNext d.f1 d.dvQ
def q1 : BitVec 32 := qNext d.f1 d.dvQ
def sub2 : Bool := d.q1.getLsbD 0 ^^ d.dvA.getLsbD 31
def f2 : BitVec 33 := array d.sub2 d.dvA d.r1

/-- A tick. -/
def next (i : MulDivIn) : Divider :=
  if i.rst then ⟨0, 0, 0, 32⟩
  else if i.load then ⟨i.dm, i.q, i.a, 0⟩
  else if d.dvK != 32#6 then ⟨rNext d.f2 d.q1, qNext d.f2 d.q1, d.dvA, d.dvK + 2⟩
  else d

/-- The divider at every tick, from any registers. -/
def run (d : Divider) (e : Nat → MulDivIn) : Nat → Divider := trace (fun i d => d.next i) d e

def divOb : BitVec 32 := d.dvR
def divQ : BitVec 32 := d.dvQ

end Divider

section Steps

/-- The output bus and `Q` as words of EX leave them, each word's M operand the output bus before it. -/
def stepsOf (words : Nat → ExecWord) (m q : BitVec 40) : Nat → BitVec 40 × BitVec 40
  | 0 => (m, q)
  | k + 1 =>
    let before := stepsOf words m q k
    let word := { words k with m := before.1, q := before.2 }
    (word.ob, word.qAlu)

/-- A word's fields. -/
def low32 (v : BitVec 40) : BitVec 32 := v.extractLsb' 0 32

/-- A MULTIPLY-STEP of an A operand: function MUS, output select 2 and Q select 2. -/
structure MultiplyWord (a : BitVec 32) where
  word : ExecWord
  operand : low32 word.a = a
  alu : word.ir.extractLsb' 43 2 = 0#2
  special : word.ir.getLsbD 8 = true
  mus : word.ir.extractLsb' 3 2 = 0#2
  osel : word.ir.extractLsb' 12 2 = 2#2
  qsel : word.ir.extractLsb' 0 2 = 2#2

/-- A step of a division: DIVIDE-FIRST-STEP (51) or DIVIDE-STEP (41), output select 3 and Q select 1. -/
structure DivideWord (a : BitVec 32) (first : Bool) where
  word : ExecWord
  operand : low32 word.a = a
  alu : word.ir.extractLsb' 43 2 = 0#2
  function : word.ir.extractLsb' 3 6 = if first then 0o51#6 else 0o41#6
  osel : word.ir.extractLsb' 12 2 = 3#2
  qsel : word.ir.extractLsb' 0 2 = 1#2

variable {a : BitVec 32}

/-- The array of a MULTIPLY-STEP. -/
def mulArray (a m : BitVec 32) (bit : Bool) : BitVec 33 :=
  if bit then m.signExtend 33 + a.signExtend 33 else m.signExtend 33

theorem low32_tagged (e : ExecWord) (v : BitVec 32) : low32 (e.mtag ||| (0#8 ++ v)) = v := by
  unfold low32 ExecWord.mtag
  apply BitVec.eq_of_getLsbD_eq
  intro k inside
  have tag : (e.tx ++ 0#32).getLsbD k = false := by
    rw [BitVec.getLsbD_append, if_pos inside, BitVec.getLsbD_zero]
  have fields : (0#8 ++ v).getLsbD k = v.getLsbD k := by
    rw [BitVec.getLsbD_append, if_pos inside]
  rw [BitVec.getLsbD_extractLsb', BitVec.getLsbD_or, Nat.zero_add]
  simp [inside, tag, fields]

theorem low32_append (tag : BitVec 8) (v : BitVec 32) : low32 (tag ++ v) = v :=
  BitVec.extractLsb'_append_eq_right

theorem f_of_multiply (e : ExecWord) (alu : e.ir.extractLsb' 43 2 = 0#2)
    (special : e.ir.getLsbD 8 = true) (mus : e.ir.extractLsb' 3 2 = 0#2) :
    e.f = mulArray (low32 e.a) (low32 e.m) (e.q.getLsbD 0) := by
  have iralu : e.iralu = true := by simp [ExecWord.iralu, ExecWord.cls, alu]
  have irjump : e.irjump = false := by simp [ExecWord.irjump, ExecWord.cls, alu]
  have mulStep : e.mulStep = true := by simp [ExecWord.mulStep, ExecWord.specalu, iralu, special, mus]
  have divStep : e.divStep = false := by simp [ExecWord.divStep, mus]
  have aluadd : e.aluadd = true := by simp [ExecWord.aluadd, mulStep]
  have alusub : e.alusub = !e.q.getLsbD 0 := by
    simp [ExecWord.alusub, ExecWord.mulnop, ExecWord.divsub, ExecWord.divadd, mulStep, divStep, irjump]
  unfold mulArray
  cases bit : e.q.getLsbD 0 with
  | true =>
    rw [bit] at alusub
    simp [ExecWord.f, ExecWord.p, ExecWord.s, ExecWord.alumode, ExecWord.aluf, ExecWord.cin,
      ExecWord.addends, alusub, aluadd, ExecWord.x, ExecWord.y, low32]
  | false =>
    rw [bit] at alusub
    simp [ExecWord.f, ExecWord.p, ExecWord.alumode, ExecWord.aluf, ExecWord.logical, alusub, aluadd,
      ExecWord.x, low32]

theorem multiplyWord_step (w : MultiplyWord a) (m q : BitVec 40) :
    low32 { w.word with m := m, q := q }.ob = (mulArray a (low32 m) (q.getLsbD 0)).extractLsb' 1 32 ∧
      low32 { w.word with m := m, q := q }.qAlu =
        BitVec.ofBool ((mulArray a (low32 m) (q.getLsbD 0)).getLsbD 0) ++ (low32 q).extractLsb' 1 31 := by
  obtain ⟨word, operand, alu, special, mus, osel, qsel⟩ := w
  dsimp only
  have array := f_of_multiply { word with m := m, q := q } alu special mus
  simp only [operand] at array
  have isMul : ExecWord.isMul { word with m := m, q := q } = false := by simp [ExecWord.isMul, mus]
  have isDiv : ExecWord.isDiv { word with m := m, q := q } = false := by simp [ExecWord.isDiv, mus]
  have class0 : ExecWord.cls { word with m := m, q := q } ≠ 3#2 := by
    unfold ExecWord.cls
    rw [alu]
    decide
  constructor
  · unfold ExecWord.ob ExecWord.obAlu ExecWord.osel
    simp only [beq_iff_eq, class0, isMul, isDiv, osel, if_false, Bool.false_eq_true]
    rw [← array]
    exact low32_tagged _ _
  · unfold ExecWord.qAlu
    simp only [isMul, isDiv, qsel, if_false, Bool.false_eq_true]
    rw [← array]
    refine (low32_append _ _).trans ?_
    have bit : (ExecWord.aluOut { word with m := m, q := q }).getLsbD 0 =
        (ExecWord.f { word with m := m, q := q }).getLsbD 0 := by
      unfold ExecWord.aluOut
      rw [BitVec.getLsbD_append, if_pos (by decide), BitVec.getLsbD_extractLsb']
      simp
    rw [bit]
    congr 1
    apply BitVec.eq_of_getLsbD_eq
    intro k inside
    unfold low32
    simp [inside]

theorem signExtend_add_toInt (u v : BitVec 32) :
    (u.signExtend 33 + v.signExtend 33).toInt = u.toInt + v.toInt := by
  have leastU := BitVec.le_toInt u
  have lessU := BitVec.toInt_lt (x := u)
  have leastV := BitVec.le_toInt v
  have lessV := BitVec.toInt_lt (x := v)
  rw [BitVec.toInt_add, BitVec.toInt_signExtend_of_le (by decide),
    BitVec.toInt_signExtend_of_le (by decide)]
  apply Int.bmod_eq_of_le <;> omega

theorem mulArray_toInt (a m : BitVec 32) (bit : Bool) :
    (mulArray a m bit).toInt = m.toInt + a.toInt * (bit.toNat : Nat) := by
  unfold mulArray
  cases bit with
  | false => simp [BitVec.toInt_signExtend_of_le]
  | true =>
    rw [if_pos rfl, signExtend_add_toInt]
    simp

theorem toInt_split (f : BitVec 33) :
    f.toInt = 2 * (f.extractLsb' 1 32).toInt + (f.getLsbD 0).toNat := by
  have whole : f.extractLsb' 1 32 ++ f.extractLsb' 0 1 = f := by
    apply BitVec.eq_of_getLsbD_eq
    intro k inside
    rw [BitVec.getLsbD_append]
    split
    · simp_all
    · rw [BitVec.getLsbD_extractLsb']
      have back : 1 + (k - 1) = k := by omega
      rw [back]
      simp
      omega
  have lowest : (f.extractLsb' 0 1).toNat = (f.getLsbD 0).toNat := by
    rw [BitVec.extractLsb'_toNat, ← BitVec.testBit_toNat, Nat.toNat_testBit]
    simp
  have sum : (f.extractLsb' 1 32 ++ f.extractLsb' 0 1).toInt = _ := BitVec.toInt_append
  rw [if_neg (by decide), whole, lowest] at sum
  exact sum

theorem shifted_toNat (bit : Bool) (q : BitVec 32) :
    (BitVec.ofBool bit ++ q.extractLsb' 1 31).toNat = q.toNat / 2 + 2 ^ 31 * bit.toNat := by
  have less := q.isLt
  rw [BitVec.toNat_append, BitVec.toNat_ofBool, BitVec.extractLsb'_toNat, Nat.shiftRight_one,
    Nat.mod_eq_of_lt (by omega), ← Nat.shiftLeft_add_eq_or_of_lt (by omega), Nat.shiftLeft_eq]
  omega

/-- The fields of the output bus and of `Q`, as numbers. -/
def fields (s : BitVec 40 × BitVec 40) : Int × Nat := ((low32 s.1).toInt, (low32 s.2).toNat)

theorem fields_multiplyWord (words : Nat → MultiplyWord a) (m q : BitVec 40) (k : Nat) :
    fields (stepsOf (fun k => (words k).word) m q (k + 1)) =
      multiplyStep 32 a.toInt (fields (stepsOf (fun k => (words k).word) m q k)) := by
  obtain ⟨ob, rest⟩ :=
    multiplyWord_step (words k) (stepsOf (fun k => (words k).word) m q k).1
      (stepsOf (fun k => (words k).word) m q k).2
  unfold fields
  rw [stepsOf]
  dsimp only
  rw [ob, rest]
  generalize stepsOf (fun k => (words k).word) m q k = s
  have lowest : s.2.getLsbD 0 = (low32 s.2).getLsbD 0 := by simp [low32]
  rw [lowest, shifted_toNat]
  generalize low32 s.1 = u
  generalize low32 s.2 = v
  have parity : v.toNat % 2 = (v.getLsbD 0).toNat := by
    rw [← BitVec.testBit_toNat, Nat.toNat_testBit]
    simp
  have value := mulArray_toInt a u (v.getLsbD 0)
  have split := toInt_split (mulArray a u (v.getLsbD 0))
  generalize mulArray a u (v.getLsbD 0) = f at value split
  have small : (f.getLsbD 0).toNat < 2 := Bool.toNat_lt _
  unfold multiplyStep
  dsimp only
  rw [parity, ← value, Prod.mk.injEq]
  constructor
  · omega
  · congr 2
    omega

/-- The steps are the multiplication's. -/
theorem fields_stepsOf (words : Nat → MultiplyWord a) (m q : BitVec 40) (k : Nat) :
    fields (stepsOf (fun k => (words k).word) m q k) =
      (multiplyStep 32 a.toInt)^[k] (fields (m, q)) := by
  induction k with
  | zero => rfl
  | succ k ih => rw [fields_multiplyWord, ih, Function.iterate_succ_apply']

/-- The product is exact. -/
theorem product_toInt (m a q : BitVec 32) : (product m a q).toInt = m.toInt + a.toInt * q.toNat := by
  have leastM := BitVec.le_toInt m
  have lessM := BitVec.toInt_lt (x := m)
  have leastA := BitVec.le_toInt a
  have lessA := BitVec.toInt_lt (x := a)
  have lessQ := q.isLt
  have least : -2 ^ 31 * (q.toNat : Int) ≤ a.toInt * q.toNat :=
    Int.mul_le_mul_of_nonneg_right leastA (Int.natCast_nonneg _)
  have less : a.toInt * q.toNat ≤ (2 ^ 31 - 1) * (q.toNat : Int) :=
    Int.mul_le_mul_of_nonneg_right (Int.le_sub_one_of_lt lessA) (Int.natCast_nonneg _)
  have wide : (0#32 ++ q).toInt = q.toNat := by
    have sum : (0#32 ++ q).toInt = _ := BitVec.toInt_append
    rw [if_neg (by decide)] at sum
    simpa using sum
  unfold product
  rw [BitVec.toInt_add, BitVec.toInt_mul, BitVec.toInt_signExtend_of_le (by decide),
    BitVec.toInt_signExtend_of_le (by decide), BitVec.toInt_signExtend_of_le (by decide), wide]
  have exact : Int.bmod (a.toInt * q.toNat) (2 ^ 64) = a.toInt * q.toNat := by
    apply Int.bmod_eq_of_le <;> omega
  rw [exact]
  apply Int.bmod_eq_of_le <;> omega

/-- MUL is 32 MULTIPLY-STEPs, and the product of its operands. -/
theorem mul_of_steps (words : Nat → MultiplyWord a) (m q : BitVec 40) :
    (low32 (stepsOf (fun k => (words k).word) m q 32).1,
        low32 (stepsOf (fun k => (words k).word) m q 32).2) =
      (mulOb (low32 m) a (low32 q), mulQ (low32 m) a (low32 q)) ∧
    (mulOb (low32 m) a (low32 q) ++ mulQ (low32 m) a (low32 q)).toInt =
      (low32 m).toInt + a.toInt * (low32 q).toNat := by
  have halves : mulOb (low32 m) a (low32 q) ++ mulQ (low32 m) a (low32 q) =
      product (low32 m) a (low32 q) := by
    unfold mulOb mulQ
    exact BitVec.extractLsb'_append_extractLsb'_eq_extractLsb' (by rfl) |>.trans (by simp)
  have value := product_toInt (low32 m) a (low32 q)
  rw [← halves] at value
  refine ⟨?_, value⟩
  obtain ⟨low, less, rest, sum⟩ :=
    @multiplyStep_iterate 32 a.toInt (low32 m).toInt (low32 q).toNat 32 (Nat.le_refl 32)
  have steps := fields_stepsOf words m q 32
  have small := (low32 q).isLt
  have parts : (mulOb (low32 m) a (low32 q) ++ mulQ (low32 m) a (low32 q)).toInt = _ :=
    BitVec.toInt_append
  rw [if_neg (by decide), value] at parts
  rw [Nat.mod_eq_of_lt small] at sum
  rw [Nat.div_eq_of_lt small] at rest
  unfold fields at steps
  rw [← steps] at rest sum
  dsimp only at rest sum
  generalize stepsOf (fun k => (words k).word) m q 32 = s at rest sum
  have lessS := (low32 s.2).isLt
  have lessQ := (mulQ (low32 m) a (low32 q)).isLt
  rw [Prod.mk.injEq]
  constructor
  · apply BitVec.eq_of_toInt_eq
    omega
  · apply BitVec.eq_of_toNat_eq
    omega

end Steps

end MuirFpga.Quux
