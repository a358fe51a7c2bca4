import MuirFpga.Quux.MulDiv

/-!
# The divider's steps

The divider takes two steps of a division a tick, so 16 ticks after a load its registers hold what a
DIVIDE-FIRST-STEP and 31 DIVIDE-STEPs leave. Where the divisor is positive and greater than the upper
word of the dividend, these are the steps of a non-restoring division: the partial remainder register
holds twice the partial remainder, modulo 2^32, and the next bit of the dividend.
-/

namespace MuirFpga.Quux

open Arith Sync

section Words

variable {first : Bool} {a : BitVec 32}

/-- Whether a step subtracts. -/
def stepSub (first : Bool) (a q : BitVec 32) : Bool :=
  if first then !a.getLsbD 31 else q.getLsbD 0 ^^ a.getLsbD 31

/-- A step of a division, over the partial remainder and the quotient register. -/
def divideWord (first : Bool) (a : BitVec 32) (s : BitVec 32 × BitVec 32) : BitVec 32 × BitVec 32 :=
  let f := Divider.array (stepSub first a s.2) a s.1
  (Divider.rNext f s.2, Divider.qNext f s.2)

/-- The steps of a division, the first a DIVIDE-FIRST-STEP. -/
def divideWords (a : BitVec 32) (s : BitVec 32 × BitVec 32) : Nat → BitVec 32 × BitVec 32
  | 0 => s
  | k + 1 => divideWord (k == 0) a (divideWords a s k)

theorem array_sub (x y : BitVec 33) : x + ~~~y + 1#33 = x - y := by
  rw [BitVec.sub_eq_add_neg, BitVec.neg_eq_not_add, BitVec.add_assoc]

theorem f_of_divide (e : ExecWord) (alu : e.ir.extractLsb' 43 2 = 0#2)
    (function : e.ir.extractLsb' 3 6 = if first then 0o51#6 else 0o41#6) :
    e.f = Divider.array (stepSub first (low32 e.a) (low32 e.q)) (low32 e.a) (low32 e.m) ∧
      e.ir.extractLsb' 3 2 = 1#2 := by
  have bits (k : Nat) : (e.ir.extractLsb' 3 6).getLsbD k =
      (if first then 0o51#6 else 0o41#6).getLsbD k := congrArg (·.getLsbD k) function
  have at3 : e.ir.getLsbD 3 = true := by cases first <;> simpa using bits 0
  have at4 : e.ir.getLsbD 4 = false := by cases first <;> simpa using bits 1
  have at5 : e.ir.getLsbD 5 = false := by cases first <;> simpa using bits 2
  have at6 : e.ir.getLsbD 6 = first := by cases first <;> simpa using bits 3
  have at8 : e.ir.getLsbD 8 = true := by cases first <;> simpa using bits 5
  have kind : e.ir.extractLsb' 3 2 = 1#2 := by
    apply BitVec.eq_of_getLsbD_eq
    intro k inside
    rw [BitVec.getLsbD_extractLsb']
    obtain rfl | rfl : k = 0 ∨ k = 1 := by omega
    · rw [at3]
      decide
    · rw [at4]
      decide
  refine ⟨?_, kind⟩
  have iralu : e.iralu = true := by simp [ExecWord.iralu, ExecWord.cls, alu]
  have irjump : e.irjump = false := by simp [ExecWord.irjump, ExecWord.cls, alu]
  have mulStep : e.mulStep = false := by simp [ExecWord.mulStep, kind]
  have divStep : e.divStep = true := by simp [ExecWord.divStep, ExecWord.specalu, iralu, at8, kind]
  have lowA : e.a.getLsbD 31 = (low32 e.a).getLsbD 31 := by simp [low32]
  have lowQ : e.q.getLsbD 0 = (low32 e.q).getLsbD 0 := by simp [low32]
  have alusub : e.alusub = stepSub first (low32 e.a) (low32 e.q) := by
    unfold ExecWord.alusub ExecWord.mulnop ExecWord.divsub ExecWord.divadd ExecWord.divpos stepSub
    rw [mulStep, divStep, irjump, at5, at6, lowA, lowQ]
    cases first <;> cases (low32 e.a).getLsbD 31 <;> cases (low32 e.q).getLsbD 0 <;> rfl
  have aluadd : e.aluadd = !stepSub first (low32 e.a) (low32 e.q) := by
    unfold ExecWord.aluadd ExecWord.divsub ExecWord.divadd ExecWord.divpos stepSub
    rw [mulStep, divStep, at5, at6, lowA, lowQ]
    cases first <;> cases (low32 e.a).getLsbD 31 <;> cases (low32 e.q).getLsbD 0 <;> rfl
  unfold Divider.array
  cases sub : stepSub first (low32 e.a) (low32 e.q) with
  | true =>
    rw [sub] at alusub aluadd
    have sum : e.f = (low32 e.m).signExtend 33 + ~~~(low32 e.a).signExtend 33 + 1#33 := by
      simp [ExecWord.f, ExecWord.p, ExecWord.s, ExecWord.alumode, ExecWord.aluf, ExecWord.cin,
        ExecWord.addends, alusub, aluadd, irjump, ExecWord.x, ExecWord.y, low32]
    rw [sum, array_sub, if_pos rfl]
  | false =>
    rw [sub] at alusub aluadd
    simp [ExecWord.f, ExecWord.p, ExecWord.s, ExecWord.alumode, ExecWord.aluf, ExecWord.cin,
      ExecWord.addends, alusub, aluadd, ExecWord.x, ExecWord.y, low32]

theorem divideWord_step (w : DivideWord a first) (m q : BitVec 40) :
    (low32 { w.word with m := m, q := q }.ob, low32 { w.word with m := m, q := q }.qAlu) =
      divideWord first a (low32 m, low32 q) := by
  obtain ⟨word, operand, alu, function, osel, qsel⟩ := w
  dsimp only
  obtain ⟨array, kind⟩ := f_of_divide { word with m := m, q := q } alu function
  simp only [operand] at array
  dsimp only at kind
  have isMul : ExecWord.isMul { word with m := m, q := q } = false := by simp [ExecWord.isMul, kind]
  have isDiv : ExecWord.isDiv { word with m := m, q := q } = false := by simp [ExecWord.isDiv, kind]
  have class0 : ExecWord.cls { word with m := m, q := q } ≠ 3#2 := by
    unfold ExecWord.cls
    rw [alu]
    decide
  have lower : (ExecWord.aluOut { word with m := m, q := q }).extractLsb' 0 31 =
      (ExecWord.f { word with m := m, q := q }).extractLsb' 0 31 := by
    unfold ExecWord.aluOut
    apply BitVec.eq_of_getLsbD_eq
    intro k inside
    rw [BitVec.getLsbD_extractLsb', BitVec.getLsbD_append, if_pos (by omega),
      BitVec.getLsbD_extractLsb', BitVec.getLsbD_extractLsb']
    simp only [Nat.zero_add]
    have within : k < 32 := by omega
    simp [within]
  have sign : (ExecWord.aluOut { word with m := m, q := q }).getLsbD 31 =
      (ExecWord.f { word with m := m, q := q }).getLsbD 31 := by
    unfold ExecWord.aluOut
    rw [BitVec.getLsbD_append, if_pos (by decide), BitVec.getLsbD_extractLsb']
    simp
  rw [Prod.mk.injEq]
  unfold divideWord
  constructor
  · unfold ExecWord.ob ExecWord.obAlu ExecWord.osel
    simp only [beq_iff_eq, class0, isMul, isDiv, osel, if_false, Bool.false_eq_true]
    refine (low32_tagged _ _).trans ?_
    rw [lower, array]
    unfold Divider.rNext
    simp [low32]
  · unfold ExecWord.qAlu
    simp only [isMul, isDiv, qsel, if_false, Bool.false_eq_true]
    refine (low32_append _ _).trans ?_
    rw [sign, array]
    unfold Divider.qNext
    congr 1
    apply BitVec.eq_of_getLsbD_eq
    intro k inside
    unfold low32
    simp [inside]

/-- The steps are those of the division. -/
theorem stepsOf_divide (words : ∀ k, DivideWord a (k == 0)) (m q : BitVec 40) (k : Nat) :
    (low32 (stepsOf (fun k => (words k).word) m q k).1,
        low32 (stepsOf (fun k => (words k).word) m q k).2) =
      divideWords a (low32 m, low32 q) k := by
  induction k with
  | zero => rfl
  | succ k ih =>
    have step := divideWord_step (words k) (stepsOf (fun k => (words k).word) m q k).1
      (stepsOf (fun k => (words k).word) m q k).2
    rw [ih] at step
    exact step

end Words

section Ticks

variable {a : BitVec 32} {e : Nat → MulDivIn} {t : Nat}

theorem next_of_live (d : Divider) {i : MulDivIn} (rst : i.rst = false) (load : i.load = false)
    (live : d.dvK ≠ 32#6) :
    let s := divideWord false d.dvA (divideWord (d.dvK == 0#6) d.dvA (d.dvR, d.dvQ))
    d.next i = ⟨s.1, s.2, d.dvA, d.dvK + 2⟩ := by
  unfold Divider.next
  simp only [rst, load, bne_iff_ne, ne_eq, live, not_false_eq_true, if_true, if_false, Bool.false_eq_true]
  rfl

theorem run_of_load (d : Divider) (rst : (e t).rst = false) (load : (e t).load = true) {n : Nat}
    (alone : ∀ k, t < k → k ≤ t + n → (e k).rst = false ∧ (e k).load = false) (inside : n ≤ 16) :
    ∃ s, d.run e (t + 1 + n) = ⟨s.1, s.2, (e t).a, BitVec.ofNat 6 (2 * n)⟩ ∧
      s = divideWords (e t).a ((e t).dm, (e t).q) (2 * n) := by
  induction n with
  | zero =>
    refine ⟨_, ?_, rfl⟩
    have tick : d.run e (t + 1) = (d.run e t).next (e t) := rfl
    rw [Nat.add_zero, tick]
    simp [Divider.next, rst, load, divideWords]
  | succ n ih =>
    obtain ⟨s, registers, steps⟩ := ih (fun k after before => alone k after (by omega)) (by omega)
    have quiet := alone (t + 1 + n) (by omega) (by omega)
    have tick : d.run e (t + 1 + (n + 1)) = (d.run e (t + 1 + n)).next (e (t + 1 + n)) := rfl
    have live : BitVec.ofNat 6 (2 * n) ≠ 32#6 := by
      intro same
      have value := congrArg BitVec.toNat same
      rw [BitVec.toNat_ofNat, BitVec.toNat_ofNat] at value
      omega
    have start : (BitVec.ofNat 6 (2 * n) == 0#6) = (2 * n == 0) := by
      rw [Bool.eq_iff_iff, beq_iff_eq, beq_iff_eq, ← BitVec.toNat_inj, BitVec.toNat_ofNat,
        BitVec.toNat_ofNat]
      omega
    refine ⟨_, ?_, rfl⟩
    rw [tick, registers, next_of_live _ quiet.1 quiet.2 live, start, steps]
    have count : BitVec.ofNat 6 (2 * n) + 2 = BitVec.ofNat 6 (2 * (n + 1)) := by
      rw [Nat.mul_add, BitVec.ofNat_add]
      rfl
    dsimp only
    rw [count]
    rfl

end Ticks

section Closed

variable {a dm q r : BitVec 32} {f : BitVec 33} {x quo : Int} {k : Nat}
  {s : BitVec 32 × BitVec 32}

theorem ofInt_sub (x y : Int) : BitVec.ofInt 32 (x - y) = BitVec.ofInt 32 x - BitVec.ofInt 32 y := by
  rw [Int.sub_eq_add_neg, BitVec.ofInt_add, BitVec.ofInt_neg, BitVec.sub_eq_add_neg]

theorem array_low (sub : Bool) (a r : BitVec 32) :
    (Divider.array sub a r).extractLsb' 0 32 = if sub then r - a else r + a := by
  have wide (v : BitVec 32) : (v.signExtend 33).toNat % 2 ^ 32 = v.toNat := by
    have less := v.isLt
    rw [BitVec.toNat_signExtend, BitVec.toNat_setWidth]
    split
    · omega
    · omega
  have lowA := wide a
  have lowR := wide r
  have lessA := (a.signExtend 33).isLt
  unfold Divider.array
  apply BitVec.eq_of_toNat_eq
  cases sub with
  | true =>
    rw [if_pos rfl, if_pos rfl, BitVec.extractLsb'_toNat, BitVec.toNat_sub, BitVec.toNat_sub,
      Nat.shiftRight_zero]
    omega
  | false =>
    rw [if_neg Bool.false_ne_true, if_neg Bool.false_ne_true, BitVec.extractLsb'_toNat,
      BitVec.toNat_add, BitVec.toNat_add, Nat.shiftRight_zero]
    omega

theorem rNext_of_low (low : f.extractLsb' 0 32 = BitVec.ofInt 32 x) :
    Divider.rNext f q = BitVec.ofInt 32 (2 * x + (q.getLsbD 31).toNat) := by
  have value := congrArg BitVec.toNat low
  rw [BitVec.extractLsb'_toNat, BitVec.toNat_ofInt, Nat.shiftRight_zero] at value
  apply BitVec.eq_of_toNat_eq
  unfold Divider.rNext
  have small : (q.getLsbD 31).toNat < 2 := Bool.toNat_lt _
  rw [BitVec.toNat_append, BitVec.toNat_ofBool, BitVec.extractLsb'_toNat, Nat.shiftRight_zero,
    ← Nat.shiftLeft_add_eq_or_of_lt (by omega), Nat.shiftLeft_eq, BitVec.toNat_ofInt]
  omega

theorem sign_of_low (low : f.extractLsb' 0 32 = BitVec.ofInt 32 x) (least : -2 ^ 31 ≤ x)
    (less : x < 2 ^ 31) : f.getLsbD 31 = decide (x < 0) := by
  have value := congrArg BitVec.toNat low
  rw [BitVec.extractLsb'_toNat, BitVec.toNat_ofInt, Nat.shiftRight_zero] at value
  rw [← BitVec.testBit_toNat, Nat.testBit_eq_decide_div_mod_eq, decide_eq_decide]
  omega

/-- A division after its first step and some more: the part of the dividend divided so far, twice its
partial remainder and the next bit of the dividend, and the quotient under the rest of the dividend. -/
structure Divided (a dm q : BitVec 32) (k : Nat) (s : BitVec 32 × BitVec 32) (quo f : Int) : Prop where
  part : Partial a.toNat (dm.toNat * 2 ^ k + q.toNat / 2 ^ (32 - k) : Nat) quo f
  remainder : s.1 = BitVec.ofInt 32 (2 * f + (q.getLsbD (31 - k)).toNat)
  quotient : (s.2.toNat % 2 ^ (k + 1) : Nat) = quo
  odd : s.2.getLsbD 0 = decide (0 ≤ f)
  rest : ∀ j, k + 1 ≤ j → j < 32 → s.2.getLsbD j = q.getLsbD (j - (k + 1))

theorem qNext_succ {j : Nat} (inside : j < 31) : (Divider.qNext f q).getLsbD (j + 1) = q.getLsbD j := by
  unfold Divider.qNext
  rw [BitVec.getLsbD_append, if_neg (by omega), BitVec.getLsbD_extractLsb']
  simp [inside]

theorem qNext_zero : (Divider.qNext f q).getLsbD 0 = !f.getLsbD 31 := by
  unfold Divider.qNext
  rw [BitVec.getLsbD_append, if_pos (by decide)]
  simp

theorem qNext_toNat (inside : k + 1 ≤ 32) :
    (Divider.qNext f q).toNat % 2 ^ (k + 1) = 2 * (q.toNat % 2 ^ k) + (!f.getLsbD 31).toNat := by
  have small : (!f.getLsbD 31).toNat < 2 := Bool.toNat_lt _
  have value : (Divider.qNext f q).toNat = 2 * (q.toNat % 2 ^ 31) + (!f.getLsbD 31).toNat := by
    unfold Divider.qNext
    rw [BitVec.toNat_append, BitVec.toNat_ofBool, BitVec.extractLsb'_toNat, Nat.shiftRight_zero,
      ← Nat.shiftLeft_add_eq_or_of_lt (by omega), Nat.shiftLeft_eq]
    omega
  have low : q.toNat % 2 ^ 31 % 2 ^ k = q.toNat % 2 ^ k :=
    Nat.mod_mod_of_dvd _ (Nat.pow_dvd_pow 2 (by omega))
  have bit : (2 * (q.toNat % 2 ^ 31) + (!f.getLsbD 31).toNat) % 2 = (!f.getLsbD 31).toNat := by omega
  have others : (2 * (q.toNat % 2 ^ 31) + (!f.getLsbD 31).toNat) / 2 = q.toNat % 2 ^ 31 := by omega
  have split : 2 ^ (k + 1) = 2 * 2 ^ k := Nat.pow_succ'
  generalize q.toNat % 2 ^ 31 = v at value low bit others
  rw [value, split, Nat.mod_mul, bit, others, low, Nat.add_comm]

theorem sign_of_positive (positive : a.toNat < 2 ^ 31) : a.getLsbD 31 = false := by
  rw [← BitVec.testBit_toNat]
  exact Nat.testBit_lt_two_pow positive

theorem first_difference (positive : a.toNat < 2 ^ 31) :
    (Divider.array (stepSub true a q) a dm).extractLsb' 0 32 =
      BitVec.ofInt 32 (dm.toNat - a.toNat) := by
  have sub : stepSub true a q = true := by
    unfold stepSub
    rw [if_pos rfl, sign_of_positive positive, Bool.not_false]
  rw [array_low, sub, if_pos rfl, ofInt_sub, BitVec.ofInt_natCast, BitVec.ofInt_natCast,
    BitVec.ofNat_toNat, BitVec.ofNat_toNat, BitVec.setWidth_eq, BitVec.setWidth_eq]

theorem Divided.first (positive : a.toNat < 2 ^ 31) (less : dm.toNat < a.toNat) :
    Divided a dm q 0 (divideWord true a (dm, q)) 0 (dm.toNat - a.toNat) := by
  have low := @first_difference a dm q positive
  have negative : (Divider.array (stepSub true a q) a dm).getLsbD 31 = true := by
    rw [sign_of_low low (by omega) (by omega), decide_eq_true_eq]
    omega
  unfold divideWord
  refine ⟨⟨by omega, by omega, ?_⟩, rNext_of_low low, ?_, ?_, ?_⟩
  · have gone : q.toNat / 2 ^ (32 - 0) = 0 := Nat.div_eq_of_lt q.isLt
    rw [gone, if_neg (by omega)]
    push_cast
    omega
  · have bits := @qNext_toNat q (Divider.array (stepSub true a q) a dm) 0 (by decide)
    rw [negative, Nat.pow_zero, Nat.mod_one] at bits
    exact congrArg Nat.cast bits
  · rw [qNext_zero, negative]
    symm
    rw [Bool.not_true, decide_eq_false_iff_not]
    omega
  · intro j above inside
    obtain ⟨j, rfl⟩ : ∃ i, j = i + 1 := ⟨j - 1, by omega⟩
    exact qNext_succ (by omega)

theorem Divided.next (divided : Divided a dm q k s quo x) (positive : a.toNat < 2 ^ 31)
    (inside : k < 31) : ∃ quo x, Divided a dm q (k + 1) (divideWord false a s) quo x := by
  have sign := sign_of_positive positive
  obtain ⟨part, remainder, quotient, odd, rest⟩ := divided
  generalize bit : q.getLsbD (31 - k) = b at remainder
  have one : b.toNat < 2 := Bool.toNat_lt _
  have step := @Partial.next a.toNat _ quo x b.toNat part (by omega) (by omega)
  have sub : stepSub false a s.2 = decide (0 ≤ x) := by
    unfold stepSub
    rw [if_neg Bool.false_ne_true, odd, sign, Bool.xor_false]
  have low : (Divider.array (stepSub false a s.2) a s.1).extractLsb' 0 32 =
      BitVec.ofInt 32 (divideStep a.toNat x b.toNat) := by
    have divisor : BitVec.ofInt 32 a.toNat = a := by
      rw [BitVec.ofInt_natCast, BitVec.ofNat_toNat, BitVec.setWidth_eq]
    rw [array_low, sub, remainder]
    unfold divideStep
    simp only [decide_eq_true_eq]
    split
    · rw [← Int.sub_eq_add_neg, ofInt_sub, divisor]
    · rw [BitVec.ofInt_add _ (a.toNat : Int), divisor]
  have signs := sign_of_low low (by have := step.least; omega) (by have := step.less; omega)
  have next : s.2.getLsbD 31 = q.getLsbD (31 - (k + 1)) := rest 31 (by omega) (by decide)
  have quotients := @qNext_toNat s.2 (Divider.array (stepSub false a s.2) a s.1) (k + 1) (by omega)
  have dividend : (2 * (dm.toNat * 2 ^ k + q.toNat / 2 ^ (32 - k) : Nat) + b.toNat : Int) =
      (dm.toNat * 2 ^ (k + 1) + q.toNat / 2 ^ (32 - (k + 1)) : Nat) := by
    have halved : q.toNat / 2 ^ (32 - k) = q.toNat / 2 ^ (31 - k) / 2 := by
      rw [Nat.div_div_eq_div_mul, ← Nat.pow_succ]
      congr 2
      omega
    have parity : b.toNat = q.toNat / 2 ^ (31 - k) % 2 := by
      rw [← bit, ← BitVec.testBit_toNat, Nat.toNat_testBit]
    rw [halved, show 32 - (k + 1) = 31 - k by omega, Nat.pow_succ, ← Nat.mul_assoc]
    omega
  rw [dividend] at step
  unfold divideWord
  refine ⟨_, _, step, ?_, ?_, ?_, ?_⟩
  · rw [← next]
    exact rNext_of_low low
  · dsimp only
    rw [quotients, signs, ← quotient]
    by_cases negative : divideStep a.toNat x b.toNat < 0
    · rw [if_neg (by omega), decide_eq_true negative]
      rfl
    · rw [if_pos (by omega), decide_eq_false negative]
      rfl
  · rw [qNext_zero, signs, ← decide_not]
    apply decide_eq_decide.mpr
    omega
  · intro j above inside
    obtain ⟨j, rfl⟩ : ∃ i, j = i + 1 := ⟨j - 1, by omega⟩
    rw [qNext_succ (by omega), rest j (by omega) (by omega)]
    congr 1
    omega

theorem divided_divideWords (positive : a.toNat < 2 ^ 31) (less : dm.toNat < a.toNat) (inside : k < 32) :
    ∃ quo x, Divided a dm q k (divideWords a (dm, q) (k + 1)) quo x := by
  induction k with
  | zero => exact ⟨_, _, Divided.first positive less⟩
  | succ k ih =>
    obtain ⟨quo, x, divided⟩ := ih (by omega)
    exact divided.next positive (by omega)

/-- What 32 steps leave: the quotient, and twice the remainder, less the divisor where the quotient is
even, with the dividend's last bit. -/
theorem divideWords_closed (positive : a.toNat < 2 ^ 31) (less : dm.toNat < a.toNat) :
    let s := divideWords a (dm, q) 32
    let D := (dm.toNat * 2 ^ 32 + q.toNat) / 2
    s.2.toNat = D / a.toNat ∧
      s.1 = BitVec.ofInt 32
        (2 * ((D % a.toNat : Nat) - (if s.2.getLsbD 0 then 0 else (a.toNat : Int))) +
          (q.getLsbD 0).toNat) := by
  obtain ⟨quo, x, part, remainder, quotient, odd, rest⟩ :=
    @divided_divideWords a dm q 31 positive less (by decide)
  have whole : dm.toNat * 2 ^ 31 + q.toNat / 2 ^ (32 - 31) = (dm.toNat * 2 ^ 32 + q.toNat) / 2 := by omega
  have inside := (divideWords a (dm, q) (31 + 1)).2.isLt
  rw [whole] at part
  rw [Nat.mod_eq_of_lt (by omega)] at quotient
  obtain ⟨quotients, remainders⟩ := part.quotient
  dsimp only
  refine ⟨?_, ?_⟩
  · rw [← Int.natCast_inj]
    push_cast
    rw [quotient, quotients]
    rfl
  · rw [remainder, odd, Int.natCast_mod, ← remainders]
    congr 1
    simp only [decide_eq_true_eq]
    split
    · rw [Int.sub_zero]
    · rw [Int.add_sub_cancel]

theorem first_quotient (inside : k < 32) :
    (divideWords a (dm, q) (k + 1)).2.getLsbD k = (divideWords a (dm, q) 1).2.getLsbD 0 := by
  induction k with
  | zero => rfl
  | succ k ih =>
    rw [← ih (by omega)]
    exact qNext_succ (by omega)

theorem overflow_of_le (small : dm.toNat < 2 ^ 31) (positive : 0 < a.toNat) (large : a.toNat ≤ dm.toNat) :
    (divideWords a (dm, q) 32).2.getLsbD 31 = true := by
  have low := @first_difference a dm q (by omega)
  rw [first_quotient (by decide)]
  refine qNext_zero.trans ?_
  change (!(Divider.array (stepSub true a q) a dm).getLsbD 31) = true
  rw [sign_of_low low (by omega) (by omega), Bool.not_eq_true', decide_eq_false_iff_not]
  omega

end Closed

/-- DIV's words 16 ticks after a load are what a DIVIDE-FIRST-STEP and 31 DIVIDE-STEPs leave, and the
quotient and remainder where the divisor is greater than the dividend's upper word; elsewhere the
quotient's bit 31 is set. -/
theorem div_of_steps (d : Divider) (e : Nat → MulDivIn) (t : Nat)
    (load : (e t).rst = false ∧ (e t).load = true)
    (alone : ∀ k, t < k → k ≤ t + 16 → (e k).rst = false ∧ (e k).load = false)
    (words : ∀ k, DivideWord (e t).a (k == 0)) (m q : BitVec 40)
    (operands : low32 m = (e t).dm ∧ low32 q = (e t).q) :
    let out := d.run e (t + 1 + 16)
    let s := stepsOf (fun k => (words k).word) m q 32
    let D := ((e t).dm.toNat * 2 ^ 32 + (e t).q.toNat) / 2
    (out.divOb, out.divQ) = (low32 s.1, low32 s.2) ∧
    ((e t).dm.toNat < (e t).a.toNat → (e t).a.toNat < 2 ^ 31 →
      out.divQ.toNat = D / (e t).a.toNat ∧ out.divQ.getLsbD 31 = false ∧
      out.divOb = BitVec.ofInt 32
        (2 * ((D % (e t).a.toNat : Nat) - (if out.divQ.getLsbD 0 then 0 else ((e t).a.toNat : Int))) +
          ((e t).q.getLsbD 0).toNat)) ∧
    (0 < (e t).a.toNat → (e t).a.toNat ≤ (e t).dm.toNat → (e t).dm.toNat < 2 ^ 31 →
      out.divQ.getLsbD 31 = true) := by
  obtain ⟨s, registers, steps⟩ := run_of_load d load.1 load.2 alone (Nat.le_refl 16)
  have machine := stepsOf_divide words m q 32
  rw [operands.1, operands.2, ← steps] at machine
  dsimp only
  rw [registers]
  unfold Divider.divOb Divider.divQ
  refine ⟨machine.symm, ?_, ?_⟩
  · intro less positive
    obtain ⟨quotient, remainder⟩ := @divideWords_closed (e t).a (e t).dm (e t).q positive less
    rw [← steps] at quotient remainder
    refine ⟨quotient, ?_, remainder⟩
    rw [← BitVec.testBit_toNat, quotient]
    apply Nat.testBit_lt_two_pow
    have inside := (e t).q.isLt
    rw [Nat.div_lt_iff_lt_mul (by omega)]
    omega
  · intro positive large small
    rw [steps]
    exact overflow_of_le small positive large

/-- The microinstruction of a step of a division, and the word. -/
def divideIr (first : Bool) : BitVec 48 := if first then 0o30511 else 0o30411

theorem low32_word (a : BitVec 32) : low32 (0#8 ++ a) = a := low32_append _ _

def divideWordOf (a : BitVec 32) (first : Bool) : DivideWord a first where
  word :=
    { ir := divideIr first
      m := 0, a := 0#8 ++ a, q := 0, lc := 0, byteMode := false
      mulOb := 0, mulQ := 0, divOb := 0, divQ := 0 }
  operand := low32_word a
  alu := show (divideIr first).extractLsb' 43 2 = 0#2 by cases first <;> decide
  function := show (divideIr first).extractLsb' 3 6 = _ by cases first <;> decide
  osel := show (divideIr first).extractLsb' 12 2 = 3#2 by cases first <;> decide
  qsel := show (divideIr first).extractLsb' 0 2 = 1#2 by cases first <;> decide

/-- A DIV of 2^32 + 7 by 3, its operands loaded at the first tick. -/
def dividing : Nat → MulDivIn
  | 0 => ⟨false, true, 0, 1, 3, 7⟩
  | _ + 1 => ⟨false, false, 0, 0, 0, 0⟩

/-- The divider on a DIV. -/
theorem div_of_steps_dividing :
    ((Divider.run ⟨0, 0, 0, 32⟩ dividing 17).divOb, (Divider.run ⟨0, 0, 0, 32⟩ dividing 17).divQ) =
      (low32 (stepsOf (fun k => (divideWordOf 3 (k == 0)).word) 1 7 32).1,
        low32 (stepsOf (fun k => (divideWordOf 3 (k == 0)).word) 1 7 32).2) :=
  (div_of_steps ⟨0, 0, 0, 32⟩ dividing 0 ⟨rfl, rfl⟩
    (fun k after before => by
      obtain ⟨k, rfl⟩ : ∃ i, k = i + 1 := ⟨k - 1, by omega⟩
      exact ⟨rfl, rfl⟩)
    (fun k => divideWordOf 3 (k == 0)) 1 7 ⟨by decide, by decide⟩).1

end MuirFpga.Quux
