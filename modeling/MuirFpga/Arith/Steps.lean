import Mathlib.Data.Int.Basic
import Mathlib.Logic.Function.Iterate
import Mathlib.Tactic.Ring

/-!
# Multiplying and dividing by steps

A multiply step adds the multiplicand where the multiplier's low bit is set and shifts the sum right
over the multiplier; as many steps as the multiplier has bits leave the product. A non-restoring
division step doubles the partial remainder, brings in a bit of the dividend and subtracts or adds the
divisor by the sign it had; its quotient bits are the signs.
-/

namespace MuirFpga.Arith

section Multiply

variable {width : Nat} {a m : Int} {q k : Nat}

/-- A multiply step: the sum's upper part, and the multiplier shifted with the sum's low bit in at its
top. -/
def multiplyStep (width : Nat) (a : Int) (s : Int × Nat) : Int × Nat :=
  let sum := s.1 + a * (s.2 % 2 : Nat)
  (sum / 2, s.2 / 2 + 2 ^ (width - 1) * (sum % 2).toNat)

/-- After some steps the multiplier's bits still to come are at the bottom, and above them the low bits
of the product of those that went. -/
theorem multiplyStep_iterate (inside : k ≤ width) :
    ∃ low, low < 2 ^ k ∧
      ((multiplyStep width a)^[k] (m, q)).2 = q / 2 ^ k + 2 ^ (width - k) * low ∧
      ((multiplyStep width a)^[k] (m, q)).1 * 2 ^ k + low = m + a * (q % 2 ^ k : Nat) := by
  induction k with
  | zero => exact ⟨0, by simp [Nat.mod_one]⟩
  | succ k ih =>
    obtain ⟨low, less, rest, sum⟩ := ih (by omega)
    rw [Function.iterate_succ_apply']
    generalize (multiplyStep width a)^[k] (m, q) = s at rest sum ⊢
    have wide : 2 ^ (width - k) = 2 * 2 ^ (width - (k + 1)) := by
      rw [show width - k = width - (k + 1) + 1 by omega, Nat.pow_succ, Nat.mul_comm]
    have top : 2 ^ (width - 1) = 2 ^ (width - (k + 1)) * 2 ^ k := by
      rw [← Nat.pow_add]
      congr 1
      omega
    have shifted : q / 2 ^ (k + 1) = q / 2 ^ k / 2 := by
      rw [Nat.pow_succ, Nat.div_div_eq_div_mul]
    have bit : s.2 % 2 = q / 2 ^ k % 2 := by
      rw [rest, wide, Nat.mul_assoc]
      omega
    have half : s.2 / 2 = q / 2 ^ (k + 1) + 2 ^ (width - (k + 1)) * low := by
      rw [rest, wide, Nat.mul_assoc, shifted]
      omega
    have modulus : q % 2 ^ (k + 1) = q % 2 ^ k + 2 ^ k * (q / 2 ^ k % 2) := Nat.mod_mul
    generalize total : s.1 + a * (s.2 % 2 : Nat) = whole
    have parity : whole = 2 * (whole / 2) + (whole % 2).toNat := by omega
    have small : (whole % 2).toNat < 2 := by omega
    have steps : multiplyStep width a s =
        (whole / 2, s.2 / 2 + 2 ^ (width - 1) * (whole % 2).toNat) := by
      rw [← total]
      rfl
    rw [steps]
    generalize (whole % 2).toNat = c at parity small ⊢
    refine ⟨low + 2 ^ k * c, ?_, ?_, ?_⟩
    · obtain rfl | rfl : c = 0 ∨ c = 1 := by omega
      · rw [Nat.pow_succ]
        omega
      · rw [Nat.pow_succ]
        omega
    · rw [half, top]
      ring
    · rw [modulus, ← bit]
      push_cast
      calc whole / 2 * 2 ^ (k + 1) + (low + 2 ^ k * (c : Int))
          = (2 * (whole / 2) + c) * 2 ^ k + low := by ring
        _ = s.1 * 2 ^ k + low + a * (s.2 % 2 : Nat) * 2 ^ k := by
            rw [← parity, ← total]
            ring
        _ = m + a * ((q % 2 ^ k : Nat) + 2 ^ k * (s.2 % 2 : Nat)) := by
            rw [sum]
            ring
        _ = _ := by push_cast; ring

end Multiply

section Divide

variable {a p quo f : Int}

/-- A step of a non-restoring division. -/
def divideStep (a f bit : Int) : Int := 2 * f + bit + if 0 ≤ f then -a else a

/-- A partial dividend divided: the quotient so far and the remainder, less the divisor where the last
quotient bit is zero. -/
structure Partial (a p quo f : Int) : Prop where
  least : -a ≤ f
  less : f < a
  sum : p = a * quo + if 0 ≤ f then f else f + a

theorem Partial.next {bit : Int} (part : Partial a p quo f) (low : 0 ≤ bit) (high : bit ≤ 1) :
    Partial a (2 * p + bit) (2 * quo + if 0 ≤ divideStep a f bit then 1 else 0) (divideStep a f bit) := by
  obtain ⟨least, less, sum⟩ := part
  have doubled : divideStep a f bit = 2 * (if 0 ≤ f then f else f + a) + bit - a := by
    unfold divideStep
    split <;> ring
  rw [doubled]
  have inside : 0 ≤ (if 0 ≤ f then f else f + a) ∧ (if 0 ≤ f then f else f + a) < a := by
    split <;> omega
  generalize (if 0 ≤ f then f else f + a) = r at sum inside ⊢
  refine ⟨by omega, by omega, ?_⟩
  rw [sum]
  split
  · ring
  · ring

theorem Partial.quotient (part : Partial a p quo f) :
    quo = p / a ∧ (if 0 ≤ f then f else f + a) = p % a := by
  obtain ⟨least, less, sum⟩ := part
  have inside : 0 ≤ (if 0 ≤ f then f else f + a) ∧ (if 0 ≤ f then f else f + a) < a := by
    split <;> omega
  generalize (if 0 ≤ f then f else f + a) = r at sum inside ⊢
  have both := (Int.ediv_emod_unique (a := p) (b := a) (r := r) (q := quo) (by omega)).mpr
    ⟨by rw [sum]; ring, inside.1, inside.2⟩
  exact ⟨both.1.symm, both.2.symm⟩

end Divide

end MuirFpga.Arith
