import Mathlib.Data.Nat.Init

/-!
# A phase that gives its period back

A sum counted on by steps no longer than a period, the period taken off where the sum reaches it: what is
left is the time's remainder, and how often it was taken off the quotient.
-/

namespace MuirFpga.Arith

variable {period step : Nat}

theorem divMod_step (time : Nat) (short : step ≤ period) (positive : 0 < period) :
    (time + step) / period = time / period + (if period ≤ time % period + step then 1 else 0) ∧
      (time + step) % period =
        if period ≤ time % period + step then time % period + step - period else time % period + step := by
  have less := Nat.mod_lt time positive
  have parts := Nat.div_add_mod time period
  have split_ {whole rest : Nat} (sum : time + step = period * whole + rest) (inside : rest < period) :
      (time + step) / period = whole ∧ (time + step) % period = rest := by
    rw [sum, Nat.mul_add_div positive, Nat.mul_add_mod, Nat.div_eq_of_lt inside, Nat.mod_eq_of_lt inside]
    exact ⟨rfl, rfl⟩
  split
  · apply split_
    · rw [Nat.mul_add, Nat.mul_one]
      omega
    · omega
  · apply split_
    · rw [Nat.add_zero]
      omega
    · omega

end MuirFpga.Arith
