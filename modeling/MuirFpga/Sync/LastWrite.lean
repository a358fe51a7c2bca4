import Mathlib.Data.Nat.Init

/-!
# The last write to a place

What a place holds when every clock writes it or leaves it: the first value until a clock writes it,
and the last value written from then on.
-/

namespace MuirFpga.Sync

variable {Value : Type*} {first : Value} {writes : Nat → Option Value}

/-- What a place holds at a clock, given what each clock before it wrote there. -/
def lastWrite (first : Value) (writes : Nat → Option Value) : Nat → Value
  | 0 => first
  | clock + 1 => (writes clock).getD (lastWrite first writes clock)

theorem lastWrite_succ_some {clock : Nat} {value : Value} (wrote : writes clock = some value) :
    lastWrite first writes (clock + 1) = value := by
  show (writes clock).getD _ = value
  rw [wrote]
  rfl

theorem lastWrite_succ_none {clock : Nat} (kept : writes clock = none) :
    lastWrite first writes (clock + 1) = lastWrite first writes clock := by
  show (writes clock).getD _ = _
  rw [kept]
  rfl

theorem lastWrite_of_wrote {clock later : Nat} {value : Value} (wrote : writes clock = some value)
    (after : clock < later) (kept : ∀ k, clock < k → k < later → writes k = none) :
    lastWrite first writes later = value := by
  induction later, after using Nat.le_induction with
  | base => exact lastWrite_succ_some wrote
  | succ later after ih =>
    rw [lastWrite_succ_none (kept later after (Nat.lt_succ_self later))]
    exact ih fun k afterK before => kept k afterK (Nat.lt_succ_of_lt before)

theorem lastWrite_of_none {later : Nat} (kept : ∀ k, k < later → writes k = none) :
    lastWrite first writes later = first := by
  induction later with
  | zero => rfl
  | succ later ih =>
    rw [lastWrite_succ_none (kept later (Nat.lt_succ_self later))]
    exact ih fun k before => kept k (Nat.lt_succ_of_lt before)

theorem lastWrite_cases (first : Value) (writes : Nat → Option Value) (later : Nat) :
    (lastWrite first writes later = first ∧ ∀ k, k < later → writes k = none) ∨
      ∃ clock, clock < later ∧ writes clock = some (lastWrite first writes later) ∧
        ∀ k, clock < k → k < later → writes k = none := by
  induction later with
  | zero => exact .inl ⟨rfl, fun k before => absurd before (Nat.not_lt_zero k)⟩
  | succ later ih =>
    cases wrote : writes later with
    | some value =>
      rw [lastWrite_succ_some wrote]
      exact .inr ⟨later, Nat.lt_succ_self later, wrote, fun k after before => by omega⟩
    | none =>
      rw [lastWrite_succ_none wrote]
      have kept (k : Nat) (before : k < later + 1) (earlier : k < later → writes k = none) :
          writes k = none := by
        obtain rfl | less : k = later ∨ k < later := by omega
        · exact wrote
        · exact earlier less
      rcases ih with ⟨held, never⟩ | ⟨clock, before, value, since⟩
      · exact .inl ⟨held, fun k upTo => kept k upTo (never k)⟩
      · exact .inr ⟨clock, Nat.lt_succ_of_lt before, value,
          fun k after upTo => kept k upTo (since k after)⟩

theorem eq_lastWrite {held : Nat → Value} (start : held 0 = first)
    (next : ∀ clock, held (clock + 1) = (writes clock).getD (held clock)) (clock : Nat) :
    held clock = lastWrite first writes clock := by
  induction clock with
  | zero => exact start
  | succ clock ih =>
    rw [next clock, ih]
    rfl

end MuirFpga.Sync
