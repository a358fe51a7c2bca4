import Mathlib.Order.Basic
import Mathlib.Data.Nat.Init

/-!
# How often an event comes in a stretch of clocks

Never, from a first clock up to a last one that is not counted; how that
grows with the stretch; and an event that is still to come, met while what waits for it stands.
-/

namespace MuirFpga.Sync

variable {event : Nat → Prop} {first last : Nat}

/-- The event comes at no clock of the stretch. -/
def Never (event : Nat → Prop) (first last : Nat) : Prop :=
  ∀ clock, first ≤ clock → clock < last → ¬ event clock

theorem never_self (event : Nat → Prop) (first : Nat) : Never event first first :=
  fun clock after before => absurd before (by omega)

theorem never_succ (before : Never event first last) (not : ¬ event last) :
    Never event first (last + 1) := by
  intro clock after upTo
  obtain rfl | earlier : clock = last ∨ clock < last := by omega
  · exact not
  · exact before clock after earlier

theorem never_succ_iff (order : first ≤ last) :
    Never event first (last + 1) ↔ Never event first last ∧ ¬ event last := by
  constructor
  · intro never
    exact ⟨fun k after upTo => never k after (by omega), never last order (by omega)⟩
  · rintro ⟨never, not⟩
    exact never_succ never not

theorem stands_until {holds : Nat → Prop} {bound : Nat} (now : holds first) (after : first ≤ bound)
    (comes : event bound)
    (kept : ∀ clock, first ≤ clock → clock < bound → holds clock → ¬ event clock →
      holds (clock + 1)) :
    ∃ clock, first ≤ clock ∧ clock ≤ bound ∧ holds clock ∧ event clock ∧
      Never event first clock := by
  induction wait : bound - first generalizing first with
  | zero =>
    obtain rfl : first = bound := by omega
    exact ⟨first, Nat.le_refl first, Nat.le_refl first, now, comes, never_self event first⟩
  | succ wait ih =>
    by_cases already : event first
    · exact ⟨first, Nat.le_refl first, after, now, already, never_self event first⟩
    · obtain ⟨clock, later, upTo, there, met, never⟩ :=
        ih (kept first (Nat.le_refl first) (by omega) now already) (by omega)
          (fun clock later => kept clock (by omega)) (by omega)
      refine ⟨clock, by omega, upTo, there, met, fun other from_ before again => ?_⟩
      obtain rfl | rest : other = first ∨ first + 1 ≤ other := by omega
      · exact already again
      · exact never other rest before again

theorem stands_through {holds : Nat → Prop} (now : holds first) (never : Never event first last)
    (kept : ∀ clock, holds clock → ¬ event clock → holds (clock + 1)) {clock : Nat} (after : first ≤ clock)
    (upTo : clock ≤ last) : holds clock := by
  induction clock, after using Nat.le_induction with
  | base => exact now
  | succ clock after ih => exact kept clock (ih (Nat.le_of_succ_le upTo)) (never clock after upTo)

end MuirFpga.Sync
