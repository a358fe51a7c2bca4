import Mathlib.Data.List.Infix

/-!
# Longest common prefixes

The longest prefix two lists have in common, and that of a list and more: what every one of them begins with
begins it.
-/

namespace MuirFpga.Posix

variable {α : Type} [DecidableEq α] {p a b : List α} {l : List (List α)}

/-- What two lists begin with alike. -/
def shared : List α → List α → List α
  | a :: as, b :: bs => if a = b then a :: shared as bs else []
  | _, _ => []

theorem prefix_shared : p <+: shared a b ↔ p <+: a ∧ p <+: b := by
  induction a generalizing b p with
  | nil =>
    show p <+: [] ↔ _
    exact ⟨fun none_ => ⟨none_, none_.trans List.nil_prefix⟩, And.left⟩
  | cons x a ih =>
    cases b with
    | nil =>
      show p <+: [] ↔ _
      exact ⟨fun none_ => ⟨none_.trans List.nil_prefix, none_⟩, And.right⟩
    | cons y b =>
      cases p with
      | nil => simp
      | cons z p =>
        unfold shared
        by_cases same : x = y
        · subst same
          rw [if_pos rfl, List.cons_prefix_cons, List.cons_prefix_cons, List.cons_prefix_cons, ih]
          exact and_and_left
        · rw [if_neg same, List.cons_prefix_cons, List.cons_prefix_cons]
          constructor
          · intro none_
            cases List.prefix_nil.mp none_
          · rintro ⟨⟨isX, _⟩, isY, _⟩
            exact absurd (isX.symm.trans isY) same

theorem prefix_foldl_shared : p <+: l.foldl shared a ↔ p <+: a ∧ ∀ b ∈ l, p <+: b := by
  induction l generalizing a with
  | nil => simp
  | cons b l ih => rw [List.foldl_cons, ih, prefix_shared, List.forall_mem_cons, and_assoc]

end MuirFpga.Posix
