import Mathlib.Logic.Function.Basic

/-!
# Tables with writes still to be made

A table written at once is compared with one whose writes wait in a queue: what is seen through the
queue is the newest write of the place, or the table under it.
-/

namespace MuirFpga.Sync

variable {Index Value : Type} [DecidableEq Index]

/-- A table after writes, the first of them first. -/
def applied (table : Index → Value) (writes : List (Index × Value)) : Index → Value :=
  writes.foldl (fun table write => Function.update table write.1 write.2) table

@[simp] theorem applied_nil (table : Index → Value) : applied table [] = table := rfl

@[simp] theorem applied_cons (table : Index → Value) (write : Index × Value)
    (writes : List (Index × Value)) :
    applied table (write :: writes) = applied (Function.update table write.1 write.2) writes := rfl

theorem applied_append (table : Index → Value) (first second : List (Index × Value)) :
    applied table (first ++ second) = applied (applied table first) second :=
  List.foldl_append

theorem applied_apply (table : Index → Value) (writes : List (Index × Value)) (place : Index) :
    applied table writes place =
      writes.foldl (fun found write => if write.1 = place then write.2 else found) (table place) := by
  induction writes generalizing table with
  | nil => rfl
  | cons write writes ih =>
    rw [applied_cons, ih, List.foldl_cons]
    by_cases here : write.1 = place
    · rw [here, Function.update_self, if_pos rfl]
    · rw [Function.update_of_ne (Ne.symm here), if_neg here]

theorem applied_untouched (table : Index → Value) {writes : List (Index × Value)} {place : Index}
    (others : ∀ write ∈ writes, write.1 ≠ place) : applied table writes place = table place := by
  induction writes generalizing table with
  | nil => rfl
  | cons write writes ih =>
    have first := others write List.mem_cons_self
    rw [applied_cons, ih _ fun later among => others later (List.mem_cons_of_mem _ among),
      Function.update_of_ne first.symm]

end MuirFpga.Sync
