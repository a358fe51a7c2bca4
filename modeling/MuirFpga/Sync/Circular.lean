import Mathlib.Data.Nat.ModEq
import Mathlib.Logic.Function.Basic

/-!
# Circular arrays of any size

What a circular array of `size` slots holds from its head: a list, and what a push, a drop and a run of slots
without a turn are of it.
-/

namespace MuirFpga.Sync

variable {Entry : Type} {slots : Nat → Entry} {size head count n : Nat} {entry : Entry}

/-- The entries held, from the head on. -/
def heldIn (slots : Nat → Entry) (size head count : Nat) : List Entry :=
  (List.range count).map fun k => slots ((head + k) % size)

@[simp] theorem length_heldIn : (heldIn slots size head count).length = count := by
  simp [heldIn]

@[simp] theorem heldIn_zero : heldIn slots size head 0 = [] := rfl

theorem slot_ne {k : Nat} (before : k < n) (room : n < size) : (head + k) % size ≠ (head + n) % size := by
  intro same
  have equal : k % size = n % size := Nat.ModEq.add_left_cancel' head same
  rw [Nat.mod_eq_of_lt room, Nat.mod_eq_of_lt (before.trans room)] at equal
  exact absurd equal (Nat.ne_of_lt before)

theorem heldIn_push (room : count < size) :
    heldIn (Function.update slots ((head + count) % size) entry) size head (count + 1)
      = heldIn slots size head count ++ [entry] := by
  unfold heldIn
  rw [List.range_succ, List.map_append, List.map_singleton, Function.update_self]
  congr 1
  apply List.map_congr_left
  intro k inside
  exact Function.update_of_ne (slot_ne (List.mem_range.mp inside) room) _ _

theorem heldIn_drop (few : n ≤ count) :
    heldIn slots size ((head + n) % size) (count - n) = (heldIn slots size head count).drop n := by
  obtain ⟨rest, rfl⟩ := Nat.exists_eq_add_of_le few
  unfold heldIn
  rw [Nat.add_sub_cancel_left, List.range_add, List.map_append, List.drop_left' (by simp), List.map_map]
  apply List.map_congr_left
  intro k _
  show slots (((head + n) % size + k) % size) = slots ((head + (n + k)) % size)
  rw [Nat.mod_add_mod, Nat.add_assoc]

theorem heldIn_cons (inside : head < size) :
    heldIn slots size head (count + 1) = slots head :: heldIn slots size ((head + 1) % size) count := by
  unfold heldIn
  rw [List.range_succ_eq_map, List.map_cons, List.map_map, Nat.add_zero, Nat.mod_eq_of_lt inside]
  congr 1
  apply List.map_congr_left
  intro k _
  show slots ((head + (k + 1)) % size) = slots (((head + 1) % size + k) % size)
  rw [Nat.mod_add_mod]
  congr 2
  omega

theorem heldIn_run (few : n ≤ count) (flat : head + n ≤ size) :
    (List.range n).map (fun k => slots (head + k)) = (heldIn slots size head count).take n := by
  unfold heldIn
  rw [← List.map_take, List.take_range, Nat.min_eq_left few]
  apply List.map_congr_left
  intro k inside
  have := List.mem_range.mp inside
  rw [Nat.mod_eq_of_lt (by omega)]

section Advance

/-- The slot after a slot. -/
def advance (size slot : Nat) : Nat := if slot = size - 1 then 0 else slot + 1

theorem advance_eq (inside : head < size) : advance size head = (head + 1) % size := by
  unfold advance
  by_cases last : head = size - 1
  · rw [if_pos last, show head + 1 = size by omega, Nat.mod_self]
  · rw [if_neg last, Nat.mod_eq_of_lt (by omega)]

theorem advance_lt (inside : head < size) : advance size head < size := by
  rw [advance_eq inside]
  exact Nat.mod_lt _ (by omega)

theorem advance_add (inside : head < size) (k : Nat) :
    (advance size head + k) % size = (head + (k + 1)) % size := by
  rw [advance_eq inside, Nat.mod_add_mod, show head + 1 + k = head + (k + 1) by omega]

end Advance

end MuirFpga.Sync
