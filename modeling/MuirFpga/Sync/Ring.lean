import Mathlib.Data.BitVec
import Mathlib.Data.List.Nodup

/-!
# Circular arrays

The places of a circular array of `2 ^ width` entries that hold a list: from its head, counted
modulo the size. A list longer than the array is not held by one, so the rules that add a place
ask for room.
-/

namespace MuirFpga.Sync

variable {width : Nat} {head : BitVec width} {count more : Nat}

/-- The places of the first entries from a head, in order. -/
def places (head : BitVec width) (count : Nat) : List (BitVec width) :=
  (List.range count).map fun k => head + BitVec.ofNat width k

@[simp] theorem length_places : (places head count).length = count := by
  simp [places]

@[simp] theorem places_zero : places head 0 = [] := rfl

theorem getElem_places {k : Nat} (inside : k < (places head count).length) :
    (places head count)[k] = head + BitVec.ofNat width k := by
  simp [places]

theorem places_add :
    places head (count + more) =
      places head count ++ places (head + BitVec.ofNat width count) more := by
  unfold places
  rw [List.range_add, List.map_append, List.map_map]
  congr 1
  apply List.map_congr_left
  intro k _
  simp only [Function.comp_apply]
  rw [BitVec.add_assoc, ← BitVec.ofNat_add]

theorem places_succ :
    places head (count + 1) = places head count ++ [head + BitVec.ofNat width count] := by
  rw [places_add]
  simp [places]

theorem places_cons :
    places head (count + 1) = head :: places (head + BitVec.ofNat width 1) count := by
  rw [Nat.add_comm, places_add]
  simp [places]

theorem drop_places (few : more ≤ count) :
    (places head count).drop more =
      places (head + BitVec.ofNat width more) (count - more) := by
  have split : count = more + (count - more) := by omega
  rw [split, places_add, List.drop_left' length_places, Nat.add_sub_cancel_left]

theorem take_places (few : more ≤ count) : (places head count).take more = places head more := by
  have split : count = more + (count - more) := by omega
  rw [split, places_add, List.take_left' length_places]

theorem nodup_places (room : count ≤ 2 ^ width) : (places head count).Nodup := by
  unfold places
  apply List.Nodup.map_on _ List.nodup_range
  intro first inFirst second inSecond same
  rw [List.mem_range] at inFirst inSecond
  have values := congrArg BitVec.toNat (add_left_cancel same)
  rw [BitVec.toNat_ofNat, BitVec.toNat_ofNat, Nat.mod_eq_of_lt (by omega),
    Nat.mod_eq_of_lt (by omega)] at values
  exact values

theorem next_notMem (room : count < 2 ^ width) :
    head + BitVec.ofNat width count ∉ places head count := by
  have distinct : (places head (count + 1)).Nodup := nodup_places room
  rw [places_succ, List.nodup_append] at distinct
  intro inside
  exact distinct.2.2 _ inside _ (List.mem_singleton_self _) rfl

theorem map_update_places {Entry : Type*} {held : BitVec width → Entry} {place : BitVec width}
    {entry : Entry} {list : List (BitVec width)} (other : place ∉ list) :
    list.map (Function.update held place entry) = list.map held := by
  apply List.map_congr_left
  intro index inside
  apply Function.update_of_ne
  intro same
  exact other (same ▸ inside)

theorem map_places_push {Entry : Type*} {held : BitVec width → Entry} {entry : Entry}
    (room : count < 2 ^ width) :
    (places head (count + 1)).map
        (Function.update held (head + BitVec.ofNat width count) entry) =
      (places head count).map held ++ [entry] := by
  rw [places_succ, List.map_append, map_update_places (next_notMem room)]
  simp

end MuirFpga.Sync
