import Mathlib.Data.List.Basic

/-!
# A file's bytes

A file's contents as the list of its bytes, and some bytes written at a place of it. Writing goes
over what is there and on past the end. The rules are the ones a loop of short writes needs: two
writes one behind the other are one, what the length becomes, and which writes change nothing.
-/

namespace MuirFpga.Posix

variable {α : Type} {off : Nat} {file : List α}

/-- The contents with some data written at a place inside them or at their end. -/
def land (off : Nat) (data file : List α) : List α :=
  file.take off ++ data ++ file.drop (off + data.length)

@[simp] theorem land_nil : land off [] file = file := by
  unfold land
  rw [List.append_nil, List.length_nil, Nat.add_zero, List.take_append_drop]

theorem length_land (data : List α) (inside : off ≤ file.length) :
    (land off data file).length = max file.length (off + data.length) := by
  unfold land
  rw [List.length_append, List.length_append, List.length_take, List.length_drop]
  omega

theorem drop_take_append (inside : off ≤ file.length) (n : Nat) (rest : List α) :
    (file.take off ++ rest).drop (off + n) = rest.drop n := by
  have front : (file.take off).length = off := by
    rw [List.length_take, Nat.min_eq_left inside]
  rw [← List.drop_drop, List.drop_left' front]

theorem land_land (data more : List α) (inside : off ≤ file.length) :
    land (off + data.length) more (land off data file) = land off (data ++ more) file := by
  have front : (file.take off ++ data).length = off + data.length := by
    rw [List.length_append, List.length_take, Nat.min_eq_left inside]
  have behind : (file.take off ++ data ++ file.drop (off + data.length)).drop
      (off + data.length + more.length) = file.drop (off + (data ++ more).length) := by
    rw [← List.drop_drop, List.drop_left' front, List.drop_drop, List.length_append, Nat.add_assoc]
  unfold land
  rw [behind, List.take_left' front, List.append_assoc (file.take off)]

theorem land_eq_iff (data : List α) (inside : off ≤ file.length) :
    land off data file = file ↔ data <+: file.drop off := by
  unfold land
  rw [List.append_assoc]
  constructor
  · intro same
    have back := drop_take_append inside 0 (data ++ file.drop (off + data.length))
    rw [same] at back
    exact ⟨_, back.symm⟩
  · rintro ⟨rest, there⟩
    rw [← List.drop_drop, ← there, List.drop_left, there, List.take_append_drop]

end MuirFpga.Posix
