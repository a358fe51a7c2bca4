import Mathlib.Data.Nat.Basic

/-!
# Files as bytes

A file is a length and a byte at every place before it. A write lands some first part of its bytes:
the file grows to hold them and a gap it leaves reads as zeros. The rules say what a landing leaves
as it was.
-/

namespace MuirFpga.Files

/-- A byte of a file. -/
abbrev Byte := BitVec 8

/-- A file's length and its bytes. -/
structure Image where
  len : Nat
  byte : Nat → Byte

namespace Image

variable {f g : Image} {off n i : Nat} {data : Nat → Byte}

/-- The first `n` bytes of some data landed at a place. -/
def land (off n : Nat) (data : Nat → Byte) (f : Image) : Image where
  len := if n = 0 then f.len else max f.len (off + n)
  byte i := if off ≤ i ∧ i < off + n then data (i - off) else if i < f.len then f.byte i else 0

theorem le_len_land : f.len ≤ (f.land off n data).len := by
  unfold land
  dsimp only
  split_ifs
  · exact Nat.le_refl _
  · exact Nat.le_max_left _ _

theorem len_land (some : 0 < n) : (f.land off n data).len = max f.len (off + n) := by
  unfold land
  exact if_neg (by omega)

theorem len_land_inside (inside : off + n ≤ f.len) : (f.land off n data).len = f.len := by
  unfold land
  dsimp only
  split_ifs
  · rfl
  · exact Nat.max_eq_left inside

theorem byte_land (after : off ≤ i) (before : i < off + n) :
    (f.land off n data).byte i = data (i - off) := by
  unfold land
  exact if_pos ⟨after, before⟩

theorem byte_land_beside (inside : i < f.len) (beside : i < off ∨ off + n ≤ i) :
    (f.land off n data).byte i = f.byte i := by
  unfold land
  dsimp only
  rw [if_neg (by omega), if_pos inside]

end Image

end MuirFpga.Files
