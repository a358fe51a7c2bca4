import Mathlib.Data.BitVec
import Mathlib.Tactic.Ring

/-!
# Indexes that wrap

Machine words used as indexes into a ring are compared by how far each is ahead of a base. The
rules here move the base, and put two distances together, where no distance passes the ring.
-/

namespace MuirFpga.Sync

variable {width : Nat} {base mid far near : BitVec width}

theorem toNat_sub_of_moved (order : mid - base ≤ far - base) :
    (far - mid).toNat = (far - base).toNat - (mid - base).toNat := by
  have split : far - mid = (far - base) - (mid - base) := by ring
  rw [split]
  exact BitVec.toNat_sub_of_le order

theorem toNat_sub_of_joined (order : mid - base ≤ far - base) (within : near - mid ≤ far - mid) :
    (near - base).toNat = (near - mid).toNat + (mid - base).toNat := by
  have split : near - base = (near - mid) + (mid - base) := by ring
  have left := toNat_sub_of_moved order
  have most : (near - mid).toNat ≤ (far - mid).toNat := within
  have least : (mid - base).toNat ≤ (far - base).toNat := order
  have bound := (far - base).isLt
  rw [split]
  exact BitVec.toNat_add_of_lt (by omega)

theorem toNat_sub_of_succ (before : (mid - base).toNat < (far - base).toNat) :
    (mid + BitVec.ofNat width 1 - base).toNat = (mid - base).toNat + 1 := by
  have split : mid + BitVec.ofNat width 1 - base = (mid - base) + BitVec.ofNat width 1 := by ring
  have bound := (far - base).isLt
  have positive : 1 < 2 ^ width := by omega
  have one : (BitVec.ofNat width 1).toNat = 1 := by
    rw [BitVec.toNat_ofNat]
    exact Nat.mod_eq_of_lt positive
  rw [split, BitVec.toNat_add_of_lt (by omega), one]

theorem eq_of_toNat_sub (same : (mid - base).toNat = (far - base).toNat) : mid = far := by
  have subs : mid - base = far - base := BitVec.eq_of_toNat_eq same
  have back : ∀ index : BitVec width, index = (index - base) + base := by
    intro index
    ring
  rw [back mid, subs, ← back far]

theorem size_toNat {logWidth : Nat} {log2 : BitVec logWidth} (small : log2.toNat < width) :
    (BitVec.ofNat width 1 <<< log2).toNat = 2 ^ log2.toNat := by
  have bound : 2 ^ log2.toNat < 2 ^ width := Nat.pow_lt_pow_right (by decide) small
  have positive : 1 < 2 ^ width := Nat.one_lt_two_pow (by omega)
  rw [BitVec.shiftLeft_eq', BitVec.toNat_shiftLeft, Nat.shiftLeft_eq, BitVec.toNat_ofNat,
    Nat.mod_eq_of_lt positive, Nat.one_mul]
  exact Nat.mod_eq_of_lt bound

end MuirFpga.Sync
