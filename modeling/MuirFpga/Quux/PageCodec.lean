import MuirFpga.Quux.WalkSteps
import MuirFpga.Sync.BitQueue
import Mathlib.Tactic.SplitIfs

/-!
# The bytes of a page

A page is 1024 words of main memory and four or five blocks of the disk. Packed, a word is five
bytes, and in the 4-byte mode the low four under the tag 005; both go through memory and the
blocks in order, a word's lowest byte first. What the walk moves is that, either way.
-/

namespace MuirFpga.Quux

open Sync (Holds bits holds_zero)

/-- A disk: a block's words. -/
abbrev Disk := BitVec 28 → BitVec 8 → BitVec 32

/-- A block of the page that starts at a block. -/
def pageBlock (base : BitVec 29) (p : Nat) : BitVec 28 :=
  (base + BitVec.ofNat 29 p).extractLsb' 0 28

/-- A byte of the blocks from a page's first on. -/
def diskByte (disk : Disk) (base : BitVec 29) (j : Nat) : BitVec 8 :=
  (disk (pageBlock base (j / 1024)) (BitVec.ofNat 8 (j / 4 % 256))).extractLsb' (8 * (j % 4)) 8

/-- A byte of memory's words, as many of each as the mode moves. -/
def memByte (four : Bool) (word : Nat → BitVec 40) (j : Nat) : BitVec 8 :=
  if four then (word (j / 4)).extractLsb' (8 * (j % 4)) 8
  else (word (j / 5)).extractLsb' (8 * (j % 5)) 8

/-- Four bytes as a word of a block. -/
def word32 (byte : Nat → BitVec 8) (q : Nat) : BitVec 32 :=
  byte (4 * q + 3) ++ byte (4 * q + 2) ++ byte (4 * q + 1) ++ byte (4 * q)

/-- Five bytes as a word of memory. -/
def word40 (byte : Nat → BitVec 8) (n : Nat) : BitVec 40 :=
  byte (5 * n + 4) ++ byte (5 * n + 3) ++ byte (5 * n + 2) ++ byte (5 * n + 1) ++ byte (5 * n)

/-- The word of memory a page's bytes are. -/
def memWord (four : Bool) (byte : Nat → BitVec 8) (n : Nat) : BitVec 40 :=
  if four then 5#8 ++ word32 byte n else word40 byte n

section Bytes

variable {byte : Nat → BitVec 8} {q n t : Nat}

theorem word32_bit (inside : t < 32) : (word32 byte q).getLsbD t = bits byte (32 * q + t) := by
  unfold word32 bits
  rw [BitVec.getLsbD_append, BitVec.getLsbD_append, BitVec.getLsbD_append]
  rw [show (32 * q + t) / 8 = 4 * q + t / 8 by omega, show (32 * q + t) % 8 = t % 8 by omega]
  rcases show t / 8 = 0 ∨ t / 8 = 1 ∨ t / 8 = 2 ∨ t / 8 = 3 by omega with place | place | place | place
  · simp [show t < 8 by omega, place, show t % 8 = t by omega]
  · simp [show ¬ t < 8 by omega, show t - 8 < 8 by omega, place, show t % 8 = t - 8 by omega]
  · simp [show ¬ t < 8 by omega, show ¬ t - 8 < 8 by omega, show t - 8 - 8 < 8 by omega, place,
      show t % 8 = t - 8 - 8 by omega]
  · simp [show ¬ t < 8 by omega, show ¬ t - 8 < 8 by omega, show ¬ t - 8 - 8 < 8 by omega, place,
      show t % 8 = t - 8 - 8 - 8 by omega]

theorem word40_bit (inside : t < 40) : (word40 byte n).getLsbD t = bits byte (40 * n + t) := by
  unfold word40 bits
  rw [BitVec.getLsbD_append, BitVec.getLsbD_append, BitVec.getLsbD_append, BitVec.getLsbD_append]
  rw [show (40 * n + t) / 8 = 5 * n + t / 8 by omega, show (40 * n + t) % 8 = t % 8 by omega]
  rcases show t / 8 = 0 ∨ t / 8 = 1 ∨ t / 8 = 2 ∨ t / 8 = 3 ∨ t / 8 = 4 by omega with
    place | place | place | place | place
  · simp [show t < 8 by omega, place, show t % 8 = t by omega]
  · simp [show ¬ t < 8 by omega, show t - 8 < 8 by omega, place, show t % 8 = t - 8 by omega]
  · simp [show ¬ t < 8 by omega, show ¬ t - 8 < 8 by omega, show t - 8 - 8 < 8 by omega, place,
      show t % 8 = t - 8 - 8 by omega]
  · simp [show ¬ t < 8 by omega, show ¬ t - 8 < 8 by omega, show ¬ t - 8 - 8 < 8 by omega,
      show t - 8 - 8 - 8 < 8 by omega, place, show t % 8 = t - 8 - 8 - 8 by omega]
  · simp [show ¬ t < 8 by omega, show ¬ t - 8 < 8 by omega, show ¬ t - 8 - 8 < 8 by omega,
      show ¬ t - 8 - 8 - 8 < 8 by omega, place, show t % 8 = t - 8 - 8 - 8 - 8 by omega]

theorem disk_bit {disk : Disk} {base : BitVec 29} (inside : t < 32) :
    bits (diskByte disk base) (32 * q + t) =
      (disk (pageBlock base (q / 256)) (BitVec.ofNat 8 (q % 256))).getLsbD t := by
  unfold bits diskByte
  rw [show (32 * q + t) / 8 / 1024 = q / 256 by omega,
    show (32 * q + t) / 8 / 4 % 256 = q % 256 by omega, BitVec.getLsbD_extractLsb']
  rw [show 8 * ((32 * q + t) / 8 % 4) + (32 * q + t) % 8 = t by omega]
  simp [show (32 * q + t) % 8 < 8 by omega]

theorem packed_bit {word : Nat → BitVec 40} (inside : t < 40) :
    bits (memByte false word) (40 * n + t) = (word n).getLsbD t := by
  unfold bits memByte
  rw [if_neg Bool.false_ne_true, BitVec.getLsbD_extractLsb',
    show (40 * n + t) / 8 / 5 = n by omega,
    show 8 * ((40 * n + t) / 8 % 5) + (40 * n + t) % 8 = t by omega]
  simp [show (40 * n + t) % 8 < 8 by omega]

theorem low_bit {word : Nat → BitVec 40} (inside : t < 32) :
    bits (memByte true word) (32 * n + t) = (word n).getLsbD t := by
  unfold bits memByte
  rw [if_pos rfl, BitVec.getLsbD_extractLsb', show (32 * n + t) / 8 / 4 = n by omega,
    show 8 * ((32 * n + t) / 8 % 4) + (32 * n + t) % 8 = t by omega]
  simp [show (32 * n + t) % 8 < 8 by omega]

theorem word32_byte {r : Nat} (inside : r < 4) :
    (word32 byte q).extractLsb' (8 * r) 8 = byte (4 * q + r) := by
  apply BitVec.eq_of_getLsbD_eq
  intro t below
  rw [BitVec.getLsbD_extractLsb', word32_bit (by omega)]
  unfold bits
  rw [show (32 * q + (8 * r + t)) / 8 = 4 * q + r by omega,
    show (32 * q + (8 * r + t)) % 8 = t by omega]
  simp [below]

theorem memWord_congr {four : Bool} {other : Nat → BitVec 8}
    (same : ∀ j, j < (if four then 4 else 5) * (n + 1) → byte j = other j) :
    memWord four byte n = memWord four other n := by
  unfold memWord
  cases four with
  | false =>
    rw [if_neg Bool.false_ne_true] at same
    rw [if_neg Bool.false_ne_true, if_neg Bool.false_ne_true]
    unfold word40
    rw [same _ (by omega), same _ (by omega), same _ (by omega), same _ (by omega),
      same _ (by omega)]
  | true =>
    rw [if_pos rfl] at same
    rw [if_pos rfl, if_pos rfl]
    unfold word32
    rw [same _ (by omega), same _ (by omega), same _ (by omega), same _ (by omega)]

/-- What a word of memory comes back as. -/
def restored (four : Bool) (word : BitVec 40) : BitVec 40 :=
  if four then 5#8 ++ word.extractLsb' 0 32 else word

theorem memWord_memByte (four : Bool) (word : Nat → BitVec 40) (n : Nat) :
    memWord four (memByte four word) n = restored four (word n) := by
  cases four with
  | false =>
    change word40 (memByte false word) n = word n
    apply BitVec.eq_of_getLsbD_eq
    intro t inside
    rw [word40_bit inside, packed_bit inside]
  | true =>
    change 5#8 ++ word32 (memByte true word) n = 5#8 ++ (word n).extractLsb' 0 32
    have low : word32 (memByte true word) n = (word n).extractLsb' 0 32 := by
      apply BitVec.eq_of_getLsbD_eq
      intro t inside
      rw [word32_bit inside, low_bit inside, BitVec.getLsbD_extractLsb']
      simp [inside]
    rw [low]

end Bytes

end MuirFpga.Quux
