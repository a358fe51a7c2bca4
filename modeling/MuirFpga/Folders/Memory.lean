import MuirFpga.Folders.Commands

/-!
# Main memory

Main memory as the device has it, packed: word `k` is the five bytes from `5k`, its 32 bits lowest
first and its tag last. A run of words is moved by aligned 32-bit accesses where all four bytes are
the run's and by single bytes at its ends. A buffer is on a line, of at most 65,536 bytes, inside
main memory.
-/

namespace MuirFpga.Folders

open MuirFpga.Posix

/-- Main memory as the device sees it: `words` words, and their bytes. -/
structure Memory where
  words : Nat
  b : Nat → UInt8

/-- The bytes of a word, the lowest first. -/
def bytesOfWord (w : Word) : Bytes :=
  [0, 8, 16, 24].map fun place => UInt8.ofBitVec (w.extractLsb' place 8)

/-- The word of four bytes, the first lowest. -/
def wordOfBytes (b0 b1 b2 b3 : UInt8) : Word :=
  b3.toBitVec ++ b2.toBitVec ++ b1.toBitVec ++ b0.toBitVec

/-- The 32 bits of word `k`. -/
def Memory.word (m : Memory) (k : Nat) : Word :=
  wordOfBytes (m.b (5 * k)) (m.b (5 * k + 1)) (m.b (5 * k + 2)) (m.b (5 * k + 3))

/-- `rd_run`: `n` words from word `k`. -/
def rdRun (m : Memory) (k n : Nat) : List Word := (List.range n).map fun i => m.word (k + i)

/-- A buffer: its first word and its bytes. -/
structure Buf where
  at_ : Nat
  len : Nat

def maxBuffer : Nat := 65536

/-- `qfd_mem_address`. -/
def memAddress (addr : Word) : Nat := (addr &&& 0x0FFFFFFF#32).toNat

def buffer (m : Memory) (addr len : Word) : Option Buf :=
  let at_ := memAddress addr
  if at_ % 8 ≠ 0 ∨ maxBuffer < len.toNat ∨ m.words < at_ + (len.toNat + 3) / 4 then none
  else some ⟨at_, len.toNat⟩

/-- Byte `k` of a buffer is `<8(k mod 4)+7 : 8(k mod 4)>` of word `k/4`. -/
def bytesOf (m : Memory) (b : Buf) : Bytes :=
  ((rdRun m b.at_ ((b.len + 3) / 4)).flatMap bytesOfWord).take b.len

theorem length_bytesOf (m : Memory) (b : Buf) : (bytesOf m b).length = b.len := by
  have words : ((rdRun m b.at_ ((b.len + 3) / 4)).flatMap bytesOfWord).length =
      (b.len + 3) / 4 * 4 := by
    simp [rdRun, bytesOfWord, List.length_flatMap, Function.comp_def]
  unfold bytesOf
  rw [List.length_take, words]
  omega

end MuirFpga.Folders
