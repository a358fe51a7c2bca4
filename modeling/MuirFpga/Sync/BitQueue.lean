import Mathlib.Data.BitVec

/-!
# A queue of bits in a shift register

Words of one width go into a shift register and words of another come out of it. The register holds the
next bits of a stream, the first in its lowest place, and zeros above them.
-/

namespace MuirFpga.Sync

variable {stream other : Nat → Bool} {place count width size : Nat} {queue : BitVec width}

/-- The register holds so many bits of the stream from a place on. -/
def Holds (stream : Nat → Bool) (place count : Nat) (queue : BitVec width) : Prop :=
  ∀ j, queue.getLsbD j = (decide (j < count) && stream (place + j))

/-- The bits of a stream of bytes, a byte's lowest first. -/
def bits (byte : Nat → BitVec 8) : Nat → Bool := fun j => (byte (j / 8)).getLsbD (j % 8)

theorem holds_zero : Holds stream place 0 (0 : BitVec width) := by
  intro j
  simp

theorem Holds.congr (holds : Holds stream place count queue)
    (same : ∀ j, j < count → other (place + j) = stream (place + j)) :
    Holds other place count queue := by
  intro j
  rw [holds j]
  by_cases inside : j < count
  · simp [inside, same j inside]
  · simp [inside]

theorem Holds.push (holds : Holds stream place count queue) (word : BitVec size)
    (next : ∀ t, t < size → word.getLsbD t = stream (place + count + t))
    (room : count + size ≤ width) :
    Holds stream place (count + size) (queue ||| (word.setWidth width <<< count)) := by
  intro j
  rw [BitVec.getLsbD_or, holds j, BitVec.getLsbD_shiftLeft, BitVec.getLsbD_setWidth]
  by_cases low : j < count
  · simp [low, show j < count + size by omega]
  · by_cases inside : j < count + size
    · rw [next (j - count) (by omega)]
      have here : place + count + (j - count) = place + j := by omega
      simp [low, inside, here, show j < width by omega, show j - count < width by omega]
    · have above : word.getLsbD (j - count) = false :=
        BitVec.getLsbD_of_ge _ _ (by omega)
      simp [low, inside, above]

theorem Holds.front (holds : Holds stream place count queue) (enough : size ≤ count) {t : Nat}
    (inside : t < size) : (queue.extractLsb' 0 size).getLsbD t = stream (place + t) := by
  rw [BitVec.getLsbD_extractLsb', Nat.zero_add, holds t]
  simp [inside, show t < count by omega]

theorem Holds.pop (holds : Holds stream place count queue) (enough : size ≤ count) :
    Holds stream (place + size) (count - size) (queue >>> size) := by
  intro j
  rw [BitVec.getLsbD_ushiftRight, holds (size + j), Nat.add_assoc]
  by_cases inside : size + j < count
  · simp [inside, show j < count - size by omega]
  · simp [inside, show ¬ j < count - size by omega]

end MuirFpga.Sync
