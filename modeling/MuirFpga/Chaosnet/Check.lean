import MuirFpga.Chaosnet.Card

/-!
# The check of a frame read

The 9401 run over a frame with its check word comes to nothing exactly where the check word is right. The
register shifts a tap into its lowest bit whenever it is not only shifted, so nothing but a register whose
bits are the word's is run down to nothing by the word.
-/

namespace MuirFpga.Chaosnet

theorem checkBit_getLsbD (r : Word) (bit : Bool) (k : Nat) : (checkBit r bit).getLsbD k =
    ((k < 16 && 0 < k && r.getLsbD (k - 1)) ^^ ((bit ^^ r.getLsbD 15) && (k = 0 || k = 2 || k = 15))) := by
  unfold checkBit
  by_cases inside : k < 16
  · have taps : (1#16 ||| 1#16 <<< 2 ||| 1#16 <<< 15).getLsbD k = (k = 0 || k = 2 || k = 15) := by
      have all : ∀ k : Fin 16, (1#16 ||| 1#16 <<< 2 ||| 1#16 <<< 15).getLsbD k.val =
          (k.val = 0 || k.val = 2 || k.val = 15) := by decide
      exact all ⟨k, inside⟩
    have shifted : (r <<< 1).getLsbD k = (decide (0 < k) && r.getLsbD (k - 1)) := by
      cases k with
      | zero => simp
      | succ k =>
        rw [BitVec.getLsbD_shiftLeft, decide_eq_true inside, decide_eq_false (by omega)]
        rfl
    cases bit ^^ r.getLsbD 15 with
    | true =>
      show (r <<< 1 ^^^ _).getLsbD k = _
      rw [BitVec.getLsbD_xor, shifted, taps, decide_eq_true inside, Bool.true_and, Bool.true_and]
    | false =>
      show (r <<< 1).getLsbD k = _
      rw [shifted, decide_eq_true inside, Bool.true_and, Bool.false_and, Bool.xor_false]
  · rw [BitVec.getLsbD_of_ge _ _ (by omega), decide_eq_false inside]
    simp
    omega

theorem checkBit_lowest (r : Word) (bit : Bool) : (checkBit r bit).getLsbD 0 = (bit ^^ r.getLsbD 15) := by
  rw [checkBit_getLsbD]
  exact (Bool.false_xor _).trans (Bool.and_true _)

theorem foldl_checkBit_eq_zero (bits : List Bool) (r : Word) (short : bits.length ≤ 16) :
    bits.foldl checkBit r = 0 ↔ ∀ k, k < 16 → r.getLsbD (15 - k) = bits.getD k false := by
  induction bits generalizing r with
  | nil =>
    constructor
    · rintro rfl k -
      exact BitVec.getLsbD_zero
    · intro clear
      apply BitVec.eq_of_getLsbD_eq
      intro k inside
      have bit := clear (15 - k) (by omega)
      rw [show 15 - (15 - k) = k by omega] at bit
      rw [List.foldl_nil, bit]
      exact BitVec.getLsbD_zero.symm
  | cons bit bits ih =>
    rw [List.length_cons] at short
    rw [List.foldl_cons, ih _ (by omega)]
    constructor
    · intro below k inside
      have same : r.getLsbD 15 = bit := by
        have lowest := below 15 (by decide)
        rw [List.getD_eq_default _ _ (by omega), Nat.sub_self, checkBit_lowest] at lowest
        exact (bne_eq_false_iff_eq.mp lowest).symm
      cases k with
      | zero => exact same
      | succ k =>
        have next := below k (by omega)
        rw [checkBit_getLsbD, same, Bool.xor_self, Bool.false_and, Bool.xor_false, decide_eq_true (by omega),
          decide_eq_true (by omega)] at next
        rw [show 15 - (k + 1) = 15 - k - 1 by omega]
        exact next
    · intro all k inside
      have same : r.getLsbD 15 = bit := all 0 (by decide)
      rw [checkBit_getLsbD, same, Bool.xor_self, Bool.false_and, Bool.xor_false]
      by_cases last : k = 15
      · rw [last, List.getD_eq_default _ _ (by omega)]
        rfl
      · have next := all (k + 1) (by omega)
        rw [show 15 - (k + 1) = 15 - k - 1 by omega] at next
        rw [decide_eq_true (by omega), decide_eq_true (by omega), Bool.true_and, Bool.true_and, next]
        rfl

theorem crcWord_eq_zero (r w : Word) : crcWord r w = 0 ↔ w = r := by
  have bits : crcWord r w = ((List.range 16).map fun k => w.getLsbD (15 - k)).foldl checkBit r := by
    rw [List.foldl_map]
    rfl
  rw [bits, foldl_checkBit_eq_zero _ _ (by simp)]
  constructor
  · intro all
    apply BitVec.eq_of_getLsbD_eq
    intro k inside
    have bit := all (15 - k) (by omega)
    rw [List.getD_eq_getElem _ _ (by simp; omega), List.getElem_map, List.getElem_range,
      show 15 - (15 - k) = k by omega] at bit
    exact bit.symm
  · rintro rfl k inside
    rw [List.getD_eq_getElem _ _ (by simp; omega), List.getElem_map, List.getElem_range]

/-- A word after its packet checks just when it is the check word. -/
theorem check_concat (words : List Word) (w : Word) : (words ++ [w]).foldl crcWord 0 = 0 ↔ w = checkWord words := by
  rw [List.foldl_append]
  exact crcWord_eq_zero _ _

end MuirFpga.Chaosnet
