import MuirFpga.Arith.Feedback
import MuirFpga.Chaosnet.Check

/-!
# What the check of a packet tells

`chaos_check_word` in the machine's 32-bit words and `crc_word` as the board steps it are one division by
`x^16 + x^15 + x^2 + 1`. Words and their check come to nothing, and no burst of errors that fits the
register leaves them at nothing.
-/

namespace MuirFpga.Chaosnet

open Arith

/-- `CRC_TAPS`. -/
def crcTaps : Word := 0x8005#16

/-- A step of `crc_word`. -/
def crcStep (q : Word) (bit : Bool) : Word :=
  let shifted := q.extractLsb' 0 15 ++ 0#1
  if bit ^^ q.getLsbD 15 then shifted ^^^ crcTaps else shifted

/-- `crc_word`, its sixteen steps. -/
def crcWordSteps (crcIn crcW : Word) : Word :=
  (List.range 16).foldl (fun q k => crcStep q (crcW.getLsbD (15 - k))) crcIn

/-- The body of `chaos_check_word`'s inner loop, in a `uint32_t` and two `int`s. -/
def checkLoopBit (r : BitVec 32) (w : Word) (k : Nat) : BitVec 32 :=
  let d := w.setWidth 32 >>> k &&& 1#32
  let fb := d ^^^ (r >>> 15 &&& 1#32)
  let next := r <<< 1 &&& 0xffff#32
  if fb ≠ 0#32 then next ^^^ (1#32 ||| 1#32 <<< 2 ||| 1#32 <<< 15) else next

/-- `chaos_check_word`. -/
def chaosCheckWord (words : List Word) : Word :=
  (words.foldl (fun r w => (List.range 16).foldl (fun r k => checkLoopBit r w (15 - k)) r) 0#32).setWidth 16

/-- The divider of both. -/
def divider : Feedback 16 := .up crcTaps rfl

/-- The bits of words as they are sent. -/
def sent (words : List Word) : List Bool :=
  words.flatMap fun w => (List.range 16).map fun k => w.getLsbD (15 - k)

theorem checkBit_eq (r : Word) (bit : Bool) : checkBit r bit = divider.step r bit := by
  show (if bit ^^ r.getLsbD 15 then r <<< 1 ^^^ _ else r <<< 1) = r <<< 1 ^^^ if bit ^^ r.getLsbD 15 then crcTaps else 0#16
  cases bit ^^ r.getLsbD 15 with
  | true => rfl
  | false => exact BitVec.xor_zero.symm

theorem crcStep_eq (q : Word) (bit : Bool) : crcStep q bit = checkBit q bit := by
  have shifted : q.extractLsb' 0 15 ++ 0#1 = q <<< 1 := by
    apply BitVec.eq_of_getLsbD_eq
    intro k inside
    rw [BitVec.getLsbD_append, BitVec.getLsbD_shiftLeft, decide_eq_true inside]
    cases k with
    | zero => rfl
    | succ k =>
      rw [decide_eq_false (show ¬ k + 1 < 1 by omega)]
      simp [BitVec.getLsbD_extractLsb']
      omega
  unfold crcStep checkBit
  rw [shifted]
  rfl

theorem crcWordSteps_eq : crcWordSteps = crcWord := by
  funext crcIn crcW
  unfold crcWordSteps crcWord
  simp only [crcStep_eq]

theorem crcWord_run (r w : Word) : crcWord r w = divider.run r ((List.range 16).map fun k => w.getLsbD (15 - k)) := by
  unfold crcWord Feedback.run
  rw [List.foldl_map]
  simp only [checkBit_eq]

theorem foldl_crcWord_run (words : List Word) (r : Word) : words.foldl crcWord r = divider.run r (sent words) := by
  induction words generalizing r with
  | nil => rfl
  | cons w words ih =>
    show words.foldl crcWord (crcWord r w) = divider.run r (_ ++ sent words)
    rw [Feedback.run_append, ih, crcWord_run]

theorem checkLoopBit_eq (r w : Word) {k : Nat} (inside : k < 16) :
    checkLoopBit (r.setWidth 32) w k = (checkBit r (w.getLsbD k)).setWidth 32 := by
  have low (v : BitVec 32) : v &&& 1#32 = (BitVec.ofBool (v.getLsbD 0)).setWidth 32 :=
    BitVec.and_one_eq_setWidth_ofBool_getLsbD
  have out : (r.setWidth 32 >>> 15).getLsbD 0 = r.getLsbD 15 := by
    rw [BitVec.getLsbD_ushiftRight, BitVec.getLsbD_setWidth]
    rfl
  have come : (w.setWidth 32 >>> k).getLsbD 0 = w.getLsbD k := by
    rw [BitVec.getLsbD_ushiftRight, BitVec.getLsbD_setWidth, decide_eq_true (by omega), Bool.true_and, Nat.add_zero]
  have next : r.setWidth 32 <<< 1 &&& 0xffff#32 = (r <<< 1).setWidth 32 := by
    apply BitVec.eq_of_toNat_eq
    have small := r.isLt
    simp only [BitVec.toNat_and, BitVec.toNat_shiftLeft, BitVec.toNat_setWidth, BitVec.toNat_ofNat]
    rw [show 65535 % 2 ^ 32 = 2 ^ 16 - 1 from rfl, Nat.and_two_pow_sub_one_eq_mod, Nat.shiftLeft_eq, Nat.shiftLeft_eq]
    omega
  have taps : (1#32 ||| 1#32 <<< 2 ||| 1#32 <<< 15) = (1#16 ||| 1#16 <<< 2 ||| 1#16 <<< 15).setWidth 32 := by decide
  unfold checkLoopBit checkBit
  rw [low, low, out, come, next, taps]
  cases w.getLsbD k <;> cases r.getLsbD 15
  · rfl
  · exact BitVec.setWidth_xor.symm
  · exact BitVec.setWidth_xor.symm
  · rfl

theorem chaosCheckWord_eq (words : List Word) : chaosCheckWord words = words.foldl crcWord 0#16 := by
  have inner (w : Word) (ks : List Nat) (r : Word) :
      ks.foldl (fun r k => checkLoopBit r w (15 - k)) (r.setWidth 32) =
        (ks.foldl (fun r k => checkBit r (w.getLsbD (15 - k))) r).setWidth 32 := by
    induction ks generalizing r with
    | nil => rfl
    | cons k ks ih =>
      rw [List.foldl_cons, List.foldl_cons, checkLoopBit_eq r w (by omega)]
      exact ih _
  have outer (r : Word) :
      words.foldl (fun r w => (List.range 16).foldl (fun r k => checkLoopBit r w (15 - k)) r) (r.setWidth 32) =
        (words.foldl crcWord r).setWidth 32 := by
    induction words generalizing r with
    | nil => rfl
    | cons w words ih =>
      rw [List.foldl_cons, List.foldl_cons, inner]
      exact ih _
  unfold chaosCheckWord
  rw [show (0#32) = (0#16).setWidth 32 from rfl, outer]
  apply BitVec.eq_of_toNat_eq
  have small := (words.foldl crcWord 0#16).isLt
  simp only [BitVec.toNat_setWidth]
  omega

/-- The check word is the divider run over the bits sent. -/
theorem chaosCheckWord_run (words : List Word) : chaosCheckWord words = divider.run 0#16 (sent words) := by
  rw [chaosCheckWord_eq, foldl_crcWord_run]

/-- The bits sent tell the words. -/
theorem sent_injective {words changed : List Word} (same : sent changed = sent words)
    (length : changed.length = words.length) : changed = words := by
  induction words generalizing changed with
  | nil => exact List.length_eq_zero_iff.mp length
  | cons w words ih =>
    cases changed with
    | nil => exact absurd length.symm (Nat.succ_ne_zero _)
    | cons v changed =>
      obtain ⟨first, rest⟩ := List.append_inj same (by rw [List.length_map, List.length_map])
      have word : v = w := by
        apply BitVec.eq_of_getLsbD_eq
        intro k inside
        have bit := List.map_inj_left.mp first (15 - k) (List.mem_range.mpr (by omega))
        rw [show 15 - (15 - k) = k by omega] at bit
        exact bit
      rw [word, ih rest (Nat.succ.inj length)]

theorem length_sent (words : List Word) : (sent words).length = 16 * words.length := by
  unfold sent
  rw [List.length_flatMap]
  simp [Nat.mul_comm]

/-- The two sides' checks are one; words with their check come to nothing; and where the words and their
check are changed within sixteen bits that follow one another as they are sent, they do not. -/
theorem check_detects_bursts (words : List Word) :
    chaosCheckWord words = words.foldl crcWordSteps 0#16 ∧
    chaosCheckWord (words ++ [chaosCheckWord words]) = 0#16 ∧
    ∀ (changed : List Word) (first : Nat), changed.length = words.length + 1 →
      changed ≠ words ++ [chaosCheckWord words] →
      (∀ n, n < first ∨ first + 16 ≤ n →
        (sent changed)[n]? = (sent (words ++ [chaosCheckWord words]))[n]?) →
      chaosCheckWord changed ≠ 0#16 := by
  have right : chaosCheckWord (words ++ [chaosCheckWord words]) = 0#16 := by
    rw [chaosCheckWord_eq]
    exact (check_concat _ _).mpr (chaosCheckWord_eq words)
  refine ⟨?_, right, fun changed first length differ outside none_ => ?_⟩
  · rw [crcWordSteps_eq]
    exact chaosCheckWord_eq words
  · have same : changed.length = (words ++ [chaosCheckWord words]).length := by
      rw [length, List.length_append, List.length_singleton]
    have near : Near (sent changed) (sent (words ++ [chaosCheckWord words])) first 16 :=
      ⟨by rw [length_sent, length_sent, same], outside⟩
    apply near.seen divider (by decide) le_rfl
    · exact fun alike => differ (sent_injective alike same)
    · rw [← chaosCheckWord_run, ← chaosCheckWord_run, none_, right]

end MuirFpga.Chaosnet
