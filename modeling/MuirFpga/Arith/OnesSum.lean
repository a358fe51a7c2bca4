import Mathlib.Data.BitVec
import Mathlib.Data.List.GetD

/-!
# Ones'-complement sums

Sums of big-endian 16-bit words with the carry brought round, a word put in a run of bytes, and what it adds
to the sum. A sum and its complement make a sum of all ones.
-/

namespace MuirFpga.Arith

abbrev Byte := BitVec 8

variable {l : List Byte} {at_ start stop v w s : Nat}

/-- The words of bytes added to a sum, an odd last byte the high one of a word. -/
def addWords (sum : Nat) : List Byte → Nat
  | high :: low :: rest => addWords (sum + (high.toNat * 256 + low.toNat)) rest
  | [high] => sum + high.toNat * 256
  | [] => sum

/-- A sum whose carries are brought round. -/
def endAround (sum : Nat) : Nat :=
  if sum > 65535 then endAround (sum % 65536 + sum / 65536) else sum
termination_by sum

/-- The big-endian word at a place. -/
def wordAt (l : List Byte) (at_ : Nat) : Nat := (l.getD at_ 0).toNat * 256 + (l.getD (at_ + 1) 0).toNat

/-- A big-endian word put at a place. -/
def putWord (l : List Byte) (at_ v : Nat) : List Byte :=
  (l.set at_ (BitVec.ofNat 8 (v / 256))).set (at_ + 1) (BitVec.ofNat 8 v)

/-- The bytes from a place up to another. -/
def slice (l : List Byte) (start stop : Nat) : List Byte := (l.drop start).take (stop - start)

theorem addWords_add (s t : Nat) (l : List Byte) : addWords (s + t) l = s + addWords t l := by
  induction t, l using addWords.induct with
  | case1 t high low rest ih =>
    unfold addWords
    rw [Nat.add_assoc, ih]
  | case2 t high =>
    unfold addWords
    exact Nat.add_assoc _ _ _
  | case3 t => rfl

theorem addWords_eq (s : Nat) (l : List Byte) : addWords s l = s + addWords 0 l := addWords_add s 0 l

theorem endAround_spec (s : Nat) :
    endAround s ≤ 65535 ∧ endAround s % 65535 = s % 65535 ∧ (endAround s = 0 ↔ s = 0) := by
  induction s using endAround.induct with
  | case1 s beyond ih =>
    unfold endAround
    rw [if_pos beyond]
    omega
  | case2 s fits =>
    unfold endAround
    rw [if_neg fits]
    omega

theorem endAround_top : endAround s = 65535 ↔ s % 65535 = 0 ∧ s ≠ 0 := by
  have spec := endAround_spec s
  omega

theorem endAround_complement (s : Nat) : endAround (s + (65535 - endAround s)) = 65535 := by
  have spec := endAround_spec s
  rw [endAround_top]
  omega

theorem endAround_ones (top : endAround s = 65535) : endAround (s + 65535) = 65535 := by
  rw [endAround_top] at top ⊢
  omega

@[simp] theorem length_putWord : (putWord l at_ v).length = l.length := by simp [putWord]

theorem getD_putWord {k : Nat} (before : k ≠ at_) (after : k ≠ at_ + 1) :
    (putWord l at_ v).getD k 0 = l.getD k 0 := by
  unfold putWord
  rw [List.getD_eq_getElem?_getD, List.getElem?_set_ne (Ne.symm after), List.getElem?_set_ne (Ne.symm before),
    List.getD_eq_getElem?_getD]

theorem wordAt_putWord_ne {k : Nat} (apart : k + 1 < at_ ∨ at_ + 1 < k) :
    wordAt (putWord l at_ v) k = wordAt l k := by
  unfold wordAt
  rw [getD_putWord (by omega) (by omega), getD_putWord (by omega) (by omega)]

theorem wordAt_putWord (room : at_ + 1 < l.length) (fits : v < 65536) : wordAt (putWord l at_ v) at_ = v := by
  unfold wordAt putWord
  rw [List.getD_eq_getElem?_getD, List.getElem?_set_ne (by omega), List.getElem?_set_self (by omega),
    List.getD_eq_getElem?_getD, List.getElem?_set_self (by simpa using room), Option.getD_some, Option.getD_some,
    BitVec.toNat_ofNat, BitVec.toNat_ofNat]
  omega

theorem putWord_self (room : at_ + 1 < l.length) (same : wordAt l at_ = v) : putWord l at_ v = l := by
  have before : at_ < l.length := Nat.lt_of_succ_lt room
  have high : BitVec.ofNat 8 (v / 256) = l[at_] := by
    apply BitVec.eq_of_toNat_eq
    rw [← same, wordAt, List.getD_eq_getElem l 0 before, List.getD_eq_getElem l 0 room, BitVec.toNat_ofNat]
    have bound := (l[at_]).isLt
    have boundLow := (l[at_ + 1]).isLt
    omega
  have low : BitVec.ofNat 8 v = l[at_ + 1] := by
    apply BitVec.eq_of_toNat_eq
    rw [← same, wordAt, List.getD_eq_getElem l 0 before, List.getD_eq_getElem l 0 room, BitVec.toNat_ofNat]
    have boundLow := (l[at_ + 1]).isLt
    omega
  unfold putWord
  rw [high, List.set_getElem_self, low, List.set_getElem_self]

theorem putWord_putWord : putWord (putWord l at_ v) at_ w = putWord l at_ w := by
  unfold putWord
  rw [List.set_comm _ _ (by omega : at_ + 1 ≠ at_), List.set_set, List.set_set]

theorem putWord_past (past : l.length ≤ at_) : putWord l at_ v = l := by
  unfold putWord
  rw [List.set_eq_of_length_le past, List.set_eq_of_length_le (Nat.le_succ_of_le past)]

theorem length_slice : (slice l start stop).length ≤ stop - start := by
  unfold slice
  rw [List.length_take]
  exact Nat.min_le_left _ _

theorem slice_putWord (from_ : start ≤ at_) :
    slice (putWord l at_ v) start stop = putWord (slice l start stop) (at_ - start) v := by
  unfold slice putWord
  rw [List.drop_set, if_neg (by omega), List.drop_set, if_neg (by omega), List.take_set, List.take_set,
    Nat.sub_add_comm from_]

theorem slice_putWord_after (order : start ≤ stop) (after : stop ≤ at_) :
    slice (putWord l at_ v) start stop = slice l start stop := by
  rw [slice_putWord (order.trans after), putWord_past]
  exact length_slice.trans (Nat.sub_le_sub_right after start)

theorem addWords_putWord (half : Nat) (room : 2 * half + 1 < l.length) (fits : v < 65536) :
    addWords 0 (putWord l (2 * half) v) = addWords 0 (putWord l (2 * half) 0) + v := by
  induction half generalizing l with
  | zero =>
    match l with
    | high :: low :: rest =>
      show addWords (0 + ((BitVec.ofNat 8 (v / 256)).toNat * 256 + (BitVec.ofNat 8 v).toNat)) rest =
        addWords (0 + ((BitVec.ofNat 8 (0 / 256)).toNat * 256 + (BitVec.ofNat 8 0).toNat)) rest + v
      rw [addWords_eq, addWords_eq (0 + ((BitVec.ofNat 8 (0 / 256)).toNat * 256 + (BitVec.ofNat 8 0).toNat))]
      simp only [BitVec.toNat_ofNat]
      omega
  | succ half ih =>
    match l with
    | high :: low :: rest =>
      have next := @ih rest (by
        rw [List.length_cons, List.length_cons] at room
        omega)
      show addWords (0 + (high.toNat * 256 + low.toNat)) (putWord rest (2 * half) v) =
        addWords (0 + (high.toNat * 256 + low.toNat)) (putWord rest (2 * half) 0) + v
      rw [addWords_eq, next, addWords_eq (0 + (high.toNat * 256 + low.toNat)) (putWord rest (2 * half) 0)]
      omega

theorem getD_slice (some_ : start < stop) : (slice l start stop).getD 0 0 = l.getD start 0 := by
  unfold slice
  rw [List.getD_eq_getElem?_getD, List.getElem?_take_of_lt (Nat.sub_pos_of_lt some_), List.getElem?_drop, Nat.add_zero,
    List.getD_eq_getElem?_getD]

theorem addWords_ne_zero (some_ : (l.getD 0 0).toNat ≠ 0) : addWords 0 l ≠ 0 := by
  match l with
  | [] => exact absurd rfl some_
  | [high] =>
    show 0 + high.toNat * 256 ≠ 0
    have first : high.toNat ≠ 0 := some_
    omega
  | high :: low :: rest =>
    show addWords (0 + (high.toNat * 256 + low.toNat)) rest ≠ 0
    have first : high.toNat ≠ 0 := some_
    rw [addWords_eq]
    omega

end MuirFpga.Arith
