import MuirFpga.Plumbing.DbgCable
import Mathlib.Data.List.Basic
import Mathlib.Tactic.SplitIfs

/-!
# What the debug cable delivers

A sender and a receiver of the debug cable, reset at any ticks. The receiver's edges still to be seen are
counted in the strobe's flops; with them the beats it has taken are never more than the beats of the frame
the sender is in. Only a receiver that has taken them all can complete a frame, and what it then holds is
the frame itself, or has a wrong marker because the first bit was taken a beat late, or ends in the zeros
of a sender that was reset.
-/

namespace MuirFpga.Plumbing

open Sync

section Words

theorem parity_split {u v : BitVec 21} (high : ∀ k, 2 ≤ k → k < 21 → u.getLsbD k = v.getLsbD k)
    (same : parity u = parity v) :
    (u.getLsbD 0 ^^ u.getLsbD 1) = (v.getLsbD 0 ^^ v.getLsbD 1) := by
  have rest : ((List.range' 2 19).foldr (fun k p => u.getLsbD k ^^ p) false) =
      (List.range' 2 19).foldr (fun k p => v.getLsbD k ^^ p) false := by
    apply List.foldr_ext
    intro k inside p
    rw [List.mem_range'_1] at inside
    rw [high k (by omega) (by omega)]
  have parts : ∀ w : BitVec 21, parity w = (w.getLsbD 0 ^^ (w.getLsbD 1 ^^
      (List.range' 2 19).foldr (fun k p => w.getLsbD k ^^ p) false)) := fun w => rfl
  rw [parts u, parts v, rest] at same
  generalize (List.range' 2 19).foldr (fun k p => v.getLsbD k ^^ p) false = others at same
  revert same
  generalize u.getLsbD 0 = a
  generalize u.getLsbD 1 = b
  generalize v.getLsbD 0 = c
  generalize v.getLsbD 1 = e
  revert a b c e others
  decide

theorem frameOut_top (v : BitVec 21) :
    (frameOut v).getLsbD 23 = false ∧ (frameOut v).getLsbD 22 = true := by
  unfold frameOut
  rw [BitVec.getLsbD_append, BitVec.getLsbD_append, if_neg (by decide), if_neg (by decide)]
  unfold headWant
  cases parity v <;> decide

theorem levelsOf_frameOut (v : BitVec 21) : levelsOf (frameOut v) = v :=
  BitVec.extractLsb'_append_eq_right

theorem head_frameOut (v : BitVec 21) : (frameOut v).extractLsb' 21 3 = headWant v :=
  BitVec.extractLsb'_append_eq_left

theorem good_frameOut (v : BitVec 21) : good (frameOut v) = true := by
  unfold good
  rw [head_frameOut, levelsOf_frameOut, beq_self_eq_true]

theorem not_good_of_top {w : BitVec 24} (top : w.getLsbD 23 = true) : good w = false := by
  have bit : (w.extractLsb' 21 3).getLsbD 2 = true := by
    rw [BitVec.getLsbD_extractLsb']
    simpa using top
  unfold good
  rw [beq_eq_false_iff_ne]
  intro same
  rw [same] at bit
  unfold headWant at bit
  revert bit
  cases parity (levelsOf w) <;> decide

/-- A frame taken for good has the levels that were sent. -/
def Sound (v : BitVec 21) (w : BitVec 24) : Prop := good w = true → levelsOf w = v

theorem sound_of_low {v : BitVec 21} {w : BitVec 24}
    (high : ∀ k, 2 ≤ k → k < 24 → w.getLsbD k = (frameOut v).getLsbD k)
    (low : w.getLsbD 0 = (frameOut v).getLsbD 0 ∨ w.getLsbD 1 = (frameOut v).getLsbD 1) :
    Sound v w := by
  intro taken
  have head : w.extractLsb' 21 3 = (frameOut v).extractLsb' 21 3 := by
    apply BitVec.eq_of_getLsbD_eq
    intro k inside
    rw [BitVec.getLsbD_extractLsb', BitVec.getLsbD_extractLsb', high (21 + k) (by omega) (by omega)]
  have want : headWant (levelsOf w) = headWant v := by
    rw [← head_frameOut v, ← head]
    exact (beq_iff_eq.mp taken).symm
  have parities : parity (levelsOf w) = parity v := by
    revert want
    unfold headWant
    cases parity (levelsOf w) <;> cases parity v <;> decide
  have levels : ∀ k, k < 21 → (levelsOf w).getLsbD k = w.getLsbD k := by
    intro k inside
    unfold levelsOf
    rw [BitVec.getLsbD_extractLsb', Nat.zero_add]
    simp [inside]
  have sent : ∀ k, k < 21 → (frameOut v).getLsbD k = v.getLsbD k := by
    intro k inside
    unfold frameOut
    rw [BitVec.getLsbD_append, if_pos inside]
  have highs : ∀ k, 2 ≤ k → k < 21 → (levelsOf w).getLsbD k = v.getLsbD k := by
    intro k least inside
    rw [levels k inside, high k least (by omega), sent k inside]
  have both := parity_split highs parities
  rw [levels 0 (by decide), levels 1 (by decide)] at both
  rw [sent 0 (by decide), sent 1 (by decide)] at low
  have lows : w.getLsbD 0 = v.getLsbD 0 ∧ w.getLsbD 1 = v.getLsbD 1 := by
    revert both low
    generalize w.getLsbD 0 = a
    generalize w.getLsbD 1 = b
    generalize v.getLsbD 0 = c
    generalize v.getLsbD 1 = e
    revert a b c e
    decide
  apply BitVec.eq_of_getLsbD_eq
  intro k inside
  match k with
  | 0 => rw [levels 0 inside, lows.1]
  | 1 => rw [levels 1 inside, lows.2]
  | k + 2 => exact highs (k + 2) (by omega) inside

end Words

section Receiver

variable {v : BitVec 21} {rx : DbgRx} {stb d line : Bool}

/-- The edges of the strobe that are in the flops and not yet seen, the line's own among them. -/
def pend (rx : DbgRx) (line : Bool) : Nat :=
  (rx.s1 != rx.q).toNat + (rx.s0 != rx.s1).toNat + (line != rx.s0).toNat

/-- The beats taken and those still to be. -/
def beats (rx : DbgRx) (line : Bool) : Nat := rx.beat + pend rx line

theorem pend_next : pend (rx.next false stb d) line + rx.change.toNat =
    pend rx stb + (line != stb).toNat := by
  change (rx.s0 != rx.s1).toNat + (stb != rx.s0).toNat + (line != stb).toNat +
    (rx.s1 != rx.q).toNat = _
  unfold pend
  omega

theorem beat_of_change (change : rx.change = true) (more : rx.beat ≠ 23) :
    (rx.next false stb d).beat = rx.beat + 1 := by
  have part : rx.complete = false := by simp [DbgRx.complete, more]
  simp [DbgRx.next, change, part]

theorem beat_of_complete (complete : rx.complete = true) : (rx.next false stb d).beat = 0 := by
  have change : rx.change = true := by
    unfold DbgRx.complete at complete
    exact (Bool.and_eq_true _ _ ▸ complete).1
  simp [DbgRx.next, change, complete]

theorem beat_of_still (still : rx.change = false) :
    (rx.next false stb d).beat = if rx.idleT ≠ 12 then rx.beat else 0 := by
  simp [DbgRx.next, still]

theorem idleT_next : (rx.next false stb d).idleT =
    if rx.change then 0 else if rx.idleT ≠ 12 then rx.idleT + 1 else rx.idleT := rfl

theorem frame_next : (rx.next false stb d).frame =
    if rx.change then (rx.rxNext d).setWidth 23 else rx.frame := rfl

theorem beats_next_le :
    beats (rx.next false stb d) line ≤ beats rx stb + (line != stb).toNat := by
  have edges := @pend_next rx stb d line
  unfold beats
  cases change : rx.change with
  | true =>
    rw [change] at edges
    simp only [Bool.toNat_true] at edges
    by_cases last : rx.beat = 23
    · have complete : rx.complete = true := by simp [DbgRx.complete, change, last]
      rw [beat_of_complete complete]
      omega
    · rw [beat_of_change change last]
      omega
  | false =>
    rw [change] at edges
    simp only [Bool.toNat_false] at edges
    rw [beat_of_still change]
    split_ifs <;> omega

theorem beats_next (few : rx.complete = false)
    (going : rx.change = false → rx.beat = 0 ∨ rx.idleT ≠ 12) :
    beats (rx.next false stb d) line = beats rx stb + (line != stb).toNat := by
  have edges := @pend_next rx stb d line
  unfold beats
  cases change : rx.change with
  | true =>
    rw [change] at edges
    simp only [Bool.toNat_true] at edges
    have more : rx.beat ≠ 23 := by
      intro last
      simp [DbgRx.complete, change, last] at few
    rw [beat_of_change change more]
    omega
  | false =>
    rw [change] at edges
    simp only [Bool.toNat_false] at edges
    rw [beat_of_still change]
    rcases going change with none | inFrame
    · rw [none]
      simp only [ite_self]
      omega
    · rw [if_pos inFrame]
      omega

theorem rxNext_bit (k : Nat) :
    (rx.rxNext d).getLsbD k = if k = 0 then d else rx.frame.getLsbD (k - 1) := by
  unfold DbgRx.rxNext
  rw [BitVec.getLsbD_append]
  by_cases low : k < 1
  · have zero : k = 0 := by omega
    subst zero
    cases d <;> rfl
  · rw [if_neg low, if_neg (by omega)]

theorem frame_bit_of_change (change : rx.change = true) {k : Nat} (inside : k < 23) :
    (rx.next false stb d).frame.getLsbD k = if k = 0 then d else rx.frame.getLsbD (k - 1) := by
  rw [frame_next, if_pos change, BitVec.getLsbD_setWidth, rxNext_bit]
  simp [inside]

/-- The beats taken so far are the first bits of the frame sent. -/
def Bits (v : BitVec 21) (rx : DbgRx) : Prop :=
  ∀ m, m < rx.beat → rx.frame.getLsbD m = (frameOut v).getLsbD (24 - rx.beat + m)

theorem Bits.sampled (bits : Bits v rx) (change : rx.change = true) (more : rx.beat < 23)
    (next : d = (frameOut v).getLsbD (23 - rx.beat)) : Bits v (rx.next false stb d) := by
  intro m inside
  rw [beat_of_change change (by omega)] at inside ⊢
  rw [frame_bit_of_change change (by omega)]
  by_cases newest : m = 0
  · rw [if_pos newest, next, newest]
    congr 1
    omega
  · rw [if_neg newest, bits (m - 1) (by omega)]
    congr 1
    omega

theorem Bits.kept (bits : Bits v rx) (still : rx.change = false) : Bits v (rx.next false stb d) := by
  intro m inside
  rw [beat_of_still still] at inside ⊢
  rw [frame_next, if_neg (by simp [still])]
  by_cases going : rx.idleT ≠ 12
  · rw [if_pos going] at inside ⊢
    exact bits m inside
  · rw [if_neg going] at inside
    exact absurd inside (Nat.not_lt_zero m)

theorem Bits.whole (bits : Bits v rx) (last : rx.beat = 23) (next : d = (frameOut v).getLsbD 0) :
    rx.rxNext d = frameOut v := by
  apply BitVec.eq_of_getLsbD_eq
  intro k inside
  rw [rxNext_bit]
  by_cases newest : k = 0
  · rw [if_pos newest, next, newest]
  · rw [if_neg newest, bits (k - 1) (by omega), last]
    congr 1
    omega

/-- The first beat taken was a one, which no frame begins with. -/
def Spoiled (rx : DbgRx) : Prop := rx.beat ≠ 0 ∧ rx.frame.getLsbD (rx.beat - 1) = true

theorem Spoiled.next (spoiled : Spoiled rx) (few : rx.beat ≤ 23) :
    (rx.next false stb d).beat = 0 ∨ Spoiled (rx.next false stb d) := by
  obtain ⟨some, top⟩ := spoiled
  cases change : rx.change with
  | true =>
    by_cases last : rx.beat = 23
    · left
      exact beat_of_complete (by simp [DbgRx.complete, change, last])
    · right
      unfold Spoiled
      rw [beat_of_change change last, frame_bit_of_change change (by omega)]
      refine ⟨by omega, ?_⟩
      rw [if_neg (by omega)]
      simpa using top
  | false =>
    by_cases going : rx.idleT ≠ 12
    · right
      unfold Spoiled
      rw [beat_of_still change, if_pos going, frame_next, if_neg (by simp [change])]
      exact ⟨some, top⟩
    · left
      rw [beat_of_still change, if_neg going]

theorem Spoiled.refused (spoiled : Spoiled rx) (last : rx.beat = 23) :
    good (rx.rxNext d) = false := by
  apply not_good_of_top
  rw [rxNext_bit, if_neg (by decide)]
  have top := spoiled.2
  rw [last] at top
  exact top

/-- The frame that the beats taken make when zeros follow. -/
def tail (rx : DbgRx) : BitVec 24 := rx.frame.setWidth 24 <<< (24 - rx.beat)

theorem tail_bit {k : Nat} (inside : k < 24) : (tail rx).getLsbD k =
    if 24 - rx.beat ≤ k then rx.frame.getLsbD (k - (24 - rx.beat)) else false := by
  unfold tail
  rw [BitVec.getLsbD_shiftLeft, BitVec.getLsbD_setWidth]
  by_cases low : k < 24 - rx.beat
  · rw [if_neg (Nat.not_le.mpr low)]
    simp only [low, decide_true, Bool.not_true, Bool.and_false, Bool.false_and]
  · rw [if_pos (Nat.not_lt.mp low)]
    simp only [low, inside, show k - (24 - rx.beat) < 24 by omega, decide_true, decide_false,
      Bool.not_false, Bool.true_and]

theorem tail_next (change : rx.change = true) (more : rx.beat < 23) :
    tail (rx.next false stb false) = tail rx := by
  apply BitVec.eq_of_getLsbD_eq
  intro k inside
  have beat := @beat_of_change rx stb false change (by omega)
  rw [tail_bit inside, tail_bit inside, beat]
  by_cases low : 24 - (rx.beat + 1) ≤ k
  · rw [if_pos low, frame_bit_of_change change (by omega)]
    by_cases newest : 24 - rx.beat ≤ k
    · rw [if_pos newest, if_neg (by omega)]
      congr 1
      omega
    · rw [if_neg newest, if_pos (by omega)]
  · rw [if_neg low, if_neg (by omega)]

theorem tail_whole (last : rx.beat = 23) : rx.rxNext false = tail rx := by
  apply BitVec.eq_of_getLsbD_eq
  intro k inside
  rw [rxNext_bit, tail_bit inside, last]
  by_cases newest : k = 0
  · rw [if_pos newest, if_neg (by omega)]
  · rw [if_neg newest, if_pos (by omega)]

end Receiver

/-- The sender is in a frame: the beats sent, the strobe after them, and what is left to send. -/
structure Sending (v : BitVec 21) (tx : DbgTx) : Prop where
  on : tx.gap = false
  least : 1 ≤ tx.beat
  most : tx.beat ≤ 24
  t : tx.t ≤ 5
  stb : tx.stb = decide (tx.beat % 2 = 1)
  frame : tx.frame = frameOut v <<< tx.beat
  d : tx.d = (frameOut v).getLsbD (24 - tx.beat)

theorem sending_of_begins {tx : DbgTx} (v : BitVec 21) (gap : tx.gap = true) (now : tx.t = 0)
    (stb : tx.stb = false) : Sending v (tx.next false v) ∧ (tx.next false v).beat = 1 ∧
      (tx.next false v).t = 5 ∧ (tx.next false v).stb = true := by
  have next : tx.next false v =
      ⟨true, (frameOut v).getLsbD 23, frameOut v <<< 1, 1, 5, false⟩ := by
    unfold DbgTx.next
    simp [now, gap, stb]
  rw [next]
  exact ⟨⟨rfl, Nat.le_refl 1, show 1 ≤ 24 by decide, Nat.le_refl 5, rfl, rfl, rfl⟩, rfl, rfl, rfl⟩

theorem Sending.next {v : BitVec 21} {tx : DbgTx} (sending : Sending v tx) (levels : BitVec 21) :
    (tx.t ≠ 0 ∧ tx.next false levels = { tx with t := tx.t - 1 }) ∨
    (tx.t = 0 ∧ tx.beat ≠ 24 ∧ Sending v (tx.next false levels) ∧
      (tx.next false levels).beat = tx.beat + 1 ∧ (tx.next false levels).t = 5 ∧
      (tx.next false levels).stb = !tx.stb) ∨
    (tx.t = 0 ∧ tx.beat = 24 ∧ tx.next false levels = { tx with gap := true, t := 17 }) := by
  unfold DbgTx.next
  simp only [Bool.false_eq_true, if_false]
  by_cases wait : tx.t = 0
  · rw [if_neg (by simp [wait]), if_neg (by simp [sending.on])]
    by_cases last : tx.beat = 24
    · rw [if_neg (by simp [last])]
      exact Or.inr (Or.inr ⟨wait, last, rfl⟩)
    · have least := sending.least
      have most := sending.most
      rw [if_pos last]
      refine Or.inr (Or.inl ⟨wait, last, ⟨rfl, ?_, ?_, Nat.le_refl 5, ?_, ?_, ?_⟩, rfl, rfl, rfl⟩)
      · change 1 ≤ tx.beat + 1
        omega
      · change tx.beat + 1 ≤ 24
        omega
      · change (!tx.stb) = decide ((tx.beat + 1) % 2 = 1)
        rw [sending.stb, ← decide_not]
        congr 1
        apply propext
        omega
      · change tx.frame <<< 1 = frameOut v <<< (tx.beat + 1)
        rw [sending.frame, BitVec.shiftLeft_add]
      · change tx.frame.getLsbD 23 = (frameOut v).getLsbD (24 - (tx.beat + 1))
        rw [sending.frame, BitVec.getLsbD_shiftLeft]
        simp only [show 23 < 24 by decide, show ¬ 23 < tx.beat by omega, decide_true, decide_false,
          Bool.not_false, Bool.true_and]
        congr 1
        omega
  · rw [if_pos wait]
    exact Or.inl ⟨wait, rfl⟩

theorem Sending.wait {v : BitVec 21} {tx : DbgTx} (sending : Sending v tx) :
    Sending v { tx with t := tx.t - 1 } := by
  refine ⟨sending.on, sending.least, sending.most, ?_, sending.stb, sending.frame, sending.d⟩
  have bound := sending.t
  change tx.t - 1 ≤ 5
  omega

/-- The sender goes on with its frame: a tick of the beat, or the next beat. -/
def Goes (tx after : DbgTx) : Prop :=
  (tx.t ≠ 0 ∧ after.t = tx.t - 1 ∧ after.beat = tx.beat ∧ after.stb = tx.stb) ∨
    (tx.t = 0 ∧ after.t = 5 ∧ after.beat = tx.beat + 1 ∧ after.stb = !tx.stb)

/-- The receiver has taken the frame from its beginning, and takes each beat while it stands. -/
structure Clean (v : BitVec 21) (tx : DbgTx) (rx : DbgRx) : Prop where
  bits : Bits v rx
  first : tx.stb ≠ rx.s0 → rx.s0 = rx.s1 ∧ rx.s1 = rx.q ∧ 2 ≤ tx.t ∧ (2 ≤ tx.beat → tx.t = 5)
  second : rx.s0 ≠ rx.s1 → rx.s1 = rx.q ∧ 1 ≤ tx.t ∧ tx.t ≤ 4 ∧ (2 ≤ tx.beat → tx.t = 4)
  third : rx.s1 ≠ rx.q → tx.t ≤ 3
  idle : rx.beat ≠ 0 →
    (pend rx tx.stb = 0 → rx.idleT + 3 + tx.t ≤ 5) ∧ rx.idleT + tx.t ≤ 8

theorem Clean.level (clean : Clean v tx rx) (now : tx.t = 0) : tx.stb = rx.s0 ∧ rx.s0 = rx.s1 := by
  constructor
  · by_contra other
    have wait := (clean.first other).2.2.1
    omega
  · by_contra other
    have wait := (clean.second other).2.1
    omega

/-- The receiver was reset in the first beat and will take the second beat's bit for it. -/
structure Doomed (tx : DbgTx) (rx : DbgRx) : Prop where
  none : rx.beat = 0
  late : (tx.beat = 1 ∧ tx.t ≤ 1 ∧ rx.s1 = rx.q ∧
      (rx.s0 = rx.s1 ∧ tx.stb ≠ rx.s0 ∨ rx.s0 ≠ rx.s1 ∧ tx.stb = rx.s0 ∧ tx.t = 0)) ∨
    (tx.beat = 2 ∧ pend rx tx.stb = 2 ∧ (rx.s1 = rx.q → 1 ≤ tx.t))

/-- The receiver's frame against the sender's: it is behind, or has taken every beat. -/
def Window (v : BitVec 21) (tx : DbgTx) (rx : DbgRx) : Prop :=
  beats rx tx.stb < tx.beat ∨
    beats rx tx.stb = tx.beat ∧ (Clean v tx rx ∨ Doomed tx rx ∨ Spoiled rx)

section Frame

variable {v : BitVec 21} {tx : DbgTx} {rx : DbgRx}

theorem Clean.of_change (clean : Clean v tx rx) (change : rx.change = true) :
    tx.stb = rx.s0 ∧ rx.s0 = rx.s1 ∧ pend rx tx.stb = 1 ∧ tx.t ≤ 3 := by
  have differ : rx.s1 ≠ rx.q := by simpa [DbgRx.change] using change
  have second : rx.s0 = rx.s1 := by
    by_contra other
    exact differ (clean.second other).1
  have first : tx.stb = rx.s0 := by
    by_contra other
    exact differ (clean.first other).2.1
  refine ⟨first, second, ?_, clean.third differ⟩
  unfold pend
  rw [first, second]
  simp [differ]

theorem pend_eq_zero (line : Bool) :
    pend rx line = 0 ↔ rx.s1 = rx.q ∧ rx.s0 = rx.s1 ∧ line = rx.s0 := by
  unfold pend
  cases line <;> cases rx.s0 <;> cases rx.s1 <;> cases rx.q <;> decide

theorem pend_le (line : Bool) : pend rx line ≤ 3 := by
  unfold pend
  cases line <;> cases rx.s0 <;> cases rx.s1 <;> cases rx.q <;> decide

theorem Clean.whole (clean : Clean v tx rx) (sending : Sending v tx)
    (all : beats rx tx.stb = tx.beat) (complete : rx.complete = true) :
    tx.beat = 24 ∧ rx.rxNext tx.d = frameOut v := by
  unfold DbgRx.complete at complete
  rw [Bool.and_eq_true, beq_iff_eq] at complete
  obtain ⟨_, _, one, _⟩ := clean.of_change complete.1
  unfold beats at all
  have whole : tx.beat = 24 := by omega
  refine ⟨whole, clean.bits.whole complete.2 ?_⟩
  rw [sending.d, whole]

theorem Clean.next (clean : Clean v tx rx) (sending : Sending v tx)
    (all : beats rx tx.stb = tx.beat) (part : rx.complete = false) {after : DbgTx}
    (step : Goes tx after) :
    Clean v after (rx.next false tx.stb tx.d) ∧
      beats (rx.next false tx.stb tx.d) after.stb = tx.beat + (after.stb != tx.stb).toNat := by
  have short := sending.t
  have going : rx.change = false → rx.beat = 0 ∨ rx.idleT ≠ 12 := by
    intro still
    by_cases none : rx.beat = 0
    · exact Or.inl none
    · have bound := (clean.idle none).2
      exact Or.inr (by omega)
  have idle : (rx.next false tx.stb tx.d).beat ≠ 0 → rx.change = true ∧
      (rx.next false tx.stb tx.d).idleT = 0 ∨
      rx.change = false ∧ rx.beat ≠ 0 ∧ (rx.next false tx.stb tx.d).idleT = rx.idleT + 1 := by
    intro some
    cases change : rx.change with
    | true => exact Or.inl ⟨rfl, by simp [idleT_next, change]⟩
    | false =>
      right
      rw [beat_of_still change] at some
      by_cases inFrame : rx.idleT ≠ 12
      · rw [if_pos inFrame] at some
        exact ⟨rfl, some, by simp [idleT_next, change, inFrame]⟩
      · rw [if_neg inFrame] at some
        exact absurd rfl some
  have bits : Bits v (rx.next false tx.stb tx.d) := by
    cases change : rx.change with
    | true =>
      obtain ⟨_, _, one, _⟩ := clean.of_change change
      have more : rx.beat ≠ 23 := by
        intro last
        simp [DbgRx.complete, change, last] at part
      have beat : rx.beat + 1 = tx.beat := by
        unfold beats at all
        omega
      have most := sending.most
      refine clean.bits.sampled change (by omega) ?_
      rw [sending.d]
      congr 1
      omega
    | false => exact clean.bits.kept change
  have edges := @pend_next rx tx.stb tx.d after.stb
  refine ⟨⟨bits, ?_, ?_, ?_, ?_⟩, ?_⟩
  · intro edge
    rcases step with ⟨_, _, _, same⟩ | ⟨now, five, _⟩
    · exact absurd same edge
    · obtain ⟨first, second⟩ := clean.level (by omega)
      exact ⟨first, second, by omega, fun _ => five⟩
  · intro edge
    have differ : tx.stb ≠ rx.s0 := edge
    obtain ⟨same, _, wait, later⟩ := clean.first differ
    rcases step with ⟨_, less, beat, _⟩ | ⟨now, _⟩
    · refine ⟨same, by omega, by omega, fun more => ?_⟩
      have five := later (beat ▸ more)
      omega
    · omega
  · intro edge
    have differ : rx.s0 ≠ rx.s1 := edge
    obtain ⟨_, wait, most, _⟩ := clean.second differ
    rcases step with ⟨_, less, _⟩ | ⟨now, _⟩
    · omega
    · omega
  · intro some
    rcases step with ⟨more, less, _, same⟩ | ⟨now, five, _, flips⟩
    · have quiet : (after.stb != tx.stb) = false := by simp [same]
      rw [quiet] at edges
      rcases idle some with ⟨change, zero⟩ | ⟨still, before, one⟩
      · obtain ⟨_, _, _, late⟩ := clean.of_change change
        omega
      · have bounds := clean.idle before
        rw [still] at edges
        simp only [Bool.toNat_false, Nat.add_zero] at edges
        refine ⟨fun none => ?_, by omega⟩
        have was := bounds.1 (by omega)
        omega
    · have turn : (after.stb != tx.stb) = true := by simp [flips]
      rw [turn] at edges
      simp only [Bool.toNat_true] at edges
      rcases idle some with ⟨change, zero⟩ | ⟨still, before, one⟩
      · obtain ⟨_, _, single, _⟩ := clean.of_change change
        rw [change] at edges
        simp only [Bool.toNat_true] at edges
        exact ⟨fun none => by omega, by omega⟩
      · have bounds := clean.idle before
        rw [still] at edges
        simp only [Bool.toNat_false] at edges
        have settled : pend rx tx.stb = 0 := by
          rw [pend_eq_zero]
          refine ⟨by simpa [DbgRx.change] using still, ?_, ?_⟩
          · by_contra other
            have wait := (clean.second other).2.1
            omega
          · by_contra other
            have wait := (clean.first other).2.2.1
            omega
        have was := bounds.1 settled
        exact ⟨fun none => by omega, by omega⟩
  · rw [beats_next part going, all]

theorem Goes.beat {after : DbgTx} (step : Goes tx after) :
    after.beat = tx.beat + (after.stb != tx.stb).toNat := by
  rcases step with ⟨_, _, beat, same⟩ | ⟨_, _, beat, flips⟩
  · simp [beat, same]
  · simp [beat, flips]

theorem Doomed.next (doomed : Doomed tx rx) (sending : Sending v tx) {after : DbgTx}
    (step : Goes tx after) : Doomed after (rx.next false tx.stb tx.d) ∨
      Spoiled (rx.next false tx.stb tx.d) := by
  have none := doomed.none
  rcases doomed.late with ⟨one, soon, still, edge⟩ | ⟨two, both, wait⟩
  · have quiet : rx.change = false := by simp [DbgRx.change, still]
    have beat : (rx.next false tx.stb tx.d).beat = 0 := by
      rw [beat_of_still quiet, none, ite_self]
    left
    rcases step with ⟨more, less, same, stb⟩ | ⟨now, five, next, flips⟩
    · rcases edge with ⟨settled, turned⟩ | ⟨_, _, now⟩
      · exact ⟨beat, Or.inl ⟨same.trans one, by omega, settled, Or.inr ⟨turned, stb, by omega⟩⟩⟩
      · exact absurd now more
    · refine ⟨beat, Or.inr ⟨by omega, ?_, fun _ => by omega⟩⟩
      change (rx.s0 != rx.s1).toNat + (tx.stb != rx.s0).toNat + (after.stb != tx.stb).toNat = 2
      rcases edge with ⟨settled, turned⟩ | ⟨turned, settled, _⟩
      · simp [settled, flips, bne_iff_ne.mpr (settled ▸ turned)]
      · simp [settled, flips, bne_iff_ne.mpr turned]
  · cases change : rx.change with
    | true =>
      right
      have bit : tx.d = true := by
        rw [sending.d, two]
        exact (frameOut_top v).2
      unfold Spoiled
      rw [beat_of_change change (by omega), frame_bit_of_change change (by omega), none]
      exact ⟨by decide, bit⟩
    | false =>
      left
      have still : rx.s1 = rx.q := by simpa [DbgRx.change] using change
      have more := wait still
      have beat : (rx.next false tx.stb tx.d).beat = 0 := by
        rw [beat_of_still change, none, ite_self]
      have turned : rx.s0 ≠ rx.s1 := by
        intro settled
        unfold pend at both
        rw [settled, still] at both
        have one := Bool.toNat_le (tx.stb != rx.q)
        simp only [bne_self_eq_false, Bool.toNat_false] at both
        omega
      rcases step with ⟨_, less, same, stb⟩ | ⟨now, _⟩
      · have edges := @pend_next rx tx.stb tx.d after.stb
        rw [change, stb] at edges
        refine ⟨beat, Or.inr ⟨same.trans two, ?_, fun held => absurd held turned⟩⟩
        simpa [both, stb] using edges
      · omega

theorem Window.next (window : Window v tx rx) (sending : Sending v tx) (few : rx.beat ≤ 23)
    {after : DbgTx} (step : Goes tx after) : Window v after (rx.next false tx.stb tx.d) := by
  have beat := step.beat
  have most := @beats_next_le rx tx.stb tx.d after.stb
  rcases window with behind | ⟨all, state⟩
  · left
    omega
  · cases complete : rx.complete with
    | true =>
      -- Nothing is left of a frame that is complete.
      left
      have change : rx.change = true ∧ rx.beat = 23 := by
        simpa [DbgRx.complete] using complete
      have edges := @pend_next rx tx.stb tx.d after.stb
      rw [change.1] at edges
      simp only [Bool.toNat_true] at edges
      unfold beats at all ⊢
      rw [beat_of_complete complete]
      omega
    | false =>
      rcases state with clean | doomed | spoiled
      · obtain ⟨still, count⟩ := clean.next sending all complete step
        exact Or.inr ⟨by omega, Or.inl still⟩
      · have count := @beats_next rx tx.stb tx.d after.stb complete fun _ => Or.inl doomed.none
        exact Or.inr ⟨by omega, Or.inr (doomed.next sending step)⟩
      · rcases @Spoiled.next rx tx.stb tx.d spoiled few with none | still
        · left
          have some := spoiled.1
          have edges := @pend_next rx tx.stb tx.d after.stb
          unfold beats at all ⊢
          omega
        · by_cases whole : beats (rx.next false tx.stb tx.d) after.stb = after.beat
          · exact Or.inr ⟨whole, Or.inr (Or.inr still)⟩
          · left
            omega

theorem window_reset (sending : Sending v tx) : Window v tx DbgRx.reset := by
  have least := sending.least
  have edges : beats DbgRx.reset tx.stb = tx.stb.toNat := by
    cases tx.stb <;> rfl
  by_cases first : tx.beat = 1
  · have up : tx.stb = true := by
      rw [sending.stb, first]
      rfl
    right
    refine ⟨by rw [edges, up, first]; rfl, ?_⟩
    by_cases time : 2 ≤ tx.t
    · left
      refine ⟨nofun, fun _ => ⟨rfl, rfl, time, fun more => ?_⟩, fun other => absurd rfl other,
        fun other => absurd rfl other, fun some => absurd rfl some⟩
      omega
    · right
      left
      refine ⟨rfl, Or.inl ⟨first, by omega, rfl, Or.inl ⟨rfl, ?_⟩⟩⟩
      rw [up]
      decide
  · left
    rw [edges]
    have one : tx.stb.toNat ≤ 1 := Bool.toNat_le tx.stb
    omega

theorem pend_of_change (change : rx.change = true) (stb : Bool) : pend rx stb ≠ 0 := by
  rw [Ne, pend_eq_zero]
  rintro ⟨same, _⟩
  simp [DbgRx.change, same] at change

theorem next_levels (rx : DbgRx) (stb d : Bool) :
    (rx.next false stb d).levels = rx.levels ∨ (rx.next false stb d).levels = 0#21 ∨
      rx.change = true ∧ rx.beat = 23 ∧ rx.complete = true ∧ good (rx.rxNext d) = true ∧
        (rx.next false stb d).levels = levelsOf (rx.rxNext d) := by
  have next : (rx.next false stb d).levels = if rx.complete && good (rx.rxNext d) then levelsOf (rx.rxNext d)
      else if rx.lossT ≠ 1024 then rx.levels else 0#21 := rfl
  rw [next]
  by_cases took : (rx.complete && good (rx.rxNext d)) = true
  · rw [if_pos took]
    rw [Bool.and_eq_true] at took
    have last : rx.change = true ∧ rx.beat = 23 := by simpa [DbgRx.complete] using took.1
    exact Or.inr (Or.inr ⟨last.1, last.2, took.1, took.2, rfl⟩)
  · rw [if_neg took]
    split_ifs
    · exact Or.inl rfl
    · exact Or.inr (Or.inl rfl)

/-- A receiver's levels stand, clear, or become what is sent. -/
theorem Window.levels (window : Window v tx rx) (sending : Sending v tx) :
    (rx.next false tx.stb tx.d).levels = rx.levels ∨ (rx.next false tx.stb tx.d).levels = 0#21 ∨
      (rx.next false tx.stb tx.d).levels = v := by
  rcases next_levels rx tx.stb tx.d with kept | lost | ⟨change, beat, complete, taken, levels⟩
  · exact Or.inl kept
  · exact Or.inr (Or.inl lost)
  right
  right
  rw [levels]
  have edges := pend_of_change change tx.stb
  have most := sending.most
  rcases window with behind | ⟨all, clean | doomed | spoiled⟩
  · unfold beats at behind
    omega
  · rw [(clean.whole sending all complete).2]
    exact levelsOf_frameOut v
  · have none := doomed.none
    omega
  · have refused := @Spoiled.refused rx tx.d spoiled beat
    rw [refused] at taken
    exact absurd taken (by decide)

end Frame

/-- The receiver's counts stay within a frame and within the gap. -/
structure Fit (rx : DbgRx) : Prop where
  beat : rx.beat ≤ 23
  idle : rx.idleT ≤ 12

theorem fit_reset : Fit DbgRx.reset := ⟨by decide, by decide⟩

theorem Fit.next {rx : DbgRx} (fit : Fit rx) (rst stb d : Bool) : Fit (rx.next rst stb d) := by
  have most := fit.beat
  have bound := fit.idle
  cases rst with
  | true => exact fit_reset
  | false =>
    constructor
    · cases change : rx.change with
      | true =>
        by_cases last : rx.beat = 23
        · rw [beat_of_complete (by simp [DbgRx.complete, change, last])]
          omega
        · rw [beat_of_change change last]
          omega
      | false =>
        rw [beat_of_still change]
        split_ifs <;> omega
    · rw [idleT_next]
      split_ifs <;> omega

/-- A receiver that has all of a frame's edges while the sender is quiet: the frame is spoiled, or the
line gives zeros and what they complete is the frame that was sent or is refused. -/
def Held (begun : BitVec 21 → Prop) (tx : DbgTx) (rx : DbgRx) : Prop :=
  beats rx false < 24 ∨
    beats rx false = 24 ∧
      (Spoiled rx ∨ tx.d = false ∧ ∃ v, begun v ∧ Sound v (tail rx))

/-- The sender is quiet: the strobe's flops settle, and the receiver comes to be between frames. -/
structure Quiet (begun : BitVec 21 → Prop) (tx : DbgTx) (rx : DbgRx) : Prop where
  gap : tx.gap = true
  t : tx.t ≤ 17
  stb : tx.stb = false
  s0 : tx.t ≤ 16 → rx.s0 = false
  s1 : tx.t ≤ 15 → rx.s1 = false
  q : tx.t ≤ 14 → rx.q = false
  idle : rx.beat ≠ 0 → 2 ≤ tx.t ∧ 14 ≤ rx.idleT + tx.t
  held : Held begun tx rx

section Gap

variable {v : BitVec 21} {begun : BitVec 21 → Prop} {tx after : DbgTx} {rx : DbgRx} {stb d : Bool}

theorem Spoiled.held (spoiled : Spoiled rx) (few : rx.beat ≤ 23)
    (all : beats (rx.next false stb d) false ≤ 24) : Held begun after (rx.next false stb d) := by
  rcases @Spoiled.next rx stb d spoiled few with none | still
  · left
    have edges := @pend_le (rx.next false stb d) false
    unfold beats
    omega
  · by_cases whole : beats (rx.next false stb d) false = 24
    · exact Or.inr ⟨whole, Or.inl still⟩
    · left
      omega

theorem Held.next (held : Held begun tx rx) (few : rx.beat ≤ 23)
    (line : after.d = false ∨ after.d = tx.d) : Held begun after (rx.next false false tx.d) := by
  have most := @beats_next_le rx false tx.d false
  simp only [bne_self_eq_false, Bool.toNat_false, Nat.add_zero] at most
  rcases held with behind | ⟨all, spoiled | ⟨zero, v, sent, sound⟩⟩
  · left
    omega
  · exact spoiled.held few (by omega)
  · by_cases whole : beats (rx.next false false tx.d) false = 24
    · refine Or.inr ⟨whole, Or.inr ⟨?_, v, sent, ?_⟩⟩
      · rcases line with same | same
        · exact same
        · exact same.trans zero
      · have edges := @pend_le (rx.next false false tx.d) false
        cases change : rx.change with
        | true =>
          have more : rx.beat ≠ 23 := by
            intro last
            have none := @beat_of_complete rx false tx.d (by simp [DbgRx.complete, change, last])
            unfold beats at whole
            omega
          rw [zero, tail_next change (by omega)]
          exact sound
        | false =>
          have going : rx.idleT ≠ 12 := by
            intro past
            have none := @beat_of_still rx false tx.d change
            rw [if_neg (by simp [past])] at none
            unfold beats at whole
            omega
          have same : tail (rx.next false false tx.d) = tail rx := by
            unfold tail
            rw [beat_of_still change, if_pos going, frame_next, if_neg (by simp [change])]
          rw [same]
          exact sound
    · left
      omega

theorem Quiet.next (quiet : Quiet begun tx rx) (fit : Fit rx) (gap : after.gap = true)
    (stb : after.stb = false)
    (step : (tx.t ≠ 0 ∧ after.t = tx.t - 1 ∧ after.d = tx.d) ∨ (after.t = 17 ∧ after.d = false)) :
    Quiet begun after (rx.next false tx.stb tx.d) := by
  have bound := quiet.t
  have settled : tx.t ≤ 14 → rx.change = false := by
    intro late
    simp [DbgRx.change, quiet.s1 (by omega), quiet.q late]
  refine ⟨gap, by omega, stb, fun late => quiet.stb, fun late => ?_, fun late => ?_, ?_, ?_⟩
  · exact quiet.s0 (by omega)
  · exact quiet.s1 (by omega)
  · intro some
    cases change : rx.change with
    | true =>
      have early : 15 ≤ tx.t := by
        by_contra late
        rw [settled (by omega)] at change
        exact absurd change (by decide)
      omega
    | false =>
      rw [beat_of_still change] at some
      have most := fit.idle
      by_cases going : rx.idleT ≠ 12
      · rw [if_pos going] at some
        have before := quiet.idle some
        rw [idleT_next, if_neg (by simp [change]), if_pos going]
        omega
      · rw [if_neg going] at some
        exact absurd rfl some
  · rw [quiet.stb]
    apply quiet.held.next fit.beat
    rcases step with ⟨_, _, same⟩ | ⟨_, zero⟩
    · exact Or.inr same
    · exact Or.inl zero

theorem quiet_reset (gap : tx.gap = true) (t : tx.t ≤ 17) (stb : tx.stb = false) :
    Quiet begun tx DbgRx.reset :=
  ⟨gap, t, stb, fun _ => rfl, fun _ => rfl, fun _ => rfl, fun some => absurd rfl some,
    Or.inl (by decide)⟩

theorem quiet_of_held (gap : tx.gap = true) (t : tx.t = 17) (stb : tx.stb = false)
    (held : Held begun tx rx) : Quiet begun tx rx :=
  ⟨gap, by omega, stb, fun late => by omega, fun late => by omega, fun late => by omega,
    fun _ => by omega, held⟩

theorem Held.levels (held : Held begun tx rx) :
    (rx.next false false tx.d).levels = rx.levels ∨ (rx.next false false tx.d).levels = 0#21 ∨
      begun (rx.next false false tx.d).levels := by
  rcases next_levels rx false tx.d with kept | lost | ⟨change, beat, complete, taken, levels⟩
  · exact Or.inl kept
  · exact Or.inr (Or.inl lost)
  right
  right
  rw [levels]
  rcases held with behind | ⟨_, spoiled | ⟨zero, v, sent, sound⟩⟩
  · have edges := pend_of_change change false
    unfold beats at behind
    omega
  · have refused := @Spoiled.refused rx tx.d spoiled beat
    rw [refused] at taken
    exact absurd taken (by decide)
  · rw [zero, tail_whole beat] at taken ⊢
    rw [sound taken]
    exact sent

end Gap

/-- The sender is reset just after its twenty-third beat, before the receiver has taken it, with ones in
the two last places of the frame. -/
def CutShort (tx : DbgTx) : Prop :=
  tx.gap = false ∧ tx.beat = 23 ∧ 4 ≤ tx.t ∧ tx.d = true ∧ tx.frame.getLsbD 23 = true

section Cut

variable {v : BitVec 21} {begun : BitVec 21 → Prop} {tx : DbgTx} {rx : DbgRx}

theorem Bits.sound_tail (bits : Bits v rx)
    (most : rx.beat = 23 ∨ rx.beat = 22 ∧
      ¬ ((frameOut v).getLsbD 0 = true ∧ (frameOut v).getLsbD 1 = true)) : Sound v (tail rx) := by
  have taken : ∀ k, 24 - rx.beat ≤ k → k < 24 → (tail rx).getLsbD k = (frameOut v).getLsbD k := by
    intro k least inside
    rw [tail_bit inside, if_pos least, bits _ (by omega)]
    congr 1
    omega
  have zeros : ∀ k, k < 24 - rx.beat → (tail rx).getLsbD k = false := by
    intro k low
    rw [tail_bit (by omega), if_neg (by omega)]
  apply sound_of_low
  · intro k least inside
    exact taken k (by omega) inside
  · rcases most with whole | ⟨short, other⟩
    · exact Or.inr (taken 1 (by omega) (by decide))
    · rw [zeros 0 (by omega), zeros 1 (by omega)]
      revert other
      cases (frameOut v).getLsbD 0 <;> cases (frameOut v).getLsbD 1 <;> decide

theorem Clean.cut (clean : Clean v tx rx) (sending : Sending v tx) (fit : Fit rx)
    (all : beats rx tx.stb = tx.beat) (sent : begun v) (uncut : ¬ CutShort tx) :
    Held begun DbgTx.reset (rx.next false tx.stb tx.d) := by
  have few := fit.beat
  have most := @beats_next_le rx tx.stb tx.d false
  have turn : (false != tx.stb).toNat = tx.beat % 2 := by
    rw [sending.stb]
    rcases Nat.mod_two_eq_zero_or_one tx.beat with even | odd
    · simp [even]
    · simp [odd]
  rw [turn, all] at most
  have upTo := sending.most
  by_cases whole : beats (rx.next false tx.stb tx.d) false = 24
  · refine Or.inr ⟨whole, Or.inr ⟨rfl, v, sent, ?_⟩⟩
    have edges := @pend_le (rx.next false tx.stb tx.d) false
    have late : tx.beat = 23 ∨ tx.beat = 24 := by omega
    have part : rx.beat ≠ 23 ∨ rx.change = false := by
      by_contra both
      simp only [not_or, not_not, Bool.not_eq_false] at both
      have none := @beat_of_complete rx tx.stb tx.d (by simp [DbgRx.complete, both])
      unfold beats at whole
      omega
    cases change : rx.change with
    | true =>
      obtain ⟨_, _, one, _⟩ := clean.of_change change
      have more : rx.beat ≠ 23 := by
        rcases part with more | still
        · exact more
        · rw [still] at change
          exact absurd change (by decide)
      unfold beats at all
      have bits : Bits v (rx.next false tx.stb tx.d) := by
        refine clean.bits.sampled change (by omega) ?_
        rw [sending.d]
        congr 1
        omega
      apply bits.sound_tail
      left
      rw [beat_of_change change more]
      omega
    | false =>
      have bits : Bits v (rx.next false tx.stb tx.d) := clean.bits.kept change
      have beat : (rx.next false tx.stb tx.d).beat = rx.beat := by
        rw [beat_of_still change]
        by_cases going : rx.idleT ≠ 12
        · rw [if_pos going]
        · rw [if_neg going]
          by_contra some
          have bound := (clean.idle (Ne.symm some)).2
          omega
      apply bits.sound_tail
      rw [beat]
      by_cases last : rx.beat = 23
      · exact Or.inl last
      · right
        -- The twenty-third beat is still in the flops, so the reset came within two ticks of it.
        have waiting : pend rx tx.stb ≠ 0 := by
          unfold beats at all
          omega
        have still : rx.s1 = rx.q := by simpa [DbgRx.change] using change
        have soon : 4 ≤ tx.t ∧ pend rx tx.stb = 1 := by
          by_cases second : rx.s0 = rx.s1
          · have first : tx.stb ≠ rx.s0 := fun same =>
              waiting ((pend_eq_zero tx.stb).mpr ⟨still, second, same⟩)
            have five := (clean.first first).2.2.2 (by omega)
            refine ⟨by omega, ?_⟩
            unfold pend
            rw [second, still]
            rw [second, still] at first
            simp [first]
          · have four := (clean.second second).2.2.2 (by omega)
            have first : tx.stb = rx.s0 := by
              by_contra other
              exact second (clean.first other).1
            refine ⟨by omega, ?_⟩
            unfold pend
            rw [first, still]
            rw [still] at second
            simp [second]
        unfold beats at all
        have beats23 : tx.beat = 23 := by omega
        refine ⟨by omega, fun ones => uncut ⟨sending.on, beats23, soon.1, ?_, ?_⟩⟩
        · rw [sending.d, beats23]
          exact ones.2
        · rw [sending.frame, beats23, BitVec.getLsbD_shiftLeft]
          simpa using ones.1
  · left
    omega

theorem Window.cut (window : Window v tx rx) (sending : Sending v tx) (fit : Fit rx) (sent : begun v)
    (uncut : ¬ CutShort tx) : Held begun DbgTx.reset (rx.next false tx.stb tx.d) := by
  have most := @beats_next_le rx tx.stb tx.d false
  have turn : (false != tx.stb).toNat = tx.beat % 2 := by
    rw [sending.stb]
    rcases Nat.mod_two_eq_zero_or_one tx.beat with even | odd
    · simp [even]
    · simp [odd]
  have upTo := sending.most
  rcases window with behind | ⟨all, clean | doomed | spoiled⟩
  · left
    omega
  · exact clean.cut sending fit all sent uncut
  · left
    rcases doomed.late with ⟨one, _⟩ | ⟨two, _⟩
    · omega
    · omega
  · exact spoiled.held fit.beat (by omega)

theorem Window.ends (window : Window v tx rx) (sending : Sending v tx) (fit : Fit rx)
    (last : tx.beat = 24) (now : tx.t = 0) {after : DbgTx} :
    Held begun after (rx.next false tx.stb tx.d) := by
  have low : tx.stb = false := by
    rw [sending.stb, last]
    rfl
  have most := @beats_next_le rx tx.stb tx.d false
  rw [low] at most
  simp only [bne_self_eq_false, Bool.toNat_false, Nat.add_zero] at most
  rcases window with behind | ⟨all, clean | doomed | spoiled⟩
  · left
    rw [low] at behind ⊢
    omega
  · left
    have few := fit.beat
    have waiting : pend rx tx.stb ≠ 0 := by
      unfold beats at all
      omega
    obtain ⟨first, second⟩ := clean.level (by omega)
    have change : rx.change = true := by
      cases change : rx.change with
      | true => rfl
      | false =>
        have still : rx.s1 = rx.q := by simpa [DbgRx.change] using change
        exact absurd ((pend_eq_zero tx.stb).mpr ⟨still, second, first⟩) waiting
    obtain ⟨_, _, one, _⟩ := clean.of_change change
    have complete : rx.complete = true := by
      unfold beats at all
      simp [DbgRx.complete, change, show rx.beat = 23 by omega]
    have edges := @pend_le (rx.next false tx.stb tx.d) false
    unfold beats
    rw [beat_of_complete complete]
    omega
  · rcases doomed.late with ⟨one, _⟩ | ⟨two, _⟩
    · omega
    · omega
  · rw [low] at all ⊢
    exact spoiled.held fit.beat (by omega)

end Cut

/-- The two ends: the sender quiet or in a frame it began, with its levels; and what the receiver gives
out was sent. -/
structure Linked (begun : BitVec 21 → Prop) (v : BitVec 21) (tx : DbgTx) (rx : DbgRx) : Prop where
  fit : Fit rx
  state : Quiet begun tx rx ∨ Sending v tx ∧ begun v ∧ Window v tx rx
  levels : rx.levels = 0#21 ∨ begun rx.levels

section Link

variable {v levels : BitVec 21} {begun later : BitVec 21 → Prop} {tx : DbgTx} {rx : DbgRx}

theorem Quiet.mono (quiet : Quiet begun tx rx) (more : ∀ u, begun u → later u) :
    Quiet later tx rx := by
  refine ⟨quiet.gap, quiet.t, quiet.stb, quiet.s0, quiet.s1, quiet.q, quiet.idle, ?_⟩
  rcases quiet.held with behind | ⟨all, spoiled | ⟨zero, u, sent, sound⟩⟩
  · exact Or.inl behind
  · exact Or.inr ⟨all, Or.inl spoiled⟩
  · exact Or.inr ⟨all, Or.inr ⟨zero, u, more u sent, sound⟩⟩

theorem Quiet.between (quiet : Quiet begun tx rx) (now : tx.t = 0) :
    rx.beat = 0 ∧ rx.s0 = false ∧ rx.s1 = false ∧ rx.q = false := by
  refine ⟨?_, quiet.s0 (by omega), quiet.s1 (by omega), quiet.q (by omega)⟩
  by_contra some
  have wait := (quiet.idle some).1
  omega

theorem clean_of_begins (gap : tx.gap = true) (stb : tx.stb = false) (now : tx.t = 0)
    (none : rx.beat = 0) (s0 : rx.s0 = false) (s1 : rx.s1 = false) (q : rx.q = false) :
    Clean levels (tx.next false levels) (rx.next false tx.stb tx.d) ∧
      beats (rx.next false tx.stb tx.d) (tx.next false levels).stb =
        (tx.next false levels).beat := by
  obtain ⟨_, one, five, up⟩ := sending_of_begins levels gap now stb
  have still : rx.change = false := by simp [DbgRx.change, s1, q]
  have beat : (rx.next false tx.stb tx.d).beat = 0 := by
    rw [beat_of_still still, none, ite_self]
  refine ⟨⟨?_, fun _ => ⟨?_, ?_, by omega, fun more => by omega⟩, fun edge => absurd ?_ edge,
    fun edge => absurd ?_ edge, fun some => absurd beat some⟩, ?_⟩
  · intro m inside
    rw [beat] at inside
    exact absurd inside (Nat.not_lt_zero m)
  · exact stb.trans s0.symm
  · exact s0.trans s1.symm
  · exact stb.trans s0.symm
  · exact s0.trans s1.symm
  · unfold beats
    rw [beat, one, up]
    change 0 + ((rx.s0 != rx.s1).toNat + (tx.stb != rx.s0).toNat + (true != tx.stb).toNat) = 1
    rw [s0, s1, stb]
    rfl

theorem Linked.next (linked : Linked begun v tx rx) {txRst rxRst : Bool}
    (uncut : txRst = true → ¬ CutShort tx) (more : ∀ u, begun u → later u)
    (starts : tx.begins txRst = true → later levels) :
    Linked later (if tx.begins txRst then levels else v) (tx.next txRst levels)
      (rx.next rxRst tx.stb tx.d) := by
  have fit := linked.fit
  refine ⟨fit.next _ _ _, ?_, ?_⟩
  · rcases linked.state with quiet | ⟨sending, sent, window⟩
    · have still := quiet.mono more
      have bound := quiet.t
      by_cases starting : tx.begins txRst = true
      · -- A frame begins.
        rw [if_pos starting]
        have parts : (txRst = false ∧ tx.t = 0) ∧ tx.gap = true := by
          simpa [DbgTx.begins] using starting
        obtain ⟨⟨rst, now⟩, gap⟩ := parts
        subst rst
        right
        refine ⟨(sending_of_begins levels gap now quiet.stb).1, starts starting, ?_⟩
        cases rxRst with
        | true => exact window_reset (sending_of_begins levels gap now quiet.stb).1
        | false =>
          obtain ⟨none, s0, s1, q⟩ := quiet.between now
          obtain ⟨clean, all⟩ := @clean_of_begins levels tx rx gap quiet.stb now none s0 s1 q
          exact Or.inr ⟨all, Or.inl clean⟩
      · left
        have after : (tx.next txRst levels).gap = true ∧ (tx.next txRst levels).stb = false ∧
            (tx.next txRst levels).t ≤ 17 ∧
            ((tx.t ≠ 0 ∧ (tx.next txRst levels).t = tx.t - 1 ∧
                (tx.next txRst levels).d = tx.d) ∨
              ((tx.next txRst levels).t = 17 ∧ (tx.next txRst levels).d = false)) := by
          cases txRst with
          | true => exact ⟨rfl, rfl, Nat.le_refl 17, Or.inr ⟨rfl, rfl⟩⟩
          | false =>
            have wait : tx.t ≠ 0 := by
              intro now
              exact starting (by simp [DbgTx.begins, now, quiet.gap])
            have next : tx.next false levels = { tx with t := tx.t - 1 } := by
              simp [DbgTx.next, wait]
            rw [next]
            refine ⟨quiet.gap, quiet.stb, ?_, Or.inl ⟨wait, rfl, rfl⟩⟩
            change tx.t - 1 ≤ 17
            omega
        cases rxRst with
        | true => exact quiet_reset after.1 after.2.2.1 after.2.1
        | false => exact still.next fit after.1 after.2.1 after.2.2.2
    · have busy : tx.begins txRst = false := by simp [DbgTx.begins, sending.on]
      simp only [busy, Bool.false_eq_true, if_false]
      cases txRst with
      | true =>
        left
        cases rxRst with
        | true => exact quiet_reset rfl (Nat.le_refl 17) rfl
        | false =>
          exact quiet_of_held rfl rfl rfl (window.cut sending fit (more v sent) (uncut rfl))
      | false =>
        rcases sending.next levels with ⟨wait, next⟩ | ⟨now, _, still, beat, five, flips⟩ |
          ⟨now, last, next⟩
        · right
          rw [next]
          have still := sending.wait
          refine ⟨still, more v sent, ?_⟩
          cases rxRst with
          | true => exact window_reset still
          | false => exact window.next sending fit.beat (Or.inl ⟨wait, rfl, rfl, rfl⟩)
        · right
          refine ⟨still, more v sent, ?_⟩
          cases rxRst with
          | true => exact window_reset still
          | false => exact window.next sending fit.beat (Or.inr ⟨now, five, beat, flips⟩)
        · left
          have low : tx.stb = false := by
            rw [sending.stb, last]
            rfl
          rw [next]
          cases rxRst with
          | true => exact quiet_reset rfl (Nat.le_refl 17) low
          | false =>
            exact quiet_of_held rfl rfl low (window.ends sending fit last now)
  · cases rxRst with
    | true => exact Or.inl rfl
    | false =>
      have given : (rx.next false tx.stb tx.d).levels = rx.levels ∨
          (rx.next false tx.stb tx.d).levels = 0#21 ∨
          begun (rx.next false tx.stb tx.d).levels := by
        rcases linked.state with quiet | ⟨sending, sent, window⟩
        · rw [quiet.stb]
          exact quiet.held.levels
        · rcases window.levels sending with same | zero | new
          · exact Or.inl same
          · exact Or.inr (Or.inl zero)
          · rw [new]
            exact Or.inr (Or.inr sent)
      rcases given with same | zero | new
      · rw [same]
        exact linked.levels.imp_right (more _)
      · exact Or.inl zero
      · exact Or.inr (more _ new)

end Link

/-- The ends in step: the receiver clean in the frame, done with its last beat, or between frames with
its levels given out. -/
inductive Synced (v : BitVec 21) (tx : DbgTx) (rx : DbgRx) : Prop
  | inFrame (sending : Sending v tx) (all : beats rx tx.stb = tx.beat) (clean : Clean v tx rx)
  | done (sending : Sending v tx) (last : tx.beat = 24) (none : rx.beat = 0)
      (settled : pend rx tx.stb = 0) (levels : rx.levels = v) (recent : rx.lossT + tx.t ≤ 5)
  | between (gap : tx.gap = true) (stb : tx.stb = false) (none : rx.beat = 0)
      (settled : pend rx tx.stb = 0) (levels : rx.levels = v) (recent : rx.lossT + tx.t ≤ 23)

section Step

variable {v levels : BitVec 21} {tx : DbgTx} {rx : DbgRx}

theorem still_next (none : rx.beat = 0) (settled : pend rx tx.stb = 0) (recent : rx.lossT < 1024) :
    (rx.next false tx.stb tx.d).beat = 0 ∧ (rx.next false tx.stb tx.d).levels = rx.levels ∧
      (rx.next false tx.stb tx.d).lossT = rx.lossT + 1 ∧
      pend (rx.next false tx.stb tx.d) tx.stb = 0 := by
  have still : rx.change = false := by
    have same := ((pend_eq_zero tx.stb).mp settled).1
    simp [DbgRx.change, same]
  have part : rx.complete = false := by simp [DbgRx.complete, still]
  have edges := @pend_next rx tx.stb tx.d tx.stb
  have young : rx.lossT ≠ 1024 := by omega
  refine ⟨?_, ?_, ?_, ?_⟩
  · rw [beat_of_still still, none, ite_self]
  · simp [DbgRx.next, part, young]
  · simp [DbgRx.next, part, young]
  · simp only [still, settled, bne_self_eq_false, Bool.toNat_false, Nat.add_zero] at edges
    exact edges

theorem levels_of_whole (complete : rx.complete = true) (whole : rx.rxNext tx.d = frameOut v) :
    (rx.next false tx.stb tx.d).beat = 0 ∧ (rx.next false tx.stb tx.d).levels = v ∧
      (rx.next false tx.stb tx.d).lossT = 0 := by
  refine ⟨beat_of_complete complete, ?_, ?_⟩
  · simp [DbgRx.next, complete, whole, good_frameOut, levelsOf_frameOut]
  · simp [DbgRx.next, complete, whole, good_frameOut]

theorem Synced.next (synced : Synced v tx rx) (fit : Fit rx) :
    Synced (if tx.begins false then levels else v) (tx.next false levels)
      (rx.next false tx.stb tx.d) := by
  cases synced with
  | inFrame sending all clean =>
    have busy : tx.begins false = false := by simp [DbgTx.begins, sending.on]
    simp only [busy, Bool.false_eq_true, if_false]
    have few := fit.beat
    cases complete : rx.complete with
    | true =>
      obtain ⟨last, whole⟩ := clean.whole sending all complete
      obtain ⟨none, given, young⟩ := levels_of_whole complete whole
      have change : rx.change = true := by
        unfold DbgRx.complete at complete
        exact (Bool.and_eq_true _ _ ▸ complete).1
      obtain ⟨_, _, one, late⟩ := clean.of_change change
      have edges := @pend_next rx tx.stb tx.d tx.stb
      simp only [change, one, bne_self_eq_false, Bool.toNat_false, Bool.toNat_true] at edges
      rcases sending.next levels with ⟨wait, next⟩ | ⟨_, other, _⟩ | ⟨now, _, next⟩
      · rw [next]
        have still := sending.wait
        refine Synced.done still last none (by exact Nat.succ.inj edges) given ?_
        change _ + (tx.t - 1) ≤ 5
        omega
      · exact absurd last other
      · rw [next]
        have low : tx.stb = false := by
          rw [sending.stb, last]
          rfl
        refine Synced.between rfl low none (by exact Nat.succ.inj edges) given ?_
        change _ + 17 ≤ 23
        omega
    | false =>
      rcases sending.next levels with ⟨wait, next⟩ | ⟨now, _, still, beat, five, flips⟩ |
        ⟨now, last, next⟩
      · rw [next]
        have still := sending.wait
        have step : Goes tx { tx with t := tx.t - 1 } := Or.inl ⟨wait, rfl, rfl, rfl⟩
        obtain ⟨after, count⟩ := clean.next sending all complete step
        exact Synced.inFrame still (count.trans step.beat.symm) after
      · have step : Goes tx (tx.next false levels) := Or.inr ⟨now, five, beat, flips⟩
        obtain ⟨after, count⟩ := clean.next sending all complete step
        exact Synced.inFrame still (count.trans step.beat.symm) after
      · -- The last beat is seen before the gap.
        have waiting : pend rx tx.stb ≠ 0 := by
          unfold beats at all
          omega
        obtain ⟨first, second⟩ := clean.level (by omega)
        cases change : rx.change with
        | false =>
          have still : rx.s1 = rx.q := by simpa [DbgRx.change] using change
          exact absurd ((pend_eq_zero tx.stb).mpr ⟨still, second, first⟩) waiting
        | true =>
          obtain ⟨_, _, one, _⟩ := clean.of_change change
          unfold beats at all
          simp [DbgRx.complete, change, show rx.beat = 23 by omega] at complete
  | done sending last none settled given recent =>
    have busy : tx.begins false = false := by simp [DbgTx.begins, sending.on]
    simp only [busy, Bool.false_eq_true, if_false]
    obtain ⟨noneN, same, older, settledN⟩ := still_next none settled (by omega)
    rcases sending.next levels with ⟨wait, next⟩ | ⟨_, other, _⟩ | ⟨now, _, next⟩
    · rw [next]
      have still := sending.wait
      refine Synced.done still last noneN settledN (same.trans given) ?_
      change _ + (tx.t - 1) ≤ 5
      omega
    · exact absurd last other
    · rw [next]
      have low : tx.stb = false := by
        rw [sending.stb, last]
        rfl
      refine Synced.between rfl low noneN settledN (same.trans given) ?_
      change _ + 17 ≤ 23
      omega
  | between gap stb none settled given recent =>
    by_cases now : tx.t = 0
    · have starts : tx.begins false = true := by simp [DbgTx.begins, now, gap]
      rw [if_pos starts]
      obtain ⟨q, s1, s0⟩ := (pend_eq_zero tx.stb).mp settled
      have s0' : rx.s0 = false := s0.symm.trans stb
      have s1' : rx.s1 = false := s1.symm.trans s0'
      obtain ⟨clean, all⟩ :=
        @clean_of_begins levels tx rx gap stb now none s0' s1' (q.symm.trans s1')
      exact Synced.inFrame (sending_of_begins levels gap now stb).1 all clean
    · have waits : tx.begins false = false := by simp [DbgTx.begins, now]
      simp only [waits, Bool.false_eq_true, if_false]
      obtain ⟨noneN, same, older, settledN⟩ := still_next none settled (by omega)
      have next : tx.next false levels = { tx with t := tx.t - 1 } := by simp [DbgTx.next, now]
      rw [next]
      refine Synced.between gap stb noneN settledN (same.trans given) ?_
      change _ + (tx.t - 1) ≤ 23
      omega

end Step

/-- The levels at the first beat of the newest frame. -/
def snapshot (inputs : Nat → LinkInput) : Nat → BitVec 21
  | 0 => 0#21
  | tick + 1 =>
    if (txRun inputs tick).begins (inputs tick).txRst then (inputs tick).txLevels
    else snapshot inputs tick

/-- The sender began a frame with these levels before a tick. -/
def Begun (inputs : Nat → LinkInput) (tick : Nat) (v : BitVec 21) : Prop :=
  ∃ first, first < tick ∧ (txRun inputs first).begins (inputs first).txRst = true ∧
    (inputs first).txLevels = v

/-- Both ends have been out of reset for two whole frames, the sender as the lines bring it. -/
def Settled (delay : Nat) (inputs : Nat → LinkInput) (tick : Nat) : Prop :=
  324 + delay ≤ tick ∧
    (∀ earlier, earlier + delay < tick → tick ≤ earlier + delay + 324 →
      (inputs earlier).txRst = false) ∧
    ∀ earlier, earlier < tick → tick ≤ earlier + 324 → (inputs earlier).rxRst = false

section Run

variable {inputs : Nat → LinkInput}

theorem txRun_succ (tick : Nat) : txRun inputs (tick + 1) =
    (txRun inputs tick).next (inputs tick).txRst (inputs tick).txLevels := rfl

theorem rxRun_succ (tick : Nat) : rxRun 0 inputs (tick + 1) =
    (rxRun 0 inputs tick).next (inputs tick).rxRst (txRun inputs tick).stb
      (txRun inputs tick).d := rfl

/-- The two ends stay linked in every run with no frame cut short. -/
theorem linked_run (uncut : ∀ tick, (inputs tick).txRst = true → ¬ CutShort (txRun inputs tick))
    (tick : Nat) :
    Linked (Begun inputs tick) (snapshot inputs tick) (txRun inputs tick) (rxRun 0 inputs tick) := by
  induction tick with
  | zero =>
    exact ⟨fit_reset, Or.inl (quiet_reset rfl (Nat.le_refl 17) rfl), Or.inl rfl⟩
  | succ tick ih =>
    rw [txRun_succ, rxRun_succ]
    apply ih.next (uncut tick)
    · rintro v ⟨first, early, starts, levels⟩
      exact ⟨first, Nat.lt_succ_of_lt early, starts, levels⟩
    · intro starts
      exact ⟨tick, Nat.lt_succ_self tick, starts, rfl⟩

/-- The ticks a sender is from the beginning of its next frame. -/
def untilBegins (tx : DbgTx) : Nat := if tx.gap then tx.t else tx.t + 18 + 6 * (24 - tx.beat)

theorem untilBegins_next {begun : BitVec 21 → Prop} {v levels : BitVec 21} {tx : DbgTx} {rx : DbgRx}
    (linked : Linked begun v tx rx) (waits : tx.begins false = false) :
    untilBegins (tx.next false levels) + 1 = untilBegins tx := by
  unfold untilBegins
  rcases linked.state with quiet | ⟨sending, _, _⟩
  · have wait : tx.t ≠ 0 := by
      intro now
      simp [DbgTx.begins, now, quiet.gap] at waits
    have next : tx.next false levels = { tx with t := tx.t - 1 } := by simp [DbgTx.next, wait]
    rw [next, if_pos quiet.gap, if_pos quiet.gap]
    change tx.t - 1 + 1 = tx.t
    omega
  · have off : ¬ tx.gap = true := by simp [sending.on]
    have most := sending.most
    rw [if_neg off]
    rcases sending.next levels with ⟨wait, next⟩ | ⟨now, other, still, beat, five, _⟩ |
      ⟨now, last, next⟩
    · rw [next, if_neg off]
      change tx.t - 1 + 18 + 6 * (24 - tx.beat) + 1 = _
      omega
    · rw [if_neg (by simp [still.on]), beat, five]
      omega
    · rw [next, if_pos rfl]
      change 17 + 1 = _
      omega

theorem begins_soon (uncut : ∀ tick, (inputs tick).txRst = true → ¬ CutShort (txRun inputs tick))
    {tick bound : Nat} (near : untilBegins (txRun inputs tick) ≤ bound)
    (unreset : ∀ later, tick ≤ later → later ≤ tick + bound → (inputs later).txRst = false) :
    ∃ first, tick ≤ first ∧ first ≤ tick + bound ∧
      (txRun inputs first).begins (inputs first).txRst = true := by
  induction bound generalizing tick with
  | zero =>
    refine ⟨tick, Nat.le_refl tick, Nat.le_refl tick, ?_⟩
    cases waits : (txRun inputs tick).begins (inputs tick).txRst with
    | true => rfl
    | false =>
      rw [unreset tick (Nat.le_refl tick) (Nat.le_refl tick)] at waits
      have nearer := @untilBegins_next _ _ (inputs tick).txLevels _ _ (linked_run uncut tick) waits
      omega
  | succ bound ih =>
    cases waits : (txRun inputs tick).begins (inputs tick).txRst with
    | true => exact ⟨tick, Nat.le_refl tick, by omega, waits⟩
    | false =>
      have rst := unreset tick (Nat.le_refl tick) (by omega)
      rw [rst] at waits
      have nearer := @untilBegins_next _ _ (inputs tick).txLevels _ _ (linked_run uncut tick) waits
      have next : untilBegins (txRun inputs (tick + 1)) ≤ bound := by
        rw [txRun_succ, rst]
        omega
      obtain ⟨first, after, upTo, starts⟩ := ih next fun later after upTo =>
        unreset later (by omega) (by omega)
      exact ⟨first, by omega, by omega, starts⟩

/-- And once settled stay synced. -/
theorem synced_run (uncut : ∀ tick, (inputs tick).txRst = true → ¬ CutShort (txRun inputs tick))
    {tick : Nat} (settled : Settled 0 inputs tick) :
    Synced (snapshot inputs tick) (txRun inputs tick) (rxRun 0 inputs tick) := by
  obtain ⟨long, tx, rx⟩ := settled
  have near : untilBegins (txRun inputs (tick - 324)) ≤ 161 := by
    unfold untilBegins
    rcases (linked_run uncut (tick - 324)).state with quiet | ⟨sending, _, _⟩
    · have bound := quiet.t
      rw [if_pos quiet.gap]
      omega
    · have bound := sending.t
      have least := sending.least
      rw [if_neg (by simp [sending.on])]
      omega
  obtain ⟨first, after, upTo, starts⟩ := begins_soon uncut near fun later after upTo =>
    tx later (by omega) (by omega)
  have begin : Synced (snapshot inputs (first + 1)) (txRun inputs (first + 1))
      (rxRun 0 inputs (first + 1)) := by
    have linked := linked_run uncut first
    have parts : ((inputs first).txRst = false ∧ (txRun inputs first).t = 0) ∧
        (txRun inputs first).gap = true := by
      simpa [DbgTx.begins] using starts
    obtain ⟨⟨rst, now⟩, gap⟩ := parts
    rcases linked.state with quiet | ⟨sending, _, _⟩
    · obtain ⟨none, s0, s1, q⟩ := quiet.between now
      have levels : snapshot inputs (first + 1) = (inputs first).txLevels := if_pos starts
      rw [levels, txRun_succ, rxRun_succ, rst, rx first (by omega) (by omega)]
      obtain ⟨clean, all⟩ := @clean_of_begins (inputs first).txLevels (txRun inputs first)
        (rxRun 0 inputs first) gap quiet.stb now none s0 s1 q
      exact Synced.inFrame (sending_of_begins _ gap now quiet.stb).1 all clean
    · rw [sending.on] at gap
      exact absurd gap (by decide)
  have onward : ∀ later, first + 1 ≤ later → later ≤ tick →
      Synced (snapshot inputs later) (txRun inputs later) (rxRun 0 inputs later) := by
    intro later after
    induction later, after using Nat.le_induction with
    | base => exact fun _ => begin
    | succ later after ih =>
      intro upTo
      have step := @Synced.next _ (inputs later).txLevels _ _ (ih (by omega))
        (linked_run uncut later).fit
      have txRst := tx later (by omega) (by omega)
      rw [txRun_succ, rxRun_succ, txRst, rx later (by omega) (by omega)]
      unfold snapshot
      rw [txRst]
      exact step
  exact onward tick (by omega) (Nat.le_refl tick)

/-- What a line with a delay brings is what a sender held in reset for the delay would send. -/
def delayed (delay : Nat) (inputs : Nat → LinkInput) (tick : Nat) : LinkInput where
  txRst := decide (tick < delay) || (inputs (tick - delay)).txRst
  txLevels := (inputs (tick - delay)).txLevels
  rxRst := (inputs tick).rxRst

theorem txRun_delayed (delay tick : Nat) : txRun (delayed delay inputs) tick =
    if tick < delay then DbgTx.reset else txRun inputs (tick - delay) := by
  induction tick with
  | zero =>
    rw [Nat.zero_sub]
    exact (ite_self _).symm
  | succ tick ih =>
    rw [txRun_succ, ih]
    by_cases before : tick < delay
    · have reset : ∀ tx : DbgTx, tx.next (delayed delay inputs tick).txRst
          (delayed delay inputs tick).txLevels = DbgTx.reset := by
        intro tx
        simp [delayed, before, DbgTx.next]
      rw [reset]
      by_cases still : tick + 1 < delay
      · rw [if_pos still]
      · have now : tick + 1 - delay = 0 := by omega
        rw [if_neg still, now]
        rfl
    · have next : tick + 1 - delay = (tick - delay) + 1 := by omega
      rw [if_neg before, if_neg (by omega), next, txRun_succ]
      simp [delayed, before]

theorem rxRun_delayed (delay tick : Nat) :
    rxRun delay inputs tick = rxRun 0 (delayed delay inputs) tick := by
  induction tick with
  | zero => rfl
  | succ tick ih =>
    have next : rxRun delay inputs (tick + 1) = (rxRun delay inputs tick).next (inputs tick).rxRst
        (lineStb delay inputs tick) (lineD delay inputs tick) := rfl
    have lines : lineStb delay inputs tick = (txRun (delayed delay inputs) tick).stb ∧
        lineD delay inputs tick = (txRun (delayed delay inputs) tick).d := by
      unfold lineStb lineD
      rw [txRun_delayed]
      by_cases before : tick < delay
      · simp [before, DbgTx.reset]
      · simp [before]
    rw [next, rxRun_succ, ih, lines.1, lines.2]
    rfl

theorem begins_delayed {delay tick : Nat}
    (starts : (txRun (delayed delay inputs) tick).begins (delayed delay inputs tick).txRst = true) :
    delay ≤ tick ∧
      (txRun inputs (tick - delay)).begins (inputs (tick - delay)).txRst = true := by
  rw [txRun_delayed] at starts
  by_cases before : tick < delay
  · simp [delayed, before, DbgTx.begins] at starts
  · rw [if_neg before] at starts
    refine ⟨by omega, ?_⟩
    simpa [delayed, before] using starts

theorem snapshot_delayed (delay tick : Nat) :
    snapshot (delayed delay inputs) tick = snapshot inputs (tick - delay) := by
  induction tick with
  | zero =>
    rw [Nat.zero_sub]
    rfl
  | succ tick ih =>
    unfold snapshot
    rw [ih, txRun_delayed]
    by_cases before : tick < delay
    · have none : tick + 1 - delay = 0 := by omega
      have waits : tick - delay = 0 := by omega
      rw [none, waits]
      simp [delayed, before, DbgTx.begins, snapshot]
    · have next : tick + 1 - delay = (tick - delay) + 1 := by omega
      rw [next]
      simp [delayed, before]

/-- The debug cable delivers what was sent, over lines of any delay and with resets of either end at any
ticks, as long as no reset of the sender cuts a frame short in the two ticks after its twenty-third beat
with ones in the two last places: what the receiver gives out is zero or the levels at the first beat of
a frame the sender began; and once both ends have been out of reset for two frames no frame is refused,
each that completes gives out its own levels, and in the gap after it they stand. -/
theorem link_delivers (delay : Nat) (inputs : Nat → LinkInput)
    (uncut : ∀ tick, (inputs tick).txRst = true → ¬ CutShort (txRun inputs tick)) (tick : Nat) :
    ((rxRun delay inputs tick).levels = 0#21 ∨
      ∃ first, first + delay < tick ∧
        (txRun inputs first).begins (inputs first).txRst = true ∧
        (inputs first).txLevels = (rxRun delay inputs tick).levels) ∧
    (Settled delay inputs tick →
      (rxRun delay inputs tick).frameBad (lineD delay inputs tick) = false ∧
      ((rxRun delay inputs tick).frameDone = true → (inputs tick).rxRst = false →
        (rxRun delay inputs (tick + 1)).levels = snapshot inputs (tick - delay)) ∧
      ((txRun inputs (tick - delay)).gap = true →
        (rxRun delay inputs tick).levels = snapshot inputs (tick - delay))) := by
  have uncutD : ∀ tick, (delayed delay inputs tick).txRst = true →
      ¬ CutShort (txRun (delayed delay inputs) tick) := by
    intro tick rst
    rw [txRun_delayed]
    by_cases before : tick < delay
    · rw [if_pos before]
      rintro ⟨off, _⟩
      exact absurd off (by decide)
    · rw [if_neg before]
      apply uncut
      simpa [delayed, before] using rst
  constructor
  · rw [rxRun_delayed]
    rcases (linked_run uncutD tick).levels with zero | ⟨first, early, starts, levels⟩
    · exact Or.inl zero
    · obtain ⟨after, begins⟩ := begins_delayed starts
      exact Or.inr ⟨first - delay, by omega, begins, levels⟩
  · rintro ⟨long, tx, rx⟩
    have settled : Settled 0 (delayed delay inputs) tick := by
      refine ⟨by omega, fun earlier early recent => ?_, rx⟩
      have later : ¬ earlier < delay := by omega
      have unreset := tx (earlier - delay) (by omega) (by omega)
      simp [delayed, later, unreset]
    have synced := synced_run uncutD settled
    have line : lineD delay inputs tick = (txRun (delayed delay inputs) tick).d := by
      unfold lineD
      rw [txRun_delayed, if_neg (by omega), if_neg (by omega)]
    have now : txRun (delayed delay inputs) tick = txRun inputs (tick - delay) := by
      rw [txRun_delayed, if_neg (by omega)]
    rw [snapshot_delayed] at synced
    have next : (inputs tick).rxRst = false → rxRun delay inputs (tick + 1) =
        (rxRun 0 (delayed delay inputs) tick).next false
          (txRun (delayed delay inputs) tick).stb (txRun (delayed delay inputs) tick).d := by
      intro rst
      rw [rxRun_delayed, rxRun_succ]
      simp [delayed, rst]
    rw [line, rxRun_delayed]
    -- Only a clean receiver at the last beat completes.
    have whole : (rxRun 0 (delayed delay inputs) tick).complete = true →
        (rxRun 0 (delayed delay inputs) tick).rxNext (txRun (delayed delay inputs) tick).d =
          frameOut (snapshot inputs (tick - delay)) := by
      intro complete
      have change : (rxRun 0 (delayed delay inputs) tick).change = true := by
        unfold DbgRx.complete at complete
        exact (Bool.and_eq_true _ _ ▸ complete).1
      have edges : pend (rxRun 0 (delayed delay inputs) tick)
          (txRun (delayed delay inputs) tick).stb ≠ 0 := by
        rw [Ne, pend_eq_zero]
        rintro ⟨same, _⟩
        simp [DbgRx.change, same] at change
      cases synced with
      | inFrame sending all clean => exact (clean.whole sending all complete).2
      | done _ _ _ none => exact absurd none edges
      | between _ _ _ none => exact absurd none edges
    refine ⟨?_, fun done rst => ?_, fun gap => ?_⟩
    · unfold DbgRx.frameBad
      cases complete : (rxRun 0 (delayed delay inputs) tick).complete with
      | false => rfl
      | true =>
        rw [whole complete, good_frameOut]
        rfl
    · rw [next rst]
      exact (levels_of_whole done (whole done)).2.1
    · cases synced with
      | inFrame sending _ _ =>
        rw [now] at sending
        rw [sending.on] at gap
        exact absurd gap (by decide)
      | done sending =>
        rw [now] at sending
        rw [sending.on] at gap
        exact absurd gap (by decide)
      | between _ _ _ _ given => exact given

end Run

/-- Levels that change in a frame's middle, with the sender reset for a tick of the same frame. -/
def resetOnce (tick : Nat) : LinkInput := ⟨tick == 20, if tick < 20 then 7#21 else 5#21, false⟩

/-- The later levels stand at the far end of a line of three ticks. -/
theorem link_delivers_reset : (rxRun 3 resetOnce 350).levels = 5#21 := by
  have uncut : ∀ tick, (resetOnce tick).txRst = true → ¬ CutShort (txRun resetOnce tick) := by
    intro tick rst
    rw [eq_of_beq rst]
    rintro ⟨-, beat, -⟩
    exact absurd beat (by decide)
  have delivered := (link_delivers 3 resetOnce uncut 350).2
    ⟨by decide, fun earlier _ recent => beq_false_of_ne (by omega), fun _ _ _ => rfl⟩
  rw [delivered.2.2 (by decide +kernel)]
  decide +kernel

/-- The sender is reset for one tick, the tick after its twenty-third beat. -/
def cutAfter (tick : Nat) : LinkInput := ⟨tick == 151, 7#21, false⟩

/-- The two last bits of the frame are lost and the parity does not tell: the receiver gives out levels
that were never sent. -/
theorem levels_never_sent : CutShort (txRun cutAfter 151) ∧
    (rxRun 0 cutAfter 155).levels = 4#21 ∧
    ∀ tick, (cutAfter tick).txLevels ≠ (rxRun 0 cutAfter 155).levels := by
  have given : (rxRun 0 cutAfter 155).levels = 4#21 := by decide +kernel
  refine ⟨by unfold CutShort; decide +kernel, given, fun tick => ?_⟩
  rw [given]
  exact show (7#21 : BitVec 21) ≠ 4#21 by decide

end MuirFpga.Plumbing
