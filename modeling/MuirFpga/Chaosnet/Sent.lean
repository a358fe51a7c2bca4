import MuirFpga.Chaosnet.Cable

/-!
# What the Chaosnet interface transmits

The frame Linux takes is the one that a single START sent: the words written before it, the address and the
check word, whole in the window from the frame's arrival to its take, for as long as no other START has been
answered. A take gives the card its one pulse, and nothing else does but a START of three words or fewer.
-/

namespace MuirFpga.Chaosnet

open Plumbing Sync

namespace Chaos

section Packet

variable (b : Buffers) (ticks : Nat → ChaosTick)

/-- The machine clears the transmitter, or resets the interface, in this tick. -/
def Wipes (i : ChaosTick) : Bool := Card.resetNow i.init i.access || i.access.clearTransmitter

/-- What a tick makes of the words written. -/
def extend (i : ChaosTick) (words : List Word) : List Word :=
  if Wipes i then []
  else match i.access with
    | .write w => words ++ [w]
    | .start => []
    | _ => words

/-- The words written since the START, Clear Transmitter or Reset before. -/
def packet : Nat → List Word
  | 0 => []
  | clock + 1 => extend (ticks clock) (packet clock)

/-- The transmit buffer and its count hold the packet, its last 256 words. -/
structure Holds (clock : Nat) : Prop where
  wn : (run b ticks clock).card.tx.wn = (packet ticks clock).length % 256
  wcheck : (run b ticks clock).card.tx.wcheck = (packet ticks clock).foldl crcWord 0
  xmit : ∀ k (inside : k < (packet ticks clock).length), (packet ticks clock).length ≤ k + 256 →
    (run b ticks clock).card.tx.xmit (k % 256) = (packet ticks clock)[k]

variable {b ticks} {clock : Nat}

theorem packet_succ : packet ticks (clock + 1) = extend (ticks clock) (packet ticks clock) := rfl

theorem length_extend (i : ChaosTick) (words : List Word) : (extend i words).length ≤ words.length + 1 := by
  unfold extend
  cases Wipes i with
  | true => exact Nat.zero_le _
  | false =>
    cases i.access with
    | write w => exact Nat.le_of_eq List.length_append
    | start => exact Nat.zero_le _
    | idle | csr | read => exact Nat.le_succ _

theorem extend_start {i : ChaosTick} (access : i.access = .start) (words : List Word) : extend i words = [] := by
  rw [extend, access]
  cases Wipes i <;> rfl

theorem tx_succ : (run b ticks (clock + 1)).card.tx = (run b ticks clock).card.tx.next
    (Card.resetNow (ticks clock).init (ticks clock).access) (ticks clock).access
    (run b ticks clock).cable.regs.myAddr (run b ticks clock).cable.tx.txDone
    (run b ticks clock).cable.tx.txAbort := rfl

theorem wn_next (s : Transmitter) (i : ChaosTick) (address : Word) (done abort : Bool) :
    (s.next (Card.resetNow i.init i.access) i.access address done abort).wn =
        (if Wipes i then 0 else match i.access with
          | .write _ => (s.wn + 1) % 256
          | .start => 0
          | _ => s.wn) ∧
      (s.next (Card.resetNow i.init i.access) i.access address done abort).wcheck =
        if Wipes i then 0 else match i.access with
          | .write w => crcWord s.wcheck w
          | .start => 0
          | _ => s.wcheck := by
  unfold Transmitter.next
  rw [show (Card.resetNow i.init i.access || i.access.clearTransmitter) = Wipes i from rfl]
  cases wipes : Wipes i with
  | true => simp [Transmitter.wn, Transmitter.wcheck]
  | false => cases i.access <;> simp [Transmitter.wn, Transmitter.wcheck]

theorem xmit_succ : (run b ticks (clock + 1)).card.tx.xmit =
    match (ticks clock).access with
    | .write w => Function.update (run b ticks clock).card.tx.xmit (run b ticks clock).card.tx.wn w
    | _ => (run b ticks clock).card.tx.xmit := rfl

theorem Holds.write (holds : Holds b ticks clock) {w : Word} (access : (ticks clock).access = .write w) (k : Nat)
    (inside : k < (packet ticks clock ++ [w]).length) (late : (packet ticks clock ++ [w]).length ≤ k + 256) :
    (run b ticks (clock + 1)).card.tx.xmit (k % 256) = (packet ticks clock ++ [w])[k] := by
  rw [xmit_succ, access, holds.wn]
  dsimp only
  rw [List.length_append, List.length_singleton] at inside late
  by_cases last : k = (packet ticks clock).length
  · subst last
    rw [Function.update_self, List.getElem_append_right (Nat.le_refl _)]
    simp
  · have before : k < (packet ticks clock).length := by omega
    rw [Function.update_of_ne (by omega), List.getElem_append_left before]
    exact holds.xmit k before (by omega)

theorem holds_run : Holds b ticks clock := by
  induction clock with
  | zero => exact ⟨rfl, rfl, fun k inside => absurd inside (Nat.not_lt_zero k)⟩
  | succ clock ih =>
    obtain ⟨wn, wcheck⟩ := wn_next (run b ticks clock).card.tx (ticks clock)
      (run b ticks clock).cable.regs.myAddr (run b ticks clock).cable.tx.txDone
      (run b ticks clock).cable.tx.txAbort
    rw [← tx_succ] at wn wcheck
    cases wipes : Wipes (ticks clock) with
    | true =>
      have empty : packet ticks (clock + 1) = [] := by rw [packet_succ, extend, wipes]; rfl
      refine ⟨?_, ?_, fun k inside => ?_⟩
      · rw [wn, wipes, empty]; rfl
      · rw [wcheck, wipes, empty]; rfl
      · rw [empty] at inside
        exact absurd inside (Nat.not_lt_zero k)
    | false =>
      have next : packet ticks (clock + 1) = match (ticks clock).access with
        | .write w => packet ticks clock ++ [w]
        | .start => []
        | _ => packet ticks clock := by rw [packet_succ, extend, wipes]; rfl
      rw [wipes] at wn wcheck
      cases access : (ticks clock).access with
      | start =>
        rw [access] at next wn wcheck
        exact ⟨by rw [wn, next]; rfl, by rw [wcheck, next]; rfl,
          fun k inside => absurd inside (by rw [next]; exact Nat.not_lt_zero k)⟩
      | write w =>
        rw [access] at next wn wcheck
        refine ⟨?_, ?_, fun k inside late => ?_⟩
        · rw [wn, next, ih.wn, List.length_append, List.length_singleton]
          simp
        · rw [wcheck, next, ih.wcheck, List.foldl_append]
          rfl
        · simp only [next] at inside late ⊢
          exact ih.write access k inside late
      | idle | csr w | read =>
        rw [access] at next wn wcheck
        refine ⟨by rw [wn, next]; exact ih.wn, by rw [wcheck, next]; exact ih.wcheck, fun k inside late => ?_⟩
        simp only [next] at inside late ⊢
        rw [xmit_succ, access]
        exact ih.xmit k inside late

end Packet

section Stream

variable (b : Buffers) (ticks : Nat → ChaosTick)

def address (clock : Nat) : Word := (run b ticks clock).cable.regs.myAddr

/-- The machine reads START in this tick. -/
structure Begins (start : Nat) : Prop where
  access : (ticks start).access = .start
  stands : Wipes (ticks start) = false

/-- No other START, and no clear and no reset, from a START to a tick. -/
def Quiet (start clock : Nat) : Prop :=
  ∀ tick, start < tick → tick < clock → (ticks tick).access ≠ .start ∧ Wipes (ticks tick) = false

/-- The words a START sends of the packet. -/
def count (start : Nat) : Nat := (packet ticks start).length % 256

/-- The frame a START sends: the words of the packet, its last ones where the buffer has gone round; the
address, as it is when it goes out; and the check word of all the words written and the address. -/
def frame (start : Nat) : List Word :=
  (packet ticks start).drop ((packet ticks start).length - count ticks start) ++
    [address b ticks (start + 2 + count ticks start),
      checkWord (packet ticks start ++ [address b ticks start])]

variable {b ticks} {start clock : Nat}

theorem length_frame : (frame b ticks start).length = count ticks start + 2 := by
  have few : count ticks start ≤ (packet ticks start).length := Nat.mod_le _ _
  unfold frame
  rw [List.length_append, List.length_drop]
  simp only [List.length_cons, List.length_nil]
  omega

theorem packet_short (access : (ticks start).access = .start) (after : start + 1 ≤ clock) :
    (packet ticks clock).length ≤ clock - start - 1 := by
  induction clock, after using Nat.le_induction with
  | base =>
    rw [packet_succ, extend_start access]
    exact Nat.zero_le _
  | succ clock after ih =>
    rw [packet_succ]
    exact Nat.le_trans (length_extend _ _) (by omega)

/-- The card inside the stream of a frame. -/
structure Streaming (b : Buffers) (ticks : Nat → ChaosTick) (start clock : Nat) : Prop where
  out : (run b ticks clock).card.tx.out = clock - start - 1
  sending : (run b ticks clock).card.tx.sending = true
  send : (run b ticks clock).card.tx.send = count ticks start + 2
  srcAt : (run b ticks clock).card.tx.srcAt = count ticks start
  tcheck : (run b ticks clock).card.tx.tcheck = checkWord (packet ticks start ++ [address b ticks start])
  xmit : ∀ k, clock - start - 1 ≤ k → k < 256 →
    (run b ticks clock).card.tx.xmit k = (run b ticks start).card.tx.xmit k

section Fields

variable {s : Transmitter} {resetNow : Bool} {a : CardAccess} {w : Word} {done abort : Bool}

theorem out_next : (s.next resetNow a w done abort).out =
    if a = .start then 0 else if s.sending then (s.out + 1) % 256 else s.out := rfl

theorem sending_next : (s.next resetNow a w done abort).sending =
    if resetNow || a.clearTransmitter then false
    else if a = .start then (s.wn + 2) % 256 ≠ 0
    else s.sending && (s.out + 1) % 256 ≠ s.send := rfl

theorem send_next : (s.next resetNow a w done abort).send = if a = .start then (s.wn + 2) % 256 else s.send := rfl

theorem srcAt_next : (s.next resetNow a w done abort).srcAt = if a = .start then s.wn else s.srcAt := rfl

theorem tcheck_next : (s.next resetNow a w done abort).tcheck =
    if a = .start then crcWord s.wcheck w else s.tcheck := rfl

theorem txWord_next (sending : s.sending = true) (address : Word) :
    (s.next resetNow a w done abort).txWord address = if s.out = s.srcAt then address
      else if s.out = (s.srcAt + 1) % 256 then (s.next resetNow a w done abort).tcheck else s.xmit s.out := by
  unfold Transmitter.txWord
  rw [show (s.next resetNow a w done abort).qSrc = decide (s.out = s.srcAt) from if_pos sending,
    show (s.next resetNow a w done abort).qChk = decide (s.out = (s.srcAt + 1) % 256) from if_pos sending]
  simp only [decide_eq_true_iff]
  rfl

end Fields

theorem checkWord_concat (words : List Word) (w : Word) :
    checkWord (words ++ [w]) = crcWord (words.foldl crcWord 0) w := List.foldl_append

theorem streaming_begins (begins : Begins ticks start) (fits : count ticks start + 2 < 256) :
    Streaming b ticks start (start + 1) := by
  have wipes : (Card.resetNow (ticks start).init (ticks start).access ||
    (ticks start).access.clearTransmitter) = false := begins.stands
  have room : (count ticks start + 2) % 256 = count ticks start + 2 := Nat.mod_eq_of_lt fits
  have wn : (run b ticks start).card.tx.wn = count ticks start := holds_run.wn
  have check : (run b ticks start).card.tx.wcheck = (packet ticks start).foldl crcWord 0 := holds_run.wcheck
  refine ⟨?_, ?_, ?_, ?_, ?_, fun k _ _ => by rw [xmit_succ, begins.access]⟩
  · rw [tx_succ, out_next, if_pos begins.access]
    omega
  · rw [tx_succ, sending_next, wipes, if_neg Bool.false_ne_true, if_pos begins.access, wn, room]
    exact decide_eq_true (Nat.succ_ne_zero _)
  · rw [tx_succ, send_next, if_pos begins.access, wn, room]
  · rw [tx_succ, srcAt_next, if_pos begins.access, wn]
  · rw [tx_succ, tcheck_next, if_pos begins.access, check, checkWord_concat]
    rfl

theorem Streaming.next (streaming : Streaming b ticks start clock) (access : (ticks start).access = .start)
    (still : (ticks clock).access ≠ .start ∧ Wipes (ticks clock) = false) (after : start + 1 ≤ clock)
    (inside : clock < start + count ticks start + 2) (fits : count ticks start + 2 < 256) :
    Streaming b ticks start (clock + 1) := by
  have wipes : (Card.resetNow (ticks clock).init (ticks clock).access ||
    (ticks clock).access.clearTransmitter) = false := still.2
  have next : (clock - start - 1 + 1) % 256 = clock + 1 - start - 1 := by
    rw [Nat.mod_eq_of_lt (by omega)]
    omega
  refine ⟨?_, ?_, ?_, ?_, ?_, fun k late small => ?_⟩
  · rw [tx_succ, out_next, if_neg still.1, if_pos streaming.sending, streaming.out, next]
  · rw [tx_succ, sending_next, wipes, if_neg Bool.false_ne_true, if_neg still.1, streaming.sending,
      streaming.out, streaming.send, next]
    exact decide_eq_true (by omega)
  · rw [tx_succ, send_next, if_neg still.1, streaming.send]
  · rw [tx_succ, srcAt_next, if_neg still.1, streaming.srcAt]
  · rw [tx_succ, tcheck_next, if_neg still.1, streaming.tcheck]
  · rw [xmit_succ]
    have old := streaming.xmit k (by omega) small
    cases written : (ticks clock).access with
    | write w =>
      have few := packet_short access after
      have at_ : (run b ticks clock).card.tx.wn = (packet ticks clock).length % 256 := holds_run.wn
      dsimp only
      rw [Function.update_of_ne, old]
      rw [at_]
      have := Nat.mod_le (packet ticks clock).length 256
      omega
    | idle | csr | start | read => exact old

theorem streaming (begins : Begins ticks start) (fits : count ticks start + 2 < 256) (after : start + 1 ≤ clock)
    (inside : clock ≤ start + count ticks start + 2) (quiet : Quiet ticks start clock) :
    Streaming b ticks start clock := by
  induction clock, after using Nat.le_induction with
  | base => exact streaming_begins begins fits
  | succ clock after ih =>
    exact (ih (Nat.le_of_succ_le inside) fun tick lo hi => quiet tick lo (Nat.lt_succ_of_lt hi)).next
      begins.access (quiet clock after (Nat.lt_succ_self clock)) after inside fits

theorem frame_word (k : Nat) (below : k < count ticks start) :
    (frame b ticks start)[k]? = some ((run b ticks start).card.tx.xmit k) := by
  have few : count ticks start ≤ (packet ticks start).length := Nat.mod_le _ _
  have inside : (packet ticks start).length - count ticks start + k < (packet ticks start).length := by omega
  have holds := (holds_run (b := b)).xmit ((packet ticks start).length - count ticks start + k) inside
    (by have := Nat.mod_lt (packet ticks start).length (show 256 > 0 by decide); unfold count at *; omega)
  have place : ((packet ticks start).length - count ticks start + k) % 256 = k := by
    unfold count at *
    omega
  rw [place] at holds
  unfold frame
  rw [List.getElem?_append_left (by rw [List.length_drop]; omega), List.getElem?_drop, holds]
  exact List.getElem?_eq_getElem inside

theorem word_out (begins : Begins ticks start) (fits : count ticks start + 2 < 256) {k : Nat}
    (inside : k < count ticks start + 2) (quiet : Quiet ticks start (start + 2 + k)) :
    (run b ticks (start + 2 + k)).card.tx.txValid = true ∧
      (frame b ticks start)[k]? =
        some ((run b ticks (start + 2 + k)).card.tx.txWord (address b ticks (start + 2 + k))) := by
  have early : Quiet ticks start (start + 1 + k) := fun tick lo hi => quiet tick lo (by omega)
  have before : Streaming b ticks start (start + 1 + k) :=
    streaming begins fits (by omega) (by omega) early
  have last := (quiet (start + 1 + k) (by omega) (by omega)).1
  have same : start + 2 + k = start + 1 + k + 1 := by omega
  have out : (run b ticks (start + 1 + k)).card.tx.out = k := by
    rw [before.out]
    omega
  have length : ((packet ticks start).drop ((packet ticks start).length - count ticks start)).length
      = count ticks start := by
    have few : count ticks start ≤ (packet ticks start).length := Nat.mod_le _ _
    rw [List.length_drop]
    omega
  rw [same]
  refine ⟨before.sending, ?_⟩
  rw [tx_succ, txWord_next before.sending, tcheck_next, if_neg last, before.tcheck, out, before.srcAt]
  obtain below | rfl | rfl : k < count ticks start ∨ k = count ticks start ∨ k = count ticks start + 1 := by omega
  · rw [frame_word k below, if_neg (by omega), if_neg (by rw [Nat.mod_eq_of_lt (by omega)]; omega),
      before.xmit k (by omega) (by omega)]
  · rw [if_pos rfl, ← same, frame, List.getElem?_append_right (by rw [length]), length, Nat.sub_self]
    rfl
  · rw [if_neg (by omega), if_pos (by rw [Nat.mod_eq_of_lt (by omega)]), frame,
      List.getElem?_append_right (by rw [length]; omega), length, Nat.add_sub_cancel_left]
    rfl

end Stream

section Captured

variable {b : Buffers} {ticks : Nat → ChaosTick} {start clock : Nat}

theorem capture_succ : (run b ticks (clock + 1)).cable.tx = (run b ticks clock).cable.tx.next
    ((run b ticks clock).face (ticks clock)) (run b ticks clock).card (address b ticks clock) := rfl

/-- The cable sees a clear or a reset a tick after it. -/
def wiped (b : Buffers) (ticks : Nat → ChaosTick) (clock : Nat) : Bool :=
  (run b ticks clock).card.tx.txClear || (run b ticks clock).card.resetQ

theorem wiped_succ : wiped b ticks (clock + 1) = Wipes (ticks clock) := Bool.or_comm _ _

theorem txGo_succ : (run b ticks (clock + 1)).card.tx.txGo = decide ((ticks clock).access = .start) := rfl

theorem txLen_succ : (run b ticks (clock + 1)).card.tx.txLen =
    if (ticks clock).access = .start then ((run b ticks clock).card.tx.wn + 2) % 256
    else (run b ticks clock).card.tx.txLen := rfl

theorem Quiet.extend (quiet : Quiet ticks start (clock - 1)) (no : wiped b ticks clock = false)
    (go : (run b ticks clock).card.tx.txGo = false) : Quiet ticks start clock := by
  intro tick after before
  obtain rfl | earlier : tick + 1 = clock ∨ tick < clock - 1 := by omega
  · rw [wiped_succ] at no
    rw [txGo_succ] at go
    exact ⟨of_decide_eq_false go, no⟩
  · exact quiet tick after earlier

/-- The frame of a START on its way into the window. -/
structure CaptureOf (b : Buffers) (ticks : Nat → ChaosTick) (start clock : Nat) : Prop where
  begins : Begins ticks start
  long : 2 ≤ count ticks start
  fits : count ticks start + 2 < 256
  quiet : Quiet ticks start (clock - 1)
  after : start + 2 ≤ clock
  capLen : (run b ticks clock).cable.tx.capLen = count ticks start + 2
  words : ∀ k, k < clock - start - 2 → k < count ticks start + 2 →
    (frame b ticks start)[k]? = some ((run b ticks clock).cable.tx.txBuf k)

theorem cst_next (s : Capture) (f : Face) (c : Card) (w : Word) : (s.next f c w).cst =
    if c.tx.txClear || c.resetQ then .idle
    else if c.tx.txGo then (if c.tx.txLen ≤ 3 then .idle else .words)
    else match s.cst with
      | .idle => .idle
      | .words => if c.tx.txValid && s.capAt + 1 = s.capLen then .held else .words
      | .held => .idle := rfl

theorem capAt_next (s : Capture) (f : Face) (c : Card) (w : Word) : (s.next f c w).capAt =
    if c.tx.txGo then 0 else if s.captures c && s.capAt + 1 ≠ s.capLen then s.capAt + 1 else s.capAt := rfl

theorem capLen_next (s : Capture) (f : Face) (c : Card) (w : Word) : (s.next f c w).capLen =
    if c.tx.txGo then c.tx.txLen else s.capLen := rfl

theorem txBuf_next (s : Capture) (f : Face) (c : Card) (w : Word) : (s.next f c w).txBuf =
    if s.captures c then Function.update s.txBuf (s.capAt % 256) (c.tx.txWord w) else s.txBuf := rfl

theorem captureOf_begins (no : wiped b ticks clock = false) (go : (run b ticks clock).card.tx.txGo = true)
    (long : ¬ (run b ticks clock).card.tx.txLen ≤ 3) : ∃ start, clock = start + 1 ∧
      CaptureOf b ticks start (clock + 1) ∧ (run b ticks (clock + 1)).cable.tx.capAt = 0 := by
  cases clock with
  | zero => exact absurd go Bool.false_ne_true
  | succ start =>
    have access : (ticks start).access = .start := of_decide_eq_true go
    have wn : (run b ticks start).card.tx.wn = count ticks start := holds_run.wn
    have length : (run b ticks (start + 1)).card.tx.txLen = (count ticks start + 2) % 256 := by
      rw [txLen_succ, if_pos access, wn]
    rw [length] at long
    have small : count ticks start < 256 := Nat.mod_lt _ (by decide)
    have fits : count ticks start + 2 < 256 := by omega
    rw [wiped_succ] at no
    refine ⟨start, rfl, ⟨⟨access, no⟩, by omega, fits, fun tick lo hi => by omega, Nat.le_refl _, ?_,
      fun k lo => by omega⟩, ?_⟩
    · rw [capture_succ, capLen_next, if_pos go, length, Nat.mod_eq_of_lt fits]
    · rw [capture_succ, capAt_next, if_pos go]

theorem CaptureOf.next (capture : CaptureOf b ticks start clock) (no : wiped b ticks clock = false)
    (go : (run b ticks clock).card.tx.txGo = false) (cst : (run b ticks clock).cable.tx.cst = .words)
    (at_ : (run b ticks clock).cable.tx.capAt = clock - start - 2)
    (inside : clock - start - 2 < count ticks start + 2) :
    CaptureOf b ticks start (clock + 1) ∧ (run b ticks clock).card.tx.txValid = true := by
  have quiet := capture.quiet.extend no go
  have after := capture.after
  obtain ⟨k, rfl⟩ : ∃ k, clock = start + 2 + k := ⟨clock - start - 2, by omega⟩
  have place : start + 2 + k - start - 2 = k := by omega
  rw [place] at at_ inside
  obtain ⟨valid, word⟩ := word_out (b := b) capture.begins capture.fits inside quiet
  have captures : (run b ticks (start + 2 + k)).cable.tx.captures (run b ticks (start + 2 + k)).card = true := by
    rw [Capture.captures, cst, valid]
    rfl
  refine ⟨⟨capture.begins, capture.long, capture.fits, quiet, by omega, ?_, fun j lo small => ?_⟩, valid⟩
  · rw [capture_succ, capLen_next, go]
    exact capture.capLen
  · have fits := capture.fits
    rw [capture_succ, txBuf_next, if_pos captures, at_, Nat.mod_eq_of_lt (by omega)]
    by_cases last : j = k
    · rw [last, Function.update_self, word]
    · rw [Function.update_of_ne last]
      exact capture.words j (by omega) small

theorem capture_run : ((run b ticks clock).cable.tx.cst = .words → ∃ start, CaptureOf b ticks start clock ∧
      clock - start - 2 < count ticks start + 2 ∧ (run b ticks clock).cable.tx.capAt = clock - start - 2) ∧
    ((run b ticks clock).cable.tx.cst = .held → ∃ start, CaptureOf b ticks start clock ∧
      clock = start + count ticks start + 4) := by
  induction clock with
  | zero => exact ⟨(fun no => nomatch no), (fun no => nomatch no)⟩
  | succ clock ih =>
    rw [capture_succ, cst_next]
    cases no : (run b ticks clock).card.tx.txClear || (run b ticks clock).card.resetQ with
    | true => exact ⟨(fun no => nomatch no), (fun no => nomatch no)⟩
    | false =>
      rw [if_neg Bool.false_ne_true]
      cases go : (run b ticks clock).card.tx.txGo with
      | true =>
        rw [if_pos rfl]
        by_cases short : (run b ticks clock).card.tx.txLen ≤ 3
        · rw [if_pos short]
          exact ⟨(fun no => nomatch no), (fun no => nomatch no)⟩
        · rw [if_neg short]
          refine ⟨fun _ => ?_, (fun no => nomatch no)⟩
          obtain ⟨start, is, capture, at_⟩ := captureOf_begins no go short
          have long := capture.long
          exact ⟨start, capture, by omega, at_.trans (by omega)⟩
      | false =>
        rw [if_neg Bool.false_ne_true]
        cases cst : (run b ticks clock).cable.tx.cst with
        | idle | held => exact ⟨(fun no => nomatch no), (fun no => nomatch no)⟩
        | words =>
          obtain ⟨start, capture, inside, at_⟩ := ih.1 cst
          obtain ⟨next, valid⟩ := capture.next no go cst at_ inside
          have after := capture.after
          dsimp only
          rw [valid, at_, capture.capLen, Bool.true_and]
          by_cases last : clock - start - 2 + 1 = count ticks start + 2
          · rw [decide_eq_true last, if_pos rfl]
            exact ⟨(fun no => nomatch no), fun _ => ⟨start, next, by omega⟩⟩
          · rw [decide_eq_false last, if_neg Bool.false_ne_true]
            refine ⟨fun _ => ⟨start, next, by omega, ?_⟩, (fun no => nomatch no)⟩
            have captures : (run b ticks clock).cable.tx.captures (run b ticks clock).card = true := by
              rw [Capture.captures, cst, valid]
              rfl
            rw [capAt_next, if_neg (by rw [go]; decide), captures, at_, capture.capLen]
            rw [decide_eq_true last]
            simp only [Bool.and_self, if_true]
            omega

end Captured

section Waits

variable (b : Buffers) (ticks : Nat → ChaosTick)

/-- The face samples a word in this tick, for the read's beat. -/
def Samples (word clock : Nat) : Prop :=
  (run b ticks clock).r.st = .prep2 ∧ (run b ticks clock).r.word.toNat = word

/-- When a START's frame is in the window. -/
def arrival (start : Nat) : Nat := start + count ticks start + 5

/-- The frame of a START, waiting since its arrival. -/
structure Waiting (start clock : Nat) : Prop where
  begins : Begins ticks start
  long : 2 ≤ count ticks start
  fits : count ticks start + 2 < 256
  arrived : arrival ticks start ≤ clock
  valid : ∀ tick, arrival ticks start ≤ tick → tick ≤ clock → (run b ticks tick).cable.tx.txValid = true ∧
    (run b ticks tick).cable.tx.txHeld = count ticks start + 2
  stands : ∀ tick, start < tick → tick + 1 < clock → Wipes (ticks tick) = false
  whole : (∀ tick, start < tick → tick + 1 < clock → (ticks tick).access ≠ .start) →
    ∀ tick, arrival ticks start ≤ tick → tick ≤ clock → (run b ticks tick).cable.tx.cst = .idle ∧
      ∀ k, k < count ticks start + 2 → (frame b ticks start)[k]? = some ((run b ticks tick).cable.tx.txBuf k)
  seen : (run b ticks clock).cable.tx.txSeen = true →
    ∃ tick, arrival ticks start ≤ tick ∧ tick < clock ∧ Samples b ticks 3 tick

variable {b ticks} {start clock : Nat}

theorem rdQ_run : (run b ticks clock).cable.tx.rdQ = true ↔ (run b ticks clock).r.st = .prep2 := by
  cases clock with
  | zero => exact ⟨(fun no => nomatch no), (fun no => nomatch no)⟩
  | succ clock =>
    show decide ((run b ticks clock).r.st = .prep) = true ↔
      ((run b ticks clock).r.next (ticks clock).read).st = .prep2
    unfold RegsRead.next
    cases st : (run b ticks clock).r.st with
    | addr => cases (ticks clock).read.arvalid <;> simp [st]
    | prep | prep2 => simp
    | data =>
      cases (ticks clock).read.rready with
      | false => simp [st]
      | true => by_cases last : (run b ticks clock).r.left = 0 <;> simp [last]

theorem txHeld_next (s : Capture) (f : Face) (c : Card) (w : Word) : (s.next f c w).txHeld =
    if s.cst = .held then s.capLen else s.txHeld := rfl

theorem txValid_next (s : Capture) (f : Face) (c : Card) (w : Word) : (s.next f c w).txValid =
    if c.tx.txClear || c.resetQ || s.takes f then false else if s.cst = .held then true else s.txValid := rfl

theorem txSeen_next (s : Capture) (f : Face) (c : Card) (w : Word) : (s.next f c w).txSeen =
    if s.cst = .held then false else if s.rdQ && f.rWord = 3 then true else s.txSeen := rfl

theorem CaptureOf.waiting (capture : CaptureOf b ticks start clock) (at_ : clock = start + count ticks start + 4)
    (cst : (run b ticks clock).cable.tx.cst = .held) (no : wiped b ticks clock = false)
    (valid : (run b ticks (clock + 1)).cable.tx.txValid = true) : Waiting b ticks start (clock + 1) := by
  have here (tick : Nat) (from_ : arrival ticks start ≤ tick) (upTo : tick ≤ clock + 1) : tick = clock + 1 := by
    unfold arrival at from_
    omega
  refine ⟨capture.begins, capture.long, capture.fits, by unfold arrival; omega, fun tick lo hi => ?_,
    fun tick lo hi => ?_, fun other tick lo hi => ?_, fun seen => ?_⟩
  · rw [here tick lo hi]
    exact ⟨valid, by rw [capture_succ, txHeld_next, if_pos cst, capture.capLen]⟩
  · obtain rfl | earlier : tick + 1 = clock ∨ tick < clock - 1 := by omega
    · exact wiped_succ.symm.trans no
    · exact (capture.quiet tick lo earlier).2
  · rw [here tick lo hi]
    obtain ⟨before, rfl⟩ : ∃ before, clock = before + 1 := ⟨start + count ticks start + 3, by omega⟩
    have go : (run b ticks (before + 1)).card.tx.txGo = false := by
      rw [txGo_succ]
      exact decide_eq_false (other before (by omega) (by omega))
    have no' : ((run b ticks (before + 1)).card.tx.txClear || (run b ticks (before + 1)).card.resetQ) = false := no
    refine ⟨?_, fun k small => ?_⟩
    · rw [capture_succ, cst_next, no', if_neg Bool.false_ne_true, go, if_neg Bool.false_ne_true, cst]
    · have idle : (run b ticks (before + 1)).cable.tx.captures (run b ticks (before + 1)).card = false := by
        rw [Capture.captures, cst]
        rfl
      rw [capture_succ, txBuf_next, idle, if_neg Bool.false_ne_true]
      exact capture.words k (by omega) small
  · rw [capture_succ, txSeen_next, if_pos cst] at seen
    exact absurd seen Bool.false_ne_true

theorem Waiting.next (waiting : Waiting b ticks start clock) (cst : (run b ticks clock).cable.tx.cst ≠ .held)
    (no : wiped b ticks clock = false) (valid : (run b ticks (clock + 1)).cable.tx.txValid = true) :
    Waiting b ticks start (clock + 1) := by
  have arrived := waiting.arrived
  obtain ⟨before, rfl⟩ : ∃ before, clock = before + 1 := ⟨clock - 1, by unfold arrival at arrived; omega⟩
  refine ⟨waiting.begins, waiting.long, waiting.fits, Nat.le_succ_of_le arrived, fun tick lo hi => ?_,
    fun tick lo hi => ?_, fun other tick lo hi => ?_, fun seen => ?_⟩
  · obtain rfl | earlier : tick = before + 2 ∨ tick ≤ before + 1 := by omega
    · refine ⟨valid, ?_⟩
      rw [capture_succ, txHeld_next, if_neg cst]
      exact (waiting.valid _ arrived (Nat.le_refl _)).2
    · exact waiting.valid tick lo earlier
  · obtain rfl | earlier : tick = before ∨ tick + 1 < before + 1 := by omega
    · exact wiped_succ.symm.trans no
    · exact waiting.stands tick lo earlier
  · have whole := waiting.whole fun tick lo hi => other tick lo (Nat.lt_succ_of_lt hi)
    obtain rfl | earlier : tick = before + 2 ∨ tick ≤ before + 1 := by omega
    · obtain ⟨idle, words⟩ := whole _ arrived (Nat.le_refl _)
      have go : (run b ticks (before + 1)).card.tx.txGo = false := by
        rw [txGo_succ]
        exact decide_eq_false (other before (by unfold arrival at arrived; omega) (by omega))
      have no' : ((run b ticks (before + 1)).card.tx.txClear || (run b ticks (before + 1)).card.resetQ) = false := no
      have still : (run b ticks (before + 1)).cable.tx.captures (run b ticks (before + 1)).card = false := by
        rw [Capture.captures, idle]
        rfl
      refine ⟨?_, fun k small => ?_⟩
      · rw [capture_succ, cst_next, no', if_neg Bool.false_ne_true, go, if_neg Bool.false_ne_true, idle]
      · rw [capture_succ, txBuf_next, still, if_neg Bool.false_ne_true]
        exact words k small
    · exact whole tick lo earlier
  · rw [capture_succ, txSeen_next, if_neg cst] at seen
    cases sample : (run b ticks (before + 1)).cable.tx.rdQ &&
      decide (((run b ticks (before + 1)).face (ticks (before + 1))).rWord = 3) with
    | true =>
      rw [Bool.and_eq_true, decide_eq_true_iff] at sample
      exact ⟨before + 1, arrived, Nat.lt_succ_self _, rdQ_run.mp sample.1, sample.2⟩
    | false =>
      rw [sample, if_neg Bool.false_ne_true] at seen
      obtain ⟨tick, lo, hi, is⟩ := waiting.seen seen
      exact ⟨tick, lo, Nat.lt_succ_of_lt hi, is⟩

theorem waiting_run (valid : (run b ticks clock).cable.tx.txValid = true) : ∃ start, Waiting b ticks start clock := by
  induction clock with
  | zero => exact absurd valid Bool.false_ne_true
  | succ clock ih =>
    have now := valid
    rw [capture_succ, txValid_next] at now
    cases gone : (run b ticks clock).card.tx.txClear || (run b ticks clock).card.resetQ ||
      (run b ticks clock).cable.tx.takes ((run b ticks clock).face (ticks clock)) with
    | true =>
      rw [gone, if_pos rfl] at now
      exact absurd now Bool.false_ne_true
    | false =>
      have no : wiped b ticks clock = false := (Bool.or_eq_false_iff.mp gone).1
      rw [gone, if_neg Bool.false_ne_true] at now
      by_cases cst : (run b ticks clock).cable.tx.cst = .held
      · obtain ⟨start, capture, at_⟩ := capture_run.2 cst
        exact ⟨start, capture.waiting at_ cst no valid⟩
      · rw [if_neg cst] at now
        obtain ⟨start, waiting⟩ := ih now
        exact ⟨start, waiting.next cst no valid⟩

end Waits

section Taken

variable (b : Buffers) (ticks : Nat → ChaosTick)

/-- Linux takes the waiting frame, and the cable accepts it. -/
def Takes (clock : Nat) : Prop :=
  (run b ticks clock).cable.tx.takes ((run b ticks clock).face (ticks clock)) = true

/-- A frame taken: of one START that nothing has cleared since; its length read since its arrival, and the
words read after the length was last read the frame's, if no other START has been answered. -/
structure Delivered (start taken : Nat) : Prop where
  begins : Begins ticks start
  arrived : arrival ticks start ≤ taken
  long : 4 ≤ (frame b ticks start).length
  stands : ∀ tick, start < tick → tick + 1 < taken → Wipes (ticks tick) = false
  read : ∃ tick, tick < taken ∧ Samples b ticks 3 tick
  words : ∀ length, length < taken → Samples b ticks 3 length →
    (∀ tick, length < tick → tick < taken → ¬ Samples b ticks 3 tick) →
    (run b ticks (length + 1)).rdataQ = BitVec.ofNat 32 (frame b ticks start).length ∧
      ((∀ tick, start < tick → tick + 1 < taken → (ticks tick).access ≠ .start) →
        ∀ tick k, length < tick → tick < taken → k < (frame b ticks start).length → Samples b ticks (256 + k) tick →
          ∃ w, (frame b ticks start)[k]? = some w ∧ (run b ticks (tick + 1)).rdataQ = w.setWidth 32)

variable {b ticks} {start clock : Nat}

theorem frame_of_few (few : (packet ticks start).length ≤ 253) : frame b ticks start = packet ticks start ++
    [address b ticks (start + 2 + (packet ticks start).length),
      checkWord (packet ticks start ++ [address b ticks start])] := by
  have count : count ticks start = (packet ticks start).length := Nat.mod_eq_of_lt (by omega)
  rw [frame, count, Nat.sub_self, List.drop_zero]

theorem word_stands {word : Nat} (samples : Samples b ticks word clock) : ∃ before, clock = before + 1 ∧
    (run b ticks before).r.word.toNat = word := by
  obtain ⟨st, at_⟩ := samples
  cases clock with
  | zero => exact nomatch st
  | succ before =>
    refine ⟨before, rfl, ?_⟩
    have next : (run b ticks (before + 1)).r = (run b ticks before).r.next (ticks before).read := rfl
    have rising : (run b ticks before).r.st = .prep := by
      have rd : decide ((run b ticks before).r.st = .prep) = true := rdQ_run.mpr st
      exact of_decide_eq_true rd
    rw [next, RegsRead.next, rising] at at_
    exact at_

theorem sampled {word : Nat} (samples : Samples b ticks word clock) :
    (run b ticks (clock + 1)).rdataQ = (run b ticks clock).rdData (ticks clock) := by
  show (run b ticks clock).r.sample _ _ = _
  rw [RegsRead.sample, if_pos samples.1]
  rfl

theorem Waiting.length_read (waiting : Waiting b ticks start clock) {tick : Nat}
    (from_ : arrival ticks start ≤ tick) (upTo : tick ≤ clock) (samples : Samples b ticks 3 tick) :
    (run b ticks (tick + 1)).rdataQ = BitVec.ofNat 32 (frame b ticks start).length := by
  obtain ⟨valid, held⟩ := waiting.valid tick from_ upTo
  have word : ((run b ticks tick).face (ticks tick)).rWord = 3 := samples.2
  rw [sampled samples, length_frame, ← held]
  show (run b ticks tick).cable.rdData _ _ = _
  unfold Cable.rdData
  rw [word]
  simp [valid]

theorem Waiting.word_read (waiting : Waiting b ticks start clock)
    (other : ∀ tick, start < tick → tick + 1 < clock → (ticks tick).access ≠ .start) {tick k : Nat}
    (from_ : arrival ticks start < tick) (upTo : tick ≤ clock) (inside : k < (frame b ticks start).length)
    (samples : Samples b ticks (256 + k) tick) :
    ∃ w, (frame b ticks start)[k]? = some w ∧ (run b ticks (tick + 1)).rdataQ = w.setWidth 32 := by
  rw [length_frame] at inside
  have fits := waiting.fits
  obtain ⟨valid, held⟩ := waiting.valid tick (Nat.le_of_lt from_) upTo
  obtain ⟨before, rfl, stood⟩ := word_stands samples
  obtain ⟨-, words⟩ := waiting.whole other before (by omega) (by omega)
  have word : ((run b ticks (before + 1)).face (ticks (before + 1))).rWord = 256 + k := samples.2
  have txQ : (run b ticks (before + 1)).cable.tx.txQ = (run b ticks before).cable.tx.txBuf k := by
    show (run b ticks before).cable.tx.txBuf ((run b ticks before).r.word.toNat % 256) = _
    rw [stood, show (256 + k) % 256 = k by omega]
  refine ⟨_, words k inside, ?_⟩
  rw [sampled samples, ← txQ]
  show (run b ticks (before + 1)).cable.rdData _ _ = _
  unfold Cable.rdData
  rw [word, if_pos (by omega), valid, held, show (256 + k) % 256 = k by omega, Bool.true_and,
    decide_eq_true inside, if_pos rfl]

theorem Takes.waiting (takes : Takes b ticks clock) : (run b ticks clock).cable.tx.txSeen = true ∧
    ∃ start, Waiting b ticks start clock := by
  unfold Takes Capture.takes at takes
  simp only [Bool.and_eq_true] at takes
  exact ⟨takes.2, waiting_run takes.1.2⟩

/-- A frame waiting and seen is delivered whole. -/
theorem Waiting.delivered (waiting : Waiting b ticks start clock)
    (seen : (run b ticks clock).cable.tx.txSeen = true) : Delivered b ticks start clock := by
  obtain ⟨tick, from_, before, samples⟩ := waiting.seen seen
  have long := waiting.long
  refine ⟨waiting.begins, waiting.arrived, by rw [length_frame]; omega, waiting.stands,
    ⟨tick, before, samples⟩, fun length early is last => ?_⟩
  have late : arrival ticks start ≤ length := by
    by_contra sooner
    exact last tick (by omega) before samples
  exact ⟨waiting.length_read late (Nat.le_of_lt early) is, fun other at_ k after upTo inside word =>
    waiting.word_read other (by omega) (Nat.le_of_lt upTo) inside word⟩

/-- A frame taken waits no more. -/
theorem taken_once {later : Nat} (takes : Takes b ticks clock) (after : clock < later)
    (waiting : Waiting b ticks start clock) : ¬ Waiting b ticks start later := by
  intro again
  have valid := (again.valid (clock + 1) (Nat.le_succ_of_le waiting.arrived) after).1
  rw [capture_succ, txValid_next, takes, Bool.or_true, if_pos rfl] at valid
  exact Bool.false_ne_true valid

/-! Transmit Done. -/

theorem txDone_succ : (run b ticks (clock + 1)).cable.tx.txDone = true ↔
    Takes b ticks clock ∨ Capture.short (run b ticks clock).card = true := by
  show (_ || _) = true ↔ _
  rw [Bool.or_eq_true]
  rfl

theorem tdone_succ : (run b ticks (clock + 1)).card.tx.tdone =
    if Wipes (ticks clock) then true else
      match (ticks clock).access with
      | .start => false
      | .write _ => false
      | _ => if (run b ticks clock).cable.tx.txDone then true else (run b ticks clock).card.tx.tdone := rfl

/-- TDONE rises only when a frame is done or wiped. -/
theorem tdone_rises (down : (run b ticks clock).card.tx.tdone = false)
    (up : (run b ticks (clock + 1)).card.tx.tdone = true) :
    (run b ticks clock).cable.tx.txDone = true ∨ Wipes (ticks clock) = true := by
  rw [tdone_succ, down] at up
  cases wipes : Wipes (ticks clock) with
  | true => exact Or.inr rfl
  | false =>
    cases done : (run b ticks clock).cable.tx.txDone with
    | true => exact Or.inl rfl
    | false =>
      rw [wipes, done] at up
      cases access : (ticks clock).access <;> rw [access] at up <;> exact absurd up Bool.false_ne_true

/-- TDONE is up two ticks after a take. -/
theorem tdone_of_takes (takes : Takes b ticks clock) (noStart : (ticks (clock + 1)).access ≠ .start)
    (noWrite : ∀ w, (ticks (clock + 1)).access ≠ .write w) :
    (run b ticks (clock + 2)).card.tx.tdone = true := by
  rw [tdone_succ, txDone_succ.mpr (Or.inl takes)]
  cases Wipes (ticks (clock + 1)) with
  | true => rfl
  | false =>
    cases access : (ticks (clock + 1)).access with
    | start => exact absurd access noStart
    | write w => exact absurd access (noWrite w)
    | idle | csr | read => rfl

end Taken

/-- What the interface transmits, in any run: every take is of a whole frame of one START, none is taken twice,
and Transmit Done is up after each but for what the machine does on its pulse, and rises for nothing else that
was sent. -/
theorem transmit_delivers (b : Buffers) (ticks : Nat → ChaosTick) :
    (∀ taken, Takes b ticks taken → ∃ start, Waiting b ticks start taken ∧ Delivered b ticks start taken ∧
      ((packet ticks start).length ≤ 253 → frame b ticks start = packet ticks start ++
        [address b ticks (start + 2 + (packet ticks start).length),
          checkWord (packet ticks start ++ [address b ticks start])])) ∧
      (∀ start taken later, Takes b ticks taken → Waiting b ticks start taken → taken < later →
        ¬ Waiting b ticks start later) ∧
      (∀ clock, (run b ticks (clock + 1)).cable.tx.txDone = true ↔
        Takes b ticks clock ∨ Capture.short (run b ticks clock).card = true) ∧
      (∀ clock, (run b ticks clock).card.tx.tdone = false → (run b ticks (clock + 1)).card.tx.tdone = true →
        (run b ticks clock).cable.tx.txDone = true ∨ Wipes (ticks clock) = true) ∧
      ∀ taken, Takes b ticks taken → (ticks (taken + 1)).access ≠ .start →
        (∀ w, (ticks (taken + 1)).access ≠ .write w) → (run b ticks (taken + 2)).card.tx.tdone = true := by
  refine ⟨fun taken takes => ?_, fun start taken later takes waiting after => taken_once takes after waiting,
    fun clock => txDone_succ, fun clock => tdone_rises, fun taken => tdone_of_takes⟩
  obtain ⟨seen, start, waiting⟩ := takes.waiting
  exact ⟨start, waiting, waiting.delivered seen, frame_of_few⟩

section Clash

/-- Two words, START, TXLEN and the window read, the take, and a word on the tick of its pulse. -/
def clash (clock : Nat) : ChaosTick where
  init := false
  access := match clock with
    | 2 | 4 | 33 => .write 0x1234
    | 6 => .start
    | _ => .idle
  write := match clock with
    | 30 => { noWrite with awaddr := 0x14, awvalid := true }
    | 32 => { noWrite with wdata := 1, wstrb := 1, wlast := true, wvalid := true }
    | _ => noWrite
  read := match clock with
    | 13 => { noRead with araddr := 0xc, arvalid := true }
    | 17 => { noRead with araddr := 0x400, arlen := 3, arvalid := true }
    | _ => noRead

/-- Nothing is left that would raise Transmit Done. -/
structure Rests (s : Chaos) : Prop where
  tdone : s.card.tx.tdone = false
  txDone : s.cable.tx.txDone = false
  txGo : s.card.tx.txGo = false
  st : s.w.st = .addr

theorem Rests.next {s : Chaos} (rests : Rests s) {i : ChaosTick} (init : i.init = false) (idle : i.access = .idle)
    (quiet : i.write = noWrite) : Rests (s.next i) := by
  obtain ⟨tdone, txDone, txGo, st⟩ := rests
  have no : (s.face i).wr = none := by
    show s.w.wr i.write = none
    rw [RegsWrite.wr, quiet]
    rfl
  refine ⟨?_, ?_, ?_, ?_⟩
  · have wipes : Wipes i = false := by
      rw [Wipes, Card.resetNow, init, idle]
      rfl
    show (if Wipes i then true else
      match i.access with
      | .start => false
      | .write _ => false
      | _ => if s.cable.tx.txDone then true else s.card.tx.tdone) = false
    rw [wipes, idle, txDone, tdone]
    rfl
  · show (s.cable.tx.takes (s.face i) || Capture.short s.card) = false
    rw [Capture.takes, Face.command, no, Capture.short, txGo]
    rfl
  · show decide (i.access = .start) = false
    rw [idle]
    rfl
  · show s.w.st.next i.write = .addr
    rw [st, quiet]
    rfl

theorem clash_rests (clock : Nat) : Rests (run zeros clash (clock + 36)) := by
  induction clock with
  | zero => exact ⟨by decide, by decide, by decide, by decide⟩
  | succ clock ih => exact ih.next rfl rfl rfl

/-- A word written on the pulse's tick keeps Transmit Done down for good. -/
theorem done_is_lost : ∃ b ticks taken length, Takes b ticks taken ∧ length < taken ∧ Samples b ticks 3 length ∧
    (run b ticks (length + 1)).rdataQ = 4 ∧
    (∀ k, k < 4 → ∃ tick, length < tick ∧ tick < taken ∧ Samples b ticks (256 + k) tick) ∧
    ∀ clock, taken ≤ clock → (run b ticks clock).card.tx.tdone = false := by
  refine ⟨zeros, clash, 32, 15, by unfold Takes; decide, by decide, by unfold Samples; decide,
    by decide, fun k small => ⟨19 + 3 * k, by omega, by omega, ?_⟩, fun clock after => ?_⟩
  · unfold Samples
    have window : ∀ k : Fin 4, (run zeros clash (19 + 3 * k.val)).r.st = .prep2 ∧
        (run zeros clash (19 + 3 * k.val)).r.word.toNat = 256 + k.val := by decide
    exact window ⟨k, small⟩
  · obtain early | late : clock < 36 ∨ 36 ≤ clock := by omega
    · have down : ∀ k : Fin 4, (run zeros clash (32 + k.val)).card.tx.tdone = false := by decide
      have at_ : 32 + (clock - 32) = clock := by omega
      exact at_ ▸ down ⟨clock - 32, by omega⟩
    · have at_ : clock - 36 + 36 = clock := by omega
      exact at_ ▸ (clash_rests (clock - 36)).tdone

end Clash

end Chaos

end MuirFpga.Chaosnet
