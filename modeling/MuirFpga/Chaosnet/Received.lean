import MuirFpga.Chaosnet.Check
import MuirFpga.Chaosnet.Cable
import Mathlib.Data.Nat.Count

/-!
# What the Chaosnet interface receives

A frame Linux commits is on its way for as many ticks as it has words and three more, and lands whole if the
machine neither clears the receiver while it streams nor resets. The words go into the receive buffer downwards
and the first goes in last; the reads take them out in the frame's order. The next give writes the window in
order and so never overtakes the stream.
-/

namespace MuirFpga.Chaosnet

open Plumbing Sync

namespace Chaos

section Give

variable (b : Buffers) (ticks : Nat → ChaosTick)

def Resets (i : ChaosTick) : Bool := Card.resetNow i.init i.access
def Clears (i : ChaosTick) : Bool := i.access.clearReceiver

def faceAt (clock : Nat) : Face := (run b ticks clock).face (ticks clock)
def offer (clock : Nat) : Offer := (run b ticks clock).cable.rx
def receiver (clock : Nat) : Receiver := (run b ticks clock).card.rx

/-- The tick after a Reset. -/
def resetAt (clock : Nat) : Bool := (run b ticks clock).card.resetQ

def lineAt (clock : Nat) : CableLine :=
  (offer b ticks clock).line (faceAt b ticks clock) (receiver b ticks clock).rdone

/-- Linux commits a frame, and the cable accepts it. -/
def Commits (clock : Nat) : Prop :=
  (offer b ticks clock).commitOk (faceAt b ticks clock) (receiver b ticks clock).rdone = true

/-- The length committed, and the words of the window below it. -/
def lengthOf (given : Nat) : Nat := (offer b ticks given).rxLen.toNat
def window (given : Nat) : List Word := (List.range (lengthOf b ticks given)).map (offer b ticks given).rxBuf

/-- The word at a place of the window as the stream comes to it. -/
def streamed (given k : Nat) : Word := (offer b ticks (given + 1 + k)).rxBuf k

/-- The tick a frame lands in. -/
def landing (given : Nat) : Nat := given + lengthOf b ticks given + 3

variable {b ticks} {given clock : Nat}

theorem receiver_succ : receiver b ticks (clock + 1) = (receiver b ticks clock).next (lineAt b ticks clock)
    (resetAt b ticks clock) (Resets (ticks clock)) (ticks clock).access := rfl

theorem resetAt_succ : resetAt b ticks (clock + 1) = Resets (ticks clock) := rfl

theorem Commits.asked (commits : Commits b ticks given) : (offer b ticks given).asked (faceAt b ticks given) = true ∧
    (receiver b ticks given).rdone = false ∧ (offer b ticks given).xst = .idle := by
  unfold Commits Offer.commitOk at commits
  simp only [Bool.and_eq_true, Bool.not_eq_true', decide_eq_true_iff] at commits
  exact ⟨commits.1.1, commits.1.2, commits.2⟩

theorem Commits.fits (commits : Commits b ticks given) : 1 ≤ lengthOf b ticks given ∧ lengthOf b ticks given ≤ 256 := by
  obtain ⟨asked, -, -⟩ := commits.asked
  unfold Offer.asked at asked
  simp only [Bool.and_eq_true, decide_eq_true_iff] at asked
  refine ⟨?_, asked.2⟩
  by_contra none_
  exact asked.1.2 (BitVec.eq_of_toNat_eq (show lengthOf b ticks given = 0 by omega))

end Give

section Flight

variable (b : Buffers) (ticks : Nat → ChaosTick)

/-- Where the stream of a frame is so many ticks after its commit. -/
def phase (length n : Nat) : XState :=
  if n = 1 then .prime else if n < length + 2 then .stream else if n = length + 2 then .gap else .done

theorem phase_prime (length : Nat) : phase length 1 = .prime := rfl

theorem phase_stream {length n : Nat} (after : 2 ≤ n) (inside : n < length + 2) : phase length n = .stream := by
  rw [phase, if_neg (by omega), if_pos inside]

theorem phase_gap (length : Nat) (some_ : 1 ≤ length) : phase length (length + 2) = .gap := by
  rw [phase, if_neg (by omega), if_neg (by omega), if_pos rfl]

theorem phase_done (length : Nat) : phase length (length + 3) = .done := by
  rw [phase, if_neg (by omega), if_neg (by omega), if_neg (by omega)]

/-- A frame committed, on its way. -/
structure Flight (given clock : Nat) : Prop where
  commits : Commits b ticks given
  after : given + 1 ≤ clock
  before : clock ≤ landing b ticks given
  xst : (offer b ticks clock).xst = phase (lengthOf b ticks given) (clock - given)
  xLen : (offer b ticks clock).xLen = lengthOf b ticks given
  sent : clock < given + lengthOf b ticks given + 2 → (offer b ticks clock).sent = clock - given - 2
  streamAt : clock < given + lengthOf b ticks given + 2 → (offer b ticks clock).streamAt = (clock - given - 1) % 256
  rxQ : ∀ k, given + 2 + k = clock → k < lengthOf b ticks given → (offer b ticks clock).rxQ = streamed b ticks given k
  unreset : ∀ tick, given ≤ tick → tick < clock → resetAt b ticks tick = false
  rdone : (receiver b ticks clock).rdone = false

variable {b ticks} {given clock : Nat}

theorem xst_succ : (offer b ticks (clock + 1)).xst = if resetAt b ticks clock then .idle
    else match (offer b ticks clock).xst with
      | .idle => if (offer b ticks clock).commitOk (faceAt b ticks clock) (receiver b ticks clock).rdone
          then .prime else .idle
      | .prime => .stream
      | .stream => if (offer b ticks clock).sent + 1 = (offer b ticks clock).xLen then .gap else .stream
      | .gap => .done
      | .done => .idle := rfl

theorem sent_succ : (offer b ticks (clock + 1)).sent = match (offer b ticks clock).xst with
    | .idle => if (offer b ticks clock).commitOk (faceAt b ticks clock) (receiver b ticks clock).rdone
        then 0 else (offer b ticks clock).sent
    | .stream => if (offer b ticks clock).sent + 1 = (offer b ticks clock).xLen
        then (offer b ticks clock).sent else (offer b ticks clock).sent + 1
    | _ => (offer b ticks clock).sent := rfl

theorem streamAt_succ : (offer b ticks (clock + 1)).streamAt = match (offer b ticks clock).xst with
    | .idle => if (offer b ticks clock).commitOk (faceAt b ticks clock) (receiver b ticks clock).rdone
        then 0 else (offer b ticks clock).streamAt
    | .prime => 1
    | .stream => ((offer b ticks clock).streamAt + 1) % 256
    | _ => (offer b ticks clock).streamAt := rfl

theorem xLen_succ : (offer b ticks (clock + 1)).xLen =
    if (offer b ticks clock).commitOk (faceAt b ticks clock) (receiver b ticks clock).rdone
    then (offer b ticks clock).rxLen.toNat else (offer b ticks clock).xLen := rfl

theorem rxQ_succ : (offer b ticks (clock + 1)).rxQ =
    (offer b ticks clock).rxBuf ((offer b ticks clock).readAt (faceAt b ticks clock)) := rfl

theorem rdone_succ : (receiver b ticks (clock + 1)).rdone =
    if Resets (ticks clock) || Clears (ticks clock) then false
    else if (receiver b ticks clock).commit (lineAt b ticks clock) (resetAt b ticks clock) then true
    else (receiver b ticks clock).rdone := rfl

theorem commit_iff : (receiver b ticks clock).commit (lineAt b ticks clock) (resetAt b ticks clock) = true ↔
    (offer b ticks clock).xst = .done ∧ (receiver b ticks clock).drop = false ∧ resetAt b ticks clock = false ∧
      48 < (offer b ticks clock).xLen * 16 ∧ (receiver b ticks clock).rdone = false := by
  unfold Receiver.commit Receiver.takenNow lineAt Offer.line
  simp only [Bool.and_eq_true, Bool.not_eq_true', decide_eq_true_iff]
  tauto

theorem flight_begins (commits : Commits b ticks given) (unreset : resetAt b ticks given = false) :
    Flight b ticks given (given + 1) := by
  obtain ⟨-, down, idle⟩ := commits.asked
  have ok : (offer b ticks given).commitOk (faceAt b ticks given) (receiver b ticks given).rdone = true := commits
  refine ⟨commits, Nat.le_refl _, by unfold landing; omega, ?_, ?_, fun _ => ?_, fun _ => ?_, fun k is => by omega,
    fun tick lo hi => ?_, ?_⟩
  · rw [xst_succ, unreset, if_neg Bool.false_ne_true, idle, ok, Nat.add_sub_cancel_left]
    rfl
  · rw [xLen_succ, ok]
    rfl
  · rw [sent_succ, idle, ok]
    simp
  · rw [streamAt_succ, idle, ok]
    simp
  · rw [show tick = given by omega]
    exact unreset
  · have still : ¬ (receiver b ticks given).commit (lineAt b ticks given) (resetAt b ticks given) = true := by
      rw [commit_iff, idle]
      exact fun no => nomatch no.1
    rw [rdone_succ, if_neg still, down]
    exact ite_self _

theorem Flight.next (flight : Flight b ticks given clock) (more : clock < landing b ticks given)
    (unreset : resetAt b ticks clock = false) : Flight b ticks given (clock + 1) := by
  obtain ⟨least, most⟩ := flight.commits.fits
  have after := flight.after
  have xst := flight.xst
  unfold landing at more
  have busy : (offer b ticks clock).commitOk (faceAt b ticks clock) (receiver b ticks clock).rdone = false := by
    unfold Offer.commitOk
    rw [xst, phase]
    split_ifs <;> simp
  have xLen : (offer b ticks (clock + 1)).xLen = lengthOf b ticks given := by
    rw [xLen_succ, busy]
    exact flight.xLen
  have down : (receiver b ticks (clock + 1)).rdone = false := by
    have still : ¬ (receiver b ticks clock).commit (lineAt b ticks clock) (resetAt b ticks clock) = true := by
      rw [commit_iff, xst, phase]
      rintro ⟨done, -⟩
      split_ifs at done
      omega
    rw [rdone_succ, if_neg still, flight.rdone]
    exact ite_self _
  have calm : ∀ tick, given ≤ tick → tick < clock + 1 → resetAt b ticks tick = false := by
    intro tick lo hi
    obtain rfl | earlier : tick = clock ∨ tick < clock := by omega
    · exact unreset
    · exact flight.unreset tick lo earlier
  have word (k : Nat) (is : given + 2 + k = clock + 1) (small : k < lengthOf b ticks given) :
      (offer b ticks (clock + 1)).rxQ = streamed b ticks given k := by
    have at_ : clock = given + 1 + k := by omega
    have reading : (offer b ticks clock).xst = .prime ∨ (offer b ticks clock).xst = .stream := by
      rw [xst, phase]
      by_cases first : clock - given = 1
      · exact Or.inl (if_pos first)
      · exact Or.inr (by rw [if_neg first, if_pos (by omega)])
    rw [rxQ_succ, Offer.readAt, if_pos reading, flight.streamAt (by omega), at_,
      show (given + 1 + k - given - 1) % 256 = k by omega]
    rfl
  refine ⟨flight.commits, by omega, by unfold landing; omega, ?_, xLen, fun inside => ?_, fun inside => ?_, word,
    calm, down⟩
  · rw [xst_succ, unreset, if_neg Bool.false_ne_true, xst]
    obtain prime | stream | gap : clock = given + 1 ∨ given + 2 ≤ clock ∧ clock < given + lengthOf b ticks given + 2 ∨
        clock = given + lengthOf b ticks given + 2 := by omega
    · rw [phase_stream (n := clock + 1 - given) (by omega) (by omega), prime, Nat.add_sub_cancel_left,
        phase_prime]
    · rw [phase_stream (n := clock - given) (by omega) (by omega), flight.xLen, flight.sent stream.2]
      by_cases last : clock - given - 2 + 1 = lengthOf b ticks given
      · rw [show clock + 1 - given = lengthOf b ticks given + 2 by omega, phase_gap _ least]
        exact if_pos last
      · rw [phase_stream (n := clock + 1 - given) (by omega) (by omega)]
        exact if_neg last
    · rw [show clock - given = lengthOf b ticks given + 2 by omega, phase_gap _ least,
        show clock + 1 - given = lengthOf b ticks given + 3 by omega, phase_done]
  · rw [sent_succ, xst, flight.xLen, flight.sent (by omega)]
    obtain prime | stream : clock = given + 1 ∨ given + 2 ≤ clock := by omega
    · rw [prime, Nat.add_sub_cancel_left, phase_prime]
      show 1 - 2 = given + 1 + 1 - given - 2
      omega
    · rw [phase_stream (n := clock - given) (by omega) (by omega)]
      show (if clock - given - 2 + 1 = lengthOf b ticks given then clock - given - 2 else clock - given - 2 + 1) = _
      rw [if_neg (by omega)]
      omega
  · rw [streamAt_succ, xst, flight.streamAt (by omega)]
    obtain prime | stream : clock = given + 1 ∨ given + 2 ≤ clock := by omega
    · rw [prime, Nat.add_sub_cancel_left, phase_prime]
      show 1 = (given + 1 + 1 - given - 1) % 256
      omega
    · rw [phase_stream (n := clock - given) (by omega) (by omega)]
      show ((clock - given - 1) % 256 + 1) % 256 = _
      omega

theorem flight (commits : Commits b ticks given) (after : given + 1 ≤ clock) (before : clock ≤ landing b ticks given)
    (unreset : ∀ tick, given ≤ tick → tick < clock → resetAt b ticks tick = false) : Flight b ticks given clock := by
  induction clock, after using Nat.le_induction with
  | base => exact flight_begins commits (unreset given (Nat.le_refl _) (Nat.lt_succ_self _))
  | succ clock after ih =>
    exact (ih (by omega) fun tick lo hi => unreset tick lo (Nat.lt_succ_of_lt hi)).next (by omega)
      (unreset clock (by omega) (Nat.lt_succ_self _))

theorem flight_run (busy : (offer b ticks clock).xst ≠ .idle) : ∃ given, Flight b ticks given clock := by
  induction clock with
  | zero => exact absurd rfl busy
  | succ clock ih =>
    have unreset : resetAt b ticks clock = false := by
      by_contra up
      rw [xst_succ, if_pos (Bool.of_not_eq_false up)] at busy
      exact busy rfl
    by_cases idle : (offer b ticks clock).xst = .idle
    · rw [xst_succ, unreset, if_neg Bool.false_ne_true, idle] at busy
      by_cases commits : Commits b ticks clock
      · exact ⟨clock, flight_begins commits unreset⟩
      · exact absurd (if_neg commits) busy
    · obtain ⟨given, flight⟩ := ih idle
      obtain last | more := Nat.eq_or_lt_of_le flight.before
      · have done : (offer b ticks clock).xst = .done := by
          rw [flight.xst, phase, last, landing]
          rw [if_neg (by omega), if_neg (by omega), if_neg (by omega)]
        rw [xst_succ, unreset, if_neg Bool.false_ne_true, done] at busy
        exact absurd rfl busy
      · exact ⟨given, flight.next more unreset⟩

theorem Flight.done_iff (flight : Flight b ticks given clock) : (offer b ticks clock).xst = .done ↔
    clock = landing b ticks given := by
  have after := flight.after
  have before := flight.before
  rw [flight.xst, phase]
  unfold landing at before ⊢
  constructor
  · intro done
    split_ifs at done
    omega
  · intro last
    rw [if_neg (by omega), if_neg (by omega), if_neg (by omega)]

end Flight

section Filling

variable (b : Buffers) (ticks : Nat → ChaosTick)

/-- The words of a frame on its way, in the buffer below its top but for the first. -/
structure Filling (given clock : Nat) : Prop where
  fill : (receiver b ticks clock).fill = min (clock - given - 2) (lengthOf b ticks given)
  top : given + 2 < clock → (receiver b ticks clock).top = lengthOf b ticks given - 1
  w0 : given + 2 < clock → (receiver b ticks clock).w0 = streamed b ticks given 0
  placed : ∀ k, 0 < k → k < lengthOf b ticks given → given + 2 + k < clock →
    (receiver b ticks clock).rcv (lengthOf b ticks given - 1 - k) = streamed b ticks given k
  unclear : ∀ tick, given + 2 ≤ tick → tick < clock → Clears (ticks tick) = false

variable {b ticks} {given clock : Nat}

theorem fill_succ : (receiver b ticks (clock + 1)).fill =
    if Resets (ticks clock) || Clears (ticks clock) then 0
    else if (offer b ticks clock).xst = .done then 0
    else if (offer b ticks clock).xst = .stream ∧ (receiver b ticks clock).rdone = false ∧
      resetAt b ticks clock = false ∧ (receiver b ticks clock).fill ≠ 257 then (receiver b ticks clock).fill + 1
    else (receiver b ticks clock).fill := by
  rw [receiver_succ, Receiver.next]
  unfold Receiver.rxIn lineAt Offer.line
  simp only [Bool.and_eq_true, Bool.not_eq_true', decide_eq_true_iff, and_assoc]
  rfl

theorem drop_succ : (receiver b ticks (clock + 1)).drop =
    if Clears (ticks clock) = true ∧ ((offer b ticks clock).xst = .stream ∨ (receiver b ticks clock).fill ≠ 0) ∧
      (offer b ticks clock).xst ≠ .done then true
    else if (offer b ticks clock).xst = .done ∨ resetAt b ticks clock = true then false
    else (receiver b ticks clock).drop := by
  rw [receiver_succ, Receiver.next]
  unfold Receiver.rxMid lineAt Offer.line
  simp only [Bool.and_eq_true, Bool.or_eq_true, Bool.not_eq_true', decide_eq_true_iff, decide_eq_false_iff_not]
  rfl

theorem fill_idle : ((offer b ticks clock).xst = .idle → (receiver b ticks clock).fill = 0) ∧
    (resetAt b ticks clock = true → (receiver b ticks clock).fill = 0) := by
  induction clock with
  | zero => exact ⟨fun _ => rfl, fun _ => rfl⟩
  | succ clock ih =>
    rw [resetAt_succ, fill_succ]
    refine ⟨fun idle => ?_, fun resets => by rw [resets]; rfl⟩
    by_cases cleared : (Resets (ticks clock) || Clears (ticks clock)) = true
    · exact if_pos cleared
    · rw [if_neg cleared]
      by_cases done : (offer b ticks clock).xst = .done
      · exact if_pos done
      · rw [if_neg done]
        cases reset : resetAt b ticks clock with
        | true =>
          rw [if_neg (by simp)]
          exact ih.2 reset
        | false =>
          rw [xst_succ, reset, if_neg Bool.false_ne_true] at idle
          cases xst : (offer b ticks clock).xst with
          | idle =>
            rw [if_neg (by simp)]
            exact ih.1 xst
          | done => exact absurd xst done
          | prime | gap =>
            rw [xst] at idle
            exact nomatch idle
          | stream =>
            rw [xst] at idle
            dsimp only at idle
            split_ifs at idle

theorem drop_idle (idle : (offer b ticks clock).xst = .idle) (drop : (receiver b ticks clock).drop = true) :
    ∃ before, before + 1 < clock ∧ Resets (ticks before) = true ∧ Clears (ticks (before + 1)) = true := by
  induction clock with
  | zero => exact absurd drop Bool.false_ne_true
  | succ clock ih =>
    rw [drop_succ] at drop
    cases reset : resetAt b ticks clock with
    | true =>
      by_cases cleared : Clears (ticks clock) = true
      · cases clock with
        | zero => exact absurd reset Bool.false_ne_true
        | succ before => exact ⟨before, Nat.lt_succ_self _, reset, cleared⟩
      · rw [if_neg fun all => cleared all.1, if_pos (Or.inr reset)] at drop
        exact absurd drop Bool.false_ne_true
    | false =>
      rw [xst_succ, reset, if_neg Bool.false_ne_true] at idle
      cases xst : (offer b ticks clock).xst with
      | idle =>
        rw [if_neg (by simp [xst, fill_idle.1 xst]), if_neg (by simp [xst, reset])] at drop
        obtain ⟨before, lt, is⟩ := ih xst drop
        exact ⟨before, Nat.lt_succ_of_lt lt, is⟩
      | done =>
        rw [if_neg (by simp [xst]), if_pos (Or.inl xst)] at drop
        exact absurd drop Bool.false_ne_true
      | prime | gap =>
        rw [xst] at idle
        exact nomatch idle
      | stream =>
        rw [xst] at idle
        dsimp only at idle
        split_ifs at idle

theorem fill_prime (commits : Commits b ticks given) : (receiver b ticks (given + 1)).fill = 0 := by
  obtain ⟨-, -, idle⟩ := commits.asked
  rw [fill_succ]
  split_ifs with _ _ streams
  · rfl
  · rfl
  · exact nomatch idle.symm.trans streams.1
  · exact fill_idle.1 idle

theorem not_dropped (commits : Commits b ticks given) (after : given + 1 ≤ clock)
    (before : clock ≤ landing b ticks given)
    (unreset : ∀ tick, given ≤ tick → tick < clock → resetAt b ticks tick = false)
    (fresh : (receiver b ticks given).drop = false)
    (unclear : ∀ tick, given + 2 ≤ tick → tick < clock → Clears (ticks tick) = false) :
    (receiver b ticks clock).drop = false := by
  induction clock, after using Nat.le_induction with
  | base =>
    obtain ⟨-, -, idle⟩ := commits.asked
    have still := unreset given (Nat.le_refl _) (Nat.lt_succ_self _)
    rw [drop_succ, if_neg (by simp [idle, fill_idle.1 idle]), if_neg (by simp [idle, still]), fresh]
  | succ clock after ih =>
    have calm : ∀ tick, given ≤ tick → tick < clock → resetAt b ticks tick = false := fun tick lo hi =>
      unreset tick lo (Nat.lt_succ_of_lt hi)
    have flying := flight commits after (by omega) calm
    have still := unreset clock (by omega) (Nat.lt_succ_self _)
    have going : (offer b ticks clock).xst ≠ .done := by
      rw [Ne, flying.done_iff]
      omega
    have kept : ¬ (Clears (ticks clock) = true ∧ ((offer b ticks clock).xst = .stream ∨
        (receiver b ticks clock).fill ≠ 0) ∧ (offer b ticks clock).xst ≠ .done) := by
      obtain rfl | late : clock = given + 1 ∨ given + 2 ≤ clock := by omega
      · have prime : (offer b ticks (given + 1)).xst = .prime := by
          rw [flying.xst, Nat.add_sub_cancel_left, phase_prime]
        simp [prime, fill_prime commits]
      · simp [unclear clock late (Nat.lt_succ_self _)]
    rw [drop_succ, if_neg kept, if_neg (by simp [going, still])]
    exact ih (by omega) calm fun tick lo hi => unclear tick lo (Nat.lt_succ_of_lt hi)

/-- A word comes in. -/
def Fills (b : Buffers) (ticks : Nat → ChaosTick) (clock : Nat) : Prop := (offer b ticks clock).xst = .stream ∧
  (receiver b ticks clock).rdone = false ∧ resetAt b ticks clock = false

theorem rxIn_iff : (receiver b ticks clock).rxIn (lineAt b ticks clock) (resetAt b ticks clock) = true ↔
    Fills b ticks clock := by
  unfold Receiver.rxIn lineAt Offer.line Fills
  simp only [Bool.and_eq_true, Bool.not_eq_true', decide_eq_true_iff, and_assoc]

theorem rxFirst_iff : (receiver b ticks clock).rxFirst (lineAt b ticks clock) (resetAt b ticks clock) = true ↔
    Fills b ticks clock ∧ (receiver b ticks clock).fill = 0 := by
  rw [Receiver.rxFirst, Bool.and_eq_true, rxIn_iff, decide_eq_true_iff]

theorem top_succ : (receiver b ticks (clock + 1)).top =
    if (receiver b ticks clock).rxFirst (lineAt b ticks clock) (resetAt b ticks clock)
    then ((offer b ticks clock).xLen * 16 + 4095) % 4096 / 16 else (receiver b ticks clock).top := rfl

theorem w0_succ : (receiver b ticks (clock + 1)).w0 =
    if (receiver b ticks clock).rxFirst (lineAt b ticks clock) (resetAt b ticks clock)
    then (offer b ticks clock).rxQ else (receiver b ticks clock).w0 := rfl

theorem rcv_succ : (receiver b ticks (clock + 1)).rcv =
    (receiver b ticks clock).stored (lineAt b ticks clock) (resetAt b ticks clock) := rfl

theorem rcv_fills (going : (offer b ticks clock).xst ≠ .done) : (receiver b ticks (clock + 1)).rcv =
    if (receiver b ticks clock).rxIn (lineAt b ticks clock) (resetAt b ticks clock) &&
      (receiver b ticks clock).fill ≠ 0 && (receiver b ticks clock).fill < 256
    then Function.update (receiver b ticks clock).rcv
      ((receiver b ticks clock).place (receiver b ticks clock).fill) (offer b ticks clock).rxQ
    else (receiver b ticks clock).rcv := by
  have done : (lineAt b ticks clock).rxDone = false := decide_eq_false going
  rw [rcv_succ, Receiver.stored, if_neg]
  · rfl
  · simp [Receiver.commit, Receiver.takenNow, Receiver.storeNow, done]

theorem Filling.next (filling : Filling b ticks given clock) (flight : Flight b ticks given clock)
    (more : clock < landing b ticks given) (still : resetAt b ticks clock = false)
    (unreset : Resets (ticks clock) = false) (unclear : given + 2 ≤ clock → Clears (ticks clock) = false) :
    Filling b ticks given (clock + 1) := by
  obtain ⟨least, most⟩ := flight.commits.fits
  have after := flight.after
  have xst := flight.xst
  have going : (offer b ticks clock).xst ≠ .done := by
    rw [Ne, flight.done_iff]
    omega
  have fill := filling.fill
  have fills (streams : given + 2 ≤ clock) (inside : clock < given + lengthOf b ticks given + 2) :
      Fills b ticks clock :=
    ⟨by rw [xst, phase_stream (by omega) (by omega)], flight.rdone, still⟩
  have idles (gap : clock = given + lengthOf b ticks given + 2) : ¬ Fills b ticks clock := by
    rintro ⟨stream, -⟩
    rw [xst, show clock - given = lengthOf b ticks given + 2 by omega, phase_gap _ least] at stream
    exact nomatch stream
  unfold landing at more
  refine ⟨?_, fun late => ?_, fun late => ?_, fun k some_ small late => ?_, fun tick lo hi => ?_⟩
  · obtain prime | streams | gap : clock = given + 1 ∨
        given + 2 ≤ clock ∧ clock < given + lengthOf b ticks given + 2 ∨
        clock = given + lengthOf b ticks given + 2 := by omega
    · rw [prime, fill_succ]
      rw [prime] at xst fill
      split_ifs with _ _ stream
      · omega
      · omega
      · rw [xst, Nat.add_sub_cancel_left] at stream
        exact nomatch stream.1
      · omega
    · obtain ⟨stream, down, -⟩ := fills streams.1 streams.2
      rw [fill_succ, unreset, unclear streams.1, if_neg (by decide), if_neg going,
        if_pos ⟨stream, down, still, by omega⟩]
      omega
    · rw [fill_succ, unreset, unclear (by omega), if_neg (by decide), if_neg going, if_neg]
      · omega
      · exact fun all => idles gap ⟨all.1, all.2.1, all.2.2.1⟩
  · rw [top_succ]
    by_cases first : clock = given + 2
    · rw [if_pos (rxFirst_iff.mpr ⟨fills (by omega) (by omega), by omega⟩), flight.xLen]
      omega
    · rw [if_neg fun is => by have := (rxFirst_iff.mp is).2; omega]
      exact filling.top (by omega)
  · rw [w0_succ]
    by_cases first : clock = given + 2
    · rw [if_pos (rxFirst_iff.mpr ⟨fills (by omega) (by omega), by omega⟩)]
      exact flight.rxQ 0 first.symm (by omega)
    · rw [if_neg fun is => by have := (rxFirst_iff.mp is).2; omega]
      exact filling.w0 (by omega)
  · rw [rcv_fills going]
    obtain gap | streams : clock = given + lengthOf b ticks given + 2 ∨
        clock < given + lengthOf b ticks given + 2 := by omega
    · rw [if_neg]
      · exact filling.placed k some_ small (by omega)
      · rw [Bool.and_eq_true, Bool.and_eq_true, rxIn_iff]
        exact fun all => idles gap all.1.1
    · rw [if_pos]
      · have place : (receiver b ticks clock).place (receiver b ticks clock).fill =
            lengthOf b ticks given - 1 - (clock - given - 2) := by
          rw [Receiver.place, fill, filling.top (by omega)]
          omega
        rw [place]
        by_cases last : given + 2 + k = clock
        · rw [show lengthOf b ticks given - 1 - k = lengthOf b ticks given - 1 - (clock - given - 2) by omega,
            Function.update_self]
          exact flight.rxQ k last small
        · rw [Function.update_of_ne (by omega)]
          exact filling.placed k some_ small (by omega)
      · rw [Bool.and_eq_true, Bool.and_eq_true, rxIn_iff, decide_eq_true_iff, decide_eq_true_iff]
        exact ⟨⟨fills (by omega) streams, by omega⟩, by omega⟩
  · obtain rfl | earlier : tick = clock ∨ tick < clock := by omega
    · exact unclear lo
    · exact filling.unclear tick lo earlier

theorem filling (commits : Commits b ticks given) (after : given + 1 ≤ clock) (before : clock ≤ landing b ticks given)
    (unreset : ∀ tick, given ≤ tick → tick ≤ clock → resetAt b ticks tick = false)
    (kept : (receiver b ticks clock).drop = false) : Filling b ticks given clock := by
  induction clock, after using Nat.le_induction with
  | base =>
    refine ⟨?_, fun late => by omega, fun late => by omega, fun k _ _ late => by omega, fun tick lo hi => by omega⟩
    rw [fill_prime commits]
    omega
  | succ clock after ih =>
    have calm : ∀ tick, given ≤ tick → tick ≤ clock → resetAt b ticks tick = false := fun tick lo hi =>
      unreset tick lo (Nat.le_succ_of_le hi)
    have flying := flight commits after (by omega) fun tick lo hi => calm tick lo (Nat.le_of_lt hi)
    have still := calm clock (by omega) (Nat.le_refl _)
    have going : (offer b ticks clock).xst ≠ .done := by
      rw [Ne, flying.done_iff]
      omega
    rw [drop_succ] at kept
    split_ifs at kept with dropped gone
    · exact absurd (gone.resolve_left going) (by rw [still]; decide)
    · have filling := ih (by omega) calm kept
      refine filling.next flying (by omega) still (unreset (clock + 1) (by omega) (Nat.le_refl _)) fun late => ?_
      by_contra clears
      refine dropped ⟨Bool.of_not_eq_false clears, ?_, going⟩
      obtain ⟨least, -⟩ := commits.fits
      by_cases streams : clock < given + lengthOf b ticks given + 2
      · exact Or.inl (by rw [flying.xst, phase_stream (by omega) (by omega)])
      · refine Or.inr ?_
        rw [filling.fill]
        omega

end Filling

section Landed

variable (b : Buffers) (ticks : Nat → ChaosTick)

/-- The READ BUFFER reads in the ticks after a tick. -/
def reads (since n : Nat) : Nat := Nat.count (fun j => (ticks (since + 1 + j)).access = .read) n

/-- The words of a frame as they were streamed. -/
def words (given : Nat) : List Word := (List.range (lengthOf b ticks given)).map (streamed b ticks given)

/-- A frame in the buffer, so many ticks after its landing, and what its reads have left. -/
structure Landed (given n : Nat) : Prop where
  rdone : (receiver b ticks (landing b ticks given + 1 + n)).rdone = true
  top : (receiver b ticks (landing b ticks given + 1 + n)).top = lengthOf b ticks given - 1
  tw : (receiver b ticks (landing b ticks given + 1 + n)).tw = streamed b ticks given 0
  rlow : (receiver b ticks (landing b ticks given + 1 + n)).rlow = 0
  rcv : ∀ k, 0 < k → k < lengthOf b ticks given → (receiver b ticks (landing b ticks given + 1 + n)).rcv
    (lengthOf b ticks given - 1 - k) = streamed b ticks given k
  rat : (receiver b ticks (landing b ticks given + 1 + n)).rat = reads ticks (landing b ticks given) n % 256
  read : (receiver b ticks (landing b ticks given + 1 + n)).read = decide (reads ticks (landing b ticks given) n ≠ 0)
  rbct : reads ticks (landing b ticks given) n ≤ lengthOf b ticks given →
    (receiver b ticks (landing b ticks given + 1 + n)).rbct =
      16 * (lengthOf b ticks given - reads ticks (landing b ticks given) n) % 4096
  rcheck : reads ticks (landing b ticks given) n ≤ lengthOf b ticks given →
    (receiver b ticks (landing b ticks given + 1 + n)).rcheck =
      ((words b ticks given).take (reads ticks (landing b ticks given) n)).foldl crcWord 0
  crc : (receiver b ticks (landing b ticks given + 1 + n)).crc =
    decide ((receiver b ticks (landing b ticks given + 1 + n)).rcheck ≠ 0)
  rd : ∀ before, n = before + 1 → (ticks (landing b ticks given + 1 + before)).access ≠ .read →
    (receiver b ticks (landing b ticks given + 1 + n)).rd = (receiver b ticks (landing b ticks given + 1 + n)).rcv
      ((receiver b ticks (landing b ticks given + 1 + n)).place
        (receiver b ticks (landing b ticks given + 1 + n)).rat)

variable {b ticks} {given clock n : Nat}

section Fields

variable {l : CableLine} {s : Receiver} {resetQ : Bool} {a : CardAccess}

theorem stored_done (up : s.rdone = true) : s.stored l resetQ = s.rcv := by
  simp [Receiver.stored, Receiver.commit, Receiver.storeNow, Receiver.rxIn, up]

theorem commit_done (up : s.rdone = true) : s.commit l resetQ = false := by
  simp [Receiver.commit, up]

theorem rxFirst_done (up : s.rdone = true) : s.rxFirst l resetQ = false := by
  simp [Receiver.rxFirst, Receiver.rxIn, up]

theorem rxMerged_whole (whole : l.rxBits % 16 = 0) : s.rxMerged l = s.w0 := by
  rw [Receiver.rxMerged, whole]
  show (_ &&& ~~~0xffff#16) ||| (s.w0 &&& 0xffff#16) = s.w0
  rw [show ~~~0xffff#16 = 0#16 from rfl, BitVec.and_zero, BitVec.zero_or]
  exact BitVec.and_allOnes

end Fields

theorem rat_succ : (receiver b ticks (clock + 1)).rat = if Resets (ticks clock) || Clears (ticks clock) then 0
    else if (receiver b ticks clock).reads (ticks clock).access then ((receiver b ticks clock).rat + 1) % 256
    else (receiver b ticks clock).rat := rfl

theorem read_succ : (receiver b ticks (clock + 1)).read = if Resets (ticks clock) || Clears (ticks clock) then false
    else if (receiver b ticks clock).reads (ticks clock).access then true
    else if (receiver b ticks clock).commit (lineAt b ticks clock) (resetAt b ticks clock) then false
    else (receiver b ticks clock).read := rfl

theorem rbct_succ : (receiver b ticks (clock + 1)).rbct = if Resets (ticks clock) || Clears (ticks clock) then 0
    else if (receiver b ticks clock).reads (ticks clock).access then
      (if (receiver b ticks clock).read then ((receiver b ticks clock).rbct + 4080) % 4096
        else (receiver b ticks clock).top * 16)
    else if (receiver b ticks clock).commit (lineAt b ticks clock) (resetAt b ticks clock) then
      (lineAt b ticks clock).rxBits % 4096
    else (receiver b ticks clock).rbct := rfl

theorem rcheck_succ : (receiver b ticks (clock + 1)).rcheck = if Resets (ticks clock) || Clears (ticks clock) then 0
    else if (receiver b ticks clock).reads (ticks clock).access then
      crcWord (receiver b ticks clock).rcheck ((receiver b ticks clock).word (lineAt b ticks clock))
    else if (receiver b ticks clock).commit (lineAt b ticks clock) (resetAt b ticks clock) then 0
    else (receiver b ticks clock).rcheck := rfl

theorem crc_succ : (receiver b ticks (clock + 1)).crc = if Resets (ticks clock) || Clears (ticks clock) then false
    else if (receiver b ticks clock).reads (ticks clock).access then
      decide (crcWord (receiver b ticks clock).rcheck ((receiver b ticks clock).word (lineAt b ticks clock)) ≠ 0)
    else if (receiver b ticks clock).commit (lineAt b ticks clock) (resetAt b ticks clock) then false
    else (receiver b ticks clock).crc := rfl

theorem tw_succ : (receiver b ticks (clock + 1)).tw =
    if (receiver b ticks clock).commit (lineAt b ticks clock) (resetAt b ticks clock)
    then (receiver b ticks clock).rxMerged (lineAt b ticks clock) else (receiver b ticks clock).tw := rfl

theorem rlow_succ : (receiver b ticks (clock + 1)).rlow =
    if (receiver b ticks clock).commit (lineAt b ticks clock) (resetAt b ticks clock)
    then (lineAt b ticks clock).rxBits % 16 else (receiver b ticks clock).rlow := rfl

theorem rd_succ : (receiver b ticks (clock + 1)).rd =
    (receiver b ticks clock).rcv ((receiver b ticks clock).readAt (lineAt b ticks clock)) := rfl

theorem rat_empty (down : (receiver b ticks clock).rdone = false) : (receiver b ticks clock).rat = 0 := by
  induction clock with
  | zero => rfl
  | succ clock ih =>
    rw [rat_succ]
    rw [rdone_succ] at down
    cases calm : Resets (ticks clock) || Clears (ticks clock) with
    | true => rfl
    | false =>
      rw [calm, if_neg Bool.false_ne_true] at down
      have empty : (receiver b ticks clock).rdone = false := by
        split_ifs at down
        exact down
      rw [if_neg Bool.false_ne_true, Receiver.reads, empty, Bool.and_false, if_neg Bool.false_ne_true]
      exact ih empty

theorem reads_succ (since n : Nat) : reads ticks since (n + 1) =
    reads ticks since n + if (ticks (since + 1 + n)).access = .read then 1 else 0 := Nat.count_succ _ _

theorem length_words : (words b ticks given).length = lengthOf b ticks given := by
  rw [words, List.length_map, List.length_range]

theorem getElem_words {k : Nat} (small : k < lengthOf b ticks given) :
    (words b ticks given)[k]? = some (streamed b ticks given k) := by
  rw [words, List.getElem?_map, List.getElem?_range small]
  rfl

theorem Filling.landed (filling : Filling b ticks given (landing b ticks given))
    (flight : Flight b ticks given (landing b ticks given))
    (kept : (receiver b ticks (landing b ticks given)).drop = false)
    (still : resetAt b ticks (landing b ticks given) = false) (long : 4 ≤ lengthOf b ticks given)
    (unreset : Resets (ticks (landing b ticks given)) = false)
    (unclear : Clears (ticks (landing b ticks given)) = false) : Landed b ticks given 0 := by
  obtain ⟨least, most⟩ := flight.commits.fits
  have late : given + 2 < landing b ticks given := by unfold landing; omega
  have whole : (lineAt b ticks (landing b ticks given)).rxBits = lengthOf b ticks given * 16 :=
    congrArg (· * 16) flight.xLen
  have merged : (receiver b ticks (landing b ticks given)).rxMerged (lineAt b ticks (landing b ticks given)) =
      streamed b ticks given 0 := by
    rw [rxMerged_whole (by rw [whole]; omega), filling.w0 late]
  have commit : (receiver b ticks (landing b ticks given)).commit (lineAt b ticks (landing b ticks given))
      (resetAt b ticks (landing b ticks given)) = true :=
    commit_iff.mpr ⟨flight.done_iff.mpr rfl, kept, still, by rw [flight.xLen]; omega, flight.rdone⟩
  have calm : (Resets (ticks (landing b ticks given)) || Clears (ticks (landing b ticks given))) = false := by
    rw [unreset, unclear]
    rfl
  have first : (receiver b ticks (landing b ticks given)).rxFirst (lineAt b ticks (landing b ticks given))
      (resetAt b ticks (landing b ticks given)) ≠ true := by
    rw [Ne, rxFirst_iff]
    exact fun is => absurd (is.1.1.symm.trans (flight.done_iff.mpr rfl)) (fun no => nomatch no)
  have idle : (receiver b ticks (landing b ticks given)).reads (ticks (landing b ticks given)).access = false := by
    rw [Receiver.reads, flight.rdone, Bool.and_false]
  have none_ : reads ticks (landing b ticks given) 0 = 0 := Nat.count_zero _
  have top : (receiver b ticks (landing b ticks given)).top = lengthOf b ticks given - 1 := filling.top late
  have check : (receiver b ticks (landing b ticks given + 1)).rcheck = 0 := by
    rw [rcheck_succ, calm, idle, commit]
    rfl
  refine ⟨?_, ?_, ?_, ?_, fun k some_ small => ?_, ?_, ?_, fun _ => ?_, fun _ => ?_, ?_, fun before is => by omega⟩
  · show (receiver b ticks (landing b ticks given + 1)).rdone = true
    rw [rdone_succ, calm, commit]
    rfl
  · show (receiver b ticks (landing b ticks given + 1)).top = _
    rw [top_succ, if_neg first, top]
  · show (receiver b ticks (landing b ticks given + 1)).tw = _
    rw [tw_succ, commit, if_pos rfl, merged]
  · show (receiver b ticks (landing b ticks given + 1)).rlow = 0
    rw [rlow_succ, commit, if_pos rfl, whole]
    omega
  · show (receiver b ticks (landing b ticks given + 1)).rcv _ = _
    rw [rcv_succ, Receiver.stored, commit, Bool.true_or, if_pos rfl, top, Function.update_of_ne (by omega)]
    exact filling.placed k some_ small (by unfold landing; omega)
  · show (receiver b ticks (landing b ticks given + 1)).rat = _
    rw [rat_succ, calm, idle, none_]
    exact rat_empty flight.rdone
  · show (receiver b ticks (landing b ticks given + 1)).read = _
    rw [read_succ, calm, idle, commit, none_]
    rfl
  · show (receiver b ticks (landing b ticks given + 1)).rbct = _
    rw [rbct_succ, calm, idle, commit, none_]
    show (lineAt b ticks (landing b ticks given)).rxBits % 4096 = _
    rw [whole]
    omega
  · show (receiver b ticks (landing b ticks given + 1)).rcheck = _
    rw [check, none_]
    rfl
  · show (receiver b ticks (landing b ticks given + 1)).crc =
      decide ((receiver b ticks (landing b ticks given + 1)).rcheck ≠ 0)
    rw [check, crc_succ, calm, idle, commit]
    rfl

theorem Landed.word (landed : Landed b ticks given n) (most : lengthOf b ticks given ≤ 256)
    (apart : ∀ before, n = before + 1 → (ticks (landing b ticks given + 1 + before)).access ≠ .read)
    (more : reads ticks (landing b ticks given) n < lengthOf b ticks given) :
    (receiver b ticks (landing b ticks given + 1 + n)).word (lineAt b ticks (landing b ticks given + 1 + n)) =
      streamed b ticks given (reads ticks (landing b ticks given) n) := by
  rw [Receiver.word, landed.rdone, if_pos rfl, landed.read, landed.tw, landed.rlow]
  by_cases first : reads ticks (landing b ticks given) n = 0
  · rw [first]
    exact BitVec.and_allOnes
  · rw [decide_eq_true first]
    show (receiver b ticks (landing b ticks given + 1 + n)).rd = _
    obtain ⟨before, rfl⟩ : ∃ before, n = before + 1 := by
      cases n with
      | zero => exact absurd (Nat.count_zero _) first
      | succ before => exact ⟨before, rfl⟩
    have place : (receiver b ticks (landing b ticks given + 1 + (before + 1))).place
        (receiver b ticks (landing b ticks given + 1 + (before + 1))).rat =
        lengthOf b ticks given - 1 - reads ticks (landing b ticks given) (before + 1) := by
      rw [Receiver.place, landed.rat, landed.top]
      omega
    rw [landed.rd before rfl (apart before rfl), place]
    exact landed.rcv _ (by omega) more

theorem Landed.next (landed : Landed b ticks given n) (most : lengthOf b ticks given ≤ 256)
    (calm : (Resets (ticks (landing b ticks given + 1 + n)) || Clears (ticks (landing b ticks given + 1 + n))) = false)
    (apart : ∀ before, n = before + 1 → (ticks (landing b ticks given + 1 + n)).access = .read →
      (ticks (landing b ticks given + 1 + before)).access ≠ .read) : Landed b ticks given (n + 1) := by
  have up := landed.rdone
  have commit : (receiver b ticks (landing b ticks given + 1 + n)).commit
      (lineAt b ticks (landing b ticks given + 1 + n)) (resetAt b ticks (landing b ticks given + 1 + n)) = false :=
    commit_done up
  have rcv : (receiver b ticks (landing b ticks given + 1 + (n + 1))).rcv =
      (receiver b ticks (landing b ticks given + 1 + n)).rcv := stored_done up
  have top : (receiver b ticks (landing b ticks given + 1 + (n + 1))).top =
      (receiver b ticks (landing b ticks given + 1 + n)).top := by
    show (receiver b ticks (landing b ticks given + 1 + n + 1)).top = _
    rw [top_succ, rxFirst_done up]
    rfl
  have done : (receiver b ticks (landing b ticks given + 1 + n + 1)).rdone = true := by
    rw [rdone_succ, calm, commit]
    exact up
  have tw : (receiver b ticks (landing b ticks given + 1 + n + 1)).tw = streamed b ticks given 0 := by
    rw [tw_succ, commit]
    exact landed.tw
  have rlow : (receiver b ticks (landing b ticks given + 1 + n + 1)).rlow = 0 := by
    rw [rlow_succ, commit]
    exact landed.rlow
  by_cases access : (ticks (landing b ticks given + 1 + n)).access = .read
  · have reading : (receiver b ticks (landing b ticks given + 1 + n)).reads
        (ticks (landing b ticks given + 1 + n)).access = true := by
      rw [Receiver.reads, access, up]
      rfl
    have count : reads ticks (landing b ticks given) (n + 1) = reads ticks (landing b ticks given) n + 1 := by
      rw [reads_succ, if_pos access]
    have check : (receiver b ticks (landing b ticks given + 1 + n + 1)).rcheck =
        crcWord (receiver b ticks (landing b ticks given + 1 + n)).rcheck
          ((receiver b ticks (landing b ticks given + 1 + n)).word (lineAt b ticks (landing b ticks given + 1 + n))) := by
      rw [rcheck_succ, calm, reading]
      rfl
    refine ⟨done, top.trans landed.top, tw, rlow, fun k some_ small => (congrFun rcv _).trans (landed.rcv k some_ small),
      ?_, ?_, fun more => ?_, fun more => ?_, ?_, fun before is no => ?_⟩
    · show (receiver b ticks (landing b ticks given + 1 + n + 1)).rat = _
      rw [rat_succ, calm, reading, count, landed.rat]
      exact Nat.mod_add_mod _ _ _
    · show (receiver b ticks (landing b ticks given + 1 + n + 1)).read = _
      rw [read_succ, calm, reading, count]
      rfl
    · show (receiver b ticks (landing b ticks given + 1 + n + 1)).rbct = _
      rw [count] at more ⊢
      have rbct := landed.rbct (Nat.le_of_succ_le more)
      rw [rbct_succ, calm, reading, if_neg Bool.false_ne_true, if_pos rfl, landed.read, landed.top, rbct]
      simp only [decide_eq_true_iff]
      split_ifs with later <;> omega
    · show (receiver b ticks (landing b ticks given + 1 + n + 1)).rcheck = _
      rw [count] at more ⊢
      have word := landed.word most (fun before is => apart before is access) (by omega)
      rw [check, landed.rcheck (by omega), word, List.take_add_one, getElem_words (by omega), List.foldl_append]
      rfl
    · show (receiver b ticks (landing b ticks given + 1 + n + 1)).crc =
        decide ((receiver b ticks (landing b ticks given + 1 + n + 1)).rcheck ≠ 0)
      rw [check, crc_succ, calm, reading]
      rfl
    · rw [show before = n by omega] at no
      exact absurd access no
  · have still : (receiver b ticks (landing b ticks given + 1 + n)).reads
        (ticks (landing b ticks given + 1 + n)).access = false := by
      rw [Receiver.reads, decide_eq_false access]
      rfl
    have count : reads ticks (landing b ticks given) (n + 1) = reads ticks (landing b ticks given) n := by
      rw [reads_succ, if_neg access]
      rfl
    have check : (receiver b ticks (landing b ticks given + 1 + n + 1)).rcheck =
        (receiver b ticks (landing b ticks given + 1 + n)).rcheck := by
      rw [rcheck_succ, calm, still, commit]
      rfl
    have rat : (receiver b ticks (landing b ticks given + 1 + n + 1)).rat =
        (receiver b ticks (landing b ticks given + 1 + n)).rat := by
      rw [rat_succ, calm, still]
      rfl
    refine ⟨done, top.trans landed.top, tw, rlow, fun k some_ small => (congrFun rcv _).trans (landed.rcv k some_ small),
      ?_, ?_, fun more => ?_, fun more => ?_, ?_, fun before is no => ?_⟩
    · rw [count]
      exact rat.trans landed.rat
    · show (receiver b ticks (landing b ticks given + 1 + n + 1)).read = _
      rw [read_succ, calm, still, commit, count]
      exact landed.read
    · show (receiver b ticks (landing b ticks given + 1 + n + 1)).rbct = _
      rw [count] at more ⊢
      rw [rbct_succ, calm, still, commit]
      exact landed.rbct more
    · rw [count] at more ⊢
      exact check.trans (landed.rcheck more)
    · show (receiver b ticks (landing b ticks given + 1 + n + 1)).crc =
        decide ((receiver b ticks (landing b ticks given + 1 + n + 1)).rcheck ≠ 0)
      rw [check, crc_succ, calm, still, commit]
      exact landed.crc
    · show (receiver b ticks (landing b ticks given + 1 + n + 1)).rd = (receiver b ticks _).rcv
        ((receiver b ticks _).place (receiver b ticks (landing b ticks given + 1 + n + 1)).rat)
      rw [rd_succ, rat, rcv, Receiver.place, top, Receiver.readAt, up, Bool.true_or, if_pos rfl]
      rfl

end Landed

section Order

variable (b : Buffers) (ticks : Nat → ChaosTick)

/-- Linux writes a word of the receive window. -/
def Writes (tick k : Nat) : Prop := ∃ w, (faceAt b ticks tick).window = some (k, w)

/-- After a commit, every word of the window but the first is written after the one before it, with no commit
between. -/
def Ascends (given : Nat) : Prop :=
  ∀ tick k, given < tick → Writes b ticks tick (k + 1) → ∃ before, before < tick ∧ Writes b ticks before k ∧
    ∀ between, before < between → between < tick → (faceAt b ticks between).command 1 = false

variable {b ticks} {given clock : Nat}

theorem Commits.command (commits : Commits b ticks given) : (faceAt b ticks given).command 1 = true ∧
    (faceAt b ticks given).window = none := by
  obtain ⟨asked, -, -⟩ := commits.asked
  unfold Offer.asked at asked
  simp only [Bool.and_eq_true] at asked
  refine ⟨asked.1.1, ?_⟩
  have command := asked.1.1
  unfold Face.command at command
  unfold Face.window
  cases wr : (faceAt b ticks given).wr with
  | none => rfl
  | some written =>
    rw [wr] at command
    simp only [Bool.and_eq_true, decide_eq_true_iff] at command
    exact if_neg (by omega)

theorem Ascends.late (ascends : Ascends b ticks given) (commits : Commits b ticks given) {tick k : Nat}
    (after : given < tick) (writes : Writes b ticks tick k) : given + 1 + k ≤ tick := by
  induction k generalizing tick with
  | zero => exact after
  | succ k ih =>
    obtain ⟨before, lt, earlier, silent⟩ := ascends tick k after writes
    obtain ⟨command, none_⟩ := commits.command
    have later : given < before := by
      by_contra sooner
      obtain rfl | passed : before = given ∨ before < given := by omega
      · obtain ⟨w, is⟩ := earlier
        exact nomatch none_.symm.trans is
      · exact Bool.false_ne_true ((silent given passed after).symm.trans command)
    have := ih later earlier
    omega

theorem rxBuf_succ : (offer b ticks (clock + 1)).rxBuf = match (faceAt b ticks clock).window with
    | some (k, w) => Function.update (offer b ticks clock).rxBuf k w
    | none => (offer b ticks clock).rxBuf := rfl

theorem streamed_eq (ascends : Ascends b ticks given) (commits : Commits b ticks given) (k : Nat) :
    streamed b ticks given k = (offer b ticks given).rxBuf k := by
  have stands (n : Nat) (upTo : n ≤ k + 1) : (offer b ticks (given + n)).rxBuf k = (offer b ticks given).rxBuf k := by
    induction n with
    | zero => rfl
    | succ n ih =>
      rw [← ih (by omega), ← Nat.add_assoc, rxBuf_succ]
      cases written : (faceAt b ticks (given + n)).window with
      | none => rfl
      | some write =>
        obtain ⟨place, w⟩ := write
        refine Function.update_of_ne ?_ _ _
        rintro rfl
        cases n with
        | zero => exact nomatch commits.command.2.symm.trans written
        | succ n =>
          have := ascends.late commits (by omega) ⟨w, written⟩
          omega
  rw [streamed, Nat.add_assoc, Nat.add_comm 1 k]
  exact stands (k + 1) (Nat.le_refl _)

theorem words_eq (ascends : Ascends b ticks given) (commits : Commits b ticks given) :
    words b ticks given = window b ticks given :=
  List.map_congr_left fun k _ => streamed_eq ascends commits k

end Order

section Refused

variable (b : Buffers) (ticks : Nat → ChaosTick)

/-- The same tick with its commit left out. -/
def spared (i : ChaosTick) : ChaosTick := { i with write := { i.write with wdata := i.write.wdata &&& ~~~2#32 } }

variable {b ticks} {clock : Nat}

section Spared

variable {i : ChaosTick} {s : Chaos}

end Spared

end Refused

section Received

variable (b : Buffers) (ticks : Nat → ChaosTick)

def csrAt (clock : Nat) : Word := (run b ticks clock).cable.csr (faceAt b ticks clock) (run b ticks clock).card

/-- Neither a Reset from the tick before the commit nor a Clear Receiver from the stream's first tick, to the
landing. -/
structure Unbroken (given : Nat) : Prop where
  unreset : ∀ tick, given ≤ tick + 1 → tick ≤ landing b ticks given → Resets (ticks tick) = false
  unclear : ∀ tick, given + 2 ≤ tick → tick ≤ landing b ticks given → Clears (ticks tick) = false

/-- What the machine finds so many ticks after a frame's landing. -/
structure Received (given n : Nat) : Prop where
  done : (csrAt b ticks (landing b ticks given + 1 + n)).getLsbD 15 = true
  word : (ticks (landing b ticks given + 1 + n)).access = .read →
    reads ticks (landing b ticks given) n < lengthOf b ticks given →
    (window b ticks given)[reads ticks (landing b ticks given) n]? =
      some ((receiver b ticks (landing b ticks given + 1 + n)).word (lineAt b ticks (landing b ticks given + 1 + n)))
  bits : reads ticks (landing b ticks given) n ≤ lengthOf b ticks given →
    (receiver b ticks (landing b ticks given + 1 + n)).bits (lineAt b ticks (landing b ticks given + 1 + n)) =
      (16 * (lengthOf b ticks given - reads ticks (landing b ticks given) n) + 4095) % 4096
  check : reads ticks (landing b ticks given) n = lengthOf b ticks given →
    ((csrAt b ticks (landing b ticks given + 1 + n)).getLsbD 14 = false ↔
      (window b ticks given).getLast? = some (checkWord (window b ticks given).dropLast))

variable {b ticks} {given clock : Nat}

theorem top_bits (top second : Bool) (a : BitVec 1) (b : BitVec 4) (c : BitVec 1) (d e : Bool) (low : BitVec 6) :
    let bits := BitVec.ofBool top ++ BitVec.ofBool second ++ a ++ b ++ c ++ BitVec.ofBool d ++ BitVec.ofBool e ++ low
    bits.getLsbD 15 = top ∧ bits.getLsbD 14 = second := by
  intro bits
  constructor
  all_goals
    unfold bits
    simp only [BitVec.getLsbD_append]
    simp

theorem csrAt_bits : (csrAt b ticks clock).getLsbD 15 = (receiver b ticks clock).rdone ∧
    (csrAt b ticks clock).getLsbD 14 = (receiver b ticks clock).crc := by
  have quiet (l : CableLine) (low : l.cblBusy = false) (c : Card) :
      (c.csr l).getLsbD 15 = c.rx.rdone ∧ (c.csr l).getLsbD 14 = c.rx.crc := by
    have bits := top_bits c.rx.rdone (c.rx.crc || (c.rx.taking l && l.rxCheckNz) ||
      (c.rx.downHere l && c.rx.dcheck ≠ 0)) 0 (BitVec.ofNat 4 c.rx.lost) 0 c.tx.tdone c.tx.tabort c.wbits
    refine ⟨bits.1, bits.2.trans ?_⟩
    simp [Receiver.taking, Receiver.downHere, low]
  exact quiet _ rfl _

/-- RDONE rises only where a frame committed has landed. -/
theorem rises (down : (receiver b ticks clock).rdone = false) (up : (receiver b ticks (clock + 1)).rdone = true) :
    ∃ given, Commits b ticks given ∧ clock = landing b ticks given ∧ 4 ≤ lengthOf b ticks given ∧
      Unbroken b ticks given ∧ Landed b ticks given 0 := by
  rw [rdone_succ, down] at up
  split_ifs at up with calm commit
  obtain ⟨done, kept, still, long, -⟩ := commit_iff.mp commit
  have busy : (offer b ticks clock).xst ≠ .idle := by
    rw [done]
    exact fun no => nomatch no
  obtain ⟨given, flight⟩ := flight_run busy
  obtain rfl := flight.done_iff.mp done
  rw [flight.xLen] at long
  have quiet : ∀ tick, given ≤ tick → tick ≤ landing b ticks given → resetAt b ticks tick = false := by
    intro tick lo hi
    obtain rfl | earlier := Nat.eq_or_lt_of_le hi
    · exact still
    · exact flight.unreset tick lo earlier
  have filling := filling flight.commits flight.after (Nat.le_refl _) quiet kept
  have unreset : Resets (ticks (landing b ticks given)) = false := by
    by_contra no
    exact calm (by rw [Bool.of_not_eq_false no]; rfl)
  have unclear : Clears (ticks (landing b ticks given)) = false := by
    by_contra no
    exact calm (by rw [Bool.of_not_eq_false no, Bool.or_true])
  refine ⟨given, flight.commits, rfl, by omega, ⟨fun tick lo hi => ?_, fun tick lo hi => ?_⟩,
    filling.landed flight kept still (by omega) unreset unclear⟩
  · obtain rfl | earlier := Nat.eq_or_lt_of_le hi
    · exact unreset
    · exact quiet (tick + 1) lo earlier
  · obtain rfl | earlier := Nat.eq_or_lt_of_le hi
    · exact unclear
    · exact filling.unclear tick lo earlier

theorem lands (commits : Commits b ticks given) (long : 4 ≤ lengthOf b ticks given) (unbroken : Unbroken b ticks given)
    (apart : ∀ tick, tick + 1 < given → Resets (ticks tick) = true → Clears (ticks (tick + 1)) = false) :
    (receiver b ticks (landing b ticks given)).rdone = false ∧
      (receiver b ticks (landing b ticks given + 1)).rdone = true := by
  have quiet : ∀ tick, given ≤ tick → tick ≤ landing b ticks given → resetAt b ticks tick = false := by
    intro tick lo hi
    cases tick with
    | zero => rfl
    | succ tick => exact unbroken.unreset tick lo (by omega)
  have after : given + 1 ≤ landing b ticks given := by unfold landing; omega
  have flying := flight commits after (Nat.le_refl _) fun tick lo hi => quiet tick lo (Nat.le_of_lt hi)
  have fresh : (receiver b ticks given).drop = false := by
    by_contra drop
    obtain ⟨before, lt, resets, clears⟩ := drop_idle commits.asked.2.2 (Bool.of_not_eq_false drop)
    exact Bool.false_ne_true ((apart before lt resets).symm.trans clears)
  have kept := not_dropped commits after (Nat.le_refl _) (fun tick lo hi => quiet tick lo (Nat.le_of_lt hi)) fresh
    fun tick lo hi => unbroken.unclear tick lo (Nat.le_of_lt hi)
  have commit := commit_iff.mpr ⟨flying.done_iff.mpr rfl, kept, quiet _ (by omega) (Nat.le_refl _),
    by rw [flying.xLen]; omega, flying.rdone⟩
  refine ⟨flying.rdone, ?_⟩
  rw [rdone_succ, unbroken.unreset _ (by omega) (Nat.le_refl _), unbroken.unclear _ (by unfold landing; omega)
    (Nat.le_refl _), commit]
  rfl

/-- A landed frame stands while nothing resets or clears it. -/
theorem Landed.run (landed : Landed b ticks given 0) (most : lengthOf b ticks given ≤ 256) {n : Nat}
    (calm : ∀ tick, landing b ticks given < tick → tick < landing b ticks given + 1 + n →
      Resets (ticks tick) = false ∧ Clears (ticks tick) = false)
    (apart : ∀ tick, landing b ticks given < tick → tick < landing b ticks given + n →
      (ticks tick).access = .read → (ticks (tick + 1)).access ≠ .read) : Landed b ticks given n := by
  induction n with
  | zero => exact landed
  | succ n ih =>
    refine (ih (fun tick lo hi => calm tick lo (by omega)) fun tick lo hi => apart tick lo (by omega)).next most ?_ ?_
    · obtain ⟨unreset, unclear⟩ := calm (landing b ticks given + 1 + n) (by omega) (by omega)
      rw [unreset, unclear]
      rfl
    · rintro before rfl reading earlier
      exact apart (landing b ticks given + 1 + before) (by omega) (by omega) earlier reading

theorem Landed.received (landed : Landed b ticks given n) (commits : Commits b ticks given)
    (ascends : Ascends b ticks given)
    (apart : ∀ before, n = before + 1 → (ticks (landing b ticks given + 1 + n)).access = .read →
      (ticks (landing b ticks given + 1 + before)).access ≠ .read) : Received b ticks given n := by
  obtain ⟨least, most⟩ := commits.fits
  have same := words_eq ascends commits
  refine ⟨csrAt_bits.1.trans landed.rdone, fun reading more => ?_, fun more => ?_, fun all => ?_⟩
  · rw [← same, getElem_words more, landed.word most (fun before is => apart before is reading) more]
  · rw [Receiver.bits, landed.rdone, if_pos rfl, landed.rbct more]
    omega
  · have some_ : window b ticks given ≠ [] := by
      rw [← same, ← List.length_pos_iff_ne_nil, length_words]
      omega
    have split := List.dropLast_append_getLast some_
    rw [csrAt_bits.2, landed.crc, decide_eq_false_iff_not, not_not, landed.rcheck (by omega), all,
      List.take_of_length_le (by rw [length_words]), same, List.getLast?_eq_some_getLast some_]
    nth_rewrite 1 [← split]
    rw [check_concat, Option.some.injEq]

end Received

section Clash

end Clash

end Chaos

end MuirFpga.Chaosnet
