import MuirFpga.Quux.Ethernet
import MuirFpga.Sync.Trace
import Mathlib.Data.Nat.Count

/-!
# Host moves of an epoch that is over

A host's move is checked in one clock and lands in the next. A move that carries another epoch, or
that the device is disabled under before it lands, leaves the device as if it had not been made: the
run without it has the same registers at every clock. The epoch counts the disables.
-/

namespace MuirFpga.Quux.Ethernet

open Sync

variable {mainWords : Nat} {s t : State} {d : Device} {i : Input}

/-- The clock with the host's write taken out. -/
def Input.unheard (i : Input) : Input := { i with hostWe := false }

/-- A write of TX_CONS or of RX_CONS. -/
def Input.moves (i : Input) : Prop := i.hostWe = true ∧ (i.hostWidx = 7#5 ∨ i.hostWidx = 9#5)

/-- The state with other moves to land. -/
def State.pending (s : State) (txPub rxPub : Bool) (txPubTo rxPubTo : BitVec 16) : State :=
  { s with txPub := txPub, rxPub := rxPub, txPubTo := txPubTo, rxPubTo := rxPubTo }

/-- Two states that differ in the moves to land. -/
def Differ (s t : State) : Prop := t = s.pending t.txPub t.rxPub t.txPubTo t.rxPubTo

/-- Two states with the same registers, and with the same moves to land if the device is enabled. -/
structure Alike (s t : State) : Prop where
  same : Differ s t
  tx : s.dev.on = true → t.txPub = s.txPub ∧ (s.txPub = true → t.txPubTo = s.txPubTo)
  rx : s.dev.on = true → t.rxPub = s.rxPub ∧ (s.rxPub = true → t.rxPubTo = s.rxPubTo)

theorem Differ.dev (differ : Differ s t) : t.dev = s.dev := by
  rw [differ]
  rfl

theorem Differ.epoch (differ : Differ s t) : t.epoch = s.epoch := by
  rw [differ]
  rfl

theorem Differ.busy (differ : Differ s t) : t.busy = s.busy := by
  rw [differ]
  rfl

theorem Differ.es (differ : Differ s t) : t.es = s.es := by
  rw [differ]
  rfl

theorem Alike.refl (s : State) : Alike s s :=
  ⟨rfl, fun _ => ⟨rfl, fun _ => rfl⟩, fun _ => ⟨rfl, fun _ => rfl⟩⟩

theorem Alike.lands (alike : Alike s t) :
    t.txLand = s.txLand ∧ t.rxLand = s.rxLand ∧ t.txChost = s.txChost ∧ t.rxChost = s.rxChost := by
  have dev := alike.same.dev
  cases on : s.dev.on with
  | false => simp [State.txLand, State.rxLand, State.txChost, State.rxChost, dev, on]
  | true =>
    obtain ⟨txPub, txTo⟩ := alike.tx on
    obtain ⟨rxPub, rxTo⟩ := alike.rx on
    refine ⟨?_, ?_, ?_, ?_⟩
    · simp [State.txLand, dev, txPub]
    · simp [State.rxLand, dev, rxPub]
    · unfold State.txChost State.txLand
      rw [dev, txPub]
      cases pub : s.txPub with
      | false => simp
      | true => rw [txTo pub]
    · unfold State.rxChost State.rxLand
      rw [dev, rxPub]
      cases pub : s.rxPub with
      | false => simp
      | true => rw [rxTo pub]

theorem Alike.takes (alike : Alike s t) (i : Input) :
    t.txTakes i = s.txTakes i ∧ t.rxTakes i = s.rxTakes i := by
  obtain ⟨-, -, txChost, rxChost⟩ := alike.lands
  have inEpoch : t.inEpoch i = s.inEpoch i := by
    unfold State.inEpoch
    rw [alike.same.dev, alike.same.epoch]
  constructor
  · unfold State.txTakes
    rw [inEpoch, txChost, alike.same.dev]
  · unfold State.rxTakes
    rw [inEpoch, rxChost, alike.same.dev]

theorem Alike.device (alike : Alike s t) (i : Input) :
    t.device mainWords i = s.device mainWords i := by
  obtain ⟨-, -, txChost, rxChost⟩ := alike.lands
  have landed : t.landed i = s.landed i := by
    unfold State.txChost at txChost
    unfold State.rxChost at rxChost
    unfold State.landed State.eMove
    rw [txChost, rxChost, alike.same.dev, alike.same.es]
  unfold State.device
  rw [landed]

theorem engine_pending {txPub rxPub : Bool} {txPubTo rxPubTo : BitVec 16}
    (on : (i.rst || !((s.pending txPub rxPub txPubTo rxPubTo).device mainWords i).on) =
      (i.rst || !(s.device mainWords i).on)) :
    (s.pending txPub rxPub txPubTo rxPubTo).engine mainWords i =
      (s.engine mainWords i).pending txPub rxPub txPubTo rxPubTo := by
  unfold State.engine
  rw [on]
  by_cases idle : (i.rst || !(s.device mainWords i).on) = true
  · rw [if_pos idle, if_pos idle]
    rfl
  · rw [if_neg idle, if_neg idle]
    obtain ⟨dev, es, eBuf, eRoom, eLine, eLast, -, -, -, -, busy, epoch⟩ := s
    cases es with
    | idle =>
      by_cases level : dev.rxCons = dev.rxTarget <;> simp [State.pending, level]
    | start => rfl
    | grant => cases granted : i.eGrant <;> rfl
    | rd0 | rd1 | rd2 => cases done : i.eDone <;> rfl
    | clr | entry => cases done : i.cDone <;> rfl

theorem Differ.next (differ : Differ s t)
    (device : i.rst = false → t.device mainWords i = s.device mainWords i) :
    Differ (s.next mainWords i) (t.next mainWords i) := by
  have engine : t.engine mainWords i =
      (s.engine mainWords i).pending t.txPub t.rxPub t.txPubTo t.rxPubTo := by
    rw [differ] at device
    have on : (i.rst || !((s.pending t.txPub t.rxPub t.txPubTo t.rxPubTo).device mainWords i).on) =
        (i.rst || !(s.device mainWords i).on) := by
      cases rst : i.rst with
      | true => rfl
      | false => rw [device rst]
    have stepped := engine_pending on
    rw [← differ] at stepped
    exact stepped
  have claim : t.claim i = s.claim i := by
    unfold State.claim State.inEpoch
    rw [differ.dev, differ.epoch, differ.busy]
  unfold Differ State.next
  rw [engine, claim, differ.dev, differ.epoch]
  cases rst : i.rst with
  | true => rfl
  | false =>
    rw [device rst]
    rfl

theorem Alike.next (alike : Alike s t) (i : Input) :
    Alike (s.next mainWords i) (t.next mainWords i) := by
  obtain ⟨txTakes, rxTakes⟩ := alike.takes i
  refine ⟨alike.same.next fun _ => alike.device i, fun _ => ⟨?_, fun pub => ?_⟩, fun _ => ⟨?_, fun pub => ?_⟩⟩
  · simp only [State.next, txTakes]
  · simp only [State.next, Bool.and_eq_true, Bool.not_eq_true'] at pub
    simp [State.next, txTakes, pub.1, pub.2]
  · simp only [State.next, rxTakes]
  · simp only [State.next, Bool.and_eq_true, Bool.not_eq_true'] at pub
    simp [State.next, rxTakes, pub.1, pub.2]

theorem next_unheard (mainWords : Nat) (s : State) (move : i.moves) :
    Differ (s.next mainWords i) (s.next mainWords i.unheard) ∧
      (s.inEpoch i = false → s.next mainWords i.unheard = s.next mainWords i) := by
  have claim : s.claim i.unheard = s.claim i := by
    obtain ⟨-, tx | rx⟩ := move
    · simp [State.claim, Input.unheard, tx]
    · simp [State.claim, Input.unheard, rx]
  constructor
  · unfold Differ State.next
    rw [claim]
    rfl
  · intro stale
    have txTakes : s.txTakes i = false := by simp [State.txTakes, stale]
    have rxTakes : s.rxTakes i = false := by simp [State.rxTakes, stale]
    have txUnheard : s.txTakes i.unheard = false := by simp [State.txTakes, Input.unheard]
    have rxUnheard : s.rxTakes i.unheard = false := by simp [State.rxTakes, Input.unheard]
    unfold State.next
    rw [claim, txTakes, rxTakes, txUnheard, rxUnheard]
    rfl

/-- A device with another move landed in it, and what a held write of 244 made of that. -/
def Device.moved (d : Device) (txCons rxTarget txProd : BitVec 16) (fault : Bool) : Device :=
  { d with txCons := txCons, rxTarget := rxTarget, txProd := txProd, fault := fault }

theorem heldWrite_moved (d : Device) (i : Input) (txCons rxTarget txProd : BitVec 16)
    (fault : Bool) : ∃ txCons' rxTarget' txProd' fault',
      (d.moved txCons rxTarget txProd fault).heldWrite i =
        (d.heldWrite i).moved txCons' rxTarget' txProd' fault' := by
  have tx (data : BitVec 16) : ∃ txCons' rxTarget' txProd' fault',
      (d.moved txCons rxTarget txProd fault).heldTx data =
        (d.heldTx data).moved txCons' rxTarget' txProd' fault' := by
    unfold Device.heldTx
    split_ifs <;> exact ⟨_, _, _, _, rfl⟩
  have rx (data : BitVec 16) : ∃ txCons' rxTarget' txProd' fault',
      (d.moved txCons rxTarget txProd fault).heldRx data =
        (d.heldRx data).moved txCons' rxTarget' txProd' fault' := by
    unfold Device.heldRx
    split_ifs with past beyond beyond
    · exact ⟨_, _, _, _, rfl⟩
    · exact absurd past beyond
    · exact absurd beyond past
    · exact ⟨_, _, _, _, rfl⟩
  unfold Device.heldWrite
  change ∃ _ _ _ _, (if (i.held && d.on) = true then _ else _) = _
  by_cases held : (i.held && d.on) = true
  · rw [if_pos held, if_pos held]
    cases i.heldRx with
    | true => exact rx i.heldData
    | false => exact tx i.heldData
  · rw [if_neg held, if_neg held]
    exact ⟨_, _, _, _, rfl⟩

theorem disabled_moved {txCons rxTarget txProd : BitVec 16} {fault : Bool} (on : d.on = true)
    (off : ((d.registerWrite mainWords i).resetDevices i).on = false) :
    ((d.moved txCons rxTarget txProd fault).registerWrite mainWords i).resetDevices i =
      (d.registerWrite mainWords i).resetDevices i := by
  have still : (d.moved txCons rxTarget txProd fault).on = true := on
  cases wr : i.wr with
  | false =>
    have same (e : Device) : e.registerWrite mainWords i = e := by simp [Device.registerWrite, wr]
    rw [same] at off ⊢
    rw [same]
    unfold Device.resetDevices at off ⊢
    split_ifs at off ⊢
    · rfl
    · exact absurd off (by simp [on])
  | true =>
    by_cases control : i.wrK = 0#4
    · have same (e : Device) : e.on = true → e.registerWrite mainWords i =
          if i.wdata.getLsbD 0 then { e with refused := false, fault := false, ie := i.wdata.getLsbD 8 }
          else { e with refused := false, fault := false }.disable := by
        intro enabled
        cases bit : i.wdata.getLsbD 0 <;>
          simp [Device.registerWrite, Device.control, Device.rings, Device.disable, wr, control, bit,
            enabled, -BitVec.getLsbD_eq_getElem]
      rw [same _ on] at off ⊢
      rw [same _ still]
      unfold Device.resetDevices at off ⊢
      split_ifs at off ⊢
      · rfl
      · rfl
      · exact absurd off (by simp [on])
      · rfl
    · have same (e : Device) : e.on = true → e.registerWrite mainWords i =
          if i.wrK = 10#4 then e.taken (i.wdata.extractLsb' 0 16) else e := by
        intro enabled
        simp [Device.registerWrite, wr, control, enabled]
      have kept (e : Device) (data : BitVec 16) : (e.taken data).on = e.on := by
        unfold Device.taken
        split_ifs <;> rfl
      rw [same _ on] at off ⊢
      rw [same _ still]
      unfold Device.resetDevices at off ⊢
      split_ifs at off ⊢
      · unfold Device.taken
        split_ifs <;> rfl
      · rfl
      · exact absurd off (by simp [kept, on])
      · exact absurd off (by simp [on])

theorem Differ.device (differ : Differ s t) (off : (s.device mainWords i).on = false) :
    t.device mainWords i = s.device mainWords i := by
  have landed : t.landed i = (s.landed i).moved (t.landed i).txCons (t.landed i).rxTarget
      (s.landed i).txProd (s.landed i).fault := by
    unfold State.landed State.eMove
    rw [differ.dev, differ.es]
    rfl
  cases on : s.dev.on with
  | false =>
    have same : t.landed i = s.landed i := by
      simp [State.landed, State.txLand, State.rxLand, State.eMove, differ.dev, differ.es, on]
    unfold State.device
    rw [same]
  | true =>
    obtain ⟨txCons, rxTarget, txProd, fault, held⟩ := heldWrite_moved (s.landed i) i
      (t.landed i).txCons (t.landed i).rxTarget (s.landed i).txProd (s.landed i).fault
    have enabled : ((s.landed i).heldWrite i).on = true := by
      have before : (s.landed i).on = true := on
      unfold Device.heldWrite Device.heldTx Device.heldRx
      split_ifs <;> exact before
    unfold State.device at off ⊢
    rw [landed, held]
    exact disabled_moved enabled off

theorem Differ.disabled (differ : Differ s t) (off : (s.next mainWords i).dev.on = false) :
    Alike (s.next mainWords i) (t.next mainWords i) := by
  refine ⟨differ.next fun rst => differ.device ?_, fun on => absurd on (by simp [off]),
    fun on => absurd on (by simp [off])⟩
  simp only [State.next, rst] at off
  exact off

/-- The device's state at every clock of a run. -/
def run (mainWords : Nat) (start : State) (inputs : Nat → Input) : Nat → State :=
  trace (fun i s => s.next mainWords i) start inputs

variable {start : State} {inputs others : Nat → Input} {clock : Nat}

theorem run_succ (clock : Nat) : run mainWords start inputs (clock + 1) =
    (run mainWords start inputs clock).next mainWords (inputs clock) := rfl

/-- The inputs with the host's write of one clock taken out. -/
def without (inputs : Nat → Input) (clock : Nat) : Nat → Input := fun later =>
  if later = clock then (inputs later).unheard else inputs later

theorem alike_from (now : Alike (run mainWords start inputs clock) (run mainWords start others clock))
    (same : ∀ later, clock ≤ later → others later = inputs later) (later : Nat)
    (after : clock ≤ later) :
    Alike (run mainWords start inputs later) (run mainWords start others later) := by
  apply always_of_step now _ later after
  intro k upTo alike
  rw [run_succ, run_succ, same k upTo]
  exact alike.next (inputs k)

theorem run_without {later : Nat} (before : later ≤ clock) :
    run mainWords start (without inputs clock) later = run mainWords start inputs later := by
  induction later with
  | zero => rfl
  | succ later ih =>
    have other : without inputs clock later = inputs later := by
      unfold without
      exact if_neg (by omega)
    rw [run_succ, run_succ, ih (by omega), other]

/-- A stale move, as the clocks around it have it: it carries another epoch, or the device is disabled
in its clock, by that clock, or by the clock it would land in. -/
def Stale (mainWords : Nat) (start : State) (inputs : Nat → Input) (clock : Nat) : Prop :=
  (inputs clock).hostWdata.extractLsb' 16 16 ≠ (run mainWords start inputs clock).epoch ∨
    (run mainWords start inputs clock).dev.on = false ∨
    (run mainWords start inputs (clock + 1)).dev.on = false ∨
    (run mainWords start inputs (clock + 2)).dev.on = false

/-- A stale move changes nothing that is heard. -/
theorem stale_move_unheard (move : (inputs clock).moves)
    (stale : Stale mainWords start inputs clock) (later : Nat) :
    (run mainWords start (without inputs clock) later).dev =
      (run mainWords start inputs later).dev := by
  have here : without inputs clock clock = (inputs clock).unheard := if_pos rfl
  have rest : ∀ k, clock + 1 ≤ k → without inputs clock k = inputs k := fun k after =>
    if_neg (by omega)
  obtain ⟨differ, unheard⟩ := next_unheard mainWords (run mainWords start inputs clock) move
  have next : run mainWords start (without inputs clock) (clock + 1) =
      (run mainWords start inputs clock).next mainWords (inputs clock).unheard := by
    rw [run_succ, run_without (Nat.le_refl clock), here]
  rw [← next, ← run_succ] at differ unheard
  by_cases before : later ≤ clock
  · rw [run_without before]
  by_cases inEpoch : (run mainWords start inputs clock).inEpoch (inputs clock) = false
  · -- The move is not taken: the clock after it is the same.
    have alike : Alike (run mainWords start inputs (clock + 1))
        (run mainWords start (without inputs clock) (clock + 1)) := by
      rw [unheard inEpoch]
      exact Alike.refl _
    exact (alike_from alike rest later (by omega)).same.dev
  have taken : (run mainWords start inputs clock).dev.on = true ∧
      (inputs clock).hostWdata.extractLsb' 16 16 = (run mainWords start inputs clock).epoch := by
    simpa [State.inEpoch] using inEpoch
  have off : (run mainWords start inputs (clock + 1)).dev.on = false ∨
      (run mainWords start inputs (clock + 2)).dev.on = false := by
    rcases stale with other | off | off | off
    · exact absurd taken.2 other
    · exact absurd taken.1 (by simp [off])
    · exact Or.inl off
    · exact Or.inr off
  rcases off with off | off
  · have alike : Alike (run mainWords start inputs (clock + 1))
        (run mainWords start (without inputs clock) (clock + 1)) :=
      ⟨differ, fun on => absurd on (by simp [off]), fun on => absurd on (by simp [off])⟩
    exact (alike_from alike rest later (by omega)).same.dev
  · -- The move is to land in the clock that disables the device.
    have alike : Alike (run mainWords start inputs (clock + 2))
        (run mainWords start (without inputs clock) (clock + 2)) := by
      rw [run_succ (clock + 1), run_succ (clock + 1), rest (clock + 1) (Nat.le_refl _)]
      exact differ.disabled off
    by_cases next : later = clock + 1
    · rw [next]
      exact differ.dev
    · exact (alike_from alike (fun k after => rest k (by omega)) later (by omega)).same.dev

/-- The disables before a clock. -/
def disables (mainWords : Nat) (start : State) (inputs : Nat → Input) (clock : Nat) : Nat :=
  Nat.count (fun k => (run mainWords start inputs k).dev.on = true ∧
    (run mainWords start inputs (k + 1)).dev.on = false) clock

/-- The epoch counts the disables, and wraps. -/
theorem epoch_eq (clock : Nat) : (run mainWords start inputs clock).epoch =
    start.epoch + BitVec.ofNat 16 (disables mainWords start inputs clock) := by
  induction clock with
  | zero =>
    unfold disables
    rw [Nat.count_zero]
    simp [run, trace]
  | succ clock ih =>
    unfold disables
    rw [Nat.count_succ]
    change _ = start.epoch + BitVec.ofNat 16 (disables mainWords start inputs clock + _)
    rw [BitVec.ofNat_add, ← BitVec.add_assoc, ← ih, run_succ]
    generalize run mainWords start inputs clock = s
    generalize inputs clock = i
    cases rst : i.rst <;> cases on : s.dev.on <;>
      simp [State.next, rst, on, State.resetDevice]
    cases (State.device mainWords s i).on <;> simp

theorem disables_lt {first between last : Nat} (order : first ≤ between) (upTo : between ≤ last)
    (on : (run mainWords start inputs first).dev.on = true)
    (off : (run mainWords start inputs between).dev.on = false) :
    disables mainWords start inputs first < disables mainWords start inputs last := by
  have falls : ∃ k, first ≤ k ∧ k < between ∧ (run mainWords start inputs k).dev.on = true ∧
      (run mainWords start inputs (k + 1)).dev.on = false := by
    by_contra never
    have still : ∀ k, first ≤ k → k ≤ between → (run mainWords start inputs k).dev.on = true := by
      intro k after
      induction k, after using Nat.le_induction with
      | base => exact fun _ => on
      | succ k after ih =>
        intro before
        by_contra fallen
        exact never ⟨k, after, before, ih (by omega), by simpa using fallen⟩
    exact absurd (still between order (Nat.le_refl between)) (by simp [off])
  obtain ⟨k, after, before, enabled, fallen⟩ := falls
  unfold disables
  calc Nat.count _ first ≤ Nat.count _ k := Nat.count_monotone _ after
    _ < Nat.count _ (k + 1) := by
      rw [Nat.count_succ, if_pos ⟨enabled, fallen⟩]
      exact Nat.lt_succ_self _
    _ ≤ Nat.count _ last := Nat.count_monotone _ (by omega)

/-- A host's move that carries another epoch than the device's, or that the device is disabled under
before it lands, leaves the registers at every clock as they are in the run without it; and the epoch
is another in every two enabled stretches that are fewer than 2^16 disables apart. -/
theorem stale_move_never_lands (mainWords : Nat) (start : State) (inputs : Nat → Input) :
    (∀ clock, (inputs clock).moves → Stale mainWords start inputs clock → ∀ later,
      (run mainWords start (without inputs clock) later).dev =
        (run mainWords start inputs later).dev) ∧
    ∀ first between last, first ≤ between → between ≤ last →
      (run mainWords start inputs first).dev.on = true →
      (run mainWords start inputs between).dev.on = false →
      (run mainWords start inputs last).dev.on = true →
      disables mainWords start inputs last < disables mainWords start inputs first + 2 ^ 16 →
      (run mainWords start inputs first).epoch ≠ (run mainWords start inputs last).epoch := by
  refine ⟨fun clock move stale later => stale_move_unheard move stale later, ?_⟩
  intro first between last order upTo on off _ few same
  have more := disables_lt order upTo on off
  rw [epoch_eq, epoch_eq] at same
  have counts := congrArg BitVec.toNat (add_left_cancel same)
  rw [BitVec.toNat_ofNat, BitVec.toNat_ofNat] at counts
  omega

end MuirFpga.Quux.Ethernet
