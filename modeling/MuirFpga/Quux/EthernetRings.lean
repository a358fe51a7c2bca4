import MuirFpga.Quux.Ethernet
import MuirFpga.Sync.Trace
import MuirFpga.Sync.Wrap

/-!
# The rings' indexes stay ordered

The machine moves the producers and 252, the host the consumers, and the engine 251. Each move is
checked against where the others stood, a clock before it lands for the host's; the checks
compare distances modulo 2^16, and all of them stand within a ring.
-/

namespace MuirFpga.Quux.Ethernet

open Sync

/-- The indexes of an enabled device: each ring's in order, and no more than its entries apart. -/
structure Ordered (d : Device) : Prop where
  txSize : d.txLog2.toNat ≤ 8
  rxSize : d.rxLog2.toNat ≤ 8
  tx : (d.txProd - d.txCons).toNat ≤ 2 ^ d.txLog2.toNat
  cons : (d.rxCons - d.rxTaken).toNat ≤ (d.rxTarget - d.rxTaken).toNat
  target : (d.rxTarget - d.rxTaken).toNat ≤ (d.rxProd - d.rxTaken).toNat
  prod : (d.rxProd - d.rxTaken).toNat ≤ 2 ^ d.rxLog2.toNat

/-- The indexes of a disabled one. -/
structure Zeroed (d : Device) : Prop where
  txProd : d.txProd = 0#16
  txCons : d.txCons = 0#16
  rxProd : d.rxProd = 0#16
  rxCons : d.rxCons = 0#16
  rxTaken : d.rxTaken = 0#16
  rxTarget : d.rxTarget = 0#16

/-- Both. -/
def Indexed (d : Device) : Prop := if d.on = true then Ordered d else Zeroed d

/-- The rest of a clock moves the producers and 252 alone, and those forward. -/
structure Forward (d d' : Device) : Prop where
  txCons : d'.txCons = d.txCons
  rxCons : d'.rxCons = d.rxCons
  rxTarget : d'.rxTarget = d.rxTarget
  txProd : (d.txProd - d.txCons).toNat ≤ (d'.txProd - d.txCons).toNat
  rxProd : (d.rxProd - d.rxTarget).toNat ≤ (d'.rxProd - d.rxTarget).toNat

theorem Forward.refl (d : Device) : Forward d d := ⟨rfl, rfl, rfl, le_rfl, le_rfl⟩

theorem Forward.trans {d d' d'' : Device} (first : Forward d d') (second : Forward d' d'') :
    Forward d d'' := by
  obtain ⟨txCons, rxCons, rxTarget, txProd, rxProd⟩ := second
  rw [first.txCons] at txCons txProd
  rw [first.rxCons] at rxCons
  rw [first.rxTarget] at rxTarget rxProd
  exact ⟨txCons, rxCons, rxTarget, le_trans first.txProd txProd, le_trans first.rxProd rxProd⟩

theorem Ordered.ahead {d : Device} (ordered : Ordered d) :
    (d.rxProd - d.rxTarget).toNat =
      (d.rxProd - d.rxTaken).toNat - (d.rxTarget - d.rxTaken).toNat :=
  toNat_sub_of_moved ordered.target

theorem heldTx_orders {d : Device} (ordered : Ordered d) (data : BitVec 16) :
    Ordered (d.heldTx data) ∧ Forward d (d.heldTx data) := by
  unfold Device.heldTx
  split
  · exact ⟨⟨ordered.txSize, ordered.rxSize, ordered.tx, ordered.cons, ordered.target,
      ordered.prod⟩, ⟨rfl, rfl, rfl, le_rfl, le_rfl⟩⟩
  · rename_i checked
    push Not at checked
    obtain ⟨within, forward⟩ := checked
    have most : (data - d.txCons).toNat ≤ (1#16 <<< d.txLog2).toNat :=
      not_lt.1 within
    have least : (d.txProd - d.txCons).toNat ≤ (data - d.txCons).toNat := not_lt.1 forward
    rw [size_toNat (by have := ordered.txSize; omega)] at most
    exact ⟨⟨ordered.txSize, ordered.rxSize, most, ordered.cons, ordered.target, ordered.prod⟩,
      ⟨rfl, rfl, rfl, least, le_rfl⟩⟩

theorem heldRx_orders {d : Device} (ordered : Ordered d) (data : BitVec 16) :
    Ordered (d.heldRx data) ∧ Forward d (d.heldRx data) := by
  unfold Device.heldRx
  split
  · exact ⟨⟨ordered.txSize, ordered.rxSize, ordered.tx, ordered.cons, ordered.target,
      ordered.prod⟩, ⟨rfl, rfl, rfl, le_rfl, le_rfl⟩⟩
  · rename_i checked
    push Not at checked
    obtain ⟨within, forward⟩ := checked
    have most : (data - d.rxTaken).toNat ≤ (1#16 <<< d.rxLog2).toNat :=
      not_lt.1 within
    have least : (d.rxProd - d.rxTaken).toNat ≤ (data - d.rxTaken).toNat := not_lt.1 forward
    rw [size_toNat (by have := ordered.rxSize; omega)] at most
    have target : (d.rxTarget - d.rxTaken).toNat ≤ (data - d.rxTaken).toNat :=
      le_trans ordered.target least
    have moved : (data - d.rxTarget).toNat =
        (data - d.rxTaken).toNat - (d.rxTarget - d.rxTaken).toNat := toNat_sub_of_moved target
    refine ⟨⟨ordered.txSize, ordered.rxSize, ordered.tx, ordered.cons, target, most⟩,
      ⟨rfl, rfl, rfl, le_rfl, ?_⟩⟩
    rw [ordered.ahead, moved]
    omega

theorem heldWrite_indexes {d : Device} (indexed : Indexed d) (i : Input) :
    Indexed (d.heldWrite i) ∧ Forward d (d.heldWrite i) := by
  unfold Device.heldWrite
  by_cases landing : (i.held && d.on) = true
  · have on : d.on = true := (Bool.and_eq_true _ _ ▸ landing).2
    have ordered : Ordered d := by
      unfold Indexed at indexed
      rwa [if_pos on] at indexed
    rw [if_pos landing]
    split
    · have kept := heldRx_orders ordered i.heldData
      have onThen : (d.heldRx i.heldData).on = true := by
        unfold Device.heldRx
        split <;> exact on
      unfold Indexed
      rw [if_pos onThen]
      exact kept
    · have kept := heldTx_orders ordered i.heldData
      have onThen : (d.heldTx i.heldData).on = true := by
        unfold Device.heldTx
        split <;> exact on
      unfold Indexed
      rw [if_pos onThen]
      exact kept
  · rw [if_neg landing]
    exact ⟨indexed, Forward.refl d⟩

theorem disable_indexed (d : Device) : Indexed d.disable := ⟨rfl, rfl, rfl, rfl, rfl, rfl⟩

theorem size_of_fits {mainWords : Nat} {base : BitVec 28} {log2 : BitVec 4}
    (fit : fits mainWords base log2 = true) : log2.toNat ≤ 8 := by
  unfold fits at fit
  simp only [Bool.and_eq_true, decide_eq_true_eq] at fit
  exact fit.1.2

theorem control_indexes {d : Device} (indexed : Indexed d) (mainWords : Nat) (i : Input) :
    Indexed (d.control mainWords i) ∧
      ((d.control mainWords i).on = true → Forward d (d.control mainWords i)) := by
  unfold Device.control
  cases on : d.on with
  | false =>
    have zeroed : Zeroed d := by
      unfold Indexed at indexed
      rwa [if_neg (by simp [on])] at indexed
    obtain ⟨txProd, txCons, rxProd, rxCons, rxTaken, rxTarget⟩ := zeroed
    simp only [Bool.not_false, Bool.true_and, Bool.false_and, Bool.false_eq_true, if_false]
    split
    · split
      · rename_i fit
        obtain ⟨txFits, rxFits⟩ := (Bool.and_eq_true _ _ ▸ fit)
        refine ⟨⟨size_of_fits txFits, size_of_fits rxFits, ?_, ?_, ?_, ?_⟩,
          fun _ => ⟨rfl, rfl, rfl, le_rfl, le_rfl⟩⟩
        · simp [txProd, txCons]
        · simp [rxCons, rxTaken, rxTarget]
        · simp [rxTarget, rxTaken, rxProd]
        · simp [rxProd, rxTaken]
      · exact ⟨⟨txProd, txCons, rxProd, rxCons, rxTaken, rxTarget⟩,
          fun up => absurd up (by simp)⟩
    · refine ⟨?_, fun up => absurd up (by simp)⟩
      exact ⟨txProd, txCons, rxProd, rxCons, rxTaken, rxTarget⟩
  | true =>
    have ordered : Ordered d := by
      unfold Indexed at indexed
      rwa [if_pos on] at indexed
    obtain ⟨txSize, rxSize, tx, cons, target, prod⟩ := ordered
    simp only [Bool.not_true, Bool.false_and, Bool.false_eq_true, if_false, Bool.true_and, if_true]
    split
    · exact ⟨disable_indexed _, fun up => absurd up (by simp [Device.disable])⟩
    · exact ⟨⟨txSize, rxSize, tx, cons, target, prod⟩, fun _ => ⟨rfl, rfl, rfl, le_rfl, le_rfl⟩⟩

theorem taken_orders {d : Device} (ordered : Ordered d) (data : BitVec 16) :
    Ordered (d.taken data) ∧ Forward d (d.taken data) := by
  obtain ⟨txSize, rxSize, tx, cons, target, prod⟩ := ordered
  unfold Device.taken
  split
  · exact ⟨⟨txSize, rxSize, tx, cons, target, prod⟩, ⟨rfl, rfl, rfl, le_rfl, le_rfl⟩⟩
  · rename_i checked
    have byCons : (data - d.rxTaken).toNat ≤ (d.rxCons - d.rxTaken).toNat := not_lt.1 checked
    have byTarget : (data - d.rxTaken).toNat ≤ (d.rxTarget - d.rxTaken).toNat :=
      le_trans byCons cons
    have byProd : (data - d.rxTaken).toNat ≤ (d.rxProd - d.rxTaken).toNat :=
      le_trans byTarget target
    have consThen : (d.rxCons - data).toNat = _ := toNat_sub_of_moved byCons
    have targetThen : (d.rxTarget - data).toNat = _ := toNat_sub_of_moved byTarget
    have prodThen : (d.rxProd - data).toNat = _ := toNat_sub_of_moved byProd
    refine ⟨⟨txSize, rxSize, tx, ?_, ?_, ?_⟩, ⟨rfl, rfl, rfl, le_rfl, le_rfl⟩⟩
    · rw [consThen, targetThen]
      omega
    · rw [targetThen, prodThen]
      omega
    · rw [prodThen]
      exact le_trans (Nat.sub_le ..) prod

theorem registerWrite_indexes {d : Device} (indexed : Indexed d) (mainWords : Nat) (i : Input) :
    Indexed (d.registerWrite mainWords i) ∧
      ((d.registerWrite mainWords i).on = true → Forward d (d.registerWrite mainWords i)) := by
  unfold Device.registerWrite
  have first : Indexed (if i.wr && i.wrK == 0#4 then d.control mainWords i else d) ∧
      ((if i.wr && i.wrK == 0#4 then d.control mainWords i else d).on = true →
        Forward d (if i.wr && i.wrK == 0#4 then d.control mainWords i else d)) := by
    split
    · exact control_indexes indexed mainWords i
    · exact ⟨indexed, fun _ => Forward.refl d⟩
  dsimp only
  generalize (if i.wr && i.wrK == 0#4 then d.control mainWords i else d) = d' at first ⊢
  obtain ⟨indexed', forward⟩ := first
  cases on : d'.on with
  | false =>
    -- The rings of a disabled device move no index.
    have zeroed : Zeroed d' := by
      unfold Indexed at indexed'
      rwa [if_neg (by simp [on])] at indexed'
    obtain ⟨txProd, txCons, rxProd, rxCons, rxTaken, rxTarget⟩ := zeroed
    have off : (if i.wr = true then d'.rings i else d').on = false := by
      split <;> exact on
    have zeros : Zeroed (if i.wr = true then d'.rings i else d') := by
      split <;> exact ⟨txProd, txCons, rxProd, rxCons, rxTaken, rxTarget⟩
    simp only [Bool.not_false, Bool.and_true]
    generalize (if i.wr = true then d'.rings i else d') = d'' at off zeros ⊢
    rw [if_neg (by simp [off])]
    refine ⟨?_, fun up => absurd (off.symm.trans up) (by simp)⟩
    unfold Indexed
    rw [if_neg (by simp [off])]
    exact zeros
  | true =>
    have ordered : Ordered d' := by
      unfold Indexed at indexed'
      rwa [if_pos on] at indexed'
    simp only [Bool.not_true, Bool.and_false, Bool.false_eq_true, if_false, on, Bool.and_true]
    split
    · have kept := taken_orders ordered (i.wdata.extractLsb' 0 16)
      have onThen : (d'.taken (i.wdata.extractLsb' 0 16)).on = true := by
        unfold Device.taken
        split <;> exact on
      unfold Indexed
      rw [if_pos onThen]
      exact ⟨kept.1, fun _ => (forward on).trans kept.2⟩
    · exact ⟨indexed', fun _ => forward on⟩

theorem resetDevices_indexes {d : Device} (indexed : Indexed d) (i : Input) :
    Indexed (d.resetDevices i) ∧
      ((d.resetDevices i).on = true → Forward d (d.resetDevices i)) := by
  unfold Device.resetDevices
  split
  · exact ⟨⟨rfl, rfl, rfl, rfl, rfl, rfl⟩, fun up => absurd up (by simp [Device.disable])⟩
  · exact ⟨indexed, fun _ => Forward.refl d⟩

theorem on_of_resetDevices {d : Device} {i : Input} (on : (d.resetDevices i).on = true) :
    d.on = true := by
  unfold Device.resetDevices at on
  split at on
  · exact absurd on (by simp [Device.disable])
  · exact on

/-- What a state rests on beside its indexes: a move that waits to land goes forward, no further
than its producer; and the engine at work has an entry to move 251 by. -/
structure Inv (s : State) : Prop where
  indexed : Indexed s.dev
  tx : s.dev.on = true → s.txPub = true →
    (s.txPubTo - s.dev.txCons).toNat ≤ (s.dev.txProd - s.dev.txCons).toNat
  rx : s.dev.on = true → s.rxPub = true →
    (s.rxPubTo - s.dev.rxTarget).toNat ≤ (s.dev.rxProd - s.dev.rxTarget).toNat
  engine : s.dev.on = true → s.es ≠ .idle → s.dev.rxCons ≠ s.dev.rxTarget
  off : s.dev.on = false → s.es = .idle

theorem engine_owes {s : State} (inv : Inv s) {i : Input} (move : s.eMove i = true) :
    s.dev.rxCons ≠ s.dev.rxTarget := by
  simp only [State.eMove, Bool.and_eq_true, beq_iff_eq] at move
  exact inv.engine move.2 (by rw [move.1.1]; exact EState.noConfusion)

/-- The landing and the engine's step keep the order, and leave 251 short of the target where it
was and the engine has not moved it. -/
theorem landed_indexes {s : State} (inv : Inv s) (i : Input) :
    Indexed (s.landed i) ∧ (s.dev.on = true → s.eMove i = false →
      s.dev.rxCons ≠ s.dev.rxTarget → (s.landed i).rxCons ≠ (s.landed i).rxTarget) := by
  have indexed := inv.indexed
  cases on : s.dev.on with
  | false =>
    unfold Indexed at indexed ⊢
    rw [if_neg (by simp [on])] at indexed
    rw [if_neg (by simp [State.landed, on])]
    obtain ⟨txProd, txCons, rxProd, rxCons, rxTaken, rxTarget⟩ := indexed
    refine ⟨⟨txProd, ?_, rxProd, ?_, rxTaken, ?_⟩, fun up => absurd up (by simp)⟩
    · simpa [State.landed, State.txLand, on] using txCons
    · simpa [State.landed, State.eMove, on] using rxCons
    · simpa [State.landed, State.rxLand, on] using rxTarget
  | true =>
    unfold Indexed at indexed ⊢
    rw [if_pos on] at indexed
    rw [if_pos (by simp [State.landed, on])]
    obtain ⟨txSize, rxSize, tx, cons, target, prod⟩ := indexed
    -- 245 moved by the host.
    have txThen : (s.dev.txProd - (s.landed i).txCons).toNat ≤
        (s.dev.txProd - s.dev.txCons).toNat := by
      simp only [State.landed, State.txLand, on, Bool.and_true]
      split
      · rw [toNat_sub_of_moved (inv.tx on ‹_›)]
        exact Nat.sub_le ..
      · exact le_rfl
    -- The target moved by the host, no further than the producer.
    have targetThen : (s.dev.rxTarget - s.dev.rxTaken).toNat ≤
        ((s.landed i).rxTarget - s.dev.rxTaken).toNat ∧
        ((s.landed i).rxTarget - s.dev.rxTaken).toNat ≤ (s.dev.rxProd - s.dev.rxTaken).toNat := by
      simp only [State.landed, State.rxLand, on, Bool.and_true]
      split
      · have within := inv.rx on ‹_›
        have joined : (s.rxPubTo - s.dev.rxTaken).toNat = _ := toNat_sub_of_joined target within
        have ahead : (s.dev.rxProd - s.dev.rxTarget).toNat = _ := toNat_sub_of_moved target
        constructor
        · rw [joined]
          exact Nat.le_add_left ..
        · rw [joined]
          omega
      · exact ⟨le_rfl, target⟩
    -- 251 moved by the engine, which had an entry to move it by.
    have short : s.dev.rxCons ≠ s.dev.rxTarget →
        (s.dev.rxCons - s.dev.rxTaken).toNat < (s.dev.rxTarget - s.dev.rxTaken).toNat :=
      fun ne => lt_of_le_of_ne cons fun same => ne (eq_of_toNat_sub same)
    have consThen : ((s.landed i).rxCons - s.dev.rxTaken).toNat ≤
        (s.dev.rxTarget - s.dev.rxTaken).toNat := by
      simp only [State.landed]
      split
      · have before := short (engine_owes inv ‹_›)
        rw [toNat_sub_of_succ before]
        exact before
      · exact cons
    refine ⟨⟨txSize, rxSize, le_trans txThen tx, le_trans consThen targetThen.1, targetThen.2,
      prod⟩, fun _ still ne same => ?_⟩
    have stays : (s.landed i).rxCons = s.dev.rxCons := by simp [State.landed, still]
    have before := short ne
    rw [stays] at same
    rw [← same] at targetThen
    omega

theorem device_indexes {s : State} (inv : Inv s) (mainWords : Nat) (i : Input) :
    Indexed (s.device mainWords i) ∧
      ((s.device mainWords i).on = true → Forward (s.landed i) (s.device mainWords i)) := by
  obtain ⟨landed, -⟩ := landed_indexes inv i
  obtain ⟨held, heldForward⟩ := heldWrite_indexes landed i
  obtain ⟨written, writtenForward⟩ := registerWrite_indexes held mainWords i
  obtain ⟨done, doneForward⟩ := resetDevices_indexes written i
  refine ⟨done, fun on => ?_⟩
  exact heldForward.trans ((writtenForward (on_of_resetDevices on)).trans (doneForward on))

/-- The engine's next state: idle in a reset or a device disabled this clock, and at work only
where it was, or where 251 is short of the target. -/
theorem engine_es {mainWords : Nat} {s : State} {i : Input}
    (working : (s.engine mainWords i).es ≠ .idle) :
    i.rst = false ∧ (s.device mainWords i).on = true ∧ s.eMove i = false ∧
      (s.es ≠ .idle ∨ s.dev.rxCons ≠ s.dev.rxTarget) := by
  unfold State.engine at working
  split at working
  · exact absurd rfl working
  · rename_i going
    simp only [Bool.or_eq_true, Bool.not_eq_true', not_or, Bool.not_eq_true,
      Bool.not_eq_false] at going
    refine ⟨going.1, going.2, ?_⟩
    unfold State.eMove
    cases es : s.es <;> simp only [es] at working ⊢
    case idle =>
      split at working
      · exact ⟨by simp, .inr ‹_›⟩
      · exact absurd es working
    case entry =>
      split at working
      · exact absurd rfl working
      · rename_i waits
        exact ⟨by simp [waits], .inl (by simp)⟩
    all_goals exact ⟨by simp, .inl (by simp)⟩

/-- A clock keeps the rings. -/
theorem inv_next {s : State} (inv : Inv s) (mainWords : Nat) (i : Input) :
    Inv (s.next mainWords i) := by
  obtain ⟨landed, short⟩ := landed_indexes inv i
  obtain ⟨device, forward⟩ := device_indexes inv mainWords i
  cases rst : i.rst with
  | true =>
    have off : (s.next mainWords i).dev = State.resetDevice := by simp [State.next, rst]
    have idle : (s.next mainWords i).es = .idle := by simp [State.next, State.engine, rst]
    refine ⟨?_, ?_, ?_, ?_, fun _ => idle⟩
    · rw [off]
      exact ⟨rfl, rfl, rfl, rfl, rfl, rfl⟩
    all_goals
      rw [off]
      exact fun up => absurd up (by simp [State.resetDevice])
  | false =>
    have dev : (s.next mainWords i).dev = s.device mainWords i := by simp [State.next, rst]
    refine ⟨by rw [dev]; exact device, fun on pub => ?_, fun on pub => ?_, fun on working => ?_,
      fun off => ?_⟩
    · -- The host's index was no further than 244 as it stood, and 244 has not gone back.
      rw [dev] at on ⊢
      obtain ⟨txCons, -, -, txProd, -⟩ := forward on
      simp only [State.next, rst, Bool.not_false, Bool.true_and] at pub
      have pubTo : (s.next mainWords i).txPubTo = State.hIndex i := by simp [State.next, rst, pub]
      have chost : s.txChost = (s.landed i).txCons := rfl
      simp only [State.txTakes, Bool.and_eq_true, decide_eq_true_eq, chost] at pub
      rw [pubTo, txCons]
      exact le_trans pub.2 txProd
    · rw [dev] at on ⊢
      obtain ⟨-, -, rxTarget, -, rxProd⟩ := forward on
      simp only [State.next, rst, Bool.not_false, Bool.true_and] at pub
      have pubTo : (s.next mainWords i).rxPubTo = State.hIndex i := by simp [State.next, rst, pub]
      have chost : s.rxChost = (s.landed i).rxTarget := rfl
      simp only [State.rxTakes, Bool.and_eq_true, decide_eq_true_eq, chost] at pub
      rw [pubTo, rxTarget]
      exact le_trans pub.2 rxProd
    · rw [dev] at on ⊢
      obtain ⟨-, rxCons, rxTarget, -, -⟩ := forward on
      obtain ⟨-, -, still, busy⟩ := engine_es working
      rw [rxCons, rxTarget]
      cases was : s.dev.on with
      | true =>
        refine short was still (busy.elim (inv.engine was) id)
      | false =>
        -- A device enabled this clock has every index at 0 and its engine idle.
        have indexed := inv.indexed
        unfold Indexed at indexed
        rw [if_neg (by simp [was])] at indexed
        obtain working | moved := busy
        · exact absurd (inv.off was) working
        · exact absurd (indexed.rxCons.trans indexed.rxTarget.symm) moved
    · rw [dev] at off
      simp [State.next, State.engine, rst, off]

theorem inv_reset : Inv State.reset :=
  ⟨⟨rfl, rfl, rfl, rfl, rfl, rfl⟩, fun on => absurd on (by decide), fun on => absurd on (by decide),
    fun on => absurd on (by decide), fun _ => rfl⟩

/-- At every clock of every run: while the device is enabled its rings' indexes are in order
and within their rings, and while it is disabled all six are 0. -/
theorem ring_indexes_ordered (mainWords : Nat) (inputs : Nat → Input) (clock : Nat) :
    ((trace (fun i s => s.next mainWords i) State.reset inputs clock).dev.on = true →
      Ordered (trace (fun i s => s.next mainWords i) State.reset inputs clock).dev) ∧
    ((trace (fun i s => s.next mainWords i) State.reset inputs clock).dev.on = false →
      Zeroed (trace (fun i s => s.next mainWords i) State.reset inputs clock).dev) := by
  have meets : Meets (fun _ _ => True) (fun i s => s.next mainWords i) State.reset inputs :=
    fun _ => trivial
  have inv := trace_invariant inv_reset (fun i s _ held => inv_next held mainWords i) meets clock
  have indexed := inv.indexed
  unfold Indexed at indexed
  refine ⟨fun on => ?_, fun off => ?_⟩
  · rwa [if_pos on] at indexed
  · rwa [if_neg (by simp [off])] at indexed

end MuirFpga.Quux.Ethernet
