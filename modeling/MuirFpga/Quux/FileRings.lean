import MuirFpga.Quux.FileDevice
import MuirFpga.Sync.Trace
import MuirFpga.Sync.Wrap

/-!
# The file device's indexes stay ordered

The machine moves the command producer and the response consumer, the host the index between them, a
clock after its completion is accepted. Each move is checked against where the others stood, by
distances modulo 2^16 that all stand within a ring.
-/

namespace MuirFpga.Quux.FileDevice

open Sync

variable {mainWords : Nat} {d d' : Device} {s : State} {i : Input}

/-- The indexes of an enabled device, counted from the response consumer. -/
structure Ordered (d : Device) : Prop where
  csize : d.clog.toNat ≤ 8
  rsize : d.rlog.toNat ≤ 8
  cons : (d.ccons - d.rcons).toNat ≤ (d.cprod - d.rcons).toNat
  prod : (d.cprod - d.rcons).toNat ≤ (d.ccons - d.rcons).toNat + 2 ^ d.clog.toNat
  resp : (d.ccons - d.rcons).toNat ≤ 2 ^ d.rlog.toNat

/-- The indexes of a disabled one. -/
structure Zeroed (d : Device) : Prop where
  cprod : d.cprod = 0#16
  ccons : d.ccons = 0#16
  rcons : d.rcons = 0#16

/-- Both. -/
def Indexed (d : Device) : Prop := if d.on = true then Ordered d else Zeroed d

theorem indexed_on (on : d.on = true) : Indexed d ↔ Ordered d := by
  unfold Indexed
  rw [if_pos on]

theorem indexed_off (off : d.on = false) : Indexed d ↔ Zeroed d := by
  unfold Indexed
  rw [if_neg (by simp [off])]

/-- A completion to land is ahead of the index it moves, and the rings hold it. -/
structure Pending (d : Device) (index : BitVec 16) : Prop where
  cons : (d.ccons - d.rcons).toNat ≤ (index - d.rcons).toNat
  prod : (index - d.rcons).toNat ≤ (d.cprod - d.rcons).toNat
  resp : (index - d.rcons).toNat ≤ 2 ^ d.rlog.toNat

/-- The writes of a clock move the producer forward, and the response consumer no further than the
index between. -/
structure Forward (d d' : Device) : Prop where
  clog : d'.clog = d.clog
  rlog : d'.rlog = d.rlog
  ccons : d'.ccons = d.ccons
  cprod : (d.cprod - d.rcons).toNat ≤ (d'.cprod - d.rcons).toNat
  rcons : (d'.rcons - d.rcons).toNat ≤ (d.ccons - d.rcons).toNat

theorem Forward.refl (d : Device) : Forward d d :=
  ⟨rfl, rfl, rfl, Nat.le_refl _, by rw [BitVec.sub_self]; exact Nat.zero_le _⟩

theorem Pending.lands {index : BitVec 16} (ordered : Ordered d) (pending : Pending d index) :
    Ordered { d with ccons := index } := by
  have cons := pending.cons
  have prod := ordered.prod
  exact ⟨ordered.csize, ordered.rsize, pending.prod, by dsimp only; omega, pending.resp⟩

theorem produce_orders (ordered : Ordered d) (i : Input) :
    Ordered (d.produce i) ∧ Forward d (d.produce i) ∧ (d.produce i).on = d.on ∧
      (d.produce i).rcons = d.rcons := by
  unfold Device.produce
  dsimp only
  split_ifs with landing refused
  · exact ⟨⟨ordered.csize, ordered.rsize, ordered.cons, ordered.prod, ordered.resp⟩,
      ⟨rfl, rfl, rfl, Nat.le_refl _, by rw [BitVec.sub_self]; exact Nat.zero_le _⟩, rfl, rfl⟩
  · obtain ⟨within, forward⟩ := not_or.mp refused
    have most : (i.prodData.extractLsb' 0 16 - d.ccons).toNat ≤ (1#16 <<< d.clog).toNat :=
      Nat.not_lt.mp within
    have least : (d.cprod - d.ccons).toNat ≤ (i.prodData.extractLsb' 0 16 - d.ccons).toNat :=
      Nat.not_lt.mp forward
    have csize := ordered.csize
    have rsize := ordered.rsize
    have resp := ordered.resp
    have cpow : 2 ^ d.clog.toNat ≤ 2 ^ 8 := Nat.pow_le_pow_right (by decide) csize
    have rpow : 2 ^ d.rlog.toNat ≤ 2 ^ 8 := Nat.pow_le_pow_right (by decide) rsize
    rw [size_toNat (by omega)] at most
    have old : (d.cprod - d.ccons).toNat = (d.cprod - d.rcons).toNat - (d.ccons - d.rcons).toNat :=
      toNat_sub_of_moved ordered.cons
    have new : (i.prodData.extractLsb' 0 16 - d.rcons).toNat =
        (i.prodData.extractLsb' 0 16 - d.ccons).toNat + (d.ccons - d.rcons).toNat := by
      have split : i.prodData.extractLsb' 0 16 - d.rcons =
          (i.prodData.extractLsb' 0 16 - d.ccons) + (d.ccons - d.rcons) := by ring
      rw [split]
      exact BitVec.toNat_add_of_lt (by omega)
    have cons := ordered.cons
    refine ⟨⟨csize, rsize, ?_, ?_, resp⟩, ⟨rfl, rfl, rfl, ?_,
      by rw [BitVec.sub_self]; exact Nat.zero_le _⟩, rfl, rfl⟩ <;> dsimp only <;> omega
  · exact ⟨ordered, Forward.refl d, rfl, rfl⟩

theorem consume_orders (ordered : Ordered d) (i : Input) :
    Ordered (d.consume i) ∧ (d.consume i).on = d.on ∧ (d.consume i).cprod = d.cprod ∧
      (d.consume i).ccons = d.ccons ∧ (d.consume i).clog = d.clog ∧ (d.consume i).rlog = d.rlog ∧
      ((d.consume i).rcons - d.rcons).toNat ≤ (d.ccons - d.rcons).toNat := by
  unfold Device.consume
  dsimp only
  split_ifs with written refused
  · exact ⟨⟨ordered.csize, ordered.rsize, ordered.cons, ordered.prod, ordered.resp⟩, rfl, rfl, rfl,
      rfl, rfl, by rw [BitVec.sub_self]; exact Nat.zero_le _⟩
  · have within : (i.wrData.extractLsb' 0 16 - d.rcons).toNat ≤ (d.ccons - d.rcons).toNat :=
      Nat.not_lt.mp refused
    have cons := ordered.cons
    have prod := ordered.prod
    have resp := ordered.resp
    have newCons : (d.ccons - i.wrData.extractLsb' 0 16).toNat =
        (d.ccons - d.rcons).toNat - (i.wrData.extractLsb' 0 16 - d.rcons).toNat :=
      toNat_sub_of_moved within
    have newProd : (d.cprod - i.wrData.extractLsb' 0 16).toNat =
        (d.cprod - d.rcons).toNat - (i.wrData.extractLsb' 0 16 - d.rcons).toNat :=
      toNat_sub_of_moved (Nat.le_trans within cons)
    refine ⟨⟨ordered.csize, ordered.rsize, ?_, ?_, ?_⟩, rfl, rfl, rfl, rfl, rfl, within⟩ <;>
      dsimp only <;> omega
  · exact ⟨ordered, rfl, rfl, rfl, rfl, rfl, by rw [BitVec.sub_self]; exact Nat.zero_le _⟩

theorem size_of_fits {base : BitVec 28} {log2 : BitVec 4}
    (fit : Ethernet.fits mainWords base log2 = true) : log2.toNat ≤ 8 := by
  unfold Ethernet.fits at fit
  simp only [Bool.and_eq_true, decide_eq_true_eq] at fit
  exact fit.1.2

theorem zero_ordered (csize : d.clog.toNat ≤ 8) (rsize : d.rlog.toNat ≤ 8) (zeroed : Zeroed d) :
    Ordered d := by
  obtain ⟨cprod, ccons, rcons⟩ := zeroed
  refine ⟨csize, rsize, ?_, ?_, ?_⟩ <;> simp [cprod, ccons, rcons]

theorem control_indexed (mainWords : Nat) (i : Input) (indexed : Indexed d) :
    Indexed (d.control mainWords i) ∧ (d.on = true → (d.control mainWords i).on = true →
      (d.control mainWords i).cprod = d.cprod ∧ (d.control mainWords i).ccons = d.ccons ∧
      (d.control mainWords i).rcons = d.rcons ∧ (d.control mainWords i).clog = d.clog ∧
      (d.control mainWords i).rlog = d.rlog) := by
  cases on : d.on with
  | true =>
    obtain ⟨csize, rsize, cons, prod, resp⟩ := (indexed_on on).mp indexed
    unfold Device.control
    simp only [on, Bool.not_true, Bool.false_and, Bool.false_eq_true, if_false, Bool.true_and,
      if_true]
    split_ifs with written off
    · exact ⟨(indexed_off rfl).mpr ⟨rfl, rfl, rfl⟩, fun _ on => absurd on (by simp)⟩
    · exact ⟨(indexed_on rfl).mpr ⟨csize, rsize, cons, prod, resp⟩,
        fun _ _ => ⟨rfl, rfl, rfl, rfl, rfl⟩⟩
    · exact ⟨indexed, fun _ _ => ⟨rfl, rfl, rfl, rfl, rfl⟩⟩
  | false =>
    obtain ⟨cprod, ccons, rcons⟩ := (indexed_off on).mp indexed
    refine ⟨?_, fun enabled => absurd enabled (by simp)⟩
    unfold Device.control
    simp only [on, Bool.not_false, Bool.true_and, Bool.false_and, Bool.false_eq_true, if_false]
    split_ifs with written enable fit
    · simp only [Bool.and_eq_true] at fit
      exact (indexed_on rfl).mpr
        (zero_ordered (size_of_fits fit.1) (size_of_fits fit.2) ⟨rfl, rfl, rfl⟩)
    · exact (indexed_off rfl).mpr ⟨cprod, ccons, rcons⟩
    · exact (indexed_off rfl).mpr ⟨cprod, ccons, rcons⟩
    · exact indexed

theorem rings_indexed (i : Input) (indexed : Indexed d) :
    Indexed (d.rings i) ∧ (d.on = true → d.rings i = d) ∧ (d.rings i).on = d.on := by
  unfold Device.rings
  by_cases written : (i.wrV && !d.on) = true
  · rw [if_pos written]
    have off : d.on = false := by
      simp only [Bool.and_eq_true, Bool.not_eq_true'] at written
      exact written.2
    obtain ⟨cprod, ccons, rcons⟩ := (indexed_off off).mp indexed
    exact ⟨(indexed_off (by exact off)).mpr ⟨cprod, ccons, rcons⟩,
      fun on => absurd on (by simp [off]), rfl⟩
  · rw [if_neg written]
    exact ⟨indexed, fun _ => rfl, rfl⟩

theorem consume_indexed (i : Input) (indexed : Indexed d) :
    Indexed (d.consume i) ∧ (d.consume i).on = d.on ∧ (d.on = true →
      (d.consume i).cprod = d.cprod ∧ (d.consume i).ccons = d.ccons ∧
      (d.consume i).clog = d.clog ∧ (d.consume i).rlog = d.rlog ∧
      ((d.consume i).rcons - d.rcons).toNat ≤ (d.ccons - d.rcons).toNat) := by
  cases on : d.on with
  | true =>
    obtain ⟨kept, same, rest⟩ := consume_orders ((indexed_on on).mp indexed) i
    exact ⟨(indexed_on (same.trans on)).mpr kept, same.trans on, fun _ => rest⟩
  | false =>
    have same : d.consume i = d := by
      unfold Device.consume
      rw [if_neg (by simp [on])]
    rw [same]
    exact ⟨indexed, on, fun enabled => absurd enabled (by simp)⟩

theorem produce_indexed (i : Input) (indexed : Indexed d) :
    Indexed (d.produce i) ∧ (d.produce i).on = d.on ∧ (d.on = true →
      Forward d (d.produce i) ∧ (d.produce i).rcons = d.rcons) := by
  cases on : d.on with
  | true =>
    obtain ⟨kept, forward, same, rcons⟩ := produce_orders ((indexed_on on).mp indexed) i
    exact ⟨(indexed_on (same.trans on)).mpr kept, same.trans on, fun _ => ⟨forward, rcons⟩⟩
  | false =>
    have same : d.produce i = d := by
      unfold Device.produce
      rw [if_neg (by simp [on])]
    rw [same]
    exact ⟨indexed, on, fun enabled => absurd enabled (by simp)⟩

theorem device_indexed (mainWords : Nat) (i : Input) (indexed : Indexed s.landed) :
    Indexed (s.device mainWords i) ∧ (s.dev.on = true → (s.device mainWords i).on = true →
      Forward s.landed (s.device mainWords i)) := by
  obtain ⟨first, onFirst, moved⟩ := produce_indexed i indexed
  obtain ⟨second, flags⟩ := control_indexed mainWords i first
  obtain ⟨third, untouched, onThird⟩ := rings_indexed i second
  obtain ⟨fourth, onFourth, taken⟩ := consume_indexed i third
  unfold State.device Device.resetDevices
  cases reset : i.wrReset with
  | true => exact ⟨(indexed_off rfl).mpr ⟨rfl, rfl, rfl⟩, fun _ on => absurd on (by simp)⟩
  | false =>
    rw [if_neg (by simp)]
    refine ⟨fourth, fun was on => ?_⟩
    rw [onFourth, onThird] at on
    have wasFirst : (s.landed.produce i).on = true := onFirst.trans was
    obtain ⟨forward, rcons⟩ := moved was
    obtain ⟨cprod2, ccons2, rcons2, clog2, rlog2⟩ := flags wasFirst on
    obtain ⟨cprod4, ccons4, clog4, rlog4, within⟩ := taken (onThird.trans on)
    rw [untouched on] at cprod4 ccons4 clog4 rlog4 within ⊢
    refine ⟨?_, ?_, ?_, ?_, ?_⟩
    · rw [clog4, clog2, forward.clog]
    · rw [rlog4, rlog2, forward.rlog]
    · rw [ccons4, ccons2, forward.ccons]
    · rw [cprod4, cprod2]
      exact forward.cprod
    · rw [rcons2, ccons2, forward.ccons, rcons] at within
      exact within

/-- What holds at every clock: the indexes, and the completion to land. -/
structure Inv (s : State) : Prop where
  indexed : Indexed s.dev
  pending : s.dev.on = true → s.pub = true → Pending s.dev s.pubTo

theorem Inv.landed (inv : Inv s) : Indexed s.landed := by
  cases on : s.dev.on with
  | false =>
    have complete : s.complete = false := by simp [State.complete, on]
    unfold State.landed
    rw [complete]
    exact inv.indexed
  | true =>
    have ordered := (indexed_on on).mp inv.indexed
    have landedOn : s.landed.on = true := on
    apply (indexed_on landedOn).mpr
    cases pub : s.pub with
    | true =>
      have same : s.landed = { s.dev with ccons := s.pubTo } := by
        simp [State.landed, State.complete, on, pub]
      rw [same]
      exact (inv.pending on pub).lands ordered
    | false =>
      have same : s.landed = s.dev := by simp [State.landed, State.complete, pub]
      rw [same]
      exact ordered

theorem pending_of_ok {index : BitVec 16} (ordered : Ordered d)
    (forward : Forward d d') (step : index - d.ccons ≤ d.cprod - d.ccons)
    (room : index - d.rcons ≤ 1#16 <<< d.rlog) : Pending d' index := by
  have rsize := ordered.rsize
  have within : (index - d.ccons).toNat ≤ (d.cprod - d.ccons).toNat := step
  have resp : (index - d.rcons).toNat ≤ (1#16 <<< d.rlog).toNat := room
  rw [size_toNat (by omega)] at resp
  have joined : (index - d.rcons).toNat = (index - d.ccons).toNat + (d.ccons - d.rcons).toNat :=
    toNat_sub_of_joined ordered.cons step
  have left : (d.cprod - d.ccons).toNat = (d.cprod - d.rcons).toNat - (d.ccons - d.rcons).toNat :=
    toNat_sub_of_moved ordered.cons
  have cons := ordered.cons
  obtain ⟨-, rlog, ccons, cprod, rcons⟩ := forward
  -- Each distance from the response consumer falls by as much as it moved.
  have newIndex : (index - d'.rcons).toNat =
      (index - d.rcons).toNat - (d'.rcons - d.rcons).toNat :=
    toNat_sub_of_moved (show (d'.rcons - d.rcons).toNat ≤ (index - d.rcons).toNat by omega)
  have newCons : (d'.ccons - d'.rcons).toNat =
      (d.ccons - d.rcons).toNat - (d'.rcons - d.rcons).toNat := by
    rw [ccons]
    exact toNat_sub_of_moved rcons
  have newProd : (d'.cprod - d'.rcons).toNat =
      (d'.cprod - d.rcons).toNat - (d'.rcons - d.rcons).toNat :=
    toNat_sub_of_moved (show (d'.rcons - d.rcons).toNat ≤ (d'.cprod - d.rcons).toNat by omega)
  refine ⟨by omega, by omega, ?_⟩
  rw [rlog]
  omega

theorem Inv.next (inv : Inv s) (mainWords : Nat) (i : Input) : Inv (s.next mainWords i) := by
  obtain ⟨indexed, forward⟩ := device_indexed mainWords i inv.landed
  unfold State.next
  dsimp only
  cases rst : i.rst with
  | true =>
    rw [if_pos rfl]
    exact ⟨(indexed_off rfl).mpr ⟨rfl, rfl, rfl⟩, fun on => absurd on (by simp [State.resetDevice])⟩
  | false =>
    rw [if_neg (by simp)]
    refine ⟨indexed, fun on pub => ?_⟩
    dsimp only at on pub
    dsimp only
    rw [if_pos pub]
    simp only [State.ok, State.inEpoch, Bool.and_eq_true, decide_eq_true_eq] at pub
    obtain ⟨-, ⟨⟨⟨was, -⟩, -⟩, step⟩, room⟩ := pub
    have landedOn : s.landed.on = true := was
    exact pending_of_ok ((indexed_on landedOn).mp inv.landed) (forward was on) step room

/-- The part of a clock after the producer's write. -/
def Device.rest (mainWords : Nat) (d : Device) (i : Input) : Device :=
  (((d.control mainWords i).rings i).consume i).resetDevices i

theorem rest_faulted (on : d.on = true) :
    ({ d with fault := true } : Device).rest mainWords i =
      if (i.wrV && i.wrK == 0x70#8) || i.wrReset then d.rest mainWords i
      else { d.rest mainWords i with fault := true } := by
  by_cases written : (i.wrV && i.wrK == 0x70#8) = true
  · -- 160 clears the fault, whatever it does else.
    have same : ({ d with fault := true } : Device).control mainWords i = d.control mainWords i := by
      unfold Device.control
      rw [if_pos written, if_pos written]
    unfold Device.rest
    rw [same, written]
    rfl
  · have kept (e : Device) : e.control mainWords i = e := by
      unfold Device.control
      rw [if_neg written]
    have still (e : Device) (enabled : e.on = true) : e.rings i = e := by
      unfold Device.rings
      rw [if_neg (by simp [enabled])]
    have taken : ({ d with fault := true } : Device).consume i =
        { d.consume i with fault := true } := by
      unfold Device.consume
      dsimp only
      split_ifs <;> rfl
    unfold Device.rest
    rw [kept, kept, still { d with fault := true } on, still d on, taken]
    have other : (i.wrV && i.wrK == 0x70#8) = false := by simpa using written
    rw [other]
    unfold Device.resetDevices
    cases i.wrReset <;> rfl

/-- A producer write that breaks the order faults. -/
theorem produce_refused (ordered : Ordered d) (on : d.on = true) (write : i.prodV = true)
    (producer : i.prodK = 0x74#8)
    (breaks : ¬ Ordered { d with cprod := i.prodData.extractLsb' 0 16 }) :
    d.produce i = { d with fault := true } := by
  have kept := (produce_orders ordered i).1
  unfold Device.produce at kept ⊢
  rw [if_pos (by simp [write, producer, on])] at kept ⊢
  dsimp only at kept ⊢
  split_ifs at kept ⊢ with refused
  · rfl
  · exact absurd kept breaks

/-- So does a consumer write. -/
theorem consume_refused (ordered : Ordered d) (on : d.on = true) (write : i.wrV = true)
    (consumer : i.wrK = 0x79#8)
    (breaks : ¬ Ordered { d with rcons := i.wrData.extractLsb' 0 16 }) :
    d.consume i = { d with fault := true } := by
  have kept := (consume_orders ordered i).1
  unfold Device.consume at kept ⊢
  rw [if_pos (by simp [write, consumer, on])] at kept ⊢
  dsimp only at kept ⊢
  split_ifs at kept ⊢ with refused
  · rfl
  · exact absurd kept breaks

theorem next_dev (mainWords : Nat) (s : State) (i : Input) (rst : i.rst = false) :
    (s.next mainWords i).dev = s.device mainWords i := by
  simp only [State.next, rst, Bool.false_eq_true, if_false]

/-- The device's state at every clock of a run from reset. -/
def run (mainWords : Nat) (inputs : Nat → Input) : Nat → State :=
  trace (fun i s => s.next mainWords i) State.reset inputs

theorem run_succ (inputs : Nat → Input) (clock : Nat) : run mainWords inputs (clock + 1) =
    (run mainWords inputs clock).next mainWords (inputs clock) := rfl

/-- The rings are kept in every run. -/
theorem run_inv (mainWords : Nat) (inputs : Nat → Input) (clock : Nat) : Inv (run mainWords inputs clock) := by
  induction clock with
  | zero => exact ⟨(indexed_off rfl).mpr ⟨rfl, rfl, rfl⟩, fun on => absurd on (by simp [run, trace, State.reset, State.resetDevice])⟩
  | succ clock ih => exact ih.next mainWords (inputs clock)

/-- The file device's indexes stay ordered in every run, with a completion to land in place of the
index it moves as well; they are 0 while the device is disabled; and a producer's or a consumer's write
that would break the order leaves the clock as without it, but for the fault bit, which it sets unless
a write of 160 or RESET-DEVICES after it in the clock clears it. -/
theorem file_indexes_ordered (mainWords : Nat) (inputs : Nat → Input) (clock : Nat) :
    ((run mainWords inputs clock).dev.on = true → Ordered (run mainWords inputs clock).dev ∧
      ((run mainWords inputs clock).pub = true →
        Ordered { (run mainWords inputs clock).dev with
          ccons := (run mainWords inputs clock).pubTo })) ∧
    ((run mainWords inputs clock).dev.on = false → Zeroed (run mainWords inputs clock).dev) ∧
    ((run mainWords inputs clock).dev.on = true → (inputs clock).rst = false →
      (inputs clock).prodV = true → (inputs clock).prodK = 0x74#8 →
      ¬ Ordered { (run mainWords inputs clock).landed with
        cprod := (inputs clock).prodData.extractLsb' 0 16 } →
      (run mainWords inputs (clock + 1)).dev =
        let d := ((run mainWords inputs clock).next mainWords
          { inputs clock with prodV := false }).dev
        if ((inputs clock).wrV && (inputs clock).wrK == 0x70#8) || (inputs clock).wrReset then d
        else { d with fault := true }) ∧
    ((run mainWords inputs clock).dev.on = true → (inputs clock).rst = false →
      (inputs clock).wrV = true → (inputs clock).wrK = 0x79#8 →
      ¬ Ordered { (run mainWords inputs clock).landed.produce (inputs clock) with
        rcons := (inputs clock).wrData.extractLsb' 0 16 } →
      (run mainWords inputs (clock + 1)).dev =
        let d := ((run mainWords inputs clock).next mainWords
          { inputs clock with wrV := false }).dev
        if (inputs clock).wrReset then d else { d with fault := true }) := by
  have inv := run_inv mainWords inputs clock
  rw [run_succ]
  generalize run mainWords inputs clock = s at *
  generalize inputs clock = i
  refine ⟨fun on => ⟨(indexed_on on).mp inv.indexed, fun pub =>
    (inv.pending on pub).lands ((indexed_on on).mp inv.indexed)⟩,
    fun off => (indexed_off off).mp inv.indexed, ?_, ?_⟩
  · intro on rst write producer breaks
    have landedOn : s.landed.on = true := on
    have refused := produce_refused ((indexed_on landedOn).mp inv.landed) on write producer breaks
    have unwritten : s.landed.produce { i with prodV := false } = s.landed := by
      unfold Device.produce
      rw [if_neg (by simp)]
    rw [next_dev mainWords s i rst, next_dev mainWords s { i with prodV := false } rst]
    unfold State.device
    rw [refused, unwritten]
    exact rest_faulted landedOn
  · intro on rst write consumer breaks
    obtain ⟨indexed, onFirst, -⟩ := produce_indexed i inv.landed
    have enabled : (s.landed.produce i).on = true := onFirst.trans on
    have refused := consume_refused ((indexed_on enabled).mp indexed) enabled write consumer breaks
    have kept (j : Input) (k : j.wrV = false ∨ j.wrK = 0x79#8) :
        ((s.landed.produce i).control mainWords j).rings j = s.landed.produce i := by
      have control : (s.landed.produce i).control mainWords j = s.landed.produce i := by
        unfold Device.control
        rw [if_neg (by rcases k with none | other <;> simp_all)]
      rw [control]
      unfold Device.rings
      rw [if_neg (by simp [enabled])]
    have unwritten : (s.landed.produce i).consume { i with wrV := false } = s.landed.produce i := by
      unfold Device.consume
      rw [if_neg (by simp)]
    rw [next_dev mainWords s i rst, next_dev mainWords s { i with wrV := false } rst]
    unfold State.device
    rw [kept i (Or.inr consumer), refused]
    change _ = (let d := ((((s.landed.produce i).control mainWords { i with wrV := false }).rings
      { i with wrV := false }).consume { i with wrV := false }).resetDevices i
      if i.wrReset = true then d else { d with fault := true })
    rw [kept { i with wrV := false } (Or.inl rfl), unwritten]
    unfold Device.resetDevices
    cases i.wrReset <;> rfl

/-- 160 enables the device, and is written again in the clock that a producer's write of 5 comes to a
ring of one entry. -/
def enabledTwice (clock : Nat) : Input :=
  ⟨false, false, clock == 1, 0x74#8, 5#32, true, 0x70#8, 1#32, false, 0#4, 0#32⟩

/-- A producer's write that would break the order, in the clock 160 is written, leaves no fault. -/
theorem fault_cleared_at_once : (run 8 enabledTwice 1).dev.on = true ∧
    (enabledTwice 1).rst = false ∧ (enabledTwice 1).prodV = true ∧
    (enabledTwice 1).prodK = 0x74#8 ∧
    ¬ Ordered { (run 8 enabledTwice 1).landed with
      cprod := (enabledTwice 1).prodData.extractLsb' 0 16 } ∧
    (run 8 enabledTwice 2).dev.fault = false := by
  refine ⟨by decide, rfl, rfl, rfl, ?_, by decide⟩
  intro ordered
  have prod := ordered.prod
  exact absurd prod (by decide)

end MuirFpga.Quux.FileDevice
