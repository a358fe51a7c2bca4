import MuirFpga.Cadr.MdWriters

/-!
# From one master clock edge to the next

What a microcycle looks like tick by tick while `-BOOT` stays high: the ring counts up from
the edge and parks past its last tick, the instruction and the console's registers stand from
the sixth tick on, so `-WAIT` and MACHRUN are at the write pulse what they are at the edge
that ends it, `-HANG` can only fall, and the pulse ends in one tick of the cycle. Writes that
a pulse makes rest on this, whatever the speed and however long the cycle is held.
-/

namespace MuirFpga.Cadr

namespace Machine

open Processor

/-- What the placement of a write rests on: a cycle arbitrated for keeps MBUSY, and from the
acknowledgment to the boundary after it the interface has nothing more to strobe. -/
structure Placed (s : Machine) : Prop where
  clock : s.cpu.clock.Valid
  go : s.cpu.vctl.memstart = true → s.cpu.clock.gen.phase = 1 ∨ s.cpu.vctl.memgoQ = s.cpu.memgo
  goQ : s.cpu.vctl.memgoQ = true → s.cpu.vctl.memstart = true ∨ s.cpu.clock.gen.phase ≠ 0
  mapped : s.cpu.vctl.memstart = true → s.cpu.regs.wmapd = true →
    s.cpu.mapL1En = false ∧ s.cpu.mapL2En = false
  busy : s.cpu.vctl.mbusy = true → s.bus.state ≠ .idle ∧ s.bus.state ≠ .requested
  arb : s.bus.state = .arb → s.cpu.vctl.mbusy = true ∧ s.cpu.vctl.mfinishT = 0
  copies : s.cpu.vctl.nMemackQ = false → s.cpu.mdp.nLoadmdQ = false
  finish : s.cpu.vctl.rdfinishT ≤ 12
  spent : s.cpu.vctl.rdfinishT ≠ 0 → 14 ≤ s.cpu.clock.gen.phase + s.cpu.vctl.rdfinishT →
    s.bus.inFlight = false ∧ (s.bus.state = .acked → s.cpu.vctl.nMemackQ = false)

section

variable {i : MachIn} {s : Machine}

theorem placed_starts (placed : s.Placed) (grants : s.grants = true) :
    s.cpu.starts = true ∧ s.cpu.memgo = true ∧ s.cpu.vctl.memgoQ = true := by
  simp only [Machine.grants, Bool.and_eq_true, Bool.or_eq_true, beq_iff_eq] at grants
  obtain ⟨⟨state, edge⟩, request⟩ := grants
  have phase := phase_of_mclkEdge placed.clock edge
  have goQ : s.cpu.vctl.memgoQ = true := by
    have := placed.busy
    simp only [memrq] at request
    grind -linarith
  have prepared : s.cpu.vctl.memstart = true := by
    have := placed.goQ goQ
    grind -linarith
  have go := placed.go prepared
  simp only [starts, edge, prepared]
  grind -linarith

theorem placed_next (placed : s.Placed) (high : i.nBoot = true) : (s.next i).Placed := by
  have clock := valid_clockNext placed.clock (s.procIn i)
  have first := phase_after_mclkEdge placed.clock (s.procIn i)
  have edgePhase := phase_of_mclkEdge placed.clock
  have up : (s.procIn i).nBoot = true := high
  constructor
  case clock => exact clock
  case go =>
    intro prepared
    by_cases edge : s.cpu.mclkEdge = true
    · exact .inl (first edge)
    · right
      simp only [Machine.next, Processor.next, vctlNext, cpuEdge, edge] at prepared
      have before : s.cpu.vctl.memstart = true := by simpa [up] using prepared
      exact (memgo_kept (placed.mapped before) (by simpa using edge) high before).symm
  case goQ =>
    intro goQ
    have go : s.cpu.memgo = true := goQ
    have before : s.cpu.vctl.memstart = true := by
      simp only [memgo, Bool.and_eq_true] at go
      exact go.1
    by_cases edge : s.cpu.mclkEdge = true
    · right
      rw [next_clock, first edge]
      decide
    · left
      rw [next_vctl]
      simp [vctlNext, cpuEdge, edge, up, before]
  case mapped => exact mapped_next placed.mapped
  case busy =>
    intro busy
    have state := state_next s i
    have before := placed.busy
    have starting : s.cpu.starts = true → s.cpu.memgo = true → s.cpu.memrq = true ∧
        s.cpu.mclkEdge = true := by
      intro start go
      simp only [starts, Bool.and_eq_true] at start
      have := placed.go start.2
      have := edgePhase start.1
      simp only [memrq]
      grind -linarith
    have request : s.cpu.vctl.mbusy = true → s.cpu.memrq = true := by
      intro standing
      simp [memrq, standing]
    rw [next_vctl] at busy
    simp only [vctlNext] at busy
    simp only [Machine.grants, Busint.inFlight] at state
    grind -linarith
  case arb =>
    intro arb
    rw [next_vctl]
    by_cases grants : s.grants = true
    · obtain ⟨start, go, goQ⟩ := placed_starts placed grants
      simp [vctlNext, start, go, goQ, up]
    · have before : s.bus.state = .arb := by
        have moved := Busint.next_state i.bus s.cpu.mclkEdge s.cpu.memrq s.cpu.vctl.wrcyc s.bus
        simp only [Machine.next, moved] at arb
        simp only [Machine.grants] at grants
        cases state : s.bus.state <;> grind -linarith
      obtain ⟨busy, count⟩ := placed.arb before
      have unedged : s.cpu.memackEdge (s.procIn i) = false := by
        simp [memackEdge_eq, Busint.acked, Busint.ackStanding, before]
      simp only [vctlNext, busy, count, unedged, up]
      grind -linarith
  case copies =>
    intro low
    rw [nMemackQ_next] at low
    rw [nLoadmdQ_next]
    grind -linarith
  case finish =>
    have := placed.finish
    have twelve : rdFinishT = 12 := rfl
    rw [next_vctl]
    simp only [vctlNext]
    grind -linarith
  case spent =>
    intro counting far
    have finish := placed.finish
    have twelve : rdFinishT = 12 := rfl
    have phases := PhaseGen.next_phase_cases placed.clock.gen (s.cpu.hang (s.procIn i))
      (s.cpu.inst (s.procIn i)).ilong s.cpu.clock.speed
    have bound := placed.clock.gen.bound
    rw [next_vctl] at counting far
    rw [next_clock] at far
    have still : s.cpu.mclkEdge = false := by
      by_contra edge
      rw [first (by simpa using edge)] at far
      simp only [vctlNext] at far
      grind -linarith
    have unstarted : s.cpu.starts = false := by simp [starts, still]
    have ungranted : s.grants = false := by simp [Machine.grants, still]
    have before := placed.spent
    have state := state_next s i
    rw [nMemackQ_next]
    by_cases edge : s.cpu.memackEdge (s.procIn i) = true
    · rw [memackEdge_eq, Bool.and_eq_true] at edge
      simp only [Busint.inFlight] at state ⊢
      grind -linarith
    · simp only [vctlNext, unstarted, edge, clockNext] at counting far
      have spent := before (by grind -linarith) (by grind -linarith)
      simp only [Busint.inFlight] at spent state ⊢
      grind -linarith

/-- The second part of a microcycle: no console's write is left to land, and the held copies
of what the instruction wants are the instruction's. -/
structure Standing (s : Machine) : Prop where
  landed : 4 ≤ s.spy.phaseT
  useMd : s.cpu.vctl.useMdQ = s.inst.useMd
  destmem : s.cpu.vctl.destmemQ = s.inst.destmem
  ifetch : s.cpu.vctl.ifetchQ = s.inst.ifetch

theorem inst_kept (high : i.nBoot = true) (still : s.cpu.mclkEdge = false)
    (unlanded : s.spy.phaseT ≠ 3) : (s.next i).cpu.regs = s.cpu.regs ∧
      (s.next i).spy.spy = s.spy.spy ∧ (s.next i).cpu.olord = s.cpu.olord ∧
      (s.next i).inst = s.inst := by
  have regs := regs_kept still high
  have landing : s.spy.landing s.cpu.mclkEdge = false := by
    have three : ticks 60 - 3 = 3 := rfl
    simp [SpyRegs.landing, still, three, unlanded]
  have spy : (s.next i).spy.spy = s.spy.spy := by
    simp only [Machine.next, SpyRegs.next, landing, high]
    cases i.console <;> simp
  have olord : (s.next i).cpu.olord = s.cpu.olord := by
    have up : (s.procIn i).nBoot = true := high
    simp [Machine.next, Processor.next, olordNext, still, up]
  exact ⟨regs, spy, olord, by simp only [inst, regs, spy, olord]⟩

theorem standing_next (high : i.nBoot = true) (still : s.cpu.mclkEdge = false)
    (standing : s.Standing) : (s.next i).Standing := by
  have landed := standing.landed
  obtain ⟨-, -, -, inst⟩ := inst_kept high still (by omega)
  constructor
  · simp only [Machine.next, SpyRegs.next, still]
    grind -linarith
  · rw [inst]
    rfl
  · rw [inst]
    rfl
  · rw [inst]
    rfl

theorem wait_standing (placed : s.Placed) (standing : s.Standing) :
    s.cpu.wait (s.procIn i) = ((s.inst.destmem && s.cpu.vctl.mbusySync) ||
      (s.inst.useMd && s.bus.state == .arb) || (s.inst.ifetch && s.cpu.vctl.mbusySync)) := by
  have busy := placed.busy
  have arb := placed.arb
  have grant : (s.procIn i).nMemgrant = s.bus.nMemgrant := rfl
  simp only [wait, standing.useMd, standing.destmem, standing.ifetch, grant, Busint.nMemgrant]
  cases state : s.bus.state <;> grind -linarith

theorem machrun_kept {j : MachIn} (placed : s.Placed) (high : i.nBoot = true)
    (still : s.cpu.mclkEdge = false) (standing : s.Standing) :
    (s.next i).cpu.wait ((s.next i).procIn j) = s.cpu.wait (s.procIn i) ∧
      (s.next i).cpu.machrun ((s.next i).procIn j) = s.cpu.machrun (s.procIn i) := by
  have landed := standing.landed
  obtain ⟨regs, spy, olord, inst⟩ := inst_kept high still (by omega)
  have moved := Busint.next_state i.bus s.cpu.mclkEdge s.cpu.memrq s.cpu.vctl.wrcyc s.bus
  have arb : ((s.next i).bus.state == .arb) = (s.bus.state == .arb) := by
    rw [show (s.next i).bus.state = _ from moved]
    simp only [still]
    cases state : s.bus.state <;> grind -linarith
  have sync : (s.next i).cpu.vctl.mbusySync = s.cpu.vctl.mbusySync := by
    have up : (s.procIn i).nBoot = true := high
    rw [next_vctl]
    simp [vctlNext, still, up]
  have wait : (s.next i).cpu.wait ((s.next i).procIn j) = s.cpu.wait (s.procIn i) := by
    rw [wait_standing (placed_next placed high) (standing_next high still standing),
      wait_standing placed standing, inst, arb, sync]
  refine ⟨wait, ?_⟩
  have spyLines : ((s.next i).procIn j).spy = (s.procIn i).spy := spy
  simp only [machrun, stepping, wait, regs, olord, spyLines]

theorem hang_kept {j : MachIn} (placed : s.Placed) (high : i.nBoot = true)
    (still : s.cpu.mclkEdge = false) (standing : s.Standing) :
    (s.next i).cpu.hang ((s.next i).procIn j) =
      (s.cpu.hang (s.procIn i) && (s.next i).cpu.vctl.rdInProgress) := by
  have landed := standing.landed
  obtain ⟨-, -, -, inst⟩ := inst_kept high still (by omega)
  have wait := (machrun_kept (j := j) placed high still standing).1
  have falls : (s.next i).cpu.vctl.rdInProgress = true → s.cpu.vctl.rdInProgress = true := by
    rw [next_vctl]
    simp only [vctlNext, starts, still]
    grind -linarith
  simp only [hang, inst_procIn, wait, inst]
  grind -linarith

end

/-- A run out of reset in which `-BOOT` stays high. -/
structure Unbooted (s : Nat → Machine) (inputs : Nat → MachIn) : Prop where
  start : ∃ mems noAutoBoot, s 0 = reset mems noAutoBoot
  step : ∀ t, s (t + 1) = (s t).next (inputs t)
  high : ∀ t, (inputs t).nBoot = true

/-- No master clock edge from after a tick up to another. -/
def Open (s : Nat → Machine) (b t : Nat) : Prop :=
  ∀ v, b < v → v ≤ t → (s v).cpu.mclkEdge = false

theorem Open.mono {s : Nat → Machine} {b t u : Nat} (opened : Open s b u) (order : t ≤ u) :
    Open s b t := fun v after early => opened v after (by omega)

/-- A microcycle: a boundary and the next master clock edge. -/
structure Spans (s : Nat → Machine) (b e : Nat) : Prop where
  order : b < e
  first : (s b).cpu.boundary = true
  last : (s e).cpu.mclkEdge = true
  opened : Open s b (e - 1)

/-- The tap that ended the read phase of the cycle after an edge. -/
def offAt (s : Nat → Machine) (b : Nat) : Nat := (s (b + 7)).cpu.clock.gen.tpclkOffAt

/-- The tick that sees the end of the write pulse of the cycle after an edge. -/
def pulseEnd (s : Nat → Machine) (b : Nat) : Nat := b + offAt s b + 7

section

variable {s : Nat → Machine} {inputs : Nat → MachIn} {b : Nat}

theorem open_of_edge {v t : Nat} (edge : (s v).cpu.mclkEdge = true) (order : v ≤ t) :
    ∃ b ≤ t, (s b).cpu.mclkEdge = true ∧ Open s b t := by
  induction t, order using Nat.le_induction with
  | base => exact ⟨v, Nat.le_refl v, edge, fun u after upTo => absurd after (by omega)⟩
  | succ t order ih =>
    by_cases here : (s (t + 1)).cpu.mclkEdge = true
    · exact ⟨t + 1, Nat.le_refl _, here, fun u after upTo => absurd after (by omega)⟩
    · obtain ⟨b, early, found, opened⟩ := ih
      refine ⟨b, by omega, found, fun u after upTo => ?_⟩
      obtain le | rfl : u ≤ t ∨ u = t + 1 := by omega
      · exact opened u after le
      · simpa using here

theorem Unbooted.placed (run : Unbooted s inputs) (t : Nat) : (s t).Placed := by
  induction t with
  | zero =>
    obtain ⟨mems, noAutoBoot, start⟩ := run.start
    have cycle := cycle_reset mems noAutoBoot
    rw [start]
    refine ⟨cycle.clock, cycle.go, cycle.goQ, cycle.mapped, ?_, ?_, ?_, ?_, ?_⟩ <;>
      simp [reset, resetCpu, Busint.reset]
  | succ t ih => exact run.step t ▸ placed_next ih (run.high t)

variable (run : Unbooted s inputs) (edge : (s b).cpu.boundary = true)

include run edge

theorem Unbooted.first_ticks (n : Nat) (one : 1 ≤ n) (few : n ≤ 13) : (s (b + n)).cpu.clock.gen.phase = n ∧
      (s (b + n)).cpu.clock.gen.running = true ∧ n ≤ (s (b + n)).spy.phaseT + 1 ∧
      (7 ≤ n → (s (b + n)).cpu.clock.gen.tpclkOffAt = offAt s b) := by
  induction n, one using Nat.le_induction with
  | base =>
    have clock := (run.placed b).clock
    have running := (PhaseGen.next_phase_cases clock.gen
      ((s b).cpu.hang ((s b).procIn (inputs b))) ((s b).cpu.inst ((s b).procIn (inputs b))).ilong
      (s b).cpu.clock.speed).1
    rw [run.step b]
    exact ⟨phase_after_boundary clock _ edge, running, Nat.le_add_left _ _, by omega⟩
  | succ n one ih =>
    obtain ⟨phase, running, spy, taps⟩ := ih (by omega)
    have clock := (run.placed (b + n)).clock
    have cases := PhaseGen.next_phase_cases clock.gen
      ((s (b + n)).cpu.hang ((s (b + n)).procIn (inputs (b + n))))
      ((s (b + n)).cpu.inst ((s (b + n)).procIn (inputs (b + n)))).ilong
      (s (b + n)).cpu.clock.speed
    have low := clock.gen.read_low
    have still : (s (b + n)).cpu.mclkEdge = false := by
      have := phase_of_mclkEdge clock
      grind -linarith
    have sixth : n = 6 → (s (b + (n + 1))).cpu.clock.gen.tpclkOffAt = offAt s b := by
      rintro rfl
      rfl
    have step : s (b + (n + 1)) = (s (b + n)).next (inputs (b + n)) := run.step (b + n)
    simp only [step, next_clock, clockNext] at sixth ⊢
    refine ⟨by grind -linarith, cases.1, ?_, by grind -linarith⟩
    simp only [Machine.next, SpyRegs.next, still]
    grind -linarith

theorem Unbooted.open_first :
    Open s b (b + 13) := by
  intro v after early
  obtain ⟨n, rfl⟩ : ∃ n, v = b + n := ⟨v - b, by omega⟩
  have phase := (run.first_ticks edge n (by omega) (by omega)).1
  have := phase_of_mclkEdge (run.placed (b + n)).clock
  grind -linarith

theorem Unbooted.phase_open {t : Nat} (late : b + 7 ≤ t) (opened : Open s b t) :
    (s t).cpu.clock.gen.tpclkOffAt = offAt s b ∧ (s t).cpu.clock.gen.running = true ∧
      (s t).cpu.clock.gen.phase = if t ≤ b + offAt s b + 6 then t - b else offAt s b + 7 := by
  have first := run.first_ticks edge 7 (by omega) (by omega)
  have low := (run.placed (b + 7)).clock.gen.read_low
  have offLow : 7 ≤ offAt s b := low
  induction t, late using Nat.le_induction with
  | base =>
    refine ⟨first.2.2.2 (by omega), first.2.1, ?_⟩
    rw [first.1, if_pos (by omega)]
    omega
  | succ t late ih =>
    obtain ⟨taps, running, phase⟩ := ih (opened.mono (by omega))
    have clock := (run.placed t).clock
    have cases := PhaseGen.next_phase_cases clock.gen
      ((s t).cpu.hang ((s t).procIn (inputs t)))
      ((s t).cpu.inst ((s t).procIn (inputs t))).ilong (s t).cpu.clock.speed
    have still := opened (t + 1) (by omega) (Nat.le_refl _)
    have nonzero : (s (t + 1)).cpu.clock.gen.phase ≠ 0 := by
      intro zero
      have started : (s (t + 1)).cpu.clock.started = true := by
        have begun := clock.begun
        rw [run.step t, next_clock]
        simp only [clockNext]
        grind -linarith
      have running : (s (t + 1)).cpu.clock.gen.running = true := by
        rw [run.step t]
        exact cases.1
      rw [mclkEdge, boundary_eq (run.placed (t + 1)).clock, zero, running, started] at still
      exact Bool.false_ne_true still.symm
    simp only [run.step t, next_clock, clockNext] at nonzero ⊢
    grind -linarith

omit edge in
theorem Unbooted.pulseEnd_le {e : Nat} (spans : Spans s b e) :
    pulseEnd s b ≤ e := by
  obtain ⟨after, edge, next, opened⟩ := spans
  have first := run.open_first edge
  have offLow : 7 ≤ offAt s b := (run.placed (b + 7)).clock.gen.read_low
  have long : b + 13 < e := by
    by_contra short
    have := first e after (by omega)
    grind -linarith
  by_contra early
  simp only [pulseEnd] at early
  obtain ⟨taps, running, phase⟩ := run.phase_open edge (by omega) opened
  rw [if_pos (by omega)] at phase
  have clock := (run.placed (e - 1)).clock
  have cases := PhaseGen.next_phase_cases clock.gen
    ((s (e - 1)).cpu.hang ((s (e - 1)).procIn (inputs (e - 1))))
    ((s (e - 1)).cpu.inst ((s (e - 1)).procIn (inputs (e - 1)))).ilong (s (e - 1)).cpu.clock.speed
  have zero := (phase_of_mclkEdge (run.placed e).clock next).2
  have step := run.step (e - 1)
  rw [show e - 1 + 1 = e by omega] at step
  simp only [step, next_clock, clockNext] at zero
  grind -linarith

theorem Unbooted.standing {t : Nat} (late : b + 6 ≤ t) (opened : Open s b (t - 1)) : (s t).Standing := by
  induction t, late using Nat.le_induction with
  | base =>
    obtain ⟨-, -, spy, -⟩ := run.first_ticks edge 5 (by omega) (by omega)
    have still := run.open_first edge (b + 5) (by omega) (by omega)
    have high := run.high (b + 5)
    obtain ⟨-, -, -, inst⟩ := inst_kept high still (by omega)
    rw [run.step (b + 5)]
    constructor
    · simp only [Machine.next, SpyRegs.next, still]
      grind -linarith
    all_goals
      rw [inst]
      rfl
  | succ t late ih =>
    rw [run.step t]
    exact standing_next (run.high t) (opened t (by omega) (by omega))
      (ih (opened.mono (by omega)))

theorem Unbooted.machrun_open {t u : Nat} (late : b + 6 ≤ t) (order : t ≤ u) (opened : Open s b (u - 1)) :
    (s u).cpu.machrun ((s u).procIn (inputs u)) = (s t).cpu.machrun ((s t).procIn (inputs t)) := by
  induction u, order using Nat.le_induction with
  | base => rfl
  | succ u order ih =>
    rw [← ih (opened.mono (by omega)), run.step u]
    exact (machrun_kept (run.placed u) (run.high u) (opened u (by omega) (by omega))
      (run.standing edge (by omega) (opened.mono (by omega)))).2

theorem Unbooted.hang_open {t u : Nat} (late : b + 6 ≤ t) (order : t ≤ u) (opened : Open s b (u - 1))
    (hang : (s u).cpu.hang ((s u).procIn (inputs u)) = true) :
    (s t).cpu.hang ((s t).procIn (inputs t)) = true := by
  induction u, order using Nat.le_induction with
  | base => exact hang
  | succ u order ih =>
    refine ih (opened.mono (by omega)) ?_
    rw [run.step u, hang_kept (run.placed u) (run.high u) (opened u (by omega) (by omega))
      (run.standing edge (by omega) (opened.mono (by omega))),
      Bool.and_eq_true] at hang
    exact hang.1

theorem Unbooted.hang_of_open {t : Nat} (late : b + offAt s b + 6 ≤ t) (opened : Open s b (t + 1)) :
    (s t).cpu.hang ((s t).procIn (inputs t)) = true := by
  have offLow : 7 ≤ offAt s b := (run.placed (b + 7)).clock.gen.read_low
  obtain ⟨taps, running, phase⟩ := run.phase_open edge (by omega : b + 7 ≤ t)
    (opened.mono (Nat.le_succ t))
  have clock := (run.placed t).clock
  have wrap : (s t).cpu.clock.gen.wrap = true := by
    rw [PhaseGen.wrap_eq clock.gen]
    grind -linarith
  by_contra free
  have next := mclkEdge_of_unheld clock wrap (by simpa using free)
  have still := opened (t + 1) (by omega) (Nat.le_refl _)
  rw [run.step t] at still
  rw [show ((s t).next (inputs t)).cpu.mclkEdge = _ from next] at still
  exact Bool.false_ne_true still.symm

theorem Unbooted.open_of_hang {t : Nat} (late : b + offAt s b + 6 ≤ t) (opened : Open s b t)
    (hang : (s t).cpu.hang ((s t).procIn (inputs t)) = true) : Open s b (t + 1) := by
  intro v after early
  obtain le | rfl : v ≤ t ∨ v = t + 1 := by omega
  · exact opened v after le
  have offLow : 7 ≤ offAt s b := (run.placed (b + 7)).clock.gen.read_low
  obtain ⟨taps, running, phase⟩ := run.phase_open edge (by omega) opened
  have clock := (run.placed t).clock
  have wrap : (s t).cpu.clock.gen.wrap = true := by
    rw [PhaseGen.wrap_eq clock.gen]
    grind -linarith
  have wraps := wrap_of_hang clock wrap hang
  have next := (run.placed (t + 1)).clock
  have zero := phase_of_mclkEdge next
  rw [run.step t] at zero next ⊢
  rw [next_clock] at zero next
  rw [PhaseGen.wrap_eq next.gen] at wraps
  grind -linarith

theorem Unbooted.wpEnd_iff {t : Nat} (after : b < t) (opened : Open s b (t - 1)) :
    (s t).cpu.wpEnd = decide (t = pulseEnd s b) := by
  have offLow : 7 ≤ offAt s b := (run.placed (b + 7)).clock.gen.read_low
  obtain ⟨u, rfl⟩ : ∃ u, t = u + 1 := ⟨t - 1, by omega⟩
  have copy : (s (u + 1)).cpu.clock.nTpwpQ = (s u).cpu.clock.gen.nTpwp := by
    rw [run.step u]
    rfl
  have here := (run.placed (u + 1)).clock.gen.wp
  have before := (run.placed u).clock.gen.wp
  rw [wpEnd, copy, here, before, pulseEnd]
  obtain early | late := Nat.lt_or_ge u (b + 7)
  · -- The first ticks are before the pulse.
    have phase : (s u).cpu.clock.gen.phase ≤ 6 := by
      obtain rfl | lt : u = b ∨ b < u := by omega
      · have zero := edge
        rw [boundary_eq (run.placed u).clock, Bool.and_eq_true, beq_iff_eq] at zero
        omega
      · obtain ⟨n, rfl⟩ : ∃ n, u = b + n := ⟨u - b, by omega⟩
        have := (run.first_ticks edge n (by omega) (by omega)).1
        omega
    have low := (run.placed u).clock.gen.read_low
    grind -linarith
  · obtain ⟨taps, running, phase⟩ := run.phase_open edge late opened
    by_cases next : (s (u + 1)).cpu.mclkEdge = true
    · have zero := (phase_of_mclkEdge (run.placed (u + 1)).clock next).2
      have ends := run.pulseEnd_le ⟨after, edge, next, opened⟩
      simp only [pulseEnd] at ends
      grind -linarith
    · have still : Open s b (u + 1) := by
        intro v afterV early
        obtain le | rfl : v ≤ u ∨ v = u + 1 := by omega
        · exact opened v afterV le
        · simpa using next
      obtain ⟨tapsNext, -, phaseNext⟩ := run.phase_open edge (by omega) still
      grind -linarith

theorem Unbooted.penult_iff {t : Nat} (after : b < t) (opened : Open s b t) :
    (s t).cpu.clock.gen.penult = decide (t + 2 = pulseEnd s b) ∧
      (s t).cpu.clock.gen.last = decide (t + 1 = pulseEnd s b) := by
  have offLow : 7 ≤ offAt s b := (run.placed (b + 7)).clock.gen.read_low
  have penult := (run.placed t).clock.gen.penult_at
  have wrap := (run.placed t).clock.gen.wrap_at
  have low := (run.placed t).clock.gen.read_low
  rw [PhaseGen.penult, PhaseGen.last, penult, wrap, pulseEnd]
  obtain early | late := Nat.lt_or_ge t (b + 7)
  · obtain ⟨n, rfl⟩ : ∃ n, t = b + n := ⟨t - b, by omega⟩
    obtain ⟨phase, running, -⟩ := run.first_ticks edge n (by omega) (by omega)
    grind -linarith
  · obtain ⟨taps, running, phase⟩ := run.phase_open edge late opened
    grind -linarith

theorem Unbooted.tpclk_open {t : Nat}
    (late : b + offAt s b < t) (opened : Open s b t) : (s t).cpu.clock.gen.tpclk = false := by
  have offLow : 7 ≤ offAt s b := (run.placed (b + 7)).clock.gen.read_low
  obtain ⟨taps, -, phase⟩ := run.phase_open edge (by omega) opened
  rw [(run.placed t).clock.gen.clk, taps, phase]
  split
  · simp only [Bool.and_eq_false_imp, decide_eq_false_iff_not]
    omega
  · simp

omit edge in
theorem Unbooted.regs_open {t u : Nat} (after : b < t) (order : t ≤ u)
    (opened : Open s b (u - 1)) : (s u).cpu.regs = (s t).cpu.regs := by
  refine Sync.stands_between (fun v => (s v).cpu.regs) order fun v late early => ?_
  show (s (v + 1)).cpu.regs = (s v).cpu.regs
  rw [run.step v]
  exact regs_kept (opened v (by omega) (by omega)) (run.high v)

theorem Unbooted.inst_open {t u : Nat}
    (late : b + 6 ≤ t) (order : t ≤ u) (opened : Open s b (u - 1)) : (s u).inst = (s t).inst := by
  refine Sync.stands_between (fun v => (s v).inst) order fun v later early => ?_
  have landed := (run.standing edge (by omega : b + 6 ≤ v) (opened.mono (by omega))).landed
  show (s (v + 1)).inst = (s v).inst
  rw [run.step v]
  exact (inst_kept (run.high v) (opened v (by omega) (by omega)) (by omega)).2.2.2

end

end Machine

end MuirFpga.Cadr
