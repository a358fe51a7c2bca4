import MuirFpga.Cadr.Clock
import MuirFpga.Cadr.Machine

/-!
# The memory cycle, processor and bus interface together

MBUSY, READ IN PROGRESS and their countdowns against the bus interface's state. The
invariant says what stands at the interface while the processor's flip flops say a cycle is
in flight, and that a prepared cycle finds both sides clear. A step keeps it when it is
orderly: `-BOOT` does not cut a cycle the interface has, and a memory instruction does not
commit over one.
-/

namespace MuirFpga.Cadr

namespace Busint

/-- The state a granted request goes to. -/
def grantState (i : BusIn) : BusState := if i.unibus then .arb else .granted

theorem grant_state (i : BusIn) (b : Busint) : (b.grant i).state = grantState i := by
  unfold grant grantState
  split <;> rfl

theorem taps_state (i : BusIn) (b : Busint) : (b.taps i).state =
    if b.state == .granted && b.nxmDue i && !i.devHold then .acked else b.state := rfl

theorem arbitrate_state (b u : Busint) : (arbitrate b u).state =
    if b.stage != 1 && b.stage != 2 && b.stage != 3 && b.stage != 4 then .ub else u.state := by
  unfold arbitrate
  split_ifs <;> simp_all

theorem next_state (i : BusIn) (mclk memrq wrcyc : Bool) (b : Busint) :
    (b.next i mclk memrq wrcyc).state = match b.state with
      | .idle => if memrq then (if mclk then grantState i else .requested) else .idle
      | .requested =>
        if mclk then (if memrq then grantState i else .idle) else .requested
      | .arb =>
        if mclk && b.stage != 1 && b.stage != 2 && b.stage != 3 && b.stage != 4 then .ub
        else .arb
      | .ub => if b.acked i memrq then .acked else .ub
      | .granted =>
        if b.acked i memrq || (b.nxmDue i && !i.devHold) then .acked else .granted
      | .acked => if memrq then .acked else .idle := by
  have taps := taps_state i b
  unfold next
  cases state : b.state with
  | idle =>
    rw [state] at taps
    cases memrq <;> cases mclk <;> simp [taps, grant_state]
  | requested =>
    rw [state] at taps
    cases memrq <;> cases mclk <;> simp [taps, grant_state]
  | arb =>
    rw [state] at taps
    cases mclk <;> simp [taps, arbitrate_state]
  | ub =>
    rw [state] at taps
    simp only [taps]
    split_ifs <;> simp_all
  | granted =>
    rw [state] at taps
    simp only [taps]
    split_ifs <;> simp_all
  | acked =>
    rw [state] at taps
    cases memrq <;> simp [taps]

/-- A cycle stands at the interface that has not been acknowledged. -/
def inFlight (b : Busint) : Bool := b.state == .arb || b.state == .ub || b.state == .granted

theorem acked_state {i : BusIn} {memrq : Bool} {b : Busint} (up : b.acked i memrq = true) :
    (b.state = .acked ∧ memrq = true) ∨ b.state = .granted ∨ b.state = .ub := by
  simp only [acked, ackStanding, Bool.or_eq_true, Bool.and_eq_true, beq_iff_eq] at up
  tauto

end Busint

namespace Machine

/-- The interface takes the request at this edge. -/
def grants (s : Machine) : Bool :=
  (s.bus.state == .idle || s.bus.state == .requested) && s.cpu.mclkEdge && s.cpu.memrq

/-- A step that leaves the memory cycle whole: `-BOOT` is not low while the interface has a
cycle, at its grant or in the last tick before the edge that would grant it; and an
instruction that starts a cycle commits with none prepared and permitted, or in flight. -/
structure Orderly (i : MachIn) (s : Machine) : Prop where
  flight : i.nBoot = false → s.bus.inFlight = false
  grant : i.nBoot = false → s.grants = false
  prepared : i.nBoot = false → s.cpu.memgo = true →
    s.cpu.clock.gen.phaseNext (s.cpu.hang (s.procIn i)) ≠ 0
  single : s.cpu.cpuEdge (s.procIn i) = true → (s.cpu.inst (s.procIn i)).memop = true →
    s.cpu.vctl.mbusySync = false ∧ s.cpu.memgo = false

/-- The acknowledgment of the standing request is still to come. -/
def owed (s : Machine) : Bool := s.bus.inFlight || (s.bus.state == .acked && s.cpu.vctl.nMemackQ)

/-- The flip flops, the countdowns and the interface's state move together. -/
structure Cycle (s : Machine) : Prop where
  clock : s.cpu.clock.Valid
  sync : s.cpu.vctl.mbusy = true → s.cpu.vctl.mbusySync = true
  prepared : s.cpu.vctl.memstart = true → s.cpu.vctl.mbusySync = false ∧
    s.cpu.clock.gen.running = true
  go : s.cpu.vctl.memstart = true → s.cpu.clock.gen.phase = 1 ∨ s.cpu.vctl.memgoQ = s.cpu.memgo
  goQ : s.cpu.vctl.memgoQ = true → s.cpu.vctl.memstart = true ∨ s.cpu.clock.gen.phase ≠ 0
  mapped : s.cpu.vctl.memstart = true → s.cpu.regs.wmapd = true →
    s.cpu.mapL1En = false ∧ s.cpu.mapL2En = false
  idle : s.bus.state = .idle ∨ s.bus.state = .requested →
    s.cpu.vctl.mbusy = false ∧ s.cpu.vctl.nMemackQ = true
  owes : s.owed = true → s.cpu.vctl.mbusy = true ∧ s.cpu.vctl.nMemackQ = true ∧
    s.cpu.vctl.mfinishT = 0 ∧ s.cpu.vctl.rdfinishT = 0
  acked : s.bus.state = .acked → s.cpu.vctl.memstart = false ∧ s.cpu.vctl.memgoQ = false ∧
    (s.cpu.vctl.mbusy = true → s.cpu.vctl.nMemackQ = false → s.cpu.vctl.mfinishT ≠ 0)
  reading : s.cpu.vctl.rdInProgress = true → s.cpu.vctl.rdfinishT ≠ 0 ∨ s.owed = true
  finish : s.cpu.vctl.mfinishT ≤ 2 ∧ s.cpu.vctl.rdfinishT ≤ 12
  settled : s.cpu.vctl.memstart = true → s.cpu.vctl.rdfinishT = 0 ∨
    (1 ≤ s.cpu.clock.gen.phase ∧ s.cpu.clock.gen.phase + s.cpu.vctl.rdfinishT ≤ 12)

section

open Processor

variable {i : MachIn} {s : Machine}

theorem regs_kept (still : s.cpu.mclkEdge = false) (high : i.nBoot = true) :
    (s.next i).cpu.regs = s.cpu.regs := by
  simp [Machine.next, Processor.next, regsNext, cpuEdge, still, procIn, high]

theorem memgo_kept (off : s.cpu.regs.wmapd = true →
      s.cpu.mapL1En = false ∧ s.cpu.mapL2En = false)
    (still : s.cpu.mclkEdge = false) (high : i.nBoot = true)
    (prepared : s.cpu.vctl.memstart = true) : (s.next i).cpu.memgo = s.cpu.memgo := by
  have regs := regs_kept still high
  have start : (s.next i).cpu.vctl.memstart = true := by
    simp [Machine.next, Processor.next, vctlNext, cpuEdge, still, procIn, high, prepared]
  have wrcyc : (s.next i).cpu.vctl.wrcyc = s.cpu.vctl.wrcyc := by
    simp [Machine.next, Processor.next, vctlNext, cpuEdge, still, procIn, high]
  have first : (s.next i).cpu.mems.l1Map = s.cpu.mems.l1Map := by
    simp only [Machine.next, Processor.next, memsNext]
    rw [if_neg]
    intro write
    simp only [Bool.and_eq_true] at write
    simp_all
  have second : (s.next i).cpu.mems.l2Map = s.cpu.mems.l2Map := by
    simp only [Machine.next, Processor.next, memsNext]
    rw [if_neg]
    intro write
    simp only [Bool.and_eq_true] at write
    simp_all
  have word : (s.next i).cpu.vmo = s.cpu.vmo := by
    simp only [vmo, mapL2En, l2Store, adr1, adr0, mapi, regs, start, prepared, first, second, if_true]
  simp only [memgo, vmaok, pfr, pfw, lvmoEff, start, prepared, word, wrcyc, if_true]

theorem vmas_of_memop_wmap {v : View} (memop : v.memop = true) (wmap : v.wmap = true) :
    v.vmaenb = true ∧ v.vmas.getLsbD 25 = false ∧ v.vmas.getLsbD 26 = false := by
  have field : v.irField 19 2 = 3#2 := by
    simp only [Inst.wmap, Bool.and_eq_true, beq_iff_eq] at wmap
    exact wmap.2
  have fetch : v.ifetch = true := by
    simpa [Inst.memop, Inst.memrd, Inst.memwr, field] using memop
  refine ⟨by simp [Inst.vmaenb, fetch], ?_, ?_⟩ <;> simp [View.vmas, fetch]

theorem mapped_next (mapped : s.cpu.vctl.memstart = true → s.cpu.regs.wmapd = true →
      s.cpu.mapL1En = false ∧ s.cpu.mapL2En = false)
    (start : (s.next i).cpu.vctl.memstart = true)
    (wmapd : (s.next i).cpu.regs.wmapd = true) :
    (s.next i).cpu.mapL1En = false ∧ (s.next i).cpu.mapL2En = false := by
  simp only [Machine.next, Processor.next, vctlNext, Bool.and_eq_true] at start
  have high : (s.procIn i).nBoot = true := start.1
  have regs : (s.next i).cpu.regs =
      if s.cpu.cpuEdge (s.procIn i) then (s.cpu.view (s.procIn i)).regsNext else s.cpu.regs := by
    simp [Machine.next, Processor.next, regsNext, high]
  simp only [mapL1En, mapL2En, regs] at wmapd ⊢
  by_cases edge : s.cpu.cpuEdge (s.procIn i) = true
  · simp only [edge, if_true] at wmapd start ⊢
    obtain ⟨enb, low, up⟩ := vmas_of_memop_wmap (v := s.cpu.view (s.procIn i)) start.2 wmapd
    simp only [View.regsNext, enb, if_true]
    exact ⟨up, low⟩
  · simp only [edge] at wmapd start ⊢
    have prepared : s.cpu.vctl.memstart = true := by
      have := start.2
      simp_all
    exact mapped prepared wmapd

theorem owed_of_memackEdge (edge : s.cpu.memackEdge (s.procIn i) = true) :
    s.owed = true ∧ s.bus.state ≠ .arb := by
  simp only [memackEdge, procIn, Busint.nMemack, Bool.not_not, Bool.and_eq_true] at edge
  have state := Busint.acked_state edge.1
  have q := edge.2
  simp only [owed, Busint.inFlight]
  grind -linarith

theorem starts_of_grants (cycle : s.Cycle) (grants : s.grants = true) :
    s.cpu.starts = true ∧ s.cpu.memgo = true ∧ s.cpu.vctl.memgoQ = true := by
  simp only [Machine.grants, Bool.and_eq_true, Bool.or_eq_true, beq_iff_eq] at grants
  obtain ⟨⟨state, edge⟩, request⟩ := grants
  have phase := phase_of_mclkEdge cycle.clock edge
  have busy := (cycle.idle state).1
  have goQ : s.cpu.vctl.memgoQ = true := by simpa [memrq, busy] using request
  have prepared : s.cpu.vctl.memstart = true := by
    have := cycle.goQ goQ
    grind -linarith
  have go := cycle.go prepared
  simp only [starts, edge, prepared]
  grind -linarith

theorem grants_of_starts (cycle : s.Cycle) (starts : s.cpu.starts = true)
    (go : s.cpu.memgo = true) : s.grants = true := by
  simp only [Processor.starts, Bool.and_eq_true] at starts
  obtain ⟨edge, prepared⟩ := starts
  have phase := phase_of_mclkEdge cycle.clock edge
  have goQ : s.cpu.vctl.memgoQ = true := by
    have := cycle.go prepared
    grind -linarith
  have clear := cycle.prepared prepared
  have sync := cycle.sync
  have acked := cycle.acked
  have owes := cycle.owes
  simp only [owed, Busint.inFlight] at owes
  simp only [Machine.grants, edge, memrq, goQ]
  cases state : s.bus.state <;> grind -linarith

theorem state_next (s : Machine) (i : MachIn) :
    (s.grants = true ∧ (s.next i).bus.inFlight = true) ∨
    ((s.bus.state = .idle ∨ s.bus.state = .requested) ∧ s.grants = false ∧
      ((s.next i).bus.state = .idle ∨ (s.next i).bus.state = .requested)) ∨
    (s.bus.inFlight = true ∧ s.bus.acked i.bus s.cpu.memrq = false ∧
      ((s.next i).bus.inFlight = true ∨ (s.next i).bus.state = .acked)) ∨
    (s.bus.inFlight = true ∧ s.bus.acked i.bus s.cpu.memrq = true ∧
      (s.next i).bus.state = .acked) ∨
    (s.bus.state = .acked ∧ s.cpu.memrq = true ∧ s.bus.acked i.bus s.cpu.memrq = true ∧
      (s.next i).bus.state = .acked) ∨
    (s.bus.state = .acked ∧ s.cpu.memrq = false ∧ s.bus.acked i.bus s.cpu.memrq = false ∧
      (s.next i).bus.state = .idle) := by
  have moved := Busint.next_state i.bus s.cpu.mclkEdge s.cpu.memrq s.cpu.vctl.wrcyc s.bus
  simp only [Machine.next, Machine.grants, Busint.inFlight, moved]
  cases state : s.bus.state <;>
    simp [Busint.grantState, Busint.acked, Busint.ackStanding, state] <;> grind -linarith

theorem inFlight_of_grants (grants : s.grants = true) : (s.next i).bus.inFlight = true := by
  obtain h | h | h | h | h | h := state_next s i
  · exact h.2
  all_goals
    simp only [Machine.grants, Busint.inFlight] at grants h
    grind -linarith

theorem busy_unprepared (cycle : s.Cycle) (busy : s.cpu.vctl.mbusy = true) :
    s.cpu.vctl.memstart = false ∧ s.cpu.memgo = false ∧ s.cpu.starts = false := by
  have sync := cycle.sync busy
  have unprepared : s.cpu.vctl.memstart = false := by
    have := cycle.prepared
    grind -linarith
  simp [memgo, starts, unprepared]

theorem busy_unprepared_next (cycle : s.Cycle) (orderly : Orderly i s)
    (busy : s.cpu.vctl.mbusy = true) : (s.next i).cpu.vctl.memstart = false := by
  have sync := cycle.sync busy
  have unprepared := (busy_unprepared cycle busy).1
  have single := orderly.single
  simp only [Machine.next, Processor.next, vctlNext, unprepared]
  grind -linarith

theorem nMemackQ_next : (s.next i).cpu.vctl.nMemackQ = !s.bus.acked i.bus s.cpu.memrq := rfl

theorem acked_idle (idle : s.bus.state = .idle ∨ s.bus.state = .requested) :
    s.bus.acked i.bus s.cpu.memrq = false := by
  have := @Busint.acked_state i.bus s.cpu.memrq s.bus
  grind -linarith

theorem memackEdge_eq : s.cpu.memackEdge (s.procIn i) =
    (s.bus.acked i.bus s.cpu.memrq && s.cpu.vctl.nMemackQ) := by
  simp [memackEdge, procIn, Busint.nMemack]

theorem idle_next (cycle : s.Cycle)
    (idle : (s.next i).bus.state = .idle ∨ (s.next i).bus.state = .requested) :
    (s.next i).cpu.vctl.mbusy = false ∧ (s.next i).cpu.vctl.nMemackQ = true := by
  have grants := grants_of_starts cycle
  have acked := @acked_idle i s
  have flight := cycle.owes
  have before := cycle.idle
  have standing : s.bus.state = .acked → s.cpu.memrq = false → s.cpu.vctl.mbusy = false := by
    simp [memrq]
  have starting : s.cpu.starts = true → s.cpu.memgo = true → s.bus.state ≠ .acked := by
    intro start go state
    have := grants start go
    simp [Machine.grants, state] at this
  rw [nMemackQ_next]
  simp only [Machine.next, Processor.next, vctlNext]
  obtain h | h | h | h | h | h := state_next s i
  · simp only [Busint.inFlight] at h
    grind -linarith
  · grind -linarith
  · simp only [Busint.inFlight] at h
    grind -linarith
  · grind -linarith
  · grind -linarith
  · grind -linarith

theorem owes_next (cycle : s.Cycle) (orderly : Orderly i s) (owed : (s.next i).owed = true) :
    (s.next i).cpu.vctl.mbusy = true ∧ (s.next i).cpu.vctl.nMemackQ = true ∧
      (s.next i).cpu.vctl.mfinishT = 0 ∧ (s.next i).cpu.vctl.rdfinishT = 0 := by
  rw [Machine.owed, nMemackQ_next] at owed
  rw [nMemackQ_next]
  have edge := @memackEdge_eq i s
  obtain h | h | h | h | h | h := state_next s i
  · obtain ⟨grants, -⟩ := h
    obtain ⟨start, go, goQ⟩ := starts_of_grants cycle grants
    have high : (s.procIn i).nBoot = true := by
      have := orderly.grant
      simp only [procIn]
      grind -linarith
    have idle : s.bus.state = .idle ∨ s.bus.state = .requested := by
      simp only [Machine.grants, Bool.and_eq_true, Bool.or_eq_true, beq_iff_eq] at grants
      exact grants.1.1
    have down := acked_idle (i := i) idle
    have settled : s.cpu.vctl.rdfinishT = 0 := by
      simp only [starts, Bool.and_eq_true] at start
      have := cycle.settled start.2
      have := phase_of_mclkEdge cycle.clock start.1
      grind -linarith
    simp [Machine.next, Processor.next, vctlNext, start, go, goQ, high, down, edge, settled]
  · simp only [Busint.inFlight] at owed
    grind -linarith
  · obtain ⟨flight, down, -⟩ := h
    have high : (s.procIn i).nBoot = true := by
      have := orderly.flight
      simp only [procIn]
      grind -linarith
    obtain ⟨busy, -, mfinish, rdfinish⟩ := cycle.owes (by simp [Machine.owed, flight])
    have still := (busy_unprepared cycle busy).2.2
    simp [Machine.next, Processor.next, vctlNext, high, down, edge, busy, mfinish, rdfinish, still]
  · simp only [Busint.inFlight] at owed
    grind -linarith
  · simp only [Busint.inFlight] at owed
    grind -linarith
  · simp only [Busint.inFlight] at owed
    grind -linarith

theorem acked_next (cycle : s.Cycle) (orderly : Orderly i s)
    (acked : (s.next i).bus.state = .acked) :
    (s.next i).cpu.vctl.memstart = false ∧ (s.next i).cpu.vctl.memgoQ = false ∧
      ((s.next i).cpu.vctl.mbusy = true → (s.next i).cpu.vctl.nMemackQ = false →
        (s.next i).cpu.vctl.mfinishT ≠ 0) := by
  have edge := @memackEdge_eq i s
  have owes := cycle.owes
  have standing := cycle.acked
  have goQ : (s.next i).cpu.vctl.memgoQ = s.cpu.memgo := rfl
  have busy : s.cpu.vctl.mbusy = true := by
    simp only [Machine.owed] at owes
    obtain h | h | h | h | h | h := state_next s i
    · simp only [Busint.inFlight] at h
      grind -linarith
    · grind -linarith
    · grind -linarith
    · grind -linarith
    · have := (standing h.1).2.1
      simpa [memrq, this] using h.2.1
    · grind -linarith
  obtain ⟨-, go, still⟩ := busy_unprepared cycle busy
  refine ⟨busy_unprepared_next cycle orderly busy, by rw [goQ, go], ?_⟩
  rw [nMemackQ_next]
  intro busyNext up
  simp only [Bool.not_eq_false'] at up
  simp only [Machine.next, Processor.next, vctlNext, still, edge, up] at busyNext ⊢
  have count : s.cpu.vctl.nMemackQ = false → s.cpu.vctl.mfinishT ≠ 0 := by
    intro low
    have state := Busint.acked_state up
    simp only [Machine.owed, Busint.inFlight] at owes
    grind -linarith
  have two : mfinishdT = 2 := rfl
  grind -linarith

theorem reading_next (cycle : s.Cycle)
    (reading : (s.next i).cpu.vctl.rdInProgress = true) :
    (s.next i).cpu.vctl.rdfinishT ≠ 0 ∨ (s.next i).owed = true := by
  have edge := @memackEdge_eq i s
  have twelve : rdFinishT = 12 := rfl
  rw [Machine.owed, nMemackQ_next]
  by_cases going : s.cpu.starts = true ∧ s.cpu.memgo = true
  · -- The start is its own grant.
    have flight := inFlight_of_grants (i := i) (grants_of_starts cycle going.1 going.2)
    simp [flight]
  · have before : s.cpu.vctl.rdInProgress = true ∧
        ¬ (s.cpu.vctl.rdfinishT = 1 ∧ s.cpu.memackEdge (s.procIn i) = false) := by
      simp only [Machine.next, Processor.next, vctlNext] at reading
      grind -linarith
    have count : s.cpu.vctl.rdfinishT ≠ 0 → s.cpu.starts = true → False := by
      intro counting start
      simp only [starts, Bool.and_eq_true] at start
      have := cycle.settled start.2
      have := phase_of_mclkEdge cycle.clock start.1
      grind -linarith
    obtain counting | owed := cycle.reading before.1
    · left
      have still := count counting
      simp only [Machine.next, Processor.next, vctlNext]
      grind -linarith
    · have owes := cycle.owes owed
      have still := (busy_unprepared cycle owes.1).2.2
      by_cases up : s.bus.acked i.bus s.cpu.memrq = true
      · left
        simp [Machine.next, Processor.next, vctlNext, edge, up, owes, still, twelve]
      · right
        have request : s.cpu.memrq = true := by simp [memrq, owes]
        simp only [Machine.owed] at owed
        have state := state_next s i
        simp only [Busint.inFlight] at owed state ⊢
        grind -linarith

theorem settled_next (cycle : s.Cycle) (orderly : Orderly i s)
    (prepared : (s.next i).cpu.vctl.memstart = true) :
    (s.next i).cpu.vctl.rdfinishT = 0 ∨ (1 ≤ (s.next i).cpu.clock.gen.phase ∧
      (s.next i).cpu.clock.gen.phase + (s.next i).cpu.vctl.rdfinishT ≤ 12) := by
  have phases := PhaseGen.next_phase_cases cycle.clock.gen (s.cpu.hang (s.procIn i))
    (s.cpu.inst (s.procIn i)).ilong s.cpu.clock.speed
  have first := phase_after_mclkEdge cycle.clock (s.procIn i)
  have low := cycle.clock.gen.read_low
  have finish := cycle.finish.2
  have settled := cycle.settled
  have running := cycle.prepared
  have unbusy : s.cpu.vctl.mbusy = false := by
    have := busy_unprepared_next cycle orderly
    grind -linarith
  have noEdge : s.cpu.memackEdge (s.procIn i) = false := by
    have := @owed_of_memackEdge i s
    have := cycle.owes
    grind -linarith
  have before : s.cpu.mclkEdge = true ∨ s.cpu.vctl.memstart = true := by
    simp only [Machine.next, Processor.next, vctlNext, cpuEdge] at prepared
    grind -linarith
  simp only [Machine.next, Processor.next, vctlNext, noEdge]
  simp only [clockNext] at first ⊢
  grind -linarith

theorem cycle_next (cycle : s.Cycle) (orderly : Orderly i s) : (s.next i).Cycle := by
  have clock := valid_clockNext cycle.clock (s.procIn i)
  have first := phase_after_mclkEdge cycle.clock (s.procIn i)
  constructor
  case clock => exact clock
  case sync =>
    simp only [Machine.next, Processor.next, vctlNext, starts]
    have := cycle.sync
    grind -linarith
  case prepared =>
    have := cycle.sync
    have := cycle.prepared
    have := orderly.single
    have := (PhaseGen.next_phase_cases cycle.clock.gen (s.cpu.hang (s.procIn i))
      (s.cpu.inst (s.procIn i)).ilong s.cpu.clock.speed).1
    simp only [Machine.next, Processor.next, vctlNext, cpuEdge, clockNext] at *
    grind -linarith
  case go =>
    intro prepared
    by_cases edge : s.cpu.mclkEdge = true
    · exact .inl (first edge)
    · right
      simp only [Machine.next, Processor.next, vctlNext, cpuEdge, edge] at prepared
      have before : i.nBoot = true ∧ s.cpu.vctl.memstart = true := by
        simpa [procIn] using prepared
      exact (memgo_kept (cycle.mapped before.2) (by simpa using edge) before.1 before.2).symm
  case goQ =>
    intro goQ
    have go : s.cpu.memgo = true := goQ
    have before : s.cpu.vctl.memstart = true := by
      simp only [memgo, Bool.and_eq_true] at go
      exact go.1
    have running := (cycle.prepared before).2
    by_cases edge : s.cpu.mclkEdge = true
    · right
      have := first edge
      simp only [Machine.next, Processor.next]
      grind -linarith
    · by_cases high : i.nBoot = true
      · left
        simp [Machine.next, Processor.next, vctlNext, cpuEdge, edge, procIn, high, before]
      · right
        have := orderly.prepared (by simpa using high) go
        simpa [Machine.next, Processor.next, clockNext, PhaseGen.next, running] using this
  case mapped => exact mapped_next cycle.mapped
  case idle => exact idle_next cycle
  case owes => exact owes_next cycle orderly
  case acked => exact acked_next cycle orderly
  case reading => exact reading_next cycle
  case finish =>
    have := cycle.finish
    have two : mfinishdT = 2 := rfl
    have twelve : rdFinishT = 12 := rfl
    simp only [Machine.next, Processor.next, vctlNext]
    grind -linarith
  case settled => exact settled_next cycle orderly

theorem cycle_reset (mems : Mems) (noAutoBoot : Bool) : (reset mems noAutoBoot).Cycle := by
  constructor <;> simp [reset, resetCpu, resetRegs, owed, Busint.inFlight, Busint.reset]
  constructor <;> simp [PhaseGen.valid_reset] <;> simp [PhaseGen.reset, PhaseGen.withTaps]

end

end Machine

end MuirFpga.Cadr
