import MuirFpga.Cadr.Timer

/-!
# The ring is never parked for ever

`-HANG` parks the generator, and the generator is the master clock the Unibus arbitration and
MBUSY.SYNC advance on. In a run of orderly steps a park waits only for a countdown or for an
acknowledgment that needs no master clock, so it ends; grants and acknowledgments pair off.
A `-BOOT` in an arbitration is not orderly, and parks the ring for ever.
-/

namespace MuirFpga.Cadr

namespace Machine

open Processor

section

variable {i : MachIn} {s : Machine}

/-- The instruction as the machine decodes it. -/
def inst (s : Machine) : Inst :=
  { regs := s.cpu.regs, trap := s.cpu.olord.trap, nop11 := s.spy.spy.nop11 }

theorem inst_procIn : s.cpu.inst (s.procIn i) = s.inst := rfl

theorem next_vctl : (s.next i).cpu.vctl = s.cpu.vctlNext (s.procIn i) := rfl

theorem next_clock : (s.next i).cpu.clock = s.cpu.clockNext (s.procIn i) := rfl

/-- While the Unibus is arbitrated for, a console's write has landed before the ring's sixth
tick, and from then on the held copy of USE.MD is the instruction's. -/
structure Watched (s : Machine) : Prop where
  started : s.bus.state = .arb → s.cpu.clock.started = true ∧ s.cpu.clock.gen.running = true
  land : s.bus.state = .arb → s.cpu.clock.gen.phase = 0 ∨
    s.spy.phaseT + 1 = s.cpu.clock.gen.phase ∨
    (s.cpu.clock.gen.phase = s.cpu.clock.gen.tpclkOffAt + 7 ∧
      s.cpu.clock.gen.phase ≤ s.spy.phaseT + 1)
  copy : s.bus.state = .arb → 6 ≤ s.cpu.clock.gen.phase → s.cpu.vctl.useMdQ = s.inst.useMd

theorem watched_next (cycle : s.Cycle) (orderly : Orderly i s) (watched : s.Watched) :
    (s.next i).Watched := by
  have phases := PhaseGen.next_phase_cases cycle.clock.gen (s.cpu.hang (s.procIn i))
    (s.cpu.inst (s.procIn i)).ilong s.cpu.clock.speed
  have edge := phase_of_mclkEdge cycle.clock
  have first := phase_after_mclkEdge cycle.clock (s.procIn i)
  have low := cycle.clock.gen.read_low
  have high := cycle.clock.gen.read_high
  have moved := Busint.next_state i.bus s.cpu.mclkEdge s.cpu.memrq s.cpu.vctl.wrcyc s.bus
  have before : (s.next i).bus.state = .arb → s.cpu.mclkEdge = true ∨ s.bus.state = .arb := by
    intro arb
    simp only [Machine.next, moved] at arb
    cases state : s.bus.state <;> simp_all <;> grind -linarith
  have edgeEq : s.cpu.mclkEdge =
      (s.cpu.clock.gen.running && s.cpu.clock.gen.phase == 0 && s.cpu.clock.started) := by
    rw [mclkEdge, boundary_eq cycle.clock]
  have started := watched.started
  constructor
  · intro arb
    have here := before arb
    simp only [Machine.next, Processor.next, clockNext] at phases ⊢
    grind -linarith
  · intro arb
    have here := before arb
    have land := watched.land
    have twelve : ticks 60 - 3 = 3 := rfl
    simp only [Machine.next, Processor.next, clockNext, SpyRegs.next] at first ⊢
    grind -linarith
  · intro arb phase
    have still : s.cpu.mclkEdge = false := by
      have := fun e => (first e)
      simp only [Machine.next, Processor.next] at phase
      grind -linarith
    have arbBefore : s.bus.state = .arb := by
      have := before arb
      grind -linarith
    have up : i.nBoot = true := by
      have := orderly.flight
      simp only [Busint.inFlight, arbBefore] at this
      grind -linarith
    have later : 5 ≤ s.cpu.clock.gen.phase := by
      simp only [Machine.next, Processor.next, clockNext] at phase
      grind -linarith
    have unlanded : s.spy.landing s.cpu.mclkEdge = false := by
      have := watched.land arbBefore
      have three : ticks 60 - 3 = 3 := rfl
      simp only [SpyRegs.landing, still, three]
      grind -linarith
    have spy : (s.next i).spy.spy = s.spy.spy := by
      simp only [Machine.next, SpyRegs.next, unlanded, up]
      cases i.console <;> simp
    have regs := regs_kept still up
    simp only [inst, spy, regs, Inst.useMd, Inst.nopa, Inst.srcmd, Inst.groupB, Inst.irBit,
      Inst.irField]
    rfl

theorem hang_stands (cycle : s.Cycle) (watched : s.Watched)
    (hang : s.cpu.hang (s.procIn i) = true)
    (held : s.cpu.vctl.useMdQ = true ∨ s.cpu.clock.gen.wrap = true) :
    s.cpu.vctl.rdfinishT ≠ 0 ∨ s.bus.state = .granted ∨ s.bus.state = .ub ∨
      s.cpu.memackEdge (s.procIn i) = true := by
  simp only [Processor.hang, inst_procIn, Bool.and_eq_true, Bool.not_eq_true'] at hang
  obtain ⟨⟨useMd, reading⟩, unwaited⟩ := hang
  obtain counting | owed := cycle.reading reading
  · exact .inl counting
  obtain ⟨busy, fresh, -, -⟩ := cycle.owes owed
  have copy : s.bus.state = .arb → s.cpu.vctl.useMdQ = true := by
    intro arb
    obtain copied | wrap := held
    · exact copied
    · have low := cycle.clock.gen.read_low
      have late : 6 ≤ s.cpu.clock.gen.phase := by
        rw [PhaseGen.wrap_eq cycle.clock.gen] at wrap
        grind -linarith
      rw [watched.copy arb late, useMd]
  have grant : s.bus.state = .arb → (s.procIn i).nMemgrant = true := by
    intro arb
    simp [procIn, Busint.nMemgrant, arb]
  have line : s.bus.state = .acked → s.cpu.memackEdge (s.procIn i) = true := by
    intro acked
    simp [memackEdge_eq, Busint.acked, Busint.ackStanding, acked, memrq, busy, fresh]
  simp only [wait] at unwaited
  simp only [Machine.owed, Busint.inFlight] at owed
  grind -linarith

theorem rdfinishT_falls (cycle : s.Cycle) (counting : s.cpu.vctl.rdfinishT ≠ 0) :
    (s.next i).cpu.vctl.rdfinishT = s.cpu.vctl.rdfinishT - 1 ∧
      (s.cpu.vctl.rdfinishT = 1 → (s.next i).cpu.vctl.rdInProgress = false) := by
  have noEdge : s.cpu.memackEdge (s.procIn i) = false := by
    have := @owed_of_memackEdge i s
    have := cycle.owes
    grind -linarith
  have still : s.cpu.starts = false := by
    by_contra start
    simp only [starts, Bool.not_eq_false, Bool.and_eq_true] at start
    have := cycle.settled start.2
    have := phase_of_mclkEdge cycle.clock start.1
    grind -linarith
  simp only [Machine.next, Processor.next, vctlNext, noEdge, still]
  grind -linarith

theorem mfinishT_of_memackEdge (cycle : s.Cycle) (orderly : Orderly i s)
    (edge : s.cpu.memackEdge (s.procIn i) = true) :
    (s.next i).cpu.vctl.mfinishT = 2 ∧ (s.next i).cpu.vctl.memstart = false ∧
      (s.next i).cpu.vctl.nMemackQ = false := by
  have busy := (cycle.owes (owed_of_memackEdge edge).1).1
  have still := (busy_unprepared cycle busy).2.2
  have line : s.bus.acked i.bus s.cpu.memrq = true := by
    rw [memackEdge_eq, Bool.and_eq_true] at edge
    exact edge.1
  refine ⟨?_, busy_unprepared_next cycle orderly busy, by rw [nMemackQ_next, line]; rfl⟩
  rw [next_vctl]
  simp [vctlNext, still, edge, mfinishdT, ticks]

theorem mfinishT_second (cycle : s.Cycle) (cycleNext : (s.next i).Cycle)
    (count : s.cpu.vctl.mfinishT = 2)
    (unprepared : s.cpu.vctl.memstart = false) (taken : s.cpu.vctl.nMemackQ = false) :
    (s.next i).cpu.vctl.mfinishT = 1 ∧ (s.next i).cpu.starts = false := by
  have noEdge : s.cpu.memackEdge (s.procIn i) = false := by rw [memackEdge_eq, taken]; simp
  have still : s.cpu.starts = false := by simp [starts, unprepared]
  constructor
  · rw [next_vctl]
    simp [vctlNext, still, noEdge, count]
  · by_contra start
    simp only [starts, Bool.not_eq_false, Bool.and_eq_true] at start
    have phase := (phase_of_mclkEdge cycleNext.clock start.1).2
    have first := phase_after_mclkEdge cycle.clock (s.procIn i)
    rw [next_clock] at phase
    have prepared := start.2
    rw [next_vctl] at prepared
    simp only [vctlNext, cpuEdge, unprepared] at prepared
    grind -linarith

theorem mbusy_of_mfinishT (cycle : s.Cycle) (count : s.cpu.vctl.mfinishT = 1)
    (still : s.cpu.starts = false) : (s.next i).cpu.vctl.mbusy = false := by
  have noEdge : s.cpu.memackEdge (s.procIn i) = false := by
    have := @owed_of_memackEdge i s
    have := cycle.owes
    grind -linarith
  rw [next_vctl]
  simp [vctlNext, still, count, noEdge]

end

/-- The machine at every clock of a run whose steps are all orderly. -/
structure Run (s : Nat → Machine) (inputs : Nat → MachIn) : Prop where
  start : ∃ mems noAutoBoot, s 0 = reset mems noAutoBoot
  step : ∀ t, s (t + 1) = (s t).next (inputs t)
  orderly : ∀ t, Orderly (inputs t) (s t)

section

variable {s : Nat → Machine} {inputs : Nat → MachIn}

theorem Run.cycle (run : Run s inputs) (t : Nat) : (s t).Cycle := by
  induction t with
  | zero =>
    obtain ⟨mems, noAutoBoot, start⟩ := run.start
    exact start ▸ cycle_reset mems noAutoBoot
  | succ t ih => exact run.step t ▸ cycle_next ih (run.orderly t)

theorem Run.watched (run : Run s inputs) (t : Nat) : (s t).Watched := by
  induction t with
  | zero =>
    obtain ⟨mems, noAutoBoot, start⟩ := run.start
    rw [start]
    constructor <;> simp [reset, Busint.reset]
  | succ t ih => exact run.step t ▸ watched_next (run.cycle t) (run.orderly t) ih

theorem Run.bus (run : Run s inputs) : Busint.Runs (fun t => (s t).bus)
    (fun t => (inputs t).bus) (fun t => (s t).cpu.mclkEdge) (fun t => (s t).cpu.memrq)
    (fun t => (s t).cpu.vctl.wrcyc) := by
  constructor
  · obtain ⟨mems, noAutoBoot, start⟩ := run.start
    rw [start]
    constructor <;> simp [reset, Busint.reset, Busint.vcoHalfNs]
  · intro t
    simp only [run.step t, Machine.next]

/-- The slaves of a run. -/
def Slaves (s : Nat → Machine) (inputs : Nat → MachIn) : Prop :=
  Busint.Answers (fun t => (s t).bus) (fun t => (inputs t).bus) (fun t => (s t).cpu.memrq)

theorem Run.reading_ends (run : Run s inputs) {t : Nat}
    (counting : (s t).cpu.vctl.rdfinishT ≠ 0) :
    ∃ u, t ≤ u ∧ (s u).cpu.vctl.rdInProgress = false := by
  induction count : (s t).cpu.vctl.rdfinishT generalizing t with
  | zero => exact absurd count counting
  | succ left ih =>
    obtain ⟨falls, ends⟩ := rdfinishT_falls (i := inputs t) (run.cycle t) counting
    rw [← run.step t] at falls ends
    by_cases last : left = 0
    · exact ⟨t + 1, Nat.le_succ t, ends (by omega)⟩
    · obtain ⟨u, after, down⟩ := ih (t := t + 1) (by omega) (by omega)
      exact ⟨u, by omega, down⟩

theorem Run.edge_of_bus (run : Run s inputs) (slaves : Slaves s inputs) {t : Nat}
    (onBus : (s t).bus.state = .granted ∨ (s t).bus.state = .ub) :
    ∃ u, t ≤ u ∧ (s u).cpu.memackEdge ((s u).procIn (inputs u)) = true := by
  have fresh : ∀ u, (s u).bus.state = .granted ∨ (s u).bus.state = .ub →
      (s u).cpu.vctl.nMemackQ = true := by
    intro u state
    have owed : (s u).owed = true := by
      simp only [owed, Busint.inFlight]
      grind -linarith
    exact ((run.cycle u).owes owed).2.1
  obtain granted | onUnibus := onBus
  · obtain ⟨u, after, state, acked | ⟨due, free⟩⟩ := Busint.granted_ends run.bus slaves granted
    · exact ⟨u, after, by rw [memackEdge_eq, acked, fresh u (.inl state)]; rfl⟩
    · -- The timer ends it: the acknowledgment is the next tick's.
      by_cases line : (s u).bus.acked (inputs u).bus (s u).cpu.memrq = true
      · exact ⟨u, after, by rw [memackEdge_eq, line, fresh u (.inl state)]; rfl⟩
      have acked : (s (u + 1)).bus.state = .acked := by
        have moved := Busint.next_state (inputs u).bus (s u).cpu.mclkEdge (s u).cpu.memrq
          (s u).cpu.vctl.wrcyc (s u).bus
        rw [run.step u]
        simp only [Machine.next, moved, state, due, free]
        simp
      have copy : (s (u + 1)).cpu.vctl.nMemackQ = true := by
        rw [run.step u, nMemackQ_next]
        simpa using line
      have owes := (run.cycle (u + 1)).owes (by simp [owed, acked, copy])
      refine ⟨u + 1, by omega, ?_⟩
      rw [memackEdge_eq, copy]
      simp [Busint.acked, Busint.ackStanding, acked, memrq, owes.1]
  · obtain ⟨u, after, state, acked⟩ := Busint.ub_ends run.bus slaves onUnibus
    exact ⟨u, after, by rw [memackEdge_eq, acked, fresh u (.inr state)]; rfl⟩

theorem Run.counting_of_edge (run : Run s inputs) {t : Nat}
    (edge : (s t).cpu.memackEdge ((s t).procIn (inputs t)) = true) :
    (s (t + 1)).cpu.vctl.rdfinishT ≠ 0 := by
  have busy := ((run.cycle t).owes (owed_of_memackEdge edge).1).1
  have still := (busy_unprepared (run.cycle t) busy).2.2
  have twelve : rdFinishT = 12 := rfl
  rw [run.step t, next_vctl]
  simp [vctlNext, still, edge, twelve]

theorem Run.mclkEdge_or_held (run : Run s inputs) (t : Nat) :
    ∃ u, t ≤ u ∧ ((s u).cpu.mclkEdge = true ∨ ((s u).cpu.clock.gen.wrap = true ∧
      (s u).cpu.hang ((s u).procIn (inputs u)) = true)) := by
  refine Sync.met_of_falling_rank (fun u =>
    if (s u).cpu.clock.gen.running = false then 2000
    else (if (s u).cpu.clock.started then 0 else 1000) +
      (if (s u).cpu.clock.gen.phase = 0 then 0 else 60 - (s u).cpu.clock.gen.phase)) ?_
  intro u after missed
  have valid := (run.cycle u).clock
  have phases := PhaseGen.next_phase_cases valid.gen ((s u).cpu.hang ((s u).procIn (inputs u)))
    ((s u).cpu.inst ((s u).procIn (inputs u))).ilong (s u).cpu.clock.speed
  have low := valid.gen.read_low
  have high := valid.gen.read_high
  have bound := valid.gen.bound
  have boundary := boundary_eq valid
  simp only [mclkEdge, PhaseGen.wrap_eq valid.gen] at missed
  rw [run.step u]
  simp only [next_clock, clockNext]
  grind -linarith

theorem Run.mclkEdge_comes (run : Run s inputs) (slaves : Slaves s inputs) (t : Nat) :
    ∃ u, t ≤ u ∧ (s u).cpu.mclkEdge = true := by
  by_contra never
  push Not at never
  obtain ⟨u, afterU, edge | ⟨wrap, hang⟩⟩ := run.mclkEdge_or_held t
  · exact never u afterU edge
  have held : ∀ v, u ≤ v → (s v).cpu.clock.gen.wrap = true ∧
      (s v).cpu.hang ((s v).procIn (inputs v)) = true := by
    refine Sync.always_of_step ⟨wrap, hang⟩ ?_
    intro v afterV here
    have wraps : (s (v + 1)).cpu.clock.gen.wrap = true := by
      rw [run.step v, next_clock]
      exact wrap_of_hang (run.cycle v).clock here.1 here.2
    refine ⟨wraps, ?_⟩
    by_contra free
    have edge := mclkEdge_of_unheld (run.cycle (v + 1)).clock wraps (by simpa using free)
    exact never (v + 2) (by omega) (by rw [run.step (v + 1)]; exact edge)
  have reading : ∀ v, u ≤ v → (s v).cpu.vctl.rdInProgress = true := by
    intro v afterV
    have hang := (held v afterV).2
    simp only [Processor.hang, Bool.and_eq_true] at hang
    exact hang.1.2
  have endless : ∀ v, u ≤ v → (s v).cpu.vctl.rdfinishT ≠ 0 → False := by
    intro v afterV counting
    obtain ⟨w, afterW, down⟩ := run.reading_ends counting
    have up := reading w (by omega)
    simp [up] at down
  have unedged : ∀ v, u ≤ v → (s v).cpu.memackEdge ((s v).procIn (inputs v)) = true → False :=
    fun v afterV edge => endless (v + 1) (by omega) (run.counting_of_edge edge)
  have bus : (s u).bus.state = .granted ∨ (s u).bus.state = .ub → False := by
    intro onBus
    obtain ⟨v, afterV, edge⟩ := run.edge_of_bus slaves onBus
    exact unedged v afterV edge
  obtain counting | granted | ub | edge := hang_stands (run.cycle u) (run.watched u) hang (.inr wrap)
  · exact endless u (Nat.le_refl u) counting
  · exact bus (.inl granted)
  · exact bus (.inr ub)
  · exact unedged u (Nat.le_refl u) edge

/-- The arbitration's stages to come. -/
def stagesLeft (b : Busint) : Nat := if b.stage ∈ [1, 2, 3, 4] then 5 - b.stage else 0

theorem stagesLeft_cases (b : Busint) : 1 ≤ b.stage ∧ b.stage ≤ 4 ∧ stagesLeft b = 5 - b.stage ∨
    (b.stage = 0 ∨ 5 ≤ b.stage) ∧ stagesLeft b = 0 := by
  unfold stagesLeft
  split_ifs with inside
  · simp only [List.mem_cons, List.not_mem_nil, or_false] at inside
    omega
  · simp only [List.mem_cons, List.not_mem_nil, or_false, not_or] at inside
    omega

/-- A clock of an arbitration: its state, its stage and its time. -/
structure Arbitrates (mclk : Bool) (b n : Busint) : Prop where
  state : n.state = .ub ∨ n.state = .arb ∧ (mclk = true → 1 ≤ b.stage ∧ b.stage ≤ 4)
  stage : n.stage = b.stage ∨ n.stage = b.stage + 1 ∧ 1 ≤ b.stage ∧ b.stage ≤ 4
  moves : mclk = true → 1 ≤ b.stage → b.stage ≤ 4 → (b.stage = 3 → 20 ≤ b.arbT) → n.stage = b.stage + 1
  time : b.stage ≠ 2 → n.arbT = min (b.arbT + 1) 511 ∨ n.arbT = b.arbT + 1

theorem next_arb (i : BusIn) (mclk memrq wrcyc : Bool) {b : Busint} (arb : b.state = .arb) :
    Arbitrates mclk b (b.next i mclk memrq wrcyc) := by
  have select : Busint.ubSelectT = 20 := rfl
  have state := Busint.next_state i mclk memrq wrcyc b
  rw [arb] at state
  constructor
  · grind -linarith
  all_goals
    cases mclk <;> simp only [Busint.next, arb, Busint.taps, Busint.arbitrate, select] <;> grind -linarith

theorem Run.arb_ends (run : Run s inputs) (slaves : Slaves s inputs) {t : Nat}
    (arb : (s t).bus.state = .arb) : ∃ u, t ≤ u ∧ (s u).bus.state = .ub := by
  by_contra never
  push Not at never
  have step (u : Nat) (state : (s u).bus.state = .arb) :
      Arbitrates (s u).cpu.mclkEdge (s u).bus (s (u + 1)).bus := by
    rw [run.step u]
    exact next_arb _ _ _ _ state
  have stays : ∀ u, t ≤ u → (s u).bus.state = .arb := by
    refine Sync.always_of_step arb ?_
    intro u after state
    rcases (step u state).state with out | ⟨still, -⟩
    · exact absurd out (never (u + 1) (by omega))
    · exact still
  -- By induction on the stages left: every stage is left at some master clock edge.
  have endless : ∀ left u, t ≤ u → stagesLeft (s u).bus ≤ left → False := by
    intro left
    induction left with
    | zero =>
      intro u after few
      obtain ⟨v, afterV, edge⟩ := run.mclkEdge_comes slaves u
      have none_ : ∀ v, u ≤ v → stagesLeft (s v).bus ≤ 0 := by
        refine Sync.always_of_step few ?_
        intro w afterW before
        have stage := (step w (stays w (by omega))).stage
        have now := stagesLeft_cases (s w).bus
        have next := stagesLeft_cases (s (w + 1)).bus
        omega
      rcases (step v (stays v (by omega))).state with out | ⟨-, inside⟩
      · exact never (v + 1) (by omega) out
      · have stage := inside edge
        have done := none_ v afterV
        have now := stagesLeft_cases (s v).bus
        omega
    | succ left ih =>
      intro u after few
      have fixed : ∀ v, u ≤ v → (s v).bus.stage = (s u).bus.stage := by
        refine Sync.always_of_step rfl ?_
        intro v afterV same
        by_contra other
        refine ih (v + 1) (by omega) ?_
        have stage := (step v (stays v (by omega))).stage
        have now := stagesLeft_cases (s u).bus
        have next := stagesLeft_cases (s (v + 1)).bus
        omega
      obtain ⟨v, afterV, late⟩ : ∃ v, u ≤ v ∧ ((s u).bus.stage = 3 → 20 ≤ (s v).bus.arbT) := by
        refine Sync.met_of_falling_rank (fun v => 20 - (s v).bus.arbT) ?_
        intro v afterV short
        have time := (step v (stays v (by omega))).time
        have same := fixed v afterV
        omega
      have later : ∀ w, v ≤ w → ((s u).bus.stage = 3 → 20 ≤ (s w).bus.arbT) := by
        refine Sync.always_of_step late ?_
        intro w afterW before third
        have time := (step w (stays w (by omega))).time
        have same := fixed w (by omega)
        have before := before third
        omega
      obtain ⟨w, afterW, edge⟩ := run.mclkEdge_comes slaves v
      have stage := (step w (stays w (by omega))).moves edge
      have same := fixed w (by omega)
      have next := fixed (w + 1) (by omega)
      have time := later w afterW
      have inside := stays w (by omega)
      rcases (step w inside).state with out | ⟨-, within⟩
      · exact never (w + 1) (by omega) out
      · have place := within edge
        have moved := stage place.1 place.2 fun third => time (by omega)
        omega
  exact endless _ t (Nat.le_refl t) (Nat.le_refl _)

theorem Run.edge_of_owed (run : Run s inputs) (slaves : Slaves s inputs) {t : Nat}
    (owed : (s t).owed = true) :
    ∃ u, t ≤ u ∧ (s u).cpu.memackEdge ((s u).procIn (inputs u)) = true := by
  have owes := (run.cycle t).owes owed
  simp only [Machine.owed, Busint.inFlight, Bool.or_eq_true, Bool.and_eq_true, beq_iff_eq] at owed
  obtain ((arb | ub) | granted) | ⟨acked, copy⟩ := owed
  · obtain ⟨u, after, state⟩ := run.arb_ends slaves arb
    obtain ⟨v, afterV, edge⟩ := run.edge_of_bus slaves (.inr state)
    exact ⟨v, by omega, edge⟩
  · exact run.edge_of_bus slaves (.inr ub)
  · exact run.edge_of_bus slaves (.inl granted)
  · refine ⟨t, Nat.le_refl t, ?_⟩
    rw [memackEdge_eq, copy]
    simp [Busint.acked, Busint.ackStanding, acked, memrq, owes.1]

theorem Run.reading_falls (run : Run s inputs) (slaves : Slaves s inputs) (t : Nat) :
    ∃ u, t ≤ u ∧ (s u).cpu.vctl.rdInProgress = false := by
  by_cases reading : (s t).cpu.vctl.rdInProgress = true
  · obtain counting | owed := (run.cycle t).reading reading
    · exact run.reading_ends counting
    · obtain ⟨u, after, edge⟩ := run.edge_of_owed slaves owed
      obtain ⟨v, afterV, down⟩ := run.reading_ends (run.counting_of_edge edge)
      exact ⟨v, by omega, down⟩
  · exact ⟨t, Nat.le_refl t, by simpa using reading⟩

theorem Run.owed_next (run : Run s inputs) (t : Nat) : (s (t + 1)).owed =
    ((s t).grants || ((s t).owed && !(s t).cpu.memackEdge ((s t).procIn (inputs t)))) := by
  have cycle := run.cycle t
  have busy : (s t).owed = true → (s t).cpu.memrq = true := by
    intro owed
    simp [memrq, (cycle.owes owed).1]
  have fresh := fun owed => (cycle.owes owed).2.1
  rw [memackEdge_eq, run.step t, Machine.owed, nMemackQ_next]
  obtain h | h | h | h | h | h := state_next (s t) (inputs t) <;>
    simp only [Machine.owed, Machine.grants, Busint.inFlight] at h fresh busy ⊢ <;> grind -linarith

theorem grants_of_owed {s : Machine} (owed : s.owed = true) : s.grants = false := by
  simp only [Machine.owed, Machine.grants, Busint.inFlight] at owed ⊢
  grind -linarith

theorem Run.mbusy_of_edge (run : Run s inputs) {u : Nat}
    (edge : (s u).cpu.memackEdge ((s u).procIn (inputs u)) = true) :
    (s (u + 3)).cpu.vctl.mbusy = false := by
  have one := mfinishT_of_memackEdge (run.cycle u) (run.orderly u) edge
  rw [← run.step u] at one
  have two := mfinishT_second (i := inputs (u + 1)) (run.cycle (u + 1))
    (run.step (u + 1) ▸ run.cycle (u + 2)) one.1 one.2.1 one.2.2
  rw [← run.step (u + 1)] at two
  rw [run.step (u + 2)]
  exact mbusy_of_mfinishT (run.cycle (u + 2)) two.1 two.2

theorem Run.edge_of_grants (run : Run s inputs) (slaves : Slaves s inputs) {t : Nat}
    (grants : (s t).grants = true) :
    ∃ u, t < u ∧ (s u).cpu.memackEdge ((s u).procIn (inputs u)) = true ∧
      (∀ v, t < v → v ≤ u → (s v).cpu.vctl.mbusy = true) ∧
      (s (u + 3)).cpu.vctl.mbusy = false ∧
      ∀ v, t < v → (s v).cpu.memackEdge ((s v).procIn (inputs v)) = true →
        (∀ w, t < w → w < v → (s w).grants = false) → v = u := by
  have owed : (s (t + 1)).owed = true := by rw [run.owed_next t, grants]; rfl
  have comes := run.edge_of_owed slaves owed
  classical
  let u := Nat.find comes
  have after : t + 1 ≤ u := (Nat.find_spec comes).1
  have edge : (s u).cpu.memackEdge ((s u).procIn (inputs u)) = true := (Nat.find_spec comes).2
  have before : ∀ v, t + 1 ≤ v → v < u →
      (s v).cpu.memackEdge ((s v).procIn (inputs v)) = false := by
    intro v afterV early
    have := Nat.find_min comes early
    grind -linarith
  have owedUntil : ∀ v, t + 1 ≤ v → v ≤ u → (s v).owed = true := by
    refine Sync.always_of_step (fun _ => owed) ?_
    intro v afterV ih early
    rw [run.owed_next v, ih (by omega), before v afterV (by omega)]
    simp
  have paid : ∀ v, u + 1 ≤ v → (∀ w, t < w → w < v → (s w).grants = false) →
      (s v).owed = false := by
    refine Sync.always_of_step ?_ ?_
    · intro none
      rw [run.owed_next u, none u (by omega) (by omega), edge]
      simp
    · intro v afterV ih none
      rw [run.owed_next v, none v (by omega) (by omega),
        ih (fun w afterW early => none w afterW (by omega))]
      rfl
  refine ⟨u, after, edge, ?_, ?_, ?_⟩
  · intro v afterV early
    exact ((run.cycle v).owes (owedUntil v afterV early)).1
  · exact run.mbusy_of_edge edge
  · intro v afterV edgeV none
    by_contra apart
    obtain early | late := Nat.lt_or_gt_of_ne apart
    · rw [before v afterV early] at edgeV
      exact Bool.false_ne_true edgeV
    · have := paid v (by omega) none
      rw [(owed_of_memackEdge edgeV).1] at this
      exact Bool.false_ne_true this.symm

theorem Run.grants_of_edge (run : Run s inputs) {u : Nat}
    (edge : (s u).cpu.memackEdge ((s u).procIn (inputs u)) = true) :
    ∃ t, t < u ∧ (s t).grants = true ∧ ∀ v, t < v → v < u → (s v).grants = false ∧
      (s v).cpu.memackEdge ((s v).procIn (inputs v)) = false := by
  have owed := (owed_of_memackEdge edge).1
  clear edge
  induction u with
  | zero =>
    obtain ⟨mems, noAutoBoot, start⟩ := run.start
    rw [start] at owed
    simp [Machine.owed, Busint.inFlight, reset, Busint.reset] at owed
  | succ u ih =>
    rw [run.owed_next u, Bool.or_eq_true, Bool.and_eq_true, Bool.not_eq_true'] at owed
    obtain grants | ⟨before, unedged⟩ := owed
    · exact ⟨u, by omega, grants, fun v afterV early => by omega⟩
    · obtain ⟨t, after, grants, between⟩ := ih before
      refine ⟨t, by omega, grants, fun v afterV early => ?_⟩
      obtain lt | rfl : v < u ∨ v = u := by omega
      · exact between v afterV lt
      · exact ⟨grants_of_owed before, unedged⟩

end

/-- In every run of the processor on its bus interface whose steps are all orderly, whatever
the program, the console and the slaves do: a ring that `-HANG` holds waits for a countdown or
for an acknowledgment no master clock is needed for; READ IN PROGRESS falls and the master
clock comes again; and grants and acknowledgments come in pairs, each acknowledgment ending
the request granted last. -/
theorem ring_never_parked_for_ever (mems : Mems) (noAutoBoot : Bool) (inputs : Nat → MachIn)
    (orderly : Sync.Meets Orderly next (reset mems noAutoBoot) inputs)
    (slaves : Slaves (at_ mems noAutoBoot inputs) inputs) :
    let s := at_ mems noAutoBoot inputs
    let edge := fun t => (s t).cpu.memackEdge ((s t).procIn (inputs t))
    (∀ t, (s t).cpu.hang ((s t).procIn (inputs t)) = true →
      (s t).cpu.vctl.useMdQ = true ∨ (s t).cpu.clock.gen.wrap = true →
      (s t).cpu.vctl.rdfinishT ≠ 0 ∨ (s t).bus.state = .granted ∨ (s t).bus.state = .ub ∨
        edge t = true) ∧
    (∀ t, ∃ u, t ≤ u ∧ (s u).cpu.vctl.rdInProgress = false) ∧
    (∀ t, ∃ u, t ≤ u ∧ (s u).cpu.mclkEdge = true) ∧
    (∀ t, (s t).grants = true → ∃ u, t < u ∧ edge u = true ∧
      (∀ v, t < v → v ≤ u → (s v).cpu.vctl.mbusy = true) ∧
      (s (u + 3)).cpu.vctl.mbusy = false ∧
      ∀ v, t < v → edge v = true → (∀ w, t < w → w < v → (s w).grants = false) → v = u) ∧
    (∀ u, edge u = true → ∃ t, t < u ∧ (s t).grants = true ∧
      ∀ v, t < v → v < u → (s v).grants = false ∧ edge v = false) := by
  intro s edge
  have run : Run s inputs := ⟨⟨mems, noAutoBoot, rfl⟩, fun t => rfl, orderly⟩
  exact ⟨fun t hang held => hang_stands (run.cycle t) (run.watched t) hang held,
    run.reading_falls slaves, run.mclkEdge_comes slaves,
    fun t grants => run.edge_of_grants slaves grants, fun u here => run.grants_of_edge here⟩

/-- A read on the Xbus, answered at once, the console stopping the machine after it, and then a foreign
word asked for. -/
def readIn (t : Nat) : MachIn :=
  { quietIn false true with
      console := if t < 91 then none else some (3#4, 0#16)
      ubMdReq := decide (120 ≤ t), ubMdData := BitVec.allOnes 32 }

/-- The run of that read. -/
def readRun : Nat → Machine := at_ (bootMems [startRead]) false readIn

theorem readRun_stopped : ∀ t, 112 ≤ t → (readRun t).cpu.olord.srun = false ∧
    (readRun t).cpu.olord.sstep = false ∧ (readRun t).spy.spy.run = false ∧
    (readRun t).spy.spy.step = false := by
  refine Sync.always_of_step (by decide +kernel) ?_
  intro t after ih
  obtain ⟨srun, sstep, run, step⟩ := ih
  have console : (readIn t).console = some (3#4, 0#16) := by
    simp only [readIn]
    rw [if_neg (by omega)]
  have spy : (readRun (t + 1)).spy = (readRun t).spy.next (readRun t).cpu.mclkEdge true
      (readIn t).console := rfl
  have olord : (readRun (t + 1)).cpu.olord =
      (readRun t).cpu.olordNext ((readRun t).procIn (readIn t)) := rfl
  have high : ((readRun t).procIn (readIn t)).nBoot = true := rfl
  have lines : ((readRun t).procIn (readIn t)).spy = (readRun t).spy.spy := rfl
  rw [spy, olord]
  simp only [SpyRegs.next, console, olordNext, high, lines]
  split_ifs <;> simp_all [SpyRegs.land]

theorem readRun_orderly : Sync.Meets Orderly next (reset (bootMems [startRead]) false) readIn := by
  intro t
  constructor
  case single =>
    obtain early | late := Nat.lt_or_ge t 112
    · exact (by decide +kernel : ∀ t < 112, (readRun t).cpu.cpuEdge
        ((readRun t).procIn (readIn t)) = true →
        ((readRun t).cpu.inst ((readRun t).procIn (readIn t))).memop = true →
        (readRun t).cpu.vctl.mbusySync = false ∧ (readRun t).cpu.memgo = false) t early
    · intro edge
      have stopped := readRun_stopped t late
      have machrun : (readRun t).cpu.machrun ((readRun t).procIn (readIn t)) = false := by
        simp [Processor.machrun, stepping, stopped]
      have halted : (readRun t).cpu.cpuEdge ((readRun t).procIn (readIn t)) = false := by
        rw [cpuEdge, machrun, Bool.and_false]
      exact absurd (halted.symm.trans edge) Bool.false_ne_true
  all_goals
    intro low
    exact absurd low (by simp [readIn, quietIn])

/-- The rule at that run: its read is granted, and acknowledged once. -/
theorem ring_never_parked_read :
    (readRun 89).grants = true ∧ ∃ u, 89 < u ∧
      (readRun u).cpu.memackEdge ((readRun u).procIn (readIn u)) = true := by
  have slaves : Slaves readRun readIn := by
    refine ⟨?_, fun t timing same => rfl⟩
    intro t granted hold
    simp [readIn, quietIn] at hold
  have grants : (readRun 89).grants = true := by decide +kernel
  obtain ⟨-, -, -, paired, -⟩ := ring_never_parked_for_ever (bootMems [startRead]) false readIn
    readRun_orderly slaves
  obtain ⟨u, after, edge, -⟩ := paired 89 grants
  exact ⟨grants, u, after, edge⟩

theorem clock_at (mems : Mems) (noAutoBoot : Bool) (inputs : Nat → MachIn) (t : Nat) :
    (at_ mems noAutoBoot inputs t).cpu.clock.Valid := by
  induction t with
  | zero => exact (cycle_reset mems noAutoBoot).clock
  | succ t ih => exact valid_clockNext ih _

/-- A ring held with the cycle its read stands for arbitrated for, and MBUSY gone. -/
structure Stuck (s : Machine) : Prop where
  clock : s.cpu.clock.Valid
  wrap : s.cpu.clock.gen.wrap = true
  useMd : s.inst.useMd = true
  reading : s.cpu.vctl.rdInProgress = true
  count : s.cpu.vctl.rdfinishT = 0
  busy : s.cpu.vctl.mbusy = false
  sync : s.cpu.vctl.mbusySync = false
  prepared : s.cpu.vctl.memstart = false
  arb : s.bus.state = .arb

theorem Stuck.no_edge {s : Machine} (stuck : s.Stuck) : s.cpu.mclkEdge = false := by
  have wrap := stuck.wrap
  have edge := phase_of_mclkEdge stuck.clock
  rw [PhaseGen.wrap_eq stuck.clock.gen] at wrap
  grind -linarith

theorem stuck_next {s : Machine} {i : MachIn} (stuck : s.Stuck) (high : i.nBoot = true)
    (console : i.console = none) : (s.next i).Stuck := by
  have still := stuck.no_edge
  have unwaited : s.cpu.wait (s.procIn i) = false := by simp [wait, stuck.busy, stuck.sync]
  have hang : s.cpu.hang (s.procIn i) = true := by
    simp [hang, inst_procIn, stuck.useMd, stuck.reading, unwaited]
  have noEdge : s.cpu.memackEdge (s.procIn i) = false := by
    simp [memackEdge_eq, Busint.acked, Busint.ackStanding, stuck.arb]
  have spy : (s.next i).spy.spy = s.spy.spy := by
    simp [Machine.next, SpyRegs.next, high, console]
  have regs := regs_kept still high
  constructor
  case clock => exact valid_clockNext stuck.clock _
  case wrap => exact wrap_of_hang stuck.clock stuck.wrap hang
  case useMd =>
    have same : (s.next i).inst.useMd = s.inst.useMd := by
      simp only [inst, Inst.useMd, Inst.srcmd, Inst.groupB, Inst.irBit, Inst.irField, Inst.nopa,
        regs, spy]
    rw [same, stuck.useMd]
  case arb =>
    have moved := Busint.next_state i.bus s.cpu.mclkEdge s.cpu.memrq s.cpu.vctl.wrcyc s.bus
    rw [stuck.arb] at moved
    simp only [Machine.next, moved]
    simp [still]
  all_goals
    rw [next_vctl]
    simp [vctlNext, cpuEdge, starts, still, stuck.reading, stuck.count, stuck.busy, stuck.sync,
      stuck.prepared, noEdge]

/-- The bus is the Unibus and `-BOOT` is low for one tick of the arbitration. -/
def bootIn (t : Nat) : MachIn := { quietIn true false with nBoot := decide (t ≠ 100) }

/-- The run that `-BOOT` parks. -/
def bootRun : Nat → Machine := at_ (bootMems [startRead, 0#48, readMd]) false bootIn

theorem boot_stuck : ∀ t, 111 ≤ t → (bootRun t).Stuck := by
  refine Sync.always_of_step ?_ ?_
  · constructor
    case clock => exact clock_at _ _ _ _
    all_goals decide +kernel
  · intro t after ih
    exact stuck_next ih (by simp [bootIn]; omega) rfl

/-- `-HANG` is up with no countdown, and no acknowledgment on its way on a bus or here. -/
def unbacked (i : MachIn) (s : Machine) : Bool :=
  s.cpu.hang (s.procIn i) && s.cpu.vctl.rdfinishT == 0
    && !(s.bus.state == .granted || s.bus.state == .ub) && !s.cpu.memackEdge (s.procIn i)

/-- The ring can be parked for ever: by a `-BOOT` of one tick in an arbitration. And `-HANG`
can be up with nothing to end it in two runs without one: in the tick after the edge of a
Unibus read's grant, the held copy of USE.MD a tick behind, and for good after a second start
committed at the first one's own edge. -/
theorem ring_parked_by_boot :
    Slaves bootRun bootIn ∧
    (∀ t, 111 ≤ t → (bootRun t).cpu.mclkEdge = false ∧
      (bootRun t).cpu.vctl.rdInProgress = true) ∧
    unbacked (quietIn true false) (at_ (bootMems [startRead, 0#48, readMd]) false
      (fun _ => quietIn true false) 90) = true ∧
    unbacked (quietIn false true) (at_ (bootMems [startRead, startRead, readMd, readMd]) false
      (fun _ => quietIn false true) 119) = true := by
  refine ⟨⟨?_, ?_⟩, ?_, by decide +kernel, by decide +kernel⟩
  · intro t granted hold
    simp [bootIn, quietIn] at hold
  · intro t timing same
    rfl
  · intro t late
    exact ⟨(boot_stuck t late).no_edge, (boot_stuck t late).reading⟩

end Machine

end MuirFpga.Cadr
