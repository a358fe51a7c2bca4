import MuirFpga.Cadr.Boundary

/-!
# Where a map or dispatch write lands

A cycle that is not held writes the two maps and the dispatch memory at its boundary. One
that `-HANG` parks cannot: a read's word may move MD under it, and the memories' read ports
need two clear ticks before the boundary. Such a cycle writes two ticks before its pulse
ends if the acknowledgment has come, else one tick after, or two if MD moves at the pulse's
end. What makes each of these safe is how far the strobe is behind the acknowledgment, and
how long READ IN PROGRESS outlasts it.
-/

namespace MuirFpga.Cadr

namespace Machine

open Processor

/-- A step with `-BOOT` high that takes no foreign word two ticks before the last of a cycle
`-HANG` is up in, or while the ring is parked. -/
structure Calm (i : MachIn) (s : Machine) : Prop where
  high : i.nBoot = true
  foreign : (s.cpu.hang (s.procIn i) = true ∧
      s.cpu.clock.gen.phase + 1 = s.cpu.clock.gen.penultAt) ∨
    s.cpu.clock.gen.phase = s.cpu.clock.gen.parkAt → s.cpu.ubMdTake (s.procIn i) = false

section

variable {i : MachIn} {s : Machine}

/-- The interface has nothing to strobe before another grant. -/
def quietBus (s : Machine) : Prop :=
  s.bus.inFlight = false ∧ (s.bus.state = .acked → s.cpu.vctl.nMemackQ = false)

theorem loadmdEdge_of_quietBus (placed : s.Placed) (quiet : s.quietBus) :
    s.cpu.loadmdEdge (s.procIn i) = false := by
  have copies := placed.copies
  have line := @Busint.acked_state i.bus s.cpu.memrq s.bus
  rw [loadmdEdge_eq, strobes_eq]
  simp only [quietBus, Busint.inFlight] at quiet
  grind -linarith

theorem quietBus_next (still : s.cpu.mclkEdge = false) (quiet : s.quietBus) :
    (s.next i).quietBus := by
  have state := state_next s i
  simp only [quietBus, Machine.grants, Busint.inFlight, still] at quiet state ⊢
  rw [nMemackQ_next]
  grind -linarith

theorem mdWe_hung (foreign : s.cpu.ubMdTake (s.procIn i) = false) (still : s.cpu.mclkEdge = false)
    (unstrobed : s.cpu.loadmdEdge (s.procIn i) = false)
    (unheld : s.cpu.mdp.mdPending = false) : s.cpu.mdWe (s.procIn i) = false := by
  simp [mdWe, unstrobed, unheld, foreign, cpuEdge, still]

theorem md_of_unloaded (unloaded : s.cpu.mdWe (s.procIn i) = false) :
    (s.next i).cpu.mdp.md = s.cpu.mdp.md := by
  rw [next_mdp]
  simp only [mdWe] at unloaded
  simp only [mdNext]
  grind -linarith

/-- READ IN PROGRESS is up and not near its fall. -/
def farFromFall (left : Nat) (s : Machine) : Prop :=
  s.cpu.vctl.rdInProgress = true ∧ (s.cpu.vctl.rdfinishT = 0 ∨ left < s.cpu.vctl.rdfinishT)

theorem farFromFall_next {left : Nat} (few : left ≤ 10) (still : s.cpu.mclkEdge = false)
    (far : farFromFall (left + 1) s) : farFromFall left (s.next i) := by
  have twelve : rdFinishT = 12 := rfl
  simp only [farFromFall, next_vctl, vctlNext, starts, still] at far ⊢
  grind -linarith

end
/-- A run with `-BOOT` high and every step calm. -/
structure CalmRun (s : Nat → Machine) (inputs : Nat → MachIn) : Prop
    extends Unbooted s inputs where
  calm : ∀ t, Calm (inputs t) (s t)

section

variable {s : Nat → Machine} {inputs : Nat → MachIn} {b : Nat}

theorem CalmRun.unheld_of_hang (run : CalmRun s inputs) {t : Nat}
    (hang : (s t).cpu.hang ((s t).procIn (inputs t)) = true) :
    (s (t + 1)).cpu.mdp.mdPending = false := by
  rw [run.step t, next_mdp]
  simp [mdNext, hang]

/-- The early write is the tick before the last's. -/
def earlyAt (s : Nat → Machine) (inputs : Nat → MachIn) (t : Nat) : Bool :=
  (s t).cpu.mwEarly ((s t).procIn (inputs t))

/-- MD moves at the end of a tick. -/
def movesAt (s : Nat → Machine) (inputs : Nat → MachIn) (t : Nat) : Bool :=
  (s t).cpu.mdWe ((s t).procIn (inputs t))

/-- The pulse ends in a parked cycle whose write did not go early. -/
def parkedAt (s : Nat → Machine) (inputs : Nat → MachIn) (t : Nat) : Bool :=
  (s t).cpu.wpParked ((s t).procIn (inputs t))

/-- The maps and the dispatch memory are written. -/
def writesAt (s : Nat → Machine) (inputs : Nat → MachIn) (t : Nat) : Bool :=
  (s t).cpu.mw ((s t).procIn (inputs t))

/-- `-HANG` is up. -/
def hungAt (s : Nat → Machine) (inputs : Nat → MachIn) (t : Nat) : Bool :=
  (s t).cpu.hang ((s t).procIn (inputs t))

/-- MACHRUN. -/
def runsAt (s : Nat → Machine) (inputs : Nat → MachIn) (t : Nat) : Bool :=
  (s t).cpu.machrun ((s t).procIn (inputs t))

theorem CalmRun.last (run : CalmRun s inputs) (b : Nat) :
    pulseEnd s b = b + offAt s b + 7 ∧ 7 ≤ offAt s b :=
  ⟨rfl, (run.placed (b + 7)).clock.gen.read_low⟩

theorem CalmRun.far_of_late (run : CalmRun s inputs) (edge : (s b).cpu.boundary = true)
    (parked : Open s b (pulseEnd s b)) (runs : runsAt s inputs (pulseEnd s b) = true)
    (late : earlyAt s inputs (pulseEnd s b - 2) = false) :
    farFromFall 5 (s (pulseEnd s b - 1)) := by
  have offLow : 7 ≤ offAt s b := (run.placed (b + 7)).clock.gen.read_low
  obtain ⟨q, ends⟩ : ∃ q, pulseEnd s b = q + 2 := ⟨pulseEnd s b - 2, by simp only [pulseEnd]; omega⟩
  have qLate : b + 12 ≤ q := by simp only [pulseEnd] at ends; omega
  rw [ends] at parked runs late ⊢
  simp only [Nat.add_sub_cancel, Nat.reduceSubDiff] at late ⊢
  have hungLast : hungAt s inputs (q + 1) = true :=
    run.hang_of_open edge (by simp only [pulseEnd] at ends; omega) parked
  have hung : ∀ t, b + 6 ≤ t → t ≤ q + 1 → hungAt s inputs t = true := fun t low high =>
    run.hang_open edge low high (parked.mono (by omega)) hungLast
  have still := parked q (by omega) (by omega)
  have penult : (s q).cpu.clock.gen.penult = true := by
    rw [(run.penult_iff edge (by omega) (parked.mono (by omega))).1, ends]
    simp
  have runsQ : runsAt s inputs q = true := by
    rw [← runs]
    exact (run.machrun_open edge (by omega) (by omega) (parked.mono (by omega))).symm
  have reading : (s (q + 1)).cpu.vctl.rdInProgress = true := by
    have := hungLast
    simp only [hungAt, hang, Bool.and_eq_true] at this
    exact this.1.2
  have hungQ := hung q (by omega) (by omega)
  simp only [earlyAt, mwEarly, penult, rdHolds, runsAt, hungAt] at late runsQ hungQ
  have choice : (s q).cpu.vctl.rdfinishT ≤ 1 ∨ (s q).cpu.mdp.mdWeQ = true := by grind -linarith
  have twelve : rdFinishT = 12 := rfl
  -- An acknowledgment not yet come, or come in the last ticks, is far from its end.
  have short : (s q).cpu.vctl.rdfinishT ≤ 1 ∨ (s q).cpu.vctl.rdfinishT = 12 →
      farFromFall 5 (s (q + 1)) := by
    intro few
    refine ⟨reading, ?_⟩
    have before := reading
    rw [run.step q, next_vctl] at before ⊢
    simp only [vctlNext, starts, still] at before ⊢
    grind -linarith
  obtain few | moved := choice
  · exact short (.inl few)
  · obtain ⟨p, rfl⟩ : ∃ p, q = p + 1 := ⟨q - 1, by omega⟩
    have moves : (s p).cpu.mdWe ((s p).procIn (inputs p)) = true := by
      rw [run.step p] at moved
      exact moved
    have stillP := parked p (by omega) (by omega)
    have unheld := run.unheld_of_hang (hung (p - 1) (by omega) (by omega))
    rw [show p - 1 + 1 = p by omega] at unheld
    obtain ⟨taps, -, phase⟩ := run.phase_open edge (by omega : b + 7 ≤ p) (parked.mono (by omega))
    have strobe : (s p).cpu.loadmdEdge ((s p).procIn (inputs p)) = true := by
      by_contra none
      have at_ := (run.placed p).clock.gen.penult_at
      have third : (s p).cpu.clock.gen.phase + 1 = (s p).cpu.clock.gen.penultAt := by
        rw [at_, taps, phase]
        simp only [pulseEnd] at ends
        split <;> omega
      have := mdWe_hung ((run.calm p).foreign (.inl ⟨hung p (by omega) (by omega), third⟩)) stillP
        (by simpa using none) unheld
      grind -linarith
    have near : (s p).cpu.vctl.rdfinishT ≤ 2 := by
      by_contra counting
      have quiet := (run.placed p).spent (by omega)
        (by rw [phase]; simp only [pulseEnd] at ends; split <;> omega)
      have := loadmdEdge_of_quietBus (i := inputs p) (run.placed p) quiet
      grind -linarith
    refine short ?_
    rw [run.step p, next_vctl]
    simp only [vctlNext, starts, stillP]
    grind -linarith

theorem CalmRun.held_of_late (run : CalmRun s inputs) (edge : (s b).cpu.boundary = true)
    (parked : Open s b (pulseEnd s b)) (runs : runsAt s inputs (pulseEnd s b) = true)
    (late : earlyAt s inputs (pulseEnd s b - 2) = false) (n : Nat) (few : n ≤ 5) :
    Open s b (pulseEnd s b + n) ∧ hungAt s inputs (pulseEnd s b - 1 + n) = true ∧
      farFromFall (5 - n) (s (pulseEnd s b - 1 + n)) := by
  obtain ⟨ends, offLow⟩ := run.last b
  induction n with
  | zero =>
    exact ⟨parked, run.hang_of_open edge (by omega) (parked.mono (by omega)),
      run.far_of_late edge parked runs late⟩
  | succ n ih =>
    obtain ⟨opened, hung, far⟩ := ih (by omega)
    have still := opened (pulseEnd s b - 1 + n) (by omega) (by omega)
    have farNext : farFromFall (5 - (n + 1)) (s (pulseEnd s b - 1 + (n + 1))) := by
      rw [show pulseEnd s b - 1 + (n + 1) = pulseEnd s b - 1 + n + 1 by omega, run.step]
      exact farFromFall_next (by omega) still
        (by rw [show 5 - (n + 1) + 1 = 5 - n by omega]; exact far)
    have hungNext : hungAt s inputs (pulseEnd s b - 1 + (n + 1)) = true := by
      have reading := farNext.1
      have standing := run.standing edge (by omega : b + 6 ≤ pulseEnd s b - 1 + n)
        (opened.mono (by omega))
      rw [show pulseEnd s b - 1 + (n + 1) = pulseEnd s b - 1 + n + 1 by omega] at reading ⊢
      simp only [hungAt] at hung ⊢
      rw [run.step] at reading ⊢
      rw [hang_kept (run.placed _) (run.high _) still standing, reading, Bool.and_true]
      exact hung
    refine ⟨?_, hungNext, farNext⟩
    have := run.open_of_hang edge (by omega : b + offAt s b + 6 ≤ pulseEnd s b + n) opened
      (by rw [show pulseEnd s b + n = pulseEnd s b - 1 + (n + 1) by omega]; exact hungNext)
    exact this

theorem Unbooted.edge_of_reading (run : Unbooted s inputs) {t : Nat}
    (reading : (s t).cpu.vctl.rdInProgress = true) : ∃ v < t, (s v).cpu.mclkEdge = true := by
  induction t with
  | zero =>
    obtain ⟨mems, noAutoBoot, start⟩ := run.start
    rw [start] at reading
    exact absurd reading Bool.false_ne_true
  | succ t ih =>
    by_cases edge : (s t).cpu.mclkEdge = true
    · exact ⟨t, by omega, edge⟩
    · rw [run.step t, next_vctl] at reading
      have before : (s t).cpu.vctl.rdInProgress = true := by
        simp only [vctlNext, starts, edge] at reading
        grind -linarith
      obtain ⟨v, earlier, found⟩ := ih before
      exact ⟨v, by omega, found⟩

theorem CalmRun.parked_next (run : CalmRun s inputs) {t : Nat}
    (parked : parkedAt s inputs t = true) : (s (t + 1)).cpu.boundary = false := by
  simp only [parkedAt, wpParked, wp, Bool.and_eq_true, Bool.not_eq_true'] at parked
  obtain ⟨⟨⟨ends, runs⟩, low⟩, late⟩ := parked
  cases t with
  | zero =>
    obtain ⟨mems, noAutoBoot, start⟩ := run.start
    rw [start] at ends
    exact absurd ends Bool.false_ne_true
  | succ t =>
    -- The pulse ends with TPCLK low where `-HANG` has parked the ring.
    have clock := (run.placed t).clock
    have clockNext := (run.placed (t + 1)).clock
    have cases := PhaseGen.next_phase_cases clock.gen
      ((s t).cpu.hang ((s t).procIn (inputs t)))
      ((s t).cpu.inst ((s t).procIn (inputs t))).ilong (s t).cpu.clock.speed
    have pulse : (s t).cpu.clock.gen.nTpwp = false := by
      simp only [wpEnd, Bool.and_eq_true, Bool.not_eq_true'] at ends
      rw [run.step t] at ends
      exact ends.2
    have hung : hungAt s inputs t = true := by
      by_contra free
      have wp := clock.gen.wp
      have wpNext := clockNext.gen.wp
      have clk := clockNext.gen.clk
      simp only [wpEnd, Bool.and_eq_true] at ends
      rw [ends.1] at wpNext
      rw [low] at clk
      simp only [hungAt, Bool.not_eq_true] at free
      rw [run.step t, next_clock] at wpNext clk
      simp only [Processor.clockNext, free] at wpNext clk cases
      have short := clock.gen.read_low
      grind -linarith
    have reading : (s t).cpu.vctl.rdInProgress = true := by
      simp only [hungAt, hang, Bool.and_eq_true] at hung
      exact hung.1.2
    obtain ⟨v, before, edgeV⟩ := run.edge_of_reading reading
    have still : (s (t + 1)).cpu.mclkEdge = false := by
      by_contra edge
      have boundary : (s (t + 1)).cpu.mclkEdge = true := by simpa using edge
      simp [mclkEdge, Processor.boundary, low] at boundary
    obtain ⟨b, order, edgeB, opened⟩ := open_of_edge (s := s) edgeV (by omega : v ≤ t + 1)
    have apart : b ≠ t + 1 := by
      rintro rfl
      rw [still] at edgeB
      exact Bool.false_ne_true edgeB
    have edge := boundary_of_mclkEdge edgeB
    have here : t + 1 = pulseEnd s b := by
      have := run.wpEnd_iff edge (by omega : b < t + 1) (opened.mono (by omega))
      rw [ends] at this
      simpa using this.symm
    rw [here] at opened runs late
    have early : earlyAt s inputs (pulseEnd s b - 2) = false := by
      have offLow : 7 ≤ offAt s b := (run.placed (b + 7)).clock.gen.read_low
      obtain ⟨q, two⟩ : ∃ q, pulseEnd s b = q + 2 := ⟨pulseEnd s b - 2, by simp only [pulseEnd]; omega⟩
      rw [two] at late ⊢
      rw [run.step (q + 1)] at late
      simp only [Machine.next, Processor.next, mdNext] at late
      rw [run.step q] at late
      exact late
    obtain ⟨held, -, -⟩ := run.held_of_late edge opened runs early 1 (by omega)
    have later : b + 7 ≤ pulseEnd s b + 1 := by simp only [pulseEnd]; omega
    obtain ⟨-, -, phase⟩ := run.phase_open edge later held
    rw [here, boundary_eq (run.placed _).clock, phase]
    split <;> simp
    simp only [pulseEnd]
    omega

theorem CalmRun.still_of_early (run : CalmRun s inputs) (edge : (s b).cpu.boundary = true)
    (parked : Open s b (pulseEnd s b)) (early : earlyAt s inputs (pulseEnd s b - 2) = true)
    (n : Nat) (few : n ≤ 2) : (s (pulseEnd s b - 2 + n)).quietBus ∧
      movesAt s inputs (pulseEnd s b - 2 + n) = false := by
  obtain ⟨ends, offLow⟩ := run.last b
  have hungLast : hungAt s inputs (pulseEnd s b - 1) = true :=
    run.hang_of_open edge (by omega) (parked.mono (by omega))
  have hung : ∀ t, b + 6 ≤ t → t ≤ pulseEnd s b - 1 → hungAt s inputs t = true := fun t low high =>
    run.hang_open edge low high (parked.mono (by omega)) hungLast
  have quiet : (s (pulseEnd s b - 2 + n)).quietBus := by
    induction n with
    | zero =>
      obtain ⟨taps, -, phase⟩ := run.phase_open edge (by omega : b + 7 ≤ pulseEnd s b - 2)
        (parked.mono (by omega))
      simp only [earlyAt, mwEarly, rdHolds, Bool.and_eq_true, decide_eq_true_eq] at early
      rw [Nat.add_zero]
      refine (run.placed _).spent (by omega) ?_
      rw [phase, if_pos (by omega)]
      omega
    | succ n ih =>
      rw [show pulseEnd s b - 2 + (n + 1) = pulseEnd s b - 2 + n + 1 by omega, run.step]
      exact quietBus_next (parked _ (by omega) (by omega)) (ih (by omega))
  refine ⟨quiet, ?_⟩
  obtain ⟨p, here⟩ : ∃ p, pulseEnd s b - 2 + n = p + 1 := ⟨pulseEnd s b - 3 + n, by omega⟩
  have unheld := run.unheld_of_hang (hung p (by omega) (by omega))
  have still := parked (p + 1) (by omega) (by omega)
  rw [here] at quiet ⊢
  refine mdWe_hung ?_ still (loadmdEdge_of_quietBus (run.placed _) quiet) unheld
  obtain before | last : n ≤ 1 ∨ n = 2 := by omega
  · -- The processor itself refuses a foreign word in the last two ticks of a cycle it runs.
    have running : runsAt s inputs (p + 1) = true := by
      simp only [earlyAt, mwEarly, Bool.and_eq_true] at early
      rw [← early.1.1.2]
      exact run.machrun_open edge (by omega) (by omega) (parked.mono (by omega))
    have place := run.penult_iff edge (by omega : b < p + 1) (parked.mono (by omega))
    simp only [runsAt] at running
    simp only [ubMdTake, running, place]
    grind -linarith
  · obtain ⟨taps, -, phase⟩ := run.phase_open edge (by omega : b + 7 ≤ p + 1)
      (parked.mono (by omega))
    refine (run.calm _).foreign (.inr ?_)
    rw [phase, if_neg (by omega), (run.placed (p + 1)).clock.gen.park_at, taps]

theorem CalmRun.still_of_late (run : CalmRun s inputs) (edge : (s b).cpu.boundary = true)
    (parked : Open s b (pulseEnd s b)) (runs : runsAt s inputs (pulseEnd s b) = true)
    (late : earlyAt s inputs (pulseEnd s b - 2) = false)
    (moves : movesAt s inputs (pulseEnd s b) = true) :
    movesAt s inputs (pulseEnd s b + 1) = false := by
  have ends : pulseEnd s b = b + offAt s b + 7 := rfl
  have held := run.held_of_late edge parked runs late
  obtain ⟨-, hung, -⟩ := held 0 (by omega)
  obtain ⟨-, hungEnd, -⟩ := held 1 (by omega)
  obtain ⟨opened, -, -⟩ := held 2 (by omega)
  rw [show pulseEnd s b - 1 + 1 = pulseEnd s b by omega] at hungEnd
  have unheld := run.unheld_of_hang hung
  rw [show pulseEnd s b - 1 + 0 + 1 = pulseEnd s b by omega] at unheld
  have refused : ∀ t, pulseEnd s b ≤ t → t ≤ pulseEnd s b + 2 →
      (s t).cpu.ubMdTake ((s t).procIn (inputs t)) = false := by
    intro t after upTo
    obtain ⟨taps, -, phase⟩ := run.phase_open edge (by omega : b + 7 ≤ t) (opened.mono upTo)
    refine (run.calm t).foreign (.inr ?_)
    rw [phase, if_neg (by omega), (run.placed t).clock.gen.park_at, taps]
  have strobe : (s (pulseEnd s b)).cpu.loadmdEdge
      ((s (pulseEnd s b)).procIn (inputs (pulseEnd s b))) = true := by
    by_contra none
    have := mdWe_hung (refused _ (Nat.le_refl _) (by omega)) (parked _ (by omega) (Nat.le_refl _))
      (by simpa using none) unheld
    simp only [movesAt, this] at moves
    exact Bool.false_ne_true moves
  refine mdWe_hung (refused _ (by omega) (by omega)) (opened _ (by omega) (by omega)) ?_
    (run.unheld_of_hang hungEnd)
  have low : (s (pulseEnd s b + 1)).cpu.mdp.nLoadmdQ = false := by
    simp only [loadmdEdge, Bool.and_eq_true, Bool.not_eq_true'] at strobe
    rw [run.step]
    exact strobe.1.1
  simp [loadmdEdge, low]

theorem CalmRun.parked_eq (run : CalmRun s inputs) {e v : Nat} (spans : Spans s b e)
    (after : b ≤ v + 1) (upTo : v < e) (parked : parkedAt s inputs v = true) :
    v = pulseEnd s b := by
  obtain before | here | later : v + 1 = b ∨ v = b ∨ b < v := by omega
  · have next := run.parked_next parked
    rw [before, spans.first] at next
    exact absurd next.symm Bool.false_ne_true
  · have edge := spans.first
    subst here
    simp only [parkedAt, wpParked, Processor.boundary] at parked edge
    grind -linarith
  · have ends := run.wpEnd_iff spans.first later (spans.opened.mono (by omega))
    simp only [parkedAt, wpParked, wp, Bool.and_eq_true] at parked
    rw [parked.1.1.1] at ends
    simpa using ends.symm

theorem CalmRun.writesAt_iff (run : CalmRun s inputs) {e t : Nat} (spans : Spans s b e)
    (after : b < t) (upTo : t ≤ e) :
    writesAt s inputs t = true ↔ (t = pulseEnd s b ∧ t = e ∧ runsAt s inputs e = true) ∨
      (t + 2 = pulseEnd s b ∧ earlyAt s inputs t = true) ∨
      (t = pulseEnd s b + 1 ∧ parkedAt s inputs (pulseEnd s b) = true ∧
        movesAt s inputs (pulseEnd s b) = false) ∨
      (t = pulseEnd s b + 2 ∧ parkedAt s inputs (pulseEnd s b) = true ∧
        movesAt s inputs (pulseEnd s b) = true) := by
  have ends : pulseEnd s b = b + offAt s b + 7 := rfl
  have offLow : 7 ≤ offAt s b := (run.placed (b + 7)).clock.gen.read_low
  have last := run.pulseEnd_le spans
  have edge : (s t).cpu.clock.gen.tpclk = true → t = pulseEnd s b → t = e := by
    intro high here
    by_contra apart
    obtain ⟨taps, -, phase⟩ := run.phase_open spans.first (by omega : b + 7 ≤ t)
      (spans.opened.mono (by omega))
    have clk := (run.placed t).clock.gen.clk
    rw [if_neg (by omega)] at phase
    grind -linarith
  have high : t = e → (s t).cpu.clock.gen.tpclk = true := by
    rintro rfl
    have := spans.last
    simp only [mclkEdge, Processor.boundary] at this
    grind -linarith
  have pulse := run.wpEnd_iff spans.first after (spans.opened.mono (by omega))
  have boundary : (wp ((s t).procIn (inputs t)) (s t).cpu && (s t).cpu.clock.gen.tpclk) = true ↔
      t = pulseEnd s b ∧ t = e ∧ runsAt s inputs e = true := by
    simp only [wp, pulse, Bool.and_eq_true, decide_eq_true_eq]
    constructor
    · rintro ⟨⟨here, runs⟩, up⟩
      obtain rfl := edge up here
      exact ⟨here, rfl, runs⟩
    · rintro ⟨here, rfl, runs⟩
      exact ⟨⟨here, runs⟩, high rfl⟩
  have early : mwEarly ((s t).procIn (inputs t)) (s t).cpu = true ↔
      t + 2 = pulseEnd s b ∧ earlyAt s inputs t = true := by
    refine ⟨fun early => ⟨?_, early⟩, fun both => both.2⟩
    by_cases here : t = e
    · subst here
      have zero := (phase_of_mclkEdge (run.placed t).clock spans.last).2
      have at_ := (run.placed t).clock.gen.penult_at
      simp only [mwEarly, PhaseGen.penult, Bool.and_eq_true, beq_iff_eq] at early
      omega
    · have penult := (run.penult_iff spans.first after (spans.opened.mono (by omega))).1
      simp only [mwEarly, penult, Bool.and_eq_true, decide_eq_true_eq] at early
      exact early.1.1.1.1
  obtain ⟨u, rfl⟩ : ∃ u, t = u + 1 := ⟨t - 1, by omega⟩
  have late1 : (s (u + 1)).cpu.mwLate1 = true ↔ u + 1 = pulseEnd s b + 1 ∧
      parkedAt s inputs (pulseEnd s b) = true ∧ movesAt s inputs (pulseEnd s b) = false := by
    have holds : (s (u + 1)).cpu.mwLate1 = (parkedAt s inputs u && !movesAt s inputs u) := by
      rw [run.step u]
      rfl
    rw [holds, Bool.and_eq_true, Bool.not_eq_true']
    constructor
    · rintro ⟨parked, still⟩
      have here := run.parked_eq spans (by omega) (by omega) parked
      exact ⟨by omega, here ▸ parked, here ▸ still⟩
    · rintro ⟨here, parked, still⟩
      obtain rfl : u = pulseEnd s b := by omega
      exact ⟨parked, still⟩
  have late2 : (s (u + 1)).cpu.mdp.mwLate2Q = true ↔ u + 1 = pulseEnd s b + 2 ∧
      parkedAt s inputs (pulseEnd s b) = true ∧ movesAt s inputs (pulseEnd s b) = true := by
    cases u with
    | zero =>
      have none : (s 1).cpu.mdp.mwLate2Q = false := by
        obtain ⟨mems, noAutoBoot, start⟩ := run.start
        rw [run.step 0, start]
        rfl
      rw [Nat.zero_add, none]
      exact ⟨fun up => absurd up Bool.false_ne_true, fun here => absurd here.1 (by omega)⟩
    | succ u =>
      have holds : (s (u + 1 + 1)).cpu.mdp.mwLate2Q =
          (parkedAt s inputs u && movesAt s inputs u) := by
        rw [run.step (u + 1), run.step u]
        rfl
      rw [holds, Bool.and_eq_true]
      constructor
      · rintro ⟨parked, moves⟩
        have here := run.parked_eq spans (by omega) (by omega) parked
        exact ⟨by omega, here ▸ parked, here ▸ moves⟩
      · rintro ⟨here, parked, moves⟩
        obtain rfl : u = pulseEnd s b := by omega
        exact ⟨parked, moves⟩
  simp only [writesAt, mw, Bool.or_eq_true]
  rw [boundary, early, late1, late2]
  simp only [or_assoc]

/-- MD as a cycle's write is to have it: as the boundary finds it if the pulse ends there, else
with whatever the tick that sees the pulse's end loads. -/
def pulseMd (s : Nat → Machine) (b e : Nat) : BitVec 32 :=
  if pulseEnd s b = e then (s e).cpu.mdp.md else (s (pulseEnd s b + 1)).cpu.mdp.md

/-- A tick of a cycle, as the one its write is in. -/
structure Writes (s : Nat → Machine) (inputs : Nat → MachIn) (b e w : Nat) : Prop where
  after : b < w
  upTo : w ≤ e
  writes : writesAt s inputs w = true
  alone : ∀ t, b < t → t ≤ e → writesAt s inputs t = true → t = w
  place : (w = e ∧ w = pulseEnd s b) ∨ (pulseEnd s b < e ∧
    (w + 2 = pulseEnd s b ∨ w = pulseEnd s b + 1 ∨ w = pulseEnd s b + 2))
  word : (s w).cpu.mdp.md = pulseMd s b e
  before : movesAt s inputs (w - 1) = false
  early : w + 2 = pulseEnd s b → movesAt s inputs w = false
  clear : (s (w + 1)).cpu.mclkEdge = false ∧ (s (w + 2)).cpu.mclkEdge = false

theorem Unbooted.md_next (run : Unbooted s inputs) {t : Nat}
    (still : movesAt s inputs t = false) : (s (t + 1)).cpu.mdp.md = (s t).cpu.mdp.md := by
  rw [run.step t]
  exact md_of_unloaded still

theorem CalmRun.writes_unheld (run : CalmRun s inputs) {e : Nat} (spans : Spans s b e)
    (runs : runsAt s inputs e = true) (ends : pulseEnd s b = e) : Writes s inputs b e e := by
  obtain ⟨last, offLow⟩ := run.last b
  obtain ⟨p, rfl⟩ : ∃ p, e = p + 1 := ⟨e - 1, by omega⟩
  have opened : Open s b p := spans.opened
  -- A ring held at its last tick would have parked.
  have free : hungAt s inputs p = false := by
    by_contra hung
    have parked := run.open_of_hang spans.first (by omega) opened (by simpa [hungAt] using hung)
    have edge := spans.last
    rw [parked (p + 1) (by omega) (Nat.le_refl _)] at edge
    exact Bool.false_ne_true edge
  have late : earlyAt s inputs (p - 1) = false := by
    by_contra early
    obtain ⟨q, rfl⟩ : ∃ q, p = q + 1 := ⟨p - 1, by omega⟩
    simp only [Nat.add_sub_cancel, earlyAt, mwEarly, rdHolds, Bool.not_eq_false, Bool.and_eq_true,
      decide_eq_true_eq] at early
    have still := opened q (by omega) (by omega)
    have reading : (s (q + 1)).cpu.vctl.rdInProgress = true := by
      have before := early.1.1.1.2
      simp only [hang, Bool.and_eq_true] at before
      rw [run.step q, next_vctl]
      simp only [vctlNext, before.1.2]
      grind -linarith
    simp only [hungAt] at free
    rw [run.step q] at reading free
    rw [hang_kept (run.placed q) (run.high q) still
      (run.standing spans.first (by omega) (opened.mono (by omega))), reading,
      early.1.1.1.2] at free
    exact absurd free (by simp)
  constructor
  case after => exact spans.order
  case upTo => exact Nat.le_refl _
  case writes =>
    rw [run.writesAt_iff spans spans.order (Nat.le_refl _)]
    exact .inl ⟨ends.symm, rfl, runs⟩
  case alone =>
    intro t after upTo writes
    rw [run.writesAt_iff spans after upTo] at writes
    obtain ⟨-, here, -⟩ | ⟨two, early⟩ | ⟨later, -⟩ | ⟨later, -⟩ := writes
    · exact here
    · obtain rfl : t = p - 1 := by omega
      rw [late] at early
      exact absurd early Bool.false_ne_true
    · omega
    · omega
  case place => exact .inl ⟨rfl, ends.symm⟩
  case word => simp [pulseMd, ends]
  case before =>
    have still := opened p (by omega) (Nat.le_refl _)
    have final := (run.penult_iff spans.first (by omega : b < p) opened).2
    have running : runsAt s inputs p = true := by
      rw [← runs]
      exact (run.machrun_open spans.first (by omega) (by omega) spans.opened).symm
    simp only [hungAt, runsAt] at free running
    simp only [Nat.add_sub_cancel, movesAt, mdWe, ubMdTake, cpuEdge, still, free, running, final,
      ends]
    simp
  case early => omega
  case clear =>
    have first := run.open_first (boundary_of_mclkEdge spans.last)
    exact ⟨first _ (by omega) (by omega), first _ (by omega) (by omega)⟩

theorem CalmRun.writes_held (run : CalmRun s inputs) {e : Nat} (spans : Spans s b e)
    (runs : runsAt s inputs e = true) (held : pulseEnd s b < e) : ∃ w, Writes s inputs b e w := by
  obtain ⟨last, offLow⟩ := run.last b
  have parked : Open s b (pulseEnd s b) := spans.opened.mono (by omega)
  have runsEnd : runsAt s inputs (pulseEnd s b) = true := by
    rw [← runs]
    exact (run.machrun_open spans.first (by omega) (by omega) spans.opened).symm
  have word : pulseMd s b e = (s (pulseEnd s b + 1)).cpu.mdp.md := if_neg (by omega)
  obtain ⟨q, two⟩ : ∃ q, pulseEnd s b = q + 2 := ⟨pulseEnd s b - 2, by omega⟩
  have earlyQ2 : (s (pulseEnd s b)).cpu.mdp.mwEarlyQ2 = earlyAt s inputs q := by
    rw [two, run.step (q + 1), run.step q]
    rfl
  have isParked : parkedAt s inputs (pulseEnd s b) = !earlyAt s inputs q := by
    have ends := run.wpEnd_iff spans.first (by omega : b < pulseEnd s b) (parked.mono (by omega))
    obtain ⟨taps, -, phase⟩ := run.phase_open spans.first (by omega) parked
    have clk := (run.placed (pulseEnd s b)).clock.gen.clk
    rw [if_neg (by omega)] at phase
    simp only [runsAt] at runsEnd
    simp only [parkedAt, wpParked, wp, ends, runsEnd, earlyQ2, clk, taps, phase]
    simp
  by_cases early : earlyAt s inputs q = true
  · have quiet := fun n few => (run.still_of_early spans.first parked
      (by rw [two, Nat.add_sub_cancel]; exact early) n few).2
    simp only [two, Nat.add_sub_cancel] at quiet
    refine ⟨q, ?_⟩
    constructor
    case after => omega
    case upTo => omega
    case writes =>
      rw [run.writesAt_iff spans (by omega) (by omega)]
      exact .inr (.inl ⟨two.symm, early⟩)
    case alone =>
      intro t after upTo writes
      rw [run.writesAt_iff spans after upTo, isParked, early] at writes
      obtain ⟨atEnd, here, -⟩ | ⟨before, -⟩ | ⟨-, none, -⟩ | ⟨-, none, -⟩ := writes
      · omega
      · omega
      · exact absurd none (by simp)
      · exact absurd none (by simp)
    case place => exact .inr ⟨held, .inl two.symm⟩
    case word =>
      rw [word, two, run.md_next (quiet 2 (by omega)), run.md_next (quiet 1 (by omega)),
        run.md_next (quiet 0 (by omega)), Nat.add_zero]
    case before =>
      obtain ⟨p, rfl⟩ : ∃ p, q = p + 1 := ⟨q - 1, by omega⟩
      have copy : (s (p + 1)).cpu.mdp.mdWeQ = movesAt s inputs p := by
        rw [run.step p]
        rfl
      simp only [earlyAt, mwEarly, Bool.and_eq_true, Bool.not_eq_true'] at early
      rw [Nat.add_sub_cancel, ← copy]
      exact early.2
    case early => exact fun _ => quiet 0 (by omega)
    case clear => exact ⟨parked _ (by omega) (by omega), parked _ (by omega) (by omega)⟩
  · have late : earlyAt s inputs (pulseEnd s b - 2) = false := by
      rw [two, Nat.add_sub_cancel]
      simpa using early
    have opened := (run.held_of_late spans.first parked runsEnd late 5 (by omega)).1
    have long : pulseEnd s b + 5 < e := by
      by_contra short
      have edge := spans.last
      rw [opened e spans.order (by omega)] at edge
      exact Bool.false_ne_true edge
    have yes : parkedAt s inputs (pulseEnd s b) = true := by
      rw [isParked]
      simpa using early
    have alone : ∀ t, b < t → t ≤ e → writesAt s inputs t = true →
        t = pulseEnd s b + if movesAt s inputs (pulseEnd s b) then 2 else 1 := by
      intro t after upTo writes
      rw [run.writesAt_iff spans after upTo] at writes
      obtain ⟨atEnd, here, -⟩ | ⟨before, up⟩ | ⟨here, -, still⟩ | ⟨here, -, moves⟩ := writes
      · omega
      · obtain rfl : t = q := by omega
        exact absurd up early
      · rw [still]
        exact here
      · rw [moves]
        exact here
    by_cases moves : movesAt s inputs (pulseEnd s b) = true
    · have still := run.still_of_late spans.first parked runsEnd late moves
      rw [moves] at alone
      refine ⟨pulseEnd s b + 2, ?_⟩
      constructor
      case after => omega
      case upTo => omega
      case writes =>
        rw [run.writesAt_iff spans (by omega) (by omega)]
        exact .inr (.inr (.inr ⟨rfl, yes, moves⟩))
      case alone => exact alone
      case place => exact .inr ⟨held, .inr (.inr rfl)⟩
      case word => rw [word, run.md_next still]
      case before => exact still
      case early => omega
      case clear => exact ⟨opened _ (by omega) (by omega), opened _ (by omega) (by omega)⟩
    · have still : movesAt s inputs (pulseEnd s b) = false := by simpa using moves
      rw [still] at alone
      refine ⟨pulseEnd s b + 1, ?_⟩
      constructor
      case after => omega
      case upTo => omega
      case writes =>
        rw [run.writesAt_iff spans (by omega) (by omega)]
        exact .inr (.inr (.inl ⟨rfl, yes, still⟩))
      case alone => exact alone
      case place => exact .inr ⟨held, .inr (.inl rfl)⟩
      case word => exact word.symm
      case before => exact still
      case early => omega
      case clear => exact ⟨opened _ (by omega) (by omega), opened _ (by omega) (by omega)⟩

theorem CalmRun.writes_none (run : CalmRun s inputs) {e t : Nat} (spans : Spans s b e)
    (stopped : runsAt s inputs e = false) (after : b < t) (upTo : t ≤ e) :
    writesAt s inputs t = false := by
  obtain ⟨last, offLow⟩ := run.last b
  have ends := run.pulseEnd_le spans
  have stops : ∀ v, b + 6 ≤ v → v ≤ e → runsAt s inputs v = false := by
    intro v late early
    rw [← stopped]
    exact (run.machrun_open spans.first late early spans.opened).symm
  have unparked : parkedAt s inputs (pulseEnd s b) = false := by
    have := stops _ (by omega) ends
    simp only [runsAt] at this
    simp [parkedAt, wpParked, wp, this]
  by_contra writes
  rw [Bool.not_eq_false, run.writesAt_iff spans after upTo, unparked, stopped] at writes
  obtain ⟨-, -, none⟩ | ⟨two, early⟩ | ⟨-, none, -⟩ | ⟨-, none, -⟩ := writes
  · exact Bool.false_ne_true none
  · have := stops t (by omega) upTo
    simp only [runsAt] at this
    simp [earlyAt, mwEarly, this] at early
  · exact Bool.false_ne_true none
  · exact Bool.false_ne_true none

theorem mems_around {e w : Nat} (writes : Writes s inputs b e w)
    {Value : Type*} (memory : Mems → Value)
    (kept : ∀ t, writesAt s inputs t = false →
      memory (s (t + 1)).cpu.mems = memory (s t).cpu.mems) :
    memory (s w).cpu.mems = memory (s (b + 1)).cpu.mems ∧
      memory (s (e + 1)).cpu.mems = memory (s (w + 1)).cpu.mems := by
  have idle : ∀ t, b < t → t ≤ e → t ≠ w → writesAt s inputs t = false := by
    intro t after upTo apart
    by_contra up
    exact apart (writes.alone t after upTo (by simpa using up))
  have after := writes.after
  have upTo := writes.upTo
  constructor
  · exact Sync.stands_between (fun t => memory (s t).cpu.mems) (by omega)
      fun t first last => kept t (idle t (by omega) (by omega) (by omega))
  · exact Sync.stands_between (fun t => memory (s t).cpu.mems) (by omega)
      fun t first last => kept t (idle t (by omega) (by omega) (by omega))

/-- What a cycle's write leaves in the two maps and the dispatch memory, at the addresses and
with the words the tick of the write has, and what the cycle's own reads of them take at the
boundary. -/
structure Lands (s : Nat → Machine) (inputs : Nat → MachIn) (b e w : Nat) : Prop where
  first : (s (e + 1)).cpu.mems.l1Map =
    if (s e).cpu.regs.wmapd && (s e).cpu.mapL1En then
      Function.update (s (b + 1)).cpu.mems.l1Map
        (((pulseMd s b e).extractLsb' 8 16).extractLsb' 5 11) (s e).cpu.l1Store
    else (s (b + 1)).cpu.mems.l1Map
  second : (s (e + 1)).cpu.mems.l2Map =
    if (s e).cpu.regs.wmapd && (s e).cpu.mapL2En then
      Function.update (s (b + 1)).cpu.mems.l2Map
        ((if (s e).cpu.mapL1En then 0#5 else (s (b + 1)).cpu.mems.l1Map
            (((pulseMd s b e).extractLsb' 8 16).extractLsb' 5 11))
          ++ ((pulseMd s b e).extractLsb' 8 16).extractLsb' 0 5) (s e).cpu.l2Store
    else (s (b + 1)).cpu.mems.l2Map
  dispatch : (s (e + 1)).cpu.mems.dmem =
    if (s e).inst.dispwr then
      Function.update (s (b + 1)).cpu.mems.dmem ((s w).cpu.view ((s w).procIn (inputs w))).dadr
        (((s e).cpu.view ((s e).procIn (inputs e))).a.extractLsb' 0 17)
    else (s (b + 1)).cpu.mems.dmem
  readFirst : (s e).cpu.regs.wmapd = true → (s e).cpu.mapL1En = true →
    ((s e).cpu.view ((s e).procIn (inputs e))).vmap = (s e).cpu.l1Store
  readSecond : (s e).cpu.regs.wmapd = true → (s e).cpu.mapL2En = true →
    ((s e).cpu.view ((s e).procIn (inputs e))).vmo = (s e).cpu.l2Store
  readDispatch : (s e).inst.dispwr = true →
    ((s e).cpu.view ((s e).procIn (inputs e))).dramQ =
      ((s e).cpu.view ((s e).procIn (inputs e))).a.extractLsb' 0 17

theorem CalmRun.a_of_writes (run : CalmRun s inputs) {e w : Nat} (spans : Spans s b e)
    (writes : Writes s inputs b e w) :
    ((s w).cpu.view ((s w).procIn (inputs w))).a = ((s e).cpu.view ((s e).procIn (inputs e))).a := by
  obtain ⟨last, offLow⟩ := run.last b
  have after := writes.after
  have upTo := writes.upTo
  have place := writes.place
  have regs := run.regs_open after upTo spans.opened
  have latch : (s e).cpu.mems.amemQ = (s w).cpu.mems.amemQ := by
    refine Sync.stands_between (fun t => (s t).cpu.mems.amemQ) upTo fun t late early => ?_
    have low := run.tpclk_open spans.first (by omega : b + offAt s b < t)
      (spans.opened.mono (by omega))
    simp [run.step t, Machine.next, Processor.next, memsNext, low]
  simp only [view, Inst.aPass, Processor.inst, Inst.aadr, Inst.irField, regs, latch]
  rfl

theorem CalmRun.lands (run : CalmRun s inputs) {e w : Nat} (spans : Spans s b e)
    (writes : Writes s inputs b e w) : Lands s inputs b e w := by
  obtain ⟨last, offLow⟩ := run.last b
  have after := writes.after
  have upTo := writes.upTo
  have place := writes.place
  have regs := run.regs_open after upTo spans.opened
  have up : mw ((s w).procIn (inputs w)) (s w).cpu = true := writes.writes
  have mapped := (run.placed w).mapped
  -- A cycle prepared takes VMA for the map's address, and then neither write is enabled.
  have unprepared : (s e).cpu.regs.wmapd = true →
      (s e).cpu.mapL1En = true ∨ (s e).cpu.mapL2En = true →
      (s w).cpu.mapi = (pulseMd s b e).extractLsb' 8 16 := by
    intro wmapd enabled
    simp only [mapL1En, mapL2En, regs] at wmapd enabled mapped
    have low : (s w).cpu.vctl.memstart = false := by grind -linarith
    simp [mapi, low, writes.word]
  constructor
  case first =>
    obtain ⟨before, later⟩ := mems_around writes Mems.l1Map fun t idle => by
      simp only [writesAt] at idle
      simp [run.step t, Machine.next, Processor.next, memsNext, idle]
    rw [later, ← before, run.step w]
    simp only [Machine.next, Processor.next, memsNext, up, Bool.true_and, mapL1En, l1Store, regs]
    simp only [mapL1En, mapL2En, regs] at unprepared
    split
    · rename_i enabled
      simp only [Bool.and_eq_true] at enabled
      rw [adr0, unprepared enabled.1 (.inl enabled.2)]
    · rfl
  case second =>
    obtain ⟨before, later⟩ := mems_around writes Mems.l2Map fun t idle => by
      simp only [writesAt] at idle
      simp [run.step t, Machine.next, Processor.next, memsNext, idle]
    obtain ⟨firstBefore, -⟩ := mems_around writes Mems.l1Map fun t idle => by
      simp only [writesAt] at idle
      simp [run.step t, Machine.next, Processor.next, memsNext, idle]
    rw [later, ← before, ← firstBefore, run.step w]
    simp only [Machine.next, Processor.next, memsNext, up, Bool.true_and, mapL1En, mapL2En,
      l2Store, regs]
    simp only [mapL1En, mapL2En, regs] at unprepared
    split
    · rename_i enabled
      simp only [Bool.and_eq_true] at enabled
      rw [adr1W, adr1, adr0, unprepared enabled.1 (.inr enabled.2)]
      split <;> rfl
    · rfl
  case dispatch =>
    obtain ⟨before, later⟩ := mems_around writes Mems.dmem fun t idle => by
      simp only [writesAt] at idle
      simp [run.step t, Machine.next, Processor.next, memsNext, idle]
    have inst : (s e).inst = (s w).inst := run.inst_open spans.first (by omega) upTo spans.opened
    rw [later, ← before, run.step w, inst]
    simp only [Machine.next, Processor.next, memsNext, up, Bool.true_and]
    rw [run.a_of_writes spans writes]
    rfl
  case readFirst =>
    intro wmapd enabled
    simp [view, vmap, wmapd, enabled]
  case readSecond =>
    intro wmapd enabled
    simp [view, vmo, wmapd, enabled]
  case readDispatch =>
    intro dispwr
    have same : ((s e).cpu.view ((s e).procIn (inputs e))).dispwr = (s e).inst.dispwr := rfl
    simp [View.dramQ, same, dispwr]

end

/-- Every microcycle of a calm run: one that ends in a cpu edge writes the maps and the
dispatch memory in one of its ticks, where `Lands` says, and any other writes them in none. -/
theorem map_write_lands_once (mems : Mems) (noAutoBoot : Bool) (inputs : Nat → MachIn)
    (calm : Sync.Meets Calm next (reset mems noAutoBoot) inputs) (b e : Nat)
    (spans : Spans (at_ mems noAutoBoot inputs) b e) :
    (((at_ mems noAutoBoot inputs e).cpu.cpuEdge
        ((at_ mems noAutoBoot inputs e).procIn (inputs e)) = true →
      ∃ w, Writes (at_ mems noAutoBoot inputs) inputs b e w ∧
        Lands (at_ mems noAutoBoot inputs) inputs b e w) ∧
    ((at_ mems noAutoBoot inputs e).cpu.cpuEdge
        ((at_ mems noAutoBoot inputs e).procIn (inputs e)) = false →
      ∀ t, b < t → t ≤ e → writesAt (at_ mems noAutoBoot inputs) inputs t = false)) := by
  have run : CalmRun (at_ mems noAutoBoot inputs) inputs :=
    { start := ⟨mems, noAutoBoot, rfl⟩, step := fun _ => rfl, high := fun t => (calm t).high,
      calm := calm }
  have edge := spans.last
  simp only [cpuEdge, edge, Bool.true_and]
  constructor
  · intro runs
    obtain ends | held := Nat.eq_or_lt_of_le (run.pulseEnd_le spans)
    · have writes := run.writes_unheld spans runs ends
      exact ⟨e, writes, run.lands spans writes⟩
    · obtain ⟨w, writes⟩ := run.writes_held spans runs held
      exact ⟨w, writes, run.lands spans writes⟩
  · intro stopped t after upTo
    exact run.writes_none spans stopped after upTo

/-- The instruction that loads VMA with ones and writes the map. -/
def writeMap : BitVec 48 := 0x981078#48

/-- A dispatch write that takes its address off MD. -/
def dispWrite : BitVec 48 := 0x1000a8000800#48

/-- A tick whose slaves answer at once, with a word of ones. -/
def onesIn (_ : Nat) : MachIn := { quietIn false true with rdata := BitVec.allOnes 32 }

/-- A read, a map write, and an instruction that waits for the read's word. -/
def parkRun : Nat → Machine := at_ (bootMems [startRead, writeMap, readMd]) false onesIn

/-- The rule at the cycle that waits: it is parked, its write goes early, and the first level's
entry is at the address of the word strobed in it. -/
theorem map_write_lands_parked : Spans parkRun 89 117 ∧
    ∃ w, Writes parkRun onesIn 89 117 w ∧ (parkRun 118).cpu.mems.l1Map =
      Function.update (parkRun 90).cpu.mems.l1Map
        (((pulseMd parkRun 89 117).extractLsb' 8 16).extractLsb' 5 11)
        (parkRun 117).cpu.l1Store := by
  have calm : Sync.Meets Calm next (reset (bootMems [startRead, writeMap, readMd]) false)
      onesIn := fun t => ⟨rfl, fun _ => rfl⟩
  have spans : Spans parkRun 89 117 := by
    refine ⟨by decide, by decide +kernel, by decide +kernel, ?_⟩
    intro v after upTo
    exact (by decide +kernel : ∀ v < 117, 89 < v → (parkRun v).cpu.mclkEdge = false) v
      (by omega) after
  obtain ⟨w, writes, lands⟩ : ∃ w, Writes parkRun onesIn 89 117 w ∧ Lands parkRun onesIn 89 117 w :=
    (map_write_lands_once (bootMems [startRead, writeMap, readMd]) false onesIn calm 89 117
      spans).1 (by decide +kernel)
  refine ⟨spans, w, writes, ?_⟩
  have standing : ((parkRun 117).cpu.regs.wmapd && (parkRun 117).cpu.mapL1En) = true := by
    decide +kernel
  have first := lands.first
  rw [if_pos standing] at first
  exact first

/-- A strobe in the tick of the boundary itself. -/
def strobeIn (t : Nat) : MachIn :=
  { quietIn false (decide (105 ≤ t)) with rdata := BitVec.allOnes 32 }

/-- A read whose word is strobed at the boundary of the cycle a map write stands in. -/
def strobeRun : Nat → Machine := at_ (bootMems [startRead, writeMap]) false strobeIn

/-- A foreign word asked for two ticks before the last of a cycle, the read acknowledged. -/
def latchedIn (t : Nat) : MachIn :=
  { quietIn false (decide (115 ≤ t)) with
    ubMdReq := decide (t = 130), ubMdData := BitVec.allOnes 32 }

/-- A dispatch write that waits for a read, and a foreign word taken in its cycle. -/
def latchedRun : Nat → Machine := at_ (bootMems [startRead, 0#48, 0#48, dispWrite]) false latchedIn

/-- A machine stopped by the console, and one tick of `-BOOT` past the end of the pulse. -/
def bootedIn (t : Nat) : MachIn :=
  { quietIn false true with
    nBoot := decide (t ≠ 113), console := if t < 69 then none else some (3#4, 0#16) }

/-- A map write standing in a cycle that is parked and stopped. -/
def bootedRun : Nat → Machine := at_ (bootMems [startRead, writeMap, readMd]) false bootedIn

/-- Three writes out of place: a strobe at the boundary a pulse ends on is not in the address
the map is written at; a foreign word taken two ticks before the last of a held cycle puts the
write one tick before the boundary; and a `-BOOT` that starts a parked machine has its boundary
taken as a cpu edge with no tick of the write in the cycle. -/
theorem map_write_misplaced :
    ((strobeRun 89).cpu.mclkEdge = true ∧ pulseEnd strobeRun 89 = 111 ∧
      (strobeRun 111).cpu.cpuEdge ((strobeRun 111).procIn (strobeIn 111)) = true ∧
      (strobeRun 111).cpu.regs.wmapd = true ∧ (strobeRun 111).cpu.mapL1En = true ∧
      (strobeRun 111).cpu.loadmdEdge ((strobeRun 111).procIn (strobeIn 111)) = true ∧
      (strobeRun 112).cpu.mdp.md = BitVec.allOnes 32 ∧
      (strobeRun 112).cpu.mems.l1Map (BitVec.allOnes 11) ≠ (strobeRun 111).cpu.l1Store) ∧
    ((latchedRun 111).cpu.mclkEdge = true ∧
      (latchedRun 130).cpu.ubMdTake ((latchedRun 130).procIn (latchedIn 130)) = true ∧
      (latchedRun 134).inst.dispwr = true ∧ writesAt latchedRun latchedIn 134 = true ∧
      (latchedRun 135).cpu.cpuEdge ((latchedRun 135).procIn (latchedIn 135)) = true) ∧
    ((bootedRun 89).cpu.mclkEdge = true ∧ (bootedRun 117).cpu.regs.wmapd = true ∧
      (bootedRun 117).cpu.mapL1En = true ∧
      (bootedRun 117).cpu.cpuEdge ((bootedRun 117).procIn (bootedIn 117)) = true ∧
      ∀ t < 118, 89 < t → (t ≠ 117 → (bootedRun t).cpu.mclkEdge = false) ∧
        writesAt bootedRun bootedIn t = false) := by
  decide +kernel

end Machine

end MuirFpga.Cadr
