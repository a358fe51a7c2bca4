import MuirFpga.Cadr.Microcycle

/-!
# The ring's invariant

What the generator's outputs say about its phase, and what the processor's copies of them
say. Every instant of a microcycle is then an inequality between the phase and the taps: the
boundary is phase zero, the shortest cycle has fourteen ticks, and the end of the write pulse
is the tick after the last.
-/

namespace MuirFpga.Cadr

namespace PhaseGen

/-- The taps stand off one read phase, and the outputs are what the phase makes them. -/
structure Valid (g : PhaseGen) : Prop where
  read_low : 7 ≤ g.tpclkOffAt
  read_high : g.tpclkOffAt ≤ 15
  wp_on : g.wpOnAt = g.tpclkOffAt + 3
  wpiram_off : g.wpiramOffAt = g.tpclkOffAt + 5
  wrap_at : g.wrapAt = g.tpclkOffAt + 6
  park_at : g.parkAt = g.tpclkOffAt + 7
  penult_at : g.penultAt = g.tpclkOffAt + 5
  bound : g.phase ≤ g.tpclkOffAt + 7
  still : g.running = false → g.phase = 0
  clk : g.tpclk = (g.running && decide (g.phase ≤ g.tpclkOffAt))
  wp : g.nTpwp = !decide (g.tpclkOffAt + 4 ≤ g.phase ∧ g.phase ≤ g.tpclkOffAt + 6)
  wpiram : g.nTpwpiram = !decide (g.tpclkOffAt + 1 ≤ g.phase ∧ g.phase ≤ g.tpclkOffAt + 5)

theorem readSel_bounds (speed : BitVec 2) (ilong : Bool) :
    8 ≤ readSel speed ilong ∧ readSel speed ilong ≤ 16 := by
  unfold readSel
  cases ilong <;> simp only [ticks] <;> split_ifs <;> omega

theorem valid_reset : reset.Valid := by
  constructor <;> decide

theorem wrap_eq {g : PhaseGen} (valid : g.Valid) :
    g.wrap = decide (g.tpclkOffAt + 6 ≤ g.phase) := by
  have bound := valid.bound
  simp only [wrap, valid.wrap_at, valid.park_at]
  grind -linarith

theorem next_phase_cases {g : PhaseGen} (valid : g.Valid) (hang ilong : Bool)
    (speed : BitVec 2) :
    (g.next hang ilong speed).running = true ∧
    ((g.running = false ∧ (g.next hang ilong speed).phase = 0 ∧
        (g.next hang ilong speed).tpclkOffAt = g.tpclkOffAt) ∨
      (g.running = true ∧ g.phase < g.tpclkOffAt + 6 ∧
        (g.next hang ilong speed).phase = g.phase + 1 ∧
        (g.phase ≠ 6 → (g.next hang ilong speed).tpclkOffAt = g.tpclkOffAt)) ∨
      (g.running = true ∧ g.tpclkOffAt + 6 ≤ g.phase ∧
        (g.next hang ilong speed).tpclkOffAt = g.tpclkOffAt ∧
        (g.next hang ilong speed).phase = if hang then g.tpclkOffAt + 7 else 0)) := by
  have whether := wrap_eq valid
  obtain ⟨low, high, -, -, wrapAt, parkAt, -, bound, -, -, -, -⟩ := valid
  cases running : g.running with
  | false => simp [next, running]
  | true =>
    by_cases before : g.phase < g.tpclkOffAt + 6
    · have unwrapped : g.wrap = false := whether.trans (decide_eq_false (Nat.not_le.mpr before))
      have phase : (g.next hang ilong speed).phase = g.phase + 1 := by
        simp [next, running, phaseNext, unwrapped]
      have taps : g.phase ≠ 6 → (g.next hang ilong speed).tpclkOffAt = g.tpclkOffAt := by
        intro apart
        simp [next, running, ticks, apart]
      have runs : (g.next hang ilong speed).running = true := by
        simp only [next, running, Bool.not_true, Bool.false_eq_true, if_false]
        split_ifs <;> simpa [withTaps] using running
      exact ⟨runs, .inr (.inl ⟨rfl, before, phase, taps⟩)⟩
    · have wrapped : g.wrap = true := whether.trans (decide_eq_true (Nat.not_lt.mp before))
      have apart : g.phase ≠ 6 := by omega
      have taps : (g.next hang ilong speed).tpclkOffAt = g.tpclkOffAt := by
        simp [next, running, ticks, apart]
      have phase : (g.next hang ilong speed).phase = if hang then g.tpclkOffAt + 7 else 0 := by
        simp [next, running, phaseNext, wrapped, parkAt]
      have after : g.tpclkOffAt + 6 ≤ g.phase := by omega
      have runs : (g.next hang ilong speed).running = true := by
        simp [next, running, ticks, apart]
      exact ⟨runs, .inr (.inr ⟨rfl, after, taps, phase⟩)⟩

theorem clk_step {p off place : Nat}
    (moves : place = p + 1 ∧ p < off + 6 ∨ (place = 0 ∨ place = off + 7) ∧ off + 6 ≤ p) :
    (if p = off then false else if place = 0 then true else decide (p ≤ off)) =
      decide (place ≤ off) := by
  split_ifs
  · exact (decide_eq_false (by omega)).symm
  · exact (decide_eq_true (by omega)).symm
  · exact decide_eq_decide.mpr (by omega)

theorem wp_step {p off place : Nat} {wrapped : Bool} (wraps : wrapped = decide (off + 6 ≤ p))
    (moves : place = p + 1 ∧ p < off + 6 ∨ (place = 0 ∨ place = off + 7) ∧ off + 6 ≤ p) :
    (if p = off + 3 then false else if wrapped then true
        else !decide (off + 4 ≤ p ∧ p ≤ off + 6)) = !decide (off + 4 ≤ place ∧ place ≤ off + 6) := by
  rw [wraps]
  simp only [decide_eq_true_eq]
  split_ifs
  · exact (congrArg (!·) (decide_eq_true (by omega))).symm
  · exact (congrArg (!·) (decide_eq_false (by omega))).symm
  · exact congrArg (!·) (decide_eq_decide.mpr (by omega))

theorem wpiram_step {p off place : Nat}
    (moves : place = p + 1 ∧ p < off + 6 ∨ (place = 0 ∨ place = off + 7) ∧ off + 6 ≤ p) :
    (if p = off + 5 then true else if p = off then false
        else !decide (off + 1 ≤ p ∧ p ≤ off + 5)) = !decide (off + 1 ≤ place ∧ place ≤ off + 5) := by
  split_ifs
  · exact (congrArg (!·) (decide_eq_false (by omega))).symm
  · exact (congrArg (!·) (decide_eq_true (by omega))).symm
  · exact congrArg (!·) (decide_eq_decide.mpr (by omega))

theorem valid_next {g : PhaseGen} (valid : g.Valid) (hang ilong : Bool) (speed : BitVec 2) :
    (g.next hang ilong speed).Valid := by
  have whether := wrap_eq valid
  obtain ⟨low, high, wpOn, wpiramOff, wrapAt, parkAt, penultAt, bound, still, clk, wp, wpiram⟩ :=
    valid
  unfold next
  cases running : g.running with
  | false =>
    rw [still running] at wp wpiram
    exact ⟨low, high, wpOn, wpiramOff, wrapAt, parkAt, penultAt, Nat.zero_le _, fun _ => rfl,
      (decide_eq_true (Nat.zero_le g.tpclkOffAt)).symm, wp, wpiram⟩
  | true =>
    rw [running, Bool.true_and] at clk
    have onward (unwrapped : g.wrap = false) : g.phaseNext hang = g.phase + 1 := by
      unfold phaseNext
      rw [unwrapped]
      rfl
    by_cases selects : g.phase = 6
    · -- The taps move at this tick, before any of them is reached.
      obtain ⟨least, most⟩ := readSel_bounds speed ilong
      have unwrapped : g.wrap = false := whether.trans (decide_eq_false (by omega))
      have next := onward unwrapped
      rw [selects] at next clk wp wpiram
      rw [Bool.not_true, if_neg Bool.false_ne_true, selects, next, clk, wp, wpiram, unwrapped, wpOn, wpiramOff]
      generalize readSel speed ilong = read at least most
      clear whether unwrapped next clk wp wpiram onward
      unfold withTaps
      have tick : ticks 65 - 1 = 6 ∧ ticks 30 = 3 ∧ ticks 45 = 5 ∧ ticks 60 = 6 := by decide
      rw [tick.1, tick.2.1, tick.2.2.1, tick.2.2.2, if_pos rfl]
      refine ⟨?_, ?_, ?_, ?_, ?_, ?_, ?_, ?_, fun off => absurd (running.symm.trans off) (by decide), ?_, ?_, ?_⟩
      all_goals dsimp only
      case refine_9 =>
        rw [if_neg (by omega), if_neg (by omega), decide_eq_true (by omega : 6 ≤ g.tpclkOffAt), running, Bool.true_and]
        exact (decide_eq_true (by omega)).symm
      case refine_10 =>
        rw [if_neg (by omega), if_neg Bool.false_ne_true]
        exact congrArg (!·) (decide_eq_decide.mpr (by omega))
      case refine_11 =>
        rw [if_neg (by omega), if_neg (by omega)]
        exact congrArg (!·) (decide_eq_decide.mpr (by omega))
      all_goals omega
    · have apart : ¬ g.phase = ticks 65 - 1 := selects
      rw [Bool.not_true, if_neg Bool.false_ne_true, if_neg apart, clk, wp, wpiram, wpOn, wpiramOff]
      have moves : g.phaseNext hang = g.phase + 1 ∧ g.phase < g.tpclkOffAt + 6 ∨
          (g.phaseNext hang = 0 ∨ g.phaseNext hang = g.tpclkOffAt + 7) ∧ g.tpclkOffAt + 6 ≤ g.phase := by
        by_cases wrapped : g.tpclkOffAt + 6 ≤ g.phase
        · refine .inr ⟨?_, wrapped⟩
          unfold phaseNext
          rw [whether, decide_eq_true wrapped, parkAt]
          cases hang
          · exact .inl rfl
          · exact .inr rfl
        · exact .inl ⟨onward (whether.trans (decide_eq_false wrapped)), Nat.lt_of_not_le wrapped⟩
      refine ⟨low, high, wpOn, wpiramOff, wrapAt, parkAt, penultAt, ?_, ?_, ?_, ?_, ?_⟩
      · dsimp only
        omega
      · exact fun off => absurd (running.symm.trans off) (by decide)
      · exact (clk_step moves).trans ((congrArg (· && _) running).trans (Bool.true_and _)).symm
      · exact wp_step whether moves
      · exact wpiram_step moves

end PhaseGen

/-- The generator is valid, and the processor's copies of its outputs are a tick behind. -/
structure ClockRegs.Valid (c : ClockRegs) : Prop where
  gen : c.gen.Valid
  clkQ : c.tpclkQ =
    (c.gen.running && decide (1 ≤ c.gen.phase ∧ c.gen.phase ≤ c.gen.tpclkOffAt + 1))
  wpQ_high : c.gen.phase ≠ 0 → c.gen.phase ≤ c.gen.tpclkOffAt + 4 → c.nTpwpQ = true
  wpQ_low : c.gen.tpclkOffAt + 5 ≤ c.gen.phase → c.gen.phase ≤ c.gen.tpclkOffAt + 6 →
    c.nTpwpQ = false
  wpQ_still : c.gen.running = false → c.nTpwpQ = true
  iramQ : c.nTpwpiramQ =
    !decide (c.gen.tpclkOffAt + 2 ≤ c.gen.phase ∧ c.gen.phase ≤ c.gen.tpclkOffAt + 6)
  begun : c.gen.phase ≠ 0 → c.started = true

namespace Processor

theorem boundary_eq {s : Processor} (valid : s.clock.Valid) :
    s.boundary = (s.clock.gen.running && s.clock.gen.phase == 0) := by
  rw [boundary, valid.gen.clk, valid.clkQ]
  cases s.clock.gen.running <;> simp
  grind -linarith

theorem valid_clockNext {s : Processor} (valid : s.clock.Valid) (i : ProcIn) :
    (s.clockNext i).Valid := by
  have boundary := boundary_eq valid
  obtain ⟨gen, clkQ, wpQHigh, wpQLow, wpQStill, iramQ, begun⟩ := valid
  have kept := PhaseGen.valid_next gen (s.hang i) (s.inst i).ilong s.clock.speed
  have cases := PhaseGen.next_phase_cases gen (s.hang i) (s.inst i).ilong s.clock.speed
  have low := gen.read_low
  have keptLow := kept.read_low
  have clk := gen.clk
  have wp := gen.wp
  have wpiram := gen.wpiram
  have bound := gen.bound
  have still := gen.still
  constructor <;> simp only [clockNext] <;> grind -linarith

theorem phase_of_mclkEdge {s : Processor} (valid : s.clock.Valid) (edge : s.mclkEdge = true) :
    s.clock.gen.running = true ∧ s.clock.gen.phase = 0 := by
  simp only [mclkEdge, boundary_eq valid, Bool.and_eq_true, beq_iff_eq] at edge
  exact edge.1

theorem boundary_of_mclkEdge {s : Processor} (edge : s.mclkEdge = true) : s.boundary = true := by
  simp only [mclkEdge, Bool.and_eq_true] at edge
  exact edge.1

theorem phase_after_boundary {s : Processor} (valid : s.clock.Valid) (i : ProcIn)
    (edge : s.boundary = true) : (s.clockNext i).gen.phase = 1 := by
  rw [boundary_eq valid] at edge
  have cases := PhaseGen.next_phase_cases valid.gen (s.hang i) (s.inst i).ilong s.clock.speed
  simp only [clockNext]
  grind -linarith

theorem phase_after_mclkEdge {s : Processor} (valid : s.clock.Valid) (i : ProcIn)
    (edge : s.mclkEdge = true) : (s.clockNext i).gen.phase = 1 :=
  phase_after_boundary valid i (boundary_of_mclkEdge edge)

theorem wrap_of_hang {s : Processor} (valid : s.clock.Valid) {i : ProcIn}
    (wrap : s.clock.gen.wrap = true) (hang : s.hang i = true) :
    (s.clockNext i).gen.wrap = true := by
  have kept := valid_clockNext valid i
  have cases := PhaseGen.next_phase_cases valid.gen (s.hang i) (s.inst i).ilong s.clock.speed
  have still := valid.gen.still
  rw [PhaseGen.wrap_eq kept.gen]
  rw [PhaseGen.wrap_eq valid.gen] at wrap
  simp only [clockNext]
  grind -linarith

theorem mclkEdge_of_unheld {s : Processor} (valid : s.clock.Valid) {i : ProcIn}
    (wrap : s.clock.gen.wrap = true) (free : s.hang i = false) :
    (s.next i).mclkEdge = true := by
  have kept := valid_clockNext valid i
  have cases := PhaseGen.next_phase_cases valid.gen (s.hang i) (s.inst i).ilong s.clock.speed
  have still := valid.gen.still
  have begun := valid.begun
  rw [PhaseGen.wrap_eq valid.gen] at wrap
  rw [mclkEdge, boundary_eq (s := s.next i) kept]
  simp only [Processor.next, clockNext]
  grind -linarith

end Processor

end MuirFpga.Cadr
