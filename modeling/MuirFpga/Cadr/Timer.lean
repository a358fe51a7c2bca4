import MuirFpga.Cadr.Cycle
import MuirFpga.Sync.Trace

/-!
# A cycle on a bus ends

A cycle granted the Xbus is answered or the timer ends it, and one on the Unibus gets its
slave's answer or the timer's. The timer counts rises of an oscillator that runs whatever the
cycle does, so the argument is a rank over the oscillator's accumulator and the rises still
to come.
-/

namespace MuirFpga.Cadr

namespace Busint

/-- The accumulator stays under the half period and the rises under their four bits. -/
structure Valid (b : Busint) : Prop where
  acc : b.vcoAcc < vcoHalfNs
  rises : b.tmrRises < 16
  ackAt : b.ubAckAt < 2048
  elapsed : b.elapsed < 2048

/-- Half periods until the last rise the timeout asks for. -/
def halves (want : Nat) (b : Busint) : Nat :=
  if b.tmrFell then
    (if !b.vco && b.vcoToggle && (b.tmrRises + 1) % 16 == want then 32
      else 2 * ((want + 15 - b.tmrRises) % 16) + b.vco.toNat)
  else 34 - b.vco.toNat

/-- How far the timer is from its end. -/
def timerRank (want : Nat) (b : Busint) : Nat := 430 * b.halves want + (vcoHalfNs - b.vcoAcc)

theorem next_vco (i : BusIn) (mclk memrq wrcyc : Bool) (b : Busint) :
    (b.next i mclk memrq wrcyc).vcoAcc = b.oscillate.vcoAcc ∧
      (b.next i mclk memrq wrcyc).vco = b.oscillate.vco := ⟨rfl, rfl⟩

theorem taps_timer (i : BusIn) {b : Busint} (timing : b.state = .granted ∨ b.state = .ub) :
    (b.taps i).tmrFell = (b.vcoToggle && !b.tmrFell && b.vco || b.tmrFell) ∧ (b.taps i).tmrRises =
      if b.vcoToggle && b.tmrFell && !b.vco then (b.tmrRises + 1) % 16 else b.tmrRises := by
  have on : (b.state == .granted || b.state == .ub) = true := by
    rcases timing with state | state <;> rw [state] <;> rfl
  unfold taps
  simp only [on, Bool.true_and, true_and]

theorem next_timer (i : BusIn) (mclk memrq wrcyc : Bool) {b : Busint}
    (timing : b.state = .granted ∨ b.state = .ub) :
    (b.next i mclk memrq wrcyc).tmrFell = (b.vcoToggle && !b.tmrFell && b.vco || b.tmrFell) ∧
      (b.next i mclk memrq wrcyc).tmrRises =
        if b.vcoToggle && b.tmrFell && !b.vco then (b.tmrRises + 1) % 16 else b.tmrRises := by
  rw [← (taps_timer i timing).1, ← (taps_timer i timing).2]
  rcases timing with state | state
  all_goals
    unfold next
    rw [state]
    dsimp only
  · split
    · exact ⟨rfl, rfl⟩
    · split <;> exact ⟨rfl, rfl⟩
  · split
    · exact ⟨rfl, rfl⟩
    · split
      · exact ⟨rfl, rfl⟩
      · split <;> exact ⟨rfl, rfl⟩

/-- A cycle's counts are in their bounds. -/
def Counts (b : Busint) : Prop := b.tmrRises < 16 ∧ b.ubAckAt < 2048 ∧ b.elapsed < 2048

theorem Counts.stepped {b : Busint} (counts : b.Counts) (i : BusIn) (mclk memrq wrcyc : Bool) :
    (b.next i mclk memrq wrcyc).Counts := by
  obtain ⟨rises, ackAt, elapsed⟩ := counts
  have taps : (b.taps i).Counts := ⟨by unfold Busint.taps; dsimp only; split <;> omega, ackAt, elapsed⟩
  have grant (u : Busint) : (u.grant i).Counts := by
    unfold Busint.grant
    split <;> exact ⟨Nat.zero_lt_succ 15, Nat.zero_lt_succ 2047, Nat.zero_lt_succ 2047⟩
  have elapse : b.elapse < 2048 := by
    unfold Busint.elapse
    split <;> omega
  unfold next
  cases b.state with
  | idle =>
    dsimp only
    split
    · split
      · exact grant _
      · exact taps
    · exact taps
  | requested =>
    dsimp only
    split
    · exact taps
    · split
      · exact grant _
      · exact taps
  | arb =>
    dsimp only
    split
    · unfold arbitrate
      split_ifs <;> first | exact taps | exact ⟨taps.1, taps.2.1, Nat.zero_lt_succ 2047⟩
    · exact taps
  | ub =>
    dsimp only
    split
    · exact ⟨taps.1, taps.2.1, elapse⟩
    · split
      · exact ⟨taps.1, Nat.mod_lt _ (by decide), elapse⟩
      · split
        · exact ⟨taps.1, Nat.mod_lt _ (by decide), elapse⟩
        · exact ⟨taps.1, taps.2.1, elapse⟩
  | granted =>
    dsimp only
    split
    · exact ⟨taps.1, taps.2.1, elapse⟩
    · split <;> exact ⟨taps.1, taps.2.1, elapse⟩
  | acked =>
    dsimp only
    split <;> exact taps

theorem valid_next {b : Busint} (valid : b.Valid) (i : BusIn) (mclk memrq wrcyc : Bool) :
    (b.next i mclk memrq wrcyc).Valid := by
  obtain ⟨acc, rises, ackAt, elapsed⟩ := valid
  obtain ⟨rises, ackAt, elapsed⟩ := Counts.stepped ⟨rises, ackAt, elapsed⟩ i mclk memrq wrcyc
  refine ⟨?_, rises, ackAt, elapsed⟩
  rw [(next_vco i mclk memrq wrcyc b).1]
  unfold oscillate vcoToggle
  have half : vcoHalfNs = 425 := rfl
  split <;> rename_i toggle <;> rw [decide_eq_true_eq] at toggle <;> dsimp only <;> omega

theorem timerRank_falls {b : Busint} (valid : b.Valid) (i : BusIn) (mclk memrq wrcyc : Bool)
    (timing : b.state = .granted ∨ b.state = .ub) (due : b.nxmDue i = false) :
    timerRank (tmrWant i) (b.next i mclk memrq wrcyc) < timerRank (tmrWant i) b := by
  obtain ⟨fell, rises⟩ := next_timer i mclk memrq wrcyc timing
  obtain ⟨acc, vco⟩ := next_vco i mclk memrq wrcyc b
  have half : vcoHalfNs = 425 := rfl
  have accBound := valid.acc
  have risesBound := valid.rises
  have want : tmrWant i = 6 ∨ tmrWant i = 14 := by unfold tmrWant; split <;> simp
  generalize b.next i mclk memrq wrcyc = after at *
  simp only [timerRank, halves, acc, vco, fell, rises]
  cases toggle : b.vcoToggle with
  | false =>
    have below : b.vcoAcc < 415 := by simpa [vcoToggle, half] using toggle
    simp only [oscillate, toggle] at acc vco ⊢
    by_cases last : b.tmrFell = true ∧ b.vco = false ∧ (b.tmrRises + 1) % 16 = tmrWant i
    · obtain ⟨fallen, down, rise⟩ := last
      have early : b.vcoAcc < 405 := by
        simpa [nxmDue, fallen, down, toggle, rise, half] using due
      have untoggled : after.vcoToggle = false := by
        simp only [vcoToggle, acc]
        grind -linarith
      simp [fallen, down, untoggled, half]
      omega
    · have same : ¬ (b.vco = false ∧ (b.tmrRises + 1) % 16 = tmrWant i) ∨ b.tmrFell = false := by
        grind -linarith
      cases fallen : b.tmrFell <;> cases up : b.vco <;> simp_all <;> omega
  | true =>
    have above : 415 ≤ b.vcoAcc := by simpa [vcoToggle, half] using toggle
    have fresh : after.vcoToggle = false := by
      simp only [vcoToggle, acc, oscillate]
      grind -linarith
    simp only [oscillate, toggle, fresh]
    cases fallen : b.tmrFell <;> cases up : b.vco <;> simp <;> grind -linarith

theorem next_answered (mclk wrcyc : Bool) {i : BusIn} {memrq : Bool} {b : Busint}
    (state : b.state = .granted) (down : b.acked i memrq = false) :
    (b.next i mclk memrq wrcyc).answered = (b.answered || b.answering i memrq) ∧
      (b.answered = true → (b.next i mclk memrq wrcyc).sinceAnswer =
        if b.sinceAnswer ≠ 15 then b.sinceAnswer + 1 else b.sinceAnswer) ∧
      (b.next i mclk memrq wrcyc).deskewed =
        (b.answered && decide (deskewT - 1 ≤ b.sinceAnswer)) := by
  simp only [next, state, taps, down]
  grind -linarith

theorem next_ssynSeen (mclk wrcyc : Bool) {i : BusIn} {memrq : Bool} {b : Busint}
    (state : b.state = .ub) (down : b.acked i memrq = false) :
    (b.next i mclk memrq wrcyc).elapsed = b.elapse ∧
      (b.nxmDue i = true → (b.next i mclk memrq wrcyc).ssynSeen = true) ∧
      (b.ssynSeen = true → (b.next i mclk memrq wrcyc).ssynSeen = true ∧
        (b.next i mclk memrq wrcyc).ubAckAt = b.ubAckAt ∧
        (b.next i mclk memrq wrcyc).ubAcked = decide (b.ubAckAt ≤ b.elapsed)) := by
  simp only [next, state, taps, down]
  grind -linarith

/-- The interface at every clock, one tick of it from each to the next. -/
structure Runs (b : Nat → Busint) (i : Nat → BusIn) (mclk memrq wrcyc : Nat → Bool) : Prop where
  start : (b 0).Valid
  step : ∀ t, b (t + 1) = (b t).next (i t) (mclk t) (memrq t) (wrcyc t)

/-- The slaves: one that holds the timer off answers some day, and the decode that selects the
timeout's table stands while a cycle is granted, or `-UB MSYN` is up. -/
structure Answers (b : Nat → Busint) (i : Nat → BusIn) (memrq : Nat → Bool) : Prop where
  answers : ∀ t, (b t).state = .granted → (i t).devHold = true →
    ∃ u, t ≤ u ∧ ((b u).state ≠ .granted ∨ (b u).answering (i u) (memrq u) = true)
  steady : ∀ t, (b t).state = .granted ∨ (b t).ubMsyn = true → (b (t + 1)).state = (b t).state →
    (i (t + 1)).selectDebug = (i t).selectDebug

section

variable {b : Nat → Busint} {i : Nat → BusIn} {mclk memrq wrcyc : Nat → Bool}

theorem Runs.valid (runs : Runs b i mclk memrq wrcyc) (t : Nat) : (b t).Valid := by
  induction t with
  | zero => exact runs.start
  | succ t ih => exact runs.step t ▸ valid_next ih _ _ _ _

theorem ubMsyn_of_stays (runs : Runs b i mclk memrq wrcyc) {t : Nat}
    (stays : ∀ u, t ≤ u → (b u).state = .ub) : ∃ u, t ≤ u ∧ ∀ v, u ≤ v → (b v).ubMsyn = true := by
  have counts : ∀ u, t ≤ u → (b (u + 1)).elapsed = (b u).elapse := by
    intro u after
    rw [runs.step u]
    simp only [next, stays u after, taps]
    split_ifs <;> rfl
  have address : ubAddressT - 1 = 9 := rfl
  obtain ⟨u, after, reached⟩ : ∃ u, t ≤ u ∧ 9 ≤ (b u).elapsed := by
    refine Sync.met_of_falling_rank (fun u => 9 - (b u).elapsed) ?_
    intro u after short
    have count := counts u after
    simp only [elapse] at count
    grind -linarith
  have kept : ∀ v, u ≤ v → 9 ≤ (b v).elapsed := by
    refine Sync.always_of_step reached ?_
    intro v afterV before
    have count := counts v (by omega)
    simp only [elapse] at count
    grind -linarith
  refine ⟨u, after, fun v afterV => ?_⟩
  simp [ubMsyn, stays v (by omega), address, kept v afterV]

theorem nxmDue_of_stays (runs : Runs b i mclk memrq wrcyc) (slaves : Answers b i memrq)
    {state : BusState} (timing : state = .granted ∨ state = .ub) {t : Nat}
    (stays : ∀ u, t ≤ u → (b u).state = state) : ∃ u, t ≤ u ∧ (b u).nxmDue (i u) = true := by
  obtain ⟨from_, afterFrom, shown⟩ : ∃ v, t ≤ v ∧ ∀ u, v ≤ u →
      (b u).state = .granted ∨ (b u).ubMsyn = true := by
    obtain rfl | rfl := timing
    · exact ⟨t, Nat.le_refl t, fun u after => .inl (stays u after)⟩
    · obtain ⟨v, after, up⟩ := ubMsyn_of_stays runs stays
      exact ⟨v, after, fun u afterU => .inr (up u afterU)⟩
  have same : ∀ u, from_ ≤ u → (i u).selectDebug = (i from_).selectDebug := by
    refine Sync.always_of_step rfl ?_
    intro u after ih
    have here := stays u (by omega)
    have there := stays (u + 1) (by omega)
    rw [slaves.steady u (shown u after) (there.trans here.symm), ih]
  have want : ∀ u, from_ ≤ u → tmrWant (i u) = tmrWant (i from_) := by
    intro u after
    simp only [tmrWant, same u after]
  obtain ⟨u, after, due⟩ : ∃ u, from_ ≤ u ∧ (b u).nxmDue (i u) = true := by
    refine Sync.met_of_falling_rank (fun u => timerRank (tmrWant (i from_)) (b u)) ?_
    intro u after due
    have here := stays u (by omega)
    rw [runs.step u, ← want u after]
    exact timerRank_falls (runs.valid u) _ _ _ _ (here ▸ timing) (by simpa using due)
  exact ⟨u, by omega, due⟩

theorem granted_ends (runs : Runs b i mclk memrq wrcyc) (slaves : Answers b i memrq) {t : Nat}
    (granted : (b t).state = .granted) :
    ∃ u, t ≤ u ∧ (b u).state = .granted ∧ ((b u).acked (i u) (memrq u) = true ∨
      ((b u).nxmDue (i u) = true ∧ (i u).devHold = false)) := by
  by_contra never
  push Not at never
  have stays : ∀ u, t ≤ u → (b u).state = .granted := by
    refine Sync.always_of_step granted ?_
    intro u after state
    obtain ⟨down, held⟩ := never u after state
    rw [runs.step u, next_state, state]
    simp only [Bool.not_eq_true] at down held
    grind -linarith
  have down : ∀ u, t ≤ u → (b u).acked (i u) (memrq u) = false := by
    intro u after
    simpa using (never u after (stays u after)).1
  obtain ⟨u, afterU, due⟩ := nxmDue_of_stays runs slaves (.inl rfl) stays
  have held : (i u).devHold = true := by
    have := (never u afterU (stays u afterU)).2 due
    simpa using this
  obtain ⟨v, afterV, gone | answering⟩ := slaves.answers u (stays u afterU) held
  · exact gone (stays v (by omega))
  have afterT : t ≤ v := by omega
  have write : (b v).write = false := by
    have := down v afterT
    simp only [acked, stays v afterT, answering] at this
    grind -linarith
  -- A read's answer is held, and its deskew runs out.
  have answered : ∀ w, v + 1 ≤ w → (b w).answered = true := by
    refine Sync.always_of_step ?_ ?_
    · rw [runs.step v, (next_answered _ _ (stays v afterT) (down v afterT)).1, answering]
      simp
    · intro w after before
      rw [runs.step w, (next_answered _ _ (stays w (by omega)) (down w (by omega))).1, before]
      rfl
  obtain ⟨w, afterW, waited⟩ : ∃ w, v + 1 ≤ w ∧ 5 ≤ (b w).sinceAnswer := by
    refine Sync.met_of_falling_rank (fun w => 5 - (b w).sinceAnswer) ?_
    intro w after short
    have counts := (next_answered (mclk w) (wrcyc w) (stays w (by omega))
      (down w (by omega))).2.1 (answered w after)
    rw [← runs.step w] at counts
    rw [counts]
    grind -linarith
  have deskewed : (b (w + 1)).deskewed = true := by
    rw [runs.step w, (next_answered _ _ (stays w (by omega)) (down w (by omega))).2.2,
      answered w afterW]
    have due : deskewT - 1 = 5 := rfl
    simpa [due] using waited
  have up := down (w + 1) (by omega)
  simp [acked, stays (w + 1) (by omega), deskewed] at up

theorem ub_ends (runs : Runs b i mclk memrq wrcyc) (slaves : Answers b i memrq) {t : Nat}
    (onUnibus : (b t).state = .ub) :
    ∃ u, t ≤ u ∧ (b u).state = .ub ∧ (b u).acked (i u) (memrq u) = true := by
  by_contra never
  push Not at never
  have stays : ∀ u, t ≤ u → (b u).state = .ub := by
    refine Sync.always_of_step onUnibus ?_
    intro u after state
    have down := never u after state
    rw [runs.step u, next_state, state]
    simp only [down]
    rfl
  have down : ∀ u, t ≤ u → (b u).acked (i u) (memrq u) = false := by
    intro u after
    simpa using never u after (stays u after)
  obtain ⟨u, afterU, due⟩ := nxmDue_of_stays runs slaves (.inr rfl) stays
  have facts := fun w (after : t ≤ w) => next_ssynSeen (mclk w) (wrcyc w)
    (stays w after) (down w after)
  simp only [← runs.step] at facts
  have seen : ∀ w, u + 1 ≤ w → (b w).ssynSeen = true :=
    Sync.always_of_step ((facts u afterU).2.1 due)
      (fun w after before => ((facts w (by omega)).2.2 before).1)
  have due : ∀ w, u + 1 ≤ w → (b w).ubAckAt = (b (u + 1)).ubAckAt :=
    Sync.always_of_step rfl
      (fun w after before => ((facts w (by omega)).2.2 (seen w after)).2.1.trans before)
  obtain ⟨w, afterW, elapsed⟩ : ∃ w, u + 1 ≤ w ∧ (b w).ubAckAt ≤ (b w).elapsed := by
    refine Sync.met_of_falling_rank (fun w => 2047 - (b w).elapsed) ?_
    intro w after short
    have counts := (facts w (by omega)).1
    have bound := (runs.valid w).ackAt
    have top := (runs.valid w).elapsed
    simp only [elapse] at counts
    grind -linarith
  have acked : (b (w + 1)).ubAcked = true := by
    rw [((facts w (by omega)).2.2 (seen w afterW)).2.2]
    simpa using elapsed
  have up := down (w + 1) (by omega)
  simp [Busint.acked, stays (w + 1) (by omega), acked] at up

end

end Busint

end MuirFpga.Cadr
