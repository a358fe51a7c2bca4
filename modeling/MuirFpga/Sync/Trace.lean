import Mathlib.Data.Nat.Basic

/-!
# Traces of synchronous machines

A synchronous machine takes one input and makes one step a clock. A trace is its state at
every clock under a stream of inputs. The rules here are the ones a proof about every trace
needs: an invariant that each step keeps under a condition on the step, and progress, by a
rank that falls at every step until the goal is met.
-/

namespace MuirFpga.Sync

variable {Input State : Type}

/-- The state of a machine at a clock: the start, or the step of the clock before. -/
def trace (step : Input → State → State) (start : State) (inputs : Nat → Input) : Nat → State
  | 0 => start
  | clock + 1 => step (inputs clock) (trace step start inputs clock)

variable {step : Input → State → State} {start : State} {inputs : Nat → Input}

theorem trace_succ (clock : Nat) : trace step start inputs (clock + 1) =
    step (inputs clock) (trace step start inputs clock) := rfl

/-- Every step of a trace meets a condition on its input and the state before it. -/
def Meets (condition : Input → State → Prop) (step : Input → State → State) (start : State)
    (inputs : Nat → Input) : Prop :=
  ∀ clock, condition (inputs clock) (trace step start inputs clock)

/-- An invariant of the start that every step meeting the condition keeps holds at every
clock of a trace whose steps all meet it. -/
theorem trace_invariant {condition : Input → State → Prop} {invariant : State → Prop}
    (initial : invariant start)
    (kept : ∀ input state, condition input state → invariant state →
      invariant (step input state))
    (meets : Meets condition step start inputs) (clock : Nat) :
    invariant (trace step start inputs clock) := by
  induction clock with
  | zero => exact initial
  | succ clock ih => exact kept _ _ (meets clock) ih

theorem met_of_falling_rank (rank : Nat → Nat) {goal : Nat → Prop} {clock : Nat}
    (falls : ∀ later, clock ≤ later → ¬ goal later → rank (later + 1) < rank later) :
    ∃ later, clock ≤ later ∧ goal later := by
  induction size : rank clock using Nat.strong_induction_on generalizing clock with
  | _ bound ih =>
    by_cases met : goal clock
    · exact ⟨clock, Nat.le_refl clock, met⟩
    · have less : rank (clock + 1) < bound := by
        rw [← size]
        exact falls clock (Nat.le_refl clock) met
      obtain ⟨later, after, reached⟩ := ih _ less
        (fun later after => falls later (Nat.le_of_succ_le after)) rfl
      exact ⟨later, Nat.le_of_succ_le after, reached⟩

/-- A goal is met at some clock from here on when a rank never rises before it, falls at every
event before it, and the event keeps coming. -/
theorem met_of_falling_events (rank : Nat → Nat) {goal event : Nat → Prop} {clock : Nat}
    (stays : ∀ later, clock ≤ later → ¬ goal later → rank (later + 1) ≤ rank later)
    (falls : ∀ later, clock ≤ later → ¬ goal later → event later → rank (later + 1) < rank later)
    (comes : ∀ later, ∃ next, later ≤ next ∧ event next) :
    ∃ later, clock ≤ later ∧ goal later := by
  induction size : rank clock using Nat.strong_induction_on generalizing clock with
  | _ bound ih =>
    obtain ⟨next, after, now⟩ := comes clock
    by_cases met : ∃ later, clock ≤ later ∧ later ≤ next ∧ goal later
    · obtain ⟨later, from_, -, reached⟩ := met
      exact ⟨later, from_, reached⟩
    · have open_ (later : Nat) (from_ : clock ≤ later) (upTo : later ≤ next) : ¬ goal later :=
        fun reached => met ⟨later, from_, upTo, reached⟩
      have upTo (later : Nat) (from_ : clock ≤ later) : later ≤ next → rank later ≤ rank clock := by
        induction later, from_ using Nat.le_induction with
        | base => exact fun _ => Nat.le_refl _
        | succ later from_ less =>
          intro inside
          exact Nat.le_trans (stays later from_ (open_ later from_ (by omega))) (less (by omega))
      have drop := falls next after (open_ next after (Nat.le_refl next)) now
      have most := upTo next after (Nat.le_refl next)
      obtain ⟨later, from_, reached⟩ := ih (rank (next + 1)) (by omega)
        (fun later from_ => stays later (by omega)) (fun later from_ => falls later (by omega)) rfl
      exact ⟨later, by omega, reached⟩

/-- A goal is met at some clock from here on when before it some event always waits, each waits until its
choice is made, the rank never rises and falls when a waiting event's choice is made, and every choice
keeps being made. -/
theorem met_of_fair {Event : Type} (rank : Nat → Nat) {goal : Nat → Prop} {waits chosen : Event → Nat → Prop}
    {clock : Nat} (some_ : ∀ later, clock ≤ later → ¬ goal later → ∃ event, waits event later)
    (kept : ∀ event later, clock ≤ later → ¬ goal later → ¬ goal (later + 1) → waits event later →
      ¬ chosen event later → waits event (later + 1))
    (stays : ∀ later, clock ≤ later → ¬ goal later → rank (later + 1) ≤ rank later)
    (falls : ∀ event later, clock ≤ later → ¬ goal later → waits event later → chosen event later →
      rank (later + 1) < rank later)
    (fair : ∀ event later, ∃ next, later ≤ next ∧ chosen event next) :
    ∃ later, clock ≤ later ∧ goal later := by
  induction size : rank clock using Nat.strong_induction_on generalizing clock with
  | _ bound ih =>
    by_cases now : goal clock
    · exact ⟨clock, Nat.le_refl clock, now⟩
    obtain ⟨event, first⟩ := some_ clock (Nat.le_refl clock) now
    obtain ⟨next, after, choice⟩ := fair event clock
    by_cases met : ∃ later, clock ≤ later ∧ later ≤ next ∧ goal later
    · obtain ⟨later, from_, -, reached⟩ := met
      exact ⟨later, from_, reached⟩
    have open_ (later : Nat) (from_ : clock ≤ later) (upTo : later ≤ next) : ¬ goal later :=
      fun reached => met ⟨later, from_, upTo, reached⟩
    -- Up to the choice the event waits, or the rank has fallen.
    have along (later : Nat) (from_ : clock ≤ later) : later ≤ next →
        rank later < rank clock ∨ rank later ≤ rank clock ∧ waits event later := by
      induction later, from_ using Nat.le_induction with
      | base => exact fun _ => .inr ⟨Nat.le_refl _, first⟩
      | succ later from_ step =>
        intro inside
        have most := stays later from_ (open_ later from_ (by omega))
        rcases step (by omega) with less | ⟨same, waiting⟩
        · exact .inl (by omega)
        · by_cases made : chosen event later
          · have drop := falls event later from_ (open_ later from_ (by omega)) waiting made
            exact .inl (by omega)
          · exact .inr ⟨by omega, kept event later from_ (open_ later from_ (by omega))
              (open_ (later + 1) (by omega) inside) waiting made⟩
    have drop : rank (next + 1) < rank clock := by
      have most := stays next after (open_ next after (Nat.le_refl next))
      rcases along next after (Nat.le_refl next) with less | ⟨same, waiting⟩
      · omega
      · have less := falls event next after (open_ next after (Nat.le_refl next)) waiting choice
        omega
    obtain ⟨later, from_, reached⟩ := ih (rank (next + 1)) (by omega)
      (fun later from_ => some_ later (by omega))
      (fun event later from_ => kept event later (by omega))
      (fun later from_ => stays later (by omega))
      (fun event later from_ => falls event later (by omega)) rfl
    exact ⟨later, by omega, reached⟩

theorem always_of_step {holds : Nat → Prop} {clock : Nat} (first : holds clock)
    (kept : ∀ later, clock ≤ later → holds later → holds (later + 1)) (later : Nat)
    (after : clock ≤ later) : holds later := by
  induction later, after using Nat.le_induction with
  | base => exact first
  | succ later after ih => exact kept later after ih

theorem stands_between {Value : Type*} (value : Nat → Value) {first last : Nat}
    (order : first ≤ last)
    (kept : ∀ clock, first ≤ clock → clock < last → value (clock + 1) = value clock) :
    value last = value first := by
  induction last, order using Nat.le_induction with
  | base => rfl
  | succ last order ih =>
    rw [kept last order (Nat.lt_succ_self last)]
    exact ih fun clock after before => kept clock after (Nat.lt_succ_of_lt before)

theorem stands_around {Value : Type*} (value : Nat → Value) (first place last : Nat)
    (kept : ∀ clock, first < clock → clock ≤ last → clock ≠ place →
      value (clock + 1) = value clock) :
    (∀ clock, first < clock → clock ≤ place → clock ≤ last → value clock = value (first + 1)) ∧
      ∀ clock, first ≤ place → place < clock → clock ≤ last + 1 →
        value clock = value (place + 1) := by
  constructor
  · intro clock after before upTo
    exact stands_between value after fun later late early =>
      kept later (by omega) (by omega) (by omega)
  · intro clock inside after upTo
    exact stands_between value after fun later late early =>
      kept later (by omega) (by omega) (by omega)

end MuirFpga.Sync
