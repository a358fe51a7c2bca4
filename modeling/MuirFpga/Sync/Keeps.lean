import Mathlib.Init

/-!
# Programs that keep an invariant

Rules for parts of a stateful program, each of which leaves a property of the state as it
finds it: the property is then kept by every program put together from them, however it
branches and whatever its parts return. A loop is kept by induction on what it runs over. A part
that needs one property and leaves another, which may speak of what it returned, has the same
rules.
-/

namespace MuirFpga.Sync

universe u

variable {State Value Other : Type u} {holds : State → Prop}

/-- A part of a program keeps a property of the state. -/
def Keeps (holds : State → Prop) (part : StateM State Value) : Prop :=
  ∀ state, holds state → holds (part state).2

theorem keeps_pure (value : Value) : Keeps holds (pure value) := fun _ held => held

theorem keeps_bind {first : StateM State Value} {rest : Value → StateM State Other}
    (kept : Keeps holds first) (keptRest : ∀ value, Keeps holds (rest value)) :
    Keeps holds (first >>= rest) := fun state held => keptRest _ _ (kept state held)

theorem keeps_get {rest : State → StateM State Value}
    (kept : ∀ state, holds state → holds (rest state state).2) :
    Keeps holds (get >>= rest) := kept

theorem keeps_modify {change : State → State}
    (kept : ∀ state, holds state → holds (change state)) :
    Keeps holds (modify change : StateM State PUnit) := kept

theorem keeps_modify_bind {change : State → State} {rest : PUnit → StateM State Value}
    (kept : ∀ state, holds state → holds (change state))
    (keptRest : Keeps holds (rest ⟨⟩)) : Keeps holds (modify change >>= rest) :=
  fun state held => keptRest _ (kept state held)

theorem keeps_ite {test : Prop} [Decidable test] {yes no : StateM State Value}
    (keptYes : test → Keeps holds yes) (keptNo : ¬ test → Keeps holds no) :
    Keeps holds (if test then yes else no) := by
  split
  · exact keptYes ‹_›
  · exact keptNo ‹_›

/-- A part of a program, begun where one property holds, leaves another of what it returns and of
the state. -/
def Leaves (before : State → Prop) (part : StateM State Value) (after : Value → State → Prop) :
    Prop :=
  ∀ state, before state → after (part state).1 (part state).2

variable {before : State → Prop} {after : Value → State → Prop}

theorem Keeps.leaves {part : StateM State Value} (kept : Keeps holds part) :
    Leaves holds part fun _ => holds := kept

theorem Leaves.begun {more : State → Prop} {part : StateM State Value}
    (left : Leaves before part after) (enough : ∀ state, more state → before state) :
    Leaves more part after := fun state held => left state (enough state held)

theorem leaves_pure {value : Value} (stands : ∀ state, before state → after value state) :
    Leaves before (pure value) after := stands

theorem leaves_bind {between : Other → State → Prop} {first : StateM State Other}
    {rest : Other → StateM State Value} (left : Leaves before first between)
    (leftRest : ∀ value, Leaves (between value) (rest value) after) :
    Leaves before (first >>= rest) after := fun state held => leftRest _ _ (left state held)

theorem leaves_get {rest : State → StateM State Value}
    (left : ∀ read, Leaves before (rest read) after) : Leaves before (get >>= rest) after :=
  fun state held => left state state held

theorem leaves_modify_bind {change : State → State} {rest : PUnit → StateM State Value}
    (kept : ∀ state, before state → before (change state)) (left : Leaves before (rest ⟨⟩) after) :
    Leaves before (modify change >>= rest) after := fun state held => left _ (kept state held)

theorem leaves_ite {test : Prop} [Decidable test] {yes no : StateM State Value}
    (leftYes : test → Leaves before yes after) (leftNo : ¬ test → Leaves before no after) :
    Leaves before (if test then yes else no) after := by
  split
  · exact leftYes ‹_›
  · exact leftNo ‹_›

end MuirFpga.Sync
