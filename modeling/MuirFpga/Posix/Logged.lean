/-!
# Computations that log what they do

A computation over a state that may fail and that logs its actions, and the rules by which every action it
logs, whether it fails or not, is one that is allowed, and what it returns is as said.
-/

namespace MuirFpga.Posix

/-- A computation over `σ` that fails by `ε` and logs its actions. -/
abbrev Logged (ε σ A : Type) := ExceptT ε (StateM (σ × List A))

section Rules

variable {ε σ A α β : Type} {P : A → Prop} {Q R : α → Prop}

def log (a : A) : Logged ε σ A Unit := modify fun s => (s.1, s.2 ++ [a])

def state : Logged ε σ A σ := return (← get).1

def update (f : σ → σ) : Logged ε σ A Unit := modify fun s => (f s.1, s.2)

/-- What it logs, from a state. -/
def logged (m : Logged ε σ A α) (s : σ) : List A := (m.run.run (s, [])).2.2

/-- What it logs is allowed, and what it returns is as `Q` has it. -/
def Within (P : A → Prop) (Q : α → Prop) (m : Logged ε σ A α) : Prop :=
  ∀ s, (∃ done, (m.run.run s).2.2 = s.2 ++ done ∧ ∀ a ∈ done, P a) ∧ ∀ x, (m.run.run s).1 = .ok x → Q x

theorem Within.logged {m : Logged ε σ A α} (within : Within P Q m) {s : σ} {a : A} (among : a ∈ logged m s) :
    P a := by
  have ⟨done, logs, allowed⟩ := (within (s, [])).1
  rw [MuirFpga.Posix.logged, logs] at among
  exact allowed a among

theorem Within.quiet {m : Logged ε σ A α} (logs : ∀ s, (m.run.run s).2.2 = s.2)
    (result : ∀ s x, (m.run.run s).1 = .ok x → Q x) : Within P Q m :=
  fun s => ⟨⟨[], (logs s).trans (List.append_nil _).symm, nofun⟩, result s⟩

theorem Within.pure {x : α} (holds : Q x) : Within P Q (pure x : Logged ε σ A α) :=
  .quiet (fun _ => rfl) fun _ _ same => Except.ok.inj same ▸ holds

theorem Within.throw (e : ε) : Within P Q (throw e : Logged ε σ A α) := .quiet (fun _ => rfl) nofun

theorem Within.state : Within P (fun _ => True) (state : Logged ε σ A σ) :=
  .quiet (fun _ => rfl) fun _ _ _ => trivial

theorem Within.update (f : σ → σ) : Within P (fun _ => True) (update f : Logged ε σ A Unit) :=
  .quiet (fun _ => rfl) fun _ _ _ => trivial

theorem Within.log {a : A} (holds : P a) : Within P (fun _ => True) (log a : Logged ε σ A Unit) :=
  fun _ => ⟨⟨[a], rfl, fun _ among => List.mem_singleton.mp among ▸ holds⟩, fun _ _ => trivial⟩

theorem run_bind (m : Logged ε σ A α) (f : α → Logged ε σ A β) (s : σ × List A) :
    (m >>= f).run.run s = match (m.run.run s).1 with
      | .ok x => (f x).run.run (m.run.run s).2
      | .error e => (.error e, (m.run.run s).2) := by
  show (ExceptT.bindCont f (m.run.run s).1).run (m.run.run s).2 = _
  cases (m.run.run s).1 <;> rfl

theorem Within.bind {m : Logged ε σ A α} {f : α → Logged ε σ A β} {Q : β → Prop} (first : Within P R m)
    (next : ∀ x, R x → Within P Q (f x)) : Within P Q (m >>= f) := by
  intro s
  have ⟨⟨done, logs, allowed⟩, returns⟩ := first s
  rw [run_bind]
  cases result : (m.run.run s).1 with
  | error e => exact ⟨⟨done, logs, allowed⟩, nofun⟩
  | ok x =>
    have ⟨⟨more, logs', allowed'⟩, returns'⟩ := next x (returns x result) (m.run.run s).2
    refine ⟨⟨done ++ more, ?_, ?_⟩, returns'⟩
    · rw [← List.append_assoc, ← logs]
      exact logs'
    · intro a among
      exact (List.mem_append.mp among).elim (allowed a) (allowed' a)

theorem Within.mono {P' : A → Prop} {m : Logged ε σ A α} (within : Within P R m) (wider : ∀ a, P a → P' a)
    (weaker : ∀ x, R x → Q x) : Within P' Q m := by
  intro s
  have ⟨⟨done, logs, allowed⟩, returns⟩ := within s
  exact ⟨⟨done, logs, fun a among => wider a (allowed a among)⟩, fun x result => weaker x (returns x result)⟩

theorem Within.ite {c : Prop} [Decidable c] {m n : Logged ε σ A α} (left : c → Within P Q m)
    (right : ¬c → Within P Q n) : Within P Q (if c then m else n) := by
  split
  · next holds => exact left holds
  · next fails => exact right fails

/-- What it returns is as `Q` has it. -/
def Returns (Q : α → Prop) (m : Logged ε σ A α) : Prop := ∀ s x, (m.run.run s).1 = .ok x → Q x

theorem Returns.pure {x : α} (holds : Q x) : Returns Q (pure x : Logged ε σ A α) :=
  fun _ _ same => Except.ok.inj same ▸ holds

theorem Returns.throw (e : ε) : Returns Q (throw e : Logged ε σ A α) := nofun

theorem Returns.bind {m : Logged ε σ A α} {f : α → Logged ε σ A β} {Q : β → Prop} (first : Returns R m)
    (next : ∀ x, R x → Returns Q (f x)) : Returns Q (m >>= f) := by
  intro s y
  rw [run_bind]
  cases result : (m.run.run s).1 with
  | error e => exact nofun
  | ok x => exact next x (first s x result) _ y

theorem Returns.ite {c : Prop} [Decidable c] {m n : Logged ε σ A α} (left : Returns Q m) (right : Returns Q n) :
    Returns Q (if c then m else n) := by
  split
  · exact left
  · exact right

/-- What it returns does not depend on the state. -/
def Fixed (m : Logged ε σ A α) : Prop := ∀ s s', (m.run.run s).1 = (m.run.run s').1

theorem Fixed.pure (x : α) : Fixed (pure x : Logged ε σ A α) := fun _ _ => rfl

theorem Fixed.throw (e : ε) : Fixed (throw e : Logged ε σ A α) := fun _ _ => rfl

theorem Fixed.log (a : A) : Fixed (log a : Logged ε σ A Unit) := fun _ _ => rfl

theorem Fixed.bind {m : Logged ε σ A α} {f : α → Logged ε σ A β} (first : Fixed m) (next : ∀ x, Fixed (f x)) :
    Fixed (m >>= f) := by
  intro s s'
  rw [run_bind, run_bind, first s s']
  cases (m.run.run s').1 with
  | error e => rfl
  | ok x => exact next x _ _

theorem Fixed.ite {c : Prop} [Decidable c] {m n : Logged ε σ A α} (left : Fixed m) (right : Fixed n) :
    Fixed (if c then m else n) := by
  split
  · exact left
  · exact right

end Rules

end MuirFpga.Posix
