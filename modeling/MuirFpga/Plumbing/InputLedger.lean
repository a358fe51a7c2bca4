import MuirFpga.Plumbing.InputCables
import Mathlib.Data.Int.Basic
import Mathlib.Tactic.Ring

/-!
# What reaches the card

An account of both cables since the last flush or reset: the key words accepted and those strobed to
the card, and for each axis of the mouse the deltas written and the steps its phase has made.
-/

namespace MuirFpga.Plumbing.InputCables

open Sync

/-- An axis' account: net steps of the phase, the deltas written, and whether a sum was held at an
end. -/
structure Account where
  steps : Int
  written : Int
  saturated : Bool

/-- The account since the last flush or reset; `refused` since the last reset of the port. -/
structure Ledger where
  accepted : List (BitVec 24)
  strobed : List (BitVec 24)
  x : Account
  y : Account
  refused : Nat

/-- Nothing yet, but for the words refused. -/
def Ledger.opened (refused : Nat) : Ledger := ⟨[], [], ⟨0, 0, false⟩, ⟨0, 0, false⟩, refused⟩

/-- A phase's step, up or down or none. -/
def moved (was now : BitVec 2) : Int :=
  if now = was + 1#2 then 1 else if now = was - 1#2 then -1 else 0

/-- A sum is past an end of twelve bits. -/
def past (owed delta : BitVec 12) : Bool :=
  decide (2047 < owed.toInt + delta.toInt ∨ owed.toInt + delta.toInt < -2048)

/-- An axis' account after a clock. -/
def Account.next (account : Account) (was now : Axis) : Option (BitVec 12) → Account
  | none => { account with steps := account.steps + moved was.phase now.phase }
  | some delta =>
    { steps := account.steps + moved was.phase now.phase
      written := account.written + delta.toInt
      saturated := account.saturated || past was.owed delta }

/-- The account after a clock. -/
def Ledger.next (depth stepTicks : Nat) (s : Cables) (i : Input) (ledger : Ledger) : Ledger :=
  if i.rst || i.fabricRst then .opened 0
  else
    let refused := ledger.refused + if i.key && !s.room depth then 1 else 0
    if i.clears then .opened refused
    else
      let s' := s.next depth stepTicks i
      { accepted := ledger.accepted ++ if s.putting depth i then [i.keyWord] else []
        strobed := ledger.strobed ++ if s'.kbdStrobe then [s'.kbdCode] else []
        x := ledger.x.next s.x s'.x (if i.mouse then some i.dx else none)
        y := ledger.y.next s.y s'.y (if i.mouse then some i.dy else none)
        refused := refused }

/-- The key words waiting, the oldest first. -/
def Cables.waiting (depth : Nat) (s : Cables) : List (BitVec 24) :=
  heldIn s.queue depth s.head s.count

/-- The queue's slots are where its head, its tail and its count say. -/
structure Queued (depth : Nat) (s : Cables) : Prop where
  few : s.count ≤ depth
  inside : 0 < depth → s.head < depth
  tail : 0 < depth → s.tail = (s.head + s.count) % depth

variable {depth stepTicks : Nat} {s : Cables} {i : Input} {ledger : Ledger}

theorem taking_some (taking : s.taking = true) : s.count ≠ 0 := by
  unfold Cables.taking at taking
  simp only [Bool.and_eq_true, bne_iff_ne] at taking
  exact taking.2

theorem putting_room (putting : s.putting depth i = true) (queued : Queued depth s) :
    s.count < depth := by
  have few := queued.few
  simp only [Cables.putting, Cables.room, Bool.and_eq_true, bne_iff_ne] at putting
  have room := putting.2
  omega

theorem clock_put (stepTicks : Nat) (putting : s.putting depth i = true) :
    (s.clock depth stepTicks i).tail = advance depth s.tail ∧
      (s.clock depth stepTicks i).queue = Function.update s.queue s.tail i.keyWord := by
  simp [Cables.clock, putting]

theorem clock_unput (stepTicks : Nat) (putting : s.putting depth i = false) :
    (s.clock depth stepTicks i).tail = s.tail ∧ (s.clock depth stepTicks i).queue = s.queue := by
  simp [Cables.clock, putting]

theorem waiting_clock (stepTicks : Nat) (i : Input) (queued : Queued depth s) :
    Queued depth (s.clock depth stepTicks i) ∧
      s.waiting depth ++ (if s.putting depth i then [i.keyWord] else []) =
        (if s.taking then [s.queue s.head] else []) ++ (s.clock depth stepTicks i).waiting depth := by
  have few := queued.few
  unfold Cables.waiting
  cases taking : s.taking with
  | false =>
    cases putting : s.putting depth i with
    | false =>
      have count : (s.clock depth stepTicks i).count = s.count := by
        simp [Cables.clock, taking, putting]
      have head : (s.clock depth stepTicks i).head = s.head := by simp [Cables.clock, taking]
      obtain ⟨tail, queue⟩ := clock_unput stepTicks putting
      refine ⟨⟨?_, ?_, ?_⟩, ?_⟩
      · rw [count]
        exact few
      · rw [head]
        exact queued.inside
      · rw [tail, head, count]
        exact queued.tail
      · rw [count, head, queue]
        simp
    | true =>
      have room := putting_room putting queued
      have place := queued.tail (by omega)
      have count : (s.clock depth stepTicks i).count = s.count + 1 := by
        simp [Cables.clock, taking, putting]
      have head : (s.clock depth stepTicks i).head = s.head := by simp [Cables.clock, taking]
      obtain ⟨tail, queue⟩ := clock_put stepTicks putting
      refine ⟨⟨?_, ?_, ?_⟩, ?_⟩
      · rw [count]
        exact room
      · rw [head]
        exact queued.inside
      · intro some
        rw [tail, head, count, place, advance_eq (Nat.mod_lt _ some), Nat.mod_add_mod]
        rfl
      · rw [count, head, queue, place, heldIn_push room]
        simp
  | true =>
    have some := taking_some taking
    obtain ⟨rest, size⟩ : ∃ rest, s.count = rest + 1 := ⟨s.count - 1, by omega⟩
    have inside := queued.inside (by omega)
    have head : (s.clock depth stepTicks i).head = advance depth s.head := by
      simp [Cables.clock, taking]
    cases putting : s.putting depth i with
    | false =>
      have count : (s.clock depth stepTicks i).count = rest := by
        simp [Cables.clock, taking, putting, size]
      obtain ⟨tail, queue⟩ := clock_unput stepTicks putting
      refine ⟨⟨?_, ?_, ?_⟩, ?_⟩
      · rw [count]
        omega
      · rw [head]
        exact fun _ => advance_lt inside
      · intro positive
        rw [tail, head, count, advance_add inside, ← size]
        exact queued.tail positive
      · rw [count, head, queue, size, heldIn_cons inside, advance_eq inside]
        simp
    | true =>
      -- The new word is written behind those left.
      have room := putting_room putting queued
      have place := queued.tail (by omega)
      have count : (s.clock depth stepTicks i).count = rest + 1 := by
        simp [Cables.clock, taking, putting, size]
      obtain ⟨tail, queue⟩ := clock_put stepTicks putting
      have seat : s.tail = (advance depth s.head + rest) % depth := by
        rw [place, advance_add inside, size]
      refine ⟨⟨?_, ?_, ?_⟩, ?_⟩
      · rw [count]
        omega
      · rw [head]
        exact fun _ => advance_lt inside
      · intro positive
        rw [tail, head, count, seat, advance_eq (Nat.mod_lt _ positive), Nat.mod_add_mod]
        rfl
      · rw [count, head, queue, seat, heldIn_push (by omega), size, heldIn_cons inside, advance_eq inside]
        simp

section Mouse

variable {a : Axis} {owed delta : BitVec 12} {account : Account}

theorem signExtend_narrowed (w : BitVec 12) : (w.signExtend 13).setWidth 12 = w := by
  apply BitVec.eq_of_getLsbD_eq
  intro t below
  rw [BitVec.getLsbD_setWidth, BitVec.getLsbD_signExtend]
  simp [below, show t < 13 by omega]

theorem added_toInt (inside : past owed delta = false) :
    (added owed delta).toInt = owed.toInt + delta.toInt := by
  have first := BitVec.toInt_lt (x := owed)
  have second := BitVec.le_toInt owed
  have third := BitVec.toInt_lt (x := delta)
  have fourth := BitVec.le_toInt delta
  have bounds : ¬ (2047 < owed.toInt + delta.toInt ∨ owed.toInt + delta.toInt < -2048) :=
    of_decide_eq_false inside
  have wide : (owed.signExtend 13 + delta.signExtend 13).toInt = owed.toInt + delta.toInt := by
    rw [BitVec.toInt_add, BitVec.toInt_signExtend_of_le (by decide),
      BitVec.toInt_signExtend_of_le (by decide), Int.bmod_eq_of_le (by omega) (by omega)]
  have narrow : (owed.signExtend 13 + delta.signExtend 13).setWidth 12 = owed + delta := by
    rw [BitVec.setWidth_add _ _ (by decide), signExtend_narrowed, signExtend_narrowed]
  unfold added sat12
  rw [if_neg (by rw [BitVec.slt_iff_toInt_lt, wide]; simp; omega),
    if_neg (by rw [BitVec.slt_iff_toInt_lt, wide]; simp; omega), narrow, BitVec.toInt_add,
    Int.bmod_eq_of_le (by omega) (by omega)]

theorem step_moved (a : Axis) : moved a.phase a.step.phase + a.step.owed.toInt = a.owed.toInt := by
  have high := BitVec.toInt_lt (x := a.owed)
  have low := BitVec.le_toInt a.owed
  have one : (1#12).toInt = 1 := by decide
  unfold Axis.step
  by_cases up : (0#12).slt a.owed = true
  · have positive : 0 < a.owed.toInt := BitVec.slt_iff_toInt_lt.mp up
    have still : moved a.phase (a.phase + 1#2) = 1 := by simp [moved]
    rw [if_pos up]
    dsimp only
    rw [still, BitVec.toInt_sub, one, Int.bmod_eq_of_le (by omega) (by omega)]
    omega
  · rw [if_neg up]
    by_cases down : a.owed.slt 0#12 = true
    · have negative : a.owed.toInt < 0 := BitVec.slt_iff_toInt_lt.mp down
      have other : a.phase - 1#2 ≠ a.phase + 1#2 := by
        generalize a.phase = phase
        revert phase
        decide
      have back : moved a.phase (a.phase - 1#2) = -1 := by simp [moved, other]
      rw [if_pos down]
      dsimp only
      rw [back, BitVec.toInt_add, one, Int.bmod_eq_of_le (by omega) (by omega)]
      omega
    · have stays : moved a.phase a.phase = 0 := by
        generalize a.phase = phase
        revert phase
        decide
      rw [if_neg down, stays]
      omega

/-- What an axis owes is what was written less the steps made, unless a sum was held at an end. -/
def Balanced (account : Account) (a : Axis) : Prop :=
  account.saturated = false → account.steps + a.owed.toInt = account.written

theorem Balanced.next (balanced : Balanced account a) {ends : Bool} {write : Option (BitVec 12)}
    (apart : ends = true → write.isSome = true → a.owed = 0#12) :
    Balanced (account.next a (a.next ends write) write) (a.next ends write) := by
  have stays (phase : BitVec 2) : moved phase phase = 0 := by
    revert phase
    decide
  cases write with
  | none =>
    intro free
    have before := balanced free
    have step := step_moved a
    cases ends with
    | false => simp [Account.next, Axis.next, stays, before]
    | true =>
      simp only [Account.next, Axis.next, if_true]
      omega
  | some delta =>
    intro free
    simp only [Account.next, Bool.or_eq_false_iff] at free
    have before := balanced free.1
    have sum := added_toInt free.2
    have phase : (a.next ends (some delta)).phase = a.phase := by
      cases ends with
      | false => rfl
      | true =>
        have rest : a.owed = 0#12 := apart rfl rfl
        simp [Axis.next, Axis.step, rest]
    have owed : (a.next ends (some delta)).owed = added a.owed delta := rfl
    simp only [Account.next]
    rw [phase, owed, stays, sum]
    omega

end Mouse

/-- What holds of the key words at every clock. -/
structure Kept (depth : Nat) (s : Cables) (ledger : Ledger) : Prop where
  queued : Queued depth s
  words : ledger.strobed ++ s.waiting depth = ledger.accepted
  lost : s.lost.toNat = min ledger.refused (2 ^ 32 - 1)

theorem kept_empty {queue : Nat → BitVec 24} : Kept depth (.reset stepTicks queue) (.opened 0) :=
  ⟨⟨Nat.zero_le _, id, fun _ => (Nat.zero_mod _).symm⟩, rfl, rfl⟩

theorem lost_clock (lost : s.lost.toNat = min ledger.refused (2 ^ 32 - 1)) :
    (s.clock depth stepTicks i).lost.toNat =
      min (ledger.refused + if i.key && !s.room depth then 1 else 0) (2 ^ 32 - 1) := by
  have last : s.lost = 0xFFFFFFFF#32 ↔ s.lost.toNat = 2 ^ 32 - 1 :=
    ⟨fun same => by rw [same]; rfl, fun same => BitVec.eq_of_toNat_eq same⟩
  unfold Cables.clock
  dsimp only
  cases full : i.key && !s.room depth with
  | false =>
    rw [if_neg (by simp), if_neg (by simp)]
    exact lost
  | true =>
    rw [if_pos rfl, Bool.true_and]
    by_cases ended : s.lost = 0xFFFFFFFF#32
    · have value := last.mp ended
      rw [if_neg (by simp [ended]), value]
      omega
    · have value : s.lost.toNat ≠ 2 ^ 32 - 1 := fun same => ended (last.mpr same)
      rw [if_pos (by simpa using ended), BitVec.toNat_add]
      simp only [BitVec.toNat_ofNat]
      omega

theorem Kept.next (kept : Kept depth s ledger) :
    Kept depth (s.next depth stepTicks i) (ledger.next depth stepTicks s i) := by
  unfold Cables.next Ledger.next
  by_cases rst : (i.rst || i.fabricRst) = true
  · rw [if_pos rst, if_pos rst]
    exact kept_empty
  · rw [if_neg rst, if_neg rst]
    dsimp only
    have lost : (s.clock depth stepTicks i).lost.toNat =
      min (ledger.refused + if i.key && !s.room depth then 1 else 0) (2 ^ 32 - 1) := lost_clock kept.lost
    by_cases clears : i.clears = true
    · rw [if_pos clears, if_pos clears]
      exact ⟨⟨Nat.zero_le _, id, fun _ => (Nat.zero_mod _).symm⟩, rfl, lost⟩
    · rw [if_neg clears, if_neg clears]
      have same : s.next depth stepTicks i = s.clock depth stepTicks i := by
        unfold Cables.next
        rw [if_neg rst, if_neg clears]
      rw [same]
      obtain ⟨queued, words⟩ := waiting_clock stepTicks i kept.queued
      refine ⟨queued, ?_, lost⟩
      dsimp only
      rw [← kept.words, List.append_assoc, List.append_assoc, words]
      have strobe : (s.clock depth stepTicks i).kbdStrobe = s.taking := rfl
      rw [strobe]
      cases taking : s.taking with
      | false => simp
      | true =>
        have code : (s.clock depth stepTicks i).kbdCode = s.queue s.head := by
          simp [Cables.clock, taking]
        rw [code]

/-- A delta is written in the clock an axis steps. -/
def Clash (s : Cables) (i : Input) : Prop := i.mouse = true ∧ s.ends = true ∧ s.owes = true

theorem balanced_next (apart : ¬ Clash s i) (x : Balanced ledger.x s.x) (y : Balanced ledger.y s.y) :
    Balanced (ledger.next depth stepTicks s i).x (s.next depth stepTicks i).x ∧
      Balanced (ledger.next depth stepTicks s i).y (s.next depth stepTicks i).y := by
  have rest (ends : s.ends = true) (mouse : i.mouse = true) :
      s.x.owed = 0#12 ∧ s.y.owed = 0#12 := by
    have none : s.owes = false := by
      cases owes : s.owes with
      | false => rfl
      | true => exact absurd ⟨mouse, ends, owes⟩ apart
    simpa [Cables.owes] using none
  have written {delta : BitVec 12}
      (some : (if i.mouse then Option.some delta else none).isSome = true) : i.mouse = true := by
    cases mouse : i.mouse with
    | false => simp [mouse] at some
    | true => rfl
  unfold Cables.next Ledger.next
  by_cases rst : (i.rst || i.fabricRst) = true
  · rw [if_pos rst, if_pos rst]
    exact ⟨fun _ => rfl, fun _ => rfl⟩
  · rw [if_neg rst, if_neg rst]
    dsimp only
    by_cases clears : i.clears = true
    · rw [if_pos clears, if_pos clears]
      exact ⟨fun _ => rfl, fun _ => rfl⟩
    · rw [if_neg clears, if_neg clears]
      have same : s.next depth stepTicks i = s.clock depth stepTicks i := by
        unfold Cables.next
        rw [if_neg rst, if_neg clears]
      rw [same]
      exact ⟨x.next fun ends some => (rest ends (written some)).1,
        y.next fun ends some => (rest ends (written some)).2⟩

section Run

variable (depth stepTicks : Nat) (queue : Nat → BitVec 24) (inputs : Nat → Input)

/-- A run of the port from its reset, with the account of it. -/
def run : Nat → Cables × Ledger :=
  trace (fun i p => (p.1.next depth stepTicks i, p.2.next depth stepTicks p.1 i))
    (.reset stepTicks queue, .opened 0) inputs

/-- A word goes to the card after a clock. -/
def Strobes (clock : Nat) : Prop := (run depth stepTicks queue inputs (clock + 1)).1.kbdStrobe = true

/-- Nothing clears the queue in a clock. -/
def Clear (clock : Nat) : Prop :=
  ((inputs clock).rst || (inputs clock).fabricRst || (inputs clock).clears) = false

variable {depth stepTicks queue inputs} {clock later : Nat}

/-- The ledger is kept in every run. -/
theorem run_kept (clock : Nat) : Kept depth (run depth stepTicks queue inputs clock).1
    (run depth stepTicks queue inputs clock).2 := by
  induction clock with
  | zero => exact kept_empty
  | succ clock ih => exact ih.next

theorem run_clear (clear : Clear inputs clock) : (run depth stepTicks queue inputs (clock + 1)).1 =
    (run depth stepTicks queue inputs clock).1.clock depth stepTicks (inputs clock) := by
  unfold Clear at clear
  rw [Bool.or_eq_false_iff] at clear
  change (run depth stepTicks queue inputs clock).1.next depth stepTicks (inputs clock) = _
  unfold Cables.next
  rw [if_neg (by simp [clear.1]), if_neg (by simp [clear.2])]

theorem taking_of_strobes (strobes : Strobes depth stepTicks queue inputs clock) :
    Clear inputs clock ∧ (run depth stepTicks queue inputs clock).1.taking = true := by
  have next : (run depth stepTicks queue inputs (clock + 1)).1 =
      (run depth stepTicks queue inputs clock).1.next depth stepTicks (inputs clock) := rfl
  unfold Strobes at strobes
  rw [next] at strobes
  unfold Cables.next at strobes
  split_ifs at strobes with rst clears
  · exact absurd strobes (by simp [Cables.reset])
  · exact absurd strobes (by simp [Cables.cleared])
  · refine ⟨?_, strobes⟩
    unfold Clear
    simpa [rst] using clears

theorem pending_until (strobes : Strobes depth stepTicks queue inputs clock) (order : clock < later)
    (clear : ∀ between, clock < between → between < later → Clear inputs between) :
    (run depth stepTicks queue inputs later).1.sentPending = true ∨
      ∃ up, clock < up ∧ up < later ∧ (run depth stepTicks queue inputs up).1.kbdReady = true := by
  induction later, order using Nat.le_induction with
  | base =>
    obtain ⟨kept, taking⟩ := taking_of_strobes strobes
    left
    rw [run_clear kept]
    simp [Cables.clock, taking]
  | succ later order ih =>
    have before := ih fun between after early => clear between after (by omega)
    obtain pending | ⟨up, after, early, ready⟩ := before
    · cases ready : (run depth stepTicks queue inputs later).1.kbdReady with
      | true => exact Or.inr ⟨later, order, Nat.lt_succ_self later, ready⟩
      | false =>
        left
        rw [run_clear (clear later order (Nat.lt_succ_self later))]
        simp [Cables.clock, ready, pending]
    · exact Or.inr ⟨up, after, by omega, ready⟩

/-- Between two words the first is offered and withdrawn. -/
theorem ready_between (strobes : Strobes depth stepTicks queue inputs clock) (order : clock < later)
    (again : Strobes depth stepTicks queue inputs later)
    (clear : ∀ between, clock < between → between < later → Clear inputs between) :
    ∃ up down, clock < up ∧ up < down ∧ down ≤ later ∧
      (run depth stepTicks queue inputs up).1.kbdReady = true ∧
      (run depth stepTicks queue inputs down).1.kbdReady = false := by
  have taking := (taking_of_strobes again).2
  simp only [Cables.taking, Bool.and_eq_true, Bool.not_eq_true'] at taking
  obtain pending | ⟨up, after, early, ready⟩ := pending_until strobes order clear
  · rw [taking.1.2] at pending
    exact absurd pending (by simp)
  · exact ⟨up, later, after, early, Nat.le_refl later, ready, taking.1.1⟩

theorem strobes_of_open (clear : Clear inputs clock)
    (open' : (run depth stepTicks queue inputs clock).1.taking = true) :
    Strobes depth stepTicks queue inputs clock ∧
      (run depth stepTicks queue inputs (clock + 1)).1.kbdCode =
        (run depth stepTicks queue inputs clock).1.queue
          (run depth stepTicks queue inputs clock).1.head := by
  unfold Strobes
  rw [run_clear clear]
  exact ⟨open', by simp [Cables.clock, open']⟩

/-- With no clash the counts agree. -/
theorem run_balanced
    (apart : ∀ earlier, earlier < clock →
      ¬ Clash (run depth stepTicks queue inputs earlier).1 (inputs earlier)) :
    Balanced (run depth stepTicks queue inputs clock).2.x (run depth stepTicks queue inputs clock).1.x ∧
      Balanced (run depth stepTicks queue inputs clock).2.y
        (run depth stepTicks queue inputs clock).1.y := by
  induction clock with
  | zero => exact ⟨fun _ => rfl, fun _ => rfl⟩
  | succ clock ih =>
    obtain ⟨x, y⟩ := ih fun earlier before => apart earlier (by omega)
    exact balanced_next (apart clock (Nat.lt_succ_self clock)) x y

end Run

/-- The key words arrive once each and the mouse exactly: since the last flush or reset the words
strobed to the card and those waiting are the words accepted, in order; the queue's count is the slots
between its head and its tail and never more than its depth; `LOST` counts the words refused since the
port's reset, up to its end; the next word goes when the card has read the last, and between two the
card's `KBD READY` is seen up and down again; and in a run where no delta is written in the clock an
axis steps, the steps made and those owed are the deltas written, where no sum was held at an end. -/
theorem input_arrives (depth stepTicks : Nat) (queue : Nat → BitVec 24) (inputs : Nat → Input)
    (clock : Nat) :
    let s := (run depth stepTicks queue inputs clock).1
    let ledger := (run depth stepTicks queue inputs clock).2
    ledger.strobed ++ s.waiting depth = ledger.accepted ∧
    (s.count ≤ depth ∧ (0 < depth → s.head < depth ∧ s.tail = (s.head + s.count) % depth)) ∧
    s.lost.toNat = min ledger.refused (2 ^ 32 - 1) ∧
    (Clear inputs clock → s.taking = true → Strobes depth stepTicks queue inputs clock ∧
      (run depth stepTicks queue inputs (clock + 1)).1.kbdCode = s.queue s.head) ∧
    (∀ later, clock < later → Strobes depth stepTicks queue inputs clock →
      Strobes depth stepTicks queue inputs later →
      (∀ between, clock < between → between < later → Clear inputs between) →
      ∃ up down, clock < up ∧ up < down ∧ down ≤ later ∧
        (run depth stepTicks queue inputs up).1.kbdReady = true ∧
        (run depth stepTicks queue inputs down).1.kbdReady = false) ∧
    ((∀ earlier, earlier < clock →
        ¬ Clash (run depth stepTicks queue inputs earlier).1 (inputs earlier)) →
      (ledger.x.saturated = false →
        ledger.x.steps + s.x.owed.toInt = ledger.x.written) ∧
      (ledger.y.saturated = false →
        ledger.y.steps + s.y.owed.toInt = ledger.y.written)) := by
  dsimp only
  have kept : Kept depth (run depth stepTicks queue inputs clock).1
      (run depth stepTicks queue inputs clock).2 := run_kept clock
  refine ⟨kept.words, ⟨kept.queued.few, fun some =>
    ⟨kept.queued.inside some, kept.queued.tail some⟩⟩, kept.lost, strobes_of_open, ?_, run_balanced⟩
  intro later order first again clear
  exact ready_between first order again clear

/-- A key word written, then a delta of one to the right; the card has the word three clocks on. -/
def typed (clock : Nat) : Input :=
  ⟨false, false, false, decide (clock < 2), if clock = 0 then 2#10 else 3#10, 1#32, 0xFFFFFFFF#32,
    if clock = 4 then 0x20#8 else 0#8⟩

/-- The word arrives, and the step. -/
theorem input_arrives_typed :
    (run 16 4 (fun _ => 0#24) typed 6).2.strobed ++ (run 16 4 (fun _ => 0#24) typed 6).1.waiting 16 =
        [1#24] ∧
      (run 16 4 (fun _ => 0#24) typed 6).2.x.steps +
        (run 16 4 (fun _ => 0#24) typed 6).1.x.owed.toInt = 1 := by
  obtain ⟨words, -, -, -, -, balanced⟩ := input_arrives 16 4 (fun _ => 0#24) typed 6
  have apart : ∀ earlier, earlier < 6 →
      ¬ Clash (run 16 4 (fun _ => 0#24) typed earlier).1 (typed earlier) := by
    unfold Clash
    decide
  have free : (run 16 4 (fun _ => 0#24) typed 6).2.x.saturated = false := by decide
  have written : (run 16 4 (fun _ => 0#24) typed 6).2.x.written = 1 := by decide
  have accepted : (run 16 4 (fun _ => 0#24) typed 6).2.accepted = [1#24] := by decide
  exact ⟨words.trans accepted, ((balanced apart).1 free).trans written⟩

/-- A delta of one to the right written in each of the first two clocks. -/
def twoDeltas (clock : Nat) : Input :=
  ⟨false, false, false, decide (clock < 2), 3#10, 1#32, 0xFFFFFFFF#32, 0#8⟩

/-- Where a step takes two clocks, the second is written in the clock of the first's step, and three
steps are made or owed. -/
theorem step_not_counted : ¬ ∀ (depth stepTicks : Nat) (queue : Nat → BitVec 24)
    (inputs : Nat → Input) (clock : Nat), 1 ≤ stepTicks → stepTicks ≤ 4096 →
    (run depth stepTicks queue inputs clock).2.x.saturated = false →
      (run depth stepTicks queue inputs clock).2.x.steps +
        (run depth stepTicks queue inputs clock).1.x.owed.toInt =
          (run depth stepTicks queue inputs clock).2.x.written := by
  intro always
  have balance := always 16 2 (fun _ => 0#24) twoDeltas 2 (by decide) (by decide) (by decide)
  revert balance
  decide

end MuirFpga.Plumbing.InputCables
