import MuirFpga.Chaosnet.Inject
import Mathlib.Data.List.Induction
import Mathlib.Data.List.Nodup

/-!
# What the injector loses and keeps

The edge as a list of waiting frames, the interface's offers and the counts, and what one call can do to
them. Every frame is in one of the counts or waits, and those addressed to the machine keep their order.
-/

namespace MuirFpga.Chaosnet.Inject

open MuirFpga.Sync

/-- The edge seen from outside. -/
structure Edge where
  given : List Given
  log : List Offered
  waiting : List Given
  offers : Nat
  counts : Counts

def History.edge (h : History) : Edge := ⟨h.given, h.log, h.queue.frames, h.queue.offers, h.queue.toCounts⟩

section Step

variable (ulongMax : Nat)

/-- What a call can do. -/
inductive Step (e : Edge) : Edge → Prop where
  | long (x : Given) (no : x.no = e.given.length) (beyond : maxWords < x.words.length) :
      Step e { e with given := e.given ++ [x], log := e.log ++ [⟨x, false, e.waiting⟩] }
  | heard (x : Given) (no : x.no = e.given.length) (toAll : broadcast x.words = true) :
      Step e { e with
        given := e.given ++ [x], log := e.log ++ [⟨x, true, e.waiting⟩]
        counts := { e.counts with
          taken := bump ulongMax e.counts.taken, stored := bump ulongMax e.counts.stored } }
  | unheard (x : Given) (no : x.no = e.given.length) (toAll : broadcast x.words = true) :
      Step e { e with
        given := e.given ++ [x], log := e.log ++ [⟨x, false, e.waiting⟩]
        counts := { e.counts with
          taken := bump ulongMax e.counts.taken, refused := bump ulongMax e.counts.refused
          broadcastsLost := bump ulongMax e.counts.broadcastsLost } }
  | direct (x : Given) (no : x.no = e.given.length) (fits : x.words.length ≤ maxWords)
      (toOne : broadcast x.words = false) (alone : e.waiting = []) :
      Step e { e with
        given := e.given ++ [x], log := e.log ++ [⟨x, true, e.waiting⟩]
        counts := { e.counts with
          taken := bump ulongMax e.counts.taken, stored := bump ulongMax e.counts.stored } }
  | waits (x : Given) (no : x.no = e.given.length) (fits : x.words.length ≤ maxWords)
      (toOne : broadcast x.words = false) (alone : e.waiting = []) :
      Step e { e with
        given := e.given ++ [x], log := e.log ++ [⟨x, false, e.waiting⟩], waiting := [x], offers := e.offers + 1
        counts := { e.counts with
          taken := bump ulongMax e.counts.taken, refused := bump ulongMax e.counts.refused } }
  | full (x : Given) (no : x.no = e.given.length) (fits : x.words.length ≤ maxWords)
      (toOne : broadcast x.words = false) :
      Step e { e with
        given := e.given ++ [x]
        counts := { e.counts with
          taken := bump ulongMax e.counts.taken, noRoom := bump ulongMax e.counts.noRoom } }
  | joins (x : Given) (no : x.no = e.given.length) (fits : x.words.length ≤ maxWords)
      (toOne : broadcast x.words = false) (behind : e.waiting ≠ []) (room : e.waiting.length < queueSize) :
      Step e { e with
        given := e.given ++ [x], waiting := e.waiting ++ [x]
        counts := { e.counts with taken := bump ulongMax e.counts.taken } }
  | still : Step e e
  | stored (x : Given) (rest : List Given) (turn : e.waiting = x :: rest) :
      Step e { e with
        log := e.log ++ [⟨x, true, e.waiting⟩], waiting := rest, offers := 0
        counts := { e.counts with stored := bump ulongMax e.counts.stored } }
  | refused (x : Given) (rest : List Given) (turn : e.waiting = x :: rest)
      (again : e.offers + 1 < maxOffers) :
      Step e { e with
        log := e.log ++ [⟨x, false, e.waiting⟩], offers := e.offers + 1
        counts := { e.counts with refused := bump ulongMax e.counts.refused } }
  | givenUp (x : Given) (rest : List Given) (turn : e.waiting = x :: rest) :
      Step e { e with
        log := e.log ++ [⟨x, false, e.waiting⟩], waiting := rest, offers := 0
        counts := { e.counts with
          refused := bump ulongMax e.counts.refused, givenUp := bump ulongMax e.counts.givenUp } }

variable {ulongMax} {s : Queue} {f : Given} {takes : Bool}

theorem faceGive_long (beyond : maxWords < f.words.length) : faceGive f.words takes = false := by
  unfold faceGive
  rw [decide_eq_false_iff_not]
  omega

/-- The places of the ring in use. -/
structure Placed (s : Queue) : Prop where
  head : s.head < queueSize
  few : s.waiting ≤ queueSize

theorem Placed.turn (placed : Placed s) (some_ : s.waiting ≠ 0) :
    s.frames = s.q s.head :: heldIn s.q queueSize ((s.head + 1) % queueSize) (s.waiting - 1) := by
  obtain ⟨n, more⟩ := Nat.exists_eq_succ_of_ne_zero some_
  unfold Queue.frames
  rw [more]
  exact heldIn_cons placed.head

theorem commit_cases (ulongMax : Nat) (s : Queue) (f : Given) (takes : Bool) :
    s.commit ulongMax f takes = ({ s with stored := bump ulongMax s.stored }, true) ∨
      s.commit ulongMax f takes = ({ s with refused := bump ulongMax s.refused }, false) := by
  unfold Queue.commit
  split
  · exact .inl rfl
  · exact .inr rfl

theorem give_step (ulongMax : Nat) {h : History} (placed : Placed h.queue) (words : List Word)
    (now : BitVec 64) (takes : Bool) :
    Step ulongMax h.edge (h.step ulongMax (.give words now takes)).edge ∧
      Placed (h.step ulongMax (.give words now takes)).queue := by
  let x : Given := ⟨words, h.given.length⟩
  have turned (turn : Turn) (given : h.queue.give ulongMax x now takes = turn) :
      h.step ulongMax (.give words now takes) = ⟨h.given ++ [x],
        h.log ++ (turn.offered.map fun stored => (⟨x, stored, h.queue.frames⟩ : Offered)).toList,
        turn.queue⟩ := by
    rw [← given]
    rfl
  by_cases beyond : words.length > maxWords
  · rw [turned ⟨h.queue, some (faceGive words takes), true⟩ (if_pos beyond), faceGive_long (f := x) beyond]
    exact ⟨.long x rfl beyond, placed⟩
  by_cases toAll : broadcast words = true
  · have given : h.queue.give ulongMax x now takes = _ := (if_neg beyond).trans (if_pos toAll)
    cases commit_cases ulongMax { h.queue with taken := bump ulongMax h.queue.taken } x takes with
    | inl took =>
      rw [took] at given
      rw [turned _ given]
      exact ⟨.heard x rfl toAll, placed.head, placed.few⟩
    | inr refused =>
      rw [refused] at given
      rw [turned _ given]
      exact ⟨.unheard x rfl toAll, placed.head, placed.few⟩
  have toOne : broadcast words = false := (Bool.not_eq_true _).mp toAll
  by_cases alone : h.queue.waiting = 0
  · have none_ : h.queue.frames = [] := by
      unfold Queue.frames
      rw [alone]
      rfl
    have given : h.queue.give ulongMax x now takes = _ :=
      (if_neg beyond).trans ((if_neg toAll).trans (if_pos alone))
    unfold Queue.offer at given
    cases commit_cases ulongMax { h.queue with taken := bump ulongMax h.queue.taken } x takes with
    | inl took =>
      rw [took] at given
      rw [turned _ given]
      exact ⟨.direct x rfl (not_lt.mp beyond) toOne none_, placed.head, placed.few⟩
    | inr refused =>
      rw [refused] at given
      rw [turned _ given]
      have frames : heldIn (Function.update h.queue.q h.queue.head x) queueSize h.queue.head 1 = [x] := by
        have pushed := @heldIn_push _ h.queue.q queueSize h.queue.head 0 x (by decide)
        rw [Nat.add_zero, Nat.mod_eq_of_lt placed.head] at pushed
        exact pushed
      refine ⟨?_, placed.head, (by decide : 1 ≤ queueSize)⟩
      show Step ulongMax h.edge ⟨_, _, heldIn (Function.update h.queue.q h.queue.head x) queueSize h.queue.head 1, _, _⟩
      rw [frames]
      exact .waits x rfl (not_lt.mp beyond) toOne none_
  by_cases room : h.queue.waiting = queueSize
  · have given : h.queue.give ulongMax x now takes = _ :=
      (if_neg beyond).trans ((if_neg toAll).trans ((if_neg alone).trans (if_pos room)))
    rw [turned _ given, Option.map_none, Option.toList_none, List.append_nil]
    exact ⟨.full x rfl (not_lt.mp beyond) toOne, placed.head, placed.few⟩
  · have given : h.queue.give ulongMax x now takes = _ :=
      (if_neg beyond).trans ((if_neg toAll).trans ((if_neg alone).trans (if_neg room)))
    have less : h.queue.waiting < queueSize := Nat.lt_of_le_of_ne placed.few room
    have behind : h.queue.frames ≠ [] := by
      intro none_
      have length := congrArg List.length none_
      unfold Queue.frames at length
      rw [length_heldIn] at length
      exact alone length
    have fewer : h.queue.frames.length < queueSize := by
      unfold Queue.frames
      rw [length_heldIn]
      exact less
    rw [turned _ given, Option.map_none, Option.toList_none, List.append_nil]
    refine ⟨?_, placed.head, less⟩
    show Step ulongMax h.edge ⟨_, _, heldIn (Function.update h.queue.q
      ((h.queue.head + h.queue.waiting) % queueSize) x) queueSize h.queue.head (h.queue.waiting + 1), _, _⟩
    rw [heldIn_push less]
    exact .joins x rfl (not_lt.mp beyond) toOne behind fewer

theorem pump_step (ulongMax : Nat) {h : History} (placed : Placed h.queue) (now : BitVec 64)
    (freed takes : Bool) :
    Step ulongMax h.edge (h.step ulongMax (.pump now freed takes)).edge ∧
      Placed (h.step ulongMax (.pump now freed takes)).queue := by
  have turned (turn : Turn) (pumped : h.queue.pump ulongMax now freed takes = turn) :
      h.step ulongMax (.pump now freed takes) = ⟨h.given,
        h.log ++ (turn.offered.map fun stored =>
          (⟨h.queue.q h.queue.head, stored, h.queue.frames⟩ : Offered)).toList, turn.queue⟩ := by
    rw [← pumped]
    rfl
  by_cases none_ : h.queue.waiting = 0
  · rw [turned _ (if_pos none_), Option.map_none, Option.toList_none, List.append_nil]
    exact ⟨.still, placed⟩
  by_cases early : h.queue.held ∧ !freed ∧ (now - h.queue.refusedAt).toNat < waitNs
  · rw [turned _ ((if_neg none_).trans (if_pos early)), Option.map_none, Option.toList_none, List.append_nil]
    exact ⟨.still, placed⟩
  have pumped : h.queue.pump ulongMax now freed takes = _ := (if_neg none_).trans (if_neg early)
  have turn := placed.turn none_
  have inside : (h.queue.head + 1) % queueSize < queueSize := Nat.mod_lt _ (by decide)
  have fewer : h.queue.waiting - 1 ≤ queueSize := (Nat.sub_le _ _).trans placed.few
  unfold Queue.offer at pumped
  cases commit_cases ulongMax h.queue (h.queue.q h.queue.head) takes with
  | inl took =>
    rw [took] at pumped
    rw [turned _ pumped]
    exact ⟨.stored _ _ turn, inside, fewer⟩
  | inr refused =>
    rw [refused] at pumped
    by_cases last : h.queue.offers + 1 ≥ maxOffers
    · rw [turned _ (pumped.trans (if_pos last))]
      exact ⟨.givenUp _ _ turn, inside, fewer⟩
    · rw [turned _ (pumped.trans (if_neg last))]
      exact ⟨.refused _ _ turn (not_le.mp last), placed.head, placed.few⟩

end Step

/-- The offers made of a frame. -/
def offersOf (log : List Offered) (x : Given) : Nat := log.countP fun o => o.frame.no = x.no

/-- A frame for the machine alone that a slot has room for. -/
def queueable (x : Given) : Bool := !broadcast x.words && x.words.length ≤ maxWords

/-- The frames stored that are for the machine alone. -/
def storedFrames (log : List Offered) : List Given :=
  (log.filter fun o => o.stored && !broadcast o.frame.words).map Offered.frame

/-- Every frame taken is in one of four counts or waits. -/
def Closed (ulongMax : Nat) (c : Counts) (waiting : Nat) : Prop :=
  c.taken < ulongMax → c.taken = c.stored + c.givenUp + c.noRoom + c.broadcastsLost + waiting

/-- No frame is offered while one that came before it waits. -/
def Unjumped (log : List Offered) : Prop :=
  ∀ o ∈ log, broadcast o.frame.words = false → ∀ w ∈ o.waiting, o.frame.no ≤ w.no

/-- What stands of an edge after any calls. -/
structure Books (ulongMax : Nat) (e : Edge) : Prop where
  closed : Closed ulongMax e.counts e.waiting.length
  few : e.waiting.length ≤ queueSize
  numbers : e.given.map Given.no = List.range e.given.length
  known : ∀ o ∈ e.log, o.frame ∈ e.given
  order : (storedFrames e.log ++ e.waiting).Sublist (e.given.filter queueable)
  idle : e.waiting = [] → e.offers = 0
  turn : ∀ x ∈ e.waiting.head?, offersOf e.log x = e.offers ∧ e.offers < maxOffers
  fresh : ∀ x ∈ e.waiting.tail, offersOf e.log x = 0
  bound : ∀ x ∈ e.given, offersOf e.log x ≤ maxOffers
  once : ∀ x ∈ e.given, queueable x = false → offersOf e.log x = 1
  unjumped : Unjumped (e.log.filter fun o => o.frame.words.length ≤ maxWords)

section Books

variable {ulongMax : Nat} {e e' : Edge} {x y : Given} {log : List Offered} {o : Offered}

theorem offersOf_append : offersOf (log ++ [o]) x = offersOf log x + if o.frame.no = x.no then 1 else 0 := by
  unfold offersOf
  rw [List.countP_append, List.countP_singleton]
  simp

theorem storedFrames_append : storedFrames (log ++ [o]) =
    storedFrames log ++ if o.stored && !broadcast o.frame.words then [o.frame] else [] := by
  unfold storedFrames
  rw [List.filter_append, List.map_append]
  congr 1
  by_cases kept : (o.stored && !broadcast o.frame.words) = true
  · rw [if_pos kept, List.filter_cons, if_pos kept]
    rfl
  · rw [if_neg kept, List.filter_cons, if_neg kept]
    rfl

theorem Books.increasing (books : Books ulongMax e) : e.given.Pairwise fun a b => a.no < b.no := by
  rw [← List.pairwise_map, books.numbers]
  exact List.pairwise_lt_range

theorem Books.no_lt (books : Books ulongMax e) (came : x ∈ e.given) : x.no < e.given.length := by
  have among := @List.mem_map_of_mem _ _ _ _ Given.no came
  rw [books.numbers] at among
  exact List.mem_range.mp among

theorem Books.same (books : Books ulongMax e) (came : x ∈ e.given) (cameY : y ∈ e.given) (no : x.no = y.no) :
    x = y := by
  have distinct : (e.given.map Given.no).Nodup := books.numbers ▸ List.nodup_range
  exact List.inj_on_of_nodup_map distinct came cameY no

theorem Books.waits (books : Books ulongMax e) (waits : x ∈ e.waiting) : x ∈ e.given ∧ queueable x = true :=
  List.mem_filter.mp (books.order.subset (List.mem_append_right _ waits))

theorem Books.queued (books : Books ulongMax e) : e.waiting.Pairwise fun a b => a.no < b.no :=
  books.increasing.sublist (((List.sublist_append_right _ _).trans books.order).trans List.filter_sublist)

theorem Books.offersOf_new (books : Books ulongMax e) (no : x.no = e.given.length) : offersOf e.log x = 0 := by
  unfold offersOf
  rw [List.countP_eq_zero]
  intro o among same
  have number := books.no_lt (books.known o among)
  rw [of_decide_eq_true same, no] at number
  exact absurd number (Nat.lt_irrefl _)

/-- A step keeps the counts balanced. -/
theorem Step.closed (step : Step ulongMax e e') (before : Closed ulongMax e.counts e.waiting.length) :
    Closed ulongMax e'.counts e'.waiting.length := by
  unfold Closed at before ⊢
  cases step with
  | long x no beyond => exact before
  | heard x no toAll =>
    intro below
    simp only [bump] at below ⊢
    grind
  | unheard x no toAll =>
    intro below
    simp only [bump] at below ⊢
    grind
  | direct x no fits toOne alone =>
    intro below
    simp only [bump] at below ⊢
    grind
  | waits x no fits toOne alone =>
    intro below
    simp only [bump, alone, List.length_nil, List.length_singleton] at below before ⊢
    grind
  | full x no fits toOne =>
    intro below
    simp only [bump] at below ⊢
    grind
  | joins x no fits toOne behind room =>
    intro below
    simp only [bump, List.length_append, List.length_singleton] at below ⊢
    grind
  | still => exact before
  | stored x rest turn =>
    intro below
    simp only [bump, turn, List.length_cons] at below before ⊢
    grind
  | refused x rest turn again => exact before
  | givenUp x rest turn =>
    intro below
    simp only [bump, turn, List.length_cons] at below before ⊢
    grind

/-- A frame that comes, and the offers made of it at once. -/
structure Comes (x : Given) (made : List Offered) (e e' : Edge) : Prop where
  no : x.no = e.given.length
  given : e'.given = e.given ++ [x]
  log : e'.log = e.log ++ made
  own : ∀ o ∈ made, o.frame = x
  few : made.length ≤ 1
  once : queueable x = false → made.length = 1
  alone : queueable x = true → ∀ o ∈ made, o.waiting = []

variable {made : List Offered} {rest : List Given} {stored : Bool}

theorem Comes.offeredOnce (no : x.no = e.given.length) (given : e'.given = e.given ++ [x])
    (log : e'.log = e.log ++ [⟨x, stored, e.waiting⟩]) (alone : queueable x = true → e.waiting = []) :
    Comes x [⟨x, stored, e.waiting⟩] e e' where
  no := no
  given := given
  log := log
  own o among := by rw [List.mem_singleton.mp among]
  few := Nat.le_refl 1
  once _ := rfl
  alone queued o among := by
    rw [List.mem_singleton.mp among]
    exact alone queued

theorem Comes.unoffered (no : x.no = e.given.length) (given : e'.given = e.given ++ [x]) (log : e'.log = e.log)
    (queued : queueable x = true) : Comes x [] e e' where
  no := no
  given := given
  log := by rw [log, List.append_nil]
  own o among := by cases among
  few := Nat.zero_le 1
  once unfit := by
    rw [queued] at unfit
    cases unfit
  alone _ o among := by cases among

theorem Comes.others (comes : Comes x made e e') (books : Books ulongMax e) (came : y ∈ e.given) :
    offersOf e'.log y = offersOf e.log y := by
  have other : offersOf made y = 0 := by
    unfold offersOf
    rw [List.countP_eq_zero]
    intro o among same
    have number := books.no_lt came
    rw [← of_decide_eq_true same, comes.own o among, comes.no] at number
    exact absurd number (Nat.lt_irrefl _)
  unfold offersOf at other ⊢
  rw [comes.log, List.countP_append, other, Nat.add_zero]

theorem Comes.offered (comes : Comes x made e e') (books : Books ulongMax e) :
    offersOf e'.log x = made.length := by
  have before := books.offersOf_new comes.no
  unfold offersOf at before ⊢
  rw [comes.log, List.countP_append, before, Nat.zero_add, List.countP_eq_length]
  intro o among
  rw [comes.own o among]
  exact decide_eq_true rfl

theorem Comes.books (comes : Comes x made e e') (books : Books ulongMax e)
    (closed : Closed ulongMax e'.counts e'.waiting.length) (few : e'.waiting.length ≤ queueSize)
    (order : (storedFrames e'.log ++ e'.waiting).Sublist (e'.given.filter queueable))
    (idle : e'.waiting = [] → e'.offers = 0)
    (turn : ∀ x ∈ e'.waiting.head?, offersOf e'.log x = e'.offers ∧ e'.offers < maxOffers)
    (fresh : ∀ x ∈ e'.waiting.tail, offersOf e'.log x = 0) : Books ulongMax e' where
  closed := closed
  few := few
  numbers := by
    rw [comes.given, List.map_append, books.numbers, List.length_append, List.length_singleton, List.range_succ,
      ← comes.no]
    rfl
  known o among := by
    rw [comes.log, List.mem_append] at among
    rw [comes.given, List.mem_append]
    cases among with
    | inl earlier => exact .inl (books.known o earlier)
    | inr now => exact .inr (List.mem_singleton.mpr (comes.own o now))
  order := order
  idle := idle
  turn := turn
  fresh := fresh
  bound y came := by
    rw [comes.given, List.mem_append, List.mem_singleton] at came
    cases came with
    | inl earlier =>
      rw [comes.others books earlier]
      exact books.bound y earlier
    | inr now =>
      rw [now, comes.offered books]
      exact comes.few.trans (by decide)
  once y came unfit := by
    rw [comes.given, List.mem_append, List.mem_singleton] at came
    cases came with
    | inl earlier =>
      rw [comes.others books earlier]
      exact books.once y earlier unfit
    | inr now =>
      subst now
      rw [comes.offered books]
      exact comes.once unfit
  unjumped := by
    intro o among toOne w waits
    rw [comes.log, List.filter_append, List.mem_append] at among
    cases among with
    | inl earlier => exact books.unjumped o earlier toOne w waits
    | inr now =>
      obtain ⟨among, fits⟩ := List.mem_filter.mp now
      have queued : queueable x = true := by
        rw [← comes.own o among]
        unfold queueable
        rw [toOne]
        exact fits
      rw [comes.alone queued o among] at waits
      cases waits

/-- The frame at the head offered. -/
structure Tries (x : Given) (rest : List Given) (stored : Bool) (e e' : Edge) : Prop where
  turn : e.waiting = x :: rest
  given : e'.given = e.given
  log : e'.log = e.log ++ [⟨x, stored, e.waiting⟩]

theorem Tries.came (tries : Tries x rest stored e e') (books : Books ulongMax e) :
    x ∈ e.given ∧ queueable x = true :=
  books.waits (by rw [tries.turn]; exact List.mem_cons_self)

section

variable (tries : Tries x rest stored e e')

include tries

theorem Tries.later (books : Books ulongMax e) (behind : y ∈ rest) :
    x.no < y.no := by
  have queued := books.queued
  rw [tries.turn] at queued
  exact List.rel_of_pairwise_cons queued behind

theorem Tries.offers (books : Books ulongMax e) :
    offersOf e.log x = e.offers ∧ e.offers < maxOffers :=
  books.turn x (by rw [tries.turn]; rfl)

theorem Tries.others (other : x.no ≠ y.no) :
    offersOf e'.log y = offersOf e.log y := by
  rw [tries.log, offersOf_append, if_neg other]
  rfl

theorem Tries.offered (books : Books ulongMax e) :
    offersOf e'.log x = e.offers + 1 := by
  rw [tries.log, offersOf_append, if_pos rfl, (tries.offers books).1]

theorem Tries.books (books : Books ulongMax e)
    (closed : Closed ulongMax e'.counts e'.waiting.length) (few : e'.waiting.length ≤ queueSize)
    (order : (storedFrames e'.log ++ e'.waiting).Sublist (e'.given.filter queueable))
    (idle : e'.waiting = [] → e'.offers = 0)
    (turn : ∀ x ∈ e'.waiting.head?, offersOf e'.log x = e'.offers ∧ e'.offers < maxOffers)
    (fresh : ∀ x ∈ e'.waiting.tail, offersOf e'.log x = 0) : Books ulongMax e' where
  closed := closed
  few := few
  numbers := by
    rw [tries.given]
    exact books.numbers
  known o among := by
    rw [tries.log, List.mem_append, List.mem_singleton] at among
    rw [tries.given]
    cases among with
    | inl earlier => exact books.known o earlier
    | inr now =>
      rw [now]
      exact (tries.came books).1
  order := order
  idle := idle
  turn := turn
  fresh := fresh
  bound y came := by
    rw [tries.given] at came
    by_cases same : x.no = y.no
    · rw [← books.same (tries.came books).1 came same, tries.offered books]
      exact (tries.offers books).2
    · rw [tries.others same]
      exact books.bound y came
  once y came unfit := by
    rw [tries.given] at came
    by_cases same : x.no = y.no
    · have queued := (tries.came books).2
      rw [books.same (tries.came books).1 came same, unfit] at queued
      cases queued
    · rw [tries.others same]
      exact books.once y came unfit
  unjumped := by
    intro o among toOne w waits
    rw [tries.log, List.filter_append, List.mem_append] at among
    cases among with
    | inl earlier => exact books.unjumped o earlier toOne w waits
    | inr now =>
      have only := List.mem_singleton.mp (List.mem_filter.mp now).1
      rw [only] at waits ⊢
      rw [show (⟨x, stored, e.waiting⟩ : Offered).waiting = x :: rest from tries.turn, List.mem_cons] at waits
      cases waits with
      | inl own => exact Nat.le_of_eq (congrArg Given.no own.symm)
      | inr behind => exact Nat.le_of_lt (tries.later books behind)

theorem Tries.passed (books : Books ulongMax e)
    (closed : Closed ulongMax e'.counts e'.waiting.length) (waiting : e'.waiting = rest) (offers : e'.offers = 0) :
    Books ulongMax e' := by
  have others (y : Given) (behind : y ∈ rest) : offersOf e'.log y = 0 := by
    rw [tries.others (Nat.ne_of_lt (tries.later books behind))]
    apply books.fresh
    rw [tries.turn]
    exact behind
  have order := books.order
  have few := books.few
  rw [tries.turn] at order few
  apply tries.books books closed
  · rw [waiting]
    exact Nat.le_of_succ_le few
  · rw [tries.log, tries.given, waiting, storedFrames_append]
    refine List.Sublist.trans ?_ order
    rw [List.append_assoc]
    apply (List.Sublist.refl _).append
    split
    · exact List.Sublist.refl _
    · exact List.sublist_cons_self _ _
  · intro _
    exact offers
  · intro y first
    rw [waiting] at first
    rw [others y (List.mem_of_mem_head? first), offers]
    exact ⟨rfl, by decide⟩
  · intro y behind
    rw [waiting] at behind
    exact others y (List.mem_of_mem_tail behind)

end

theorem Comes.still (comes : Comes x made e e') (books : Books ulongMax e)
    (closed : Closed ulongMax e'.counts e'.waiting.length) (same : e'.waiting = e.waiting)
    (offers : e'.offers = e.offers) (order : (storedFrames e'.log ++ e.waiting).Sublist (e'.given.filter queueable)) :
    Books ulongMax e' := by
  apply comes.books books closed
  · rw [same]
    exact books.few
  · rw [same]
    exact order
  · rw [same, offers]
    exact books.idle
  · rw [same, offers]
    intro y first
    rw [comes.others books (books.waits (List.mem_of_mem_head? first)).1]
    exact books.turn y first
  · rw [same]
    intro y behind
    rw [comes.others books (books.waits (List.mem_of_mem_tail behind)).1]
    exact books.fresh y behind

theorem Books.order_later (books : Books ulongMax e) (none_ : storedFrames log = []) (x : Given) :
    (storedFrames (e.log ++ log) ++ e.waiting).Sublist ((e.given ++ [x]).filter queueable) := by
  unfold storedFrames at none_ ⊢
  rw [List.filter_append, List.map_append, none_, List.append_nil, List.filter_append]
  exact books.order.trans (List.sublist_append_left _ _)

theorem Books.order_behind (books : Books ulongMax e) (queued : queueable x = true) :
    (storedFrames e.log ++ e.waiting ++ [x]).Sublist ((e.given ++ [x]).filter queueable) := by
  rw [List.filter_append, List.filter_cons, if_pos queued]
  exact books.order.append (List.Sublist.refl _)

theorem unqueueable {many : Prop} (unfit : broadcast x.words = true ∨ maxWords < x.words.length)
    (queued : queueable x = true) : many := by
  unfold queueable at queued
  rw [Bool.and_eq_true, Bool.not_eq_true', decide_eq_true_eq] at queued
  cases unfit with
  | inl toAll =>
    rw [queued.1] at toAll
    cases toAll
  | inr beyond => exact absurd queued.2 (not_le.mpr beyond)

theorem queueable_of (fits : x.words.length ≤ maxWords) (toOne : broadcast x.words = false) :
    queueable x = true := by
  unfold queueable
  rw [toOne]
  exact decide_eq_true fits

theorem Comes.waits (comes : Comes x [⟨x, false, e.waiting⟩] e e') (books : Books ulongMax e)
    (closed : Closed ulongMax e'.counts e'.waiting.length) (queued : queueable x = true) (alone : e.waiting = [])
    (waiting : e'.waiting = [x]) (offers : e'.offers = e.offers + 1) : Books ulongMax e' := by
  have order := books.order_behind queued
  rw [alone, List.append_nil] at order
  apply comes.books books closed
  · rw [waiting]
    exact (by decide : 1 ≤ queueSize)
  · rw [comes.log, comes.given, waiting, storedFrames_append]
    simpa using order
  · intro none_
    rw [waiting] at none_
    cases none_
  · intro y first
    rw [waiting] at first
    rw [← Option.some.inj first, comes.offered books, offers, books.idle alone]
    exact ⟨rfl, (by decide : 0 + 1 < maxOffers)⟩
  · intro y behind
    rw [waiting] at behind
    cases behind

theorem Comes.joins (comes : Comes x [] e e') (books : Books ulongMax e)
    (closed : Closed ulongMax e'.counts e'.waiting.length) (queued : queueable x = true) (behind : e.waiting ≠ [])
    (room : e.waiting.length < queueSize) (waiting : e'.waiting = e.waiting ++ [x]) (offers : e'.offers = e.offers) :
    Books ulongMax e' := by
  apply comes.books books closed
  · rw [waiting, List.length_append]
    exact room
  · rw [comes.log, comes.given, waiting, List.append_nil, ← List.append_assoc]
    exact books.order_behind queued
  · intro none_
    rw [waiting] at none_
    exact absurd (List.append_eq_nil_iff.mp none_).1 behind
  · intro y first
    rw [waiting, List.head?_append_of_ne_nil _ behind] at first
    rw [comes.others books (books.waits (List.mem_of_mem_head? first)).1, offers]
    exact books.turn y first
  · intro y among
    rw [waiting, List.tail_append_of_ne_nil behind, List.mem_append, List.mem_singleton] at among
    cases among with
    | inl before =>
      rw [comes.others books (books.waits (List.mem_of_mem_tail before)).1]
      exact books.fresh y before
    | inr own =>
      rw [own]
      exact comes.offered books

theorem Tries.again (tries : Tries x rest false e e') (books : Books ulongMax e)
    (closed : Closed ulongMax e'.counts e'.waiting.length) (same : e'.waiting = e.waiting)
    (offers : e'.offers = e.offers + 1) (again : e.offers + 1 < maxOffers) : Books ulongMax e' := by
  apply tries.books books closed
  · rw [same]
    exact books.few
  · rw [tries.log, tries.given, same, storedFrames_append]
    simpa using books.order
  · intro none_
    rw [same, tries.turn] at none_
    cases none_
  · intro y first
    rw [same, tries.turn] at first
    rw [← Option.some.inj first, tries.offered books, offers]
    exact ⟨rfl, again⟩
  · intro y behind
    rw [same] at behind
    have after : y ∈ rest := by
      rw [tries.turn] at behind
      exact behind
    rw [tries.others (Nat.ne_of_lt (tries.later books after))]
    exact books.fresh y behind

theorem Step.books (step : Step ulongMax e e') (books : Books ulongMax e) : Books ulongMax e' := by
  have closed := step.closed books.closed
  cases step with
  | long x no beyond =>
    exact (Comes.offeredOnce no rfl rfl (unqueueable (.inr beyond))).still books closed rfl rfl
      (books.order_later rfl x)
  | heard x no toAll =>
    exact (Comes.offeredOnce no rfl rfl (unqueueable (.inl toAll))).still books closed rfl rfl
      (books.order_later (by simp [storedFrames, toAll]) x)
  | unheard x no toAll =>
    exact (Comes.offeredOnce no rfl rfl (unqueueable (.inl toAll))).still books closed rfl rfl
      (books.order_later rfl x)
  | direct x no fits toOne alone =>
    refine (Comes.offeredOnce no rfl rfl fun _ => alone).still books closed rfl rfl ?_
    have order := books.order_behind (queueable_of fits toOne)
    rw [alone, List.append_nil] at order
    dsimp only
    rw [alone, List.append_nil, storedFrames_append, toOne]
    exact order
  | waits x no fits toOne alone =>
    exact (Comes.offeredOnce no rfl rfl fun _ => alone).waits books closed (queueable_of fits toOne) alone rfl rfl
  | full x no fits toOne =>
    have order := @Books.order_later _ _ [] books rfl x
    rw [List.append_nil] at order
    exact Comes.still (Comes.unoffered no rfl rfl (queueable_of fits toOne)) books closed rfl rfl order
  | joins x no fits toOne behind room =>
    have queued := queueable_of fits toOne
    exact Comes.joins (Comes.unoffered no rfl rfl queued) books closed queued behind room rfl rfl
  | still => exact books
  | stored x rest turn => exact Tries.passed ⟨turn, rfl, rfl⟩ books closed rfl rfl
  | refused x rest turn again => exact Tries.again ⟨turn, rfl, rfl⟩ books closed rfl rfl again
  | givenUp x rest turn => exact Tries.passed ⟨turn, rfl, rfl⟩ books closed rfl rfl

end Books

/-- The books are kept by every run of calls. -/
theorem run_books (ulongMax : Nat) (calls : List Call) :
    Books ulongMax (run ulongMax calls).edge ∧ Placed (run ulongMax calls).queue := by
  induction calls using List.reverseRecOn with
  | nil =>
    refine ⟨⟨fun _ => rfl, Nat.zero_le _, rfl, ?_, List.Sublist.refl _, fun _ => rfl, ?_, ?_, ?_, ?_, ?_⟩,
      (by decide : 0 < queueSize), Nat.zero_le _⟩
    all_goals intro x among; cases among
  | append_singleton calls call ih =>
    have ran : run ulongMax (calls ++ [call]) = (run ulongMax calls).step ulongMax call := List.foldl_concat ..
    rw [ran]
    cases call with
    | give words now takes =>
      have step := give_step ulongMax ih.2 words now takes
      exact ⟨step.1.books ih.1, step.2⟩
    | pump now freed takes =>
      have step := pump_step ulongMax ih.2 now freed takes
      exact ⟨step.1.books ih.1, step.2⟩

/-- What the edge does with the frames it is given. -/
structure Careful (ulongMax : Nat) (h : History) : Prop where
  closes : h.queue.taken < ulongMax → h.queue.taken =
    h.queue.stored + h.queue.givenUp + h.queue.noRoom + h.queue.broadcastsLost + h.queue.waiting
  room : h.queue.waiting ≤ queueSize
  ordered : (storedFrames h.log).Sublist (h.given.filter fun x => !broadcast x.words)
  single : ((storedFrames h.log).map Given.no).Nodup
  offers : ∀ x ∈ h.given, offersOf h.log x ≤ maxOffers
  broadcasts : ∀ x ∈ h.given, broadcast x.words = true → offersOf h.log x = 1
  long : ∀ x ∈ h.given, maxWords < x.words.length → offersOf h.log x = 1
  unjumped : Unjumped (h.log.filter fun o => o.frame.words.length ≤ maxWords)

/-- After any calls every frame is accounted for, and those for the machine alone keep their order. -/
theorem run_careful (ulongMax : Nat) (calls : List Call) : Careful ulongMax (run ulongMax calls) := by
  obtain ⟨books, placed⟩ := run_books ulongMax calls
  have stored : (storedFrames (run ulongMax calls).log).Sublist ((run ulongMax calls).given.filter queueable) :=
    (List.sublist_append_left _ _).trans books.order
  constructor
  · have closed := books.closed
    have length : (run ulongMax calls).edge.waiting.length = (run ulongMax calls).queue.waiting := length_heldIn
    rw [length] at closed
    exact closed
  · exact placed.few
  · apply stored.trans
    rw [show (run ulongMax calls).given.filter queueable = ((run ulongMax calls).given.filter
      fun x => !broadcast x.words).filter fun x => x.words.length ≤ maxWords by
        rw [List.filter_filter]
        congr 1
        funext x
        exact Bool.and_comm _ _]
    exact List.filter_sublist
  · have numbers := (stored.trans List.filter_sublist).map Given.no
    rw [show (run ulongMax calls).given.map Given.no = _ from books.numbers] at numbers
    exact List.nodup_range.sublist numbers
  · exact books.bound
  · intro x came toAll
    exact books.once x came (by simp [queueable, toAll])
  · intro x came beyond
    exact books.once x came (by simp [queueable, beyond])
  · exact books.unjumped

/-- A frame too long for a slot is offered past one that waits. -/
theorem not_unjumped : ¬∀ ulongMax calls, Unjumped (run ulongMax calls).log := by
  intro all
  have past := all 5 [.give [1, 1, 1, 1] 0 false, .give (List.replicate 256 1) 0 false]
    ⟨⟨List.replicate 256 1, 1⟩, false, [⟨[1, 1, 1, 1], 0⟩]⟩ (by decide +kernel) (by decide +kernel)
    ⟨[1, 1, 1, 1], 0⟩ (by decide)
  exact absurd past (by decide)

end MuirFpga.Chaosnet.Inject
