import MuirFpga.Serial.Endpoint
import Mathlib.Data.List.Induction

/-!
# Nothing lost uncounted

The cable as it is meant: a device at a time, a queue of what it has not been sent, and a queue of what was
typed at it. Every event of the program is one that such a cable allows, and what a cable allows loses no
character that it does not count, and gives none to a device that came after it.
-/

namespace MuirFpga.Serial

open MuirFpga.Sync

section Cable

structure Cable where
  device : Option Nat
  next : Nat
  outbox : List Char8
  inbox : List Char8
  dropped : Nat

/-- What an event makes of the cable, if it is allowed there. -/
def Cable.step (c : Cable) : Event → Option Cable
  | .got d x => if c.device = some d then some { c with outbox := c.outbox ++ [x] } else none
  | .sent d xs =>
    if c.device = some d ∧ xs.isPrefixOf c.outbox then some { c with outbox := c.outbox.drop xs.length } else none
  | .hungUp d =>
    if c.device = some d then
      some { c with device := none, outbox := [], dropped := c.dropped + c.outbox.length }
    else none
  | .accepted d =>
    if c.device = none ∧ d = c.next then some { c with device := some d, next := d + 1 } else none
  | .drained _ => some { c with dropped := c.dropped + 1 }
  | .typed xs => some { c with inbox := c.inbox ++ xs }
  | .offered x =>
    match c.inbox with
    | y :: rest => if x = y then some { c with inbox := rest } else none
    | [] => none
  | .lines _ => some c

def Cable.idle : Cable := ⟨none, 0, [], [], 0⟩

/-- The cable after events, if each is allowed where it comes. -/
def Cable.run (log : List Event) : Option Cable := log.foldlM Cable.step Cable.idle

/-- The device on the cable after events. -/
def onCable (log : List Event) : Option Nat :=
  log.foldl (fun d event =>
    match event with
    | .accepted d => some d
    | .hungUp _ => none
    | _ => d) none

/-- What was read from the port while a device was on the cable. -/
def gotFor (d : Nat) (log : List Event) : List Char8 :=
  log.flatMap fun
    | .got e x => if e = d then [x] else []
    | _ => []

/-- What a device was sent. -/
def sentTo (d : Nat) (log : List Event) : List Char8 :=
  log.flatMap fun
    | .sent e xs => if e = d then xs else []
    | _ => []

/-- Every character read from the port, and every one that a device was sent. -/
def readOff (log : List Event) : List Char8 :=
  log.flatMap fun
    | .got _ x | .drained x => [x]
    | _ => []

def sentOff (log : List Event) : List Char8 :=
  log.flatMap fun
    | .sent _ xs => xs
    | _ => []

def typedIn (log : List Event) : List Char8 :=
  log.flatMap fun
    | .typed xs => xs
    | _ => []

def offeredIn (log : List Event) : List Char8 :=
  log.flatMap fun
    | .offered x => [x]
    | _ => []

theorem run_concat {log : List Event} {event : Event} :
    Cable.run (log ++ [event]) = (Cable.run log).bind (·.step event) := by
  simp [Cable.run, List.foldlM_append]

/-- Whose the characters are, after every event the cable allowed. -/
structure Cable.Owned (c : Cable) (log : List Event) : Prop where
  device : c.device = onCable log
  number : ∀ d, c.device = some d → d < c.next
  waiting : ∀ d, c.device = some d → gotFor d log = sentTo d log ++ c.outbox
  sent : ∀ d, sentTo d log <+: gotFor d log
  fresh : ∀ d, c.next ≤ d → gotFor d log = []
  idle : c.device = none → c.outbox = []

/-- How many characters there are. -/
structure Cable.Counted (c : Cable) (log : List Event) : Prop where
  count : (readOff log).length = (sentOff log).length + c.outbox.length + c.dropped
  typed : typedIn log = offeredIn log ++ c.inbox

variable {c c' : Cable} {log : List Event} {event : Event}

theorem Cable.Counted.step (counted : c.Counted log) (stepped : c.step event = some c') :
    c'.Counted (log ++ [event]) := by
  have count := counted.count
  have typed := counted.typed
  have split (f : Event → List Char8) : (log ++ [event]).flatMap f = log.flatMap f ++ f event := by
    rw [List.flatMap_append, List.flatMap_singleton]
  refine ⟨?_, ?_⟩
  · unfold readOff sentOff at count ⊢
    rw [split, split, List.length_append, List.length_append]
    cases event with
    | sent d xs =>
      simp only [Cable.step, Option.ite_none_right_eq_some, Option.some.injEq] at stepped
      obtain ⟨⟨-, begins⟩, rfl⟩ := stepped
      have := (List.isPrefixOf_iff_prefix.mp begins).length_le
      simp only [List.length_drop, List.length_nil]
      omega
    | offered x =>
      simp only [Cable.step] at stepped
      split at stepped
      · simp only [Option.ite_none_right_eq_some, Option.some.injEq] at stepped
        obtain ⟨-, rfl⟩ := stepped
        exact count
      · exact nomatch stepped
    | got | hungUp | accepted =>
      simp only [Cable.step, Option.ite_none_right_eq_some, Option.some.injEq] at stepped
      obtain ⟨-, rfl⟩ := stepped
      simp only [List.length_append, List.length_singleton, List.length_nil]
      omega
    | drained | typed | lines =>
      simp only [Cable.step, Option.some.injEq] at stepped
      subst stepped
      simp only [List.length_singleton, List.length_nil]
      omega
  · unfold typedIn offeredIn at typed ⊢
    rw [split, split, typed]
    cases event with
    | offered x =>
      simp only [Cable.step] at stepped
      split at stepped
      · next inbox =>
        simp only [Option.ite_none_right_eq_some, Option.some.injEq] at stepped
        obtain ⟨rfl, rfl⟩ := stepped
        simp [inbox]
      · exact nomatch stepped
    | got | sent | hungUp | accepted =>
      simp only [Cable.step, Option.ite_none_right_eq_some, Option.some.injEq] at stepped
      obtain ⟨-, rfl⟩ := stepped
      simp
    | drained | typed | lines =>
      simp only [Cable.step, Option.some.injEq] at stepped
      subst stepped
      simp

theorem onCable_concat (event : Event) : onCable (log ++ [event]) = match event with
    | .accepted d => some d
    | .hungUp _ => none
    | _ => onCable log := by
  unfold onCable
  rw [List.foldl_append]
  cases event <;> rfl

theorem Cable.Owned.step (owned : c.Owned log) (stepped : c.step event = some c') :
    c'.Owned (log ++ [event]) := by
  have reads (d : Nat) : gotFor d (log ++ [event]) = gotFor d log ++ gotFor d [event] := List.flatMap_append
  have sends (d : Nat) : sentTo d (log ++ [event]) = sentTo d log ++ sentTo d [event] := List.flatMap_append
  have devices := @onCable_concat log event
  have quiet (same : c'.device = c.device ∧ c'.next = c.next ∧ c'.outbox = c.outbox)
      (still : onCable (log ++ [event]) = onCable log) (nothing : ∀ d, gotFor d [event] = [] ∧ sentTo d [event] = []) :
      c'.Owned (log ++ [event]) := by
    have reads (d : Nat) : gotFor d (log ++ [event]) = gotFor d log := by
      rw [reads, (nothing d).1, List.append_nil]
    have sends (d : Nat) : sentTo d (log ++ [event]) = sentTo d log := by
      rw [sends, (nothing d).2, List.append_nil]
    constructor
    · rw [same.1, still]
      exact owned.device
    · rw [same.1, same.2.1]
      exact owned.number
    · intro d
      rw [same.1, reads, sends, same.2.2]
      exact owned.waiting d
    · intro d
      rw [reads, sends]
      exact owned.sent d
    · intro d
      rw [same.2.1, reads]
      exact owned.fresh d
    · rw [same.1, same.2.2]
      exact owned.idle
  cases event with
  | got e x =>
    simp only [Cable.step, Option.ite_none_right_eq_some, Option.some.injEq] at stepped
    obtain ⟨on, rfl⟩ := stepped
    have own (d : Nat) : gotFor d [.got e x] = if e = d then [x] else [] := List.flatMap_singleton _ _
    refine ⟨devices ▸ owned.device, owned.number, ?_, ?_, ?_, ?_⟩
    · intro d same
      have same : e = d := Option.some.inj (on.symm.trans same)
      subst same
      rw [reads, sends, own, if_pos rfl, owned.waiting e on, List.append_assoc]
      exact congrArg (· ++ _) (List.append_nil _).symm
    · intro d
      rw [reads, sends]
      refine List.IsPrefix.trans ?_ (List.prefix_append _ _)
      exact (List.append_nil _).symm ▸ owned.sent d
    · intro d (later : c.next ≤ d)
      have lower := owned.number e on
      rw [reads, own, if_neg (by omega), List.append_nil]
      exact owned.fresh d later
    · intro none
      cases none.symm.trans on
  | sent e xs =>
    simp only [Cable.step, Option.ite_none_right_eq_some, Option.some.injEq] at stepped
    obtain ⟨⟨on, begins⟩, rfl⟩ := stepped
    obtain ⟨rest, outbox⟩ := List.isPrefixOf_iff_prefix.mp begins
    have own (d : Nat) : sentTo d [.sent e xs] = if e = d then xs else [] := List.flatMap_singleton _ _
    have same (d : Nat) : gotFor d (log ++ [Event.sent e xs]) = gotFor d log := (reads d).trans (List.append_nil _)
    have whole : gotFor e (log ++ [Event.sent e xs]) = sentTo e (log ++ [Event.sent e xs]) ++ c.outbox.drop xs.length := by
      rw [same, sends, own, if_pos rfl, owned.waiting e on, ← outbox, List.drop_left, List.append_assoc]
    refine ⟨devices ▸ owned.device, owned.number, ?_, ?_, ?_, ?_⟩
    · intro d on'
      have one : e = d := Option.some.inj (on.symm.trans on')
      exact one ▸ whole
    · intro d
      by_cases one : e = d
      · exact one ▸ whole ▸ List.prefix_append _ _
      · rw [same, sends, own, if_neg one, List.append_nil]
        exact owned.sent d
    · intro d (later : c.next ≤ d)
      rw [same]
      exact owned.fresh d later
    · intro none
      cases none.symm.trans on
  | hungUp e =>
    simp only [Cable.step, Option.ite_none_right_eq_some, Option.some.injEq] at stepped
    obtain ⟨on, rfl⟩ := stepped
    have gots (d : Nat) : gotFor d (log ++ [Event.hungUp e]) = gotFor d log := (reads d).trans (List.append_nil _)
    have sent (d : Nat) : sentTo d (log ++ [Event.hungUp e]) = sentTo d log := (sends d).trans (List.append_nil _)
    refine ⟨devices.symm, (fun _ no => absurd no (by simp)), (fun _ no => absurd no (by simp)), fun d => ?_,
      fun d later => ?_, fun _ => rfl⟩
    · rw [gots, sent]
      exact owned.sent d
    · rw [gots]
      exact owned.fresh d later
  | accepted e =>
    simp only [Cable.step, Option.ite_none_right_eq_some, Option.some.injEq] at stepped
    obtain ⟨⟨off, rfl⟩, rfl⟩ := stepped
    have gots (d : Nat) : gotFor d (log ++ [Event.accepted c.next]) = gotFor d log := (reads d).trans (List.append_nil _)
    have sent (d : Nat) : sentTo d (log ++ [Event.accepted c.next]) = sentTo d log := (sends d).trans (List.append_nil _)
    refine ⟨devices.symm, ?_, ?_, fun d => ?_, ?_, fun no => absurd no (by simp)⟩
    · intro d same
      exact Option.some.inj same ▸ Nat.lt_succ_self _
    · intro d same
      have same : c.next = d := Option.some.inj same
      have none := owned.fresh d (Nat.le_of_eq same)
      have nothing := List.prefix_nil.mp (none ▸ owned.sent d)
      rw [gots, sent, none, nothing]
      exact (owned.idle off).symm
    · rw [gots, sent]
      exact owned.sent d
    · intro d (later : c.next + 1 ≤ d)
      rw [gots]
      exact owned.fresh d (Nat.le_of_succ_le later)
  | drained x =>
    simp only [Cable.step, Option.some.injEq] at stepped
    subst stepped
    exact quiet ⟨rfl, rfl, rfl⟩ devices fun _ => ⟨rfl, rfl⟩
  | typed xs =>
    simp only [Cable.step, Option.some.injEq] at stepped
    subst stepped
    exact quiet ⟨rfl, rfl, rfl⟩ devices fun _ => ⟨rfl, rfl⟩
  | lines up =>
    simp only [Cable.step, Option.some.injEq] at stepped
    subst stepped
    exact quiet ⟨rfl, rfl, rfl⟩ devices fun _ => ⟨rfl, rfl⟩
  | offered x =>
    simp only [Cable.step] at stepped
    split at stepped
    · simp only [Option.ite_none_right_eq_some, Option.some.injEq] at stepped
      obtain ⟨-, rfl⟩ := stepped
      exact quiet ⟨rfl, rfl, rfl⟩ devices fun _ => ⟨rfl, rfl⟩
    · cases stepped

theorem run_induction {motive : Cable → List Event → Prop} (idle : motive Cable.idle [])
    (step : ∀ c c' log event, Cable.run log = some c → motive c log → c.step event = some c' →
      motive c' (log ++ [event]))
    (ran : Cable.run log = some c) : motive c log := by
  induction log using List.reverseRecOn generalizing c with
  | nil => exact Option.some.inj ran ▸ idle
  | append_singleton log event ih =>
    rw [run_concat] at ran
    have ⟨before, ran, stepped⟩ := Option.bind_eq_some_iff.mp ran
    exact step before c log event ran (ih ran) stepped

theorem run_owned (ran : Cable.run log = some c) : c.Owned log :=
  run_induction ⟨rfl, nofun, nofun, fun _ => List.prefix_refl _, fun _ _ => rfl, fun _ => rfl⟩
    (fun _ _ _ _ _ owned stepped => owned.step stepped) ran

theorem run_counted (ran : Cable.run log = some c) : c.Counted log :=
  run_induction ⟨rfl, rfl⟩ (fun _ _ _ _ _ counted stepped => counted.step stepped) ran

theorem run_split {before after : List Event} (ran : Cable.run (before ++ event :: after) = some c) :
    ∃ c', Cable.run before = some c' ∧ (c'.step event).isSome := by
  rw [Cable.run, List.foldlM_append] at ran
  have ⟨c', ran, rest⟩ := Option.bind_eq_some_iff.mp ran
  rw [List.foldlM_cons] at rest
  have ⟨next, stepped, _⟩ := Option.bind_eq_some_iff.mp rest
  exact ⟨c', ran, stepped ▸ rfl⟩

theorem on_cable {before after : List Event} {d : Nat} (ran : Cable.run (before ++ event :: after) = some c)
    (of : (∃ x, event = .got d x) ∨ ∃ xs, event = .sent d xs) : onCable before = some d := by
  have ⟨c', ran, allowed⟩ := run_split ran
  rw [← (run_owned ran).device]
  rcases of with ⟨x, rfl⟩ | ⟨xs, rfl⟩
  · by_contra off
    simp [Cable.step, off] at allowed
  · by_contra off
    simp [Cable.step, off] at allowed

theorem none_before {before after : List Event} {d : Nat}
    (ran : Cable.run (before ++ .accepted d :: after) = some c) : gotFor d before = [] ∧ sentTo d before = [] := by
  have ⟨c', ran, allowed⟩ := run_split ran
  have owned := run_owned ran
  have number : d = c'.next := by
    by_contra other
    simp [Cable.step, other] at allowed
  have none := owned.fresh d (Nat.le_of_eq number.symm)
  exact ⟨none, List.prefix_nil.mp (none ▸ owned.sent d)⟩

end Cable

section Follows

variable {typed : List Char8} {r : Run}

/-- The cable a state of the program is, with what was typed and is not in the inbox yet. -/
def Endpoint.cable (typed : List Char8) (e : Endpoint) : Cable :=
  ⟨e.device, e.connects, e.outbox.contents, e.inbox.contents ++ typed, e.droppedOnHangup⟩

/-- The rings are rings, and the events are what a cable allows to where the program is. -/
structure Run.Follows (typed : List Char8) (r : Run) : Prop where
  outbox : r.e.outbox.Kept
  inbox : r.e.inbox.Kept
  room : r.e.inbox.len + typed.length ≤ backlog
  ran : Cable.run r.log = some (r.e.cable typed)

theorem Run.Follows.allowed {event : Event} {e : Endpoint} {typed' : List Char8} (follows : r.Follows typed)
    (stepped : (r.e.cable typed).step event = some (e.cable typed')) :
    Cable.run (r.did event e).log = some (e.cable typed') := by
  rw [Run.did, run_concat, follows.ran]
  exact stepped

theorem takeFromPort_follows {device : Nat} (gets : List (Word × Word)) (follows : r.Follows typed)
    (on : r.e.device = some device) :
    (takeFromPort device gets r).Follows typed ∧ (takeFromPort device gets r).e.device = some device := by
  induction gets generalizing r with
  | nil => exact ⟨follows, on⟩
  | cons get gets ih =>
    obtain ⟨stat, rdata⟩ := get
    rw [takeFromPort]
    split
    · next room =>
      cases faceGet stat rdata with
      | none => exact ⟨follows, on⟩
      | some c =>
        refine ih ⟨follows.outbox.push, follows.inbox, follows.room, follows.allowed ?_⟩ on
        simp [Cable.step, Endpoint.cable, on, follows.outbox.contents_push (Nat.ne_of_lt room)]
    · exact ⟨follows, on⟩

theorem sendOut_follows {device : Nat} (writes : List Wrote) (follows : r.Follows typed)
    (on : r.e.device = some device) :
    (sendOut device writes r).1.Follows typed ∧ (sendOut device writes r).1.e.device = some device ∧
      (sendOut device writes r).1.e.inbox = r.e.inbox ∧ (sendOut device writes r).1.e.connects = r.e.connects := by
  induction writes generalizing r with
  | nil => exact ⟨follows, on, rfl, rfl⟩
  | cons w writes ih =>
    rw [sendOut.eq_def]
    dsimp only
    split
    · exact ⟨follows, on, rfl, rfl⟩
    · cases w with
      | again | failed => exact ⟨follows, on, rfl, rfl⟩
      | interrupted => exact ih follows on
      | took n =>
        dsimp only
        split
        · exact ⟨follows, on, rfl, rfl⟩
        · have few : min n r.e.outbox.run ≤ r.e.outbox.run := Nat.min_le_right _ _
          have bytes := follows.outbox.bytes_eq few
          refine ih ⟨follows.outbox.drop, follows.inbox, follows.room, follows.allowed ?_⟩ on
          have lengths := Nat.le_trans few Ring.run_le
          simp only [Cable.step, Endpoint.cable, on, bytes, true_and]
          rw [if_pos (List.isPrefixOf_iff_prefix.mpr (List.take_prefix _ _)), Ring.contents_drop lengths]
          simp [Nat.min_eq_left lengths]

theorem readIn_follows {room : Nat} (reads : List Gave) (follows : r.Follows typed)
    (fits : r.e.inbox.len + room ≤ backlog) (within : typed.length ≤ room) :
    (readIn room reads typed r).1.Follows (readIn room reads typed r).2.1 ∧
      (readIn room reads typed r).1.e = r.e := by
  induction reads generalizing r typed with
  | nil => exact ⟨follows, rfl⟩
  | cons g reads ih =>
    rw [readIn.eq_def]
    dsimp only
    split
    · next more =>
      cases g with
      | again | failed => exact ⟨follows, rfl⟩
      | interrupted => exact ih follows fits within
      | gave cs =>
        dsimp only
        split
        · exact ⟨follows, rfl⟩
        · have few : (cs.take (min 256 (room - typed.length))).length ≤ room - typed.length := by
            rw [List.length_take]
            omega
          have within' : (typed ++ cs.take (min 256 (room - typed.length))).length ≤ room := by
            rw [List.length_append]
            omega
          refine ih ⟨follows.outbox, follows.inbox, Nat.le_trans (Nat.add_le_add_left within' _) fits,
            follows.allowed ?_⟩ fits within'
          simp [Cable.step, Endpoint.cable]
    · exact ⟨follows, rfl⟩

theorem hangUp_follows {device : Nat} (follows : r.Follows typed) (on : r.e.device = some device) :
    (hangUp device r).Follows typed := by
  refine ⟨Ring.kept_clear, follows.inbox, follows.room, follows.allowed ?_⟩
  simp [Cable.step, Endpoint.cable, on]

theorem acceptAll_follows (accepts : List Arrival) (follows : r.Follows typed) :
    (acceptAll accepts r).Follows typed := by
  induction accepts generalizing r with
  | nil => exact follows
  | cons a accepts ih =>
    cases a with
    | interrupted => exact ih follows
    | failed => exact follows
    | arrived nonblocking =>
      rw [acceptAll]
      split
      · exact ih ⟨follows.outbox, follows.inbox, follows.room, follows.ran⟩
      · next off =>
        split
        · exact ih follows
        · refine ih ⟨follows.outbox, follows.inbox, follows.room, follows.allowed ?_⟩
          have off : r.e.device = none := by simpa using off
          simp [Cable.step, Endpoint.cable, off]

theorem drainPort_follows (bound : Nat) (drains : List (Word × Word)) (follows : r.Follows typed) :
    (drainPort bound drains r).Follows typed := by
  induction bound generalizing r drains with
  | zero => exact follows
  | succ bound ih =>
    cases drains with
    | nil => exact follows
    | cons drain drains =>
      obtain ⟨stat, rdata⟩ := drain
      rw [drainPort]
      cases faceGet stat rdata with
      | none => exact follows
      | some c =>
        refine ih drains ⟨follows.outbox, follows.inbox, follows.room, follows.allowed ?_⟩
        simp [Cable.step, Endpoint.cable]

theorem setLines_follows (was : Bool) (follows : r.Follows typed) : (setLines was r).Follows typed := by
  unfold setLines
  split
  · exact ⟨follows.outbox, follows.inbox, follows.room, follows.allowed rfl⟩
  · split
    · exact ⟨follows.outbox, follows.inbox, follows.room, follows.allowed rfl⟩
    · exact follows

theorem offerAll_follows (puts : List Word) (follows : r.Follows []) : (offerAll puts r).Follows [] := by
  induction puts generalizing r with
  | nil =>
    rw [offerAll]
    split
    · exact follows
    · exact ⟨follows.outbox, follows.inbox, follows.room, follows.ran⟩
  | cons stat puts ih =>
    rw [offerAll]
    split
    · exact follows
    · next some_ =>
      dsimp only
      split
      · have room := follows.room
        refine ih ⟨follows.outbox, follows.inbox.drop, ?_, follows.allowed ?_⟩
        · exact Nat.le_trans (Nat.add_le_add_right (Nat.sub_le _ _) _) room
        · simp [Cable.step, Endpoint.cable, follows.inbox.contents_head some_]
      · exact ⟨follows.outbox, follows.inbox, follows.room, follows.ran⟩

theorem fromPort_follows (t : Turn) (follows : r.Follows typed) : (fromPort t r).Follows typed := by
  unfold fromPort
  cases on : r.e.device with
  | none => exact follows
  | some device =>
    have ⟨follows, _⟩ := takeFromPort_follows t.gets follows on
    dsimp only
    split
    · exact ⟨follows.outbox, follows.inbox, follows.room, follows.ran⟩
    · exact follows

theorem serve_follows {room : Nat} (t : Turn) (follows : r.Follows []) (fits : r.e.inbox.len + room ≤ backlog) :
    (serve t room r).1.Follows (serve t room r).2 := by
  unfold serve
  cases on : r.e.device with
  | none => exact follows
  | some device =>
    have ⟨sent, stays, inbox, _⟩ := sendOut_follows t.writes follows on
    cases out : sendOut device t.writes r with
    | mk r' gone =>
      rw [out] at sent stays inbox
      simp only [out]
      cases gone with
      | true => exact hangUp_follows sent stays
      | false =>
        have fits : r'.e.inbox.len + room ≤ backlog := inbox ▸ fits
        have ⟨got, same⟩ := readIn_follows t.reads sent fits (Nat.zero_le _)
        cases read : readIn room t.reads [] r' with
        | mk r'' rest =>
          rw [read] at got same
          simp only [Bool.false_eq_true, if_false]
          split
          · exact hangUp_follows got ((congrArg Endpoint.device same).trans stays)
          · exact got

theorem typed_follows (follows : r.Follows typed) :
    (Run.mk { r.e with inbox := typed.foldl Ring.push r.e.inbox } r.log).Follows [] := by
  have pushed (q : Ring) (typed : List Char8) (kept : q.Kept) (room : q.len + typed.length ≤ backlog) :
      (typed.foldl Ring.push q).Kept ∧ (typed.foldl Ring.push q).contents = q.contents ++ typed := by
    induction typed generalizing q with
    | nil => exact ⟨kept, (List.append_nil _).symm⟩
    | cons c typed ih =>
      have free : q.len ≠ queueCap := by
        have : backlog < queueCap := by decide
        rw [List.length_cons] at room
        omega
      have len : (q.push c).len = q.len + 1 := by rw [Ring.push, if_neg free]
      obtain ⟨kept', contents⟩ := ih (q.push c) kept.push (by
        rw [len]
        rw [List.length_cons] at room
        omega)
      refine ⟨kept', ?_⟩
      rw [List.foldl_cons, contents, kept.contents_push free, List.append_assoc]
      rfl
  obtain ⟨kept, contents⟩ := pushed r.e.inbox typed follows.inbox follows.room
  refine ⟨follows.outbox, kept, ?_, ?_⟩
  · have lengths := congrArg List.length contents
    rw [Ring.length_contents, List.length_append, Ring.length_contents] at lengths
    have := follows.room
    show (typed.foldl Ring.push r.e.inbox).len + 0 ≤ backlog
    omega
  · show Cable.run r.log = _
    rw [follows.ran]
    simp [Endpoint.cable, contents]

theorem pump_follows (t : Turn) (follows : r.Follows []) : (pump r t).Follows [] := by
  have port := fromPort_follows t follows
  unfold pump service
  dsimp only
  generalize fromPort t r = r₁ at *
  have fits : r₁.e.inbox.len + (if backlog ≤ r₁.e.inbox.len then 0 else backlog - r₁.e.inbox.len) ≤ backlog := by
    have := port.room
    split <;> simp only [List.length_nil] at this <;> omega
  have served := serve_follows t port fits
  generalize serve t _ r₁ = out at *
  obtain ⟨r₂, typed⟩ := out
  have arrived := acceptAll_follows t.accepts served
  dsimp only at arrived ⊢
  refine offerAll_follows t.puts (typed_follows (setLines_follows _ ?_))
  split
  · exact drainPort_follows _ _ arrived
  · exact arrived

theorem pumps_follows (outbox inbox : Nat → Char8) (turns : List Turn) : (pumps outbox inbox turns).Follows [] := by
  induction turns using List.reverseRecOn with
  | nil => exact ⟨⟨Nat.succ_pos _, Nat.zero_le _⟩, ⟨Nat.succ_pos _, Nat.zero_le _⟩, Nat.zero_le _, rfl⟩
  | append_singleton turns t ih =>
    rw [pumps, List.foldl_append]
    exact pump_follows t ih

end Follows

section Both

/-- What the program has done with every character of either way: what a device was sent begins what was read
from the port while it was on the cable, and the rest is waiting for it or counted. -/
structure Run.Lossless (r : Run) : Prop where
  sent : ∀ d, sentTo d r.log <+: gotFor d r.log
  waiting : ∀ d, r.e.device = some d → gotFor d r.log = sentTo d r.log ++ r.e.outbox.contents
  count : (readOff r.log).length = (sentOff r.log).length + r.e.outbox.len + r.e.droppedOnHangup
  gotOn : ∀ before d x after, r.log = before ++ .got d x :: after → onCable before = some d
  sentOn : ∀ before d xs after, r.log = before ++ .sent d xs :: after → onCable before = some d
  noneBefore : ∀ before d after, r.log = before ++ .accepted d :: after →
    gotFor d before = [] ∧ sentTo d before = []
  typed : typedIn r.log = offeredIn r.log ++ r.e.inbox.contents
  room : r.e.inbox.len ≤ backlog

/-- No run of the pump loses a character uncounted. -/
theorem pumps_lossless (outbox inbox : Nat → Char8) (turns : List Turn) :
    (pumps outbox inbox turns).Lossless := by
  have follows := pumps_follows outbox inbox turns
  have owned := run_owned follows.ran
  have counted := run_counted follows.ran
  refine ⟨owned.sent, owned.waiting, ?_, ?_, ?_, ?_, ?_, follows.room⟩
  · have count := counted.count
    rwa [show (_ : Cable).outbox.length = (pumps outbox inbox turns).e.outbox.len from Ring.length_contents] at count
  · intro before d x after same
    exact on_cable (same ▸ follows.ran) (.inl ⟨x, rfl⟩)
  · intro before d xs after same
    exact on_cable (same ▸ follows.ran) (.inr ⟨xs, rfl⟩)
  · intro before d after same
    exact none_before (same ▸ follows.ran)
  · have typed := counted.typed
    rwa [show (_ : Cable).inbox = (pumps outbox inbox turns).e.inbox.contents from List.append_nil _] at typed

/-- From the line to the socket nothing is lost uncounted: neither in the port's store, nor in the program. -/
theorem nothing_lost :
    (∀ depth ram ramQ inputs tick, 0 < depth →
      readTo depth ram ramQ inputs tick <+: acceptedTo depth ram ramQ inputs tick ∧
        (storeAt depth ram ramQ inputs tick).dropped = min mostDropped (lostTo depth ram ramQ inputs tick).length ∧
        waiting depth (storeAt depth ram ramQ inputs tick) + (lostTo depth ram ramQ inputs tick).length
          + (readTo depth ram ramQ inputs tick).length = (strobedTo inputs tick).length) ∧
      ∀ outbox inbox turns, (pumps outbox inbox turns).Lossless :=
  ⟨fun _ _ _ _ tick pos => store_keeps pos tick, pumps_lossless⟩

/-- A character in each of four ticks, and one read. -/
def fourStrobes (tick : Nat) : StoreInput := ⟨decide (tick < 4), BitVec.ofNat 8 tick, tick == 6, false⟩

/-- A device comes, is sent a character and types one, and is gone before the next is sent. -/
def comesAndGoes : List Turn :=
  [⟨[], [], [], [.arrived true, .failed], [], []⟩,
    ⟨[(1, 0x141)], [.took 1], [.gave [0x78], .again], [.failed], [], [2]⟩,
    ⟨[(1, 0x142)], [.failed], [], [.failed], [], []⟩]

/-- A store of one character loses what it counts, and the program what it counts. -/
theorem nothing_lost_counted :
    lostTo 1 (fun _ => 0) 0 fourStrobes 8 = [2, 3] ∧ (storeAt 1 (fun _ => 0) 0 fourStrobes 8).dropped = 2 ∧
      (pumps (fun _ => 0) (fun _ => 0) comesAndGoes).Lossless ∧
      sentTo 0 (pumps (fun _ => 0) (fun _ => 0) comesAndGoes).log = [0x41] ∧
      (pumps (fun _ => 0) (fun _ => 0) comesAndGoes).e.droppedOnHangup = 1 := by
  obtain ⟨store, program⟩ := nothing_lost
  have lost_ : lostTo 1 (fun _ => 0) 0 fourStrobes 8 = [2, 3] := by decide
  have counted := (store 1 (fun _ => 0) 0 fourStrobes 8 Nat.one_pos).2.1
  rw [lost_] at counted
  exact ⟨lost_, counted, program _ _ _, by decide, by decide⟩

end Both

end MuirFpga.Serial
