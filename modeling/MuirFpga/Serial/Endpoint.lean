import MuirFpga.Serial.Store

/-!
# The far end of the serial cable

The program that carries the port's characters to the device on the cable and back: its two rings, one turn at
the socket and one at the port. What the world answers in a turn is given as lists, a loop's calls in order;
where a list ends the call answers that there is nothing now. A connection is known by how many came before
it. What is done at either end is logged.
-/

namespace MuirFpga.Serial

open MuirFpga.Sync

abbrev Word := BitVec 32

def queueCap : Nat := 4096

def backlog : Nat := 256

section Rings

/-- A ring of `queueCap` characters. -/
structure Ring where
  b : Nat → Char8
  head : Nat
  len : Nat

def Ring.clear (q : Ring) : Ring := { q with head := 0, len := 0 }

/-- The ring with a character more, unless it is full. -/
def Ring.push (q : Ring) (c : Char8) : Ring :=
  if q.len = queueCap then q
  else { q with b := Function.update q.b ((q.head + q.len) % queueCap) c, len := q.len + 1 }

/-- How many characters stand contiguously at the head. -/
def Ring.run (q : Ring) : Nat := if q.len < queueCap - q.head then q.len else queueCap - q.head

def Ring.drop (q : Ring) (n : Nat) : Ring := { q with head := (q.head + n) % queueCap, len := q.len - n }

/-- What a `write` of `n` bytes from the head is given. -/
def Ring.bytes (q : Ring) (n : Nat) : List Char8 := (List.range n).map fun k => q.b (q.head + k)

def Ring.contents (q : Ring) : List Char8 := heldIn q.b queueCap q.head q.len

structure Ring.Kept (q : Ring) : Prop where
  inside : q.head < queueCap
  most : q.len ≤ queueCap

variable {q : Ring} {c : Char8} {n : Nat}

@[simp] theorem Ring.length_contents : q.contents.length = q.len := length_heldIn

theorem Ring.kept_clear : q.clear.Kept := ⟨Nat.succ_pos _, Nat.zero_le _⟩

@[simp] theorem Ring.contents_clear : q.clear.contents = [] := rfl

theorem Ring.Kept.push (kept : q.Kept) : (q.push c).Kept := by
  unfold Ring.push
  split
  · exact kept
  · next room => exact ⟨kept.inside, Nat.succ_le_of_lt (Nat.lt_of_le_of_ne kept.most room)⟩

theorem Ring.Kept.contents_push (kept : q.Kept) (room : q.len ≠ queueCap) :
    (q.push c).contents = q.contents ++ [c] := by
  rw [Ring.push, if_neg room]
  exact heldIn_push (Nat.lt_of_le_of_ne kept.most room)

theorem Ring.Kept.drop (kept : q.Kept) : (q.drop n).Kept :=
  ⟨Nat.mod_lt _ (by decide), Nat.le_trans (Nat.sub_le _ _) kept.most⟩

theorem Ring.contents_drop (few : n ≤ q.len) : (q.drop n).contents = q.contents.drop n := heldIn_drop few

theorem Ring.run_le : q.run ≤ q.len := by
  unfold Ring.run
  split <;> omega

theorem Ring.Kept.bytes_eq (kept : q.Kept) (few : n ≤ q.run) : q.bytes n = q.contents.take n := by
  have flat : q.head + n ≤ queueCap := by
    have := kept.inside
    unfold Ring.run at few
    split at few <;> omega
  exact heldIn_run (few.trans Ring.run_le) flat

theorem Ring.Kept.contents_head (kept : q.Kept) (some_ : q.len ≠ 0) :
    q.contents = q.b q.head :: (q.drop 1).contents := by
  obtain ⟨rest, more⟩ := Nat.exists_eq_add_one_of_ne_zero some_
  unfold Ring.contents Ring.drop
  dsimp only
  rw [more, heldIn_cons kept.inside, Nat.add_sub_cancel]

end Rings

section Face

/-- `serial_face_get`, of what `STAT` and then `RDATA` read: the character `RDATA` had, if it was read. -/
def faceGet (stat rdata : Word) : Option Char8 :=
  if stat.getLsbD 0 = false then none
  else if rdata.getLsbD 8 = false then none
  else some (rdata.setWidth 8)

/-- `serial_face_put`, of what `STAT` reads: whether the character is written. -/
def facePut (stat : Word) : Bool := stat.getLsbD 1

end Face

section Program

structure Endpoint where
  device : Option Nat
  outbox : Ring
  inbox : Ring
  linesUp : Bool
  connects : Nat
  hangups : Nat
  refused : Nat
  fromMachine : Nat
  toMachine : Nat
  droppedOnHangup : Nat
  refusedByReceiver : Nat
  stalledPort : Nat

/-- What is done at the cable's two ends. -/
inductive Event where
  | got (device : Nat) (c : Char8)
  | sent (device : Nat) (cs : List Char8)
  | hungUp (device : Nat)
  | accepted (device : Nat)
  | drained (c : Char8)
  | typed (cs : List Char8)
  | offered (c : Char8)
  | lines (up : Bool)

/-- The program's state, and what it has done. -/
structure Run where
  e : Endpoint
  log : List Event

def Run.did (r : Run) (event : Event) (e : Endpoint) : Run := ⟨e, r.log ++ [event]⟩

/-- What a `write` to a socket answers. -/
inductive Wrote where
  | took (n : Nat)
  | again
  | interrupted
  | failed

/-- What a `read` of a socket answers. -/
inductive Gave where
  | gave (cs : List Char8)
  | again
  | interrupted
  | failed

/-- What an `accept` answers, and whether the connection could be made non-blocking. -/
inductive Arrival where
  | arrived (nonblocking : Bool)
  | interrupted
  | failed

/-- What the world answers in one turn. -/
structure Turn where
  gets : List (Word × Word)
  writes : List Wrote
  reads : List Gave
  accepts : List Arrival
  drains : List (Word × Word)
  puts : List Word

/-- The port's characters to the outbox, while there is room. -/
def takeFromPort (device : Nat) : List (Word × Word) → Run → Run
  | [], r => r
  | (stat, rdata) :: gets, r =>
    if r.e.outbox.len < queueCap then
      match faceGet stat rdata with
      | none => r
      | some c => takeFromPort device gets (r.did (.got device c)
          { r.e with outbox := r.e.outbox.push c, fromMachine := r.e.fromMachine + 1 })
    else r

/-- The outbox to the socket as far as it takes it, and whether the device is gone. -/
def sendOut (device : Nat) : List Wrote → Run → Run × Bool
  | [], r => (r, false)
  | w :: writes, r =>
    if r.e.outbox.len = 0 then (r, false)
    else
      match w with
      | .took n =>
        -- `write` takes no more than it is given
        let n := min n r.e.outbox.run
        if n = 0 then (r, true)
        else sendOut device writes (r.did (.sent device (r.e.outbox.bytes n)) { r.e with outbox := r.e.outbox.drop n })
      | .again => (r, false)
      | .interrupted => sendOut device writes r
      | .failed => (r, true)

/-- What was typed at the socket, up to `room`, and whether the device is gone. -/
def readIn (room : Nat) : List Gave → List Char8 → Run → Run × List Char8 × Bool
  | [], typed, r => (r, typed, false)
  | g :: reads, typed, r =>
    if typed.length < room then
      match g with
      | .gave cs =>
        let cs := cs.take (min 256 (room - typed.length))
        if cs = [] then (r, typed, true) else readIn room reads (typed ++ cs) (r.did (.typed cs) r.e)
      | .again => (r, typed, false)
      | .interrupted => readIn room reads typed r
      | .failed => (r, typed, true)
    else (r, typed, false)

/-- A device that has gone, and what the port sent that it never took. -/
def hangUp (device : Nat) (r : Run) : Run :=
  r.did (.hungUp device)
    { r.e with
      device := none
      hangups := r.e.hangups + 1
      droppedOnHangup := r.e.droppedOnHangup + r.e.outbox.len
      outbox := r.e.outbox.clear }

/-- Whoever has arrived: one device on the cable, the others turned away. -/
def acceptAll : List Arrival → Run → Run
  | [], r => r
  | .arrived nonblocking :: accepts, r =>
    if r.e.device.isSome then acceptAll accepts { r with e := { r.e with refused := r.e.refused + 1 } }
    else if !nonblocking then acceptAll accepts r
    else acceptAll accepts (r.did (.accepted r.e.connects)
      { r.e with device := some r.e.connects, connects := r.e.connects + 1 })
  | .interrupted :: accepts, r => acceptAll accepts r
  | .failed :: _, r => r

/-- The turn of the device on the cable, if one is. -/
def serve (t : Turn) (room : Nat) (r : Run) : Run × List Char8 :=
  match r.e.device with
  | none => (r, [])
  | some device =>
    let (r, gone) := sendOut device t.writes r
    let (r, typed, gone) := if gone then (r, [], true) else readIn room t.reads [] r
    (if gone then hangUp device r else r, typed)

/-- One turn at the socket, and what was typed at it. -/
def service (t : Turn) (room : Nat) (r : Run) : Run × List Char8 :=
  let (r, typed) := serve t room r
  (acceptAll t.accepts r, typed)

/-- What the port still holds when a device arrives, in at most so many reads. -/
def drainPort : Nat → List (Word × Word) → Run → Run
  | bound + 1, (stat, rdata) :: drains, r =>
    match faceGet stat rdata with
    | none => r
    | some c => drainPort bound drains (r.did (.drained c) { r.e with droppedOnHangup := r.e.droppedOnHangup + 1 })
  | _, _, r => r

/-- The inbox into the machine's receiver, as far as it has room. -/
def offerAll : List Word → Run → Run
  | puts, r =>
    if r.e.inbox.len = 0 then r
    else
      match puts with
      | [] => { r with e := { r.e with refusedByReceiver := r.e.refusedByReceiver + 1 } }
      | stat :: puts =>
        if facePut stat then
          offerAll puts (r.did (.offered (r.e.inbox.b r.e.inbox.head))
            { r.e with inbox := r.e.inbox.drop 1, toMachine := r.e.toMachine + 1 })
        else { r with e := { r.e with refusedByReceiver := r.e.refusedByReceiver + 1 } }

/-- The modem-control lines, where the cable has changed. -/
def setLines (was : Bool) (r : Run) : Run :=
  if !was && r.e.device.isSome then r.did (.lines true) { r.e with linesUp := true }
  else if was && !r.e.device.isSome then r.did (.lines false) { r.e with linesUp := false }
  else r

/-- What the port has finished sending, only while a device is on the cable. -/
def fromPort (t : Turn) (r : Run) : Run :=
  match r.e.device with
  | none => r
  | some device =>
    let r := takeFromPort device t.gets r
    if r.e.outbox.len = queueCap then { r with e := { r.e with stalledPort := r.e.stalledPort + 1 } } else r

/-- `serial_endpoint_pump`. -/
def pump (r : Run) (t : Turn) : Run :=
  let r := fromPort t r
  let was := r.e.device.isSome
  let room := if backlog ≤ r.e.inbox.len then 0 else backlog - r.e.inbox.len
  let connects := r.e.connects
  let (r, typed) := service t room r
  let r := if r.e.connects ≠ connects then drainPort queueCap t.drains r else r
  let r := setLines was r
  offerAll t.puts { r with e := { r.e with inbox := typed.foldl Ring.push r.e.inbox } }

/-- `serial_endpoint_bind` and `serial_endpoint_start`. -/
def start (outbox inbox : Nat → Char8) : Run where
  e := ⟨none, ⟨outbox, 0, 0⟩, ⟨inbox, 0, 0⟩, false, 0, 0, 0, 0, 0, 0, 0, 0⟩
  log := [.lines false]

def pumps (outbox inbox : Nat → Char8) (turns : List Turn) : Run := turns.foldl pump (start outbox inbox)

end Program

end MuirFpga.Serial
