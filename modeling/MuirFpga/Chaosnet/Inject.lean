import MuirFpga.Chaosnet.Packet
import MuirFpga.Sync.Circular

/-!
# The retry at the machine's end of the cable

`chaos_inject.c`: a frame for the machine is offered to the interface's one buffer, and one the buffer
refuses waits at the head of a queue for its next offer. A broadcast is offered once and never waits.
-/

namespace MuirFpga.Chaosnet.Inject

open MuirFpga.Sync

/-- `CHAOS_INJECT_OFFERS`, `CHAOS_INJECT_QUEUE`, `CHAOS_INJECT_WAIT_NS`, `CHAOS_FACE_MIN_WORDS`. -/
def maxOffers : Nat := 3
def queueSize : Nat := 64
def waitNs : Nat := 20000000
def minWords : Nat := trailerWords + 1

/-- A frame handed to the edge. The number is not the source's: it tells equal frames apart. -/
structure Given where
  words : List Word
  no : Nat
deriving DecidableEq

/-- The counts that close, and the refusals. -/
structure Counts where
  taken : Nat
  stored : Nat
  refused : Nat
  givenUp : Nat
  broadcastsLost : Nat
  noRoom : Nat

/-- `struct chaos_inject`. -/
structure Queue extends Counts where
  q : Nat → Given
  head : Nat
  waiting : Nat
  offers : Nat
  refusedAt : BitVec 64
  held : Bool

/-- `chaos_inject_init`. -/
def init : Queue where
  q _ := ⟨[], 0⟩
  head := 0
  waiting := 0
  offers := 0
  refusedAt := 0
  held := false
  taken := 0
  stored := 0
  refused := 0
  givenUp := 0
  broadcastsLost := 0
  noRoom := 0

/-- `chaos_face_give`: whether a frame is stored, if the interface would take one of its length. -/
def faceGive (words : List Word) (takes : Bool) : Bool :=
  minWords ≤ words.length ∧ words.length ≤ maxWords ∧ takes

/-- The cable destination, the third word from the end, is everybody. -/
def broadcast (words : List Word) : Bool :=
  trailerWords ≤ words.length && words.getD (words.length - trailerWords) 0#16 == 0#16

/-- What a call did: the queue after it, whether the frame offered was stored, and what it answers. -/
structure Turn where
  queue : Queue
  offered : Option Bool
  moved : Bool

section Calls

variable (ulongMax : Nat)

def bump (c : Nat) : Nat := if c ≠ ulongMax then c + 1 else c

def Queue.commit (s : Queue) (f : Given) (takes : Bool) : Queue × Bool :=
  if faceGive f.words takes then ({ s with stored := bump ulongMax s.stored }, true)
  else ({ s with refused := bump ulongMax s.refused }, false)

def Queue.offer (s : Queue) (f : Given) (now : BitVec 64) (takes : Bool) : Queue × Bool :=
  match s.commit ulongMax f takes with
  | (s, true) => (s, true)
  | (s, false) => ({ s with refusedAt := now, held := true, offers := s.offers + 1 }, false)

def Queue.done (s : Queue) : Queue :=
  { s with head := (s.head + 1) % queueSize, waiting := s.waiting - 1, offers := 0, held := false, refusedAt := 0 }

def Queue.put (s : Queue) (slot : Nat) (f : Given) : Queue := { s with q := Function.update s.q slot f }

/-- `chaos_inject_give`. -/
def Queue.give (s : Queue) (f : Given) (now : BitVec 64) (takes : Bool) : Turn :=
  if f.words.length > maxWords then ⟨s, some (faceGive f.words takes), true⟩
  else
    let s := { s with taken := bump ulongMax s.taken }
    if broadcast f.words then
      match s.commit ulongMax f takes with
      | (s, true) => ⟨s, some true, true⟩
      | (s, false) => ⟨{ s with broadcastsLost := bump ulongMax s.broadcastsLost }, some false, true⟩
    else if s.waiting = 0 then
      match s.offer ulongMax f now takes with
      | (s, true) => ⟨s, some true, true⟩
      | (s, false) => ⟨{ s.put s.head f with waiting := 1 }, some false, true⟩
    else if s.waiting = queueSize then ⟨{ s with noRoom := bump ulongMax s.noRoom }, none, true⟩
    else
      ⟨{ s.put ((s.head + s.waiting) % queueSize) f with waiting := s.waiting + 1 }, none, true⟩

/-- `chaos_inject_pump`, the interface's buffer emptied since it was last asked or not. -/
def Queue.pump (s : Queue) (now : BitVec 64) (freed takes : Bool) : Turn :=
  if s.waiting = 0 then ⟨s, none, false⟩
  else if s.held ∧ !freed ∧ (now - s.refusedAt).toNat < waitNs then ⟨s, none, false⟩
  else
    match s.offer ulongMax (s.q s.head) now takes with
    | (s, true) => ⟨s.done, some true, true⟩
    | (s, false) =>
      if s.offers ≥ maxOffers then ⟨{ s with givenUp := bump ulongMax s.givenUp }.done, some false, true⟩
      else ⟨s, some false, true⟩

end Calls

/-- A call from the program, with what the interface answers. -/
inductive Call where
  | give (words : List Word) (now : BitVec 64) (takes : Bool)
  | pump (now : BitVec 64) (freed takes : Bool)

/-- A frame offered: whether it was stored, and the frames that waited then. -/
structure Offered where
  frame : Given
  stored : Bool
  waiting : List Given
deriving DecidableEq

/-- The frames that wait, the one whose turn it is first. -/
def Queue.frames (s : Queue) : List Given := heldIn s.q queueSize s.head s.waiting

/-- The frames given, the offers made of them, and the queue. -/
structure History where
  given : List Given
  log : List Offered
  queue : Queue

/-- A call. Only the frame given or the one at the head can be offered. -/
def History.step (ulongMax : Nat) (h : History) : Call → History
  | .give words now takes =>
    let frame : Given := ⟨words, h.given.length⟩
    let turn := h.queue.give ulongMax frame now takes
    ⟨h.given ++ [frame],
      h.log ++ (turn.offered.map fun stored => (⟨frame, stored, h.queue.frames⟩ : Offered)).toList, turn.queue⟩
  | .pump now freed takes =>
    let turn := h.queue.pump ulongMax now freed takes
    ⟨h.given,
      h.log ++ (turn.offered.map fun stored =>
        (⟨h.queue.q h.queue.head, stored, h.queue.frames⟩ : Offered)).toList, turn.queue⟩

/-- Calls from the start. -/
def run (ulongMax : Nat) (calls : List Call) : History := calls.foldl (History.step ulongMax) ⟨[], [], init⟩

end MuirFpga.Chaosnet.Inject
