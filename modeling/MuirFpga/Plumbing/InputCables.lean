import MuirFpga.Sync.Trace
import MuirFpga.Sync.Circular
import Mathlib.Tactic.SplitIfs

/-!
# The keyboard's and the mouse's cables

`cadr_input_cables`: the queue of key words and the handshake that hands them to the card, and the
steps the mouse owes, each axis with its quadrature phase. The AXI face is left out: a write is its
word, its data and its mask.
-/

namespace MuirFpga.Plumbing.InputCables

open Sync (advance)

/-- What a clock brings: the two resets of the port, the machine's, a register write, and the card's
status. -/
structure Input where
  rst : Bool
  fabricRst : Bool
  machRst : Bool
  wr : Bool
  wWord : BitVec 10
  wrData : BitVec 32
  wrMask : BitVec 32
  cardCsr : BitVec 8

/-- An axis of the mouse: the steps owed, and the encoder's phase. -/
structure Axis where
  owed : BitVec 12
  phase : BitVec 2

/-- The registers; `head`, `tail` and `count` are as wide as the queue needs. -/
structure Cables where
  queue : Nat → BitVec 24
  head : Nat
  tail : Nat
  count : Nat
  lastSent : BitVec 24
  everSent : Bool
  lost : BitVec 32
  x : Axis
  y : Axis
  sw : BitVec 3
  stepT : BitVec 12
  csrQ : BitVec 8
  sentPending : Bool
  kbdStrobe : Bool
  kbdCode : BitVec 24

/-- `sat12`. -/
def sat12 (v : BitVec 13) : BitVec 12 :=
  if (2047#13).slt v then 2047#12
  else if v.slt (BitVec.ofInt 13 (-2048)) then BitVec.ofInt 12 (-2048)
  else v.setWidth 12

/-- What is owed after a delta is written. -/
def added (owed delta : BitVec 12) : BitVec 12 := sat12 (owed.signExtend 13 + delta.signExtend 13)

namespace Axis

/-- One step, if one is owed. -/
def step (a : Axis) : Axis :=
  if (0#12).slt a.owed then ⟨a.owed - 1#12, a.phase + 1#2⟩
  else if a.owed.slt 0#12 then ⟨a.owed + 1#12, a.phase - 1#2⟩
  else a

/-- A clock: the divider's end steps the axis, and a delta written is added to what was owed before
the step. -/
def next (a : Axis) (ends : Bool) (delta : Option (BitVec 12)) : Axis :=
  let a' := if ends then a.step else a
  match delta with
  | none => a'
  | some delta => { a' with owed := added a.owed delta }

end Axis

namespace Input

variable (i : Input)

/-- A write of a register. -/
def writes (word : BitVec 10) : Bool := i.wr && i.wWord == word

/-- `KEY` and `MOUSE` written. -/
def key : Bool := i.writes 2#10
def mouse : Bool := i.writes 3#10

/-- The word a write of `KEY` brings. -/
def keyWord : BitVec 24 := i.wrData.extractLsb' 0 24 &&& i.wrMask.extractLsb' 0 24

/-- The two deltas a write of `MOUSE` brings. -/
def dx : BitVec 12 := i.wrData.extractLsb' 0 12 &&& i.wrMask.extractLsb' 0 12
def dy : BitVec 12 := i.wrData.extractLsb' 12 12 &&& i.wrMask.extractLsb' 12 12

/-- `CTL`'s FLUSH, or the machine's reset. -/
def clears : Bool :=
  (i.writes 5#10 && i.wrData.getLsbD 0 && i.wrMask.getLsbD 0) || i.machRst

end Input

namespace Cables

variable (depth stepTicks : Nat) (s : Cables) (i : Input)

def kbdReady : Bool := s.csrQ.getLsbD 5
def room : Bool := s.count != depth
def owes : Bool := s.x.owed != 0#12 || s.y.owed != 0#12

/-- A word goes to the card. -/
def taking : Bool := !s.kbdReady && !s.sentPending && s.count != 0

/-- A key word is queued. -/
def putting : Bool := i.key && s.room depth

/-- The divider's end. -/
def ends : Bool := s.stepT == 0#12

/-- The registers in the port's reset; the array is not reset. -/
def reset (queue : Nat → BitVec 24) : Cables where
  queue := queue
  head := 0
  tail := 0
  count := 0
  lastSent := 0#24
  everSent := false
  lost := 0#32
  x := ⟨0#12, 2#2⟩
  y := ⟨0#12, 2#2⟩
  sw := 0#3
  stepT := BitVec.ofNat 12 (stepTicks - 1)
  csrQ := 0#8
  sentPending := false
  kbdStrobe := false
  kbdCode := 0#24

/-- FLUSH and the machine's reset, last in the block. -/
def cleared (s : Cables) : Cables :=
  { s with
    head := 0
    tail := 0
    count := 0
    x := { s.x with owed := 0#12 }
    y := { s.y with owed := 0#12 }
    sw := 0#3
    kbdStrobe := false
    sentPending := false }

/-- A clock without a reset of the port, before what clears. -/
def clock : Cables where
  queue := if s.putting depth i then Function.update s.queue s.tail i.keyWord else s.queue
  head := if s.taking then advance depth s.head else s.head
  tail := if s.putting depth i then advance depth s.tail else s.tail
  count := s.count - (if s.taking then 1 else 0) + if s.putting depth i then 1 else 0
  lastSent := if s.taking then s.queue s.head else s.lastSent
  everSent := s.taking || s.everSent
  lost := if i.key && !s.room depth && s.lost != 0xFFFFFFFF#32 then s.lost + 1#32 else s.lost
  x := s.x.next s.ends (if i.mouse then some i.dx else none)
  y := s.y.next s.ends (if i.mouse then some i.dy else none)
  sw :=
    if i.writes 4#10 then
      (s.sw &&& ~~~ i.wrMask.extractLsb' 0 3) |||
        (i.wrData.extractLsb' 0 3 &&& i.wrMask.extractLsb' 0 3)
    else s.sw
  stepT := if s.ends then BitVec.ofNat 12 (stepTicks - 1) else s.stepT - 1#12
  csrQ := i.cardCsr
  sentPending := s.taking || (!s.kbdReady && s.sentPending)
  kbdStrobe := s.taking
  kbdCode := if s.taking then s.queue s.head else s.kbdCode

/-- One clock. -/
def next : Cables :=
  if i.rst || i.fabricRst then reset stepTicks s.queue
  else if i.clears then (s.clock depth stepTicks i).cleared
  else s.clock depth stepTicks i

end Cables

end MuirFpga.Plumbing.InputCables
