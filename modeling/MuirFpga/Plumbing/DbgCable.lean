import MuirFpga.Sync.Trace
import Mathlib.Data.BitVec

/-!
# The debug cable's sender and receiver

`cadr_dbg_tx` and `cadr_dbg_rx` at their defaults: twenty-one levels and one data line, a frame of
twenty-four beats six ticks apart and a gap of eighteen. A frame is the marker `01`, the parity and the
levels, the marker's top bit first; a receiver takes it whole or not at all. The two are joined by lines
that bring what the sender drives a constant number of ticks later.
-/

namespace MuirFpga.Plumbing

open Sync

/-- The exclusive or of the levels. -/
def parity (v : BitVec 21) : Bool :=
  (List.range 21).foldr (fun k p => v.getLsbD k ^^ p) false

/-- What the head of a frame must read: the marker, and the parity of the levels under it. -/
def headWant (v : BitVec 21) : BitVec 3 := 0b01#2 ++ BitVec.ofBool (parity v)

/-- The frame the sender would send if it started one now. -/
def frameOut (txLevels : BitVec 21) : BitVec 24 := headWant txLevels ++ txLevels

/-- The sender's registers: the lines, the frame shifted out, the beat, the ticks to the next and
whether it is in the gap. -/
structure DbgTx where
  stb : Bool
  d : Bool
  frame : BitVec 24
  beat : Nat
  t : Nat
  gap : Bool

namespace DbgTx

/-- The sender in reset: quiet for a gap. -/
def reset : DbgTx := ⟨false, false, 0#24, 0, 17, true⟩

/-- The sender's first beat of a frame comes at this tick. -/
def begins (tx : DbgTx) (rst : Bool) : Bool := !rst && tx.t == 0 && tx.gap

/-- One tick of the sender. -/
def next (tx : DbgTx) (rst : Bool) (txLevels : BitVec 21) : DbgTx :=
  if rst then reset
  else if tx.t ≠ 0 then { tx with t := tx.t - 1 }
  else if tx.gap then
    { stb := !tx.stb
      d := (frameOut txLevels).getLsbD 23
      frame := frameOut txLevels <<< 1
      beat := 1
      t := 5
      gap := false }
  else if tx.beat ≠ 24 then
    { stb := !tx.stb
      d := tx.frame.getLsbD 23
      frame := tx.frame <<< 1
      beat := tx.beat + 1
      t := 5
      gap := false }
  else { tx with gap := true, t := 17 }

end DbgTx

/-- The receiver's registers: the strobe through two flops and as it was last tick, the beats of the
frame taken so far, the ticks since the last beat, since the last good frame and since anything at all,
and what it gives out. -/
structure DbgRx where
  s0 : Bool
  s1 : Bool
  q : Bool
  frame : BitVec 23
  beat : Nat
  idleT : Nat
  lossT : Nat
  actT : Nat
  levels : BitVec 21
  live : Bool

namespace DbgRx

/-- The receiver in reset: between frames, and nothing heard. -/
def reset : DbgRx := ⟨false, false, false, 0#23, 0, 12, 1024, 256, 0#21, false⟩

variable (rx : DbgRx)

def change : Bool := rx.s1 != rx.q
def complete : Bool := rx.change && rx.beat == 23

/-- The frame with this beat shifted in. -/
def rxNext (d : Bool) : BitVec 24 := rx.frame ++ BitVec.ofBool d

def active : Bool := rx.actT != 256

end DbgRx

/-- The levels of a frame, and whether its head is as they want it. -/
def levelsOf (w : BitVec 24) : BitVec 21 := w.extractLsb' 0 21
def good (w : BitVec 24) : Bool := w.extractLsb' 21 3 == headWant (levelsOf w)

namespace DbgRx

variable (rx : DbgRx)

def frameDone : Bool := rx.complete
def frameBad (d : Bool) : Bool := rx.complete && !good (rx.rxNext d)

/-- One tick of the receiver. -/
def next (rst stb d : Bool) : DbgRx :=
  if rst then reset
  else
    { s0 := stb
      s1 := rx.s0
      q := rx.s1
      frame := if rx.change then (rx.rxNext d).setWidth 23 else rx.frame
      beat :=
        if rx.change then if rx.complete then 0 else rx.beat + 1
        else if rx.idleT ≠ 12 then rx.beat
        else 0
      idleT := if rx.change then 0 else if rx.idleT ≠ 12 then rx.idleT + 1 else rx.idleT
      lossT :=
        if rx.complete && good (rx.rxNext d) then 0
        else if rx.lossT ≠ 1024 then rx.lossT + 1
        else rx.lossT
      actT := if rx.change then 0 else if rx.actT ≠ 256 then rx.actT + 1 else rx.actT
      levels :=
        if rx.complete && good (rx.rxNext d) then levelsOf (rx.rxNext d)
        else if rx.lossT ≠ 1024 then rx.levels
        else 0#21
      live :=
        if rx.complete && good (rx.rxNext d) then true
        else if rx.lossT ≠ 1024 then rx.live
        else false }

end DbgRx

/-- What a tick brings the two ends. -/
structure LinkInput where
  txRst : Bool
  txLevels : BitVec 21
  rxRst : Bool

/-- The sender's run from reset. -/
def txRun (inputs : Nat → LinkInput) : Nat → DbgTx :=
  trace (fun i tx => tx.next i.txRst i.txLevels) DbgTx.reset inputs

/-- The lines at the receiver: the sender's some ticks ago, and quiet before it drove them. -/
def lineStb (delay : Nat) (inputs : Nat → LinkInput) (tick : Nat) : Bool :=
  if tick < delay then false else (txRun inputs (tick - delay)).stb
def lineD (delay : Nat) (inputs : Nat → LinkInput) (tick : Nat) : Bool :=
  if tick < delay then false else (txRun inputs (tick - delay)).d

/-- The receiver's run from reset, at the lines' far end. -/
def rxRun (delay : Nat) (inputs : Nat → LinkInput) : Nat → DbgRx
  | 0 => DbgRx.reset
  | tick + 1 => (rxRun delay inputs tick).next (inputs tick).rxRst
      (lineStb delay inputs tick) (lineD delay inputs tick)

end MuirFpga.Plumbing
