import MuirFpga.Chaosnet.Card
import MuirFpga.Plumbing.GpRegs
import MuirFpga.Sync.Trace
import Mathlib.Data.BitVec

/-!
# The Chaosnet interface's cable

`cadr_chaos_cable`, a mailbox for whole frames between the card and Linux: the capture of what the card
streams and the window it is read at, the window a frame is built in and the stream of a committed one into
the card, and the registers of the face. The card and the cable are one system, under the machine's accesses
and a master on the face.
-/

namespace MuirFpga.Chaosnet

open Plumbing Sync

/-- `C_IDLE`, `C_WORDS` and `C_HELD`. -/
inductive CState where
  | idle
  | words
  | held
deriving DecidableEq

/-- `X_IDLE`, `X_PRIME`, `X_STREAM`, `X_GAP` and `X_DONE`. -/
inductive XState where
  | idle
  | prime
  | stream
  | gap
  | done
deriving DecidableEq

/-- What the cable sees of its face in a tick. -/
structure Face where
  wWord : Nat
  wr : Option (BitVec 32 × BitVec 32)
  rWord : Nat
  rd : Bool

namespace Face

variable (f : Face)

/-- A bit of a command written. -/
def command (bit : Nat) : Bool :=
  match f.wr with
  | some (data, mask) => f.wWord = 5 && data.getLsbD bit && mask.getLsbD bit
  | none => false

/-- A register's bits after what is written to it. -/
def stored {n : Nat} (word : Nat) (old : BitVec n) : BitVec n :=
  match f.wr with
  | some (data, mask) =>
    if f.wWord = word then (old &&& ~~~mask.setWidth n) ||| (data.setWidth n &&& mask.setWidth n) else old
  | none => old

/-- A word written into the receive window, with its place. -/
def window : Option (Nat × Word) :=
  match f.wr with
  | some (data, _) => if f.wWord / 256 = 2 then some (f.wWord % 256, data.setWidth 16) else none
  | none => none

end Face

section Capture

/-- The transmit half. -/
structure Capture where
  cst : CState
  capAt : Nat
  capLen : Nat
  txBuf : Nat → Word
  txQ : Word
  txHeld : Nat
  txValid : Bool
  txSeen : Bool
  rdQ : Bool
  txDone : Bool
  txAbort : Bool
  txvWas : Bool

namespace Capture

def reset (txBuf : Nat → Word) (txQ : Word) : Capture where
  cst := .idle
  capAt := 0
  capLen := 0
  txBuf
  txQ
  txHeld := 0
  txValid := false
  txSeen := false
  rdQ := false
  txDone := false
  txAbort := false
  txvWas := false

variable (s : Capture) (f : Face) (c : Card) (address : Word)

/-- A word of the frame is captured. -/
def captures : Bool := s.cst = .words && c.tx.txValid

/-- The waiting frame is taken. -/
def takes : Bool := f.command 0 && s.txValid && s.txSeen

/-- A frame of 48 bits or fewer. -/
def short : Bool := c.tx.txGo && c.tx.txLen ≤ 3

def next : Capture where
  cst := if c.tx.txClear || c.resetQ then .idle
    else if c.tx.txGo then (if c.tx.txLen ≤ 3 then .idle else .words)
    else match s.cst with
      | .idle => .idle
      | .words => if c.tx.txValid && s.capAt + 1 = s.capLen then .held else .words
      | .held => .idle
  capAt := if c.tx.txGo then 0 else if s.captures c && s.capAt + 1 ≠ s.capLen then s.capAt + 1 else s.capAt
  capLen := if c.tx.txGo then c.tx.txLen else s.capLen
  txBuf := if s.captures c then Function.update s.txBuf (s.capAt % 256) (c.tx.txWord address) else s.txBuf
  txQ := s.txBuf (f.rWord % 256)
  txHeld := if s.cst = .held then s.capLen else s.txHeld
  txValid := if c.tx.txClear || c.resetQ || s.takes f then false else if s.cst = .held then true else s.txValid
  txSeen := if s.cst = .held then false else if s.rdQ && f.rWord = 3 then true else s.txSeen
  rdQ := f.rd
  txDone := s.takes f || short c
  txAbort := s.takes f && f.command 3
  txvWas := s.txValid

end Capture

end Capture

section Offer

/-- The receive half. -/
structure Offer where
  xst : XState
  rxBuf : Nat → Word
  rxQ : Word
  streamAt : Nat
  sent : Nat
  xLen : Nat
  rxLen : BitVec 9
  lost : Nat
  rdoneWas : Bool

namespace Offer

def reset (rxBuf : Nat → Word) (rxQ : Word) : Offer where
  xst := .idle
  rxBuf
  rxQ
  streamAt := 0
  sent := 0
  xLen := 0
  rxLen := 0
  lost := 0
  rdoneWas := false

variable (s : Offer) (f : Face) (rdone resetQ : Bool)

/-- A commit of a length that is a frame's. -/
def asked : Bool := f.command 1 && s.rxLen ≠ 0 && s.rxLen.toNat ≤ 256
def commitOk : Bool := s.asked f && !rdone && s.xst = .idle
def refused : Bool := s.asked f && !s.commitOk f rdone

def line : CableLine where
  rxValid := s.xst = .stream
  rxWord := s.rxQ
  rxDone := s.xst = .done
  rxBits := s.xLen * 16
  rxCrc := false
  rxLost := s.refused f rdone
  rxStore := false
  cblBusy := false
  rxStart := false
  rxStored := 0
  rxCheckNz := false

/-- Where the receive buffer is read. -/
def readAt : Nat := if s.xst = .prime ∨ s.xst = .stream then s.streamAt else f.rWord % 256

def next : Offer where
  xst := if resetQ then .idle
    else match s.xst with
      | .idle => if s.commitOk f rdone then .prime else .idle
      | .prime => .stream
      | .stream => if s.sent + 1 = s.xLen then .gap else .stream
      | .gap => .done
      | .done => .idle
  rxBuf := match f.window with
    | some (k, w) => Function.update s.rxBuf k w
    | none => s.rxBuf
  rxQ := s.rxBuf (s.readAt f)
  streamAt := match s.xst with
    | .idle => if s.commitOk f rdone then 0 else s.streamAt
    | .prime => 1
    | .stream => (s.streamAt + 1) % 256
    | _ => s.streamAt
  sent := match s.xst with
    | .idle => if s.commitOk f rdone then 0 else s.sent
    | .stream => if s.sent + 1 = s.xLen then s.sent else s.sent + 1
    | _ => s.sent
  xLen := if s.commitOk f rdone then s.rxLen.toNat else s.xLen
  rxLen := if resetQ || f.command 2 then 0 else f.stored 4 s.rxLen
  lost := if s.refused f rdone && s.lost ≠ 2 ^ 32 - 1 then s.lost + 1 else s.lost
  rdoneWas := rdone

end Offer

end Offer

/-- The cable's registers that are neither half's. -/
structure CableRegs where
  myAddr : Word
  resets : Nat
  irq : BitVec 2
  irqEn : BitVec 2

structure Cable where
  tx : Capture
  rx : Offer
  regs : CableRegs

namespace Cable

def ident : BitVec 32 := 0x4348414F

variable (s : Cable) (f : Face) (c : Card)

def csr : Word := c.csr (s.rx.line f c.rx.rdone)

def lineOf : CableLine := s.rx.line f c.rx.rdone

/-- What a read gives. -/
def rdData : BitVec 32 :=
  if f.rWord / 256 = 1 then
    (if s.tx.txValid && f.rWord % 256 < s.tx.txHeld then s.tx.txQ.setWidth 32 else 0)
  else if f.rWord / 256 = 2 then s.rx.rxQ.setWidth 32
  else match f.rWord with
    | 0 => ident
    | 1 => s.csr f c ++ (0 : BitVec 12) ++ BitVec.ofBool ((s.csr f c).getLsbD 1) ++
        BitVec.ofBool (!(s.csr f c).getLsbD 15) ++ BitVec.ofBool ((s.csr f c).getLsbD 15) ++
        BitVec.ofBool s.tx.txValid
    | 2 => s.regs.myAddr.setWidth 32
    | 3 => if s.tx.txValid then BitVec.ofNat 32 s.tx.txHeld else 0
    | 4 => s.rx.rxLen.setWidth 32
    | 5 => BitVec.ofNat 24 s.regs.resets ++ (0 : BitVec 8)
    | 6 => BitVec.ofNat 32 s.rx.lost
    | 7 => s.regs.irq.setWidth 32
    | 8 => s.regs.irqEn.setWidth 32
    | _ => 0

/-- The two events, and the bits a write clears. -/
def irqSet : BitVec 2 :=
  BitVec.ofBool (s.rx.rdoneWas && !c.rx.rdone) ++ BitVec.ofBool (s.tx.txValid && !s.tx.txvWas)

def irqClr : BitVec 2 := f.stored 7 0

def next : Cable where
  tx := s.tx.next f c s.regs.myAddr
  rx := s.rx.next f c.rx.rdone c.resetQ
  regs :=
    { myAddr := f.stored 2 s.regs.myAddr
      resets := if c.resetQ && s.regs.resets ≠ 2 ^ 24 - 1 then s.regs.resets + 1 else s.regs.resets
      irq := (s.regs.irq &&& ~~~irqClr f) ||| s.irqSet c
      irqEn := f.stored 8 s.regs.irqEn }

end Cable

/-- What a tick brings: the machine's access, and the master on the face. -/
structure ChaosTick where
  init : Bool
  access : CardAccess
  write : WriteIn Unit
  read : ReadIn Unit

/-- The card, the cable and the face. -/
structure Chaos where
  card : Card
  cable : Cable
  w : RegsWrite Unit
  r : RegsRead Unit
  rdataQ : BitVec 32

/-- What the buffers and their read registers come up with. -/
structure Buffers where
  xmit : Nat → Word
  txBuf : Nat → Word
  rxBuf : Nat → Word
  xq : Word
  txQ : Word
  rxQ : Word
  rd : Word

namespace Chaos

variable (i : ChaosTick) (s : Chaos)

def face : Face where
  wWord := s.w.word.toNat
  wr := s.w.wr i.write
  rWord := s.r.word.toNat
  rd := s.r.st = .prep

def line : CableLine := s.cable.lineOf (s.face i) s.card

/-- The word a read of the face gives. -/
def rdData : BitVec 32 := s.cable.rdData (s.face i) s.card

def next : Chaos where
  card := s.card.next (s.line i) i.init i.access s.cable.regs.myAddr s.cable.tx.txDone s.cable.tx.txAbort
  cable := s.cable.next (s.face i) s.card
  w := s.w.next i.write
  r := s.r.next i.read
  rdataQ := s.r.sample (s.rdData i) s.rdataQ

/-- The system as its reset leaves it. -/
def powerUp (b : Buffers) : Chaos where
  card := ⟨.powerUp b.xmit b.xq, .powerUp b.rd, 0, false⟩
  cable := ⟨.reset b.txBuf b.txQ, .reset b.rxBuf b.rxQ, ⟨0, 0, 0, 0⟩⟩
  w := ⟨.addr, 0, ()⟩
  r := ⟨.addr, 0, (), 0⟩
  rdataQ := 0

/-- The system at a clock. -/
def run (b : Buffers) (ticks : Nat → ChaosTick) (clock : Nat) : Chaos := trace next (powerUp b) ticks clock

/-- Buffers of zeros, and a master that asks for nothing. -/
def zeros : Buffers := ⟨fun _ => 0, fun _ => 0, fun _ => 0, 0, 0, 0, 0⟩

def noWrite : WriteIn Unit := ⟨0, 0, (), false, 0, 0, false, false, true⟩
def noRead : ReadIn Unit := ⟨0, 0, (), false, true⟩

end Chaos

end MuirFpga.Chaosnet
