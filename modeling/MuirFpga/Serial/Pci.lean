import MuirFpga.Serial.Store

/-!
# The serial port's chip and its line

The Signetics 2651 of `cadr_io_board`, and the part of `cadr_serial_line` that times it: the baud-rate
generator, the transmitter's two edges and the character on its way in. What the line has of the chip is its
registers and its status byte; what the chip has of the line is pulses of one tick and whether the cable is
plugged in. The line's store is `Store`.
-/

namespace MuirFpga.Serial

open MuirFpga.Sync

/-- The four registers of the chip. -/
inductive Register where
  | data
  | status
  | mode
  | command
deriving DecidableEq

/-- What the machine's bus does to the chip in a tick. -/
inductive Access where
  | idle
  | write (register : Register) (byte : Char8)
  | read (register : Register)
deriving DecidableEq

/-- The byte stored into a register. -/
def Access.stored (a : Access) (register : Register) : Option Char8 :=
  match a with
  | .write r byte => if r = register then some byte else none
  | _ => none

def Access.reads (a : Access) (register : Register) : Bool := a = .read register

/-- What the line drives. -/
structure Wires where
  take : Bool
  done : Bool
  rxStrobe : Bool
  rxEnd : Bool
  rxData : Char8
  rxParity : Bool
  rxFraming : Bool
  plugged : Bool

structure Pci where
  mode1 : Char8
  mode2 : Char8
  cmd : Char8
  second : Bool
  syn1 : Char8
  syn2 : Char8
  dle : Char8
  nextSyn : Nat
  rhr : Char8
  thr : Char8
  shift : Char8
  rxReady : Bool
  thrFull : Bool
  shifting : Bool
  txEmpty : Bool
  dschg : Bool
  parity : Bool
  overrun : Bool
  framing : Bool
  dsrWas : Bool
  dcdWas : Bool
  echoDue : Bool
  echoByte : Char8
  txStrobe : Bool
  txData : Char8

namespace Pci

/-- The chip as its reset leaves it. -/
def reset (plugged : Bool) : Pci where
  mode1 := 0
  mode2 := 0
  cmd := 0
  second := false
  syn1 := 0
  syn2 := 0
  dle := 0
  nextSyn := 0
  rhr := 0
  thr := 0
  shift := 0
  rxReady := false
  thrFull := false
  shifting := false
  txEmpty := false
  dschg := false
  parity := false
  overrun := false
  framing := false
  dsrWas := plugged
  dcdWas := plugged
  echoDue := false
  echoByte := 0
  txStrobe := false
  txData := 0

variable (s : Pci) (plugged : Bool)

/-- 0 normal, 1 auto echo, 2 local loop back, 3 remote loop back. -/
def mode : BitVec 2 := s.cmd.extractLsb' 6 2
def isLocal : Bool := s.mode = 2
def dcd : Bool := if s.isLocal then s.cmd.getLsbD 1 else plugged
def cts : Bool := if s.isLocal then s.cmd.getLsbD 5 else plugged
def internal : Bool := s.mode1.extractLsb' 0 2 ≠ 0
def txclk : Bool := s.internal && s.mode2.getLsbD 5
def rxclk : Bool := s.internal && s.mode2.getLsbD 4
def txOn : Bool := s.cmd.getLsbD 0 && s.txclk && (s.mode = 0 || s.mode = 2)
def rxOn : Bool := (s.cmd.getLsbD 2 || s.isLocal) && s.rxclk
def rxRuns : Bool := s.rxOn && s.dcd plugged
def txReady : Bool := s.txOn && !s.thrFull
def echoes : Bool := s.mode = 1 || s.mode = 3
def mask : Char8 := 0xff#8 >>> (3 - (s.mode1.extractLsb' 2 2).toNat)

/-- The status byte's flags that the line reads. -/
def status : Bool × Bool := (s.txReady, s.rxReady)

variable (w : Wires) (a : Access)

/-- A frame of the shift register ends. -/
def ends : Bool := w.done && s.shifting

/-- The shift register takes the holding register. -/
def takes : Bool := w.take && s.thrFull && s.txOn && s.cts w.plugged && (!s.shifting || w.done)

def receives : Bool := w.rxStrobe && s.rxRuns w.plugged

/-- Whether the receiver is on under the byte being stored into the command register. -/
def cmdRxOn (byte : Char8) : Bool := (byte.getLsbD 2 || byte.extractLsb' 6 2 = (2 : BitVec 2)) && s.rxclk

/-- The registers after a tick without the reset. -/
def run : Pci where
  mode1 := match a.stored .mode with
    | some byte => if s.second then s.mode1 else byte
    | none => s.mode1
  mode2 := match a.stored .mode with
    | some byte => if s.second then byte else s.mode2
    | none => s.mode2
  cmd := match a.stored .command with
    | some byte => byte &&& 0xef#8
    | none => s.cmd
  second := if a.reads .command then false
    else if (a.stored .mode).isSome || a.reads .mode then !s.second else s.second
  syn1 := if s.nextSyn = 0 then (a.stored .status).getD s.syn1 else s.syn1
  syn2 := if s.nextSyn = 1 then (a.stored .status).getD s.syn2 else s.syn2
  dle := if s.nextSyn = 0 ∨ s.nextSyn = 1 then s.dle else (a.stored .status).getD s.dle
  nextSyn := if a.reads .command then 0
    else if (a.stored .status).isSome then (if s.nextSyn = 2 then 0 else s.nextSyn + 1) else s.nextSyn
  rhr := if s.receives w && s.mode ≠ 3 then w.rxData &&& s.mask
    else if s.ends w && s.isLocal then s.shift &&& s.mask else s.rhr
  thr := (a.stored .data).getD s.thr
  shift := if s.takes w then s.thr else s.shift
  rxReady := if a.reads .data then false
    else if (a.stored .command).any fun byte => !s.cmdRxOn byte then false
    else if (s.receives w && s.mode ≠ 3) || (s.ends w && s.isLocal) then true else s.rxReady
  thrFull := if (a.stored .data).isSome then true else if s.takes w then false else s.thrFull
  shifting := if s.takes w then true else if s.ends w then false else s.shifting
  txEmpty := if (a.stored .data).isSome then false
    else if (a.stored .command).any fun byte => !byte.getLsbD 0 then false
    else if s.ends w && s.txOn && !(s.thrFull && s.cts w.plugged) then true else s.txEmpty
  dschg := if a.reads .status then false
    else if w.plugged ≠ s.dsrWas ∨ s.dcd w.plugged ≠ s.dcdWas then true else s.dschg
  parity := if (a.stored .command).any fun byte => byte.getLsbD 4 then false
    else if s.receives w && w.rxParity then true else s.parity
  overrun := if (a.stored .command).any fun byte => byte.getLsbD 4 then false
    else if ((s.receives w && s.mode ≠ 3) || (s.ends w && s.isLocal)) && s.rxReady then true else s.overrun
  framing := if (a.stored .command).any fun byte => byte.getLsbD 4 then false
    else if s.receives w && w.rxFraming then true else s.framing
  dsrWas := w.plugged
  dcdWas := s.dcd w.plugged
  echoDue := if w.rxEnd && s.echoDue then false else if s.receives w && s.echoes then true else s.echoDue
  echoByte := if s.receives w && s.echoes then w.rxData &&& s.mask else s.echoByte
  txStrobe := (s.ends w && !s.isLocal) || (w.rxEnd && s.echoDue)
  -- The echo is assigned after the shift register, and stands.
  txData := if w.rxEnd && s.echoDue then s.echoByte
    else if s.ends w && !s.isLocal then s.shift &&& s.mask else s.txData

/-- One tick. `-UB INIT` leaves what is on the cable. -/
def next (init : Bool) : Pci :=
  if init then
    { reset w.plugged with
      echoDue := (s.run w a).echoDue, echoByte := (s.run w a).echoByte
      txStrobe := (s.run w a).txStrobe, txData := (s.run w a).txData }
  else s.run w a

end Pci

/-- A word Linux writes to the line's face. -/
structure FaceWrite where
  word : Nat
  data : BitVec 32
  mask : BitVec 32

structure Line where
  acc : Nat
  divCnt : Nat
  ctl : BitVec 3
  inChar : Char8
  txLeft : Nat
  inLeft : Nat
  txBusy : Bool
  inBusy : Bool
  take : Bool
  done : Bool
  rxStrobe : Bool
  rxEnd : Bool

namespace Line

def reset : Line where
  acc := 0
  divCnt := 0
  ctl := 0
  inChar := 0
  txLeft := 0
  inLeft := 0
  txBusy := false
  inBusy := false
  take := false
  done := false
  rxStrobe := false
  rxEnd := false

def brclkHz : Nat := 5068800

/-- The ticks of a second, of ten nanoseconds each. -/
def xtalWrap : Nat := 1000000000 / 10

def divisor (rate : BitVec 4) : Nat :=
  [6336, 4224, 2880, 2355, 2112, 1056, 528, 264, 176, 158, 132, 88, 66, 44, 33].getD rate.toNat 16

def stopHalves (c : Pci) : Nat :=
  if c.mode1.extractLsb' 6 2 = (2 : BitVec 2) then 3
  else if c.mode1.extractLsb' 6 2 = (3 : BitVec 2) then 4 else 2

def dataBits (c : Pci) : Nat := 5 + (c.mode1.extractLsb' 2 2).toNat

def halfBits (c : Pci) : Nat := 2 + 2 * dataBits c + (if c.mode1.getLsbD 4 then 2 else 0) + stopHalves c

/-- The 16X clocks of a frame. -/
def frameX16 (c : Pci) : Nat := 8 * halfBits c

variable (l : Line) (c : Pci)

def plugged : Bool := l.ctl.getLsbD 0 && l.ctl.getLsbD 1 && l.ctl.getLsbD 2

/-- The holding register's fullness, as the status byte tells it. -/
def thrFull : Bool := c.txOn && !c.status.1
def cardRoom : Bool := c.rxRuns l.plugged && !c.status.2
def txRoom : Bool := l.cardRoom c && !l.inBusy
def genOn : Bool := c.txOn || c.rxOn || l.txBusy || l.inBusy
def xtal : Bool := l.genOn c && xtalWrap ≤ l.acc + brclkHz
def x16 : Bool := l.xtal c && divisor (c.mode2.extractLsb' 0 4) ≤ l.divCnt + 1

/-- The transmitter begins a frame at this 16X clock, if it is free or becomes free. -/
def wants : Bool := thrFull c && c.cts l.plugged

def frameEnds : Bool := l.x16 c && l.txBusy && l.txLeft = 1
def starts : Bool := l.x16 c && (!l.txBusy || l.txLeft = 1) && l.wants c
def inEnds : Bool := l.inBusy && c.rxRuns l.plugged && l.x16 c && l.inLeft = 1

def wires : Wires where
  take := l.take
  done := l.done
  rxStrobe := l.rxStrobe
  rxEnd := l.rxEnd
  rxData := l.inChar
  rxParity := false
  rxFraming := false
  plugged := l.plugged

/-- A character Linux gives, that there is room for. -/
def gives (f : Option FaceWrite) : Option FaceWrite := f.filter fun f => f.word = 3 && l.txRoom c

def merge {n : Nat} (old new mask : BitVec n) : BitVec n := (old &&& ~~~mask) ||| (new &&& mask)

/-- One tick. -/
def next (init : Bool) (f : Option FaceWrite) : Line where
  acc := if !l.genOn c then 0 else if l.xtal c then l.acc + brclkHz - xtalWrap else l.acc + brclkHz
  divCnt := if !l.genOn c then 0
    else if l.xtal c then (if l.x16 c then 0 else l.divCnt + 1) else l.divCnt
  ctl := match f with
    | some f => if f.word = 4 then merge l.ctl (f.data.setWidth 3) (f.mask.setWidth 3) else l.ctl
    | none => l.ctl
  inChar := match l.gives c f with
    | some f => merge l.inChar (f.data.setWidth 8) (f.mask.setWidth 8)
    | none => l.inChar
  txLeft := if init then 0 else if l.starts c then frameX16 c
    else if l.x16 c && l.txBusy && l.txLeft ≠ 1 then l.txLeft - 1 else l.txLeft
  inLeft := if init then 0 else if (l.gives c f).isSome then frameX16 c
    else if l.inBusy && c.rxRuns l.plugged && l.x16 c && l.inLeft ≠ 1 then l.inLeft - 1 else l.inLeft
  txBusy := if init then false else if l.starts c then true else if l.frameEnds c then false else l.txBusy
  inBusy := if init then false else if (l.gives c f).isSome then true
    else if !c.rxRuns l.plugged || l.inEnds c then false else l.inBusy
  take := l.starts c
  done := l.frameEnds c
  rxStrobe := l.inEnds c
  rxEnd := l.inEnds c

end Line

/-- What a tick brings the chip and the line. -/
structure PortTick where
  init : Bool
  access : Access
  face : Option FaceWrite

structure SerialPort where
  pci : Pci
  line : Line

namespace SerialPort

def reset : SerialPort := ⟨.reset false, .reset⟩

/-- One tick of the two together. -/
def next (i : PortTick) (s : SerialPort) : SerialPort :=
  ⟨s.pci.next s.line.wires i.access i.init, s.line.next s.pci i.init i.face⟩

end SerialPort

end MuirFpga.Serial
