import MuirFpga.Chaosnet.Packet
import Mathlib.Logic.Function.Basic

/-!
# The Chaosnet interface of the I/O board

`cadr_io_board`'s five registers and two packet buffers: the transmitter, whose buffer goes round past its
256th word and is streamed out a word a tick after START, and the receiver, whose words go where the bit
counter puts them and commit whole. The buffers are indexed by words, the counts are taken modulo their width.
-/

namespace MuirFpga.Chaosnet

/-- `crc_word`: a word through the 9401. -/
def crcWord (crc w : Word) : Word := (List.range 16).foldl (fun r k => checkBit r (w.getLsbD (15 - k))) crc

/-- What the machine asks of the interface in a tick, from the Unibus or from the page. -/
inductive CardAccess where
  | idle
  | csr (w : Word)
  | write (w : Word)
  | start
  | read
deriving DecidableEq

namespace CardAccess

variable (a : CardAccess)

/-- A bit of a word written to the control and status register. -/
def command (bit : Nat) : Bool :=
  match a with
  | csr w => w.getLsbD bit
  | _ => false

def clearReceiver : Bool := a.command 3
def clearTransmitter : Bool := a.command 8
def reset : Bool := a.command 13

end CardAccess

section Transmitter

structure Transmitter where
  xmit : Nat → Word
  xn : Nat
  xcheck : Word
  taken : Bool
  out : Nat
  send : Nat
  srcAt : Nat
  tcheck : Word
  sending : Bool
  xq : Word
  qSrc : Bool
  qChk : Bool
  tdone : Bool
  tabort : Bool
  txGo : Bool
  txLen : Nat
  txValid : Bool
  txClear : Bool

namespace Transmitter

/-- The transmitter as at power-up, with what its buffer came up with. -/
def powerUp (xmit : Nat → Word) (xq : Word) : Transmitter where
  xmit
  xn := 0
  xcheck := 0
  taken := false
  out := 0
  send := 0
  srcAt := 0
  tcheck := 0
  sending := false
  xq
  qSrc := false
  qChk := false
  tdone := true
  tabort := false
  txGo := false
  txLen := 0
  txValid := false
  txClear := false

variable (s : Transmitter)

/-- Where the next word of a packet goes, and the check it carries on. -/
def wn : Nat := if s.taken then 0 else s.xn
def wcheck : Word := if s.taken then 0 else s.xcheck

/-- The word the frame's stream gives. -/
def txWord (address : Word) : Word := if s.qSrc then address else if s.qChk then s.tcheck else s.xq

/-- One tick, under Reset or not. -/
def next (resetNow : Bool) (a : CardAccess) (address : Word) (txDone txAbort : Bool) : Transmitter where
  xmit := match a with
    | .write w => Function.update s.xmit s.wn w
    | _ => s.xmit
  xn := if resetNow || a.clearTransmitter then 0 else
    match a with
    | .write _ => (s.wn + 1) % 256
    | _ => s.xn
  xcheck := if resetNow || a.clearTransmitter then 0 else
    match a with
    | .write w => crcWord s.wcheck w
    | _ => s.xcheck
  taken := if resetNow || a.clearTransmitter then false else
    match a with
    | .start => true
    | .write _ => false
    | _ => s.taken
  out := if a = .start then 0 else if s.sending then (s.out + 1) % 256 else s.out
  send := if a = .start then (s.wn + 2) % 256 else s.send
  srcAt := if a = .start then s.wn else s.srcAt
  tcheck := if a = .start then crcWord s.wcheck address else s.tcheck
  sending := if resetNow || a.clearTransmitter then false
    else if a = .start then (s.wn + 2) % 256 ≠ 0
    else s.sending && (s.out + 1) % 256 ≠ s.send
  xq := s.xmit s.out
  qSrc := if s.sending then s.out = s.srcAt else s.qSrc
  qChk := if s.sending then s.out = (s.srcAt + 1) % 256 else s.qChk
  tdone := if resetNow || a.clearTransmitter then true else
    match a with
    | .start => false
    | .write _ => false
    | _ => if txDone then true else s.tdone
  tabort := if resetNow || a.clearTransmitter then false else
    match a with
    | .write _ => false
    | _ => if txDone then txAbort else if txAbort then true else s.tabort
  txGo := a = .start
  txLen := if a = .start then (s.wn + 2) % 256 else s.txLen
  txValid := s.sending
  txClear := a.clearTransmitter

end Transmitter

end Transmitter

/-- What the far end drives of the receive path and of the line. -/
structure CableLine where
  rxValid : Bool
  rxWord : Word
  rxDone : Bool
  rxBits : Nat
  rxCrc : Bool
  rxLost : Bool
  rxStore : Bool
  cblBusy : Bool
  rxStart : Bool
  rxStored : Nat
  rxCheckNz : Bool

section Receiver

structure Receiver where
  rcv : Nat → Word
  fill : Nat
  top : Nat
  w0 : Word
  hi : Word
  hiSet : Bool
  tw : Word
  rlow : Nat
  rat : Nat
  read : Bool
  rbct : Nat
  rcheck : Word
  rdone : Bool
  crc : Bool
  lost : Nat
  rd : Word
  drop : Bool
  ract : Bool
  started : Bool
  sr : Word
  down : Bool
  dhw : Nat
  dcheck : Word

namespace Receiver

/-- The receiver as at power-up, its buffer all ones. -/
def powerUp (rd : Word) : Receiver where
  rcv _ := 0xffff
  fill := 0
  top := 0
  w0 := 0
  hi := 0
  hiSet := false
  tw := 0
  rlow := 0
  rat := 0
  read := false
  rbct := 0
  rcheck := 0
  rdone := false
  crc := false
  lost := 0
  rd
  drop := false
  ract := false
  started := false
  sr := 0
  down := false
  dhw := 0
  dcheck := 0

/-- The bits of a word below a count, all of them at none. -/
def lowBits (n : Nat) : Word := if n = 0 then 0xffff else ~~~(0xffff#16 <<< n)

variable (l : CableLine) (s : Receiver)

def taking : Bool := l.cblBusy && (!s.started || s.ract)
def downHere : Bool := s.down && l.cblBusy && !s.rdone

/-- The word a read of the buffer gives. -/
def word : Word :=
  if s.rdone then (if !s.read then s.tw &&& lowBits s.rlow else s.rd)
  else if s.downHere l then s.rd
  else s.sr <<< 1 ||| (s.rd &&& 1)

/-- The bit count register. -/
def bits : Nat :=
  if s.rdone then (s.rbct + 4095) % 4096
  else if s.taking l then l.rxStored
  else if s.downHere l then s.dhw else 0

variable (resetQ : Bool)

def rxMid : Bool := (l.rxValid || s.fill ≠ 0) && !l.rxDone
def rxIn : Bool := l.rxValid && !s.rdone && !resetQ
def rxFirst : Bool := s.rxIn l resetQ && s.fill = 0
def rxTop : Nat := (l.rxBits + 4095) % 4096 / 16
def takenNow : Bool := l.rxDone && !s.drop && !resetQ && !l.rxStore && 48 < l.rxBits
def commit : Bool := s.takenNow l resetQ && !s.rdone
def storeNow : Bool := l.rxDone && !s.drop && !resetQ && !s.rdone && (l.rxStore || l.rxBits ≤ 48)
def rxMerged : Word :=
  ((if s.hiSet then s.hi else s.rd) &&& ~~~lowBits (l.rxBits % 16)) ||| (s.w0 &&& lowBits (l.rxBits % 16))

/-- The word's place in the buffer, counted down from the last bit's. -/
def place (n : Nat) : Nat := (s.top + 256 - n % 256) % 256

/-- The buffer after its one write. -/
def stored : Nat → Word :=
  if s.commit l resetQ || s.storeNow l resetQ then Function.update s.rcv s.top (s.rxMerged l)
  else if s.rxIn l resetQ && s.fill ≠ 0 && s.fill < 256 then Function.update s.rcv (s.place s.fill) l.rxWord
  else s.rcv

def readAt : Nat :=
  if s.rdone || s.fill ≠ 0 then s.place s.rat else if s.downHere l then s.dhw / 16 else 0

/-- A read of the buffer with a packet in it. -/
def reads (a : CardAccess) : Bool := a = .read && s.rdone

/-- One tick, under Reset or not. -/
def next (resetNow : Bool) (a : CardAccess) : Receiver where
  rcv := s.stored l resetQ
  fill := if resetNow || a.clearReceiver then 0 else if l.rxDone then 0
    else if s.rxIn l resetQ && s.fill ≠ 257 then s.fill + 1 else s.fill
  top := if s.rxFirst l resetQ then rxTop l else s.top
  w0 := if s.rxFirst l resetQ then l.rxWord else s.w0
  hi := if s.rxIn l resetQ && s.fill = 256 then l.rxWord else s.hi
  hiSet := if resetNow || a.clearReceiver then false else if l.rxDone then false
    else if s.rxIn l resetQ && s.fill = 256 then true else s.hiSet
  tw := if s.commit l resetQ then s.rxMerged l else s.tw
  rlow := if s.commit l resetQ then l.rxBits % 16 else s.rlow
  rat := if resetNow || a.clearReceiver then 0 else if s.reads a then (s.rat + 1) % 256 else s.rat
  read := if resetNow || a.clearReceiver then false else if s.reads a then true
    else if s.commit l resetQ then false else s.read
  rbct := if resetNow || a.clearReceiver then 0
    else if s.reads a then (if s.read then (s.rbct + 4080) % 4096 else s.top * 16)
    else if s.commit l resetQ then l.rxBits % 4096 else s.rbct
  rcheck := if resetNow || a.clearReceiver then 0
    else if s.reads a then crcWord s.rcheck (s.word l)
    else if s.commit l resetQ then 0 else s.rcheck
  rdone := if resetNow || a.clearReceiver then false else if s.commit l resetQ then true else s.rdone
  crc := if resetNow || a.clearReceiver then false
    else if s.reads a then crcWord s.rcheck (s.word l) ≠ 0
    else if s.commit l resetQ then l.rxCrc else s.crc
  -- Reset leaves the count.
  lost := if a.clearReceiver then 0
    else if l.rxLost || (s.takenNow l resetQ && s.rdone) then (s.lost + 1) % 16 else s.lost
  rd := s.rcv (s.readAt l)
  drop := if a.clearReceiver && s.rxMid l then true else if l.rxDone || resetQ then false else s.drop
  ract := if resetNow || a.clearReceiver then false else if l.rxStart then !s.rdone else s.ract
  started := if l.rxStart then true else if !l.cblBusy then false else s.started
  sr := if a = .read then s.word l else if s.commit l resetQ then 0 else s.sr
  down := if resetNow || a.clearReceiver then false
    else if a = .read && !s.rdone && l.cblBusy && !s.taking l then true
    else if !l.cblBusy then false else s.down
  dhw := if a = .read && !s.rdone && l.cblBusy && !s.taking l then
      (if s.downHere l then (s.dhw + 4080) % 4096 else 4095) else s.dhw
  dcheck := if a = .read && !s.rdone && l.cblBusy && !s.taking l then
      (if s.downHere l then crcWord s.dcheck s.rd else if s.rd.getLsbD 0 then 0x8005 else 0) else s.dcheck

end Receiver

end Receiver

/-- The interface on the board. -/
structure Card where
  tx : Transmitter
  rx : Receiver
  wbits : BitVec 6
  /-- `chaos_reset`. -/
  resetQ : Bool

namespace Card

variable (l : CableLine) (s : Card)

def csr : Word :=
  BitVec.ofBool s.rx.rdone ++
    BitVec.ofBool (s.rx.crc || (s.rx.taking l && l.rxCheckNz) || (s.rx.downHere l && s.rx.dcheck ≠ 0)) ++
    (0 : BitVec 1) ++ BitVec.ofNat 4 s.rx.lost ++ (0 : BitVec 1) ++ BitVec.ofBool s.tx.tdone ++
    BitVec.ofBool s.tx.tabort ++ s.wbits

def resetNow (init : Bool) (a : CardAccess) : Bool := init || a.reset

def next (init : Bool) (a : CardAccess) (address : Word) (txDone txAbort : Bool) : Card where
  tx := s.tx.next (resetNow init a) a address txDone txAbort
  rx := s.rx.next l s.resetQ (resetNow init a) a
  wbits := if resetNow init a then 0 else
    match a with
    | .csr w => w.extractLsb' 0 6 &&& 0b110111#6
    | _ => s.wbits
  resetQ := resetNow init a

end Card

end MuirFpga.Chaosnet
