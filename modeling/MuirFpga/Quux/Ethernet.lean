import Mathlib.Data.BitVec

/-!
# The Ethernet device

`quux16_ethernet`'s rings: the registers the machine writes, the host's moves, which land a clock
after they are accepted, and the engine that makes the cache coherent and moves 251 after the
host's target, an entry at a time. The counters and the addresses the host sets, and the
reads, which nothing here depends on, are left out; main memory and the port behind the engine
are inputs.
-/

namespace MuirFpga.Quux.Ethernet

/-- The registers a clock's writes go through, muir's `EthernetDevice` with the host's target. -/
structure Device where
  on : Bool
  ie : Bool
  refused : Bool
  fault : Bool
  txBase : BitVec 28
  rxBase : BitVec 28
  txLog2 : BitVec 4
  rxLog2 : BitVec 4
  txProd : BitVec 16
  txCons : BitVec 16
  rxProd : BitVec 16
  rxCons : BitVec 16
  rxTaken : BitVec 16
  rxTarget : BitVec 16

/-- The engine's states. -/
inductive EState
  | idle
  | grant
  | start
  | rd0
  | rd1
  | rd2
  | clr
  | entry
  deriving DecidableEq

/-- The device, the engine, the move accepted last clock, the host's claim and the epoch. -/
structure State where
  dev : Device
  es : EState
  eBuf : BitVec 28
  eRoom : BitVec 32
  eLine : BitVec 25
  eLast : BitVec 25
  txPub : Bool
  rxPub : Bool
  txPubTo : BitVec 16
  rxPubTo : BitVec 16
  busy : Bool
  epoch : BitVec 16

/-- What a clock brings: a reset, RESET-DEVICES, a register write, a held write landing, the
port's answers to the engine, and the host's write. -/
structure Input where
  rst : Bool
  devReset : Bool
  wr : Bool
  wrK : BitVec 4
  wdata : BitVec 32
  held : Bool
  heldRx : Bool
  heldData : BitVec 16
  eGrant : Bool
  eDone : Bool
  eData : BitVec 40
  cDone : Bool
  hostWe : Bool
  hostWidx : BitVec 5
  hostWdata : BitVec 32

/-- `fits`: a ring on a line, of at most 2^8 entries, below main memory's end. -/
def fits (mainWords : Nat) (base : BitVec 28) (log2 : BitVec 4) : Bool :=
  base.extractLsb' 0 3 == 0#3 && decide (log2 ≤ 8#4) &&
    decide (base.toNat + 8 * 2 ^ log2.toNat ≤ mainWords)

namespace Device

/-- The six indexes at 0, the device disabled. -/
def disable (d : Device) : Device :=
  { d with
    on := false, ie := false, txProd := 0#16, txCons := 0#16, rxProd := 0#16, rxCons := 0#16,
    rxTaken := 0#16, rxTarget := 0#16 }

/-- 244, held until the port was empty. -/
def heldTx (d : Device) (data : BitVec 16) : Device :=
  if data - d.txCons > 1#16 <<< d.txLog2 ∨ data - d.txCons < d.txProd - d.txCons then
    { d with fault := true }
  else { d with txProd := data }

/-- 250, held likewise. -/
def heldRx (d : Device) (data : BitVec 16) : Device :=
  if data - d.rxTaken > 1#16 <<< d.rxLog2 ∨ data - d.rxTaken < d.rxProd - d.rxTaken then
    { d with fault := true }
  else { d with rxProd := data }

/-- A held write landing. -/
def heldWrite (d : Device) (i : Input) : Device :=
  if i.held && d.on then (if i.heldRx then d.heldRx i.heldData else d.heldTx i.heldData) else d

/-- 240 written. -/
def control (mainWords : Nat) (d : Device) (i : Input) : Device :=
  let d := { d with refused := false, fault := false }
  if !d.on && i.wdata.getLsbD 0 then
    if fits mainWords d.txBase d.txLog2 && fits mainWords d.rxBase d.rxLog2 then
      { d with on := true, ie := i.wdata.getLsbD 8 }
    else { d with refused := true }
  else if d.on && !i.wdata.getLsbD 0 then d.disable
  else if d.on then { d with ie := i.wdata.getLsbD 8 }
  else d

/-- The rings' places and sizes, written while the device is disabled. -/
def rings (d : Device) (i : Input) : Device :=
  { d with
    txBase := if i.wrK = 2#4 then i.wdata.extractLsb' 0 28 else d.txBase
    txLog2 := if i.wrK = 3#4 then i.wdata.extractLsb' 0 4 else d.txLog2
    rxBase := if i.wrK = 6#4 then i.wdata.extractLsb' 0 28 else d.rxBase
    rxLog2 := if i.wrK = 7#4 then i.wdata.extractLsb' 0 4 else d.rxLog2 }

/-- 252 written. -/
def taken (d : Device) (data : BitVec 16) : Device :=
  if data - d.rxTaken > d.rxCons - d.rxTaken then { d with fault := true }
  else { d with rxTaken := data }

/-- The register write. -/
def registerWrite (mainWords : Nat) (d : Device) (i : Input) : Device :=
  let d := if i.wr && i.wrK == 0#4 then d.control mainWords i else d
  let d := if i.wr && !d.on then d.rings i else d
  if i.wr && d.on && i.wrK == 10#4 then d.taken (i.wdata.extractLsb' 0 16) else d

/-- RESET-DEVICES: disabled, the faults cleared, the rings as they were. -/
def resetDevices (d : Device) (i : Input) : Device :=
  if i.devReset then { d.disable with refused := false, fault := false } else d

end Device

namespace State

/-- `tx_land`, `rx_land`: a move accepted last clock lands. -/
def txLand (s : State) : Bool := s.txPub && s.dev.on
def rxLand (s : State) : Bool := s.rxPub && s.dev.on

/-- `e_move`: the entry line's clear is taken. -/
def eMove (s : State) (i : Input) : Bool := s.es == .entry && i.cDone && s.dev.on

/-- The host's move, and the engine's step of 251. -/
def landed (s : State) (i : Input) : Device :=
  { s.dev with
    txCons := if s.txLand then s.txPubTo else s.dev.txCons
    rxTarget := if s.rxLand then s.rxPubTo else s.dev.rxTarget
    rxCons := if s.eMove i then s.dev.rxCons + 1#16 else s.dev.rxCons }

/-- The device as this clock's landing and writes leave it. -/
def device (mainWords : Nat) (s : State) (i : Input) : Device :=
  (((s.landed i).heldWrite i).registerWrite mainWords i).resetDevices i

/-- `e_n`, `e_words`: the length clamped to the room and to the longest frame, in words. -/
def eN (s : State) (i : Input) : BitVec 32 :=
  let length := i.eData.extractLsb' 0 32
  let n := if length < s.eRoom then length else s.eRoom
  if n > 1514#32 then 1514#32 else n
def eWords (s : State) (i : Input) : BitVec 32 := (s.eN i + 3#32) >>> 2

/-- The engine's step. -/
def engine (mainWords : Nat) (s : State) (i : Input) : State :=
  if i.rst || !(s.device mainWords i).on then { s with es := .idle }
  else match s.es with
    | .idle => if s.dev.rxCons ≠ s.dev.rxTarget then { s with es := .grant } else s
    | .grant => if i.eGrant then { s with es := .start } else s
    | .start => { s with es := .rd0 }
    | .rd0 => if i.eDone then { s with eBuf := i.eData.extractLsb' 0 28, es := .rd1 } else s
    | .rd1 => if i.eDone then { s with eRoom := i.eData.extractLsb' 0 32, es := .rd2 } else s
    | .rd2 =>
      if i.eDone then
        { s with
          eLine := s.eBuf.extractLsb' 3 25
          eLast := ((s.eBuf.setWidth 32 + s.eWords i - 1#32) >>> 3).setWidth 25
          es := if s.eWords i = 0#32 then .entry else .clr }
      else s
    | .clr =>
      if i.cDone then
        { s with es := if s.eLine = s.eLast then .entry else .clr, eLine := s.eLine + 1#25 }
      else s
    | .entry => if i.cDone then { s with es := .idle } else s

/-- `tx_chost`, `rx_chost`: the host sees its own move at once. -/
def txChost (s : State) : BitVec 16 := if s.txLand then s.txPubTo else s.dev.txCons
def rxChost (s : State) : BitVec 16 := if s.rxLand then s.rxPubTo else s.dev.rxTarget

/-- `h_index`, `in_epoch`. -/
def hIndex (i : Input) : BitVec 16 := i.hostWdata.extractLsb' 0 16
def inEpoch (s : State) (i : Input) : Bool :=
  s.dev.on && i.hostWdata.extractLsb' 16 16 == s.epoch

/-- `h_tx && tx_ok`: a move of 245 accepted. -/
def txTakes (s : State) (i : Input) : Bool :=
  i.hostWe && i.hostWidx == 7#5 && s.inEpoch i &&
    decide (hIndex i - s.txChost ≤ s.dev.txProd - s.txChost)

/-- `h_rx && rx_ok`: a move of the target accepted, by at least one. -/
def rxTakes (s : State) (i : Input) : Bool :=
  i.hostWe && i.hostWidx == 9#5 && s.inEpoch i && hIndex i != s.rxChost &&
    decide (hIndex i - s.rxChost ≤ s.dev.rxProd - s.rxChost)

/-- The registers in reset; the claim and the epoch outlast it. -/
def resetDevice : Device where
  on := false
  ie := false
  refused := false
  fault := false
  txBase := 0#28
  rxBase := 0#28
  txLog2 := 0#4
  rxLog2 := 0#4
  txProd := 0#16
  txCons := 0#16
  rxProd := 0#16
  rxCons := 0#16
  rxTaken := 0#16
  rxTarget := 0#16

/-- The claim. -/
def claim (s : State) (i : Input) : Bool :=
  if i.hostWe && i.hostWidx == 1#5 then
    (if !i.hostWdata.getLsbD 0 then false
    else if s.inEpoch i && !i.rst then true else s.busy)
  else s.busy

/-- One clock. -/
def next (mainWords : Nat) (s : State) (i : Input) : State :=
  let stepped := s.engine mainWords i
  let counts := if i.rst then s.dev.on else s.dev.on && !(s.device mainWords i).on
  { stepped with
    dev := if i.rst then resetDevice else s.device mainWords i
    txPub := !i.rst && s.txTakes i
    rxPub := !i.rst && s.rxTakes i
    txPubTo := if i.rst then 0#16 else if s.txTakes i then hIndex i else s.txPubTo
    rxPubTo := if i.rst then 0#16 else if s.rxTakes i then hIndex i else s.rxPubTo
    busy := s.claim i
    epoch := if counts then s.epoch + 1#16 else s.epoch }

/-- The device after its first reset. -/
def reset : State where
  dev := resetDevice
  es := .idle
  eBuf := 0#28
  eRoom := 0#32
  eLine := 0#25
  eLast := 0#25
  txPub := false
  rxPub := false
  txPubTo := 0#16
  rxPubTo := 0#16
  busy := false
  epoch := 0#16

end State

end MuirFpga.Quux.Ethernet
