import MuirFpga.Quux.Ethernet

/-!
# The file device

`quux15_devices`' file device: words 160 to 171, the rings' three indexes, the host's completions,
which land a clock after they are accepted, the handles it stages, its claim and the epoch. The
interrupt and the doorbell, which follow from the registers, are left out.
-/

namespace MuirFpga.Quux.FileDevice

open MuirFpga.Quux.Ethernet (fits)

/-- The registers a clock's writes go through, muir's `FileDevice`. -/
structure Device where
  on : Bool
  ie : Bool
  refused : Bool
  fault : Bool
  cbase : BitVec 28
  rbase : BitVec 28
  clog : BitVec 4
  rlog : BitVec 4
  cprod : BitVec 16
  ccons : BitVec 16
  rcons : BitVec 16

/-- The device, the handles open and staged, the last completion refused, the one accepted last clock,
the host's claim and the epoch. -/
structure State where
  dev : Device
  hopen : BitVec 8
  crefused : Bool
  hnext : BitVec 8
  pub : Bool
  pubTo : BitVec 16
  busy : Bool
  epoch : BitVec 16

/-- What a clock brings: a reset, RESET-DEVICES, a producer write the core held, a register write, and
the host's write. -/
structure Input where
  rst : Bool
  wrReset : Bool
  prodV : Bool
  prodK : BitVec 8
  prodData : BitVec 32
  wrV : Bool
  wrK : BitVec 8
  wrData : BitVec 32
  hostWe : Bool
  hostWidx : BitVec 4
  hostWdata : BitVec 32

namespace Device

/-- The three indexes at 0. -/
def zero (d : Device) : Device := { d with cprod := 0#16, ccons := 0#16, rcons := 0#16 }

/-- 164, held until the port was empty. -/
def produce (d : Device) (i : Input) : Device :=
  if i.prodV && i.prodK == 0x74#8 && d.on then
    let data := i.prodData.extractLsb' 0 16
    if data - d.ccons > 1#16 <<< d.clog ∨ data - d.ccons < d.cprod - d.ccons then
      { d with fault := true }
    else { d with cprod := data }
  else d

/-- 160 written. -/
def control (mainWords : Nat) (d : Device) (i : Input) : Device :=
  if i.wrV && i.wrK == 0x70#8 then
    let d := { d with refused := false, fault := false }
    if !d.on && i.wrData.getLsbD 0 then
      if fits mainWords d.cbase d.clog && fits mainWords d.rbase d.rlog then
        { d.zero with on := true, ie := i.wrData.getLsbD 8 }
      else { d with refused := true }
    else if d.on && !i.wrData.getLsbD 0 then { d.zero with on := false, ie := false }
    else if d.on then { d with ie := i.wrData.getLsbD 8 }
    else d
  else d

/-- The rings' places and sizes, written while the device is disabled. -/
def rings (d : Device) (i : Input) : Device :=
  if i.wrV && !d.on then
    { d with
      cbase := if i.wrK = 0x72#8 then i.wrData.extractLsb' 0 28 else d.cbase
      clog := if i.wrK = 0x73#8 then i.wrData.extractLsb' 0 4 else d.clog
      rbase := if i.wrK = 0x76#8 then i.wrData.extractLsb' 0 28 else d.rbase
      rlog := if i.wrK = 0x77#8 then i.wrData.extractLsb' 0 4 else d.rlog }
  else d

/-- 171 written. -/
def consume (d : Device) (i : Input) : Device :=
  if i.wrV && d.on && i.wrK == 0x79#8 then
    let data := i.wrData.extractLsb' 0 16
    if data - d.rcons > d.ccons - d.rcons then { d with fault := true } else { d with rcons := data }
  else d

/-- RESET-DEVICES: disabled, the faults cleared, the rings as they were. -/
def resetDevices (d : Device) (i : Input) : Device :=
  if i.wrReset then { d.zero with on := false, ie := false, refused := false, fault := false } else d

end Device

namespace State

/-- `fd_complete`: a completion accepted last clock lands. -/
def complete (s : State) : Bool := s.pub && s.dev.on

/-- The host's completion. -/
def landed (s : State) : Device :=
  { s.dev with ccons := if s.complete then s.pubTo else s.dev.ccons }

/-- The device as this clock's landing and writes leave it. -/
def device (mainWords : Nat) (s : State) (i : Input) : Device :=
  ((((s.landed.produce i).control mainWords i).rings i).consume i).resetDevices i

/-- `fd_chost`: the host sees a completion it wrote at once. -/
def chost (s : State) : BitVec 16 := if s.complete then s.pubTo else s.dev.ccons

/-- `fd_in_epoch`. -/
def inEpoch (s : State) (i : Input) : Bool :=
  s.dev.on && i.hostWdata.extractLsb' 16 16 == s.epoch

/-- `fd_ok`: a completion moves 170 forward to a command shown, and the response ring has room. -/
def ok (s : State) (i : Input) : Bool :=
  let index := i.hostWdata.extractLsb' 0 16
  s.inEpoch i && index - s.chost != 0#16 && decide (index - s.chost ≤ s.dev.cprod - s.chost) &&
    decide (index - s.dev.rcons ≤ 1#16 <<< s.dev.rlog)

/-- `h_complete`, `h_claim`. -/
def hComplete (i : Input) : Bool := i.hostWe && i.hostWidx == 9#4
def hClaim (i : Input) : Bool := i.hostWe && i.hostWidx == 3#4

/-- The registers in reset; the claim and the epoch outlast it. -/
def resetDevice : Device where
  on := false
  ie := false
  refused := false
  fault := false
  cbase := 0#28
  rbase := 0#28
  clog := 0#4
  rlog := 0#4
  cprod := 0#16
  ccons := 0#16
  rcons := 0#16

/-- One clock. -/
def next (mainWords : Nat) (s : State) (i : Input) : State :=
  let d := s.device mainWords i
  let busy := if hClaim i then
      (if !i.hostWdata.getLsbD 0 then false else if s.inEpoch i && !i.rst then true else s.busy)
    else s.busy
  let epoch := if (if i.rst then s.dev.on else s.dev.on && !d.on) then s.epoch + 1#16 else s.epoch
  if i.rst then ⟨resetDevice, 0#8, false, 0#8, false, 0#16, busy, epoch⟩
  else
    { dev := d
      hopen := if s.dev.on && !d.on then 0#8 else if s.complete then s.hnext else s.hopen
      crefused := if hClaim i then false else if hComplete i then !s.ok i else s.crefused
      hnext :=
        if s.dev.on && !d.on then 0#8
        else if i.hostWe && i.hostWidx == 11#4 && s.inEpoch i then i.hostWdata.extractLsb' 0 8
        else s.hnext
      pub := hComplete i && s.ok i
      pubTo := if hComplete i && s.ok i then i.hostWdata.extractLsb' 0 16 else s.pubTo
      busy := busy
      epoch := epoch }

/-- The device after its first reset. -/
def reset : State := ⟨resetDevice, 0#8, false, 0#8, false, 0#16, false, 0#16⟩

end State

end MuirFpga.Quux.FileDevice
