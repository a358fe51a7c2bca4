import MuirFpga.Disk.Walk

/-!
# The controller's clock

The spindle, the drives' counters, the bus face and what a START does, joined to the walk: the
whole of `cadr_disk_controller` a clock at a time, and the words a program reads.
-/

namespace MuirFpga.Disk

open Quux (Seam)

namespace Spindle

/-- `pulse_ns`. -/
def pulseNs (d : Spindle) : BitVec 20 := if d.region = 0#5 then indexPulseNs else sectorPulseNs

/-- `block_counter`. -/
def blockCounter (d : Spindle) (present : Bool) : BitVec 8 :=
  if !present then 0
  else if d.pulseNs ≤ d.into then 0#3 ++ d.region
  else if d.region = 0#5 then bpt
  else 0#3 ++ (d.region - 1)

/-- The registers at a reset. -/
def reset (d : Spindle) : Spindle :=
  { d with
    spin := BitVec.ofNat 24 (2 * tickNs), spinQ := 0, spinQ2 := 0, spinQ3 := 0,
    into := BitVec.ofNat 20 (2 * tickNs), region := 0, wrapQ := false, stepQ := false }

/-- The spindle turns. -/
def turn (d : Spindle) : Spindle :=
  let spin := d.spin + BitVec.ofNat 24 tickNs
  let x := { d with
    wrapQ := !d.wrapQ && decide (BitVec.ofNat 24 (revolutionNs - 2 * tickNs) ≤ d.spin),
    stepQ := !d.wrapQ && !d.stepQ && decide (BitVec.ofNat 20 (sectorNs - 2 * tickNs) ≤ d.into) &&
      decide (d.region < 17#5),
    spinQ := d.spin, spinQ2 := d.spinQ, spinQ3 := d.spinQ2 }
  if d.wrapQ then
    { x with
      spin := spin - BitVec.ofNat 24 revolutionNs,
      into := (spin - BitVec.ofNat 24 revolutionNs).setWidth 20, region := 0 }
  else if d.stepQ then
    { x with
      spin := spin, into := d.into + BitVec.ofNat 20 tickNs - BitVec.ofNat 20 sectorNs,
      region := d.region + 1 }
  else { x with spin := spin, into := d.into + BitVec.ofNat 20 tickNs }

end Spindle

namespace Timers

/-- The busy counter runs down, and a hang ends in the timeout. -/
def run (t : Timers) : Timers :=
  if BitVec.ofNat 32 tickNs < t.busyNs then
    { t with busyNs := t.busyNs - BitVec.ofNat 32 tickNs }
  else if t.busyNs ≠ 0#32 then
    if t.hanging then { t with busyNs := 0, timeout := true, hanging := false }
    else { t with busyNs := 0 }
  else t

end Timers

namespace Drives

/-- `cyl_n`: how far the seek goes. -/
def cylN (d : Drives) : BitVec 12 :=
  if d.isRecalR then d.cylNowR
  else if d.gtR then d.cylNowR - d.cylToR else d.cylToR - d.cylNowR

/-- The registers at a reset. -/
def reset (d : Drives) : Drives :=
  { d with
    uCyl := fun _ => 0, uHead := fun _ => 0, uBlk := fun _ => 0, uFault := fun _ => false,
    uSeekErr := fun _ => false, uAttArmed := fun _ => false, uAttNs := fun _ => 0,
    cylNowR := 0, cylToR := 0, headNowR := 0, blkNowR := 0, gtR := false, isRecalR := false,
    cylNR := 0, settleR := 0, settleHeldR := 0, seekNsR := 0, seekHeldR := 0 }

/-- The attentions run down and the selected drive's seek is priced. -/
def run (d : Drives) (r : Regs) : Drives :=
  let unit := r.da.extractLsb' 28 3
  { d with
    uAttNs := fun u =>
      if d.uAttArmed u then
        if BitVec.ofNat 28 tickNs < d.uAttNs u then d.uAttNs u - BitVec.ofNat 28 tickNs else 0
      else d.uAttNs u
    cylNowR := d.uCyl unit
    cylToR := r.da.extractLsb' 16 12
    headNowR := d.uHead unit
    blkNowR := d.uBlk unit
    gtR := decide (r.da.extractLsb' 16 12 < d.uCyl unit)
    isRecalR := r.cmd.extractLsb' 0 3 == 5#3 && r.cmd.getLsbD 9
    cylNR := d.cylN
    settleR := if d.cylN = 0#12 then 0 else seekSettleNs
    settleHeldR := if d.cylN = 0#12 then 0 else seekSettleNs - BitVec.ofNat 28 holdNs
    seekNsR := d.cylNR.setWidth 28 * seekNsPerCylinder + d.settleR
    seekHeldR := d.cylNR.setWidth 28 * seekNsPerCylinder + d.settleHeldR }

end Drives

/-- The main process's registers at a reset. -/
def Face.reset (f : Face) : Face :=
  { f with
    taken := false, storeQ := false, wdataQ := 0, whichQ := 0, stGo := false, stWdata := 0,
    stWhich := 0, stXfer := false, stAll := false, stFault := false, stRev := false,
    stSeek := false, stAtease := false, stHang := false, stCode := 0, stRecal := false,
    stFclr := false, stSeekHere := false, stSeekOff := false }

/-- The walk at a reset. -/
def Walk.reset : Walk where
  chState := .idle
  chN := 0
  chPage := 0
  chMore := false
  chSlot := 0
  chUnit := 0
  chI := 0
  chRa := 0
  chPh := 0
  eccR := 0
  blkW := 0
  chRead := false
  chCmp := false
  chMoved := 0
  trapN := 0
  trapStep := 0
  chSetda := false
  chTrack := false
  chReq := false
  chWrite := false
  chAddr := 0
  chWdata := 0
  chDckWe := false
  chDckSlot := 0
  chDckVal := 0
  storeMiss := false
  waiting := false
  pfN := 0
  chILast := false
  eccZeroQ := true
  hckEqQ := false
  hdrEqQ := false
  eccHiZeroQ := false
  burstWidthQ := 0
  burstPatternQ := 0

/-- No error. -/
def Errors.clear : Errors := ⟨false, false, false, false, false, false, false, false⟩

namespace Controller

/-- `code`. -/
def code (c : Controller) : BitVec 4 := c.regs.cmd.extractLsb' 0 4

/-- `is_transfer`: the three that walk the command list a block at a time. -/
def isTransfer (c : Controller) : Bool := c.code == 0#4 || c.code == 8#4 || c.code == 9#4

/-- `is_all`: the two that go round the track as bytes. -/
def isAll (c : Controller) : Bool := c.code == 2#4 || c.code == 11#4

/-- `ro_fault`. -/
def roFault (c : Controller) (i : Input) : Bool :=
  (c.code == 9#4 || c.code == 11#4) && c.readOnly i

/-- `start_c`: the store being decoded is a START that may start. -/
def startC (c : Controller) (i : Input) : Bool :=
  c.face.whichQ == 3#2 && (c.present i || c.regs.cmd.getLsbD 2)

/-- `is_seek`. -/
def isSeek (c : Controller) : Bool := c.code == 4#4 || c.code == 12#4

/-- The bus face's clock: a store held, and START's decode. -/
def decodes (c : Controller) (i : Input) : Face :=
  { c.face with
    wdataQ := i.wdata
    whichQ := c.face.which
    storeQ := c.storeNow i
    stGo := c.face.storeQ
    stWdata := c.face.wdataQ
    stWhich := c.face.whichQ
    stXfer := c.startC i && c.isTransfer && c.present i && !c.roFault i
    stAll := c.startC i && c.isAll && c.present i && !c.roFault i
    stFault := c.startC i && (c.isTransfer || c.isAll) && c.present i && c.roFault i
    stRev := c.startC i && (c.code == 1#4 || c.code == 3#4)
    stSeek := c.startC i && c.isSeek && c.present i
    stAtease := c.startC i && (c.code == 5#4 || c.code == 13#4) && c.present i
    stHang := c.startC i && ((c.code == 7#4 || c.code == 15#4 || c.code == 10#4) ||
      ((c.isSeek || c.code == 6#4) && !c.present i))
    stCode := c.code
    stRecal := c.regs.cmd.getLsbD 9
    stFclr := c.regs.cmd.getLsbD 8
    stSeekHere := c.regs.da.extractLsb' 16 12 == c.drives.cylNowR &&
      c.regs.da.extractLsb' 8 8 == c.drives.headNowR &&
      c.regs.da.extractLsb' 0 8 == c.drives.blkNowR
    stSeekOff := decide (cylinders ≤ c.regs.da.extractLsb' 16 12) ||
      decide (heads ≤ c.regs.da.extractLsb' 8 8) || decide (bpt ≤ c.regs.da.extractLsb' 0 8) }

/-- What every clock does before the walk: the counters, the flags made a clock early and the
pulses that fall. -/
def flow (i : Input) (s : Store) (c : Controller) : Controller :=
  { c with
    face := c.decodes i
    timers := c.timers.run
    drives := c.drives.run c.regs
    spindle := c.spindle.turn
    walk := { c.walk with
      chRa := if c.parser.psWr then c.walk.chRa + 1 else c.walk.chRa
      chDckWe := false
      chILast := c.walk.chI == 255#9
      eccZeroQ := c.walk.eccR == 0#32
      hckEqQ := c.walk.eccR == s.hckQ
      hdrEqQ := s.hdrQ.extractLsb' 0 28 == c.lookup.wantTagQ.extractLsb' 0 28
      eccHiZeroQ := (eccBit c.walk.eccR false true).extractLsb' 11 21 == 0#21 }
    track := { c.track with
      trkByteQ := trkByte s c.track
      trkPLastQ := if c.trkAdv && !c.track.trkGap then c.track.trkP == 1162#11
        else c.track.trkP == 1163#11
      trkGLastQ := if c.trkAdv && c.track.trkGap then c.track.trkG == 370#9
        else c.track.trkG == 371#9 }
    parser := { c.parser with
      psWr := false
      trkMetaWe := false
      psBitLastQ := c.walk.chState == .twr && decide (2#3 ≤ c.walk.chPh) && c.parser.psBit == 30#5
      psWcLastQ := c.parser.psWc == 290#9 }
    access := { c.access with
      accAtQ := c.access.accAt
      elapsed := if c.chBusy then c.access.elapsed + BitVec.ofNat 32 tickNs
        else c.access.elapsed } }

/-- The main process's registers at `rst_q`. -/
def reset (c : Controller) : Controller :=
  { c with
    face := c.face.reset
    regs := ⟨0, 0, 0, 0, 0⟩
    errors := .clear
    timers := { c.timers with busyNs := 0, hanging := false, timeout := false }
    drives := c.drives.reset
    spindle := c.spindle.reset
    walk := .reset
    track := ⟨0, 0, false, 0, false, 0, false, false⟩
    parser := ⟨.sync1, 0, 0, 0, 0, 0, 0, 0, 0, 0, false, false, false, false⟩
    access := ⟨0, 0, 0, 0, 0, 0, 0, 0, false, 0, false, 0, 0, false, 0⟩ }

/-- A command written: the errors clear, and `0o16` stops the channel. -/
def cmdWritten (c x : Controller) : Controller :=
  let x := { x with
    regs.cmd := c.face.stWdata, timers.timeout := false, errors := .clear }
  if c.face.stWdata.extractLsb' 0 4 = 14#4 then
    { x with
      timers.busyNs := 0, timers.hanging := false, walk.chState := .idle, walk.chReq := false,
      walk.waiting := false }
  else x

/-- The seek a transfer starts with: refused off the pack, or the heads moved and the walk begun
in `state`. -/
def seeks (c : Controller) (state : ChState) (x : Controller) : Controller :=
  if !c.face.stSeekHere && c.face.stSeekOff then
    { seekError x c.selUnit true with walk.chSetda := false, walk.chState := .accmul }
  else
    let x := if !c.face.stSeekHere then
      headsAt x c.selUnit (c.regs.da.extractLsb' 16 12) (c.regs.da.extractLsb' 8 8)
        (c.regs.da.extractLsb' 0 8) else x
    { x with walk.chSetda := true, walk.chState := state }

/-- The access time a transfer is charged from. -/
def charged (c x : Controller) : Controller :=
  { x with
    access.accSeek := c.drives.seekNsR, access.accSpin := c.spindle.spinQ3.setWidth 28,
    access.accBlk := c.regs.da.extractLsb' 0 8, access.elapsed := BitVec.ofNat 32 holdNs }

/-- What the two kinds of transfer start with. -/
def begins (c : Controller) (read cmp track : Bool) (x : Controller) : Controller :=
  c.charged { x with
    errors := .clear, timers.timeout := false, walk.chUnit := c.selUnit, walk.chRead := read,
    walk.chCmp := cmp, walk.chMoved := 0, walk.chTrack := track, walk.chN := 0, walk.chI := 0,
    walk.chRa := 0, walk.chPh := 0, walk.chReq := false }

/-- A Read, Read Compare or Write started. -/
def startXfer (c x : Controller) : Controller :=
  if c.face.stXfer then
    c.seeks .ccw (c.begins (c.face.stCode != 9#4) (c.face.stCode == 8#4) false x)
  else x

/-- A Read All or Write All started. -/
def startAll (c x : Controller) : Controller :=
  if c.face.stAll then
    c.seeks .tlook { c.begins (c.face.stCode == 2#4) false true x with
      track.trkB := c.regs.da.extractLsb' 0 8, track.trkP := 0, track.trkGap := false,
      track.trkG := 0, track.trkLay := true, parser.psSt := .sync1, parser.psOnes := 0,
      parser.psN := 0, parser.psWc := 0, parser.psBit := 0 }
  else x

/-- A transfer with the channel pointed the other way: the access time alone. -/
def startRev (c x : Controller) : Controller :=
  if c.face.stRev then
    let x := if c.face.stCode = 3#4 then { x with errors.overrun := true } else x
    c.charged { x with
      walk.chUnit := c.selUnit, walk.chMoved := 1, walk.chTrack := false, walk.chSetda := false,
      walk.chState := .accmul }
  else x

/-- A drive's attention armed, to come up after the seek. -/
def arms (c : Controller) (i : Input) (x : Controller) : Controller :=
  { x with
    drives.uAttArmed := Function.update x.drives.uAttArmed c.selUnit true,
    drives.uAttNs := Function.update x.drives.uAttNs c.selUnit
      (if i.driveTimed then c.drives.seekHeldR else 0) }

/-- A Seek started. -/
def startSeek (c : Controller) (i : Input) (x : Controller) : Controller :=
  if c.face.stSeek then
    let x :=
      if !c.face.stSeekHere then
        if c.face.stSeekOff then seekError x c.selUnit true
        else headsAt x c.selUnit (c.regs.da.extractLsb' 16 12) (c.regs.da.extractLsb' 8 8)
          (c.regs.da.extractLsb' 0 8)
      else x
    c.arms i { x with
      timers.busyNs := if i.driveTimed then c.drives.seekHeldR.setWidth 32 else 0 }
  else x

/-- A drive's fault. -/
def fault (unit : BitVec 3) (up : Bool) (x : Controller) : Controller :=
  { x with drives.uFault := Function.update x.drives.uFault unit up }

/-- At Ease, a Recalibrate and a fault clear. -/
def startAtease (c : Controller) (i : Input) (x : Controller) : Controller :=
  if c.face.stAtease then
    let x := { x with drives.uAttArmed := Function.update x.drives.uAttArmed c.selUnit false }
    let x := if c.face.stRecal then
      c.arms i (seekError (fault c.selUnit false (headsAt x c.selUnit 0 0 0)) c.selUnit false)
      else x
    if c.face.stFclr then fault c.selUnit false x else x
  else x

/-- A START. -/
def started (c : Controller) (i : Input) (x : Controller) : Controller :=
  let x := c.startAll (c.startXfer x)
  let x := if c.face.stFault then fault c.selUnit true x else x
  let x := c.startAtease i (c.startSeek i (c.startRev x))
  if c.face.stHang then
    { x with timers.busyNs := timeoutNs - BitVec.ofNat 32 holdNs, timers.hanging := true }
  else x

/-- A store acted on, two clocks after its request. -/
def goStep (c : Controller) (i : Input) (x : Controller) : Controller :=
  if c.face.stGo then
    if c.face.stWhich = 0#2 then c.cmdWritten x
    else if c.face.stWhich = 1#2 then { x with regs.clp := c.face.stWdata }
    else if c.face.stWhich = 2#2 then { x with regs.da := c.face.stWdata }
    else c.started i x
  else x

/-- `-XBUS INIT`. -/
def initStep (i : Input) (x : Controller) : Controller :=
  if i.xbusInit then
    { x with
      regs.cmd := 0, timers.busyNs := 0, timers.hanging := false, timers.timeout := false,
      errors := .clear, walk.chState := .idle, walk.chReq := false, walk.waiting := false }
  else x

/-- A store is taken once a request. -/
def takenStep (c : Controller) (i : Input) (x : Controller) : Controller :=
  if i.xbusInit then x
  else if !c.asked i then { x with face.taken := false }
  else if c.storeNow i then { x with face.taken := true }
  else x

/-- The main process's clock out of reset. -/
def runs (c : Controller) (i : Input) (m : Seam) (s : Store) : Controller :=
  initStep i (c.goStep i (c.takenStep i (c.stateStep i m s (c.streamStep (c.flow i s)))))

/-- The controller's clock. -/
def next (i : Input) (m : Seam) (s : Store) (c : Controller) : Controller :=
  let x := if c.rstQ then c.reset else c.runs i m s
  { x with
    rstQ := i.rst
    face := { x.face with
      mine := !c.rstQ && i.sel && i.phys.extractLsb' 2 20 == regsPage
      which := if c.rstQ then 0 else i.phys.extractLsb' 0 2 }
    timers := { x.timers with busyZeroQ := c.timers.busyNs == 0#32 || c.cmdReset i }
    drives := { x.drives with attZeroQ := fun u => c.drives.uAttNs u == 0#28 }
    spindle := { x.spindle with blockCounterQ := c.spindle.blockCounter (c.present i) }
    ahead := c.ahead.next c
    lookup := c.lookup.next s c
    request := c.request.next i m s c }

end Controller

end MuirFpga.Disk
