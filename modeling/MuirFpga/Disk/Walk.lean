import MuirFpga.Disk.Store

/-!
# The walk, state by state

What each state of `ch_state_e` assigns in a clock. A state reads the registers as the clock found
them, `c`, and assigns to the ones the clock has made so far, `x`, so a later assignment replaces
an earlier one as it does in the source.
-/

namespace MuirFpga.Disk

open Quux (Seam)

/-- A word with a byte lane replaced. -/
def setLane (word : BitVec 32) (k : BitVec 2) (b : BitVec 8) : BitVec 32 :=
  (word &&& ~~~(255#32 <<< (8 * k.toNat))) ||| (b.setWidth 32 <<< (8 * k.toNat))

/-- `trk_byte`: the byte under the head. -/
def trkByte (s : Store) (t : Track) : BitVec 8 :=
  let hi := (t.trkP - 62#11).extractLsb' 0 2
  let lo := t.trkP.extractLsb' 0 2
  if t.trkGap then 255#8
  else if t.trkP < 61#11 then 255#8
  else if t.trkP = 61#11 then 127#8
  else if t.trkP < 66#11 then lane s.hdrQ hi
  else if t.trkP < 70#11 then lane s.hckQ hi
  else if t.trkP < 90#11 then 255#8
  else if t.trkP = 90#11 then 127#8
  else if t.trkP = 91#11 then 255#8
  else if t.trkP < 1116#11 then lane s.chbQ2 lo
  else if t.trkP < 1120#11 then lane s.dckQ lo
  else 255#8

/-- `burst_low`. -/
def burstLow (ecc : BitVec 32) : BitVec 4 :=
  (((List.range 11).find? fun k => ecc.getLsbD k).map (BitVec.ofNat 4)).getD 11#4

/-- `burst_high`. -/
def burstHigh (ecc : BitVec 32) : BitVec 4 :=
  (((List.range 11).reverse.find? fun k => ecc.getLsbD k).map (BitVec.ofNat 4)).getD 0#4

/-- `acc_total`. -/
def accTotal (a : Access) : BitVec 32 :=
  a.accSeek.setWidth 32 + a.accLatR.setWidth 32 + a.accMv.setWidth 32

namespace Controller

variable (c : Controller) (i : Input) (m : Seam) (s : Store) (x : Controller)

/-- The track goes past the head, a byte at a time. -/
def streamStep : Controller :=
  if c.trkAdv then
    let x :=
      if c.track.trkGap then
        if c.trkEndGap then { x with track.trkGap := false, track.trkG := 0 }
        else { x with track.trkG := c.track.trkG + 1 }
      else if c.track.trkPLastQ then
        if c.track.trkB == bpt - 1 then
          { x with track.trkP := 0, track.trkGap := true, track.trkG := 0 }
        else { x with track.trkP := 0 }
      else
        let x := { x with track.trkP := c.track.trkP + 1 }
        if 92#11 ≤ c.track.trkP ∧ c.track.trkP < 1116#11 ∧ c.track.trkP.extractLsb' 0 2 = 3#2 then
          { x with walk.chRa := c.walk.chRa + 1 }
        else x
    if c.trkStep then
      { x with
        track.trkB := c.trkBNext, walk.chSlot := c.lookup.slotOf, walk.chRa := 0,
        walk.storeMiss := if c.lookup.slotHit then x.walk.storeMiss else true }
    else x
  else x

/-- A bus cycle reached no memory. -/
def nxmStep : Controller := { x with errors.nxm := true, walk.chState := .accmul }

/-- `C_CCW`: the command list's next entry. -/
def ccwStep : Controller :=
  if !c.walk.chReq then
    { x with
      walk.chReq := true, walk.chWrite := false, walk.chAddr := c.clpNow.extractLsb' 0 22,
      regs.lma := c.clpNow, errors.ccwcyc := true }
  else if i.chDone then
    let x := { x with walk.chReq := false }
    if i.chNxm then nxmStep x
    else
      let x := { x with
        errors.ccwcyc := false, walk.chPage := i.chRdata.extractLsb' 8 14,
        walk.chMore := i.chRdata.getLsbD 0 }
      if c.walk.chTrack then
        { x with
          walk.chI := 0, walk.chPh := 0,
          walk.chState := if c.walk.chRead then .trd else .twr }
      else { x with walk.chState := .look }
  else x

/-- `C_LOOK`: the block's slot, its request and the wait. -/
def lookStep : Controller :=
  let x := { x with walk.chI := 0, walk.chRa := 0, walk.chPh := 0 }
  if c.lookup.slotHit then
    { x with walk.waiting := false, walk.chSlot := c.lookup.slotOf, walk.chState := .hdrc }
  else if m.deny then
    { x with walk.waiting := false, walk.storeMiss := true, walk.chState := .accmul }
  else { x with walk.waiting := true }

/-- `C_HDRC`: the header compared. -/
def hdrcStep : Controller :=
  if c.walk.chPh ≠ 2#3 then { x with walk.chPh := c.walk.chPh + 1 }
  else if !c.walk.hdrEqQ then
    { x with errors.hdrcmp := true, walk.chPh := 0, walk.chState := .accmul }
  else { x with walk.eccR := 0, walk.chPh := 0, walk.chState := .hdre }

/-- `C_HDRE`: the header's checkword made. -/
def hdreStep : Controller :=
  let x := { x with
    walk.eccR := eccByte c.walk.eccR (lane s.hdrQ (c.walk.chPh.extractLsb' 0 2)) }
  if c.walk.chPh = 3#3 then { x with walk.chPh := 0, walk.chState := .hdrck }
  else { x with walk.chPh := c.walk.chPh + 1 }

/-- `C_HDRCK`: the slot asked about again, and the header's checkword. -/
def hdrckStep : Controller :=
  if c.walk.chPh = 0#3 then { x with walk.chPh := 1 }
  else if !c.request.slotOkQ then { x with walk.chPh := 0, walk.chState := .look }
  else if !c.walk.hckEqQ then
    { x with errors.hdrecc := true, walk.chPh := 0, walk.chState := .accmul }
  else
    { x with
      walk.eccR := 0, walk.chI := 0, walk.chRa := 0, walk.chPh := 0, walk.pfN := 0,
      walk.chState := if c.walk.chMore && !c.ahead.nbOffPack then .pf
        else if c.walk.chRead then .data else .move }

/-- `C_PF`: the next block looked up. -/
def pfStep : Controller :=
  if c.walk.pfN ≠ 3#2 then { x with walk.pfN := c.walk.pfN + 1 }
  else { x with walk.chState := if c.walk.chRead then .data else .move }

/-- A byte of the word under the checkword. -/
def eccShift : Controller :=
  { x with
    walk.eccR := eccByte c.walk.eccR (c.walk.blkW.extractLsb' 0 8),
    walk.blkW := c.walk.blkW >>> 8 }

/-- `C_DATA`: the data's checkword made. -/
def dataStep : Controller :=
  if c.walk.chPh = 0#3 then
    { x with walk.blkW := s.chbQ2, walk.chRa := c.walk.chRa + 1, walk.chPh := 1 }
  else
    let x := c.eccShift x
    if c.walk.chPh = 4#3 then
      let x := { x with walk.chPh := 0 }
      if c.walk.chILast then { x with walk.blkW := s.dckQ, walk.chState := .dck }
      else { x with walk.chI := c.walk.chI + 1 }
    else { x with walk.chPh := c.walk.chPh + 1 }

/-- `C_DCK`: the data's checkword under the code. -/
def dckStep : Controller :=
  let x := c.eccShift x
  if c.walk.chPh = 3#3 then { x with walk.chPh := 0, walk.chState := .eccq }
  else { x with walk.chPh := c.walk.chPh + 1 }

/-- `C_ECCQ`: whether the block checks. -/
def eccqStep : Controller :=
  let x := { x with walk.chI := 0, walk.chRa := 0 }
  if c.walk.chPh = 0#3 then { x with walk.chPh := 1 }
  else
    let x := { x with walk.chPh := 0 }
    if c.walk.eccZeroQ then { x with walk.chState := .move }
    else { x with walk.trapN := eccSpin, walk.chState := .tspin }

/-- `C_TSPIN`: the code run to the burst's end of its cycle. -/
def tspinStep : Controller :=
  let x := { x with walk.eccR := eccBit c.walk.eccR false true }
  if c.walk.trapN = 1#17 then { x with walk.trapStep := 0, walk.chState := .tscan }
  else { x with walk.trapN := c.walk.trapN - 1 }

/-- `C_TSCAN`: the burst looked for. -/
def tscanStep : Controller :=
  if c.walk.eccHiZeroQ then { x with walk.chState := .tsoft }
  else if c.walk.trapStep = eccBits then
    { x with errors.ecchard := true, walk.chState := .accmul }
  else
    { x with
      walk.eccR := eccBit c.walk.eccR false true, walk.trapStep := c.walk.trapStep + 1 }

/-- `C_TSOFT`: the burst's width and pattern. -/
def tsoftStep : Controller :=
  { x with
    walk.burstWidthQ := burstHigh c.walk.eccR - burstLow c.walk.eccR,
    walk.burstPatternQ := c.walk.eccR.extractLsb' 0 11 >>> (burstLow c.walk.eccR).toNat,
    walk.chState := .tsoft2 }

/-- `C_TSOFT2`: located, or not. -/
def tsoft2Step : Controller :=
  let x :=
    if c.walk.burstWidthQ.setWidth 14 ≤ c.walk.trapStep then
      { x with
        errors.eccsoft := true,
        regs.eccReg := 0#5 ++ c.walk.burstPatternQ ++
          (c.walk.trapStep.setWidth 16 - c.walk.burstWidthQ.setWidth 16 + 1) }
    else { x with errors.ecchard := true }
  { x with walk.chState := .accmul }

/-- A bus cycle on the page's word `ch_i`. -/
def requestWord (write : Bool) (ph : BitVec 3) : Controller :=
  { x with
    walk.chReq := true, walk.chWrite := write,
    walk.chAddr := c.walk.chPage ++ c.walk.chI.extractLsb' 0 8, walk.chPh := ph }

/-- `C_MOVE` of a read: the store's word into memory, or compared with it. -/
def moveRead : Controller :=
  if c.walk.chPh = 0#3 then { x with walk.chPh := 1 }
  else if c.walk.chPh = 1#3 then { x with walk.chPh := 2 }
  else if c.walk.chPh = 2#3 then
    { x with walk.blkW := s.chbQ2, walk.chRa := c.walk.chRa + 1, walk.chPh := 3 }
  else if c.walk.chPh = 3#3 then
    { c.requestWord x (!c.walk.chCmp) 4 with walk.chWdata := c.walk.blkW }
  else if i.chDone then
    let x := { x with walk.chReq := false }
    if i.chNxm then nxmStep x
    else
      let x := if c.walk.chCmp && i.chRdata != c.walk.blkW then
        { x with errors.rcdiff := true } else x
      if c.walk.chILast then { x with walk.chState := .next }
      else { x with walk.chI := c.walk.chI + 1, walk.chPh := 2 }
  else x

/-- `C_MOVE` of a write: memory's word into the store, and under the code. -/
def moveWrite : Controller :=
  if c.walk.chPh = 0#3 then c.requestWord x false 1
  else if c.walk.chPh = 1#3 then
    if i.chDone then
      let x := { x with walk.chReq := false }
      if i.chNxm then nxmStep x else { x with walk.blkW := i.chRdata, walk.chPh := 2 }
    else x
  else if c.walk.chPh ≤ 4#3 then { c.eccShift x with walk.chPh := c.walk.chPh + 1 }
  else
    let x := { x with walk.eccR := eccByte c.walk.eccR (c.walk.blkW.extractLsb' 0 8) }
    if c.walk.chILast then { x with walk.chState := .wend }
    else { x with walk.chI := c.walk.chI + 1, walk.chPh := 0 }

/-- `C_WEND`: the fresh checkword. -/
def wendStep : Controller :=
  { x with
    walk.chDckWe := true, walk.chDckSlot := c.walk.chSlot, walk.chDckVal := c.walk.eccR,
    walk.chState := .next }

/-- The heads at a block. -/
def headsAt (unit : BitVec 3) (cyl : BitVec 12) (head blk : BitVec 8) : Controller :=
  { x with
    drives.uCyl := Function.update x.drives.uCyl unit cyl,
    drives.uHead := Function.update x.drives.uHead unit head,
    drives.uBlk := Function.update x.drives.uBlk unit blk }

/-- A drive's seek error. -/
def seekError (unit : BitVec 3) (up : Bool) : Controller :=
  { x with drives.uSeekErr := Function.update x.drives.uSeekErr unit up }

/-- `C_NEXT`: the page is done. -/
def nextStep : Controller :=
  let x := { x with
    regs.lma := 0#10 ++ c.walk.chPage ++ 255#8, walk.chMoved := c.walk.chMoved + 1 }
  let x :=
    if !c.walk.chMore then { x with walk.chState := .accmul }
    else if c.walk.chTrack then { x with walk.chN := c.walk.chN + 1, walk.chState := .ccw }
    else if c.ahead.nbOffPack then
      { seekError x c.walk.chUnit true with errors.hdrecc := true, walk.chState := .accmul }
    else { x with walk.chN := c.walk.chN + 1, walk.chState := .ccw }
  if c.ahead.nbMoveQ then headsAt x c.walk.chUnit c.ahead.nbC c.ahead.nbH c.ahead.nbB else x

/-- `C_TLOOK`: the track's first sector. -/
def tlookStep : Controller :=
  let x := { x with walk.chRa := 0 }
  if c.walk.chPh ≠ 3#3 then { x with walk.chPh := c.walk.chPh + 1 }
  else
    let x := { x with walk.chPh := 0 }
    if !c.lookup.slotHit && c.walk.chRead then
      { x with walk.storeMiss := true, walk.chState := .accmul }
    else
      { x with
        walk.chSlot := if c.walk.chRead then c.lookup.slotOf else x.walk.chSlot,
        walk.chState := .ccw }

/-- `C_TRD`: the track's bytes into the page. -/
def trdStep : Controller :=
  if c.walk.chPh = 0#3 then { x with walk.chPh := 1 }
  else if c.walk.chPh ≤ 4#3 then
    { x with
      walk.blkW := setLane c.walk.blkW ((c.walk.chPh - 1).extractLsb' 0 2) c.track.trkByteQ,
      walk.chPh := c.walk.chPh + 1 }
  else if c.walk.chPh = 5#3 then
    { c.requestWord x true 6 with walk.chWdata := c.walk.blkW }
  else if i.chDone then
    let x := { x with walk.chReq := false }
    if i.chNxm then nxmStep x
    else if c.walk.chILast then { x with walk.chState := .next }
    else { x with walk.chI := c.walk.chI + 1, walk.chPh := 0 }
  else x

/-- The parser hunts a sync: a zero after at least `F_ONES` ones. -/
def huntStep : Controller :=
  if c.psBitv then
    if c.parser.psOnes ≠ fOnes then { x with parser.psOnes := c.parser.psOnes + 1 } else x
  else if fOnes ≤ c.parser.psOnes then
    let x := { x with parser.psN := 0 }
    if c.parser.psSt = .sync1 then { x with parser.psSt := .hdr }
    else if c.psFits then
      let x := { x with
        parser.psSt := .pad, walk.chRa := 0, walk.chSlot := c.lookup.slotOf }
      if c.lookup.slotHit then x else { x with walk.storeMiss := true, track.trkLay := false }
    else { x with track.trkLay := false }
  else { x with parser.psOnes := 0 }

/-- A word of 32 bits shifted in. -/
def wordStep : Controller :=
  let word := BitVec.ofBool c.psBitv ++ c.parser.psSh
  let x := { x with parser.psSh := word.extractLsb' 1 31 }
  if c.parser.psN = 31#14 then
    let x := { x with parser.psN := 0 }
    match c.parser.psSt with
    | .hdr => { x with parser.psHdr := word, parser.psSt := .hck }
    | .hck => { x with parser.psHck := word, parser.psOnes := 0, parser.psSt := .sync2 }
    | _ => { x with parser.psDck := word, parser.trkMetaWe := true, parser.psSt := .done }
  else { x with parser.psN := c.parser.psN + 1 }

/-- The pad shifted past. -/
def padStep : Controller :=
  if c.parser.psN = 7#14 then { x with parser.psN := 0, parser.psSt := .data }
  else { x with parser.psN := c.parser.psN + 1 }

/-- The data's words shifted in, each into the store. -/
def dataBitStep : Controller :=
  let word := BitVec.ofBool c.psBitv ++ c.parser.psSh
  let x := { x with parser.psSh := word.extractLsb' 1 31 }
  let x := if c.parser.psN.extractLsb' 0 5 = 31#5 then
    { x with parser.psW := word, parser.psWr := true } else x
  if c.parser.psN = 8191#14 then { x with parser.psN := 0, parser.psSt := .dck }
  else { x with parser.psN := c.parser.psN + 1 }

/-- The parser's bit. -/
def parseStep : Controller :=
  match c.parser.psSt with
  | .sync1 => c.huntStep x
  | .sync2 => c.huntStep x
  | .hdr => c.wordStep x
  | .hck => c.wordStep x
  | .dck => c.wordStep x
  | .pad => c.padStep x
  | .data => c.dataBitStep x
  | .done => x

/-- The chunk's last bit: a chunk whose parse is not done lays no more. -/
def chunkStep : Controller :=
  { x with
    track.trkLay := if c.parser.psSt = .done ∨ c.parser.psSt = .dck ∧ c.parser.psN = 31#14
      then x.track.trkLay else false,
    parser.psWc := 0, parser.psSt := .sync1, parser.psOnes := 0, parser.psN := 0,
    track.trkB := c.trkBNext }

/-- `C_TWR`: the page's bits to the parser. -/
def twrStep : Controller :=
  if c.walk.chPh = 0#3 then c.requestWord x false 1
  else if c.walk.chPh = 1#3 then
    if i.chDone then
      let x := { x with walk.chReq := false }
      if i.chNxm then nxmStep x
      else { x with walk.blkW := i.chRdata, parser.psBit := 0, walk.chPh := 2 }
    else x
  else
    let x := { x with walk.blkW := c.walk.blkW >>> 1 }
    let x := if c.track.trkLay then c.parseStep x else x
    if c.parser.psBitLastQ then
      let x := if c.parser.psWcLastQ then c.chunkStep x
        else { x with parser.psWc := c.parser.psWc + 1 }
      if c.walk.chILast then { x with walk.chState := .next }
      else { x with walk.chI := c.walk.chI + 1, walk.chPh := 0 }
    else { x with parser.psBit := c.parser.psBit + 1 }

/-- The access time, from `C_ACCMUL` to `C_ACCFIN`. -/
def accessStep : Controller :=
  match c.walk.chState with
  | .accmul =>
    { x with
      access.accAt := c.access.accBlk.setWidth 28 * BitVec.ofNat 28 sectorNs,
      access.accMv := if c.walk.chTrack then BitVec.ofNat 28 revolutionNs
        else c.walk.chMoved.setWidth 28 * BitVec.ofNat 28 sectorNs,
      access.accSpin := c.access.accSpin + c.access.accSeek, walk.chState := .accmod }
  | .accmod =>
    { x with
      access.accOver := decide (BitVec.ofNat 28 revolutionNs ≤ c.access.accSpin),
      access.accLess := c.access.accSpin - BitVec.ofNat 28 revolutionNs,
      walk.chState := .accmod2 }
  | .accmod2 =>
    if c.access.accOver then { x with access.accSpin := c.access.accLess, walk.chState := .accmod }
    else { x with walk.chState := .accsum }
  | .accsum =>
    { x with
      access.accGe := decide (c.access.accSpin ≤ c.access.accAtQ),
      access.accD1 := c.access.accAtQ.setWidth 29 - c.access.accSpin.setWidth 29,
      walk.chState := .accsum2 }
  | .accsum2 =>
    { x with
      access.accLatR := if c.access.accGe then c.access.accD1
        else c.access.accD1 + BitVec.ofNat 29 revolutionNs,
      walk.chState := .accsum3 }
  | .accsum3 =>
    { x with access.accTotalR := accTotal c.access, walk.chState := .accdiff }
  | .accdiff =>
    { x with
      access.accLeft := c.access.accTotalR - c.access.elapsed,
      access.accOwed := decide (c.access.elapsed < c.access.accTotalR), walk.chState := .accfin }
  | _ =>
    let x := if c.walk.chSetda then
      { x with regs.da := 0#1 ++ c.walk.chUnit ++ c.drives.uCyl c.walk.chUnit ++
        c.drives.uHead c.walk.chUnit ++ c.drives.uBlk c.walk.chUnit } else x
    { x with
      timers.busyNs := if !i.driveTimed then 0
        else if c.access.accOwed && decide (BitVec.ofNat 32 tickNs < c.access.accLeft) then
          c.access.accLeft - BitVec.ofNat 32 tickNs
        else 0,
      walk.chState := .idle }

/-- `ch_state`'s own clock. -/
def stateStep : Controller :=
  match c.walk.chState with
  | .idle => x
  | .ccw => c.ccwStep i x
  | .look => c.lookStep m x
  | .hdrc => c.hdrcStep x
  | .hdre => c.hdreStep s x
  | .hdrck => c.hdrckStep x
  | .pf => c.pfStep x
  | .data => c.dataStep s x
  | .dck => c.dckStep x
  | .eccq => c.eccqStep x
  | .tspin => c.tspinStep x
  | .tscan => c.tscanStep x
  | .tsoft => c.tsoftStep x
  | .tsoft2 => c.tsoft2Step x
  | .move => if c.walk.chRead then c.moveRead i s x else c.moveWrite i x
  | .wend => c.wendStep x
  | .next => c.nextStep x
  | .tlook => c.tlookStep x
  | .trd => c.trdStep i x
  | .twr => c.twrStep i x
  | .accmul => c.accessStep i x
  | .accmod => c.accessStep i x
  | .accmod2 => c.accessStep i x
  | .accsum => c.accessStep i x
  | .accsum2 => c.accessStep i x
  | .accsum3 => c.accessStep i x
  | .accdiff => c.accessStep i x
  | .accfin => c.accessStep i x

end Controller

end MuirFpga.Disk
