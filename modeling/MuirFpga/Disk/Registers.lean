import MuirFpga.Quux.BlockWalk

/-!
# The disk controller's registers

`cadr_disk_controller`: its constants, its checkword and its registers, grouped as the source
groups them, with what is read off them in a clock. The block store's seam is the one the pack
side drives.
-/

namespace MuirFpga.Disk

open Quux (Seam)

/-- `SLOTS`. -/
def slots : Nat := 24

/-- `TICK_NS`. -/
def tickNs : Nat := 10

/-- `REGS_PAGE`. -/
def regsPage : BitVec 20 := 1015807#20

/-- `CYLINDERS`. -/
def cylinders : BitVec 12 := 815#12

/-- `HEADS`. -/
def heads : BitVec 8 := 19#8

/-- `BPT`. -/
def bpt : BitVec 8 := 17#8

/-- `REVOLUTION_NS`. -/
def revolutionNs : Nat := 16666667

/-- `SECTOR_NS`. -/
def sectorNs : Nat := 968448

/-- `INDEX_PULSE_NS`. -/
def indexPulseNs : BitVec 20 := 4000#20

/-- `SECTOR_PULSE_NS`. -/
def sectorPulseNs : BitVec 20 := 1240#20

/-- `TIMEOUT_NS`. -/
def timeoutNs : BitVec 32 := 2560000000#32

/-- `HOLD_NS`: what a START's timers are loaded short. -/
def holdNs : Nat := 3 * tickNs

/-- `SEEK_SETTLE_NS`. -/
def seekSettleNs : BitVec 28 := 5939729#28

/-- `SEEK_NS_PER_CYLINDER`. -/
def seekNsPerCylinder : BitVec 28 := 60271#28

/-- `ECC_BITS`. -/
def eccBits : BitVec 14 := 8192#14

/-- `ECC_SPIN`. -/
def eccSpin : BitVec 17 := 34753#17

/-- `F_ONES`. -/
def fOnes : BitVec 7 := 64#7

/-- `ecc_bit`. -/
def eccBit (ecc : BitVec 32) (d fb : Bool) : BitVec 32 :=
  (ecc >>> 1) ^^^ (if fb && (d ^^ ecc.getLsbD 0) then 0xA0100500#32 else 0#32)

/-- `ecc_byte`. -/
def eccByte (ecc : BitVec 32) (b : BitVec 8) : BitVec 32 :=
  (List.range 8).foldl (fun t k => eccBit t (b.getLsbD k) true) ecc

/-- A word's byte lane. -/
def lane (word : BitVec 32) (k : BitVec 2) : BitVec 8 := word.extractLsb' (8 * k.toNat) 8

/-- `ch_state_e`. -/
inductive ChState
  | idle
  | ccw
  | look
  | hdrc
  | hdre
  | hdrck
  | data
  | dck
  | eccq
  | tspin
  | tscan
  | tsoft
  | tsoft2
  | move
  | wend
  | next
  | accmul
  | accmod
  | accmod2
  | accsum
  | accsum2
  | accsum3
  | accdiff
  | accfin
  | tlook
  | trd
  | twr
  | pf
  deriving DecidableEq

/-- `ps_state_e`. -/
inductive PsState
  | sync1
  | hdr
  | hck
  | sync2
  | pad
  | data
  | dck
  | done
  deriving DecidableEq

/-- The bus face: the address match, the store held and START's decode. -/
structure Face where
  mine : Bool
  which : BitVec 2
  taken : Bool
  storeQ : Bool
  wdataQ : BitVec 32
  whichQ : BitVec 2
  stGo : Bool
  stWdata : BitVec 32
  stWhich : BitVec 2
  stXfer : Bool
  stAll : Bool
  stFault : Bool
  stRev : Bool
  stSeek : Bool
  stAtease : Bool
  stHang : Bool
  stCode : BitVec 4
  stRecal : Bool
  stFclr : Bool
  stSeekHere : Bool
  stSeekOff : Bool

/-- The registers a program reads and writes. -/
structure Regs where
  clp : BitVec 32
  cmd : BitVec 32
  da : BitVec 32
  lma : BitVec 32
  eccReg : BitVec 32

/-- The status bits a transfer raises. -/
structure Errors where
  rcdiff : Bool
  ccwcyc : Bool
  nxm : Bool
  overrun : Bool
  hdrcmp : Bool
  hdrecc : Bool
  ecchard : Bool
  eccsoft : Bool

/-- The busy counter and the hang's timeout. -/
structure Timers where
  busyNs : BitVec 32
  hanging : Bool
  timeout : Bool
  busyZeroQ : Bool

/-- The eight drives, and the seek of the selected one. -/
structure Drives where
  uCyl : BitVec 3 → BitVec 12
  uHead : BitVec 3 → BitVec 8
  uBlk : BitVec 3 → BitVec 8
  uFault : BitVec 3 → Bool
  uSeekErr : BitVec 3 → Bool
  uAttArmed : BitVec 3 → Bool
  uAttNs : BitVec 3 → BitVec 28
  attZeroQ : BitVec 3 → Bool
  cylNowR : BitVec 12
  cylToR : BitVec 12
  headNowR : BitVec 8
  blkNowR : BitVec 8
  gtR : Bool
  isRecalR : Bool
  cylNR : BitVec 12
  settleR : BitVec 28
  settleHeldR : BitVec 28
  seekNsR : BitVec 28
  seekHeldR : BitVec 28

/-- The spindle. -/
structure Spindle where
  spin : BitVec 24
  spinQ : BitVec 24
  spinQ2 : BitVec 24
  spinQ3 : BitVec 24
  into : BitVec 20
  region : BitVec 5
  wrapQ : Bool
  stepQ : Bool
  blockCounterQ : BitVec 8

/-- The walk. -/
structure Walk where
  chState : ChState
  chN : BitVec 16
  chPage : BitVec 14
  chMore : Bool
  chSlot : BitVec 5
  chUnit : BitVec 3
  chI : BitVec 9
  chRa : BitVec 9
  chPh : BitVec 3
  eccR : BitVec 32
  blkW : BitVec 32
  chRead : Bool
  chCmp : Bool
  chMoved : BitVec 8
  trapN : BitVec 17
  trapStep : BitVec 14
  chSetda : Bool
  chTrack : Bool
  chReq : Bool
  chWrite : Bool
  chAddr : BitVec 22
  chWdata : BitVec 32
  chDckWe : Bool
  chDckSlot : BitVec 5
  chDckVal : BitVec 32
  storeMiss : Bool
  waiting : Bool
  pfN : BitVec 2
  chILast : Bool
  eccZeroQ : Bool
  hckEqQ : Bool
  hdrEqQ : Bool
  eccHiZeroQ : Bool
  burstWidthQ : BitVec 4
  burstPatternQ : BitVec 11

/-- The track as it goes past the head. -/
structure Track where
  trkB : BitVec 8
  trkP : BitVec 11
  trkGap : Bool
  trkG : BitVec 9
  trkLay : Bool
  trkByteQ : BitVec 8
  trkPLastQ : Bool
  trkGLastQ : Bool

/-- The parser. -/
structure Parser where
  psSt : PsState
  psOnes : BitVec 7
  psSh : BitVec 31
  psN : BitVec 14
  psWc : BitVec 9
  psBit : BitVec 5
  psHdr : BitVec 32
  psHck : BitVec 32
  psDck : BitVec 32
  psW : BitVec 32
  psWr : Bool
  trkMetaWe : Bool
  psBitLastQ : Bool
  psWcLastQ : Bool

/-- The access time. -/
structure Access where
  accSeek : BitVec 28
  accSpin : BitVec 28
  accBlk : BitVec 8
  accAt : BitVec 28
  accAtQ : BitVec 28
  accMv : BitVec 28
  accTotalR : BitVec 32
  accLeft : BitVec 32
  accOwed : Bool
  accLess : BitVec 28
  accOver : Bool
  accLatR : BitVec 29
  accD1 : BitVec 29
  accGe : Bool
  elapsed : BitVec 32

/-- The next block of a chained command list. -/
structure Ahead where
  hdCylQ : BitVec 12
  hdHeadQ : BitVec 8
  hdBlkQ : BitVec 8
  nbC : BitVec 12
  nbH : BitVec 8
  nbB : BitVec 8
  nbOffPack : Bool
  nbMoveQ : Bool

/-- The lookup: the key, the compares and the encoder. -/
structure Lookup where
  wantTagQ : BitVec 31
  hitQ : BitVec 5 → Bool
  slotHit : Bool
  slotOf : BitVec 5

/-- The request path and the pulses of what the walk did. -/
structure Request where
  reqValid : Bool
  reqPost : Bool
  reqTag : BitVec 31
  tagWriteQ : Bool
  tagMatchQ : Bool
  slotOkQ : Bool
  chHitQ : Bool
  reqClearQ : Bool

/-- The block store: the data words, the places beside them and the registers behind its ports. -/
structure Store where
  ram : BitVec 13 → BitVec 32
  header : BitVec 5 → BitVec 32
  hck : BitVec 5 → BitVec 32
  dck : BitVec 5 → BitVec 32
  tag : BitVec 5 → BitVec 31
  valid : BitVec 5 → Bool
  seamQ : BitVec 32
  seamMetaQ : BitVec 32
  seamMetaSel : Bool
  rdata : BitVec 32
  chbQ : BitVec 32
  chbQ2 : BitVec 32
  hdrQ : BitVec 32
  hckQ : BitVec 32
  dckQ : BitVec 32

/-- The controller, its block store apart. -/
structure Controller where
  rstQ : Bool
  face : Face
  regs : Regs
  errors : Errors
  timers : Timers
  drives : Drives
  spindle : Spindle
  walk : Walk
  track : Track
  parser : Parser
  access : Access
  ahead : Ahead
  lookup : Lookup
  request : Request

deriving instance Inhabited for ChState, PsState, Face, Regs, Errors, Timers, Drives, Spindle, Walk, Track,
  Parser, Access, Ahead, Lookup, Request, Store, Controller

/-- What a clock brings the controller besides the seam: the resets, the Xbus cycle, the drives
on the cables and main memory's answer. -/
structure Input where
  rst : Bool
  xbusInit : Bool
  sel : Bool
  devRq : Bool
  devWrite : Bool
  phys : BitVec 22
  wdata : BitVec 32
  drivePresent : BitVec 8
  driveReadOnly : BitVec 8
  driveTimed : Bool
  chDone : Bool
  chNxm : Bool
  chRdata : BitVec 32

namespace Controller

/-- `clp_now`: only the low sixteen bits of the pointer count. -/
def clpNow (c : Controller) : BitVec 32 :=
  c.regs.clp.extractLsb' 16 16 ++ (c.regs.clp.extractLsb' 0 16 + c.walk.chN)

/-- `trk_b_next`. -/
def trkBNext (c : Controller) : BitVec 8 :=
  if c.track.trkB == bpt - 1 then 0 else c.track.trkB + 1

/-- `trk_adv`: the stream advances a byte. -/
def trkAdv (c : Controller) : Bool := c.walk.chState == .trd && decide (c.walk.chPh ≤ 3#3)

/-- `trk_end_sec`. -/
def trkEndSec (c : Controller) : Bool :=
  !c.track.trkGap && c.track.trkPLastQ && c.track.trkB != bpt - 1

/-- `trk_end_gap`. -/
def trkEndGap (c : Controller) : Bool := c.track.trkGap && c.track.trkGLastQ

/-- `trk_step`: a new sector begins. -/
def trkStep (c : Controller) : Bool := c.trkAdv && (c.trkEndSec || c.trkEndGap)

/-- `ps_bitv`. -/
def psBitv (c : Controller) : Bool := c.walk.blkW.getLsbD 0

/-- `ps_fits`: what the parser still needs is left in the chunk. -/
def psFits (c : Controller) : Bool :=
  decide (c.parser.psWc < 33#9) || (c.parser.psWc == 33#9 && decide (c.parser.psBit ≤ 23#5))

/-- The parser looks at a bit. -/
def parses (c : Controller) : Bool :=
  c.walk.chState == .twr && decide (2#3 ≤ c.walk.chPh) && c.track.trkLay

/-- The parser finds the data's sync with the rest of its format left in the chunk. -/
def syncs (c : Controller) : Bool :=
  c.parses && c.parser.psSt == .sync2 && !c.psBitv && decide (fOnes ≤ c.parser.psOnes) && c.psFits

/-- `want_tag`: the block looked up. -/
def wantTag (c : Controller) : BitVec 31 :=
  let wantBlk := if c.walk.chState = .trd then c.trkBNext
    else if c.walk.chTrack then c.track.trkB else c.drives.uBlk c.walk.chUnit
  if c.walk.chState = .pf then c.walk.chUnit ++ c.ahead.nbC ++ c.ahead.nbH ++ c.ahead.nbB
  else c.walk.chUnit ++ c.drives.uCyl c.walk.chUnit ++ c.drives.uHead c.walk.chUnit ++ wantBlk

/-- `slot_taken_c`: the walk takes the slot the lookup found. -/
def slotTaken (c : Controller) : Bool :=
  (c.walk.chState == .look && c.lookup.slotHit) ||
    (c.walk.chState == .tlook && c.walk.chPh == 3#3 && c.walk.chRead && c.lookup.slotHit) ||
    (c.trkStep && c.lookup.slotHit) || (c.syncs && c.lookup.slotHit)

/-- `post_c`: a request is posted. -/
def post (c : Controller) (m : Seam) : Bool :=
  (c.walk.chState == .look && !c.lookup.slotHit && !m.deny && !c.walk.waiting) ||
    (c.walk.chState == .pf && c.walk.pfN == 3#2 && !c.lookup.slotHit && !c.ahead.nbOffPack &&
      !c.request.reqValid)

/-- `chb_a`: the data word at the walk's port. -/
def chbA (c : Controller) : BitVec 13 :=
  c.walk.chSlot ++
    (if c.walk.chRead || c.walk.chTrack then c.walk.chRa else c.walk.chI).extractLsb' 0 8

/-- `chb_we`. -/
def chbWe (c : Controller) : Bool :=
  (c.walk.chState == .move && !c.walk.chRead && c.walk.chPh == 2#3) || c.parser.psWr

/-- `chb_d`. -/
def chbD (c : Controller) : BitVec 32 := if c.walk.chTrack then c.parser.psW else c.walk.blkW

/-- `ch_busy`. -/
def chBusy (c : Controller) : Bool := c.walk.chState != .idle

/-- `sel_unit`. -/
def selUnit (c : Controller) : BitVec 3 := c.regs.da.extractLsb' 28 3

/-- `present`. -/
def present (c : Controller) (i : Input) : Bool := i.drivePresent.getLsbD c.selUnit.toNat

/-- `read_only`. -/
def readOnly (c : Controller) (i : Input) : Bool := i.driveReadOnly.getLsbD c.selUnit.toNat

/-- `cmd_reset`. -/
def cmdReset (c : Controller) (i : Input) : Bool :=
  i.xbusInit || (c.face.stGo && c.face.stWhich == 0#2 && c.face.stWdata.extractLsb' 0 4 == 14#4)

/-- `asked`: a cycle on the four registers. -/
def asked (c : Controller) (i : Input) : Bool := c.face.mine && i.devRq

/-- `store_now`. -/
def storeNow (c : Controller) (i : Input) : Bool := c.asked i && i.devWrite && !c.face.taken

end Controller

end MuirFpga.Disk
