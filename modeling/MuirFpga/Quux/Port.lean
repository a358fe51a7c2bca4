import MuirFpga.Quux.AxiMaster

/-!
# The memory port

`quux15_port` with the AXI master behind it: the cache of two ways and its line buffer, the posted
writes' queue of 8 and in-flight list of 16, the one fill, the table reader's lookups and the
transfer's words. A register has the source's name; a wire is a definition of the state and the
clock's inputs, in the source's order. The valid maps and the recency bits are read as the one bit
a set they stand for, and the lines' write buffer is the list of its entries, oldest first.
-/

namespace MuirFpga.Quux

/-- The port's parameters: `SETS` is `2 ^ sb`. -/
structure PortConfig where
  sb : Nat
  master : MasterConfig
  dPatience : Nat

/-- The fill's states. -/
inductive FillState
  | none
  | wait
  | data
  | land
  deriving DecidableEq

/-- The table read's states. -/
inductive TableState
  | idle
  | retry
  | look
  | hit
  | fill
  deriving DecidableEq

/-- A line's eight words. -/
abbrev Row := BitVec 3 → BitVec 40

/-- The words of a line as it comes. -/
def lanes (data : BitVec 320) : Row := fun k => data.extractLsb' (40 * k.toNat) 40

/-- A bus address's line. -/
def lineOf (bus : BitVec 29) : BitVec 26 := bus.extractLsb' 3 26

/-- A bus address's word of its line. -/
def laneOf (bus : BitVec 29) : BitVec 3 := bus.extractLsb' 0 3

/-- A written word as the line keeps it. -/
def asHeld (bus : BitVec 29) (word : BitVec 40) : BitVec 40 :=
  if bus.getLsbD 28 then 5#8 ++ word.extractLsb' 0 32 else word

/-- An entry of the lines' write buffer. -/
structure Buffered (sb : Nat) where
  set : BitVec sb
  lane : BitVec 3
  word : BitVec 40
  slot : BitVec 3
  hit : Bool
  way : Bool
  pend : Bool
  young : Bool

/-- A way of the cache: its valid bits, its tags and its lines, with the RAMs' output registers. -/
structure Way (sb : Nat) where
  valid : BitVec sb → Bool
  tag : BitVec sb → BitVec (26 - sb)
  line : BitVec sb → Row
  tagA : BitVec (26 - sb)
  tagB : BitVec (26 - sb)
  dataA : Row
  dataB : Row

/-- The port's registers, the cache and the master. -/
structure Port (c : PortConfig) where
  qBus : BitVec 3 → BitVec 29
  qWord : BitVec 3 → BitVec 40
  qDma : BitVec 3 → Bool
  qHead : BitVec 3
  qCount : BitVec 4
  qPcount : BitVec 4
  fLine : BitVec 4 → BitVec 26
  fArr : BitVec 4 → Bool
  fErr : BitVec 4 → Bool
  flDma : BitVec 4 → Bool
  fHead : BitVec 4
  fCount : BitVec 5
  fPcount : BitVec 5
  fs : FillState
  fBus : BitVec 29
  fTable : Bool
  fByp : Bool
  fWord : BitVec 40
  lbV : Bool
  lbLine : BitVec 25
  lbData : Row
  dwWait : BitVec 6
  drWait : BitVec 6
  dReserve : Bool
  dForce : Bool
  lpV : Bool
  lwV : Bool
  ltV : Bool
  ltWithP : Bool
  lpBus : BitVec 29
  lwBus : BitVec 29
  ltBus : BitVec 29
  lwSlot : BitVec 3
  pHitLand : Bool
  pHitWord : BitVec 40
  tst : TableState
  tBus : BitVec 29
  tWordQ : BitVec 40
  tlV : Bool
  tlWay : Bool
  tlLine : BitVec 26
  sweepLeft : BitVec 16
  instQ : Bool
  instWayQ : Bool
  instSetQ : BitVec c.sb
  db : List (Buffered c.sb)
  way0 : Way c.sb
  way1 : Way c.sb
  mru : BitVec c.sb → Bool
  master : Master

/-- What a clock asks of the port, and what the AXI port brings. -/
structure PortInput where
  rst : Bool
  hard : Bool
  pReq : Bool
  pBus : BitVec 29
  wReq : Bool
  wBus : BitVec 29
  wWord : BitVec 40
  postReq : Bool
  postBus : BitVec 29
  postWord : BitVec 40
  tStart : Bool
  tAddr : BitVec 29
  dReq : Bool
  dWrite : Bool
  dAddr : BitVec 28
  dWdata : BitVec 40
  dStart : Bool
  cReq : Bool
  cLine : BitVec 26
  sweepGo : Bool
  hold : Bool
  axi : AxiInput

namespace PortConfig

variable (c : PortConfig)

/-- `set_of`. -/
def set (bus : BitVec 29) : BitVec c.sb := bus.extractLsb' 3 c.sb

/-- `tag_of`. -/
def tag (bus : BitVec 29) : BitVec (26 - c.sb) := bus.extractLsb' (3 + c.sb) (26 - c.sb)

/-- `SWEEP_CLOCKS`. -/
def sweepClocks : Nat := max (2 ^ c.sb * 16 / 512) 1

end PortConfig

namespace Port

variable {c : PortConfig}

section Tick

variable (s : Port c)

/-- The in-flight list's slots, oldest first. -/
def slots : List (BitVec 4) :=
  (List.range (min 16 s.fCount.toNat)).map fun k => s.fHead + BitVec.ofNat 4 k

/-- The writes that land: those at the list's front, each answered and every one before it. -/
def landing : List (BitVec 4) := s.slots.takeWhile s.fArr

/-- `n_land`. -/
def nLand : BitVec 5 := BitVec.ofNat 5 s.landing.length

/-- `n_land_p`. -/
def nLandP : BitVec 5 := BitVec.ofNat 5 (s.landing.countP fun slot => !s.flDma slot)

/-- `errors_now`. -/
def errorsNow : BitVec 5 := BitVec.ofNat 5 (s.landing.countP s.fErr)

/-- `staying`: in flight after the landings. -/
def staying (slot : BitVec 4) : Bool := (s.slots.dropWhile s.fArr).contains slot

/-- `f_tail`. -/
def fTail : BitVec 4 := s.fHead + s.fCount.extractLsb' 0 4

/-- `mw_req`. -/
def mwReq : Bool := s.qCount != 0#4 && decide (s.fCount - s.nLand < 16#5) && !s.master.contV

/-- A buffered newer word in place of a line's. -/
def newest (bus : BitVec 29) (way : Bool) (word : BitVec 40) : BitVec 40 :=
  s.db.foldl (fun word e =>
    if !e.young && e.hit && !e.pend && e.set == c.set bus && e.way == way &&
        e.lane == laneOf bus then e.word else word) word

/-- A P lookup's way matches. -/
def pH (w : Way c.sb) : Bool := w.valid (c.set s.lpBus) && w.tagA == c.tag s.lpBus

/-- A T lookup's way matches. -/
def tH (w : Way c.sb) : Bool := w.valid (c.set s.ltBus) && w.tagB == c.tag s.ltBus

/-- A write start's way matches; one installed at the same edge was read through its write. -/
def wH (w : Way c.sb) (way : Bool) : Bool :=
  w.valid (c.set s.lwBus) && w.tagA == c.tag s.lwBus &&
    !(s.instQ && s.instSetQ == c.set s.lwBus && s.instWayQ == way)

/-- `p_hit`. -/
def pHit : Bool := s.lpV && (s.pH s.way0 || s.pH s.way1)

/-- `p_miss`. -/
def pMiss : Bool := s.lpV && !(s.pH s.way0 || s.pH s.way1)

/-- `t_cancel`: a table read made with a P read that missed was Busy. -/
def tCancel : Bool := s.ltV && s.ltWithP && s.pMiss

/-- `t_hit`. -/
def tHit : Bool := s.ltV && !s.tCancel && (s.tH s.way0 || s.tH s.way1)

/-- `t_miss`. -/
def tMiss : Bool := s.ltV && !s.tCancel && !(s.tH s.way0 || s.tH s.way1)

/-- `p_lookup_word`. -/
def pLookupWord : BitVec 40 :=
  s.newest s.lpBus (s.pH s.way1)
    ((if s.pH s.way1 then s.way1.dataA else s.way0.dataA) (laneOf s.lpBus))

/-- `t_lookup_word`. -/
def tLookupWord : BitVec 40 :=
  s.newest s.ltBus (s.tH s.way1)
    ((if s.tH s.way1 then s.way1.dataB else s.way0.dataB) (laneOf s.ltBus))

/-- `f_new`: a miss makes its fill now. -/
def fNew : Bool := s.pMiss || s.tMiss

/-- `f_bus_now`. -/
def fBusNow : BitVec 29 := if s.fNew then (if s.pMiss then s.lpBus else s.ltBus) else s.fBus

/-- A fill waits on the read rule or its line is coming. -/
def filling : Bool := s.fs == .wait || s.fs == .data

/-- `f_exists`. -/
def fExists : Bool := s.filling || s.fNew

/-- The queue's slots, oldest first. -/
def queue : List (BitVec 3) :=
  (List.range (min 8 s.qCount.toNat)).map fun k => s.qHead + BitVec.ofNat 3 k

/-- `written`: a write to the fill's line is queued, or in flight and not landing now. -/
def written : Bool :=
  s.queue.any (fun slot => lineOf (s.qBus slot) == lineOf s.fBusNow) ||
    (s.slots.dropWhile s.fArr).any fun slot => s.fLine slot == lineOf s.fBusNow

/-- `ar_req`: the read rule. -/
def arReq : Bool := (s.fs == .wait || s.fNew) && !s.written

/-- What the master is asked. -/
def request : MasterReq where
  arReq := s.arReq
  arLine := lineOf s.fBusNow
  wReq := s.mwReq
  wBus := s.qBus s.qHead
  wWord := s.qWord s.qHead
  wId := s.fTail

/-- The set the fill's line goes in. -/
def fSet : BitVec c.sb := c.set s.fBus

/-- `victim`: the way the set did not use last. -/
def victim : Bool := !s.mru s.fSet

end Tick

section Asked

variable (i : PortInput) (s : Port c)

/-- `sweeping`. -/
def sweeping : Bool := i.sweepGo || s.sweepLeft != 0#16

/-- `mw_taken`. -/
def mwTaken : Bool := s.master.wTaken c.master s.request i.axi

/-- `f_issue`. -/
def fIssue : Bool := s.master.arTaken s.request i.axi

/-- `p_busy`. -/
def pBusy : Bool := s.filling || s.sweeping i || s.dForce || i.hold

/-- `q_after_accept`. -/
def qAfterAccept : BitVec 4 := s.qCount - (BitVec.ofBool (s.mwTaken i)).setWidth 4

/-- `post_ok`. -/
def postOk : Bool :=
  decide (s.qAfterAccept i + (BitVec.ofBool s.dReserve).setWidth 4 < 8#4) && !i.hold

/-- `post_push`. -/
def postPush : Bool := i.postReq && s.postOk i

/-- `w_ok`. -/
def wOk : Bool :=
  !(s.filling && lineOf s.fBus == lineOf i.wBus) && !s.sweeping i &&
    decide (s.qAfterAccept i + (BitVec.ofBool (s.postPush i)).setWidth 4 +
      (BitVec.ofBool s.dReserve).setWidth 4 < 8#4) && !i.hold

/-- `w_push`. -/
def wPush : Bool := i.wReq && s.wOk i

/-- The slot a post goes in. -/
def postSlot : BitVec 3 := s.qHead + s.qCount.extractLsb' 0 3

/-- `w_slot`. -/
def wSlot : BitVec 3 := s.postSlot + (BitVec.ofBool (s.postPush i)).setWidth 3

/-- `t_wanted`. -/
def tWanted : Bool := i.tStart || s.tst == .retry || (s.tst == .look && s.tCancel)

/-- `t_issue`. -/
def tIssue : Bool := s.tWanted i && !s.fExists && !s.sweeping i && !s.dForce && !i.hold

/-- The table read looked up now. -/
def tNow : BitVec 29 := if i.tStart then i.tAddr else s.tBus

/-- `t_ready`. -/
def tReady : Bool := s.tst == .hit || (s.tst == .fill && s.fs == .land)

/-- `t_word`. -/
def tWord : BitVec 40 := if s.tst = .hit then s.tWordQ else s.fWord

/-- `p_land`. -/
def pLand : Bool := s.pHitLand || (s.fs == .land && !s.fTable && !s.fByp)

/-- `p_word`. -/
def pWord : BitVec 40 := if s.pHitLand then s.pHitWord else s.fWord

/-- `rd_data`, by words. -/
def rdRow : Row := lanes (s.master.rdData i.axi)

/-- `install`. -/
def install : Bool := s.fs == .data && s.master.rdLast i.axi && !s.fByp

/-- `byp_last`. -/
def bypLast : Bool := s.fs == .data && s.master.rdLast i.axi && s.fByp

/-- `p_land_next`. -/
def pLandNext : Bool := s.pHit || (s.install i && !s.fTable && !s.fByp)

/-- `p_word_next`. -/
def pWordNext : BitVec 40 := if s.pHit then s.pLookupWord else s.rdRow i (laneOf s.fBus)

/-- `d_line`. -/
def dLine : BitVec 26 := 0#1 ++ i.dAddr.extractLsb' 3 25

/-- `lb_hit`. -/
def lbHit : Bool := s.lbV && s.lbLine == i.dAddr.extractLsb' 3 25

/-- `d_w_block`. -/
def dWBlock : Bool :=
  (s.filling && lineOf s.fBus == dLine i) || (s.lpV && lineOf s.lpBus == dLine i) ||
    (s.ltV && lineOf s.ltBus == dLine i)

/-- `d_push`. -/
def dPush : Bool :=
  i.dReq && i.dWrite && !s.dWBlock i && !s.install i && !i.hold &&
    decide (s.qAfterAccept i + (BitVec.ofBool (s.postPush i)).setWidth 4 +
      (BitVec.ofBool (s.wPush i)).setWidth 4 < 8#4)

/-- `d_slot`. -/
def dSlot : BitVec 3 := s.wSlot i + (BitVec.ofBool (s.wPush i)).setWidth 3

/-- `d_done`. -/
def dDone : Bool := s.dPush i || (i.dReq && !i.dWrite && s.lbHit i)

/-- `d_rdata`. -/
def dRdata : BitVec 40 := s.lbData (i.dAddr.extractLsb' 0 3)

/-- `d_fill_want`. -/
def dFillWant : Bool := i.dReq && !i.dWrite && !s.lbHit i && !(s.filling && s.fByp)

/-- `d_fill_go`. -/
def dFillGo : Bool :=
  s.dFillWant i && (s.fs == .none || s.fs == .land) && !s.lpV && !s.ltV && !i.pReq &&
    (s.dForce || !(i.tStart || s.tst == .retry)) && !s.sweeping i && !i.hold

/-- `c_done`. -/
def cDone : Bool := i.cReq && !s.install i && !s.dPush i

/-- `drain`: the buffer's oldest word is written. -/
def drain : Bool :=
  match s.db with
  | [] => false
  | e :: _ => !e.pend && !s.install i && !s.tIssue i && !(i.pReq && c.set i.pBus == e.set)

/-- `acc_p`. -/
def accP : Bool := s.mwTaken i && !s.qDma s.qHead

/-- `q_count_n`. -/
def qCountN : BitVec 4 :=
  s.qCount - (BitVec.ofBool (s.mwTaken i)).setWidth 4 +
    (BitVec.ofBool (s.postPush i)).setWidth 4 + (BitVec.ofBool (s.wPush i)).setWidth 4 +
    (BitVec.ofBool (s.dPush i)).setWidth 4

/-- `f_count_n`. -/
def fCountN : BitVec 5 := s.fCount - s.nLand + (BitVec.ofBool (s.mwTaken i)).setWidth 5

/-- `queue_n`. -/
def queueN : BitVec 4 :=
  s.qPcount - (BitVec.ofBool (s.accP i)).setWidth 4 +
    (BitVec.ofBool (s.postPush i)).setWidth 4 + (BitVec.ofBool (s.wPush i)).setWidth 4

/-- `inflight_n`. -/
def inflightN : BitVec 5 := s.fPcount - s.nLandP + (BitVec.ofBool (s.accP i)).setWidth 5

/-- `d_busy`. -/
def dBusy : Bool :=
  s.qCount != s.qPcount || s.fPcount != s.fCount || (s.filling && s.fByp)

/-- `idle_n`. -/
def idleN : Bool :=
  s.queueN i == 0#4 && s.inflightN i == 0#5 &&
    !(if s.filling then !s.fByp else s.fNew) && !i.sweepGo && s.sweepLeft == 0#16

/-- `empty`. -/
def empty : Bool := s.qPcount == 0#4 && s.fPcount == s.nLandP

/-- `quiet`. -/
def quiet : Bool :=
  s.qCount == 0#4 && s.fCount == 0#5 && s.fs == .none && s.db.isEmpty && !s.lpV && !s.ltV &&
    !s.lwV

/-- An entry of the buffer that stays: its way answered now, and its line replaced now. -/
def dbStays (e : Buffered c.sb) : Buffered c.sb :=
  let e := if e.pend && s.lwV && s.lwSlot == e.slot then
      { e with
        pend := false, hit := s.wH s.way0 false || s.wH s.way1 true, way := s.wH s.way1 true }
    else e
  { e with
    hit := e.hit && !(s.install i && e.set == s.fSet && e.way == s.victim), young := false }

/-- A write-back's posted word: the line its table read found. -/
def dbPost : Buffered c.sb where
  set := c.set i.postBus
  lane := laneOf i.postBus
  word := asHeld i.postBus i.postWord
  slot := 0
  hit := s.tlV && s.tlLine == lineOf i.postBus &&
    !(s.install i && c.set i.postBus == s.fSet && s.tlWay == s.victim)
  way := s.tlWay
  pend := false
  young := true

/-- A write's word, granted in this clock: its tag read answers next clock. -/
def dbWrite : Buffered c.sb where
  set := c.set i.wBus
  lane := laneOf i.wBus
  word := asHeld i.wBus i.wWord
  slot := s.wSlot i
  hit := false
  way := false
  pend := true
  young := true

/-- The buffer's next entries. -/
def dbNext : List (Buffered c.sb) :=
  (((if s.drain i then s.db.tail else s.db).map (s.dbStays i)) ++
    (if s.postPush i then [s.dbPost i] else []) ++
    (if s.wPush i then [s.dbWrite i] else [])).take 4

end Asked

section Edge

variable (i : PortInput) (s : Port c)

/-- The valid map's clock: a clear before the write. -/
def validNext (way : Bool) (w : Way c.sb) : BitVec c.sb → Bool :=
  if i.hard then fun _ => false
  else
    let held := if i.sweepGo then fun _ => false else w.valid
    if s.dPush i then Function.update held (c.set (0#1 ++ i.dAddr)) false
    else if s.cDone i then Function.update held (c.set (i.cLine ++ 0#3)) false
    else if s.install i && s.victim == way then Function.update held s.fSet true
    else held

/-- The word drained goes into a way's line. -/
def drains (way : Bool) : Option (Buffered c.sb) :=
  if s.drain i && !s.install i && !s.tIssue i then
    s.db.head?.filter fun e => e.hit && e.way == way
  else none

/-- A way's RAMs' clock. -/
def wayNext (way : Bool) (w : Way c.sb) : Way c.sb where
  valid := s.validNext i way w
  tag := if s.install i && s.victim == way then Function.update w.tag s.fSet (c.tag s.fBus)
    else w.tag
  line :=
    if s.install i && s.victim == way then Function.update w.line s.fSet (s.rdRow i)
    else match s.drains i way with
      | some e => Function.update w.line e.set (Function.update (w.line e.set) e.lane e.word)
      | none => w.line
  tagA :=
    if i.pReq || s.wPush i then w.tag (if i.pReq then c.set i.pBus else c.set i.wBus) else w.tagA
  tagB :=
    if (s.install i || s.tIssue i) && !(s.install i && s.victim == way) then
      w.tag (if s.install i then s.fSet else c.set (s.tNow i))
    else w.tagB
  dataA := if i.pReq then w.line (c.set i.pBus) else w.dataA
  dataB :=
    if s.install i then (if s.victim == way then w.dataB else w.line s.fSet)
    else if s.tIssue i then w.line (c.set (s.tNow i))
    else match s.db with
      | [] => w.dataB
      | e :: _ =>
        if !e.pend && e.hit && (s.drains i way).isNone then w.line e.set else w.dataB

/-- The recency bits' clock: a P hit's write, a T hit's and an install's, the later taking a set
written twice. -/
def mruNext : BitVec c.sb → Bool :=
  let m := if s.pHit && !i.rst then Function.update s.mru (c.set s.lpBus) (s.pH s.way1) else s.mru
  let m := if s.tHit && !i.rst then Function.update m (c.set s.ltBus) (s.tH s.way1) else m
  if s.install i && !i.rst then Function.update m s.fSet s.victim else m

/-- The registers at `rst`. -/
def reset (x : Port c) : Port c :=
  { x with
    qHead := 0, qCount := 0, qPcount := 0, fHead := 0, fCount := 0, fPcount := 0
    fArr := fun _ => false, fErr := fun _ => false, fs := .none, fByp := false, lbV := false
    dwWait := 0, drWait := 0, dReserve := false, dForce := false, lpV := false, lwV := false
    ltV := false, pHitLand := false, tst := .idle, tlV := false, instQ := false, db := []
    sweepLeft := 0 }

/-- The landings and the accept. -/
def listNext (x : Port c) : Port c :=
  let arr := fun slot => s.staying slot && s.fArr slot
  let err := fun slot => s.staying slot && s.fErr slot
  let arr := if s.mwTaken i then Function.update arr s.fTail false else arr
  let err := if s.mwTaken i then Function.update err s.fTail false else err
  let b := s.master.bSlot c.master i.axi
  { x with
    fHead := s.fHead + s.nLand.extractLsb' 0 4
    fCount := s.fCountN i
    fPcount := s.inflightN i
    fLine := if s.mwTaken i then Function.update s.fLine s.fTail (lineOf (s.qBus s.qHead))
      else s.fLine
    flDma := if s.mwTaken i then Function.update s.flDma s.fTail (s.qDma s.qHead) else s.flDma
    fArr := if s.master.bDone c.master i.axi then Function.update arr b true else arr
    fErr := if s.master.bDone c.master i.axi then
        Function.update err b (s.master.bErr c.master i.axi)
      else err }

/-- An entry put in the queue's array. -/
def put (on : Bool) (slot : BitVec 3) (bus : BitVec 29) (word : BitVec 40) (dma : Bool)
    (x : Port c) : Port c :=
  if on then
    { x with
      qBus := Function.update x.qBus slot bus
      qWord := Function.update x.qWord slot word
      qDma := Function.update x.qDma slot dma }
  else x

/-- The queue: the accept, the post, the write start and the transfer's word. -/
def queueNext (x : Port c) : Port c :=
  let x := put (s.postPush i) s.postSlot i.postBus i.postWord false x
  let x := put (s.wPush i) (s.wSlot i) i.wBus i.wWord false x
  let x := put (s.dPush i) (s.dSlot i) (0#1 ++ i.dAddr) i.dWdata true x
  { x with
    qHead := s.qHead + (BitVec.ofBool (s.mwTaken i)).setWidth 3
    qCount := s.qCountN i
    qPcount := s.queueN i }

/-- The transfer: its line, and the clocks it has waited. -/
def transferNext (x : Port c) : Port c :=
  let x := if s.bypLast i then
      { x with lbV := true, lbLine := s.fBus.extractLsb' 3 25, lbData := s.rdRow i }
    else x
  { x with
    lbV := x.lbV && !(i.dStart || (s.dPush i && s.lbLine == i.dAddr.extractLsb' 3 25))
    dwWait := if !(i.dReq && i.dWrite) || s.dPush i then 0
      else if s.dwWait != 63#6 then s.dwWait + 1 else s.dwWait
    dReserve := i.dReq && i.dWrite && !s.dPush i && decide (c.dPatience ≤ s.dwWait.toNat + 1)
    drWait := if !s.dFillWant i || s.dFillGo i then 0
      else if s.drWait != 63#6 then s.drWait + 1 else s.drWait
    dForce := s.dFillWant i && !s.dFillGo i && decide (c.dPatience ≤ s.drWait.toNat + 1) }

/-- The lookups made now, answered next clock. -/
def lookupNext (x : Port c) : Port c :=
  { x with
    lpV := i.pReq, lpBus := i.pBus, lwV := s.wPush i, lwBus := i.wBus, lwSlot := s.wSlot i
    ltV := s.tIssue i, ltBus := s.tNow i, ltWithP := i.pReq, pHitLand := s.pHit
    pHitWord := s.pLookupWord }

/-- `tst`. -/
def tstNext : TableState :=
  if i.tStart then (if s.tIssue i then .look else .retry)
  else match s.tst with
    | .look =>
      if s.tCancel then (if s.tIssue i then .look else .retry) else if s.tHit then .hit else .fill
    | .retry => if s.tIssue i then .look else .retry
    | .hit => .idle
    | .fill => if s.fs = .land then .idle else .fill
    | .idle => .idle

/-- The table read. -/
def tableNext (x : Port c) : Port c :=
  let x := { x with tBus := if i.tStart then i.tAddr else s.tBus, tst := s.tstNext i }
  if s.tHit then
    { x with tWordQ := s.tLookupWord, tlV := true, tlLine := lineOf s.ltBus
             tlWay := s.tH s.way1 }
  else x

/-- `fs`. -/
def fsNext : FillState :=
  match s.fs with
  | .wait => if s.fIssue i then .data else .wait
  | .data => if s.install i then .land else if s.bypLast i then .none else .data
  | _ => if s.fNew then (if s.fIssue i then .data else .wait)
    else if s.dFillGo i then .wait else .none

/-- The fill, its install and the sweep. -/
def fillNext (x : Port c) : Port c :=
  let x :=
    if s.fNew then { x with fBus := s.fBusNow, fTable := s.tMiss, fByp := false }
    else if s.dFillGo i then
      { x with fBus := 0#1 ++ i.dAddr.extractLsb' 3 25 ++ 0#3, fTable := false, fByp := true }
    else x
  let x := { x with
    fs := s.fsNext i, instQ := s.install i
    sweepLeft := if i.sweepGo then BitVec.ofNat 16 (c.sweepClocks - 1)
      else if s.sweepLeft != 0#16 then s.sweepLeft - 1 else s.sweepLeft }
  if s.install i then
    let x := { x with
      fWord := s.rdRow i (laneOf s.fBus), instSetQ := s.fSet, instWayQ := s.victim }
    if s.fTable then
      { x with tlV := true, tlLine := lineOf s.fBus, tlWay := s.victim }
    else x
  else x

/-- The registers' clock out of reset. -/
def registers : Port c :=
  { s.fillNext i (s.tableNext i (s.lookupNext i (s.transferNext i (s.queueNext i
      (s.listNext i s))))) with
    db := s.dbNext i }

/-- The port's clock. -/
def next : Port c :=
  { (if i.rst then s.reset else s.registers i) with
    way0 := s.wayNext i false s.way0
    way1 := s.wayNext i true s.way1
    mru := s.mruNext i
    master := s.master.next i.rst c.master s.request i.axi }

end Edge

/-- The registers before the reset. -/
def cold (c : PortConfig) : Port c where
  qBus := fun _ => 0
  qWord := fun _ => 0
  qDma := fun _ => false
  qHead := 0
  qCount := 0
  qPcount := 0
  fLine := fun _ => 0
  fArr := fun _ => false
  fErr := fun _ => false
  flDma := fun _ => false
  fHead := 0
  fCount := 0
  fPcount := 0
  fs := .none
  fBus := 0
  fTable := false
  fByp := false
  fWord := 0
  lbV := false
  lbLine := 0
  lbData := fun _ => 0
  dwWait := 0
  drWait := 0
  dReserve := false
  dForce := false
  lpV := false
  lwV := false
  ltV := false
  ltWithP := false
  lpBus := 0
  lwBus := 0
  ltBus := 0
  lwSlot := 0
  pHitLand := false
  pHitWord := 0
  tst := .idle
  tBus := 0
  tWordQ := 0
  tlV := false
  tlWay := false
  tlLine := 0
  sweepLeft := 0
  instQ := false
  instWayQ := false
  instSetQ := 0
  db := []
  way0 := ⟨fun _ => false, fun _ => 0, fun _ _ => 0, 0, 0, fun _ => 0, fun _ => 0⟩
  way1 := ⟨fun _ => false, fun _ => 0, fun _ _ => 0, 0, 0, fun _ => 0, fun _ => 0⟩
  mru := fun _ => false
  master := ⟨.idle, 0, 0, 0, fun _ => 0, false, false, false, false, false, false, false, 0, 0, 0,
    0, fun _ => false, fun _ => false, fun _ => false, 0⟩

end Port

end MuirFpga.Quux
