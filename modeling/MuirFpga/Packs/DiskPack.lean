import Mathlib.Data.BitVec

/-!
# The pack side, clock by clock

`cadr_disk_pack`: the register face on the processor's port, the request it holds for a clock and
what refuses it, and the master that moves a block between DDR and the block store. Registers have
the source's names. The fabric's reset takes the registers and drains the master; the port's own
reset takes everything.
-/

namespace MuirFpga.Packs.DiskPack

/-- The module's parameters: the store's slots, where the registers sit, the identity and the
widths of the port. -/
structure Config where
  slots : Nat
  regBase : BitVec 32
  ident : BitVec 32
  idW : Nat
  lenW : Nat

/-- `wstate_e`. -/
inductive WState
  | addr
  | data
  | resp
  deriving DecidableEq

/-- `rstate_e`. -/
inductive RState
  | addr
  | prep
  | prep2
  | data

/-- `pstate_e`. -/
inductive PState
  | idle
  | take
  | ar
  | r
  | tag
  | aw
  | w0
  | w1
  | w2
  | w3
  | w4
  | w5
  | b
  deriving DecidableEq

/-- The face's own AXI state. -/
structure Port (idW lenW : Nat) where
  wst : WState
  rst : RState
  wAt : BitVec 32
  rAt : BitVec 32
  wId : BitVec idW
  rId : BitVec idW
  rLeft : BitVec lenW
  wBad : Bool
  wIn : Bool
  rdataQ : BitVec 32
  rrespQ : BitVec 2
  rInQ : Bool

/-- The registers, with the request held a clock and what was judged of it. -/
structure Regs where
  addr : BitVec 32
  tag : BitVec 31
  slot : BitVec 5
  drive : BitVec 25
  refused : Bool
  goQ : BitVec 4
  chActiveQ : Bool
  chWaitingQ : Bool
  chSlotQ : BitVec 5
  reqValidQ : Bool
  reqTagQ : BitVec 31
  dirty : BitVec 32
  refBits : BitVec 32
  irqQ : BitVec 3
  irqen : BitVec 3
  irqR : Bool
  busyQ : Bool
  badAlignQ : Bool
  badSlotQ : Bool
  badChQ : Bool
  badMemQ : Bool

/-- The master and the seam's registers. -/
structure Mover where
  awOn : Bool
  pDrop : Bool
  pst : PState
  pWrite : Bool
  pBurst : BitVec 4
  pBeat : BitVec 4
  pBase : BitVec 32
  pSlot : BitVec 5
  pTag : BitVec 31
  hiPending : Bool
  hiWord : BitVec 32
  rbValid : Bool
  rbData : BitVec 64
  wlo : BitVec 32
  whi : BitVec 32
  busy : Bool
  done : Bool
  error : Bool
  burstAddr : BitVec 32
  takeOnly : Bool
  storeWe : Bool
  storeSlot : BitVec 5
  storeAddr : BitVec 9
  storeWdata : BitVec 32

/-- The pack side. -/
structure State (c : Config) where
  port : Port c.idW c.lenW
  regs : Regs
  mover : Mover

/-- What the processor's port and the memory port bring a clock, with the two resets and the
memory port's liveness. -/
structure Input (c : Config) where
  rst : Bool
  fabricRst : Bool
  portLive : Bool
  awaddr : BitVec 32
  awid : BitVec c.idW
  awvalid : Bool
  wdata : BitVec 32
  wstrb : BitVec 4
  wlast : Bool
  wvalid : Bool
  bready : Bool
  araddr : BitVec 32
  arlen : BitVec c.lenW
  arid : BitVec c.idW
  arvalid : Bool
  rready : Bool
  mAwready : Bool
  mWready : Bool
  mBresp : BitVec 2
  mBvalid : Bool
  mArready : Bool
  mRdata : BitVec 64
  mRresp : BitVec 2
  mRlast : Bool
  mRvalid : Bool

/-- What the controller's walk shows the pack side a clock. -/
structure Channel where
  active : Bool
  waiting : Bool
  slot : BitVec 5
  wrote : Bool
  hit : Bool
  reqValid : Bool
  reqTag : BitVec 31
  reqPost : Bool
  miss : Bool
  rdata : BitVec 32

/-- The byte lanes a beat carries, merged into a register's value. -/
def merge (old d : BitVec 32) (strb : BitVec 4) : BitVec 32 :=
  let lane (b : Nat) : BitVec 8 :=
    if strb.getLsbD b then d.extractLsb' (8 * b) 8 else old.extractLsb' (8 * b) 8
  lane 3 ++ lane 2 ++ lane 1 ++ lane 0

/-- A slot's bit. -/
def bitOf (slot : BitVec 5) : BitVec 32 := 1#32 <<< slot.toNat

variable {c : Config}

/-- Whether an address is one of the sixteen words. -/
def inWindow (c : Config) (place : BitVec 32) : Bool :=
  place.extractLsb' 6 26 == c.regBase.extractLsb' 6 26

namespace Mover

/-- `moving`. -/
def moving (m : Mover) : Bool := m.busy || m.storeWe

/-- `meta`: the burst of two beats, the ninth. -/
def last (m : Mover) : Bool := m.pBurst == 8#4

/-- `addr_of`. -/
def addrOf (base : BitVec 32) (burst : BitVec 4) : BitVec 32 :=
  if burst == 8#4 then base + 1024#32 else base + (0#22 ++ burst.extractLsb' 0 3 ++ 0#7)

/-- `word_lo`: the record's word of the beat's low half. -/
def wordLo (m : Mover) : BitVec 9 :=
  if m.last then 256#9 + (0#7 ++ m.pBeat.extractLsb' 0 1 ++ 0#1)
  else 0#1 ++ m.pBurst.extractLsb' 0 3 ++ m.pBeat ++ 0#1

/-- `last_beat`. -/
def lastBeat (m : Mover) : Bool := if m.last then m.pBeat == 1#4 else m.pBeat == 15#4

/-- `pad_beat`. -/
def padBeat (m : Mover) : Bool := m.last && m.pBeat.getLsbD 0

/-- `take_last`: the beat being taken is the burst's last. -/
def takeLast (m : Mover) : Bool :=
  let idx := if m.hiPending then m.pBeat + 1 else m.pBeat
  if m.last then idx == 1#4 else idx == 15#4

/-- `owed`: something is due on the memory port. -/
def owed (m : Mover) : Bool :=
  !(m.pst == .idle || m.pst == .take || m.pst == .tag) || m.awOn

/-- `m_rready`. -/
def rready (m : Mover) : Bool := m.pst == .r && !m.rbValid

/-- `m_arvalid`. -/
def arvalid (m : Mover) : Bool := m.pst == .ar

/-- `m_wvalid`. -/
def wvalid (m : Mover) : Bool := m.pst == .w5

/-- `m_bready`. -/
def bready (m : Mover) : Bool := m.pst == .b

/-- `m_arlen` and `m_awlen`. -/
def len (m : Mover) : BitVec 4 := if m.last then 1#4 else 15#4

/-- `m_wdata`. -/
def wdata (m : Mover) : BitVec 64 := m.whi ++ m.wlo

/-- `m_wstrb`: the pad is never written. -/
def wstrb (m : Mover) : BitVec 8 := if m.last && m.pBeat.getLsbD 0 then 0x0F#8 else 0xFF#8

/-- What the state decodes for the seam: whether it writes, where and what. -/
def seam (m : Mover) : Bool × BitVec 9 × BitVec 32 :=
  let idle := (false, if m.pst = .w0 then m.wordLo else m.wordLo ||| 1#9, 0#32)
  match m.pst with
  | .take => (true, 259#9, 1#1 ++ 0#31)
  | .r =>
    if m.hiPending then (true, m.wordLo ||| 1#9, m.hiWord)
    else if m.rbValid then (true, m.wordLo, m.rbData.extractLsb' 0 32)
    else idle
  | .tag => (!m.error, 259#9, 0#1 ++ m.pTag)
  | _ => idle

/-- The next burst's number and address. -/
def bump (m : Mover) (x : Mover) : Mover :=
  { x with pBurst := m.pBurst + 1, burstAddr := addrOf m.pBase (m.pBurst + 1) }

/-- `P_R`'s beat arriving, into its register. -/
def beatIn (m : Mover) (i : Input c) (x : Mover) : Mover :=
  if i.mRvalid && m.rready then
    { x with
      rbData := i.mRdata, rbValid := true,
      error := x.error || i.mRresp.getLsbD 1 || i.mRlast != m.takeLast }
  else x

/-- `P_R`'s words going into the store, one a clock. -/
def wordIn (m : Mover) (x : Mover) : Mover :=
  if m.hiPending then
    let x := { x with hiPending := false }
    if m.lastBeat then
      m.bump { x with pst := if m.pDrop then .idle else if m.last then .tag else .ar }
    else { x with pBeat := m.pBeat + 1 }
  else if m.rbValid then
    let x := { x with rbValid := false }
    if m.padBeat then m.bump { x with pst := if m.pDrop then .idle else .tag }
    else { x with hiWord := m.rbData.extractLsb' 32 32, hiPending := true }
  else x

/-- A move accepted. -/
def begin (g : Regs) (x : Mover) : Mover :=
  { x with
    pBase := g.addr, pSlot := g.slot, pTag := g.tag, pBurst := 0,
    burstAddr := addrOf g.addr 0, pBeat := 0, busy := true, done := false, error := false,
    pWrite := g.goQ.getLsbD 1, hiPending := false, rbValid := false,
    pst := if g.goQ.getLsbD 1 then .aw else .take }

/-- A burst's response. -/
def respond (m : Mover) (i : Input c) (x : Mover) : Mover :=
  if i.mBvalid then
    let x := m.bump { x with error := x.error || i.mBresp.getLsbD 1 }
    if m.last then { x with busy := false, done := !m.pDrop, pst := .idle }
    else { x with pst := if m.pDrop then .idle else .aw }
  else x

/-- The state's own clock; `accepted` is a request not refused. -/
def stateStep (accepted : Bool) (g : Regs) (rdata : BitVec 32) (i : Input c) (m : Mover)
    (x : Mover) : Mover :=
  match m.pst with
  | .idle => if accepted then begin g x else x
  | .take =>
    if m.takeOnly then { x with busy := false, done := true, pst := .idle }
    else { x with pst := .ar }
  | .ar => if i.mArready then { x with pBeat := 0, pst := .r } else x
  | .r => m.wordIn (m.beatIn i x)
  | .tag => { x with busy := false, done := true, pst := .idle }
  | .aw => { x with awOn := true, pBeat := 0, pst := .w0 }
  | .w0 => { x with pst := .w1 }
  | .w1 => { x with pst := .w2 }
  | .w2 => { x with pst := .w3 }
  | .w3 => { x with wlo := rdata, pst := .w4 }
  | .w4 => { x with whi := rdata, pst := .w5 }
  | .w5 =>
    if i.mWready then
      if m.lastBeat then { x with pst := .b } else { x with pBeat := m.pBeat + 1, pst := .w0 }
    else x
  | .b => m.respond i x

/-- A drained burst has ended. -/
def drained (m : Mover) (x : Mover) : Mover :=
  if m.pDrop && m.pst == .idle then
    { x with busy := false, done := false, error := false, pDrop := false }
  else x

/-- The fabric's reset: at once when nothing is owed, else at the burst's end. -/
def fabric (m : Mover) (i : Input c) (x : Mover) : Mover :=
  if i.fabricRst then
    let x := { x with done := false, error := false }
    if !m.owed then { x with pst := .idle, busy := false, hiPending := false, rbValid := false }
    else { x with pDrop := true }
  else x

/-- The master's registers at the port's reset. -/
def reset (m : Mover) : Mover :=
  { m with
    awOn := false, pDrop := false, pst := .idle, pWrite := false, pBurst := 0, pBeat := 0,
    pBase := 0, pSlot := 0, pTag := 0, hiPending := false, hiWord := 0, rbValid := false,
    rbData := 0, wlo := 0, whi := 0, busy := false, done := false, error := false,
    burstAddr := 0 }

/-- The write burst's address taken. -/
def addressed (i : Input c) (m : Mover) : Mover :=
  { m with awOn := if m.awOn && i.mAwready then false else m.awOn }

/-- The master's clock. -/
def master (accepted : Bool) (g : Regs) (rdata : BitVec 32) (i : Input c) (m : Mover) : Mover :=
  if i.rst then m.reset
  else m.fabric i (m.drained (m.stateStep accepted g rdata i (m.addressed i)))

/-- The master's clock with `take_only` and the seam's registers. -/
def next (accepted : Bool) (g : Regs) (rdata : BitVec 32) (i : Input c) (m : Mover) : Mover :=
  { m.master accepted g rdata i with
    takeOnly :=
      if i.rst || i.fabricRst then false
      else if m.pst == .idle && accepted then g.goQ.getLsbD 2 else m.takeOnly
    storeWe := if i.rst then false else m.seam.1
    storeSlot := if i.rst then 0 else m.pSlot
    storeAddr := if i.rst then 0 else m.seam.2.1
    storeWdata := if i.rst then 0 else m.seam.2.2 }

end Mover

namespace Regs

/-- `go_any`. -/
def goAny (g : Regs) : Bool := g.goQ.getLsbD 0 || g.goQ.getLsbD 1 || g.goQ.getLsbD 2

/-- `go_one`. -/
def goOne (g : Regs) : Bool :=
  g.goQ.extractLsb' 0 3 == 1#3 || g.goQ.extractLsb' 0 3 == 2#3 || g.goQ.extractLsb' 0 3 == 4#3

/-- `refuse`. -/
def refuse (g : Regs) (busy : Bool) : Bool :=
  g.goAny && (!g.goOne || (g.badAlignQ && !g.goQ.getLsbD 2) || g.badSlotQ || busy || g.badChQ ||
    g.badMemQ)

/-- `go_any && !refuse`. -/
def accepts (g : Regs) (busy : Bool) : Bool := g.goAny && !g.refuse busy

/-- The registers at a reset, the judgements apart. -/
def reset (g : Regs) : Regs :=
  { g with
    addr := 0, tag := 0, slot := 0, drive := 0, refused := false, goQ := 0, chActiveQ := false,
    chWaitingQ := false, chSlotQ := 0, reqValidQ := false, reqTagQ := 0, dirty := 0,
    refBits := 0, irqQ := 0, irqen := 0, irqR := false, busyQ := false }

/-- The walk's side a clock behind, and the request held. -/
def follow (ch : Channel) (busy : Bool) (ctl : BitVec 4) (x : Regs) : Regs :=
  { x with
    chActiveQ := ch.active, chWaitingQ := ch.waiting, chSlotQ := ch.slot,
    reqValidQ := ch.reqValid, reqTagQ := ch.reqTag, busyQ := busy, goQ := ctl }

/-- The cache's bookkeeping of a request: the slot's DIRTY bit falls at the go. -/
def bookGo (g : Regs) (busy : Bool) (x : Regs) : Regs :=
  let x := if g.goAny then { x with refused := g.refuse busy } else x
  if g.accepts busy then
    { x with
      dirty := g.dirty &&& ~~~ bitOf g.slot
      refBits := if g.goQ.getLsbD 0 then g.refBits &&& ~~~ bitOf g.slot else x.refBits }
  else x

/-- REF, IRQ and IRQEN written. -/
def bookWrites (g : Regs) (beat : Option (BitVec 4)) (i : Input c) (x : Regs) : Regs :=
  if beat = some 8#4 then { x with refBits := g.refBits &&& ~~~ merge 0 i.wdata i.wstrb }
  else if beat = some 9#4 then
    { x with irqQ := g.irqQ &&& ~~~ (merge 0 i.wdata i.wstrb).extractLsb' 0 3 }
  else if beat = some 10#4 then
    { x with irqen := (merge (0#29 ++ g.irqen) i.wdata i.wstrb).extractLsb' 0 3 }
  else x

/-- What the walk did: a slot written, a slot taken, a request posted; and a move finished. -/
def bookWalk (ch : Channel) (g : Regs) (busy : Bool) (x : Regs) : Regs :=
  let written := ch.wrote && !(g.dirty &&& bitOf ch.slot != 0#32)
  { x with
    dirty := if ch.wrote then x.dirty ||| bitOf ch.slot else x.dirty
    refBits := if ch.hit then x.refBits ||| bitOf ch.slot else x.refBits
    irqQ := x.irqQ ||| (if written then 2#3 else 0#3) ||| (if ch.reqPost then 1#3 else 0#3) |||
      (if g.busyQ && !busy then 4#3 else 0#3)
    irqR := g.irqQ &&& g.irqen != 0#3 }

/-- A write beat's register. -/
def write (g : Regs) (beat : Option (BitVec 4)) (i : Input c) (x : Regs) : Regs :=
  if beat = some 0#4 then { x with addr := merge g.addr i.wdata i.wstrb }
  else if beat = some 1#4 then
    { x with tag := (merge (0#1 ++ g.tag) i.wdata i.wstrb).extractLsb' 0 31 }
  else if beat = some 2#4 then
    { x with slot := (merge (0#27 ++ g.slot) i.wdata i.wstrb).extractLsb' 0 5 }
  else if beat = some 4#4 then
    { x with drive := (merge (0#7 ++ g.drive) i.wdata i.wstrb).extractLsb' 0 25 }
  else x

/-- The registers' clock; `beat` is the register a write beat lands on. -/
def next (busy : Bool) (beat : Option (BitVec 4)) (ch : Channel) (i : Input c) (g : Regs) :
    Regs :=
  let ctl := if beat = some 3#4 then (merge 0 i.wdata i.wstrb).extractLsb' 0 4 else 0#4
  let x := if i.rst || i.fabricRst then g.reset
    else g.write beat i (bookWalk ch g busy (g.bookWrites beat i (g.bookGo busy
      (follow ch busy ctl g))))
  { x with
    badAlignQ := g.addr.extractLsb' 0 7 != 0#7
    badSlotQ := decide (c.slots ≤ g.slot.toNat)
    badMemQ := !i.portLive
    badChQ := g.chActiveQ && !g.chWaitingQ && g.slot == g.chSlotQ }

end Regs

namespace Port

/-- `w_beat` in the window: the register it lands on. -/
def beat (i : Input c) (p : Port c.idW c.lenW) : Option (BitVec 4) :=
  if i.wvalid && p.wst == .data && p.wIn then some (p.wAt.extractLsb' 2 4) else none

/-- The write channel's clock. -/
def writes (i : Input c) (p : Port c.idW c.lenW) : Port c.idW c.lenW :=
  match p.wst with
  | .addr =>
    if i.awvalid then
      { p with wAt := i.awaddr, wIn := inWindow c i.awaddr, wId := i.awid, wBad := false,
               wst := .data }
    else p
  | .data =>
    if i.wvalid then
      { p with
        wBad := p.wBad || !p.wIn, wAt := p.wAt + 4#32, wIn := inWindow c (p.wAt + 4#32),
        wst := if i.wlast then .resp else .data }
    else p
  | .resp => if i.bready then { p with wst := .addr } else p

/-- The read channel's clock: the window, then the word and the response, then the beat. -/
def reads (word : BitVec 32) (i : Input c) (p : Port c.idW c.lenW) : Port c.idW c.lenW :=
  match p.rst with
  | .addr =>
    if i.arvalid then
      { p with rAt := i.araddr, rId := i.arid, rLeft := i.arlen, rst := .prep }
    else p
  | .prep => { p with rInQ := inWindow c p.rAt, rst := .prep2 }
  | .prep2 => { p with rdataQ := word, rrespQ := if p.rInQ then 0#2 else 2#2, rst := .data }
  | .data =>
    if i.rready then
      let x : Port c.idW c.lenW := { p with rAt := p.rAt + 4#32 }
      if p.rLeft == 0 then { x with rst := .addr } else { x with rLeft := p.rLeft - 1, rst := .prep }
    else p

/-- The face's AXI state at the port's reset. -/
def reset : Port c.idW c.lenW where
  wst := .addr
  rst := .addr
  wAt := 0
  rAt := 0
  wId := 0
  rId := 0
  rLeft := 0
  wBad := false
  wIn := false
  rdataQ := 0
  rrespQ := 0
  rInQ := false

end Port

namespace State

/-- `go_any && !refuse`: a request acted on this clock. -/
def accepts (s : State c) : Bool := s.regs.accepts s.mover.busy

/-- CTL as it reads. -/
def ctlWord (ch : Channel) (s : State c) : BitVec 32 :=
  0#25 ++ BitVec.ofBool s.regs.chWaitingQ ++ BitVec.ofBool ch.miss ++ BitVec.ofBool ch.active ++
    BitVec.ofBool s.regs.refused ++ BitVec.ofBool s.mover.error ++ BitVec.ofBool s.mover.done ++
    BitVec.ofBool s.mover.busy

/-- `r_word`: the word a read returns. -/
def rWord (ch : Channel) (s : State c) : BitVec 32 :=
  if !s.port.rInQ then 0#32
  else match (s.port.rAt.extractLsb' 2 4).toNat with
    | 0 => s.regs.addr
    | 1 => 0#1 ++ s.regs.tag
    | 2 => 0#27 ++ s.regs.slot
    | 3 => s.ctlWord ch
    | 4 => 0#7 ++ s.regs.drive
    | 5 => BitVec.ofBool s.regs.reqValidQ ++ s.regs.reqTagQ
    | 6 => s.regs.dirty
    | 7 => c.ident
    | 8 => s.regs.refBits
    | 9 => 0#29 ++ s.regs.irqQ
    | 10 => 0#29 ++ s.regs.irqen
    | _ => 0#32

/-- The pack side's clock. -/
def next (i : Input c) (ch : Channel) (s : State c) : State c where
  port := if i.rst then .reset else s.port.writes i |>.reads (s.rWord ch) i
  regs := s.regs.next s.mover.busy (s.port.beat i) ch i
  mover := s.mover.next s.accepts s.regs ch.rdata i

end State

end MuirFpga.Packs.DiskPack
