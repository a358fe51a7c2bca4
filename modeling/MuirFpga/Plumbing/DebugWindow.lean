import Mathlib.Data.BitVec

/-!
# The debug cable's window and the debuggee's end

`cadr_debug_window`: sixteen words on the processor's port, a request a store, the levels it puts
on the cable, the lead before `-DEBUG IN REQ`, the answer latched at the acknowledgment and the
watchdog; and `cadr_dbgin`, the machine at the cable's other end: the strobes, the latches clocked
at their trailing edge and the debug master's cycle.
-/

namespace MuirFpga.Plumbing

/-- The window's parameters. -/
structure WindowConfig where
  regBase : BitVec 32
  ident : BitVec 32
  liftKey : BitVec 32
  leadT : Nat
  watchdogT : Nat
  idW : Nat
  lenW : Nat
  leads : 0 < leadT

/-- The window's `wstate_e`. -/
inductive WindowWrite
  | addr
  | data
  | resp
  deriving DecidableEq

/-- The window's `rstate_e`. -/
inductive WindowRead
  | addr
  | prep
  | prep2
  | data

/-- The cable's own state: the request standing and the levels on the cable, the lead, the dead
man and the answer. -/
structure WindowRegs where
  standing : Bool
  seq : BitVec 4
  count : BitVec 16
  faults : BitVec 3
  leading : Bool
  leadT : Nat
  dogT : Nat
  stsAck : Bool
  stsDrv : Bool
  stsDbd : BitVec 16
  dbgInReq : Bool
  dbgInWr : Bool
  dbgInA : BitVec 2
  dbdOut : BitVec 16

/-- The port's two state machines and what each carries. -/
structure WindowPort (c : WindowConfig) where
  wst : WindowWrite
  rstt : WindowRead
  wAt : BitVec 32
  rAt : BitVec 32
  wId : BitVec c.idW
  rId : BitVec c.idW
  rLeft : BitVec c.lenW
  rInQ : Bool
  rIdxQ : BitVec 4
  rdataQ : BitVec 32
  wLastQ : Bool

/-- The window. -/
structure DebugWindow (c : WindowConfig) where
  regs : WindowRegs
  port : WindowPort c

/-- What the far end of the cable puts on it. -/
structure FarEnd where
  ack : Bool
  dbd : BitVec 16
  oe : BitVec 2

/-- What a tick brings the window: the two resets and the processor's side of the port. -/
structure WindowInput (c : WindowConfig) where
  rst : Bool
  fabricRst : Bool
  awaddr : BitVec 32
  awid : BitVec c.idW
  awvalid : Bool
  wdata : BitVec 32
  wstrb : BitVec 4
  wlast : Bool
  wvalid : Bool
  bready : Bool
  araddr : BitVec 32
  arlen : BitVec c.lenW
  arid : BitVec c.idW
  arvalid : Bool
  rready : Bool

namespace DebugWindow

variable {c : WindowConfig}

/-- `in_window`. -/
def inWindow (c : WindowConfig) (place : BitVec 32) : Bool :=
  place.extractLsb' 6 26 == c.regBase.extractLsb' 6 26

/-- `w_beat`. -/
def wBeat (i : WindowInput c) (w : DebugWindow c) : Bool := i.wvalid && w.port.wst == .data

/-- `w_beat && w_in && w_whole` on one of the window's words. -/
def stores (i : WindowInput c) (idx : BitVec 4) (w : DebugWindow c) : Bool :=
  w.wBeat i && inWindow c w.port.wAt && i.wstrb == 15#4 && w.port.wAt.extractLsb' 2 4 == idx

/-- `ctl_store`. -/
def ctlStore (i : WindowInput c) (w : DebugWindow c) : Bool := w.stores i 1#4

/-- `clear_store`. -/
def clearStore (i : WindowInput c) (w : DebugWindow c) : Bool :=
  w.stores i 3#4 && i.wdata == c.liftKey

/-- `dog_fires`. -/
def dogFires (w : DebugWindow c) : Bool := w.regs.standing && w.regs.dogT == 0

/-- `lifting`. -/
def lifting (i : WindowInput c) (w : DebugWindow c) : Bool :=
  w.regs.standing && ((w.ctlStore i && !i.wdata.getLsbD 0) || w.clearStore i || w.dogFires)

/-- A request is taken: a store to CTL with bit 0, none standing. -/
def takes (i : WindowInput c) (w : DebugWindow c) : Bool :=
  w.ctlStore i && i.wdata.getLsbD 0 && !w.regs.standing

/-- `dbd_seen`: an undriven byte reads ones. -/
def dbdSeen (f : FarEnd) : BitVec 16 :=
  (if f.oe.getLsbD 1 then f.dbd.extractLsb' 8 8 else 0xFF#8) ++
    (if f.oe.getLsbD 0 then f.dbd.extractLsb' 0 8 else 0xFF#8)

/-- CTL as it reads. -/
def ctlWord (r : WindowRegs) : BitVec 32 :=
  r.dbdOut ++ 0#4 ++ r.seq ++ 0#4 ++ r.dbgInA ++ BitVec.ofBool r.dbgInWr ++
    BitVec.ofBool r.standing

/-- STS as it reads. -/
def stsWord (r : WindowRegs) : BitVec 32 :=
  r.stsDbd ++ 1#2 ++ 0#2 ++ r.seq ++ 0#4 ++ BitVec.ofBool r.stsDrv ++ 0#1 ++
    BitVec.ofBool r.stsAck ++ BitVec.ofBool r.standing

/-- `r_word`. -/
def rWord (w : DebugWindow c) : BitVec 32 :=
  if !w.port.rInQ then ~~~c.ident
  else match w.port.rIdxQ.toNat with
    | 0 => c.ident
    | 1 => ctlWord w.regs
    | 2 => stsWord w.regs
    | 3 => c.liftKey.extractLsb' 16 16 ++ 1#2 ++ 0#13 ++ BitVec.ofBool w.regs.standing
    | 4 => w.regs.count ++ 1#2 ++ 0#11 ++ w.regs.faults
    | _ => ~~~c.ident

namespace Regs

/-- The registers at a reset. -/
def reset : WindowRegs where
  standing := false
  seq := 0
  count := 0
  faults := 0
  leading := false
  leadT := 0
  dogT := 0
  stsAck := false
  stsDrv := false
  stsDbd := 0
  dbgInReq := false
  dbgInWr := false
  dbgInA := 0
  dbdOut := 0

/-- The lead counting down, and the dead man. -/
def counts (r : WindowRegs) : WindowRegs :=
  { r with
    leading := r.leading && r.leadT != 0
    dbgInReq := r.dbgInReq || (r.leading && r.leadT == 0)
    leadT := if r.leading then r.leadT - 1 else r.leadT
    dogT := if r.standing then r.dogT - 1 else r.dogT }

/-- The answer, at the first tick of the acknowledgment. -/
def answers (f : FarEnd) (r x : WindowRegs) : WindowRegs :=
  if r.dbgInReq && f.ack && !r.stsAck then
    { x with stsAck := true, stsDrv := f.oe != 0#2, stsDbd := dbdSeen f }
  else x

/-- The lift. -/
def lifts (lifting dogFires : Bool) (x : WindowRegs) : WindowRegs :=
  if lifting then
    { x with
      standing := false, dbgInReq := false, leading := false,
      faults := if dogFires then x.faults ||| 1#3 else x.faults }
  else x

/-- A store to CTL: a request taken, or one too many, or a lift with nothing standing. -/
def controls (c : WindowConfig) (word : BitVec 32) (r x : WindowRegs) : WindowRegs :=
  if word.getLsbD 0 then
    if r.standing then { x with faults := x.faults ||| 2#3 }
    else
      { x with
        standing := true, seq := word.extractLsb' 8 4, dbdOut := word.extractLsb' 16 16,
        dbgInA := word.extractLsb' 2 2, dbgInWr := word.getLsbD 1, leading := true,
        leadT := c.leadT - 1, dogT := c.watchdogT, stsAck := false, stsDrv := false, stsDbd := 0,
        count := if r.count = 0xFFFF#16 then x.count else r.count + 1 }
  else if !r.standing then { x with faults := x.faults ||| 4#3 }
  else x

/-- The key. -/
def clears (x : WindowRegs) : WindowRegs :=
  { x with seq := 0, count := 0, faults := 0, stsAck := false, stsDrv := false, stsDbd := 0 }

end Regs

/-- The registers' tick. -/
def regsNext (i : WindowInput c) (f : FarEnd) (w : DebugWindow c) : WindowRegs :=
  if i.rst || i.fabricRst then Regs.reset
  else
    let x := Regs.lifts (w.lifting i) w.dogFires (Regs.answers f w.regs (Regs.counts w.regs))
    let x := if w.ctlStore i then Regs.controls c i.wdata w.regs x else x
    if w.clearStore i then Regs.clears x else x

/-- The write channel's tick. -/
def writes (i : WindowInput c) (p : WindowPort c) : WindowPort c :=
  match p.wst with
  | .addr => if i.awvalid then { p with wAt := i.awaddr, wId := i.awid, wst := .data } else p
  | .data =>
    if i.wvalid then
      { p with
        wAt := p.wAt + 4#32, wLastQ := i.wlast, wst := if i.wlast then .resp else .data }
    else p
  | .resp => if i.bready then { p with wLastQ := false, wst := .addr } else p

/-- The read channel's tick: the window and the index, the word, the beat. -/
def reads (word : BitVec 32) (i : WindowInput c) (p : WindowPort c) : WindowPort c :=
  match p.rstt with
  | .addr =>
    if i.arvalid then { p with rAt := i.araddr, rId := i.arid, rLeft := i.arlen, rstt := .prep }
    else p
  | .prep =>
    { p with rInQ := inWindow c p.rAt, rIdxQ := p.rAt.extractLsb' 2 4, rstt := .prep2 }
  | .prep2 => { p with rdataQ := word, rstt := .data }
  | .data =>
    if i.rready then
      if p.rLeft == 0 then { p with rstt := .addr }
      else { p with rAt := p.rAt + 4#32, rLeft := p.rLeft - 1, rstt := .prep }
    else p

/-- The port at its own reset. -/
def portReset : WindowPort c where
  wst := .addr
  rstt := .addr
  wAt := 0
  rAt := 0
  wId := 0
  rId := 0
  rLeft := 0
  rInQ := false
  rIdxQ := 0
  rdataQ := 0
  wLastQ := false

/-- The window's tick. -/
def next (i : WindowInput c) (f : FarEnd) (w : DebugWindow c) : DebugWindow c where
  regs := w.regsNext i f
  port := if i.rst then portReset else writes i (reads w.rWord i w.port)

end DebugWindow

/-- The debuggee's parameters. -/
structure DbginConfig where
  msynT : Nat
  releaseT : Nat
  msyn : 2 ≤ msynT
  release : 1 ≤ releaseT

/-- `cstate_e`. -/
inductive CycleState
  | idle
  | needub
  | msyn
  | xfer
  | rel
  deriving DecidableEq

/-- `cadr_dbgin`'s registers. -/
structure Dbgin where
  reqQ : Bool
  modifier : BitVec 3
  address : BitVec 16
  cst : CycleState
  waitT : Nat
  acked : Bool

/-- The levels the carrier presents the debuggee. -/
structure CableLines where
  req : Bool
  wr : Bool
  a : BitVec 2
  dbd : BitVec 16

/-- What a tick brings the debuggee besides the cable: its reset, the error status and its
Unibus. -/
structure DbginInput where
  rst : Bool
  errStatus : BitVec 8
  dbgGnt : Bool
  ubSsyn : Bool
  ubRdata : BitVec 16

namespace Dbgin

/-- A strobe of the 74S139, decoded while the request is down. -/
def strobe (a : BitVec 2) (l : CableLines) : Bool := l.req && l.a == a

/-- `strobe_cycle`. -/
def strobeCycle (l : CableLines) : Bool := strobe 0#2 l

/-- `strobe_status`. -/
def strobeStatus (l : CableLines) : Bool := strobe 1#2 l

/-- `strobe_modifier`. -/
def strobeModifier (l : CableLines) : Bool := strobe 2#2 l

/-- `strobe_address`. -/
def strobeAddress (l : CableLines) : Bool := strobe 3#2 l

/-- `lift`: the request's trailing edge. -/
def lift (l : CableLines) (g : Dbgin) : Bool := g.reqQ && !l.req

/-- `ub_msyn`. -/
def ubMsyn (g : Dbgin) : Bool := g.cst == .xfer

/-- What the debuggee puts on the cable. -/
def answer (l : CableLines) (i : DbginInput) (g : Dbgin) : FarEnd where
  ack := strobeStatus l || strobeModifier l || strobeAddress l || (strobeCycle l && g.acked)
  dbd :=
    if strobeStatus l then 0#8 ++ i.errStatus
    else if strobeCycle l && g.acked && !l.wr then i.ubRdata else 0#16
  oe :=
    if strobeStatus l then 1#2
    else if strobeCycle l && g.acked && !l.wr then 3#2 else 0#2

/-- The cycle engine's tick. -/
def cycleNext (d : DbginConfig) (l : CableLines) (i : DbginInput) (g : Dbgin) : Dbgin :=
  match g.cst with
  | .idle => { g with acked := false, cst := if strobeCycle l then .needub else .idle }
  | .needub =>
    if !l.req then { g with cst := .idle }
    else if i.dbgGnt then { g with cst := .msyn, waitT := d.msynT - 2 }
    else g
  | .msyn =>
    if !l.req then { g with cst := .rel, waitT := d.releaseT - 1 }
    else if g.waitT == 0 then { g with cst := .xfer }
    else { g with waitT := g.waitT - 1 }
  | .xfer =>
    let x := { g with acked := g.acked || i.ubSsyn }
    if !l.req then { x with cst := .rel, waitT := d.releaseT - 1 } else x
  | .rel =>
    if g.waitT == 0 then { g with acked := false, cst := .idle }
    else { g with acked := false, waitT := g.waitT - 1 }

/-- The debuggee at its reset. -/
def reset : Dbgin where
  reqQ := false
  modifier := 0
  address := 0
  cst := .idle
  waitT := 0
  acked := false

/-- The debuggee's tick: the latches take the lines as they stand at the lift. -/
def next (d : DbginConfig) (l : CableLines) (i : DbginInput) (g : Dbgin) : Dbgin :=
  if i.rst then reset
  else
    { cycleNext d l i g with
      reqQ := l.req
      address := if g.lift l && l.a == 3#2 then l.dbd else g.address
      modifier := if g.lift l && l.a == 2#2 then l.dbd.extractLsb' 0 3 else g.modifier }

end Dbgin
end MuirFpga.Plumbing
