import Mathlib.Data.BitVec

/-!
# Main memory on a 64-bit AXI port

`quux15_axi_master`: line reads of five beats, or two bursts where the line runs past a 4 KiB
boundary, and word writes of one beat or two, in two bursts where the second beat starts a page.
Main memory is packed five bytes a word, the frame buffer's window four. `ID_BITS` is 4, the
in-flight list's slots.
-/

namespace MuirFpga.Quux

/-- The master's parameters: where main memory and the frame buffer are, and the writes' ID mode. -/
structure MasterConfig where
  mainBase : BitVec 32
  displayBase : BitVec 32
  oneWriteId : Bool

/-- The master's read states. -/
inductive MasterRead
  | idle
  | second
  | data
  deriving DecidableEq

/-- The master's registers. -/
structure Master where
  rstate : MasterRead
  secondAddr : BitVec 32
  secondLen : BitVec 8
  beat : BitVec 3
  beats : BitVec 2 → BitVec 64
  rWin : Bool
  contV : Bool
  contAw : Bool
  contAwDone : Bool
  contWDone : Bool
  hdAwDone : Bool
  hdWDone : Bool
  contAddr : BitVec 32
  contData : BitVec 64
  contStrb : BitVec 8
  contId : BitVec 4
  splitQ : BitVec 4 → Bool
  firstBQ : BitVec 4 → Bool
  errQ : BitVec 4 → Bool
  ansPtr : BitVec 4

/-- What the port asks of the master: a line, and the queue's head with its slot. -/
structure MasterReq where
  arReq : Bool
  arLine : BitVec 26
  wReq : Bool
  wBus : BitVec 29
  wWord : BitVec 40
  wId : BitVec 4

/-- What the AXI port brings a clock. -/
structure AxiInput where
  awready : Bool
  wready : Bool
  bid : BitVec 4
  bresp : BitVec 2
  bvalid : Bool
  arready : Bool
  rdata : BitVec 64
  rvalid : Bool

/-- A write address on the channel. -/
structure AwBeat where
  id : BitVec 4
  addr : BitVec 32
  len : BitVec 8

/-- A write beat on the channel. -/
structure WBeat where
  data : BitVec 64
  strb : BitVec 8
  last : Bool

/-- A read address on the channel. -/
structure ArBeat where
  addr : BitVec 32
  len : BitVec 8
  deriving DecidableEq

namespace MasterConfig

/-- `line_byte`. -/
def lineByte (c : MasterConfig) (line : BitVec 26) : BitVec 32 :=
  if line.getLsbD 25 then c.displayBase + (0#2 ++ line.extractLsb' 0 25 ++ 0#5)
  else c.mainBase + (0#1 ++ line ++ 0#5) + (0#3 ++ line ++ 0#3)

/-- `line_split`: the line runs past a 4 KiB boundary. -/
def lineSplit (c : MasterConfig) (line : BitVec 26) : Bool :=
  !line.getLsbD 25 && decide (4056#12 < (c.lineByte line).extractLsb' 0 12)

/-- `first_beats`. -/
def firstBeats (c : MasterConfig) (line : BitVec 26) : BitVec 3 :=
  ((4096#13 - (0#1 ++ (c.lineByte line).extractLsb' 0 12)) >>> 3).extractLsb' 0 3

/-- A line's first burst. -/
def lineAr (c : MasterConfig) (line : BitVec 26) : ArBeat where
  addr := c.lineByte line
  len := if line.getLsbD 25 then 3#8
    else if c.lineSplit line then 0#5 ++ (c.firstBeats line - 1) else 4#8

/-- `wb_byte`. -/
def wordByte (c : MasterConfig) (bus : BitVec 29) : BitVec 32 :=
  if bus.getLsbD 28 then c.displayBase + (0#2 ++ bus.extractLsb' 0 28 ++ 0#2)
  else c.mainBase + (0#1 ++ bus ++ 0#2) + (0#3 ++ bus)

/-- `beat_addr`. -/
def beatAddr (c : MasterConfig) (bus : BitVec 29) : BitVec 32 :=
  (c.wordByte bus).extractLsb' 3 29 ++ 0#3

/-- `off`. -/
def off (c : MasterConfig) (bus : BitVec 29) : BitVec 3 := (c.wordByte bus).extractLsb' 0 3

/-- `two`: the word runs into a second beat. -/
def two (c : MasterConfig) (bus : BitVec 29) : Bool :=
  !bus.getLsbD 28 && decide (4#3 ≤ c.off bus)

/-- `split`: the second beat starts a 4 KiB page. -/
def split (c : MasterConfig) (bus : BitVec 29) : Bool :=
  c.two bus && (c.beatAddr bus).extractLsb' 3 9 == 511#9

/-- `shifted`. -/
def shifted (c : MasterConfig) (bus : BitVec 29) (word : BitVec 40) : BitVec 104 :=
  (0#64 ++ (if bus.getLsbD 28 then 0#8 ++ word.extractLsb' 0 32 else word)) <<<
    (8 * (c.off bus).toNat)

/-- The strobes of both beats. -/
def strobes (c : MasterConfig) (bus : BitVec 29) : BitVec 16 :=
  (0#8 ++ (if bus.getLsbD 28 then 0x0F#8 else 0x1F#8)) <<< (c.off bus).toNat

/-- The ID a write carries. -/
def writeId (c : MasterConfig) (slot : BitVec 4) : BitVec 4 := if c.oneWriteId then 0#4 else slot

/-- A word's first burst. -/
def firstAw (c : MasterConfig) (bus : BitVec 29) (slot : BitVec 4) : AwBeat where
  id := c.writeId slot
  addr := c.beatAddr bus
  len := if c.two bus && !c.split bus then 1#8 else 0#8

/-- A word's first beat. -/
def firstW (c : MasterConfig) (bus : BitVec 29) (word : BitVec 40) : WBeat where
  data := (c.shifted bus word).extractLsb' 0 64
  strb := (c.strobes bus).extractLsb' 0 8
  last := !(c.two bus && !c.split bus)

end MasterConfig

namespace Master

/-- The read address on the channel, when one is. -/
def ar (c : MasterConfig) (r : MasterReq) (m : Master) : Option ArBeat :=
  match m.rstate with
  | .idle => if r.arReq then some (c.lineAr r.arLine) else none
  | .second => some ⟨m.secondAddr, m.secondLen⟩
  | .data => none

/-- `ar_taken`. -/
def arTaken (r : MasterReq) (i : AxiInput) (m : Master) : Bool :=
  m.rstate == .idle && r.arReq && i.arready

/-- The line's last beat. -/
def lastBeat (m : Master) : BitVec 3 := if m.rWin then 3#3 else 4#3

/-- `rd_last`. -/
def rdLast (i : AxiInput) (m : Master) : Bool :=
  m.rstate != .idle && i.rvalid && m.beat == m.lastBeat

/-- A word of the window's line: the field with a fixnum's tag. -/
def winWord (i : AxiInput) (m : Master) (k : Nat) : BitVec 40 :=
  let b := if k / 2 = 3 then i.rdata else m.beats (BitVec.ofNat 2 (k / 2))
  5#8 ++ (if k % 2 = 1 then b.extractLsb' 32 32 else b.extractLsb' 0 32)

/-- `rd_data`. -/
def rdData (i : AxiInput) (m : Master) : BitVec 320 :=
  if m.rWin then
    m.winWord i 7 ++ m.winWord i 6 ++ m.winWord i 5 ++ m.winWord i 4 ++ m.winWord i 3 ++
      m.winWord i 2 ++ m.winWord i 1 ++ m.winWord i 0
  else i.rdata ++ m.beats 3 ++ m.beats 2 ++ m.beats 1 ++ m.beats 0

/-- The reads' clock. -/
def readNext (c : MasterConfig) (r : MasterReq) (i : AxiInput) (m : Master) : Master :=
  let x := match m.rstate with
    | .idle =>
      if m.arTaken r i then
        { m with
          rstate := if c.lineSplit r.arLine then .second else .data
          secondAddr := ((c.lineByte r.arLine).extractLsb' 12 20 + 1) ++ 0#12
          secondLen := 0#5 ++ (4#3 - c.firstBeats r.arLine)
          beat := 0, rWin := r.arLine.getLsbD 25 }
      else m
    | .second => if i.arready then { m with rstate := .data } else m
    | .data => m
  if m.rstate != .idle && i.rvalid then
    { x with
      beats := if m.beat < 4#3 then Function.update m.beats (m.beat.extractLsb' 0 2) i.rdata
        else m.beats
      beat := m.beat + 1
      rstate := if m.beat == m.lastBeat then .idle else x.rstate }
  else x

/-- The write address on the channel, when one is. -/
def aw (c : MasterConfig) (r : MasterReq) (m : Master) : Option AwBeat :=
  if m.contV then
    if m.contAw && !m.contAwDone then some ⟨c.writeId m.contId, m.contAddr, 0⟩ else none
  else if r.wReq && !m.hdAwDone then some (c.firstAw r.wBus r.wId) else none

/-- The write beat on the channel, when one is. -/
def w (c : MasterConfig) (r : MasterReq) (m : Master) : Option WBeat :=
  if m.contV then
    if !m.contWDone then some ⟨m.contData, m.contStrb, true⟩ else none
  else if r.wReq && !m.hdWDone then some (c.firstW r.wBus r.wWord) else none

/-- The address is taken this clock. -/
def awTaken (c : MasterConfig) (r : MasterReq) (i : AxiInput) (m : Master) : Bool :=
  (m.aw c r).isSome && i.awready

/-- The beat is taken this clock. -/
def wBeatTaken (c : MasterConfig) (r : MasterReq) (i : AxiInput) (m : Master) : Bool :=
  (m.w c r).isSome && i.wready

/-- `w_taken`: the address and the first beat both taken, each once. -/
def wTaken (c : MasterConfig) (r : MasterReq) (i : AxiInput) (m : Master) : Bool :=
  !m.contV && r.wReq && (m.hdAwDone || m.awTaken c r i) && (m.hdWDone || m.wBeatTaken c r i)

/-- `b_slot`: its ID's slot, or with one ID the oldest unanswered. -/
def bSlot (c : MasterConfig) (i : AxiInput) (m : Master) : BitVec 4 :=
  if c.oneWriteId then m.ansPtr else i.bid

/-- The first B of a split write. -/
def firstB (c : MasterConfig) (i : AxiInput) (m : Master) : Bool :=
  m.splitQ (m.bSlot c i) && !m.firstBQ (m.bSlot c i)

/-- `b_done`. -/
def bDone (c : MasterConfig) (i : AxiInput) (m : Master) : Bool := i.bvalid && !m.firstB c i

/-- `b_err`. -/
def bErr (c : MasterConfig) (i : AxiInput) (m : Master) : Bool :=
  i.bresp.getLsbD 1 || m.errQ (m.bSlot c i)

/-- The write offered: what of it is taken, until it is accepted. -/
def offer (c : MasterConfig) (r : MasterReq) (i : AxiInput) (m : Master) (x : Master) : Master :=
  if m.wTaken c r i then { x with hdAwDone := false, hdWDone := false }
  else if !m.contV && r.wReq then
    { x with
      hdAwDone := m.hdAwDone || m.awTaken c r i
      hdWDone := m.hdWDone || m.wBeatTaken c r i }
  else x

/-- The continuation begun by an accept, or gone on. -/
def continuation (c : MasterConfig) (r : MasterReq) (i : AxiInput) (m : Master) (x : Master) :
    Master :=
  if m.wTaken c r i then
    { x with
      contV := c.two r.wBus, contAw := c.split r.wBus, contAwDone := false, contWDone := false
      contAddr := c.beatAddr r.wBus + 8#32
      contData := 0#24 ++ (c.shifted r.wBus r.wWord).extractLsb' 64 40
      contStrb := (c.strobes r.wBus).extractLsb' 8 8
      contId := r.wId
      splitQ := Function.update m.splitQ r.wId (c.split r.wBus)
      firstBQ := Function.update m.firstBQ r.wId false
      errQ := Function.update m.errQ r.wId false }
  else if m.contV then
    { x with
      contAwDone := m.contAwDone || m.awTaken c r i
      contWDone := m.contWDone || m.wBeatTaken c r i
      contV := !((!m.contAw || m.contAwDone || m.awTaken c r i) &&
        (m.contWDone || m.wBeatTaken c r i)) }
  else x

/-- The answers. -/
def answer (c : MasterConfig) (i : AxiInput) (m : Master) (x : Master) : Master :=
  let x := if m.bDone c i then { x with ansPtr := m.ansPtr + 1 } else x
  if i.bvalid && m.firstB c i then
    { x with
      firstBQ := Function.update x.firstBQ (m.bSlot c i) true
      errQ := Function.update x.errQ (m.bSlot c i) (i.bresp.getLsbD 1) }
  else x

/-- The writes' clock. -/
def writeNext (c : MasterConfig) (r : MasterReq) (i : AxiInput) (m : Master) (x : Master) :
    Master :=
  m.answer c i (m.continuation c r i (m.offer c r i x))

/-- The registers at `rst`. -/
def reset (m : Master) : Master :=
  { m with
    rstate := .idle, beat := 0, contV := false, hdAwDone := false, hdWDone := false, ansPtr := 0
    splitQ := fun _ => false, firstBQ := fun _ => false, errQ := fun _ => false }

/-- The master's clock. -/
def next (rst : Bool) (c : MasterConfig) (r : MasterReq) (i : AxiInput) (m : Master) : Master :=
  if rst then m.reset else m.writeNext c r i (m.readNext c r i)

end Master

end MuirFpga.Quux
