import Mathlib.Data.BitVec

/-!
# Memory management

`quux15_mmu`: the windows' decode and their fixed entries, the TLB with its two lookups, the walk of the
page tables, the write-back of the accessed, modified and ephemeral bits, the `WRITE-MAP` operations,
the sweep's count and the words 220 to 224. The TLB's words are in two RAMs that take the same writes:
one store with two output registers here. The writes the RAMs have not taken are a list of at most four.
-/

namespace MuirFpga.Quux

/-- Where an address is. -/
inductive Region
  | paged
  | device
  | amemory
  | physical
  deriving DecidableEq

/-- The steps of a walk and of a write-back. -/
inductive WalkStep
  | idle
  | dir
  | page
  deriving DecidableEq

namespace Mmu

def rwStatus4 : BitVec 30 := BitVec.ofNat 30 ((0b11 <<< 28) ||| (0o1460 <<< 18))
def aMemoryWindowEntry : BitVec 30 := BitVec.ofNat 30 ((0b11 <<< 28) ||| (0o760 <<< 18))
def noEntry : BitVec 30 := BitVec.ofNat 30 (0o60 <<< 18)
def aMemoryWindow : BitVec 32 := BitVec.ofNat 32 0o35700000000
def accessedBit : BitVec 30 := BitVec.ofNat 30 (1 <<< 28)
def modifiedBit : BitVec 30 := BitVec.ofNat 30 (1 <<< 29)
def ephemeralBit : BitVec 30 := BitVec.ofNat 30 (1 <<< 19)

def region (va : BitVec 32) : Region :=
  if va.extractLsb' 29 3 ≠ 0b111#3 then .paged
  else if va.getLsbD 28 then .physical
  else if va.extractLsb' 10 22 ++ 0#10 = aMemoryWindow then .amemory
  else .device

def fixedEntry (va : BitVec 32) : BitVec 30 :=
  match region va with
  | .physical => rwStatus4 ||| (0#12 ++ va.extractLsb' 10 18)
  | .amemory => aMemoryWindowEntry
  | _ => rwStatus4

def status (e : BitVec 40) : BitVec 3 := e.extractLsb' 24 3
def idx (va : BitVec 32) : BitVec 12 := va.extractLsb' 10 12

/-- The part of an address an entry is told by. -/
def tag (va : BitVec 32) : BitVec 10 := va.extractLsb' 22 10

end Mmu

/-- A write of the TLB: the entry, its word and its valid bit. -/
structure TlbWrite where
  idx : BitVec 12
  data : BitVec 40
  bit : Bool

/-- `quux15_validmap` at 4,096 entries: a bit an entry, in columns of 64 groups, and a bit a group. -/
structure ValidMap where
  gv : BitVec 6 → Bool
  col : BitVec 12 → Bool

namespace ValidMap

variable (v : ValidMap)

def group (addr : BitVec 12) : BitVec 6 := addr.extractLsb' 6 6

def rbit (raddr : BitVec 12) : Bool := v.gv (group raddr) && v.col raddr

/-- One clock: a group written for the first time after a clear is rewritten whole. -/
def next (rst clear we : Bool) (waddr : BitVec 12) (wbit : Bool) : ValidMap where
  gv :=
    if rst then fun _ => false
    else
      let held := if clear then fun _ => false else v.gv
      if we then Function.update held (group waddr) true else held
  col addr :=
    let whole := clear || !v.gv (group waddr)
    if we && group addr == group waddr && (whole || addr == waddr) then
      if addr = waddr then wbit else false
    else v.col addr

end ValidMap

/-- The TLB's store: the RAMs' words and output registers with the indices they were read at, the valid
bits, the writes the RAMs have not taken, oldest first, and the one they took at the last edge. -/
structure Tlb where
  mem : BitVec 12 → BitVec 40
  raQ : BitVec 40
  rbQ : BitVec 40
  aIdxQ : BitVec 12
  bIdxQ : BitVec 12
  valid : ValidMap
  fq : List TlbWrite
  hist : Option TlbWrite

namespace Tlb

variable (t : Tlb)

/-- The RAM's word at a lookup's address, the newest write forwarded. -/
def word (q : BitVec 40) (place : BitVec 12) : BitVec 40 :=
  let taken := match t.hist with
    | some w => if w.idx = place then w.data else q
    | none => q
  t.fq.foldl (fun r w => if w.idx = place then w.data else r) taken

/-- An entry's valid bit: a write not yet taken's, or the RAM's. -/
def validBit (place : BitVec 12) : Bool :=
  t.fq.foldl (fun r w => if w.idx = place then w.bit else r) (t.valid.rbit place)

/-- The RAMs' write this clock: the oldest queued, or this clock's first; none under an empty. -/
def taken (writes : List TlbWrite) (empty : Bool) : Option TlbWrite :=
  if empty then none else (t.fq ++ writes).head?

/-- The queue after a clock: what is left of it when the oldest is taken, and this clock's writes, as
far as the four places go; an empty drops them. -/
def queued (writes : List TlbWrite) (empty : Bool) : List TlbWrite :=
  if empty then []
  else
    let entered := (t.fq.tail ++ writes).take 4
    if t.fq.isEmpty then entered.tail else entered

/-- One clock, given its writes in order, an empty, the console's reset and the indices of the next
lookups. In reset the indices stay, and the RAMs go on. -/
def next (rst conReset : Bool) (writes : List TlbWrite) (empty : Bool) (aNext bNext : BitVec 12) :
    Tlb where
  mem := match t.taken writes empty with
    | some w => Function.update t.mem w.idx w.data
    | none => t.mem
  raQ := t.mem aNext
  rbQ := t.mem bNext
  aIdxQ := if rst then t.aIdxQ else aNext
  bIdxQ := if rst then t.bIdxQ else bNext
  valid := match t.taken writes empty with
    | some w => t.valid.next rst (empty || conReset) (!conReset) w.idx w.bit
    | none => t.valid.next rst (empty || conReset) false 0#12 false
  fq := if rst || conReset then [] else t.queued writes empty
  hist := if rst || conReset then none else t.taken writes empty

end Tlb

/-- What a clock brings: the lookups' addresses for the next clock, WB's start and its write-back, EX's
word, the `WRITE-MAP` operation, the table read's word, and a register write. -/
structure MmuInput where
  rst : Bool
  conReset : Bool
  aNextVa : BitVec 32
  bNextVa : BitVec 32
  aReq : Bool
  aVa : BitVec 32
  kReq : Bool
  kVa : BitVec 32
  kEntry : BitVec 30
  kWrite : Bool
  kMd : BitVec 40
  postOk : Bool
  bReq : Bool
  bVa : BitVec 32
  bWalked : Bool
  opV : Bool
  opVma : BitVec 40
  opMd : BitVec 40
  tReady : Bool
  tWord : BitVec 40
  rwV : Bool
  rwK : BitVec 8
  rwData : BitVec 32

/-- One call of the walk: the state it leaves, whether it answers, its fill, and a table read begun. -/
structure WalkCall where
  state : WalkStep
  va : BitVec 32
  done : Bool
  fill : Bool
  entry : BitVec 30
  tstart : Bool
  taddr : BitVec 29
  took : Bool

namespace WalkCall

/-- No call: the walk as it stands. -/
def stay (state : WalkStep) (va : BitVec 32) : WalkCall :=
  ⟨state, va, false, false, 0#30, false, 0#29, false⟩

/-- The walk's step, whoever calls it. -/
def advance (frames : BitVec 18) (st : WalkStep) (va : BitVec 32) (ready : Bool) (word : BitVec 40)
    (base : BitVec 18) : WalkCall :=
  match st with
  | .idle =>
    if base = 0#18 then { stay .idle va with done := true }
    else
      { stay .dir va with
        tstart := true
        taddr := 0#1 ++ base.extractLsb' 2 16 ++ va.extractLsb' 20 12 }
  | .dir =>
    if ready then
      if Mmu.status word ≠ 4#3 ∨ frames ≤ word.extractLsb' 0 18 then
        { stay .idle va with took := true, done := true }
      else
        { stay .page va with
          took := true
          tstart := true
          taddr := 0#1 ++ word.extractLsb' 0 18 ++ va.extractLsb' 10 10 }
    else stay .dir va
  | .page =>
    if ready then
      { stay .idle va with
        took := true
        done := true
        fill :=
          if Mmu.status word = 0#3 ∨ Mmu.status word = 7#3 then false
          else if Mmu.status word = 1#3 then true
          else decide (word.extractLsb' 0 18 < frames)
        entry := word.extractLsb' 0 30 }
    else stay .page va

/-- A call for an address: the walk keeps the one it began with, and answers no other's. -/
def call (frames : BitVec 18) (st : WalkStep) (wva va : BitVec 32) (ready : Bool) (word : BitVec 40)
    (base : BitVec 18) : WalkCall :=
  let own := if st = .idle then va else wva
  let r := advance frames st own ready word base
  { r with done := r.done && own == va }

end WalkCall

/-- The write-back's step. -/
structure BackCall where
  hold : Bool
  refused : Bool
  or : Bool
  bits : BitVec 30
  state : WalkStep
  page : BitVec 29
  wordV : Bool
  word : BitVec 40
  tstart : Bool
  taddr : BitVec 29
  postReq : Bool
  postBus : BitVec 29
  postWord : BitVec 40

/-- The registers. -/
structure Mmu where
  tlb : Tlb
  wState : WalkStep
  wVa : BitVec 32
  wOwnerA : Bool
  kState : WalkStep
  kBits : BitVec 30
  kPage : BitVec 29
  kWordV : Bool
  kWord : BitVec 40
  sweepLeft : BitVec 13
  directory : BitVec 18
  ephemeral : Bool
  pointerTypes : BitVec 64
  refused : BitVec 32

namespace Mmu

variable (frames : BitVec 18) (m : Mmu) (i : MmuInput)

/-- Port A's lookup. -/
def aWord : BitVec 40 := m.tlb.word m.tlb.raQ m.tlb.aIdxQ
def aHit : Bool := m.tlb.validBit m.tlb.aIdxQ && m.aWord.extractLsb' 30 10 == tag i.aVa
def aHitEntry : BitVec 30 := m.aWord.extractLsb' 0 30

/-- Port A's walk, on a miss of a paged address. -/
def aLook : Bool := i.aReq && region i.aVa == .paged
def wa : WalkCall :=
  if aLook i && !m.aHit i then
    WalkCall.call frames m.wState m.wVa i.aVa i.tReady i.tWord m.directory
  else WalkCall.stay m.wState m.wVa
def aHold : Bool := aLook i && !m.aHit i && !(m.wa frames i).done
def awFill : Bool := aLook i && !m.aHit i && (m.wa frames i).done && (m.wa frames i).fill
def aEntry : BitVec 30 :=
  if aLook i then
    if m.aHit i then m.aHitEntry
    else if !(m.wa frames i).done then fixedEntry i.aVa
    else if (m.wa frames i).fill then (m.wa frames i).entry
    else noEntry
  else fixedEntry i.aVa

/-- The bits an access needs and its entry lacks. -/
def needed : BitVec 30 :=
  let eph := m.ephemeral && m.pointerTypes.getLsbD (i.kMd.extractLsb' 32 6).toNat &&
    i.kMd.extractLsb' 28 4 == 0b1101#4
  (accessedBit &&& ~~~ i.kEntry) |||
    if i.kWrite then
      (modifiedBit &&& ~~~ i.kEntry) ||| if eph then ephemeralBit &&& ~~~ i.kEntry else 0#30
    else 0#30

/-- The write-back when nothing is asked of it. -/
def backStay : BackCall where
  hold := false
  refused := false
  or := false
  bits := m.kBits
  state := m.kState
  page := m.kPage
  wordV := m.kWordV
  word := m.kWord
  tstart := false
  taddr := 0#29
  postReq := false
  postBus := m.kPage
  postWord := 0#40

/-- The write-back: the directory's word, the page's, and the page's word posted with the bits. -/
def back : BackCall :=
  if !(i.kReq && region i.kVa == .paged) then m.backStay
  else
    match m.kState with
    | .idle =>
      if m.needed i = 0#30 then { m.backStay with bits := m.needed i }
      else if m.directory = 0#18 then
        { m.backStay with bits := m.needed i, or := true, refused := true }
      else
        { m.backStay with
          bits := m.needed i
          or := true
          state := .dir
          tstart := true
          taddr := 0#1 ++ m.directory.extractLsb' 2 16 ++ i.kVa.extractLsb' 20 12
          hold := true }
    | .dir =>
      if !i.tReady || (m.wa frames i).took then { m.backStay with hold := true }
      else if status i.tWord ≠ 4#3 ∨ frames ≤ i.tWord.extractLsb' 0 18 then
        { m.backStay with state := .idle, refused := true }
      else
        { m.backStay with
          page := 0#1 ++ i.tWord.extractLsb' 0 18 ++ i.kVa.extractLsb' 10 10
          state := .page
          tstart := true
          taddr := 0#1 ++ i.tWord.extractLsb' 0 18 ++ i.kVa.extractLsb' 10 10
          hold := true }
    | .page =>
      let page := if m.kWordV then m.kWord else i.tWord
      if !(m.kWordV || (i.tReady && !(m.wa frames i).took)) then { m.backStay with hold := true }
      else if ¬ (2#3 ≤ status page ∧ status page ≤ 6#3) ∨
          page.extractLsb' 0 18 ≠ i.kEntry.extractLsb' 0 18 then
        { m.backStay with state := .idle, wordV := false, refused := true }
      else if !i.postOk then
        { m.backStay with
          postReq := true
          postWord := page ||| (0#10 ++ m.kBits)
          hold := true
          wordV := true
          word := page }
      else
        { m.backStay with
          postReq := true
          postWord := page ||| (0#10 ++ m.kBits)
          state := .idle
          wordV := false }

/-- WB's write to the TLB: the walk's fill, or the write-back's bits into the entry it translated by. -/
def awV : Bool :=
  m.awFill frames i || ((m.back frames i).or && (m.aHit i || m.awFill frames i))
def awData : BitVec 40 :=
  let entry := if m.awFill frames i then (m.wa frames i).entry else m.aHitEntry
  tag i.aVa ++
    if (m.back frames i).or && (m.aHit i || m.awFill frames i) then entry ||| (m.back frames i).bits
    else entry

/-- Port B's lookup. -/
def bWord : BitVec 40 := m.tlb.word m.tlb.rbQ m.tlb.bIdxQ
def bHit : Bool := m.tlb.validBit m.tlb.bIdxQ && m.bWord.extractLsb' 30 10 == tag i.bVa

/-- Port B's walk: its own, or one WB's start has ended. -/
def bState : WalkStep := if m.wOwnerA then .idle else m.wState
def bCalled : Bool := i.bReq && region i.bVa == .paged && !m.bHit i && !i.bWalked
def wbCall : WalkCall :=
  WalkCall.call frames m.bState m.wVa i.bVa i.tReady i.tWord m.directory
def wb : WalkCall :=
  if m.bCalled i then m.wbCall frames i
  else WalkCall.stay (m.wa frames i).state (m.wa frames i).va
def bwV : Bool := m.bCalled i && (m.wb frames i).done && (m.wb frames i).fill
def bwData : BitVec 40 := tag i.bVa ++ (m.wbCall frames i).entry
def bHold : Bool := region i.bVa == .paged && !m.bHit i && !i.bWalked
def bWalkDone : Bool := m.bCalled i && (m.wb frames i).done
def bEntry : BitVec 30 :=
  if region i.bVa = .paged then
    if i.bWalked && !m.bHit i then noEntry else m.bWord.extractLsb' 0 30
  else fixedEntry i.bVa

/-- The table read begun this clock. -/
def tStart : Bool := (m.wa frames i).tstart || (m.back frames i).tstart || (m.wb frames i).tstart
def tAddr : BitVec 29 :=
  if (m.wa frames i).tstart then (m.wa frames i).taddr
  else if (m.back frames i).tstart then (m.back frames i).taddr
  else (m.wb frames i).taddr

/-- The `WRITE-MAP` operation: an `MD` in a window does nothing. -/
def opIs (kind : BitVec 2) : Bool :=
  i.opV && i.opMd.extractLsb' 29 3 != 0b111#3 && i.opVma.extractLsb' 32 2 == kind
def opLoad : Bool := opIs i 1#2
def opInval : Bool := opIs i 2#2
def opEmpty : Bool := opIs i 3#2

/-- The clock's writes of the TLB, in order: WB's, port B's fill, the operation. -/
def writes : List TlbWrite :=
  (if m.awV frames i then [⟨idx i.aVa, m.awData frames i, true⟩] else []) ++
    (if m.bwV frames i then [⟨idx i.bVa, m.bwData frames i, true⟩] else []) ++
    if opLoad i || opInval i then
      [⟨idx (i.opMd.extractLsb' 0 32), i.opMd.extractLsb' 22 10 ++ i.opVma.extractLsb' 0 30, opLoad i⟩]
    else []

/-- The words 220 to 224 after a register write. -/
def rw (k : BitVec 8) : Bool := i.rwV && i.rwK == k

/-- The registers in reset; what is not reset stays. -/
def reset : Mmu :=
  { m with
    tlb := { m.tlb with fq := [], hist := none, valid := { m.tlb.valid with gv := fun _ => false } }
    wState := .idle
    wOwnerA := false
    kState := .idle
    kWordV := false
    sweepLeft := 4095#13
    directory := 0#18
    ephemeral := false
    pointerTypes := 0#64
    refused := 0#32 }

/-- The TLB's clock. -/
def tlbNext : Tlb :=
  m.tlb.next i.rst i.conReset (m.writes frames i) (opEmpty i) (idx i.aNextVa) (idx i.bNextVa)

/-- One clock. -/
def next : Mmu :=
  if i.rst then { m.reset with tlb := m.tlbNext frames i }
  else
    { tlb := m.tlbNext frames i
      wState := (m.wb frames i).state
      wVa := (m.wb frames i).va
      wOwnerA :=
        if (m.wb frames i).tstart && m.bCalled i then false
        else if (m.wa frames i).tstart && m.wState == .idle then true
        else m.wOwnerA
      kState := (m.back frames i).state
      kBits := if i.kReq && m.kState == .idle then (m.back frames i).bits else m.kBits
      kPage := (m.back frames i).page
      kWordV := (m.back frames i).wordV
      kWord := (m.back frames i).word
      sweepLeft :=
        if i.conReset || opEmpty i then 4095#13
        else if m.sweepLeft ≠ 0#13 then m.sweepLeft - 1#13
        else m.sweepLeft
      directory :=
        if i.conReset then 0#18 else if rw i 0o220#8 then i.rwData.extractLsb' 0 18 else m.directory
      ephemeral :=
        if i.conReset then false else if rw i 0o221#8 then i.rwData.getLsbD 0 else m.ephemeral
      pointerTypes :=
        if i.conReset then 0#64
        else if rw i 0o222#8 then m.pointerTypes.extractLsb' 32 32 ++ i.rwData
        else if rw i 0o223#8 then i.rwData ++ m.pointerTypes.extractLsb' 0 32
        else m.pointerTypes
      refused :=
        if i.conReset || rw i 0o224#8 then 0#32
        else if (m.back frames i).refused then m.refused + 1#32
        else m.refused }

end Mmu

end MuirFpga.Quux
