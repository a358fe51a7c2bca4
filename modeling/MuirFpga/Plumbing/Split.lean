import MuirFpga.Plumbing.GpRegs
import MuirFpga.Sync.Trace

/-!
# The splitters of the general purpose ports

`cadr_gp0_split` and `cadr_gp1_split`: an address is accepted with its page decoded beside it, offered to the
slave of the page alone, and the slave's answers carried through. The write and the read direction are
machines of their own, with a selection each. Behind each page a slave with its register block, which the
fabric's reset reaches and the slave's own machines do not.
-/

namespace MuirFpga.Plumbing

open Sync

/-- A slave: its two directions, and the block behind them in a world of its own. -/
structure Slave (Id World : Type) where
  write : WriteSlave Id
  read : ReadSlave Id
  Block : Type
  first : Block
  /-- A tick of the block, under the fabric's reset or not. -/
  next : Bool → World → Seam → Block → Block
  answer : World → Seam → Block → BitVec 32

/-- A block behind `cadr_gp_regs`. -/
structure RegisterBlock (World : Type) where
  State : Type
  first : State
  next : Bool → World → Seam → State → State
  answer : World → Seam → State → BitVec 32

variable {Id World Page : Type}

def RegisterBlock.slave (b : RegisterBlock World) (id : Id) : Slave Id World where
  write := regsWrite id
  read := regsRead id
  Block := b.State
  first := b.first
  next := b.next
  answer := b.answer

/-- `cadr_gp0_default`. -/
def defaultSlave (id : Id) : Slave Id World where
  write := defaultWrite id
  read := defaultRead id
  Block := Unit
  first := ()
  next _ _ _ _ := ()
  answer _ _ _ := defaultWord

/-- A splitter: the pages' slaves, which page an address is in, and the default. -/
structure Splitter (Id World Page : Type) where
  target : BitVec 20 → Page
  dflt : Page
  firstId : Id
  slave : Page → Slave Id World

/-- `W_ADDR`, `W_ISSUE`, `W_DATA` and `W_RESP`. -/
inductive SplitWState where
  | addr
  | issue
  | data
  | resp
deriving DecidableEq

/-- `R_ADDR`, `R_ISSUE` and `R_DATA`. -/
inductive SplitRState where
  | addr
  | issue
  | data
deriving DecidableEq

/-- What a tick brings the port. -/
structure GpTick (Id World Page : Type) where
  write : WriteIn Id
  read : ReadIn Id
  fabricRst : Bool
  world : Page → World

section Write

structure SplitWrite (Id Page : Type) where
  st : SplitWState
  awAt : BitVec 32
  len : Nat
  id : Id
  sel : Page

/-- The splitter's write direction and every slave's. -/
structure WriteSide (c : Splitter Id World Page) where
  split : SplitWrite Id Page
  slaves : ∀ p, (c.slave p).write.State

namespace WriteSide

variable {c : Splitter Id World Page} (i : WriteIn Id) (s : WriteSide c)

def selSt : WState := (c.slave s.split.sel).write.st (s.slaves s.split.sel)
def selAwready : Bool := s.selSt = .addr
def selWready : Bool := s.selSt = .data
def selBvalid : Bool := s.selSt = .resp

def awready : Bool := s.split.st = .addr
def wready : Bool := s.split.st = .data && s.selWready
def bvalid : Bool := s.split.st = .resp && s.selBvalid
def bid : Id := (c.slave s.split.sel).write.id (s.slaves s.split.sel)

/-- What a page's slave is offered: the payload as it is, the valids and the ready only for the page selected. -/
def offered [DecidableEq Page] (p : Page) : WriteIn Id where
  awaddr := s.split.awAt
  awlen := s.split.len
  awid := s.split.id
  awvalid := s.split.st = .issue && s.split.sel = p
  wdata := i.wdata
  wstrb := i.wstrb
  wlast := i.wlast
  wvalid := s.split.st = .data && s.split.sel = p && i.wvalid
  bready := s.split.st = .resp && s.split.sel = p && i.bready

def splitNext : SplitWrite Id Page :=
  match s.split.st with
  | .addr => if i.awvalid then ⟨.issue, i.awaddr, i.awlen, i.awid, c.target (i.awaddr.extractLsb' 12 20)⟩ else s.split
  | .issue => if s.selAwready then { s.split with st := .data } else s.split
  | .data => if i.wvalid && s.selWready && i.wlast then { s.split with st := .resp } else s.split
  | .resp => if s.selBvalid && i.bready then { s.split with st := .addr } else s.split

variable [DecidableEq Page]

def next : WriteSide c := ⟨s.splitNext i, fun p => (c.slave p).write.next (s.offered i p) (s.slaves p)⟩

def reset (c : Splitter Id World Page) : WriteSide c :=
  ⟨⟨.addr, 0, 0, c.firstId, c.dflt⟩, fun p => (c.slave p).write.start⟩

end WriteSide

end Write

section Read

structure SplitRead (Id Page : Type) where
  st : SplitRState
  arAt : BitVec 32
  len : Nat
  id : Id
  sel : Page

/-- The splitter's read direction and every slave's. -/
structure ReadSide (c : Splitter Id World Page) where
  split : SplitRead Id Page
  slaves : ∀ p, (c.slave p).read.State

namespace ReadSide

variable {c : Splitter Id World Page} (i : ReadIn Id) (s : ReadSide c)

def selOwes : Option Nat := (c.slave s.split.sel).read.owes (s.slaves s.split.sel)
def selArready : Bool := s.selOwes = none
def selRvalid : Bool := s.selOwes = some 0
def left : Nat := (c.slave s.split.sel).read.left (s.slaves s.split.sel)

def arready : Bool := s.split.st = .addr
def rvalid : Bool := s.split.st = .data && s.selRvalid
def rlast : Bool := s.left = 0
def rid : Id := (c.slave s.split.sel).read.id (s.slaves s.split.sel)

def offered [DecidableEq Page] (p : Page) : ReadIn Id where
  araddr := s.split.arAt
  arlen := s.split.len
  arid := s.split.id
  arvalid := s.split.st = .issue && s.split.sel = p
  rready := s.split.st = .data && s.split.sel = p && i.rready

def splitNext : SplitRead Id Page :=
  match s.split.st with
  | .addr => if i.arvalid then ⟨.issue, i.araddr, i.arlen, i.arid, c.target (i.araddr.extractLsb' 12 20)⟩ else s.split
  | .issue => if s.selArready then { s.split with st := .data } else s.split
  | .data => if s.selRvalid && i.rready && s.rlast then { s.split with st := .addr } else s.split

variable [DecidableEq Page]

def next : ReadSide c := ⟨s.splitNext i, fun p => (c.slave p).read.next (s.offered i p) (s.slaves p)⟩

def reset (c : Splitter Id World Page) : ReadSide c :=
  ⟨⟨.addr, 0, 0, c.firstId, c.dflt⟩, fun p => (c.slave p).read.start⟩

end ReadSide

end Read

/-- A port: the splitter with its slaves, the words they have sampled, and their blocks. -/
structure GpPort (c : Splitter Id World Page) where
  w : WriteSide c
  r : ReadSide c
  rdataQ : Page → BitVec 32
  block : ∀ p, (c.slave p).Block

namespace GpPort

variable {c : Splitter Id World Page} [DecidableEq Page] (i : GpTick Id World Page) (s : GpPort c)

def seam (p : Page) : Seam where
  wWord := ((c.slave p).write.seam (s.w.offered i.write p) (s.w.slaves p)).1
  wr := ((c.slave p).write.seam (s.w.offered i.write p) (s.w.slaves p)).2
  rWord := ((c.slave p).read.seam (s.r.slaves p)).1
  rd := ((c.slave p).read.seam (s.r.slaves p)).2

def rdata : BitVec 32 := s.rdataQ s.r.split.sel

def answer (p : Page) : BitVec 32 := (c.slave p).answer (i.world p) (s.seam i p) (s.block p)

def next : GpPort c where
  w := s.w.next i.write
  r := s.r.next i.read
  rdataQ p := (c.slave p).read.sample (s.answer i p) (s.r.slaves p) (s.rdataQ p)
  block p := (c.slave p).next i.fabricRst (i.world p) (s.seam i p) (s.block p)

/-- The port as its own reset leaves it. -/
def reset (c : Splitter Id World Page) : GpPort c where
  w := .reset c
  r := .reset c
  rdataQ p := (c.slave p).read.firstWord
  block p := (c.slave p).first

end GpPort

section Ports

/-- The pages of `M_AXI_GP0`. -/
inductive Gp0Page where
  | pack
  | chaos
  | ser
  | input
  | fd
  | dflt
deriving DecidableEq

/-- The pages of `M_AXI_GP1`. -/
inductive Gp1Page where
  | con
  | dbg
  | dflt
deriving DecidableEq

structure Gp0Bases where
  pack : BitVec 32 := 0x40000000
  chaos : BitVec 32 := 0x40001000
  ser : BitVec 32 := 0x40002000
  input : BitVec 32 := 0x40003000
  fd : BitVec 32 := 0x40004000
  hasFd : Bool := false

structure Gp1Bases where
  con : BitVec 32 := 0x80000000
  dbg : BitVec 32 := 0x80001000

def page (base : BitVec 32) : BitVec 20 := base.extractLsb' 12 20

def Gp0Bases.target (b : Gp0Bases) (at_ : BitVec 20) : Gp0Page :=
  if at_ = page b.pack then .pack
  else if at_ = page b.chaos then .chaos
  else if at_ = page b.ser then .ser
  else if at_ = page b.input then .input
  else if b.hasFd ∧ at_ = page b.fd then .fd
  else .dflt

def Gp1Bases.target (b : Gp1Bases) (at_ : BitVec 20) : Gp1Page :=
  if at_ = page b.con then .con else if at_ = page b.dbg then .dbg else .dflt

/-! Where an address belongs, by the range of four kilobytes it is in; of pages that share one, the first. -/

def InPage (base addr : BitVec 32) : Prop :=
  base.toNat / 0x1000 * 0x1000 ≤ addr.toNat ∧ addr.toNat < base.toNat / 0x1000 * 0x1000 + 0x1000

instance (base addr : BitVec 32) : Decidable (InPage base addr) := inferInstanceAs (Decidable (_ ∧ _))

def Gp0Bases.Home (b : Gp0Bases) (addr : BitVec 32) : Gp0Page → Prop
  | .pack => InPage b.pack addr
  | .chaos => InPage b.chaos addr ∧ ¬InPage b.pack addr
  | .ser => InPage b.ser addr ∧ ¬InPage b.pack addr ∧ ¬InPage b.chaos addr
  | .input => InPage b.input addr ∧ ¬InPage b.pack addr ∧ ¬InPage b.chaos addr ∧ ¬InPage b.ser addr
  | .fd => b.hasFd = true ∧ InPage b.fd addr ∧
      ¬InPage b.pack addr ∧ ¬InPage b.chaos addr ∧ ¬InPage b.ser addr ∧ ¬InPage b.input addr
  | .dflt => ¬InPage b.pack addr ∧ ¬InPage b.chaos addr ∧ ¬InPage b.ser addr ∧ ¬InPage b.input addr ∧
      ¬(b.hasFd = true ∧ InPage b.fd addr)

def Gp1Bases.Home (b : Gp1Bases) (addr : BitVec 32) : Gp1Page → Prop
  | .con => InPage b.con addr
  | .dbg => InPage b.dbg addr ∧ ¬InPage b.con addr
  | .dflt => ¬InPage b.con addr ∧ ¬InPage b.dbg addr

theorem page_iff {base addr : BitVec 32} : addr.extractLsb' 12 20 = page base ↔ InPage base addr := by
  unfold page InPage
  rw [← BitVec.toNat_inj, BitVec.extractLsb'_toNat, BitVec.extractLsb'_toNat, Nat.shiftRight_eq_div_pow,
    Nat.shiftRight_eq_div_pow]
  omega

/-- The router sends an address to the page whose range holds it. -/
theorem Gp0Bases.home_iff {b : Gp0Bases} {addr : BitVec 32} {p : Gp0Page} :
    b.Home addr p ↔ b.target (addr.extractLsb' 12 20) = p := by
  unfold Gp0Bases.target
  simp only [page_iff]
  cases p <;> unfold Gp0Bases.Home <;> grind

/-- And the second port's. -/
theorem Gp1Bases.home_iff {b : Gp1Bases} {addr : BitVec 32} {p : Gp1Page} :
    b.Home addr p ↔ b.target (addr.extractLsb' 12 20) = p := by
  unfold Gp1Bases.target
  simp only [page_iff]
  cases p <;> unfold Gp1Bases.Home <;> grind

/-- `cadr_gp0_split`, with a block behind each page. -/
def gp0Split (b : Gp0Bases) (blocks : Gp0Page → RegisterBlock World) (id : Id) : Splitter Id World Gp0Page where
  target := b.target
  dflt := .dflt
  firstId := id
  slave p := if p = .dflt then defaultSlave id else (blocks p).slave id

/-- `cadr_gp1_split`, with a block behind each page. -/
def gp1Split (b : Gp1Bases) (blocks : Gp1Page → RegisterBlock World) (id : Id) : Splitter Id World Gp1Page where
  target := b.target
  dflt := .dflt
  firstId := id
  slave p := if p = .dflt then defaultSlave id else (blocks p).slave id

end Ports

end MuirFpga.Plumbing
