import Mathlib.Data.Nat.Basic

/-!
# The slaves of a general purpose port

The face a register block presents on a general purpose port, `cadr_gp_regs`: one transaction a direction, the
two directions machines of their own, every address answered. `cadr_gp0_default` is the slave that answers
where there is none. What the port needs of a slave is a law of each direction, and the two keep it.
-/

namespace MuirFpga.Plumbing

variable {Id : Type}

/-- What a master drives on the three write channels. -/
structure WriteIn (Id : Type) where
  awaddr : BitVec 32
  awlen : Nat
  awid : Id
  awvalid : Bool
  wdata : BitVec 32
  wstrb : BitVec 4
  wlast : Bool
  wvalid : Bool
  bready : Bool

/-- What a master drives on the two read channels. -/
structure ReadIn (Id : Type) where
  araddr : BitVec 32
  arlen : Nat
  arid : Id
  arvalid : Bool
  rready : Bool

/-- `W_ADDR`, `W_DATA` and `W_RESP`. -/
inductive WState where
  | addr
  | data
  | resp
deriving DecidableEq

/-- `R_ADDR`, `R_PREP`, `R_PREP2` and `R_DATA`. -/
inductive RState where
  | addr
  | prep
  | prep2
  | data
deriving DecidableEq

/-- What a block sees of its face: the word a beat writes and the beat, with the bits it writes, and the word
a read is owed. -/
structure Seam where
  wWord : BitVec 10
  wr : Option (BitVec 32 × BitVec 32)
  rWord : BitVec 10
  rd : Bool

def WState.next (i : WriteIn Id) : WState → WState
  | addr => if i.awvalid then data else addr
  | data => if i.wvalid && i.wlast then resp else data
  | resp => if i.bready then addr else resp

/-- The byte strobes as bits. -/
def wrMask (wstrb : BitVec 4) : BitVec 32 :=
  (BitVec.fill 8 (wstrb.getLsbD 3) ++ BitVec.fill 8 (wstrb.getLsbD 2) ++
    BitVec.fill 8 (wstrb.getLsbD 1) ++ BitVec.fill 8 (wstrb.getLsbD 0)).setWidth 32

section Regs

structure RegsWrite (Id : Type) where
  st : WState
  word : BitVec 10
  id : Id

structure RegsRead (Id : Type) where
  st : RState
  word : BitVec 10
  id : Id
  left : Nat

/-- `wr` with its data and mask. -/
def RegsWrite.wr (i : WriteIn Id) (s : RegsWrite Id) : Option (BitVec 32 × BitVec 32) :=
  if i.wvalid && s.st = .data then some (i.wdata, wrMask i.wstrb) else none

def RegsWrite.next (i : WriteIn Id) (s : RegsWrite Id) : RegsWrite Id where
  st := s.st.next i
  word := match s.st with
    | .addr => if i.awvalid then i.awaddr.extractLsb' 2 10 else s.word
    | .data => if i.wvalid then s.word + 1 else s.word
    | .resp => s.word
  id := if s.st = .addr ∧ i.awvalid then i.awid else s.id

def RegsRead.next (i : ReadIn Id) (s : RegsRead Id) : RegsRead Id :=
  match s.st with
  | .addr =>
    if i.arvalid then
      { s with st := .prep, word := i.araddr.extractLsb' 2 10, id := i.arid, left := i.arlen }
    else s
  | .prep => { s with st := .prep2 }
  | .prep2 => { s with st := .data }
  | .data =>
    if i.rready then
      if s.left = 0 then { s with st := .addr }
      else { s with st := .prep, word := s.word + 1, left := s.left - 1 }
    else s

/-- `rdata_q`: the block's answer, sampled on the second tick after the word stands. -/
def RegsRead.sample (answer : BitVec 32) (s : RegsRead Id) (rdata : BitVec 32) : BitVec 32 :=
  if s.st = .prep2 then answer else rdata

end Regs

section Default

structure DefaultWrite (Id : Type) where
  st : WState
  id : Id

structure DefaultRead (Id : Type) where
  busy : Bool
  id : Id
  left : Nat

/-- "NONE". -/
def defaultWord : BitVec 32 := 0x4E4F4E45

def DefaultWrite.next (i : WriteIn Id) (s : DefaultWrite Id) : DefaultWrite Id where
  st := s.st.next i
  id := if s.st = .addr ∧ i.awvalid then i.awid else s.id

def DefaultRead.next (i : ReadIn Id) (s : DefaultRead Id) : DefaultRead Id :=
  if s.busy then
    if i.rready then (if s.left = 0 then { s with busy := false } else { s with left := s.left - 1 }) else s
  else if i.arvalid then ⟨true, i.arid, i.arlen⟩ else s

end Default

/-- A slave's write direction: an address, its data to the last, one response with its ID. -/
structure WriteSlave (Id : Type) where
  State : Type
  start : State
  st : State → WState
  id : State → Id
  next : WriteIn Id → State → State
  seam : WriteIn Id → State → BitVec 10 × Option (BitVec 32 × BitVec 32)
  st_start : st start = .addr
  st_next : ∀ i s, st (next i s) = (st s).next i
  id_next : ∀ i s, id (next i s) = if st s = .addr ∧ i.awvalid then i.awid else id s
  rest : ∀ {i s}, st s = .addr → i.awvalid = false → next i s = s
  seam_idle : ∀ {i i' s}, i.wvalid = false → i'.wvalid = false → seam i s = seam i' s

/-- A slave's read direction: nothing owed, or so many ticks to the beat it owes and so many beats after it. -/
structure ReadSlave (Id : Type) where
  State : Type
  start : State
  owes : State → Option Nat
  left : State → Nat
  id : State → Id
  next : ReadIn Id → State → State
  firstWord : BitVec 32
  sample : BitVec 32 → State → BitVec 32 → BitVec 32
  seam : State → BitVec 10 × Bool
  owes_start : owes start = none
  rest : ∀ {i s}, owes s = none → i.arvalid = false → next i s = s
  accept : ∀ {i s}, owes s = none → i.arvalid = true →
    (owes (next i s)).isSome ∧ left (next i s) = i.arlen ∧ id (next i s) = i.arid
  wait : ∀ {i s n}, owes s = some (n + 1) →
    owes (next i s) = some n ∧ left (next i s) = left s ∧ id (next i s) = id s
  hold : ∀ {i s}, owes s = some 0 → i.rready = false →
    owes (next i s) = some 0 ∧ left (next i s) = left s ∧ id (next i s) = id s
  beat : ∀ {i s n}, owes s = some 0 → i.rready = true → left s = n + 1 →
    (owes (next i s)).isSome ∧ left (next i s) = n ∧ id (next i s) = id s
  last : ∀ {i s}, owes s = some 0 → i.rready = true → left s = 0 → owes (next i s) = none

/-- `cadr_gp_regs`'s write direction. -/
def regsWrite (first : Id) : WriteSlave Id where
  State := RegsWrite Id
  start := ⟨.addr, 0, first⟩
  st := RegsWrite.st
  id := RegsWrite.id
  next := RegsWrite.next
  seam i s := (s.word, s.wr i)
  st_start := rfl
  st_next _ _ := rfl
  id_next _ _ := rfl
  rest {i s} addr low := by
    cases s
    simp_all [RegsWrite.next, WState.next]
  seam_idle {i i' s} low low' := by simp [RegsWrite.wr, low, low']

/-- `cadr_gp0_default`'s. -/
def defaultWrite (first : Id) : WriteSlave Id where
  State := DefaultWrite Id
  start := ⟨.addr, first⟩
  st := DefaultWrite.st
  id := DefaultWrite.id
  next := DefaultWrite.next
  seam _ _ := (0, none)
  st_start := rfl
  st_next _ _ := rfl
  id_next _ _ := rfl
  rest {i s} addr low := by
    cases s
    simp_all [DefaultWrite.next, WState.next]
  seam_idle _ _ := rfl

/-- The ticks to the beat `cadr_gp_regs` owes. -/
def RState.owes : RState → Option Nat
  | addr => none
  | prep => some 2
  | prep2 => some 1
  | data => some 0

/-- `cadr_gp_regs`'s read direction. -/
def regsRead (first : Id) : ReadSlave Id where
  State := RegsRead Id
  start := ⟨.addr, 0, first, 0⟩
  owes s := s.st.owes
  left := RegsRead.left
  id := RegsRead.id
  next := RegsRead.next
  firstWord := 0
  sample := RegsRead.sample
  seam s := (s.word, s.st = .prep)
  owes_start := rfl
  rest {i s} none_ low := by
    cases st : s.st <;> simp_all [RState.owes, RegsRead.next]
  accept {i s} none_ high := by
    cases st : s.st <;> simp_all [RState.owes, RegsRead.next]
  wait {i s n} some_ := by
    cases st : s.st <;> simp_all [RState.owes, RegsRead.next]
  hold {i s} some_ low := by
    cases st : s.st <;> simp_all [RState.owes, RegsRead.next]
  beat {i s n} some_ high more := by
    cases st : s.st <;> simp_all [RState.owes, RegsRead.next]
  last {i s} some_ high none_ := by
    cases st : s.st <;> simp_all [RState.owes, RegsRead.next]

/-- `cadr_gp0_default`'s. -/
def defaultRead (first : Id) : ReadSlave Id where
  State := DefaultRead Id
  start := ⟨false, first, 0⟩
  owes s := if s.busy then some 0 else none
  left := DefaultRead.left
  id := DefaultRead.id
  next := DefaultRead.next
  firstWord := defaultWord
  sample _ _ _ := defaultWord
  seam _ := (0, false)
  owes_start := rfl
  rest {i s} none_ low := by
    cases busy : s.busy <;> simp_all [DefaultRead.next]
  accept {i s} none_ high := by
    cases busy : s.busy <;> simp_all [DefaultRead.next]
  wait {i s n} some_ := by
    cases busy : s.busy <;> simp_all
  hold {i s} some_ low := by
    cases busy : s.busy <;> simp_all [DefaultRead.next]
  beat {i s n} some_ high more := by
    cases busy : s.busy <;> simp_all [DefaultRead.next]
  last {i s} some_ high none_ := by
    cases busy : s.busy <;> simp_all [DefaultRead.next]

end MuirFpga.Plumbing
