import MuirFpga.Quux.PackedMemory
import Mathlib.Tactic.SplitIfs

/-!
# The master over a byte memory

Word writes and line reads issued to `quux15_axi_master` one at a time, each until it is answered, over
a memory of bytes that performs bursts at any pace. Every answered write has written its word's bytes and
no other, and every line read is the words' bytes then.
-/

namespace MuirFpga.Quux

open Sync

namespace Master

variable (c : MasterConfig) (r : MasterReq) (i : AxiInput) (m x : Master)

theorem answer_eq : m.answer c i x =
    { x with
      ansPtr := if m.bDone c i then m.ansPtr + 1 else x.ansPtr
      firstBQ := if i.bvalid && m.firstB c i then Function.update x.firstBQ (m.bSlot c i) true
        else x.firstBQ
      errQ := if i.bvalid && m.firstB c i then Function.update x.errQ (m.bSlot c i) (i.bresp.getLsbD 1)
        else x.errQ } := by
  unfold answer
  split_ifs <;> rfl

theorem continuation_eq : m.continuation c r i x =
    { x with
      contV := if m.wTaken c r i then c.two r.wBus else if m.contV then
        !((!m.contAw || m.contAwDone || m.awTaken c r i) && (m.contWDone || m.wBeatTaken c r i)) else x.contV
      contAw := if m.wTaken c r i then c.split r.wBus else x.contAw
      contAwDone := if m.wTaken c r i then false else if m.contV then m.contAwDone || m.awTaken c r i
        else x.contAwDone
      contWDone := if m.wTaken c r i then false else if m.contV then m.contWDone || m.wBeatTaken c r i
        else x.contWDone
      contAddr := if m.wTaken c r i then c.beatAddr r.wBus + 8#32 else x.contAddr
      contData := if m.wTaken c r i then 0#24 ++ (c.shifted r.wBus r.wWord).extractLsb' 64 40 else x.contData
      contStrb := if m.wTaken c r i then (c.strobes r.wBus).extractLsb' 8 8 else x.contStrb
      contId := if m.wTaken c r i then r.wId else x.contId
      splitQ := if m.wTaken c r i then Function.update m.splitQ r.wId (c.split r.wBus) else x.splitQ
      firstBQ := if m.wTaken c r i then Function.update m.firstBQ r.wId false else x.firstBQ
      errQ := if m.wTaken c r i then Function.update m.errQ r.wId false else x.errQ } := by
  unfold continuation
  split_ifs <;> rfl

theorem offer_eq : m.offer c r i x =
    { x with
      hdAwDone := if m.wTaken c r i then false else if !m.contV && r.wReq then
        m.hdAwDone || m.awTaken c r i else x.hdAwDone
      hdWDone := if m.wTaken c r i then false else if !m.contV && r.wReq then
        m.hdWDone || m.wBeatTaken c r i else x.hdWDone } := by
  unfold offer
  split_ifs <;> rfl

theorem readNext_eq : m.readNext c r i =
    { m with
      rstate := if m.rdLast i then .idle else
        match m.rstate with
        | .idle => if m.arTaken r i then if c.lineSplit r.arLine then .second else .data else .idle
        | .second => if i.arready then .data else .second
        | .data => .data
      secondAddr := if m.arTaken r i then ((c.lineByte r.arLine).extractLsb' 12 20 + 1) ++ 0#12
        else m.secondAddr
      secondLen := if m.arTaken r i then 0#5 ++ (4#3 - c.firstBeats r.arLine) else m.secondLen
      beat := if m.rstate != .idle && i.rvalid then m.beat + 1 else if m.arTaken r i then 0 else m.beat
      rWin := if m.arTaken r i then r.arLine.getLsbD 25 else m.rWin
      beats := if m.rstate != .idle && i.rvalid && decide (m.beat < 4#3) then
        Function.update m.beats (m.beat.extractLsb' 0 2) i.rdata else m.beats } := by
  have taken (other : m.rstate ≠ .idle) : m.arTaken r i = false := by
    unfold arTaken
    cases state : m.rstate with
    | idle => exact absurd state other
    | second => rfl
    | data => rfl
  unfold readNext rdLast
  cases state : m.rstate with
  | idle =>
    simp only [bne_self_eq_false, Bool.false_and, Bool.false_eq_true, if_false]
    split_ifs
    · rfl
    · rfl
    · rw [← state]
  | second =>
    rw [taken (by rw [state]; decide)]
    have live : (MasterRead.second != MasterRead.idle) = true := rfl
    simp only [live, Bool.true_and, Bool.false_eq_true, if_false]
    cases i.rvalid <;> cases i.arready <;> cases m.beat == m.lastBeat <;>
      simp [← state]
  | data =>
    rw [taken (by rw [state]; decide)]
    have live : (MasterRead.data != MasterRead.idle) = true := rfl
    simp only [live, Bool.true_and, Bool.false_eq_true, if_false]
    cases i.rvalid <;> cases m.beat == m.lastBeat <;> simp [← state]

end Master

/-- What is asked of packed storage: a word written, or a line read. -/
inductive PackedOp
  | write (bus : BitVec 29) (word : BitVec 40)
  | read (line : BitVec 26)

/-- The memory's bytes after an operation. -/
def PackedOp.after (c : MasterConfig) (mem : Bytes) : PackedOp → Bytes
  | .write bus word => c.store mem bus word
  | .read _ => mem

/-- The master, its memory and what is asked: the operation under way, whether the master has taken it,
the slot of the next write and the operations answered. -/
structure Packed where
  master : Master
  memory : ByteMemory (BitVec 4)
  current : Option PackedOp
  sent : Bool
  slot : BitVec 4
  answered : List PackedOp

/-- What a clock brings: an operation to start when none is under way, what the memory does, and the
response of a write it answers. -/
structure PackedIn where
  start : Option PackedOp
  pace : Pace
  resp : BitVec 2

namespace Packed

variable (c : MasterConfig) (i : PackedIn) (s : Packed)

/-- What is asked of the master. -/
def req : MasterReq :=
  match s.current with
  | some (.write bus word) => ⟨false, 0, !s.sent, bus, word, s.slot⟩
  | some (.read line) => ⟨!s.sent, line, false, 0, 0, s.slot⟩
  | none => ⟨false, 0, false, 0, 0, s.slot⟩

/-- What the memory brings the master. -/
def axi : AxiInput where
  awready := i.pace.awready
  wready := i.pace.wready
  bid := (s.memory.answered i.pace).getD 0
  bresp := i.resp
  bvalid := (s.memory.answered i.pace).isSome
  arready := i.pace.arready
  rdata := (s.memory.given i.pace).getD 0
  rvalid := (s.memory.given i.pace).isSome

/-- What the master brings the memory. -/
def taken : Taken (BitVec 4) where
  places := match s.master.aw c s.req with
    | some b => if i.pace.awready then burst b.id b.addr b.len else []
    | none => []
  lanes := match s.master.w c s.req with
    | some b => if i.pace.wready then [⟨b.data, b.strb⟩] else []
    | none => []
  reads := match s.master.ar c s.req with
    | some b => if i.pace.arready then beatsFrom b.addr b.len else []
    | none => []

/-- The operation is answered this clock. -/
def done : Bool :=
  match s.current with
  | some (.write _ _) => s.master.bDone c (s.axi i)
  | some (.read _) => s.master.rdLast (s.axi i)
  | none => false

/-- A clock. -/
def next : Packed where
  master := s.master.next false c s.req (s.axi i)
  memory := s.memory.next i.pace (s.taken c i)
  current := if s.done c i then none else if s.current.isNone then i.start else s.current
  sent := if s.current.isNone || s.done c i then false
    else s.sent || s.master.wTaken c s.req (s.axi i) || s.master.arTaken s.req (s.axi i)
  slot := if s.master.bDone c (s.axi i) then s.slot + 1 else s.slot
  answered := s.answered ++ if s.done c i then s.current.toList else []

/-- The reset master over a memory that owes nothing. -/
def start (m : Master) (bytes : Bytes) : Packed where
  master := m.reset
  memory := ⟨bytes, [], [], [], []⟩
  current := none
  sent := false
  slot := 0
  answered := []

/-- The run from a start. -/
def run (m : Master) (bytes : Bytes) (e : Nat → PackedIn) : Nat → Packed :=
  trace (fun i s => s.next c i) (start m bytes) e

/-- The bytes the operations answered make. -/
def expected (bytes : Bytes) : Bytes := s.answered.foldl (PackedOp.after c) bytes

/-- The write side owes nothing. -/
structure WriteQuiet (s : Packed) : Prop where
  contV : s.master.contV = false
  hdAwDone : s.master.hdAwDone = false
  hdWDone : s.master.hdWDone = false
  places : s.memory.places = []
  lanes : s.memory.lanes = []
  answers : s.memory.answers = []

/-- The read side owes nothing. -/
structure ReadQuiet (s : Packed) : Prop where
  rstate : s.master.rstate = .idle
  reads : s.memory.reads = []

/-- The places a write's addresses have still to bring. -/
def comingPlaces (bus : BitVec 29) : List (Place (BitVec 4)) :=
  if s.sent then
    if s.master.contV && s.master.contAw && !s.master.contAwDone then
      burst (c.writeId s.slot) (c.beatAddr bus + 8) 0
    else []
  else (if s.master.hdAwDone then [] else
      burst (c.writeId s.slot) (c.firstAw bus s.slot).addr (c.firstAw bus s.slot).len) ++
    if c.split bus then burst (c.writeId s.slot) (c.beatAddr bus + 8) 0 else []

/-- The beats it has still to bring. -/
def comingLanes (bus : BitVec 29) (word : BitVec 40) : List Lanes :=
  if s.sent then
    if s.master.contV && !s.master.contWDone then [c.secondLanes bus word] else []
  else (if s.master.hdWDone then [] else [c.firstLanes bus word]) ++
    if c.two bus then [c.secondLanes bus word] else []

/-- A write under way: what its beats have written and what is to come, what the master has taken of it
and the continuation after that, and the bursts answered. -/
structure Writing (s : Packed) (bus : BitVec 29) (word : BitVec 40) (orig : Bytes)
    (gone : List (BitVec 4)) (n : Nat) : Prop where
  performed : Performed orig (c.writePlaces bus s.slot) (c.writeLanes bus word) (s.comingPlaces c bus)
    (s.comingLanes c bus word) gone n s.memory
  unsent : s.sent = false → s.master.contV = false ∧ gone = [] ∧
    (s.master.hdAwDone && s.master.hdWDone) = false
  took : s.sent = true → s.master.hdAwDone = false ∧ s.master.hdWDone = false ∧
    s.master.splitQ s.slot = c.split bus ∧ s.master.firstBQ s.slot = !gone.isEmpty
  cont : s.sent = true → s.master.contV = true → s.master.contAw = c.split bus ∧ c.two bus = true ∧
    s.master.contAddr = c.beatAddr bus + 8 ∧
    (⟨s.master.contData, s.master.contStrb⟩ : Lanes) = c.secondLanes bus word ∧
    s.master.contId = s.slot ∧
    (s.master.contWDone && (!s.master.contAw || s.master.contAwDone)) = false
  left : gone.length < if c.split bus then 2 else 1

variable {c i s} {bus : BitVec 29} {word : BitVec 40} {orig : Bytes} {gone : List (BitVec 4)} {n : Nat}

theorem two_of_split (split : c.split bus = true) : c.two bus = true := ((c.split_iff bus).mp split).1

theorem next_master (s : Packed) :
    (s.next c i).master.contV =
        (if s.master.wTaken c s.req (s.axi i) then c.two s.req.wBus else if s.master.contV then
          !((!s.master.contAw || s.master.contAwDone || s.master.awTaken c s.req (s.axi i)) &&
            (s.master.contWDone || s.master.wBeatTaken c s.req (s.axi i))) else s.master.contV) ∧
      (s.next c i).master.hdAwDone =
        (if s.master.wTaken c s.req (s.axi i) then false else if !s.master.contV && s.req.wReq then
          s.master.hdAwDone || s.master.awTaken c s.req (s.axi i) else s.master.hdAwDone) ∧
      (s.next c i).master.hdWDone =
        (if s.master.wTaken c s.req (s.axi i) then false else if !s.master.contV && s.req.wReq then
          s.master.hdWDone || s.master.wBeatTaken c s.req (s.axi i) else s.master.hdWDone) := by
  unfold Packed.next Master.next Master.writeNext
  rw [if_neg Bool.false_ne_true, Master.answer_eq, Master.continuation_eq, Master.offer_eq,
    Master.readNext_eq]
  exact ⟨rfl, rfl, rfl⟩

theorem WriteQuiet.next (quiet : WriteQuiet s) (none_ : s.req.wReq = false) : WriteQuiet (s.next c i) := by
  obtain ⟨contV, hdAwDone, hdWDone, places, lanes, answers⟩ := quiet
  have aw : s.master.aw c s.req = none := by simp [Master.aw, contV, none_]
  have w : s.master.w c s.req = none := by simp [Master.w, contV, none_]
  have wTaken : s.master.wTaken c s.req (s.axi i) = false := by simp [Master.wTaken, none_]
  have regs := @next_master c i s
  rw [wTaken, contV, hdAwDone, hdWDone, none_] at regs
  have performs : s.memory.performs i.pace = none := by
    unfold ByteMemory.performs
    rw [places]
    cases i.pace.perform <;> rfl
  refine ⟨regs.1, regs.2.1, regs.2.2, ?_, ?_, ?_⟩
  · simp [Packed.next, ByteMemory.next, performs, places, taken, aw]
  · simp [Packed.next, ByteMemory.next, performs, lanes, taken, w]
  · simp [Packed.next, ByteMemory.next, performs, ByteMemory.answered, answers]

theorem next_accept (accept : s.master.wTaken c s.req (s.axi i) = true)
    (silent : s.memory.answered i.pace = none) :
    let m := (s.next c i).master
    m.contV = c.two s.req.wBus ∧ m.hdAwDone = false ∧ m.hdWDone = false ∧
      m.contAw = c.split s.req.wBus ∧ m.contAwDone = false ∧ m.contWDone = false ∧
      m.contAddr = c.beatAddr s.req.wBus + 8 ∧
      (⟨m.contData, m.contStrb⟩ : Lanes) = c.secondLanes s.req.wBus s.req.wWord ∧
      m.contId = s.req.wId ∧ m.splitQ s.req.wId = c.split s.req.wBus ∧ m.firstBQ s.req.wId = false := by
  have quiet : (s.axi i).bvalid = false := by simp [axi, silent]
  unfold Packed.next Master.next Master.writeNext
  rw [if_neg Bool.false_ne_true, Master.answer_eq, Master.continuation_eq, Master.offer_eq,
    Master.readNext_eq]
  simp only [accept, quiet, if_true, Bool.false_and, Bool.false_eq_true, if_false,
    Function.update_self]
  exact ⟨trivial, trivial, trivial, trivial, trivial, trivial, rfl, rfl, trivial, trivial, trivial⟩

theorem next_waiting (waits : s.master.wTaken c s.req (s.axi i) = false) :
    let m := (s.next c i).master
    m.contAw = s.master.contAw ∧ m.contAddr = s.master.contAddr ∧ m.contData = s.master.contData ∧
      m.contStrb = s.master.contStrb ∧ m.contId = s.master.contId ∧ m.splitQ = s.master.splitQ ∧
      (s.master.contV = true →
        m.contAwDone = (s.master.contAwDone || s.master.awTaken c s.req (s.axi i)) ∧
        m.contWDone = (s.master.contWDone || s.master.wBeatTaken c s.req (s.axi i))) ∧
      m.firstBQ = (if (s.axi i).bvalid && s.master.firstB c (s.axi i) then
        Function.update s.master.firstBQ (s.master.bSlot c (s.axi i)) true else s.master.firstBQ) := by
  unfold Packed.next Master.next Master.writeNext
  rw [if_neg Bool.false_ne_true, Master.answer_eq, Master.continuation_eq, Master.offer_eq,
    Master.readNext_eq]
  simp only [waits, Bool.false_eq_true, if_false]
  refine ⟨trivial, trivial, trivial, trivial, trivial, trivial, ?_, trivial⟩
  intro open_
  rw [open_, if_pos rfl, if_pos rfl]
  exact ⟨rfl, rfl⟩

theorem req_write (now : s.current = some (.write bus word)) :
    s.req = ⟨false, 0, !s.sent, bus, word, s.slot⟩ := by
  unfold req
  rw [now]

theorem Writing.nothing (w : Writing c s bus word orig gone n) (fresh : s.sent = false) :
    n = 0 ∧ s.memory.performs i.pace = none ∧ s.memory.answered i.pace = none := by
  obtain ⟨contV, none_, notBoth⟩ := w.unsent fresh
  have places := congrArg List.length w.performed.places
  have lanes := congrArg List.length w.performed.lanes
  have answers := w.performed.answers
  rw [List.length_append, List.length_drop] at places lanes
  have positive : 0 < (c.writePlaces bus s.slot).length := by
    rw [MasterConfig.writePlaces_eq]
    split <;> exact Nat.succ_pos _
  have positiveL : 0 < (c.writeLanes bus word).length := Nat.succ_pos _
  have both : n = 0 ∧ (s.memory.places = [] ∨ s.memory.lanes = []) := by
    cases address : s.master.hdAwDone with
    | false =>
      have all : s.comingPlaces c bus = c.writePlaces bus s.slot := by
        simp [comingPlaces, MasterConfig.writePlaces, fresh, address]
      rw [all] at places
      exact ⟨by omega, .inl (List.eq_nil_of_length_eq_zero (by omega))⟩
    | true =>
      have data : s.master.hdWDone = false := by simpa [address] using notBoth
      have all : s.comingLanes c bus word = c.writeLanes bus word := by
        simp [comingLanes, MasterConfig.writeLanes, fresh, data]
      rw [all] at lanes
      exact ⟨by omega, .inr (List.eq_nil_of_length_eq_zero (by omega))⟩
  obtain ⟨zero, empty⟩ := both
  rw [zero, none_] at answers
  have noAnswers : s.memory.answers = [] := by simpa using answers
  refine ⟨zero, ?_, ?_⟩
  · unfold ByteMemory.performs
    obtain empty | empty := empty
    · rw [empty]
      cases i.pace.perform <;> rfl
    · rw [empty]
      cases i.pace.perform <;> cases s.memory.places <;> rfl
  · simp [ByteMemory.answered, noAnswers]

theorem sends_fresh (now : s.current = some (.write bus word)) (fresh : s.sent = false)
    (contV : s.master.contV = false) :
    s.master.aw c s.req = (if s.master.hdAwDone then none else some (c.firstAw bus s.slot)) ∧
      s.master.w c s.req = (if s.master.hdWDone then none else some (c.firstW bus word)) ∧
      s.master.wTaken c s.req (s.axi i) =
        ((s.master.hdAwDone || i.pace.awready) && (s.master.hdWDone || i.pace.wready)) := by
  have req := req_write now
  rw [fresh] at req
  have aw : s.master.aw c s.req = (if s.master.hdAwDone then none else some (c.firstAw bus s.slot)) := by
    rw [req]
    cases address : s.master.hdAwDone <;> simp [Master.aw, contV, address]
  have w : s.master.w c s.req = (if s.master.hdWDone then none else some (c.firstW bus word)) := by
    rw [req]
    cases data : s.master.hdWDone <;> simp [Master.w, contV, data]
  refine ⟨aw, w, ?_⟩
  unfold Master.wTaken Master.awTaken Master.wBeatTaken
  rw [aw, w, req, contV]
  cases s.master.hdAwDone <;> cases s.master.hdWDone <;> simp [axi]

theorem next_sent (now : s.current = some (.write bus word)) (going : s.done c i = false) :
    (s.next c i).sent = (s.sent || s.master.wTaken c s.req (s.axi i)) := by
  have arTaken : s.master.arTaken s.req (s.axi i) = false := by
    rw [req_write now]
    simp [Master.arTaken]
  simp [Packed.next, now, going, arTaken]

theorem coming_fresh (now : s.current = some (.write bus word)) (fresh : s.sent = false)
    (contV : s.master.contV = false) (silent : s.memory.answered i.pace = none)
    (going : s.done c i = false) (slot : (s.next c i).slot = s.slot) :
    s.comingPlaces c bus = (s.taken c i).places ++ (s.next c i).comingPlaces c bus ∧
      s.comingLanes c bus word = (s.taken c i).lanes ++ (s.next c i).comingLanes c bus word := by
  obtain ⟨aw, w, accept⟩ := @sends_fresh c i s bus word now fresh contV
  have sent := next_sent now going
  rw [fresh, Bool.false_or] at sent
  have regs := @next_master c i s
  have req := req_write now
  have second : (if c.two bus && c.split bus then
      burst (c.writeId s.slot) (c.beatAddr bus + 8) 0 else []) =
        if c.split bus then burst (c.writeId s.slot) (c.beatAddr bus + 8) 0 else [] := by
    cases split : c.split bus with
    | false => rw [Bool.and_false]
    | true => rw [two_of_split split, Bool.and_true]
  unfold comingPlaces comingLanes Packed.taken
  rw [slot, aw, w, fresh, sent]
  cases taken : s.master.wTaken c s.req (s.axi i) with
  | true =>
    obtain ⟨contV', -, -, contAw, contAwDone, contWDone, -⟩ := next_accept taken silent
    rw [taken] at accept
    have both := (Bool.and_eq_true _ _).mp accept.symm
    rw [contV', contAw, contAwDone, contWDone, req]
    simp only [Bool.false_eq_true, if_false, if_true, Bool.not_false, Bool.and_true]
    rw [second]
    constructor
    · have address := both.1
      cases here : s.master.hdAwDone with
      | true => rfl
      | false =>
        rw [here, Bool.false_or] at address
        rw [address]
        rfl
    · have data := both.2
      cases here : s.master.hdWDone with
      | true => rfl
      | false =>
        rw [here, Bool.false_or] at data
        rw [data]
        rfl
  | false =>
    have asks : s.req.wReq = true := by
      rw [req, fresh]
      rfl
    rw [taken, contV, asks] at regs
    simp only [Bool.false_eq_true, if_false, Bool.not_false, Bool.and_true, if_true] at regs
    have awTaken : s.master.awTaken c s.req (s.axi i) = (!s.master.hdAwDone && i.pace.awready) := by
      unfold Master.awTaken
      rw [aw]
      cases s.master.hdAwDone <;> rfl
    have wTaken : s.master.wBeatTaken c s.req (s.axi i) = (!s.master.hdWDone && i.pace.wready) := by
      unfold Master.wBeatTaken
      rw [w]
      cases s.master.hdWDone <;> rfl
    rw [regs.2.1, regs.2.2, awTaken, wTaken]
    constructor
    · cases s.master.hdAwDone <;> cases i.pace.awready <;> rfl
    · cases s.master.hdWDone <;> cases i.pace.wready <;> rfl

theorem Writing.next_fresh (w : Writing c s bus word orig gone n) (now : s.current = some (.write bus word))
    (fresh : s.sent = false) :
    Writing c (s.next c i) bus word orig [] 0 ∧ s.done c i = false ∧ (s.next c i).slot = s.slot := by
  obtain ⟨zero, performs, answered⟩ := w.nothing (i := i) fresh
  obtain ⟨contV, none_, notBoth⟩ := w.unsent fresh
  subst zero none_
  have quiet : s.master.bDone c (s.axi i) = false := by simp [Master.bDone, axi, answered]
  have done : s.done c i = false := by
    unfold Packed.done
    rw [now]
    exact quiet
  have slot : (s.next c i).slot = s.slot := by simp [Packed.next, quiet]
  obtain ⟨places, lanes⟩ := @coming_fresh c i s bus word now fresh contV answered done slot
  obtain ⟨aw, w', accept⟩ := @sends_fresh c i s bus word now fresh contV
  have sent := next_sent now done
  have regs := @next_master c i s
  have req := req_write now
  rw [fresh, Bool.false_or] at sent
  refine ⟨⟨?_, ?_, ?_, ?_, ?_⟩, done, slot⟩
  · have step := w.performed.next (p := i.pace) places lanes
    rw [performs, answered] at step
    rw [slot]
    exact step
  · intro still
    rw [sent] at still
    have asks : s.req.wReq = true := by
      rw [req, fresh]
      rfl
    rw [still, contV, asks] at regs
    simp only [Bool.false_eq_true, if_false, Bool.not_false, Bool.and_true, if_true] at regs
    rw [still] at accept
    refine ⟨regs.1, rfl, ?_⟩
    rw [regs.2.1, regs.2.2]
    unfold Master.awTaken Master.wBeatTaken
    rw [aw, w', ← Bool.not_eq_true]
    intro both
    revert accept both
    cases s.master.hdAwDone <;> cases s.master.hdWDone <;> simp [axi]
  · intro taken
    rw [sent] at taken
    have left := @next_accept c i s taken answered
    rw [req] at left
    rw [slot]
    exact ⟨left.2.1, left.2.2.1, left.2.2.2.2.2.2.2.2.2.1, left.2.2.2.2.2.2.2.2.2.2⟩
  · intro taken open_
    rw [sent] at taken
    obtain ⟨contV', -, -, contAw, contAwDone, contWDone, contAddr, data, contId, -⟩ :=
      @next_accept c i s taken answered
    rw [req] at contV' contAw contAddr data contId
    rw [slot]
    exact ⟨contAw, contV'.symm.trans open_, contAddr, data, contId, by rw [contWDone, Bool.false_and]⟩
  · split <;> exact Nat.succ_pos _

theorem sends_taken (now : s.current = some (.write bus word)) (taken : s.sent = true) :
    s.master.aw c s.req =
        (if s.master.contV && s.master.contAw && !s.master.contAwDone then
          some ⟨c.writeId s.master.contId, s.master.contAddr, 0⟩ else none) ∧
      s.master.w c s.req =
        (if s.master.contV && !s.master.contWDone then
          some ⟨s.master.contData, s.master.contStrb, true⟩ else none) ∧
      s.master.wTaken c s.req (s.axi i) = false := by
  have req := req_write now
  rw [taken] at req
  rw [req]
  refine ⟨?_, ?_, ?_⟩
  · cases open_ : s.master.contV <;> simp [Master.aw, open_]
  · cases open_ : s.master.contV <;> simp [Master.w, open_]
  · simp [Master.wTaken]

theorem next_cont (now : s.current = some (.write bus word)) (taken : s.sent = true) :
    ((s.next c i).master.contV = true → s.master.contV = true ∧
        ((s.next c i).master.contWDone &&
          (!(s.next c i).master.contAw || (s.next c i).master.contAwDone)) = false) ∧
      (s.next c i).master.hdAwDone = s.master.hdAwDone ∧
      (s.next c i).master.hdWDone = s.master.hdWDone := by
  obtain ⟨aw, w, waits⟩ := @sends_taken c i s bus word now taken
  have regs := @next_master c i s
  obtain ⟨contAw, -, -, -, -, -, others, -⟩ := next_waiting waits
  have asks : s.req.wReq = false := by
    rw [req_write now, taken]
    rfl
  rw [waits, asks, Bool.and_false] at regs
  simp only [Bool.false_eq_true, if_false] at regs
  refine ⟨?_, regs.2.1, regs.2.2⟩
  intro open_
  rw [regs.1] at open_
  cases before : s.master.contV with
  | false =>
    rw [before] at open_
    cases open_
  | true =>
    obtain ⟨awDone, wDone⟩ := others before
    rw [before, if_pos rfl, Bool.not_eq_true'] at open_
    rw [contAw, awDone, wDone]
    refine ⟨rfl, ?_⟩
    rw [Bool.and_comm, ← Bool.or_assoc]
    exact open_

theorem Writing.coming_taken (w : Writing c s bus word orig gone n)
    (now : s.current = some (.write bus word)) (taken : s.sent = true) :
    s.comingPlaces c bus = (s.taken c i).places ++
        (if (s.next c i).master.contV && (s.next c i).master.contAw && !(s.next c i).master.contAwDone then
          burst (c.writeId s.slot) (c.beatAddr bus + 8) 0 else []) ∧
      s.comingLanes c bus word = (s.taken c i).lanes ++
        (if (s.next c i).master.contV && !(s.next c i).master.contWDone then [c.secondLanes bus word]
          else []) := by
  obtain ⟨aw, w', waits⟩ := @sends_taken c i s bus word now taken
  have regs := (@next_master c i s).1
  obtain ⟨contAw, -, -, -, -, -, others, -⟩ := next_waiting waits
  rw [waits, if_neg Bool.false_ne_true] at regs
  unfold comingPlaces comingLanes Packed.taken
  rw [aw, w', taken, contAw]
  cases open_ : s.master.contV with
  | false =>
    rw [open_, if_neg Bool.false_ne_true] at regs
    rw [regs]
    exact ⟨rfl, rfl⟩
  | true =>
    obtain ⟨-, -, contAddr, data, contId, -⟩ := w.cont taken open_
    obtain ⟨awDone, wDone⟩ := others open_
    have awTaken : s.master.awTaken c s.req (s.axi i) =
        (s.master.contAw && !s.master.contAwDone && i.pace.awready) := by
      unfold Master.awTaken
      rw [aw, open_]
      cases s.master.contAw <;> cases s.master.contAwDone <;> rfl
    have wTaken : s.master.wBeatTaken c s.req (s.axi i) = (!s.master.contWDone && i.pace.wready) := by
      unfold Master.wBeatTaken
      rw [w', open_]
      cases s.master.contWDone <;> rfl
    rw [open_, if_pos rfl, awTaken, wTaken] at regs
    have bits : s.master.contData = (c.secondLanes bus word).data := congrArg Lanes.data data
    have strobes : s.master.contStrb = (c.secondLanes bus word).strb := congrArg Lanes.strb data
    rw [regs, awDone, wDone, awTaken, wTaken, contAddr, contId, bits, strobes]
    constructor
    · cases s.master.contAw <;> cases s.master.contAwDone <;> cases i.pace.awready <;>
        cases s.master.contWDone <;> cases i.pace.wready <;> rfl
    · cases s.master.contAw <;> cases s.master.contAwDone <;> cases i.pace.awready <;>
        cases s.master.contWDone <;> cases i.pace.wready <;> rfl

theorem Writing.ids (w : Writing c s bus word orig gone n) {id : BitVec 4}
    (owed : id ∈ gone ++ s.memory.answers) : id = c.writeId s.slot := by
  rw [w.performed.answers, List.mem_map] at owed
  obtain ⟨place, member, rfl⟩ := owed
  have listed := List.mem_of_mem_take (List.mem_of_mem_filter member)
  rw [MasterConfig.writePlaces_eq] at listed
  split at listed
  · simp only [List.mem_cons, List.not_mem_nil, or_false] at listed
    obtain rfl | rfl := listed <;> rfl
  · simp only [List.mem_cons, List.not_mem_nil, or_false] at listed
    rw [listed]

theorem all_performed {slot : BitVec 4}
    (all : (if c.split bus then 2 else 1) ≤ (((c.writePlaces bus slot).take n).filter (·.last)).length) :
    (c.writePlaces bus slot).length ≤ n := by
  rw [MasterConfig.writePlaces_eq] at all ⊢
  cases two : c.two bus with
  | false =>
    rw [two] at all
    match n with
    | 0 =>
      rw [List.take_zero] at all
      split at all <;> cases all
    | n + 1 => exact Nat.succ_pos n
  | true =>
    rw [two] at all
    match n with
    | 0 =>
      rw [List.take_zero] at all
      split at all <;> cases all
    | 1 =>
      cases split : c.split bus <;> simp [split] at all
    | n + 2 => exact Nat.le_add_left 2 n

theorem lasts_le {slot : BitVec 4} :
    (((c.writePlaces bus slot).take n).filter (·.last)).length ≤ if c.split bus then 2 else 1 := by
  have whole : (((c.writePlaces bus slot).take n).filter (·.last)).length ≤
      ((c.writePlaces bus slot).filter (·.last)).length :=
    ((List.take_sublist n _).filter _).length_le
  apply Nat.le_trans whole
  rw [MasterConfig.writePlaces_eq]
  cases split : c.split bus with
  | true =>
    rw [two_of_split split]
    exact Nat.le_refl 2
  | false => cases c.two bus <;> exact Nat.le_refl 1

theorem Writing.answer_taken (w : Writing c s bus word orig gone n)
    (now : s.current = some (.write bus word)) (taken : s.sent = true)
    (pointer : s.master.ansPtr = s.slot) {id : BitVec 4} (answered : s.memory.answered i.pace = some id) :
    s.master.bSlot c (s.axi i) = s.slot ∧ s.master.firstB c (s.axi i) = (c.split bus && gone.isEmpty) ∧
      s.done c i = !(c.split bus && gone.isEmpty) := by
  obtain ⟨-, -, splitQ, firstBQ⟩ := w.took taken
  have member : id ∈ s.memory.answers := by
    unfold ByteMemory.answered at answered
    split at answered
    · exact List.mem_of_head? answered
    · cases answered
  have named := w.ids (List.mem_append_right gone member)
  have bid : (s.axi i).bid = c.writeId s.slot := by simp [axi, answered, named]
  have slotted : s.master.bSlot c (s.axi i) = s.slot := by
    unfold Master.bSlot
    rw [bid]
    unfold MasterConfig.writeId
    cases c.oneWriteId <;> simp [pointer]
  have first : s.master.firstB c (s.axi i) = (c.split bus && gone.isEmpty) := by
    unfold Master.firstB
    rw [slotted, splitQ, firstBQ, Bool.not_not]
  refine ⟨slotted, first, ?_⟩
  unfold Packed.done Master.bDone
  rw [now, first]
  simp [axi, answered]

theorem done_silent (now : s.current = some (.write bus word)) (silent : s.memory.answered i.pace = none) :
    s.done c i = false := by
  unfold Packed.done Master.bDone
  rw [now]
  simp [axi, silent]

theorem Writing.next_taken (w : Writing c s bus word orig gone n)
    (now : s.current = some (.write bus word)) (taken : s.sent = true)
    (pointer : s.master.ansPtr = s.slot) (going : s.done c i = false) :
    Writing c (s.next c i) bus word orig (gone ++ (s.memory.answered i.pace).toList)
      (n + (s.memory.performs i.pace).toList.length) ∧ (s.next c i).slot = s.slot := by
  obtain ⟨hdAwDone, hdWDone, splitQ, firstBQ⟩ := w.took taken
  obtain ⟨aw, w', waits⟩ := @sends_taken c i s bus word now taken
  obtain ⟨cont, awKept, wKept⟩ := @next_cont c i s bus word now taken
  obtain ⟨contAw, contAddr, contData, contStrb, contId, splits, -, firsts⟩ := next_waiting waits
  obtain ⟨places, lanes⟩ := @Writing.coming_taken c i s bus word orig gone n w now taken
  have sent := next_sent now going
  rw [taken, Bool.true_or] at sent
  have slot : (s.next c i).slot = s.slot := by
    have quiet : s.master.bDone c (s.axi i) = false := by
      unfold Packed.done at going
      rw [now] at going
      exact going
    simp [Packed.next, quiet]
  refine ⟨⟨?_, ?_, ?_, ?_, ?_⟩, slot⟩
  · rw [slot]
    unfold comingPlaces comingLanes
    rw [sent, if_pos rfl, if_pos rfl, slot]
    exact w.performed.next places lanes
  · intro fresh
    rw [sent] at fresh
    cases fresh
  · intro _
    rw [slot, awKept, wKept, hdAwDone, hdWDone, splits, splitQ, firsts]
    refine ⟨rfl, rfl, rfl, ?_⟩
    cases answered : s.memory.answered i.pace with
    | none => simp [axi, answered, firstBQ]
    | some id =>
      obtain ⟨slotted, first, done⟩ := w.answer_taken now taken pointer answered
      rw [done, Bool.not_eq_false'] at going
      have live : (s.axi i).bvalid = true := by simp [axi, answered]
      rw [live, first, going, slotted]
      simp
  · intro _ open_
    obtain ⟨before, more⟩ := cont open_
    obtain ⟨aw0, two, addr0, data0, id0, -⟩ := w.cont taken before
    rw [slot]
    refine ⟨contAw.trans aw0, two, contAddr.trans addr0, ?_, contId.trans id0, more⟩
    rw [contData, contStrb]
    exact data0
  · cases answered : s.memory.answered i.pace with
    | none => simpa using w.left
    | some id =>
      obtain ⟨slotted, first, done⟩ := w.answer_taken now taken pointer answered
      rw [done, Bool.not_eq_false', Bool.and_eq_true] at going
      rw [going.1, List.isEmpty_iff.mp going.2]
      exact Nat.lt_succ_self 1

theorem Writing.finish (w : Writing c s bus word orig gone n) (aligned : c.Aligned)
    (now : s.current = some (.write bus word)) (taken : s.sent = true)
    (pointer : s.master.ansPtr = s.slot) (done : s.done c i = true) :
    WriteQuiet (s.next c i) ∧ (s.next c i).memory.bytes = c.store orig bus word := by
  obtain ⟨hdAwDone, hdWDone, splitQ, firstBQ⟩ := w.took taken
  obtain ⟨aw, w', waits⟩ := @sends_taken c i s bus word now taken
  obtain ⟨cont, awKept, wKept⟩ := @next_cont c i s bus word now taken
  obtain ⟨places, lanes⟩ := @Writing.coming_taken c i s bus word orig gone n w now taken
  have step := w.performed.next (p := i.pace) places lanes
  cases answered : s.memory.answered i.pace with
  | none =>
    rw [done_silent now answered] at done
    cases done
  | some id =>
    obtain ⟨slotted, first, last⟩ := w.answer_taken now taken pointer answered
    rw [answered] at step
    have count : (if c.split bus then 2 else 1) ≤ (gone ++ (some id).toList).length := by
      rw [last, Bool.not_eq_true'] at done
      rw [List.length_append]
      cases split : c.split bus with
      | false => exact Nat.le_add_left 1 _
      | true =>
        rw [split, Bool.true_and] at done
        have one : 0 < gone.length := List.length_pos_iff.mpr fun empty => by simp [empty] at done
        exact Nat.succ_le_succ one
    generalize n + (s.memory.performs i.pace).toList.length = k at step
    have lengths := congrArg List.length step.answers
    rw [List.length_append, List.length_map] at lengths
    have most := @lasts_le c bus k s.slot
    have all := @all_performed c bus k s.slot (by omega)
    have beats : (c.writeLanes bus word).length = (c.writePlaces bus s.slot).length := by
      rw [MasterConfig.writePlaces_eq]
      unfold MasterConfig.writeLanes
      cases c.two bus <;> rfl
    have noPlaces := step.places
    have noLanes := step.lanes
    rw [List.drop_eq_nil_of_le all, List.append_eq_nil_iff] at noPlaces
    rw [List.drop_eq_nil_of_le (by omega), List.append_eq_nil_iff] at noLanes
    have written := step.bytes
    rw [List.take_of_length_le (by rw [List.length_zip]; omega), c.wrote_word aligned] at written
    refine ⟨⟨?_, awKept.trans hdAwDone, wKept.trans hdWDone, noPlaces.1, noLanes.1, ?_⟩, written⟩
    · rw [← Bool.not_eq_true]
      intro open_
      have more := (cont open_).2
      have noAddress := noPlaces.2
      have noData := noLanes.2
      rw [open_, Bool.true_and] at noAddress noData
      have data : (s.next c i).master.contWDone = true := by
        cases here : (s.next c i).master.contWDone with
        | true => rfl
        | false =>
          rw [here] at noData
          cases noData
      have address : (!(s.next c i).master.contAw || (s.next c i).master.contAwDone) = true := by
        cases wants : (s.next c i).master.contAw with
        | false => rfl
        | true =>
          cases here : (s.next c i).master.contAwDone with
          | true => rfl
          | false =>
            rw [wants, here] at noAddress
            cases noAddress
      rw [data, address] at more
      cases more
    · show (s.memory.next i.pace (s.taken c i)).answers = []
      exact List.eq_nil_of_length_eq_zero (by omega)

theorem next_reads (s : Packed) :
    (s.next c i).master.rstate = (if s.master.rdLast (s.axi i) then .idle else
        match s.master.rstate with
        | .idle => if s.master.arTaken s.req (s.axi i) then
            if c.lineSplit s.req.arLine then .second else .data else .idle
        | .second => if (s.axi i).arready then .data else .second
        | .data => .data) ∧
      (s.next c i).master.secondAddr = (if s.master.arTaken s.req (s.axi i) then
        (c.secondAr s.req.arLine).addr else s.master.secondAddr) ∧
      (s.next c i).master.secondLen = (if s.master.arTaken s.req (s.axi i) then
        (c.secondAr s.req.arLine).len else s.master.secondLen) ∧
      (s.next c i).master.beat = (if s.master.rstate != .idle && (s.axi i).rvalid then s.master.beat + 1
        else if s.master.arTaken s.req (s.axi i) then 0 else s.master.beat) ∧
      (s.next c i).master.rWin = (if s.master.arTaken s.req (s.axi i) then s.req.arLine.getLsbD 25
        else s.master.rWin) ∧
      (s.next c i).master.beats = (if s.master.rstate != .idle && (s.axi i).rvalid &&
          decide (s.master.beat < 4#3) then
        Function.update s.master.beats (s.master.beat.extractLsb' 0 2) (s.axi i).rdata
        else s.master.beats) := by
  unfold Packed.next Master.next Master.writeNext
  rw [if_neg Bool.false_ne_true, Master.answer_eq, Master.continuation_eq, Master.offer_eq,
    Master.readNext_eq]
  exact ⟨rfl, rfl, rfl, rfl, rfl, rfl⟩

theorem ReadQuiet.next (quiet : ReadQuiet s) (none_ : s.req.arReq = false) : ReadQuiet (s.next c i) := by
  obtain ⟨rstate, reads⟩ := quiet
  have ar : s.master.ar c s.req = none := by simp [Master.ar, rstate, none_]
  have arTaken : s.master.arTaken s.req (s.axi i) = false := by simp [Master.arTaken, none_]
  have last : s.master.rdLast (s.axi i) = false := by simp [Master.rdLast, rstate]
  have regs := @next_reads c i s
  rw [last, rstate, arTaken] at regs
  refine ⟨regs.1, ?_⟩
  simp [Packed.next, ByteMemory.next, ByteMemory.given, reads, taken, ar]

/-- The beats a line's addresses have still to ask. -/
def comingReads (c : MasterConfig) (s : Packed) (line : BitVec 26) : List (BitVec 32) :=
  if s.sent then
    if s.master.rstate = .second then beatsFrom (c.secondAr line).addr (c.secondAr line).len else []
  else c.lineReads line

/-- A line read under way: the beats given, as the master holds them, and those to come. -/
structure Reading (c : MasterConfig) (s : Packed) (line : BitVec 26) (orig : Bytes) (n : Nat) : Prop where
  gave : Gave (c.lineReads line) (s.comingReads c line) n s.memory
  bytes : s.memory.bytes = orig
  fresh : s.sent = false → s.master.rstate = .idle
  took : s.sent = true → s.master.rstate ≠ .idle ∧ s.master.beat = BitVec.ofNat 3 n ∧
    s.master.rWin = line.getLsbD 25 ∧
    (s.master.rstate = .second →
      (⟨s.master.secondAddr, s.master.secondLen⟩ : ArBeat) = c.secondAr line) ∧
    ∀ k < n, k < 4 → s.master.beats (BitVec.ofNat 2 k) =
      orig.beat (c.lineByte line + BitVec.ofNat 32 (8 * k))
  left : n < MasterConfig.lineBeats line

variable {line : BitVec 26}

theorem req_read (now : s.current = some (.read line)) :
    s.req = ⟨!s.sent, line, false, 0, 0, s.slot⟩ := by
  unfold req
  rw [now]

theorem WriteQuiet.bytes (quiet : WriteQuiet s) : (s.next c i).memory.bytes = s.memory.bytes := by
  have performs : s.memory.performs i.pace = none := by
    unfold ByteMemory.performs
    rw [quiet.places]
    cases i.pace.perform <;> rfl
  simp [Packed.next, ByteMemory.next, performs]

theorem next_sent_read (now : s.current = some (.read line)) (going : s.done c i = false) :
    (s.next c i).sent = (s.sent || s.master.arTaken s.req (s.axi i)) := by
  have wTaken : s.master.wTaken c s.req (s.axi i) = false := by
    rw [req_read now]
    simp [Master.wTaken]
  simp [Packed.next, now, going, wTaken]

theorem sends_line (now : s.current = some (.read line)) (fresh : s.sent = false)
    (rstate : s.master.rstate = .idle) :
    s.master.ar c s.req = some (c.lineAr line) ∧
      s.master.arTaken s.req (s.axi i) = i.pace.arready ∧ s.done c i = false ∧
      (s.next c i).master.rstate =
        if i.pace.arready then if c.lineSplit line then .second else .data else .idle := by
  have req := req_read now
  rw [fresh] at req
  have last : s.master.rdLast (s.axi i) = false := by simp [Master.rdLast, rstate]
  have arTaken : s.master.arTaken s.req (s.axi i) = i.pace.arready := by
    simp [Master.arTaken, rstate, req, axi]
  refine ⟨by simp [Master.ar, rstate, req], arTaken, ?_, ?_⟩
  · unfold Packed.done
    rw [now]
    exact last
  · rw [(@next_reads c i s).1, last, rstate, arTaken, req, if_neg Bool.false_ne_true]

theorem coming_line (now : s.current = some (.read line)) (fresh : s.sent = false)
    (rstate : s.master.rstate = .idle) :
    s.comingReads c line = (s.taken c i).reads ++ (s.next c i).comingReads c line := by
  obtain ⟨ar, arTaken, going, rstate'⟩ := @sends_line c i s line now fresh rstate
  have sent := next_sent_read now going
  rw [fresh, arTaken, Bool.false_or] at sent
  unfold comingReads Packed.taken
  rw [fresh, sent, rstate', ar]
  cases i.pace.arready with
  | false => rfl
  | true =>
    rw [if_neg Bool.false_ne_true]
    unfold MasterConfig.lineReads
    cases c.lineSplit line <;> rfl

section

variable (reading : Reading c s line orig n)

include reading

theorem Reading.next_fresh (quiet : WriteQuiet s)
    (now : s.current = some (.read line)) (fresh : s.sent = false) :
    Reading c (s.next c i) line orig 0 ∧ s.done c i = false := by
  obtain ⟨gave, bytes, idle, -, left⟩ := reading
  have rstate := idle fresh
  obtain ⟨ar, arTaken, done, rstate'⟩ := @sends_line c i s line now fresh rstate
  have coming : s.comingReads c line = c.lineReads line := by
    unfold comingReads
    rw [fresh, if_neg Bool.false_ne_true]
  have size := congrArg List.length gave
  rw [coming, List.length_append, List.length_drop] at size
  have reads : s.memory.reads = [] := List.eq_nil_of_length_eq_zero (by omega)
  have given : s.memory.given i.pace = none := by simp [ByteMemory.given, reads]
  have req := req_read now
  have sent := next_sent_read now done
  rw [fresh, arTaken, Bool.false_or] at sent
  obtain ⟨-, secondAddr, secondLen, beat, rWin, -⟩ := @next_reads c i s
  rw [arTaken] at secondAddr secondLen beat rWin
  have zero : Gave (c.lineReads line) (s.comingReads c line) 0 s.memory := by
    rw [coming]
    unfold Gave
    rw [reads]
    rfl
  refine ⟨⟨?_, quiet.bytes.trans bytes, ?_, ?_, by omega⟩, done⟩
  · have step := zero.next (p := i.pace) (coming_line (i := i) now fresh rstate)
    rw [given] at step
    exact step
  · intro still
    rw [sent] at still
    rw [rstate', still]
    rfl
  · intro taken
    rw [sent] at taken
    rw [taken] at rstate' secondAddr secondLen beat rWin
    rw [rstate] at beat
    rw [req] at secondAddr secondLen rWin
    refine ⟨?_, ?_, rWin, ?_, fun k before => absurd before (Nat.not_lt_zero k)⟩
    · rw [rstate']
      cases c.lineSplit line <;> simp
    · rw [beat]
      rfl
    · intro _
      rw [secondAddr, secondLen]
      rfl

theorem Reading.gives (aligned : c.Aligned) (taken : s.sent = true) :
    (∀ data, s.memory.given i.pace = some data →
      data = orig.beat (c.lineByte line + BitVec.ofNat 32 (8 * n))) ∧
    s.master.rdLast (s.axi i) =
      ((s.memory.given i.pace).isSome && decide (n + 1 = MasterConfig.lineBeats line)) := by
  obtain ⟨gave, bytes, -, took, left⟩ := reading
  obtain ⟨live, beat, rWin, -, -⟩ := took taken
  constructor
  · intro data given
    obtain ⟨addr, wanted, read⟩ := gave.given given
    rw [c.lineReads_eq aligned, List.getElem?_map, List.getElem?_range left, Option.map_some] at wanted
    rw [read, bytes, ← Option.some.inj wanted]
  · unfold Master.rdLast Master.lastBeat
    have far : (s.master.rstate != .idle) = true := by simpa using live
    have same : (s.master.beat == if s.master.rWin then 3#3 else 4#3) =
        decide (n + 1 = MasterConfig.lineBeats line) := by
      rw [beat, rWin]
      unfold MasterConfig.lineBeats at left ⊢
      rw [Bool.eq_iff_iff, beq_iff_eq, decide_eq_true_eq, ← BitVec.toNat_inj, BitVec.toNat_ofNat]
      cases window : line.getLsbD 25 with
      | true =>
        rw [window] at left
        simp only [if_true] at left ⊢
        show n % 8 = 3 ↔ _
        omega
      | false =>
        rw [window] at left
        simp only [Bool.false_eq_true, if_false] at left ⊢
        show n % 8 = 4 ↔ _
        omega
    rw [far, same, Bool.true_and]
    rfl

theorem Reading.coming_taken (now : s.current = some (.read line)) (taken : s.sent = true) :
    s.comingReads c line = (s.taken c i).reads ++
      if s.master.rstate = .second ∧ i.pace.arready = false then
        beatsFrom (c.secondAr line).addr (c.secondAr line).len
      else [] := by
  obtain ⟨live, -, -, second, -⟩ := reading.took taken
  unfold comingReads Packed.taken Master.ar
  rw [taken, req_read now, taken]
  cases state : s.master.rstate with
  | idle => exact absurd state live
  | second =>
    have burst := second state
    have address : s.master.secondAddr = (c.secondAr line).addr := congrArg ArBeat.addr burst
    have length : s.master.secondLen = (c.secondAr line).len := congrArg ArBeat.len burst
    cases ready : i.pace.arready with
    | true => simp [address, length]
    | false => simp
  | data => simp

theorem Reading.next_state (now : s.current = some (.read line))
    (taken : s.sent = true) (going : s.done c i = false) :
    (s.next c i).master.rstate ≠ .idle ∧
      ((s.next c i).master.rstate = .second ↔ s.master.rstate = .second ∧ i.pace.arready = false) ∧
      s.comingReads c line = (s.taken c i).reads ++ (s.next c i).comingReads c line := by
  have coming := @Reading.coming_taken c i s orig n line reading now taken
  obtain ⟨live, -⟩ := reading.took taken
  have notLast : s.master.rdLast (s.axi i) = false := by
    unfold Packed.done at going
    rw [now] at going
    exact going
  have sent := next_sent_read now going
  rw [taken, Bool.true_or] at sent
  have rstate' := (@next_reads c i s).1
  rw [notLast, if_neg Bool.false_ne_true] at rstate'
  have state : (s.next c i).master.rstate ≠ .idle ∧ ((s.next c i).master.rstate = .second ↔
      s.master.rstate = .second ∧ i.pace.arready = false) := by
    rw [rstate']
    cases here : s.master.rstate with
    | idle => exact absurd here live
    | second => cases ready : i.pace.arready <;> simp [axi, ready]
    | data => simp
  refine ⟨state.1, state.2, ?_⟩
  rw [coming]
  unfold comingReads
  rw [sent, if_pos rfl]
  simp only [state.2]

theorem Reading.next_taken (aligned : c.Aligned) (quiet : WriteQuiet s)
    (now : s.current = some (.read line)) (taken : s.sent = true) (going : s.done c i = false) :
    Reading c (s.next c i) line orig (n + (s.memory.given i.pace).toList.length) := by
  obtain ⟨data, last⟩ := @Reading.gives c i s orig n line reading aligned taken
  obtain ⟨live', second', reach⟩ := @Reading.next_state c i s orig n line reading now taken going
  obtain ⟨gave, bytes, -, took, left⟩ := reading
  obtain ⟨live, beat, rWin, second, beats⟩ := took taken
  have far : (s.master.rstate != .idle) = true := by simpa using live
  have arTaken : s.master.arTaken s.req (s.axi i) = false := by
    simp [Master.arTaken, live]
  have notLast : s.master.rdLast (s.axi i) = false := by
    unfold Packed.done at going
    rw [now] at going
    exact going
  have sent := next_sent_read now going
  rw [taken, Bool.true_or] at sent
  obtain ⟨-, secondAddr, secondLen, beat', rWin', beats'⟩ := @next_reads c i s
  rw [arTaken, if_neg Bool.false_ne_true] at secondAddr secondLen rWin'
  rw [arTaken, far, if_neg Bool.false_ne_true] at beat'
  rw [far] at beats'
  refine ⟨gave.next reach, quiet.bytes.trans bytes, ?_, ?_, ?_⟩
  · intro fresh
    rw [sent] at fresh
    cases fresh
  · intro _
    refine ⟨live', ?_, rWin'.trans rWin, ?_, ?_⟩
    · rw [beat', beat, axi]
      cases s.memory.given i.pace with
      | none => rfl
      | some word => exact (BitVec.ofNat_add n 1).symm
    · intro still
      rw [secondAddr, secondLen]
      exact second (second'.mp still).1
    · intro k before small
      rw [beats']
      cases given : s.memory.given i.pace with
      | none =>
        rw [given] at before
        simp only [axi, given, Option.isSome_none, Bool.and_false, Bool.false_and, Bool.false_eq_true,
          if_false]
        exact beats k before small
      | some word =>
        rw [given] at before
        have before : k < n + 1 := before
        have within : n < 4 := by
          rw [last, given] at notLast
          unfold MasterConfig.lineBeats at notLast left
          simp only [Option.isSome_some, Bool.true_and, decide_eq_false_iff_not] at notLast
          split at left
          · omega
          · simp_all
            omega
        have place : s.master.beat.extractLsb' 0 2 = BitVec.ofNat 2 n := by
          apply BitVec.eq_of_toNat_eq
          rw [beat, BitVec.extractLsb'_toNat, BitVec.toNat_ofNat, BitVec.toNat_ofNat, Nat.shiftRight_zero]
          omega
        have low : decide (s.master.beat < 4#3) = true := by
          rw [beat, decide_eq_true_eq, BitVec.lt_def, BitVec.toNat_ofNat]
          show n % 8 < 4
          omega
        rw [low, place]
        simp only [axi, given, Option.isSome_some, Bool.and_true, if_true, Option.getD_some]
        by_cases here : k = n
        · rw [here, Function.update_self]
          exact data word given
        · have other : BitVec.ofNat 2 k ≠ BitVec.ofNat 2 n := by
            rw [ne_eq, ← BitVec.toNat_inj, BitVec.toNat_ofNat, BitVec.toNat_ofNat]
            omega
          rw [Function.update_of_ne other]
          exact beats k (by omega) small
  · cases given : s.memory.given i.pace with
    | none => exact left
    | some word =>
      rw [last, given] at notLast
      have more : n + 1 ≠ MasterConfig.lineBeats line := by simpa using notLast
      show n + 1 < _
      omega

theorem Reading.finish (aligned : c.Aligned) (quiet : WriteQuiet s)
    (now : s.current = some (.read line)) (taken : s.sent = true) (done : s.done c i = true) :
    ReadQuiet (s.next c i) ∧ (s.next c i).memory.bytes = orig ∧
      ∀ k < 8, (s.master.rdData (s.axi i)).extractLsb' (40 * k) 40 =
        c.load orig (line ++ BitVec.ofNat 3 k) := by
  obtain ⟨data, last⟩ := @Reading.gives c i s orig n line reading aligned taken
  have coming := @Reading.coming_taken c i s orig n line reading now taken
  obtain ⟨gave, bytes, -, took, left⟩ := reading
  obtain ⟨live, beat, rWin, second, beats⟩ := took taken
  have ends : s.master.rdLast (s.axi i) = true := by
    unfold Packed.done at done
    rw [now] at done
    exact done
  have rstate' := (@next_reads c i s).1
  rw [ends, if_pos rfl] at rstate'
  cases given : s.memory.given i.pace with
  | none =>
    rw [last, given] at ends
    cases ends
  | some word =>
    rw [last, given] at ends
    have all : n + 1 = MasterConfig.lineBeats line := by simpa using ends
    refine ⟨⟨rstate', ?_⟩, quiet.bytes.trans bytes, ?_⟩
    · have step := gave.next (p := i.pace) coming
      unfold Gave at step
      rw [given, List.drop_eq_nil_of_le, List.append_eq_nil_iff] at step
      · exact step.1
      · rw [c.lineReads_eq aligned, List.length_map, List.length_range]
        exact Nat.le_of_eq all.symm
    · intro k inside
      have rdata : (s.axi i).rdata = orig.beat (c.lineByte line + BitVec.ofNat 32 (8 * n)) := by
        simp [axi, given, data word given]
      unfold MasterConfig.lineBeats at all
      unfold Master.rdData
      rw [rWin]
      cases window : line.getLsbD 25 with
      | true =>
        rw [window, if_pos rfl] at all
        have held (j : Nat) (small : j < 4) :
            (if j = 3 then (s.axi i).rdata else s.master.beats (BitVec.ofNat 2 j)) =
              orig.beat (c.lineByte line + BitVec.ofNat 32 (8 * j)) := by
          split
          · rename_i three
            rw [rdata, three, show n = 3 by omega]
          · exact beats j (by omega) small
        rw [if_pos rfl]
        refine (MasterConfig.lanes_extract (s.master.winWord (s.axi i)) inside).trans ?_
        unfold Master.winWord
        rw [held (k / 2) (by omega)]
        exact c.window_lane orig window inside
      | false =>
        rw [window, if_neg Bool.false_ne_true] at all
        have three : s.master.beats 3 = orig.beat (c.lineByte line + 24) := beats 3 (by omega) (by decide)
        have two : s.master.beats 2 = orig.beat (c.lineByte line + 16) := beats 2 (by omega) (by decide)
        have one : s.master.beats 1 = orig.beat (c.lineByte line + 8) := beats 1 (by omega) (by decide)
        have none_ : s.master.beats 0 = orig.beat (c.lineByte line + 0#32) := beats 0 (by omega) (by decide)
        have four : orig.beat (c.lineByte line + BitVec.ofNat 32 (8 * n)) =
            orig.beat (c.lineByte line + 32) := by
          rw [show n = 4 by omega]
          rfl
        rw [BitVec.add_zero] at none_
        rw [if_neg Bool.false_ne_true, rdata, four, three, two, one, none_]
        exact c.main_lane orig window inside

end

/-- A state of a run: nothing under way, a write or a line read, each as it stands, over the bytes the
operations answered make. -/
structure Held (c : MasterConfig) (s : Packed) (bytes : Bytes) : Prop where
  pointer : s.master.ansPtr = s.slot
  idle : s.current = none → WriteQuiet s ∧ ReadQuiet s ∧ s.sent = false ∧
    s.memory.bytes = s.expected c bytes
  writing : ∀ bus word, s.current = some (.write bus word) → ReadQuiet s ∧
    ∃ gone n, Writing c s bus word (s.expected c bytes) gone n
  reading : ∀ line, s.current = some (.read line) → WriteQuiet s ∧
    ∃ n, Reading c s line (s.expected c bytes) n

theorem held_start (m : Master) (bytes : Bytes) : Held c (start m bytes) bytes := by
  refine ⟨rfl, fun _ => ⟨⟨rfl, rfl, rfl, rfl, rfl, rfl⟩, ⟨rfl, rfl⟩, rfl, rfl⟩, ?_, ?_⟩
  · intro bus word now
    cases now
  · intro line now
    cases now

theorem next_pointer (pointer : s.master.ansPtr = s.slot) : (s.next c i).master.ansPtr = (s.next c i).slot := by
  unfold Packed.next Master.next Master.writeNext
  rw [if_neg Bool.false_ne_true, Master.answer_eq, Master.continuation_eq, Master.offer_eq,
    Master.readNext_eq]
  simp only [pointer]

theorem held_started (op : PackedOp) {bytes : Bytes} (writes : WriteQuiet s) (reads : ReadQuiet s)
    (fresh : s.sent = false) (now : s.current = some op) (pointer : s.master.ansPtr = s.slot)
    (same : s.memory.bytes = s.expected c bytes) : Held c s bytes := by
  refine ⟨pointer, fun idle => absurd (now.symm.trans idle) (by simp), ?_, ?_⟩
  · intro bus word write
    refine ⟨reads, [], 0, ⟨?_, ?_, same, ?_⟩, ?_, ?_, ?_, ?_⟩
    · unfold comingPlaces
      rw [writes.places, fresh, writes.hdAwDone]
      rfl
    · unfold comingLanes
      rw [writes.lanes, fresh, writes.hdWDone]
      rfl
    · rw [writes.answers]
      rfl
    · intro _
      exact ⟨writes.contV, rfl, by rw [writes.hdAwDone, Bool.false_and]⟩
    · intro taken
      exact absurd (fresh.symm.trans taken) Bool.false_ne_true
    · intro taken
      exact absurd (fresh.symm.trans taken) Bool.false_ne_true
    · split <;> exact Nat.succ_pos _
  · intro line read
    refine ⟨writes, 0, ?_, same, fun _ => reads.rstate, ?_, ?_⟩
    · unfold Gave comingReads
      rw [reads.reads, fresh]
      rfl
    · intro taken
      exact absurd (fresh.symm.trans taken) Bool.false_ne_true
    · unfold MasterConfig.lineBeats
      split <;> exact Nat.succ_pos _

theorem next_of_done (op : PackedOp) (now : s.current = some op) (done : s.done c i = true) :
    (s.next c i).current = none ∧ (s.next c i).sent = false ∧
      ∀ bytes, (s.next c i).expected c bytes = op.after c (s.expected c bytes) := by
  refine ⟨by simp [Packed.next, done], by simp [Packed.next, done], ?_⟩
  intro bytes
  unfold expected Packed.next
  dsimp only
  rw [done, if_pos rfl, now]
  simp

theorem next_of_going (op : PackedOp) (now : s.current = some op) (going : s.done c i = false) :
    (s.next c i).current = some op ∧ ∀ bytes, (s.next c i).expected c bytes = s.expected c bytes := by
  refine ⟨by simp [Packed.next, going, now], ?_⟩
  intro bytes
  simp [expected, Packed.next, going]

theorem held_writing {bytes : Bytes} (pointer : s.master.ansPtr = s.slot)
    (now : s.current = some (.write bus word)) (reads : ReadQuiet s)
    (writing : Writing c s bus word (s.expected c bytes) gone n) : Held c s bytes := by
  refine ⟨pointer, fun idle => absurd (now.symm.trans idle) (by simp), ?_, ?_⟩
  · intro bus' word' write
    simp only [now, Option.some.injEq, PackedOp.write.injEq] at write
    rw [← write.1, ← write.2]
    exact ⟨reads, gone, n, writing⟩
  · intro line read
    exact absurd (now.symm.trans read) (by simp)

theorem held_reading {bytes : Bytes} (pointer : s.master.ansPtr = s.slot)
    (now : s.current = some (.read line)) (writes : WriteQuiet s)
    (reading : Reading c s line (s.expected c bytes) n) : Held c s bytes := by
  refine ⟨pointer, fun idle => absurd (now.symm.trans idle) (by simp), ?_, ?_⟩
  · intro bus word write
    exact absurd (now.symm.trans write) (by simp)
  · intro line' read
    simp only [now, Option.some.injEq, PackedOp.read.injEq] at read
    rw [← read]
    exact ⟨writes, n, reading⟩

theorem held_idle {bytes : Bytes} (pointer : s.master.ansPtr = s.slot) (now : s.current = none)
    (writes : WriteQuiet s) (reads : ReadQuiet s) (fresh : s.sent = false)
    (same : s.memory.bytes = s.expected c bytes) : Held c s bytes := by
  refine ⟨pointer, fun _ => ⟨writes, reads, fresh, same⟩, ?_, ?_⟩
  · intro bus word write
    exact absurd (now.symm.trans write) (by simp)
  · intro line read
    exact absurd (now.symm.trans read) (by simp)

theorem Held.next {bytes : Bytes} (held : Held c s bytes) (aligned : c.Aligned) :
    Held c (s.next c i) bytes := by
  have pointer := @next_pointer c i s held.pointer
  cases now : s.current with
  | none =>
    obtain ⟨writes, reads, fresh, same⟩ := held.idle now
    have asks : s.req = ⟨false, 0, false, 0, 0, s.slot⟩ := by
      unfold req
      rw [now]
    have done : s.done c i = false := by
      unfold Packed.done
      rw [now]
    have current : (s.next c i).current = i.start := by simp [Packed.next, done, now]
    have sent : (s.next c i).sent = false := by simp [Packed.next, now]
    have expected' : (s.next c i).expected c bytes = s.expected c bytes := by
      simp [expected, Packed.next, done]
    have writes' := @WriteQuiet.next c i s writes (by rw [asks])
    have reads' := @ReadQuiet.next c i s reads (by rw [asks])
    have same' : (s.next c i).memory.bytes = (s.next c i).expected c bytes := by
      rw [expected', ← same]
      exact writes.bytes
    cases start : i.start with
    | none =>
      rw [start] at current
      exact held_idle pointer current writes' reads' sent same'
    | some op =>
      rw [start] at current
      exact held_started op writes' reads' sent current pointer same'
  | some op =>
    cases op with
    | write bus word =>
      obtain ⟨reads, gone, n, writing⟩ := held.writing bus word now
      have reads' := @ReadQuiet.next c i s reads (by rw [req_write now])
      cases taken : s.sent with
      | false =>
        obtain ⟨writing', going, -⟩ := writing.next_fresh (i := i) now taken
        obtain ⟨current, same⟩ := next_of_going _ now going
        rw [← same bytes] at writing'
        exact held_writing pointer current reads' writing'
      | true =>
        cases done : s.done c i with
        | false =>
          have writing' := (writing.next_taken (i := i) now taken held.pointer done).1
          obtain ⟨current, same⟩ := next_of_going _ now done
          rw [← same bytes] at writing'
          exact held_writing pointer current reads' writing'
        | true =>
          obtain ⟨writes', written⟩ := writing.finish (i := i) aligned now taken held.pointer done
          obtain ⟨current, sent, same⟩ := next_of_done _ now done
          exact held_idle pointer current writes' reads' sent (written.trans (same bytes).symm)
    | read line =>
      obtain ⟨writes, n, reading⟩ := held.reading line now
      have writes' := @WriteQuiet.next c i s writes (by rw [req_read now])
      cases taken : s.sent with
      | false =>
        obtain ⟨reading', going⟩ := reading.next_fresh (i := i) writes now taken
        obtain ⟨current, same⟩ := next_of_going _ now going
        rw [← same bytes] at reading'
        exact held_reading pointer current writes' reading'
      | true =>
        cases done : s.done c i with
        | false =>
          have reading' := reading.next_taken (i := i) aligned writes now taken done
          obtain ⟨current, same⟩ := next_of_going _ now done
          rw [← same bytes] at reading'
          exact held_reading pointer current writes' reading'
        | true =>
          obtain ⟨reads', same', -⟩ := reading.finish (i := i) aligned writes now taken done
          obtain ⟨current, sent, same⟩ := next_of_done _ now done
          exact held_idle pointer current writes' reads' sent (same'.trans (same bytes).symm)

/-- The port is held in every run. -/
theorem held_run (aligned : c.Aligned) (m : Master) (bytes : Bytes) (e : Nat → PackedIn) (t : Nat) :
    Held c (run c m bytes e t) bytes := by
  induction t with
  | zero => exact held_start m bytes
  | succ t ih => exact ih.next aligned

theorem Held.wrote {bytes : Bytes} (held : Held c s bytes) (aligned : c.Aligned) {bus : BitVec 29}
    {word : BitVec 40} (now : s.current = some (.write bus word)) (done : s.done c i = true) :
    (s.next c i).memory.bytes = c.store (s.expected c bytes) bus word := by
  obtain ⟨-, gone, n, writing⟩ := held.writing bus word now
  cases taken : s.sent with
  | false =>
    have going := (writing.next_fresh (i := i) now taken).2.1
    exact absurd (going.symm.trans done) Bool.false_ne_true
  | true => exact (writing.finish aligned now taken held.pointer done).2

/-- A read gives the bytes last written. -/
theorem Held.gave {bytes : Bytes} (held : Held c s bytes) (aligned : c.Aligned) {line : BitVec 26}
    (now : s.current = some (.read line)) (done : s.done c i = true) {k : Nat} (inside : k < 8) :
    (s.master.rdData (s.axi i)).extractLsb' (40 * k) 40 =
      c.load (s.expected c bytes) (line ++ BitVec.ofNat 3 k) := by
  obtain ⟨writes, n, reading⟩ := held.reading line now
  cases taken : s.sent with
  | false =>
    have going := (reading.next_fresh (i := i) writes now taken).2
    exact absurd (going.symm.trans done) Bool.false_ne_true
  | true => exact (reading.finish aligned writes now taken done).2.2 k inside

end Packed

end MuirFpga.Quux
