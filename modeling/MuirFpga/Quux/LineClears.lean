import MuirFpga.Quux.EthernetRings
import MuirFpga.Quux.EthernetEpoch

/-!
# The engine clears the entry's lines

From the clock it leaves idle until it moves 251, the engine reads the entry's three words and clears
the lines of the buffer's words, its length clamped to the room and to the longest frame, and then the
entry's own line; nothing else. A reset or a disable drops what is under way and puts the indexes at 0.
-/

namespace MuirFpga.Quux.Ethernet

open Sync

namespace State

variable (s : State) (i : Input)

/-- `e_slot`, `e_entry`: the entry of 251. -/
def eSlot : BitVec 16 := s.dev.rxCons &&& ((1#16 <<< s.dev.rxLog2) - 1#16)
def eEntry : BitVec 28 := s.dev.rxBase + (0#9 ++ s.eSlot ++ 0#3)

/-- `e_want`, `e_start`, `e_rd`, `e_addr`: the engine's read of the entry. -/
def eWant : Bool := s.es == .grant || s.es == .start || s.es == .rd0 || s.es == .rd1 || s.es == .rd2
def eStart : Bool := s.es == .start
def eRd : Bool := s.es == .rd0 || s.es == .rd1 || s.es == .rd2
def eAddr : BitVec 28 := s.eEntry + (if s.es = .rd1 then 1#28 else if s.es = .rd2 then 2#28 else 0#28)

/-- `c_req`, `c_line`: a line's clear. -/
def cReq : Bool := s.es == .clr || s.es == .entry
def cLine : BitVec 26 := 0#1 ++ (if s.es = .entry then s.eEntry.extractLsb' 3 25 else s.eLine)

/-- The read answered at a clock, and the clear accepted. -/
def reads : List (BitVec 28 × BitVec 40) := if s.eRd && i.eDone then [(s.eAddr, i.eData)] else []
def clears : List (BitVec 26) := if s.cReq && i.cDone then [s.cLine] else []

/-- The engine is cut short: a reset, or a device disabled. -/
def cut (mainWords : Nat) (s : State) (i : Input) : Bool := i.rst || !(s.device mainWords i).on

end State

/-- A buffer's words: the length, no more than the room and the longest frame, in words. -/
def bufferWords (room length : BitVec 32) : Nat :=
  (min (min length.toNat room.toNat) 1514 + 3) / 4

/-- The lines of a buffer's words. -/
def bufferLines (buf : BitVec 28) (words : Nat) : List Nat :=
  if words = 0 then []
  else List.range' (buf.toNat / 8) ((buf.toNat + words - 1) / 8 - buf.toNat / 8 + 1)

/-- A line of main memory, in the machine's lines. -/
def lineOfNat (line : Nat) : BitVec 26 := 0#1 ++ BitVec.ofNat 25 line

theorem bufferLines_length (buf : BitVec 28) (room length : BitVec 32) :
    (bufferLines buf (bufferWords room length)).length ≤ 49 := by
  unfold bufferLines bufferWords
  split
  · exact Nat.zero_le 49
  · rw [List.length_range']
    omega

theorem bufferLines_nodup (buf : BitVec 28) (room length : BitVec 32) :
    ((bufferLines buf (bufferWords room length)).map lineOfNat).Nodup := by
  have few := bufferLines_length buf room length
  unfold bufferLines at few ⊢
  by_cases none_ : bufferWords room length = 0
  · rw [if_pos none_]
    exact List.nodup_nil
  · rw [if_neg none_] at few ⊢
    rw [List.length_range'] at few
    apply List.Nodup.map_on _ List.nodup_range'
    intro line inside line' inside' same
    rw [List.mem_range'_1] at inside inside'
    have low := congrArg BitVec.toNat same
    unfold lineOfNat at low
    simp only [BitVec.toNat_append, BitVec.toNat_ofNat, Nat.zero_mod, Nat.zero_shiftLeft, Nat.zero_or] at low
    omega

section Words

variable {s : State} {i : Input}

theorem eWords_toNat : (s.eWords i).toNat = bufferWords s.eRoom (i.eData.extractLsb' 0 32) := by
  have clamp : (s.eN i).toNat = min (min (i.eData.extractLsb' 0 32).toNat s.eRoom.toNat) 1514 := by
    unfold State.eN
    dsimp only
    split_ifs with shorter long long
    all_goals simp only [gt_iff_lt, BitVec.lt_def, BitVec.toNat_ofNat] at *
    all_goals omega
  unfold State.eWords bufferWords
  rw [BitVec.toNat_ushiftRight, BitVec.toNat_add, clamp, Nat.shiftRight_eq_div_pow]
  simp only [BitVec.toNat_ofNat]
  omega

end Words

section Kept

variable {mainWords : Nat} {s : State} {i : Input}

theorem registerWrite_rings {d : Device} (still : (d.registerWrite mainWords i).on = true) :
    (d.registerWrite mainWords i).rxBase = d.rxBase ∧ (d.registerWrite mainWords i).rxLog2 = d.rxLog2 := by
  have first : (if i.wr && i.wrK == 0#4 then d.control mainWords i else d).rxBase = d.rxBase ∧
      (if i.wr && i.wrK == 0#4 then d.control mainWords i else d).rxLog2 = d.rxLog2 := by
    unfold Device.control Device.disable
    dsimp only
    split_ifs <;> exact ⟨rfl, rfl⟩
  unfold Device.registerWrite at still ⊢
  dsimp only at still ⊢
  generalize (if i.wr && i.wrK == 0#4 then d.control mainWords i else d) = d' at first still ⊢
  cases on : d'.on with
  | false =>
    have off : (if i.wr && !d'.on then d'.rings i else d').on = false := by
      split <;> exact on
    rw [off, Bool.and_false, Bool.false_and, if_neg Bool.false_ne_true, off] at still
    cases still
  | true =>
    simp only [on, Bool.not_true, Bool.and_false, Bool.false_eq_true, if_false, Bool.and_true]
    unfold Device.taken
    split_ifs <;> exact first

theorem device_rings (still : (s.device mainWords i).on = true) :
    (s.device mainWords i).rxBase = s.dev.rxBase ∧ (s.device mainWords i).rxLog2 = s.dev.rxLog2 := by
  have held : ((s.landed i).heldWrite i).rxBase = s.dev.rxBase ∧
      ((s.landed i).heldWrite i).rxLog2 = s.dev.rxLog2 := by
    unfold Device.heldWrite Device.heldRx Device.heldTx
    split_ifs <;> exact ⟨rfl, rfl⟩
  have still' := on_of_resetDevices still
  have same : s.device mainWords i = ((s.landed i).heldWrite i).registerWrite mainWords i := by
    unfold State.device Device.resetDevices at still ⊢
    split at still
    · cases still
    · rw [if_neg (by assumption)]
  rw [same]
  have written := registerWrite_rings still'
  exact ⟨written.1.trans held.1, written.2.trans held.2⟩

theorem next_dev (going : s.cut mainWords i = false) :
    (s.next mainWords i).dev = s.device mainWords i ∧ (s.device mainWords i).on = true ∧ i.rst = false := by
  unfold State.cut at going
  rw [Bool.or_eq_false_iff, Bool.not_eq_false'] at going
  exact ⟨by simp [State.next, going.1], going.2, going.1⟩

theorem next_entry (inv : Inv s) (going : s.cut mainWords i = false) :
    (s.next mainWords i).dev.rxCons = (if s.eMove i then s.dev.rxCons + 1#16 else s.dev.rxCons) ∧
      (s.eMove i = false → (s.next mainWords i).eEntry = s.eEntry) := by
  obtain ⟨dev, on, -⟩ := next_dev going
  obtain ⟨base, size⟩ := device_rings on
  have cons : (s.next mainWords i).dev.rxCons = if s.eMove i then s.dev.rxCons + 1#16 else s.dev.rxCons := by
    rw [dev]
    exact ((device_indexes inv mainWords i).2 on).rxCons
  refine ⟨cons, fun still => ?_⟩
  rw [still, if_neg Bool.false_ne_true] at cons
  unfold State.eEntry State.eSlot
  rw [cons, dev, base, size]

end Kept

/-- An entry is three words. -/
local instance entryWords : NeZero 3 := ⟨by decide⟩

/-- The three reads of an entry, as they were answered. -/
def entryReads (entry : BitVec 28) (words : Fin 3 → BitVec 40) : List (BitVec 28 × BitVec 40) :=
  [(entry, words 0), (entry + 1#28, words 1), (entry + 2#28, words 2)]

/-- The buffer and the words an entry's words say. -/
def bufferOf (words : Fin 3 → BitVec 40) : BitVec 28 := (words 0).extractLsb' 0 28
def wordsOf (words : Fin 3 → BitVec 40) : Nat :=
  bufferWords ((words 1).extractLsb' 0 32) ((words 2).extractLsb' 0 32)

/-- The lines of an entry's buffer. -/
def linesOf (words : Fin 3 → BitVec 40) : List Nat := bufferLines (bufferOf words) (wordsOf words)

/-- The engine at work: the reads answered and the clears accepted so far, in each of its states. -/
def Covers (s : State) (reads : List (BitVec 28 × BitVec 40)) (clears : List (BitVec 26)) : Prop :=
  match s.es with
  | .idle => False
  | .grant | .start | .rd0 => reads = [] ∧ clears = []
  | .rd1 => ∃ words, reads = (entryReads s.eEntry words).take 1 ∧ s.eBuf = bufferOf words ∧ clears = []
  | .rd2 => ∃ words, reads = (entryReads s.eEntry words).take 2 ∧ s.eBuf = bufferOf words ∧
      s.eRoom = (words 1).extractLsb' 0 32 ∧ clears = []
  | .clr => ∃ words k, reads = entryReads s.eEntry words ∧ k < (linesOf words).length ∧
      s.eLine = BitVec.ofNat 25 ((bufferOf words).toNat / 8 + k) ∧
      s.eLast = BitVec.ofNat 25 ((bufferOf words).toNat / 8 + ((linesOf words).length - 1)) ∧
      clears = ((linesOf words).take k).map lineOfNat
  | .entry => ∃ words, reads = entryReads s.eEntry words ∧ clears = (linesOf words).map lineOfNat

section Steps

variable {mainWords : Nat} {s : State} {i : Input} {reads : List (BitVec 28 × BitVec 40)}
  {clears : List (BitVec 26)}

theorem linesOf_eq (words : Fin 3 → BitVec 40) (some_ : wordsOf words ≠ 0) :
    linesOf words = List.range' ((bufferOf words).toNat / 8) (linesOf words).length ∧
      (linesOf words).length =
        ((bufferOf words).toNat + wordsOf words - 1) / 8 - (bufferOf words).toNat / 8 + 1 := by
  unfold linesOf bufferLines
  rw [if_neg some_, List.length_range']
  exact ⟨rfl, rfl⟩

theorem next_engine (going : s.cut mainWords i = false) :
    (s.next mainWords i).es = (match s.es with
      | .idle => if s.dev.rxCons ≠ s.dev.rxTarget then .grant else .idle
      | .grant => if i.eGrant then .start else .grant
      | .start => .rd0
      | .rd0 => if i.eDone then .rd1 else .rd0
      | .rd1 => if i.eDone then .rd2 else .rd1
      | .rd2 => if i.eDone then (if s.eWords i = 0#32 then .entry else .clr) else .rd2
      | .clr => if i.cDone then (if s.eLine = s.eLast then .entry else .clr) else .clr
      | .entry => if i.cDone then .idle else .entry) ∧
    (s.next mainWords i).eBuf = (if s.es = .rd0 ∧ i.eDone then i.eData.extractLsb' 0 28 else s.eBuf) ∧
    (s.next mainWords i).eRoom = (if s.es = .rd1 ∧ i.eDone then i.eData.extractLsb' 0 32 else s.eRoom) ∧
    (s.next mainWords i).eLine = (if s.es = .rd2 ∧ i.eDone then s.eBuf.extractLsb' 3 25
      else if s.es = .clr ∧ i.cDone then s.eLine + 1#25 else s.eLine) ∧
    (s.next mainWords i).eLast = (if s.es = .rd2 ∧ i.eDone then
      ((s.eBuf.setWidth 32 + s.eWords i - 1#32) >>> 3).setWidth 25 else s.eLast) := by
  unfold State.cut at going
  unfold State.next State.engine
  rw [going]
  cases es : s.es <;> simp
  all_goals split_ifs <;> simp_all

theorem clr_starts {words : Fin 3 → BitVec 40} (buf : s.eBuf = bufferOf words)
    (count : (s.eWords i).toNat = wordsOf words) (some_ : wordsOf words ≠ 0) :
    s.eBuf.extractLsb' 3 25 = BitVec.ofNat 25 ((bufferOf words).toNat / 8 + 0) ∧
      ((s.eBuf.setWidth 32 + s.eWords i - 1#32) >>> 3).setWidth 25 =
        BitVec.ofNat 25 ((bufferOf words).toNat / 8 + ((linesOf words).length - 1)) := by
  have length := (linesOf_eq words some_).2
  have most : wordsOf words ≤ 379 := by
    unfold wordsOf bufferWords
    omega
  have less := s.eBuf.isLt
  rw [← buf] at length ⊢
  constructor
  · apply BitVec.eq_of_toNat_eq
    rw [BitVec.extractLsb'_toNat, BitVec.toNat_ofNat, Nat.shiftRight_eq_div_pow]
    omega
  · apply BitVec.eq_of_toNat_eq
    rw [BitVec.toNat_setWidth, BitVec.toNat_ushiftRight, BitVec.toNat_sub, BitVec.toNat_add,
      BitVec.toNat_setWidth, BitVec.toNat_ofNat, count, length, Nat.shiftRight_eq_div_pow]
    simp only [BitVec.toNat_ofNat]
    omega

section

variable (covers : Covers s reads clears) (inv : Inv s) (going : s.cut mainWords i = false)

include covers inv going

/-- The third word read tells the lines, and the first of them is cleared, if any is. -/
theorem Covers.rd2_next (still : s.eMove i = false) (es : s.es = .rd2) :
    Covers (s.next mainWords i) (reads ++ s.reads i) (clears ++ s.clears i) := by
  obtain ⟨es', eBuf, eRoom, eLine, eLast⟩ := next_engine going
  have entry := (next_entry inv going).2 still
  unfold Covers at covers ⊢
  rw [es', entry, es]
  rw [es] at covers
  obtain ⟨words, before, buf, room, none_⟩ := covers
  have noClears : s.clears i = [] := by simp [State.clears, State.cReq, es]
  rw [noClears, none_, before]
  cases done : i.eDone with
  | false =>
    have noReads : s.reads i = [] := by simp [State.reads, done]
    rw [noReads, eBuf, eRoom, es]
    exact ⟨words, rfl, buf, room, rfl⟩
  | true =>
    have read : s.reads i = [(s.eEntry + 2#28, i.eData)] := by
      simp [State.reads, State.eRd, State.eAddr, es, done]
    have count : (s.eWords i).toNat = wordsOf (Function.update words 2 i.eData) := by
      rw [eWords_toNat, room]
      rfl
    have bufThen : s.eBuf = bufferOf (Function.update words 2 i.eData) := buf
    have all : (entryReads s.eEntry words).take 2 ++ [(s.eEntry + 2#28, i.eData)] =
        entryReads s.eEntry (Function.update words 2 i.eData) := rfl
    rw [read, all, eLine, eLast, es, done]
    generalize Function.update words 2 i.eData = words at count bufThen
    by_cases zero : s.eWords i = 0#32
    · have empty : wordsOf words = 0 := by
        rw [← count, zero]
        rfl
      simp only [zero, if_true]
      refine ⟨words, rfl, ?_⟩
      unfold linesOf bufferLines
      rw [if_pos empty]
      rfl
    · have some_ : wordsOf words ≠ 0 := by
        rw [← count]
        intro none_
        exact zero (BitVec.eq_of_toNat_eq none_)
      simp only [zero, if_true, if_false, and_self]
      obtain ⟨first, final⟩ := clr_starts bufThen count some_
      obtain ⟨-, length⟩ := linesOf_eq words some_
      exact ⟨words, 0, rfl, by omega, first, final, rfl⟩

/-- The lines are cleared one by one. -/
theorem Covers.clr_next (still : s.eMove i = false) (es : s.es = .clr) :
    Covers (s.next mainWords i) (reads ++ s.reads i) (clears ++ s.clears i) := by
  obtain ⟨es', eBuf, eRoom, eLine, eLast⟩ := next_engine going
  have entry := (next_entry inv going).2 still
  unfold Covers at covers ⊢
  rw [es', entry, es]
  rw [es] at covers
  obtain ⟨words, k, before, inside, line, last, cleared⟩ := covers
  have noReads : s.reads i = [] := by simp [State.reads, State.eRd, es]
  rw [noReads, before, cleared, List.append_nil]
  cases done : i.cDone with
  | false =>
    have noClears : s.clears i = [] := by simp [State.clears, done]
    rw [noClears, eLine, eLast, es, done]
    exact ⟨words, k, rfl, inside, line, last, List.append_nil _⟩
  | true =>
    have clear : s.clears i = [0#1 ++ s.eLine] := by
      simp [State.clears, State.cReq, State.cLine, es, done]
    have some_ : wordsOf words ≠ 0 := by
      intro none_
      unfold linesOf bufferLines at inside
      rw [if_pos none_] at inside
      exact absurd inside (Nat.not_lt_zero k)
    obtain ⟨range, -⟩ := linesOf_eq words some_
    have few : (linesOf words).length ≤ 49 := bufferLines_length _ _ _
    have taken : ((linesOf words).take k).map lineOfNat ++ [0#1 ++ s.eLine] =
        ((linesOf words).take (k + 1)).map lineOfNat := by
      rw [List.take_add_one, List.map_append, range, List.getElem?_range' inside, line]
      simp [lineOfNat]
    rw [clear, eLine, eLast, es, done, taken]
    by_cases ends : s.eLine = s.eLast
    · have here : k + 1 = (linesOf words).length := by
        rw [line, last, ← BitVec.toNat_inj, BitVec.toNat_ofNat, BitVec.toNat_ofNat] at ends
        omega
      simp only [ends, if_true]
      refine ⟨words, rfl, ?_⟩
      rw [here, List.take_length]
    · have more : k + 1 < (linesOf words).length := by
        have other : k ≠ (linesOf words).length - 1 := by
          intro same
          rw [line, last, same] at ends
          exact ends rfl
        omega
      simp only [ends, reduceCtorEq, false_and, if_false, and_self, if_true]
      refine ⟨words, k + 1, rfl, more, ?_, last, rfl⟩
      rw [line, ← Nat.add_assoc]
      exact (BitVec.ofNat_add _ 1).symm

theorem Covers.next (on : s.dev.on = true) (still : s.eMove i = false) :
    Covers (s.next mainWords i) (reads ++ s.reads i) (clears ++ s.clears i) := by
  by_cases third : s.es = .rd2
  · exact covers.rd2_next inv going still third
  by_cases clearing : s.es = .clr
  · exact covers.clr_next inv going still clearing
  obtain ⟨es', eBuf, eRoom, eLine, eLast⟩ := next_engine going
  have entry := (next_entry inv going).2 still
  unfold Covers at covers ⊢
  rw [es', entry]
  cases es : s.es with
  | rd2 => exact absurd es third
  | clr => exact absurd es clearing
  | idle =>
    rw [es] at covers
    exact covers.elim
  | grant =>
    rw [es] at covers
    have noReads : s.reads i = [] := by simp [State.reads, State.eRd, es]
    have noClears : s.clears i = [] := by simp [State.clears, State.cReq, es]
    rw [noReads, noClears, List.append_nil, List.append_nil]
    cases i.eGrant <;> exact covers
  | start =>
    rw [es] at covers
    have noReads : s.reads i = [] := by simp [State.reads, State.eRd, es]
    have noClears : s.clears i = [] := by simp [State.clears, State.cReq, es]
    rw [noReads, noClears, List.append_nil, List.append_nil]
    exact covers
  | rd0 =>
    rw [es] at covers
    have noClears : s.clears i = [] := by simp [State.clears, State.cReq, es]
    rw [noClears, covers.1, covers.2]
    cases done : i.eDone with
    | false =>
      have noReads : s.reads i = [] := by simp [State.reads, done]
      rw [noReads]
      exact ⟨rfl, rfl⟩
    | true =>
      have read : s.reads i = [(s.eEntry, i.eData)] := by
        simp [State.reads, State.eRd, State.eAddr, es, done]
      rw [read, eBuf, es, done]
      exact ⟨fun _ => i.eData, rfl, rfl, rfl⟩
  | rd1 =>
    rw [es] at covers
    obtain ⟨words, before, buf, none_⟩ := covers
    have noClears : s.clears i = [] := by simp [State.clears, State.cReq, es]
    rw [noClears, none_, before]
    cases done : i.eDone with
    | false =>
      have noReads : s.reads i = [] := by simp [State.reads, done]
      rw [noReads, eBuf, es]
      exact ⟨words, rfl, buf, rfl⟩
    | true =>
      have read : s.reads i = [(s.eEntry + 1#28, i.eData)] := by
        simp [State.reads, State.eRd, State.eAddr, es, done]
      rw [read, eBuf, eRoom, es, done]
      exact ⟨Function.update words 1 i.eData, rfl, buf, rfl, rfl⟩
  | entry =>
    rw [es] at covers
    have waits : i.cDone = false := by simpa [State.eMove, es, on] using still
    have noReads : s.reads i = [] := by simp [State.reads, State.eRd, es]
    have noClears : s.clears i = [] := by simp [State.clears, waits]
    rw [noReads, noClears, waits, List.append_nil, List.append_nil]
    exact covers

end

theorem Covers.finish (covers : Covers s reads clears) (move : s.eMove i = true) :
    ∃ words, reads ++ s.reads i = entryReads s.eEntry words ∧
      clears ++ s.clears i = (linesOf words).map lineOfNat ++ [0#1 ++ s.eEntry.extractLsb' 3 25] := by
  unfold State.eMove at move
  simp only [Bool.and_eq_true, beq_iff_eq] at move
  unfold Covers at covers
  rw [move.1.1] at covers
  obtain ⟨words, reads, clears⟩ := covers
  refine ⟨words, ?_, ?_⟩
  · rw [reads]
    simp [State.reads, State.eRd, move.1.1]
  · rw [clears]
    simp [State.clears, State.cReq, State.cLine, move.1.1, move.1.2]

end Steps

section Trips

variable {mainWords : Nat} {inputs : Nat → Input} {a b : Nat}

/-- The reset device's run. -/
def fromReset (mainWords : Nat) (inputs : Nat → Input) : Nat → State := run mainWords State.reset inputs

/-- What the clocks after one and up to another bring, in order. -/
def past {Item : Type} (each : Nat → List Item) (a b : Nat) : List Item :=
  (List.range (b - a)).flatMap fun k => each (a + 1 + k)

/-- The engine's trip: it leaves idle at a clock, moves 251 at a later one, the first to, and is not cut
short between them. -/
structure Trip (mainWords : Nat) (inputs : Nat → Input) (a b : Nat) : Prop where
  order : a < b
  leaves : (fromReset mainWords inputs a).es = .idle ∧ (fromReset mainWords inputs (a + 1)).es ≠ .idle
  moves : (fromReset mainWords inputs b).eMove (inputs b) = true
  first : ∀ t, a < t → t < b → (fromReset mainWords inputs t).eMove (inputs t) = false
  going : ∀ t, a ≤ t → t ≤ b → (fromReset mainWords inputs t).cut mainWords (inputs t) = false

theorem over_succ {Item : Type} (each : Nat → List Item) (order : a ≤ b) :
    past each a (b + 1) = past each a b ++ each (b + 1) := by
  unfold past
  rw [show b + 1 - a = b - a + 1 by omega, List.range_succ, List.flatMap_append, List.flatMap_singleton,
    show a + 1 + (b - a) = b + 1 by omega]

theorem inv_fromReset (t : Nat) : Inv (fromReset mainWords inputs t) := by
  induction t with
  | zero => exact inv_reset
  | succ t ih => exact inv_next ih mainWords (inputs t)

theorem on_of_working {t : Nat} (working : (fromReset mainWords inputs t).es ≠ .idle) :
    (fromReset mainWords inputs t).dev.on = true := by
  rw [← Bool.not_eq_false]
  exact fun off => working ((inv_fromReset t).off off)

/-- What the trip has read and cleared so far. -/
theorem Trip.along (trip : Trip mainWords inputs a b) {t : Nat} (after : a < t) :
    t ≤ b → Covers (fromReset mainWords inputs t)
        (past (fun u => (fromReset mainWords inputs u).reads (inputs u)) a (t - 1))
        (past (fun u => (fromReset mainWords inputs u).clears (inputs u)) a (t - 1)) ∧
      (fromReset mainWords inputs t).dev.rxCons = (fromReset mainWords inputs a).dev.rxCons ∧
      (fromReset mainWords inputs t).eEntry = (fromReset mainWords inputs a).eEntry := by
  obtain ⟨order, leaves, moves, first, going⟩ := trip
  induction t, after using Nat.le_induction with
  | base =>
    intro _
    have cut := going a (Nat.le_refl a) (Nat.le_of_lt order)
    have step : fromReset mainWords inputs (a + 1) = (fromReset mainWords inputs a).next mainWords (inputs a) :=
      rfl
    have still : (fromReset mainWords inputs a).eMove (inputs a) = false := by
      simp [State.eMove, leaves.1]
    obtain ⟨cons, entry⟩ := next_entry (inv_fromReset a) cut
    rw [still, if_neg Bool.false_ne_true] at cons
    refine ⟨?_, cons, entry still⟩
    have es := (next_engine cut).1
    have empty (Item : Type) (each : Nat → List Item) : past each a (a + 1 - 1) = [] := by
      simp [past]
    rw [empty, empty]
    have out := leaves.2
    unfold Covers
    rw [step, es, leaves.1] at out ⊢
    by_cases moved : (fromReset mainWords inputs a).dev.rxCons ≠ (fromReset mainWords inputs a).dev.rxTarget
    · simp only [if_pos moved]
      exact ⟨trivial, trivial⟩
    · simp only [if_neg moved] at out
      exact absurd rfl out
  | succ t after ih =>
    intro upTo
    obtain ⟨covers, cons, entry⟩ := ih (by omega)
    have cut := going t (by omega) (by omega)
    have still := first t (by omega) (by omega)
    have working : (fromReset mainWords inputs t).es ≠ .idle := by
      intro idle
      unfold Covers at covers
      rw [idle] at covers
      exact covers
    obtain ⟨cons', entry'⟩ := next_entry (inv_fromReset t) cut
    rw [still, if_neg Bool.false_ne_true] at cons'
    obtain ⟨t, rfl⟩ : ∃ u, t = u + 1 := ⟨t - 1, by omega⟩
    have onward := covers.next (inv_fromReset (t + 1)) cut (on_of_working working) still
    rw [Nat.add_sub_cancel] at onward
    rw [Nat.add_sub_cancel, over_succ _ (by omega), over_succ _ (by omega)]
    exact ⟨onward, cons'.trans cons, (entry' still).trans entry⟩

theorem entry_of_move {s : State} {i : Input} (move : s.eMove i = true) :
    s.es = .entry ∧ i.cDone = true ∧ s.dev.on = true := by
  unfold State.eMove at move
  simp only [Bool.and_eq_true, beq_iff_eq] at move
  exact ⟨move.1.1, move.1.2, move.2⟩

theorem idle_of_move {s : State} {i : Input} (move : s.eMove i = true) : (s.next mainWords i).es = .idle := by
  cases cut : s.cut mainWords i with
  | true =>
    unfold State.cut at cut
    simp [State.next, State.engine, cut]
  | false =>
    obtain ⟨entry, done, -⟩ := entry_of_move move
    rw [(next_engine cut).1, entry, done]
    rfl

/-- What the engine waits for: the channel, a word, a set. -/
inductive Handshake where
  | grant
  | word
  | set

/-- It waits for one of them, and has it. -/
def Asks (s : State) : Handshake → Prop
  | .grant => s.es = .grant
  | .word => s.eRd = true
  | .set => s.cReq = true

def Answer (i : Input) : Handshake → Prop
  | .grant => i.eGrant = true
  | .word => i.eDone = true
  | .set => i.cDone = true

/-- Every handshake that the engine waits for is answered while it waits. -/
def Answers (mainWords : Nat) (inputs : Nat → Input) : Prop :=
  ∀ handshake t, Asks (fromReset mainWords inputs t) handshake → ∃ u, t ≤ u ∧
    (Asks (fromReset mainWords inputs u) handshake → Answer (inputs u) handshake)

/-- How far the engine is from idle. -/
def distance (s : State) : Nat :=
  match s.es with
  | .idle => 0
  | .entry => 1
  | .clr => 2 + (s.eLast - s.eLine).toNat
  | .rd2 => 2 ^ 25 + 2
  | .rd1 => 2 ^ 25 + 3
  | .rd0 => 2 ^ 25 + 4
  | .start => 2 ^ 25 + 5
  | .grant => 2 ^ 25 + 6

theorem idle_of_cut {s : State} {i : Input} (cut : s.cut mainWords i = true) :
    (s.next mainWords i).es = .idle := by
  unfold State.cut at cut
  simp [State.next, State.engine, cut]

theorem distance_falls {s : State} {i : Input} (working : s.es ≠ .idle) {handshake : Handshake}
    (asks : Asks s handshake) :
    (Answer i handshake → distance (s.next mainWords i) < distance s) ∧
      (¬ Answer i handshake → (s.next mainWords i).es = .idle ∨
        Asks (s.next mainWords i) handshake ∧ distance (s.next mainWords i) = distance s) := by
  cases cut : s.cut mainWords i with
  | true =>
    have idle := idle_of_cut cut
    have nearer : distance (s.next mainWords i) < distance s := by
      unfold distance
      rw [idle]
      cases es : s.es
      case idle => exact absurd es working
      all_goals simp
    exact ⟨fun _ => nearer, fun _ => .inl idle⟩
  | false =>
    obtain ⟨es', -, -, eLine, eLast⟩ := next_engine cut
    have line := s.eLine.isLt
    have last := s.eLast.isLt
    cases handshake with
    | grant =>
      change s.es = .grant at asks
      unfold Answer Asks distance
      rw [es', asks]
      cases i.eGrant <;> simp
    | word =>
      have where_ : s.es = .rd0 ∨ s.es = .rd1 ∨ s.es = .rd2 := by
        simpa [Asks, State.eRd, or_assoc] using asks
      have further : (((s.eBuf.setWidth 32 + s.eWords i - 1#32) >>> 3).setWidth 25 -
          s.eBuf.extractLsb' 3 25 : BitVec 25).toNat < 2 ^ 25 := BitVec.isLt _
      unfold Answer Asks distance State.eRd
      rw [es', eLine, eLast]
      rcases where_ with es | es | es
      all_goals rw [es]; cases done : i.eDone
      case inr.inr.true =>
        by_cases none_ : s.eWords i = 0#32
        · simp [none_]
        · simp only [none_, if_true, if_false, and_self]
          exact ⟨fun _ => by omega, fun no => absurd trivial no⟩
      all_goals simp
    | set =>
      have where_ : s.es = .clr ∨ s.es = .entry := by
        simpa [Asks, State.cReq] using asks
      unfold Answer Asks distance State.cReq
      rw [es', eLine, eLast]
      rcases where_ with es | es
      all_goals rw [es]; cases done : i.cDone
      case inl.true =>
        by_cases ends : s.eLine = s.eLast
        · simp [ends]
        · have ahead : (s.eLast - (s.eLine + 1#25)).toNat + 1 = (s.eLast - s.eLine).toNat := by
            have differ : s.eLine.toNat ≠ s.eLast.toNat := fun same => ends (BitVec.eq_of_toNat_eq same)
            simp only [BitVec.toNat_sub, BitVec.toNat_add, BitVec.toNat_ofNat]
            omega
          simp only [ends, reduceCtorEq, false_and, if_false, and_self, if_true]
          exact ⟨fun _ => by omega, fun no => absurd trivial no⟩
      all_goals simp

/-- The engine comes back to idle. -/
theorem returns (answers : Answers mainWords inputs) (a : Nat) :
    ∃ u, a ≤ u ∧ (fromReset mainWords inputs u).es = .idle := by
  let states := fromReset mainWords inputs
  -- The start goes on by itself.
  let waits : Option Handshake → Nat → Prop := fun event t =>
    event.elim ((states t).es = .start) (Asks (states t))
  let chosen : Option Handshake → Nat → Prop := fun event t =>
    event.elim True fun handshake => Asks (states t) handshake → Answer (inputs t) handshake
  have starts (t : Nat) (es : (states t).es = .start) : distance (states (t + 1)) < distance (states t) := by
    have step : states (t + 1) = (states t).next mainWords (inputs t) := rfl
    cases cut : (states t).cut mainWords (inputs t) with
    | true =>
      unfold distance
      rw [step, idle_of_cut cut, es]
      simp
    | false =>
      unfold distance
      rw [step, (next_engine cut).1, es]
      simp
  have answered (handshake : Handshake) (t : Nat) (working : (states t).es ≠ .idle)
      (asks : Asks (states t) handshake) :=
    @distance_falls mainWords (states t) (inputs t) working handshake asks
  have some_ (t : Nat) (working : (states t).es ≠ .idle) : ∃ event, waits event t := by
    cases es : (states t).es with
    | idle => exact absurd es working
    | grant => exact ⟨some .grant, es⟩
    | start => exact ⟨none, es⟩
    | rd0 | rd1 | rd2 => exact ⟨some .word, by simp [waits, Asks, State.eRd, es]⟩
    | clr | entry => exact ⟨some .set, by simp [waits, Asks, State.cReq, es]⟩
  apply @met_of_fair (Option Handshake) (fun t => distance (states t)) (fun t => (states t).es = .idle)
    waits chosen a
  · exact fun t _ working => some_ t working
  · intro event t _ working later waiting open_
    cases event with
    | none => exact absurd trivial open_
    | some handshake =>
      have no : ¬ Answer (inputs t) handshake := fun yes => open_ fun _ => yes
      rcases (answered handshake t working waiting).2 no with idle | ⟨still, -⟩
      · exact absurd idle later
      · exact still
  · intro t _ working
    obtain ⟨event, waiting⟩ := some_ t working
    cases event with
    | none => exact Nat.le_of_lt (starts t waiting)
    | some handshake =>
      obtain ⟨falls, stays⟩ := answered handshake t working waiting
      by_cases yes : Answer (inputs t) handshake
      · exact Nat.le_of_lt (falls yes)
      · rcases stays yes with idle | ⟨-, same⟩
        · have zero : distance (states (t + 1)) = 0 := by
            unfold distance
            rw [show (states (t + 1)).es = .idle from idle]
          exact zero ▸ Nat.zero_le _
        · exact Nat.le_of_eq same
  · intro event t _ working waiting made
    cases event with
    | none => exact starts t waiting
    | some handshake => exact (answered handshake t working waiting).1 (made waiting)
  · intro event t
    cases event with
    | none => exact ⟨t, Nat.le_refl t, trivial⟩
    | some handshake =>
      by_cases waiting : Asks (states t) handshake
      · exact answers handshake t waiting
      · exact ⟨t, Nat.le_refl t, fun asks => absurd asks waiting⟩

theorem move_of_idle {s : State} {i : Input} (working : s.es ≠ .idle) (on : s.dev.on = true)
    (going : s.cut mainWords i = false) (idle : (s.next mainWords i).es = .idle) : s.eMove i = true := by
  rw [(next_engine going).1] at idle
  unfold State.eMove
  cases es : s.es with
  | idle => exact absurd es working
  | start => simp [es] at idle
  | grant => cases granted : i.eGrant <;> simp [es, granted] at idle
  | rd0 | rd1 => cases done : i.eDone <;> simp [es, done] at idle
  | rd2 =>
    cases done : i.eDone
    all_goals simp only [es, done, if_true, if_false, Bool.false_eq_true] at idle
    · cases idle
    · split at idle <;> cases idle
  | clr =>
    cases done : i.cDone
    all_goals simp only [es, done, if_true, if_false, Bool.false_eq_true] at idle
    · cases idle
    · split at idle <;> cases idle
  | entry =>
    cases done : i.cDone with
    | false => simp [es, done] at idle
    | true => simp [on]

/-- A trip begun ends, or is cut. -/
theorem trip_ends (answers : Answers mainWords inputs) (a : Nat)
    (leaves : (fromReset mainWords inputs a).es = .idle ∧ (fromReset mainWords inputs (a + 1)).es ≠ .idle) :
    (∃ b, Trip mainWords inputs a b) ∨
      ∃ t, a < t ∧ (∀ u, a < u → u ≤ t → (fromReset mainWords inputs u).es ≠ .idle) ∧
        (fromReset mainWords inputs t).cut mainWords (inputs t) = true := by
  classical
  have again := returns answers (a + 1)
  -- The first clock it is idle at.
  obtain ⟨after, idle⟩ := Nat.find_spec again
  have working (t : Nat) (after : a + 1 ≤ t) (before : t < Nat.find again) :
      (fromReset mainWords inputs t).es ≠ .idle :=
    fun idle => Nat.find_min again before ⟨after, idle⟩
  have other : Nat.find again ≠ a + 1 := by
    intro same
    rw [same] at idle
    exact leaves.2 idle
  obtain ⟨b, last⟩ : ∃ b, Nat.find again = b + 1 := ⟨Nat.find again - 1, by omega⟩
  rw [last] at after idle working other
  by_cases cut : ∃ t, a < t ∧ t ≤ b ∧ (fromReset mainWords inputs t).cut mainWords (inputs t) = true
  · obtain ⟨t, later, before, short⟩ := cut
    exact .inr ⟨t, later, fun u from_ upTo => working u from_ (by omega), short⟩
  have going (t : Nat) (after : a ≤ t) (before : t ≤ b) :
      (fromReset mainWords inputs t).cut mainWords (inputs t) = false := by
    rw [← Bool.not_eq_true]
    intro short
    rcases Nat.lt_or_eq_of_le after with later | rfl
    · exact cut ⟨t, later, before, short⟩
    · exact leaves.2 (idle_of_cut short)
  have atWork := working b (by omega) (Nat.lt_succ_self b)
  left
  refine ⟨b, by omega, leaves, ?_, ?_, going⟩
  · exact move_of_idle atWork (on_of_working atWork) (going b (by omega) (Nat.le_refl b)) idle
  · intro t later before
    rw [← Bool.not_eq_true]
    exact fun move => working (t + 1) (by omega) (by omega) (idle_of_move move)

theorem cut_disables {t : Nat} (cut : (fromReset mainWords inputs t).cut mainWords (inputs t) = true) :
    (fromReset mainWords inputs (t + 1)).dev.on = false := by
  have step :
      fromReset mainWords inputs (t + 1) = (fromReset mainWords inputs t).next mainWords (inputs t) := rfl
  unfold State.cut at cut
  rw [step]
  cases rst : (inputs t).rst with
  | true => simp [State.next, rst, State.resetDevice]
  | false => simpa [State.next, rst] using cut

theorem disabled_zeroed {t : Nat} (off : (fromReset mainWords inputs t).dev.on = false) :
    (fromReset mainWords inputs t).es = .idle ∧ Zeroed (fromReset mainWords inputs t).dev := by
  have inv := @inv_fromReset mainWords inputs t
  have indexed := inv.indexed
  unfold Indexed at indexed
  rw [off, if_neg Bool.false_ne_true] at indexed
  exact ⟨inv.off off, indexed⟩

end Trips

/-- The line-clearing engine covers exactly the entry. -/
theorem line_clearing (mainWords : Nat) (inputs : Nat → Input) :
    (∀ a b, Trip mainWords inputs a b →
      let entry := (fromReset mainWords inputs a).eEntry
      ∃ words,
        past (fun u => (fromReset mainWords inputs u).reads (inputs u)) a b = entryReads entry words ∧
        past (fun u => (fromReset mainWords inputs u).clears (inputs u)) a b =
          (linesOf words).map lineOfNat ++ [0#1 ++ entry.extractLsb' 3 25] ∧
        (linesOf words).length ≤ 49 ∧ ((linesOf words).map lineOfNat).Nodup ∧
        (∀ t, a ≤ t → t ≤ b →
          (fromReset mainWords inputs t).dev.rxCons = (fromReset mainWords inputs a).dev.rxCons) ∧
        (fromReset mainWords inputs (b + 1)).dev.rxCons = (fromReset mainWords inputs a).dev.rxCons + 1#16 ∧
        (fromReset mainWords inputs (b + 1)).es = .idle) ∧
    (Answers mainWords inputs → (∀ a, ∃ u, a ≤ u ∧ (fromReset mainWords inputs u).es = .idle) ∧
      ∀ a, (fromReset mainWords inputs a).es = .idle → (fromReset mainWords inputs (a + 1)).es ≠ .idle →
        (∃ b, Trip mainWords inputs a b) ∨
          ∃ t, a < t ∧ (∀ u, a < u → u ≤ t → (fromReset mainWords inputs u).es ≠ .idle) ∧
            (fromReset mainWords inputs t).cut mainWords (inputs t) = true) ∧
    (∀ t, (fromReset mainWords inputs t).cut mainWords (inputs t) = true →
      (fromReset mainWords inputs (t + 1)).dev.on = false) ∧
    ∀ t, (fromReset mainWords inputs t).dev.on = false →
      (fromReset mainWords inputs t).es = .idle ∧ Zeroed (fromReset mainWords inputs t).dev := by
  refine ⟨fun a b trip => ?_,
    fun answers => ⟨returns answers, fun a idle leaves => trip_ends answers a ⟨idle, leaves⟩⟩,
    fun _ cut => cut_disables cut, fun _ off => disabled_zeroed off⟩
  intro entry
  obtain ⟨covers, cons, here⟩ := trip.along trip.order (Nat.le_refl b)
  obtain ⟨words, reads, clears⟩ := covers.finish trip.moves
  have cut := trip.going b (Nat.le_of_lt trip.order) (Nat.le_refl b)
  have moved := (next_entry (inv_fromReset b) cut).1
  rw [trip.moves, if_pos rfl, cons] at moved
  obtain ⟨c, rfl⟩ : ∃ c, b = c + 1 := ⟨b - 1, by have := trip.order; omega⟩
  have order : a ≤ c := Nat.le_of_lt_succ trip.order
  rw [here] at reads clears
  refine ⟨words, ?_, ?_, bufferLines_length _ _ _, bufferLines_nodup _ _ _, ?_, moved,
    idle_of_move trip.moves⟩
  · rw [over_succ _ order]
    exact reads
  · rw [over_succ _ order]
    exact clears
  · intro t after upTo
    rcases Nat.lt_or_eq_of_le after with later | rfl
    · exact (trip.along later upTo).2.1
    · rfl

/-- A frame of ten words at word 40, the port answering at once. -/
def frame (t : Nat) : Input where
  rst := false
  devReset := false
  wr := t = 0
  wrK := 0#4
  wdata := 1#32
  held := t = 1
  heldRx := true
  heldData := 1#16
  eGrant := true
  eDone := true
  eData := 40#40
  cDone := true
  hostWe := t = 2
  hostWidx := 9#5
  hostWdata := 1#32

/-- Its trip clears lines 5 and 6, and the entry's. -/
theorem line_clearing_frame : Trip 16 frame 4 12 ∧
    past (fun u => (fromReset 16 frame u).clears (frame u)) 4 12 = [5#26, 6#26, 0#26] ∧
    ∃ words, past (fun u => (fromReset 16 frame u).clears (frame u)) 4 12 =
      (linesOf words).map lineOfNat ++ [0#26] := by
  have first : ∀ t < 12, 4 < t → (fromReset 16 frame t).eMove (frame t) = false := by decide
  have going : ∀ t < 13, 4 ≤ t → (fromReset 16 frame t).cut 16 (frame t) = false := by decide
  have trip : Trip 16 frame 4 12 :=
    ⟨by decide, by decide, by decide, fun t after before => first t before after,
      fun t after before => going t (Nat.lt_succ_of_le before) after⟩
  obtain ⟨words, -, clears, -⟩ := (line_clearing 16 frame).1 4 12 trip
  exact ⟨trip, by decide, words, clears⟩

end MuirFpga.Quux.Ethernet
