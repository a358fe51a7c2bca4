import MuirFpga.Sync.Ring
import MuirFpga.Sync.Trace
import Mathlib.Tactic.SplitIfs

/-!
# The keyboard and the mouse

`quux15_input`: the keyboard's words in a circular array of 64, the mouse's counts off its lines, and
the four words of the page the machine reads and writes them by. A read's word is the page as the
clock began and is given the clock after; its side effect is made at the clock's edge. The readout's
view of the state is left out.
-/

namespace MuirFpga.Quux.Keyboard

open Sync

/-- The page's words. -/
def kbdStatus : BitVec 8 := 0x50#8
def kbdData : BitVec 8 := 0x51#8
def mouse : BitVec 8 := 0x52#8
def mouseStatus : BitVec 8 := 0x53#8

/-- What a clock brings: a word on the keyboard's cable, the mouse's lines, a read granted, the
release of the read before, and a write taken. -/
structure Input where
  rst : Bool
  kbdStrobe : Bool
  kbdCode : BitVec 24
  mouseLines : BitVec 7
  rd : Bool
  rdK : BitVec 8
  rdRelease : Bool
  wr : Bool
  wrK : BitVec 8
  wdata : BitVec 32

/-- The registers. -/
structure State where
  fifo : BitVec 6 → BitVec 24
  head : BitVec 6
  tail : BitVec 6
  count : BitVec 7
  overflowed : Bool
  kbdEnable : Bool
  mouseEnable : Bool
  mouseChanged : Bool
  mx : BitVec 12
  my : BitVec 12
  buttons : BitVec 3
  lastLines : BitVec 4
  took : Bool
  boot : Bool
  rdWord : BitVec 32
  held : BitVec 2

/-- A pair of lines as a phase. -/
def phase (ab : BitVec 2) : BitVec 2 :=
  BitVec.ofBool (ab.getLsbD 0) ++ BitVec.ofBool (ab.getLsbD 0 ^^ ab.getLsbD 1)

/-- A count after a phase's step. -/
def stepped (c : BitVec 12) (was now : BitVec 2) : BitVec 12 :=
  if now - was = 1#2 then c + 1#12 else if now - was = 3#2 then c - 1#12 else c

namespace State

variable (s : State) (i : Input)

def full : Bool := s.count == 64#7
def empty : Bool := s.count == 0#7
def pop : Bool := i.rd && i.rdK == kbdData && !s.empty
def push : Bool := i.kbdStrobe && (!s.full || s.pop i)
def clear : Bool := i.rd && i.rdK == mouse

/-- The interrupt bits this clock's read lowers. -/
def lowered : BitVec 2 :=
  BitVec.ofBool (clear i && s.mouseEnable && s.mouseChanged) ++
    BitVec.ofBool (s.pop i && s.kbdEnable && s.count == 1#7)

/-- The word at the grant: the page as the clock began. -/
def wordNow (k : BitVec 8) : BitVec 32 :=
  if k = kbdStatus then
    0#23 ++ BitVec.ofBool s.kbdEnable ++ 0#6 ++ BitVec.ofBool s.overflowed ++ BitVec.ofBool (!s.empty)
  else if k = kbdData then if s.empty then 0#32 else 0#8 ++ s.fifo s.head
  else if k = mouse then 0#4 ++ s.my ++ 0#1 ++ s.buttons ++ s.mx
  else if k = mouseStatus then
    0#23 ++ BitVec.ofBool s.mouseEnable ++ 0#7 ++ BitVec.ofBool s.mouseChanged
  else 0#32

/-- The mouse's counts and buttons from its lines. -/
def mxN : BitVec 12 :=
  stepped s.mx (phase (s.lastLines.extractLsb' 0 2)) (phase (i.mouseLines.extractLsb' 0 2))
def myN : BitVec 12 :=
  stepped s.my (phase (s.lastLines.extractLsb' 2 2)) (phase (i.mouseLines.extractLsb' 2 2))
def buttonsN : BitVec 3 := ~~~ (i.mouseLines.extractLsb' 4 3)
def moved : Bool := s.mxN i != s.mx || s.myN i != s.my || buttonsN i != s.buttons

/-- The enables as this clock's write leaves them. -/
def kbdEnableN : Bool := if i.wr && i.wrK == kbdStatus then i.wdata.getLsbD 8 else s.kbdEnable
def mouseEnableN : Bool := if i.wr && i.wrK == mouseStatus then i.wdata.getLsbD 8 else s.mouseEnable

/-- The interrupt, as this clock's write leaves it and as the clock began, and the handshake. -/
def irq : BitVec 2 :=
  (BitVec.ofBool (s.mouseEnableN i && s.mouseChanged) ++
    BitVec.ofBool (s.kbdEnableN i && !s.empty)) ||| s.held
def irqState : BitVec 2 :=
  BitVec.ofBool (s.mouseEnable && s.mouseChanged) ++ BitVec.ofBool (s.kbdEnable && !s.empty)
def busy : Bool := s.full || s.took

/-- The registers in reset; the array is not reset. -/
def reset (fifo : BitVec 6 → BitVec 24) (lines : BitVec 7) : State where
  fifo := fifo
  head := 0#6
  tail := 0#6
  count := 0#7
  overflowed := false
  kbdEnable := false
  mouseEnable := false
  mouseChanged := false
  mx := 0#12
  my := 0#12
  buttons := 0#3
  lastLines := lines.extractLsb' 0 4
  took := false
  boot := false
  rdWord := 0#32
  held := 0#2

/-- One clock: the write first, then the word that comes in. -/
def next : State :=
  if i.rst then reset s.fifo i.mouseLines
  else
    { fifo := if s.push i then Function.update s.fifo s.tail i.kbdCode else s.fifo
      head := if s.pop i then (if s.head = 63#6 then 0#6 else s.head + 1#6) else s.head
      tail := if s.push i then (if s.tail = 63#6 then 0#6 else s.tail + 1#6) else s.tail
      count := s.count + (BitVec.ofBool (s.push i)).setWidth 7 - (BitVec.ofBool (s.pop i)).setWidth 7
      overflowed :=
        if i.kbdStrobe && !s.push i then true
        else if i.wr && i.wrK == kbdStatus then false
        else s.overflowed
      kbdEnable := s.kbdEnableN i
      mouseEnable := s.mouseEnableN i
      mouseChanged := if s.moved i then true else if clear i then false else s.mouseChanged
      mx := s.mxN i
      my := s.myN i
      buttons := buttonsN i
      lastLines := i.mouseLines.extractLsb' 0 4
      took := i.kbdStrobe
      boot := i.kbdStrobe && i.kbdCode.extractLsb' 6 8 == 0xF0#8
      rdWord := if i.rd then s.wordNow i.rdK else s.rdWord
      held := if i.rdRelease then 0#2 else s.held ||| s.lowered i }

end State

variable {s : State} {i : Input}

/-- The words waiting, the oldest first. -/
def State.waiting (s : State) : List (BitVec 24) := (places s.head s.count.toNat).map s.fifo

/-- The queue's places are where its head, its tail and its count say. -/
structure Queued (s : State) : Prop where
  few : s.count.toNat ≤ 64
  tail : s.tail = s.head + BitVec.ofNat 6 s.count.toNat

theorem bump_eq (place : BitVec 6) : (if place = 63#6 then 0#6 else place + 1#6) = place + 1#6 := by
  revert place
  decide

theorem pop_iff : s.pop i = true ↔ i.rd = true ∧ i.rdK = kbdData ∧ s.count.toNat ≠ 0 := by
  have zero : s.count = 0#7 ↔ s.count.toNat = 0 := by
    constructor
    · intro same
      rw [same]
      rfl
    · intro same
      exact BitVec.eq_of_toNat_eq same
  simp [State.pop, State.empty, zero, and_assoc]

theorem push_iff : s.push i = true ↔
    i.kbdStrobe = true ∧ (s.count.toNat ≠ 64 ∨ s.pop i = true) := by
  have whole : s.count = 64#7 ↔ s.count.toNat = 64 := by
    constructor
    · intro same
      rw [same]
      rfl
    · intro same
      exact BitVec.eq_of_toNat_eq same
  simp [State.push, State.full, whole]

theorem count_next (queued : Queued s) (rst : i.rst = false) :
    (s.next i).count.toNat + (if s.pop i then 1 else 0) =
      s.count.toNat + if s.push i then 1 else 0 := by
  have few := queued.few
  have next : (s.next i).count = s.count + (BitVec.ofBool (s.push i)).setWidth 7 -
      (BitVec.ofBool (s.pop i)).setWidth 7 := by
    unfold State.next
    rw [if_neg (by simp [rst])]
  rw [next]
  cases push : s.push i with
  | false =>
    cases pop : s.pop i with
    | false => simp
    | true =>
      have some := (pop_iff.mp pop).2.2
      simp [BitVec.toNat_sub]
      omega
  | true =>
    cases pop : s.pop i with
    | false =>
      have room := (push_iff.mp push).2
      simp [BitVec.toNat_add, pop] at room ⊢
      omega
    | true =>
      simp

theorem waiting_next (queued : Queued s) (rst : i.rst = false) :
    Queued (s.next i) ∧ s.waiting ++ (if s.push i then [i.kbdCode] else []) =
      (if s.pop i then [s.fifo s.head] else []) ++ (s.next i).waiting := by
  have few := queued.few
  have counts := count_next queued rst
  have head : (s.next i).head = if s.pop i then s.head + 1#6 else s.head := by
    simp only [State.next, rst, Bool.false_eq_true, if_false, bump_eq]
  have tail : (s.next i).tail = if s.push i then s.tail + 1#6 else s.tail := by
    simp only [State.next, rst, Bool.false_eq_true, if_false, bump_eq]
  have fifo : (s.next i).fifo =
      if s.push i then Function.update s.fifo s.tail i.kbdCode else s.fifo := by
    simp only [State.next, rst, Bool.false_eq_true, if_false]
  cases push : s.push i with
  | false =>
    cases pop : s.pop i with
    | false =>
      rw [push, pop] at counts
      rw [push] at tail fifo
      rw [pop] at head
      simp only [Bool.false_eq_true, if_false, Nat.add_zero] at counts tail fifo head
      refine ⟨⟨by omega, ?_⟩, ?_⟩
      · rw [tail, head, counts]
        exact queued.tail
      · unfold State.waiting
        rw [head, fifo, counts]
        simp
    | true =>
      have some := (pop_iff.mp pop).2.2
      rw [push, pop] at counts
      rw [push] at tail fifo
      rw [pop] at head
      simp only [Bool.false_eq_true, if_false, if_true, Nat.add_zero] at counts tail fifo head
      refine ⟨⟨by omega, ?_⟩, ?_⟩
      · rw [tail, head, queued.tail, ← counts, BitVec.add_assoc, Nat.add_comm, BitVec.ofNat_add]
      · unfold State.waiting
        rw [head, fifo, ← counts, places_cons]
        simp
  | true =>
    cases pop : s.pop i with
    | false =>
      have room : s.count.toNat ≠ 64 := by
        have open' := (push_iff.mp push).2
        simpa [pop] using open'
      rw [push, pop] at counts
      rw [push] at tail fifo
      rw [pop] at head
      simp only [Bool.false_eq_true, if_false, if_true, Nat.add_zero] at counts tail fifo head
      refine ⟨⟨by omega, ?_⟩, ?_⟩
      · rw [tail, head, queued.tail, counts, BitVec.add_assoc, BitVec.ofNat_add]
      · unfold State.waiting
        rw [head, fifo, counts, queued.tail, map_places_push (by omega)]
        simp
    | true =>
      -- The new word is written behind those left, over the one taken if 64 were waiting.
      have some := (pop_iff.mp pop).2.2
      rw [push, pop] at counts
      rw [push] at tail fifo
      rw [pop] at head
      simp only [if_true] at counts tail fifo head
      obtain ⟨rest, count⟩ : ∃ rest, s.count.toNat = rest + 1 := ⟨s.count.toNat - 1, by omega⟩
      have place : s.tail = s.head + 1#6 + BitVec.ofNat 6 rest := by
        rw [queued.tail, count, Nat.add_comm, BitVec.ofNat_add, ← BitVec.add_assoc]
      refine ⟨⟨by omega, ?_⟩, ?_⟩
      · have same : (s.next i).count.toNat = rest + 1 := by omega
        rw [tail, head, place, same, BitVec.add_assoc, BitVec.ofNat_add]
      · have same : (s.next i).count.toNat = rest + 1 := by omega
        unfold State.waiting
        rw [head, fifo, same, place, map_places_push (by omega), count, places_cons]
        simp

/-- The states of a run from reset. -/
def run (fifo : BitVec 6 → BitVec 24) (lines : BitVec 7) (inputs : Nat → Input) : Nat → State :=
  trace (fun i s => s.next i) (State.reset fifo lines) inputs

variable (fifo : BitVec 6 → BitVec 24) (lines : BitVec 7) (inputs : Nat → Input)

theorem run_succ (clock : Nat) :
    run fifo lines inputs (clock + 1) = (run fifo lines inputs clock).next (inputs clock) := rfl

/-- The key words that came onto the queue since the last reset, in the order they came. -/
def accepted : Nat → List (BitVec 24)
  | 0 => []
  | clock + 1 =>
    if (inputs clock).rst then []
    else if (run fifo lines inputs clock).push (inputs clock) then
      accepted clock ++ [(inputs clock).kbdCode]
    else accepted clock

/-- The words that reads of 121 gave while some were waiting, since the last reset, in order: a read's
word is given the clock after its grant. -/
def returned : Nat → List (BitVec 24)
  | 0 => []
  | clock + 1 =>
    if (inputs clock).rst then []
    else if (inputs clock).rd && (inputs clock).rdK == kbdData &&
        (run fifo lines inputs clock).count != 0#7 then
      returned clock ++ [(run fifo lines inputs (clock + 1)).rdWord.extractLsb' 0 24]
    else returned clock

/-- A key word that came in at a clock was dropped. -/
def Dropped (clock : Nat) : Prop :=
  (inputs clock).rst = false ∧ (inputs clock).kbdStrobe = true ∧
    (run fifo lines inputs clock).push (inputs clock) = false

theorem rdWord_next (rst : i.rst = false) (rd : i.rd = true) :
    (s.next i).rdWord = s.wordNow i.rdK := by
  simp only [State.next, rst, rd, Bool.false_eq_true, if_false, if_true]

theorem wordNow_data :
    s.wordNow kbdData = if s.count = 0#7 then 0#32 else 0#8 ++ s.fifo s.head := by
  unfold State.wordNow
  rw [if_neg (by decide), if_pos rfl]
  by_cases empty : s.count = 0#7 <;> simp [State.empty, empty]

theorem queued_reset (fifo : BitVec 6 → BitVec 24) (lines : BitVec 7) :
    Queued (State.reset fifo lines) ∧ (State.reset fifo lines).waiting = [] :=
  ⟨⟨by simp [State.reset], by simp [State.reset]⟩, rfl⟩

/-- Words returned and waiting are those accepted, in order. -/
theorem returned_waiting (clock : Nat) :
    Queued (run fifo lines inputs clock) ∧ returned fifo lines inputs clock ++
      (run fifo lines inputs clock).waiting = accepted fifo lines inputs clock := by
  induction clock with
  | zero => exact ⟨(queued_reset fifo lines).1, rfl⟩
  | succ clock ih =>
    obtain ⟨queued, all⟩ := ih
    unfold returned accepted
    cases rst : (inputs clock).rst with
    | true =>
      have reset : (run fifo lines inputs clock).next (inputs clock) =
          State.reset (run fifo lines inputs clock).fifo (inputs clock).mouseLines := by
        unfold State.next
        rw [if_pos rst]
      rw [if_pos rfl, if_pos rfl, run_succ, reset]
      exact queued_reset _ _
    | false =>
      simp only [Bool.false_eq_true, if_false]
      obtain ⟨after, words⟩ := waiting_next queued rst
      rw [← run_succ] at after words
      refine ⟨after, ?_⟩
      change (if (run fifo lines inputs clock).pop (inputs clock) = true then _ else _) ++ _ = _
      have given : (if (run fifo lines inputs clock).pop (inputs clock) = true then
          returned fifo lines inputs clock ++
            [(run fifo lines inputs (clock + 1)).rdWord.extractLsb' 0 24]
          else returned fifo lines inputs clock) = returned fifo lines inputs clock ++
            if (run fifo lines inputs clock).pop (inputs clock) then
              [(run fifo lines inputs clock).fifo (run fifo lines inputs clock).head] else [] := by
        cases pop : (run fifo lines inputs clock).pop (inputs clock) with
        | false => simp
        | true =>
          obtain ⟨rd, data, some⟩ := pop_iff.mp pop
          have nonzero : (run fifo lines inputs clock).count ≠ 0#7 := by
            intro zero
            exact some (by rw [zero]; rfl)
          have word := rdWord_next (s := run fifo lines inputs clock) rst rd
          rw [← run_succ, data, wordNow_data, if_neg nonzero] at word
          rw [word, BitVec.extractLsb'_append_eq_right]
          simp
      rw [given, List.append_assoc, ← words, ← List.append_assoc, all]
      split_ifs
      · rfl
      · rw [List.append_nil]

/-- The overflow after a clock: a word dropped in it sets it over any write, a write of 120 clears it,
and a reset does. -/
theorem overflowed_next : (s.next i).overflowed = true ↔ i.rst = false ∧
    ((i.kbdStrobe = true ∧ s.push i = false) ∨
      (i.wr && i.wrK == kbdStatus) = false ∧ s.overflowed = true) := by
  unfold State.next
  cases rst : i.rst with
  | true => simp [State.reset]
  | false =>
    cases strobe : i.kbdStrobe <;> cases push : s.push i <;>
      cases written : (i.wr && i.wrK == kbdStatus) <;> simp

/-- The overflow is up exactly when a word was dropped and neither a reset nor a write of 120 has
come in a later clock. -/
theorem overflowed_iff (clock : Nat) : (run fifo lines inputs clock).overflowed = true ↔
    ∃ drop, drop < clock ∧ Dropped fifo lines inputs drop ∧
      ∀ between, drop < between → between < clock → (inputs between).rst = false ∧
        ((inputs between).wr && (inputs between).wrK == kbdStatus) = false := by
  induction clock with
  | zero =>
    constructor
    · intro up
      exact absurd up Bool.false_ne_true
    · rintro ⟨drop, early, -⟩
      exact absurd early (Nat.not_lt_zero drop)
  | succ clock ih =>
    rw [run_succ, overflowed_next]
    constructor
    · rintro ⟨rst, ⟨strobe, push⟩ | ⟨unwritten, before⟩⟩
      · exact ⟨clock, by omega, ⟨rst, strobe, push⟩, fun between low high => by omega⟩
      · obtain ⟨drop, early, dropped, quiet⟩ := ih.mp before
        refine ⟨drop, by omega, dropped, fun between low high => ?_⟩
        by_cases last : between = clock
        · exact last ▸ ⟨rst, unwritten⟩
        · exact quiet between low (by omega)
    · rintro ⟨drop, early, dropped, quiet⟩
      by_cases last : drop = clock
      · obtain ⟨rst, strobe, push⟩ := last ▸ dropped
        exact ⟨rst, Or.inl ⟨strobe, push⟩⟩
      · obtain ⟨rst, unwritten⟩ := quiet clock (by omega) (by omega)
        have before := ih.mpr ⟨drop, by omega, dropped,
          fun between low high => quiet between low (by omega)⟩
        exact ⟨rst, Or.inr ⟨unwritten, before⟩⟩

theorem overflow_bit : (s.wordNow kbdStatus).getLsbD 1 = s.overflowed := by
  unfold State.wordNow
  rw [if_pos rfl]
  generalize s.kbdEnable = enabled
  generalize s.empty = empty
  generalize s.overflowed = dropped
  revert enabled empty dropped
  decide

/-- The keyboard's queue loses nothing and is bounded, whatever keys, reads and writes fall in one
clock: what reads of 121 gave and what is waiting are the words accepted, in order and each once; the
count is the words between the head and the tail; a read gives its page as the clock began; a word is
dropped only when 64 are waiting and the clock's read takes none; and the overflow reads set exactly
from a drop until a later clock writes 120 or resets. -/
theorem keyboard_lossless (fifo : BitVec 6 → BitVec 24) (lines : BitVec 7)
    (inputs : Nat → Input) (clock : Nat) :
    returned fifo lines inputs clock ++ (run fifo lines inputs clock).waiting =
      accepted fifo lines inputs clock ∧
    (run fifo lines inputs clock).tail = (run fifo lines inputs clock).head +
      BitVec.ofNat 6 (run fifo lines inputs clock).count.toNat ∧
    (run fifo lines inputs clock).count.toNat = (run fifo lines inputs clock).waiting.length ∧
    (run fifo lines inputs clock).waiting.length ≤ 64 ∧
    ((inputs clock).rst = false → (inputs clock).rd = true →
      (run fifo lines inputs (clock + 1)).rdWord =
        (run fifo lines inputs clock).wordNow (inputs clock).rdK) ∧
    (run fifo lines inputs clock).wordNow kbdData =
      (match (run fifo lines inputs clock).waiting with
      | [] => 0#32
      | oldest :: _ => 0#8 ++ oldest) ∧
    (Dropped fifo lines inputs clock →
      (run fifo lines inputs clock).waiting.length = 64 ∧
      ¬ ((inputs clock).rd = true ∧ (inputs clock).rdK = kbdData)) ∧
    (((run fifo lines inputs clock).wordNow kbdStatus).getLsbD 1 = true ↔
      ∃ drop, drop < clock ∧ Dropped fifo lines inputs drop ∧
        ∀ between, drop < between → between < clock → (inputs between).rst = false ∧
          ((inputs between).wr && (inputs between).wrK == kbdStatus) = false) := by
  obtain ⟨queued, all⟩ := returned_waiting fifo lines inputs clock
  have length : (run fifo lines inputs clock).waiting.length =
      (run fifo lines inputs clock).count.toNat := by simp [State.waiting]
  refine ⟨all, queued.tail, length.symm, length ▸ queued.few, rdWord_next, ?_, ?_, ?_⟩
  · rw [wordNow_data]
    unfold State.waiting
    by_cases zero : (run fifo lines inputs clock).count = 0#7
    · rw [if_pos zero, zero]
      rfl
    · rw [if_neg zero]
      obtain ⟨rest, count⟩ : ∃ rest, (run fifo lines inputs clock).count.toNat = rest + 1 := by
        apply Nat.exists_eq_succ_of_ne_zero
        intro none
        exact zero (BitVec.eq_of_toNat_eq none)
      rw [count, places_cons]
      rfl
  · rintro ⟨rst, strobe, dropped⟩
    have why : ¬ ((run fifo lines inputs clock).count.toNat ≠ 64 ∨
        (run fifo lines inputs clock).pop (inputs clock) = true) := by
      intro room
      exact absurd (push_iff.mpr ⟨strobe, room⟩) (by simp [dropped])
    have whole : (run fifo lines inputs clock).count.toNat = 64 := by
      by_contra other
      exact why (Or.inl other)
    refine ⟨length.trans whole, ?_⟩
    rintro ⟨rd, data⟩
    exact why (Or.inr (pop_iff.mpr ⟨rd, data, by omega⟩))
  · rw [overflow_bit, overflowed_iff]

end MuirFpga.Quux.Keyboard
