import MuirFpga.Serial.Pci
import MuirFpga.Sync.Occurs
import Mathlib.Data.Nat.Count

/-!
# What the port transmits

The chip holds the character and the line its time, joined by pulses of one tick that the chip may refuse.
In the normal mode and without `-UB INIT`, what was written to the data register is what was strobed onto the
cable, in order, with what the two registers still hold; and a strobe comes after the frame its own take
began.
-/

namespace MuirFpga.Serial

open MuirFpga.Sync

namespace SerialPort

section Tick

variable (s : SerialPort) (i : PortTick)

/-- The shift register takes the holding register in this tick. -/
def takes : Bool := s.pci.takes s.line.wires

/-- A frame that carries a character ends in this tick. -/
def ends : Bool := s.pci.ends s.line.wires

/-- A 16X clock. -/
def x16 : Bool := s.line.x16 s.pci

/-- The characters in the shift and the holding register, the older first. -/
def held : List Char8 :=
  (if s.pci.shifting then [s.pci.shift] else []) ++ (if s.pci.thrFull then [s.pci.thr] else [])

/-- The characters written so far, where a write finds the holding register full and replaces what it has. -/
def keeps (kept : List Char8) : List Char8 :=
  match i.access.stored .data with
  | none => kept
  | some c => if s.pci.thrFull && !s.takes then kept.dropLast ++ [c] else kept ++ [c]

/-- A line at rest has taken nothing, and a character in the shift register has its frame before it or at its
end. -/
structure InStep : Prop where
  busy : s.line.take = true → s.line.txBusy = true
  frame : s.pci.shifting = true →
    s.line.done = true ∨ s.line.txBusy = true ∧ s.line.take = false

/-- The cable has nothing of the receiver's. -/
def Plain : Prop := s.pci.echoDue = false

end Tick

section Step

variable {s : SerialPort} {i : PortTick}

theorem pci_next (calm : i.init = false) : (s.next i).pci = s.pci.run s.line.wires i.access := by
  simp [next, Pci.next, calm]

theorem ends_eq : s.ends = (s.line.done && s.pci.shifting) := rfl

theorem line_next : (s.next i).line = s.line.next s.pci i.init i.face := rfl

theorem takes_spec (takes : s.takes = true) :
    s.line.take = true ∧ s.pci.thrFull = true ∧ (s.pci.shifting = true → s.line.done = true) := by
  unfold SerialPort.takes Pci.takes at takes
  simp only [Bool.and_eq_true, Bool.or_eq_true, Bool.not_eq_true'] at takes
  obtain ⟨⟨⟨⟨take, full⟩, -⟩, -⟩, free⟩ := takes
  refine ⟨take, full, fun shifting => ?_⟩
  obtain empty | done := free
  · exact absurd shifting (by simp [empty])
  · exact done

theorem shifting_next (calm : i.init = false) : (s.next i).pci.shifting = true ↔
    s.takes = true ∨ s.pci.shifting = true ∧ s.line.done = false := by
  rw [pci_next calm]
  show (if s.takes then true else if s.ends then false else s.pci.shifting) = true ↔ _
  cases takes : s.takes with
  | true => simp
  | false => cases done : s.line.done <;> simp [ends_eq, done]

theorem inStep_reset : reset.InStep := ⟨(fun take => nomatch take), (fun shifting => nomatch shifting)⟩

theorem InStep.done_of_take (inStep : s.InStep) (take : s.line.take = true)
    (shifting : s.pci.shifting = true) : s.line.done = true := by
  obtain done | ⟨-, not⟩ := inStep.frame shifting
  · exact done
  · exact absurd take (by simp [not])

theorem InStep.busy_of_shifting (inStep : s.InStep) (calm : i.init = false)
    (shifting : (s.next i).pci.shifting = true) : s.line.txBusy = true := by
  obtain takes | ⟨shifting, running⟩ := (shifting_next calm).mp shifting
  · exact inStep.busy (takes_spec takes).1
  · obtain done | ⟨busy, -⟩ := inStep.frame shifting
    · exact absurd done (by simp [running])
    · exact busy

theorem frameEnds_of_starts (busy : s.line.txBusy = true) (starts : s.line.starts s.pci = true) :
    s.line.frameEnds s.pci = true := by
  simp only [Line.starts, busy, Bool.not_true, Bool.false_or, Bool.and_eq_true] at starts
  simp only [Line.frameEnds, busy, starts.1.1, starts.1.2, Bool.and_self]

theorem InStep.next (inStep : s.InStep) (calm : i.init = false) : (s.next i).InStep := by
  constructor
  · intro take
    have starts : s.line.starts s.pci = true := take
    simp [line_next, Line.next, calm, starts]
  · intro shifting
    have busy := inStep.busy_of_shifting calm shifting
    by_cases frameEnds : s.line.frameEnds s.pci = true
    · exact Or.inl frameEnds
    · have free : s.line.starts s.pci = false := by
        by_contra starts
        exact frameEnds (frameEnds_of_starts busy (by simpa using starts))
      refine Or.inr ⟨?_, free⟩
      simp [line_next, Line.next, calm, free, frameEnds, busy]

theorem keeps_eq (calm : i.init = false) (sent : List Char8) :
    s.keeps i (sent ++ s.held) = (sent ++ if s.ends then [s.pci.shift] else []) ++ (s.next i).held := by
  have shifts : (s.next i).pci.shift = if s.takes then s.pci.thr else s.pci.shift := by
    rw [pci_next calm]; rfl
  have full : (s.next i).pci.thrFull =
      if (i.access.stored .data).isSome then true else if s.takes then false else s.pci.thrFull := by
    rw [pci_next calm]; rfl
  have thr : (s.next i).pci.thr = (i.access.stored .data).getD s.pci.thr := by
    rw [pci_next calm]; rfl
  have next := shifting_next (s := s) calm
  unfold keeps held
  rw [shifts, full, thr]
  cases takes : s.takes with
  | true =>
    obtain ⟨take, thrFull, done⟩ := takes_spec takes
    have ends : s.ends = s.pci.shifting := by
      cases shifting : s.pci.shifting with
      | false => rw [ends_eq, shifting, Bool.and_false]
      | true => rw [ends_eq, shifting, done shifting, Bool.and_self]
    rw [if_pos (next.mpr (Or.inl takes)), ends, thrFull]
    cases i.access.stored .data <;> simp
  | false =>
    have stays : (s.next i).pci.shifting = (s.pci.shifting && !s.line.done) := by
      rw [Bool.eq_iff_iff, next, takes]
      simp
    rw [stays, ends_eq]
    cases i.access.stored .data <;> cases s.pci.thrFull <;> cases s.pci.shifting <;>
      cases s.line.done <;> simp

theorem strobe_next (calm : i.init = false) (normal : s.pci.mode = 0) (plain : s.Plain) :
    (s.next i).pci.txStrobe = s.ends ∧ (s.ends = true → (s.next i).pci.txData = s.pci.shift &&& s.pci.mask) := by
  have here : s.pci.isLocal = false := by simp [Pci.isLocal, normal]
  rw [pci_next calm]
  show ((s.ends && !s.pci.isLocal) || (s.line.rxEnd && s.pci.echoDue)) = s.ends ∧ (s.ends = true →
    (if s.line.rxEnd && s.pci.echoDue then s.pci.echoByte
      else if s.ends && !s.pci.isLocal then s.pci.shift &&& s.pci.mask else s.pci.txData) = _)
  rw [here, show s.pci.echoDue = false from plain]
  constructor
  · simp
  · intro ends
    simp [ends]

theorem Plain.next (plain : s.Plain) (calm : i.init = false) (normal : s.pci.mode = 0) :
    (s.next i).Plain := by
  have quiet : s.pci.echoes = false := by simp [Pci.echoes, normal]
  unfold Plain at *
  rw [pci_next calm]
  simp [Pci.run, quiet, plain]

end Step

section Run

variable (ticks : Nat → PortTick)

/-- The port at a tick, from the reset. -/
def portAt (clock : Nat) : SerialPort := trace SerialPort.next .reset ticks clock

/-- The characters strobed by a clock, with the clocks. -/
def strobed (clock : Nat) : List (Nat × Char8) :=
  (List.range (clock + 1)).filterMap fun at_ =>
    if (portAt ticks at_).pci.txStrobe then some (at_, (portAt ticks at_).pci.txData) else none

/-- The characters written, where a write that finds the holding register full replaces what it has. -/
def kept : Nat → List Char8
  | 0 => []
  | clock + 1 => (portAt ticks clock).keeps (ticks clock) (kept clock)

/-- The characters written while TxRDY was up. -/
def written (clock : Nat) : List Char8 :=
  (List.range clock).filterMap fun at_ =>
    if (portAt ticks at_).pci.txReady then (ticks at_).access.stored .data else none

/-- The 16X clocks before a clock. -/
def x16s (clock : Nat) : Nat := Nat.count (fun at_ => (portAt ticks at_).x16 = true) clock

/-- A frame ends, and the 16X clocks since the tick of its take are those of a frame as the mode register had
it when the line began it. -/
def Framed (c : Char8) (ended : Nat) : Prop :=
  ∃ began, began + 1 < ended ∧ (portAt ticks (began + 1)).takes = true ∧
    (portAt ticks (began + 1)).pci.thr = c ∧
    x16s ticks (began + 1) + Line.frameX16 (portAt ticks began).pci = x16s ticks ended

/-- What is strobed by a clock, with what the registers hold, is these characters: each masked at the end of
its frame, strobed a tick later, and its frame whole. -/
def Transmits (chars : List Char8) (clock : Nat) : Prop :=
  ∃ sent : List (Nat × Char8), chars = sent.map Prod.snd ++ (portAt ticks clock).held ∧
    strobed ticks clock = sent.map (fun it => (it.1 + 1, it.2 &&& (portAt ticks it.1).pci.mask)) ∧
    ∀ it ∈ sent, Framed ticks it.2 it.1

/-- The line's take is up. -/
def takeAt (clock : Nat) : Prop := (portAt ticks clock).line.take = true

/-- The frame the line is in, the one it has just ended, and the take of the character in the shift register,
each with no other take since. -/
structure Timed (clock : Nat) : Prop where
  busy : (portAt ticks clock).line.txBusy = true → ∃ began, began < clock ∧ takeAt ticks (began + 1) ∧
    Never (takeAt ticks) (began + 2) (clock + 1) ∧ 1 ≤ (portAt ticks clock).line.txLeft ∧
    (portAt ticks clock).line.txLeft + x16s ticks clock
      = x16s ticks (began + 1) + Line.frameX16 (portAt ticks began).pci
  done : (portAt ticks clock).line.done = true → ∃ began, began + 1 < clock ∧ takeAt ticks (began + 1) ∧
    Never (takeAt ticks) (began + 2) clock ∧
    x16s ticks (began + 1) + Line.frameX16 (portAt ticks began).pci = x16s ticks clock
  shift : (portAt ticks clock).pci.shifting = true → ∃ began, began + 1 < clock ∧
    (portAt ticks (began + 1)).takes = true ∧ Never (takeAt ticks) (began + 2) clock ∧
    (portAt ticks (began + 1)).pci.thr = (portAt ticks clock).pci.shift

variable {ticks} {clock : Nat}

theorem portAt_succ : portAt ticks (clock + 1) = (portAt ticks clock).next (ticks clock) := rfl

theorem x16s_succ : x16s ticks (clock + 1) = x16s ticks clock + if (portAt ticks clock).x16 then 1 else 0 :=
  Nat.count_succ _ _

theorem frameX16_pos {c : Pci} : 1 ≤ Line.frameX16 c := by
  unfold Line.frameX16 Line.halfBits
  omega

theorem timed_zero : Timed ticks 0 :=
  ⟨(fun busy => nomatch busy), (fun done => nomatch done), (fun shifting => nomatch shifting)⟩

theorem Timed.busy_succ (timed : Timed ticks clock) (calm : (ticks clock).init = false)
    (busy : (portAt ticks (clock + 1)).line.txBusy = true) : ∃ began, began < clock + 1 ∧
      takeAt ticks (began + 1) ∧ Never (takeAt ticks) (began + 2) (clock + 2) ∧
      1 ≤ (portAt ticks (clock + 1)).line.txLeft ∧
      (portAt ticks (clock + 1)).line.txLeft + x16s ticks (clock + 1)
        = x16s ticks (began + 1) + Line.frameX16 (portAt ticks began).pci := by
  have line : (portAt ticks (clock + 1)).line = (portAt ticks clock).line.next (portAt ticks clock).pci
      (ticks clock).init (ticks clock).face := rfl
  by_cases starts : (portAt ticks clock).line.starts (portAt ticks clock).pci = true
  · have loaded : (portAt ticks (clock + 1)).line.txLeft = Line.frameX16 (portAt ticks clock).pci := by
      simp [line, Line.next, calm, starts]
    refine ⟨clock, Nat.lt_succ_self clock, starts, never_self _ _, ?_, ?_⟩
    · rw [loaded]
      exact frameX16_pos
    · rw [loaded, Nat.add_comm]
  · have under : (portAt ticks clock).line.txBusy = true ∧
        (portAt ticks clock).line.frameEnds (portAt ticks clock).pci = false := by
      simpa [line, Line.next, calm, starts, and_comm] using busy
    obtain ⟨began, before, take, never, some_, count⟩ := timed.busy under.1
    refine ⟨began, Nat.lt_succ_of_lt before, take, never_succ never starts, ?_⟩
    have left : (portAt ticks (clock + 1)).line.txLeft =
        if (portAt ticks clock).x16 && (portAt ticks clock).line.txLeft ≠ 1 then
          (portAt ticks clock).line.txLeft - 1 else (portAt ticks clock).line.txLeft := by
      simp [line, Line.next, calm, starts, under.1, SerialPort.x16]
    rw [left, x16s_succ]
    cases clocks : (portAt ticks clock).x16 with
    | false => simpa using ⟨some_, count⟩
    | true =>
      have more : (portAt ticks clock).line.txLeft ≠ 1 := by
        intro last
        have ends : (portAt ticks clock).line.frameEnds (portAt ticks clock).pci = true := by
          simp [Line.frameEnds, under.1, last, show (portAt ticks clock).line.x16 _ = true from clocks]
        exact absurd ends (by simp [under.2])
      simp only [more, ne_eq, not_false_eq_true, decide_true, Bool.and_self, if_true]
      omega

theorem Timed.done_succ (timed : Timed ticks clock)
    (done : (portAt ticks (clock + 1)).line.done = true) : ∃ began, began + 1 < clock + 1 ∧
      takeAt ticks (began + 1) ∧ Never (takeAt ticks) (began + 2) (clock + 1) ∧
      x16s ticks (began + 1) + Line.frameX16 (portAt ticks began).pci = x16s ticks (clock + 1) := by
  have ends : (portAt ticks clock).line.frameEnds (portAt ticks clock).pci = true := done
  simp only [Line.frameEnds, Bool.and_eq_true, decide_eq_true_eq] at ends
  obtain ⟨⟨clocks, busy⟩, last⟩ := ends
  obtain ⟨began, before, take, never, -, count⟩ := timed.busy busy
  refine ⟨began, Nat.succ_lt_succ before, take, never, ?_⟩
  rw [← count, last, Nat.add_comm]
  exact (x16s_succ.trans (congrArg _ (if_pos clocks))).symm

theorem Timed.shift_succ (timed : Timed ticks clock) (inStep : (portAt ticks clock).InStep)
    (calm : (ticks clock).init = false) (shifting : (portAt ticks (clock + 1)).pci.shifting = true) :
    ∃ began, began + 1 < clock + 1 ∧ (portAt ticks (began + 1)).takes = true ∧
      Never (takeAt ticks) (began + 2) (clock + 1) ∧
      (portAt ticks (began + 1)).pci.thr = (portAt ticks (clock + 1)).pci.shift := by
  have shift : (portAt ticks (clock + 1)).pci.shift =
      if (portAt ticks clock).takes then (portAt ticks clock).pci.thr else (portAt ticks clock).pci.shift := by
    rw [portAt_succ, pci_next calm]
    rfl
  by_cases takes : (portAt ticks clock).takes = true
  · cases clock with
    | zero => exact absurd (takes_spec takes).1 (by simp [portAt, trace, SerialPort.reset, Line.reset])
    | succ clock =>
      refine ⟨clock, Nat.lt_succ_self _, takes, never_self _ _, ?_⟩
      rw [shift, if_pos takes]
  · obtain taken | ⟨shifting, running⟩ := (shifting_next calm).mp shifting
    · exact absurd taken takes
    · obtain ⟨began, before, took, never, same⟩ := timed.shift shifting
      refine ⟨began, Nat.lt_succ_of_lt before, took, never_succ never fun take => ?_, ?_⟩
      · exact Bool.false_ne_true (running.symm.trans (inStep.done_of_take take shifting))
      · rw [shift, if_neg takes, same]

theorem Timed.framed (timed : Timed ticks clock) (ends : (portAt ticks clock).ends = true) :
    Framed ticks (portAt ticks clock).pci.shift clock := by
  rw [ends_eq, Bool.and_eq_true] at ends
  obtain ⟨began, before, take, never, count⟩ := timed.done ends.1
  obtain ⟨since, early, takes, quiet, same⟩ := timed.shift ends.2
  have one : since = began := by
    obtain less | equal | more := Nat.lt_trichotomy since began
    · exact absurd take (quiet (began + 1) (by omega) before)
    · exact equal
    · exact absurd (takes_spec takes).1 (never (since + 1) (by omega) early)
  subst one
  exact ⟨since, early, takes, same, count⟩

end Run

section Delivered

variable {ticks : Nat → PortTick} {clock : Nat}

/-- A run without `-UB INIT`. -/
def Calm (ticks : Nat → PortTick) (clock : Nat) : Prop := ∀ at_, at_ < clock → (ticks at_).init = false

/-- The chip is in the normal mode. -/
def Normal (ticks : Nat → PortTick) (clock : Nat) : Prop :=
  ∀ at_, at_ < clock → (portAt ticks at_).pci.mode = 0

theorem inStep_portAt (calm : Calm ticks clock) : (portAt ticks clock).InStep := by
  induction clock with
  | zero => exact inStep_reset
  | succ clock ih =>
    exact (ih fun at_ before => calm at_ (Nat.lt_succ_of_lt before)).next (calm clock (Nat.lt_succ_self clock))

theorem timed_portAt (calm : Calm ticks clock) : Timed ticks clock := by
  induction clock with
  | zero => exact timed_zero
  | succ clock ih =>
    have before : Calm ticks clock := fun at_ before => calm at_ (Nat.lt_succ_of_lt before)
    have now := calm clock (Nat.lt_succ_self clock)
    exact ⟨(ih before).busy_succ now, (ih before).done_succ, (ih before).shift_succ (inStep_portAt before) now⟩

theorem plain_portAt (calm : Calm ticks clock) (normal : Normal ticks clock) : (portAt ticks clock).Plain := by
  induction clock with
  | zero => rfl
  | succ clock ih =>
    exact (ih (fun at_ before => calm at_ (Nat.lt_succ_of_lt before))
      fun at_ before => normal at_ (Nat.lt_succ_of_lt before)).next (calm clock (Nat.lt_succ_self clock))
      (normal clock (Nat.lt_succ_self clock))

theorem strobed_succ : strobed ticks (clock + 1) = strobed ticks clock ++
    if (portAt ticks (clock + 1)).pci.txStrobe then [(clock + 1, (portAt ticks (clock + 1)).pci.txData)]
    else [] := by
  unfold strobed
  rw [List.range_succ, List.filterMap_append]
  congr 1
  cases strobe : (portAt ticks (clock + 1)).pci.txStrobe <;> simp [strobe]

/-- The line carries the characters kept. -/
theorem transmits_kept (calm : Calm ticks clock) (normal : Normal ticks clock) :
    Transmits ticks (kept ticks clock) clock := by
  induction clock with
  | zero => exact ⟨[], rfl, rfl, fun it inside => nomatch inside⟩
  | succ clock ih =>
    have earlier : Calm ticks clock := fun at_ before => calm at_ (Nat.lt_succ_of_lt before)
    have usual : Normal ticks clock := fun at_ before => normal at_ (Nat.lt_succ_of_lt before)
    have now := calm clock (Nat.lt_succ_self clock)
    obtain ⟨sent, chars, strobes, frames⟩ := ih earlier usual
    have strobe := strobe_next now (normal clock (Nat.lt_succ_self clock)) (plain_portAt earlier usual)
    have keeps := keeps_eq (s := portAt ticks clock) now (sent.map Prod.snd)
    rw [← chars] at keeps
    cases ends : (portAt ticks clock).ends with
    | false =>
      refine ⟨sent, ?_, ?_, frames⟩
      · rw [kept, keeps, ends]
        simp [portAt_succ]
      · rw [strobed_succ, strobes, portAt_succ, strobe.1, ends]
        simp
    | true =>
      refine ⟨sent ++ [(clock, (portAt ticks clock).pci.shift)], ?_, ?_, ?_⟩
      · rw [kept, keeps, ends]
        simp [portAt_succ]
      · rw [strobed_succ, strobes, portAt_succ, strobe.1, ends, strobe.2 ends]
        simp
      · intro it inside
        obtain old | new := List.mem_append.mp inside
        · exact frames it old
        · rw [List.mem_singleton.mp new]
          exact (timed_portAt earlier).framed ends

/-- A polite program loses none. -/
theorem kept_eq_written (polite : ∀ at_, at_ < clock → ((ticks at_).access.stored .data).isSome = true →
    (portAt ticks at_).pci.txReady = true) : kept ticks clock = written ticks clock := by
  induction clock with
  | zero => rfl
  | succ clock ih =>
    have now := polite clock (Nat.lt_succ_self clock)
    unfold written at *
    rw [kept, List.range_succ, List.filterMap_append, ← ih fun at_ before => polite at_ (Nat.lt_succ_of_lt before)]
    unfold keeps
    cases stored : (ticks clock).access.stored .data with
    | none => simp [stored]
    | some c =>
      have ready : (portAt ticks clock).pci.txReady = true := now (by simp [stored])
      have room : (portAt ticks clock).pci.thrFull = false := by
        simpa using (Bool.and_eq_true_iff.mp ready).2
      simp [stored, ready, room]

/-- What the port transmits: the characters written, but for those a later write replaced in the holding
register; and where every write comes with TxRDY up, the characters written. -/
theorem transmit_lossless (calm : Calm ticks clock) (normal : Normal ticks clock) :
    Transmits ticks (kept ticks clock) clock ∧
      ((∀ at_, at_ < clock → ((ticks at_).access.stored .data).isSome = true →
          (portAt ticks at_).pci.txReady = true) → Transmits ticks (written ticks clock) clock) := by
  refine ⟨transmits_kept calm normal, fun polite => ?_⟩
  rw [← kept_eq_written polite]
  exact transmits_kept calm normal

/-- The cable is in, and two characters are written, the second as the first is sent. -/
def sending (clock : Nat) : PortTick where
  init := false
  access := match clock with
    | 4 => .write .mode 0x4e
    | 6 => .write .mode 0x3f
    | 8 => .write .command 0x01
    | 10 => .write .data 0x41
    | 340 => .write .data 0x42
    | _ => .idle
  face := if clock = 2 then some ⟨4, 7, 7⟩ else none

theorem transmit_lossless_sending : Transmits sending [0x41, 0x42] 350 ∧
    (portAt sending 350).pci.shifting = true := by
  have polite : ∀ at_, at_ < 350 → ((sending at_).access.stored .data).isSome = true →
      (portAt sending at_).pci.txReady = true := by decide +kernel
  have written_ : written sending 350 = [0x41, 0x42] := by decide +kernel
  have calm : Calm sending 350 := by unfold Calm; decide +kernel
  have normal : Normal sending 350 := by unfold Normal; decide +kernel
  have lossless := (transmit_lossless calm normal).2 polite
  rw [written_] at lossless
  exact ⟨lossless, by decide +kernel⟩

/-- A write of a mode or command register in every fortieth tick, and then two of the data register. -/
def clash (clock : Nat) : PortTick where
  init := false
  access := match clock with
    | 40 => .write .mode 0x4e
    | 80 => .write .mode 0x3f
    | 120 => .write .command 0x01
    | 160 => .write .data 0x41
    | 200 => .write .data 0x42
    | _ => .idle
  face := none

/-- A write that comes with TxRDY down replaces the character that was written with TxRDY up: nothing has been
strobed, and the registers hold the other. -/
theorem ready_is_not_kept : Calm clash 201 ∧ Normal clash 201 ∧ written clash 201 = [0x41] ∧
    (portAt clash 201).held = [0x42] ∧ ¬ Transmits clash (written clash 201) 201 := by
  have written_ : written clash 201 = [0x41] := by decide +kernel
  have held_ : (portAt clash 201).held = [0x42] := by decide +kernel
  refine ⟨by unfold Calm; decide +kernel, by unfold Normal; decide +kernel, written_, held_, ?_⟩
  rintro ⟨sent, chars, -⟩
  rw [written_, held_] at chars
  have last := congrArg List.getLast? chars
  rw [List.getLast?_concat] at last
  exact absurd last (by decide)

end Delivered

end SerialPort

end MuirFpga.Serial
