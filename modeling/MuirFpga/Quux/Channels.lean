import MuirFpga.Quux.Answers

/-!
# The channels' stability

Once VALID is up on a channel of the memory port with READY low, it is up with the same beat the
next clock. The write channels' follow from the lists: a write on the channel stands there until it
is taken. The read address is the read rule's, made again every clock, and stands while no write to
its line is pushed.
-/

namespace MuirFpga.Quux

open Sync

namespace Port

variable {c : PortConfig} {i : PortInput} {s : Port c}

/-- The lookups' and the fill's registers. -/
def asking (x : Port c) := (x.lpV, x.ltV, x.fs, x.fBus, x.lpBus, x.ltBus, x.ltWithP, x.fByp)

/-- The fill's line and its kind. -/
def sought (x : Port c) := (x.fBus, x.fByp)

theorem asking_next (off : i.rst = false) :
    (s.next i).lpV = i.pReq ∧ (s.next i).ltV = s.tIssue i ∧ (s.next i).fs = s.fsNext i ∧
      ((s.next i).fBus = if s.fNew then s.fBusNow
        else if s.dFillGo i then 0#1 ++ i.dAddr.extractLsb' 3 25 ++ 0#3 else s.fBus) ∧
      (s.next i).lpBus = i.pBus ∧ (s.next i).ltBus = s.tNow i ∧ (s.next i).ltWithP = i.pReq ∧
      (s.next i).fByp = if s.fNew then false else if s.dFillGo i then true else s.fByp := by
  have put (on : Bool) (slot : BitVec 3) (bus : BitVec 29) (word : BitVec 40) (dma : Bool)
      (x : Port c) : (put on slot bus word dma x).sought = x.sought := by
    unfold Port.put
    cases on <;> rfl
  have queue (x : Port c) : (s.queueNext i x).sought = x.sought := by
    change (Port.put (s.dPush i) (s.dSlot i) (0#1 ++ i.dAddr) i.dWdata true _).sought = _
    rw [put, put, put]
  have transfer (x : Port c) : (s.transferNext i x).sought = x.sought := by
    unfold transferNext
    cases s.bypLast i <;> rfl
  have table (x : Port c) : (s.tableNext i x).asking = x.asking := by
    unfold tableNext asking
    cases s.tHit <;> rfl
  have fill (x : Port c) : (s.fillNext i x).asking = (x.lpV, x.ltV, s.fsNext i,
      (if s.fNew then s.fBusNow
        else if s.dFillGo i then 0#1 ++ i.dAddr.extractLsb' 3 25 ++ 0#3 else x.fBus),
      x.lpBus, x.ltBus, x.ltWithP,
      if s.fNew then false else if s.dFillGo i then true else x.fByp) := by
    unfold fillNext asking
    generalize s.fNew = new, s.dFillGo i = go, s.install i = install, s.fTable = forTable
    cases install with
    | false => cases new <;> cases go <;> rfl
    | true => cases new <;> cases go <;> cases forTable <;> rfl
  have registers : (s.next i).asking = (s.registers i).asking := by
    unfold next
    rw [off]
    rfl
  have all := registers.trans (fill (s.tableNext i (s.lookupNext i (s.transferNext i
    (s.queueNext i (s.listNext i s))))))
  have tabled := table (s.lookupNext i (s.transferNext i (s.queueNext i (s.listNext i s))))
  have kinds := (transfer _).trans (queue (s.listNext i s))
  simp only [asking, sought, Prod.mk.injEq] at all tabled kinds
  obtain ⟨lp, lt, -, bus, lpBus, ltBus, withP, byp⟩ := tabled
  rw [lp, lt, bus, lpBus, ltBus, withP, byp] at all
  obtain ⟨lp, lt, fs, bus, lpBus, ltBus, withP, byp⟩ := all
  refine ⟨lp, lt, fs, bus.trans ?_, lpBus, ltBus, withP, byp.trans ?_⟩
  · change (if s.fNew then _ else if s.dFillGo i then _
      else (s.transferNext i (s.queueNext i (s.listNext i s))).fBus) = _
    rw [kinds.1]
    rfl
  · change (if s.fNew then _ else if s.dFillGo i then _
      else (s.transferNext i (s.queueNext i (s.listNext i s))).fByp) = _
    rw [kinds.2]
    rfl

theorem looking_next (off : i.rst = false)
    (read : i.pReq = true → s.fNew = false ∧ s.pBusy i = false)
    (lookup : i.pReq = true ∨ s.tIssue i = true) : (s.next i).filling = false := by
  have alone : s.fNew = false ∧ s.filling = false ∧ s.dFillGo i = false := by
    rcases lookup with p | t
    · obtain ⟨none, free⟩ := read p
      unfold Port.pBusy at free
      simp only [Bool.or_eq_false_iff] at free
      refine ⟨none, free.1.1.1, ?_⟩
      simp [Port.dFillGo, p]
    · unfold Port.tIssue Port.fExists at t
      simp only [Bool.and_eq_true, Bool.not_eq_true', Bool.or_eq_false_iff] at t
      obtain ⟨⟨⟨⟨wanted, filling, none⟩, -⟩, forced⟩, -⟩ := t
      refine ⟨none, filling, ?_⟩
      -- A table read begun or asked again holds the transfer's fill back; one cancelled now is a
      -- lookup answered now, beside which none is made.
      by_contra go
      rw [Bool.not_eq_false] at go
      unfold Port.dFillGo at go
      simp only [Bool.and_eq_true, Bool.not_eq_true', forced, Bool.false_or, Bool.or_eq_false_iff]
        at go
      unfold Port.tWanted Port.tCancel at wanted
      simp [go] at wanted
  obtain ⟨none, filling, go⟩ := alone
  obtain ⟨-, -, state, -⟩ := Port.asking_next (s := s) off
  unfold Port.filling at filling ⊢
  rw [state]
  unfold Port.fsNext
  cases fs : s.fs <;> simp_all

theorem lineOf_dAddr (i : PortInput) : lineOf (0#1 ++ i.dAddr) = dLine i := by
  unfold lineOf dLine
  apply BitVec.eq_of_toNat_eq
  simp only [BitVec.extractLsb'_toNat, BitVec.toNat_append, BitVec.toNat_ofNat, Nat.zero_mod,
    Nat.shiftLeft_eq, Nat.zero_mul, Nat.zero_or, Nat.shiftRight_eq_div_pow]
  omega

theorem fExists_of_arReq (req : s.arReq = true) : s.fExists = true := by
  unfold arReq at req
  rw [Bool.and_eq_true, Bool.or_eq_true] at req
  unfold fExists filling
  rcases req.1 with waiting | now
  · simp [waiting]
  · simp [now]

theorem wPush_elsewhere (write : i.wReq = true → s.fNew = false) (fill : s.fExists = true)
    (push : s.wPush i = true) : lineOf i.wBus ≠ lineOf s.fBusNow := by
  unfold wPush wOk at push
  simp only [Bool.and_eq_true, Bool.not_eq_true'] at push
  have none := write push.1
  have held := push.2.1.1.1
  unfold fExists at fill
  rw [none, Bool.or_false] at fill
  rw [fill, Bool.true_and, beq_eq_false_iff_ne] at held
  unfold fBusNow
  rw [none]
  exact held.symm

theorem dPush_elsewhere (fill : s.fExists = true) (push : s.dPush i = true) :
    dLine i ≠ lineOf s.fBusNow := by
  unfold dPush at push
  simp only [Bool.and_eq_true, Bool.not_eq_true'] at push
  have free := push.1.1.1.2
  unfold dWBlock at free
  simp only [Bool.or_eq_false_iff, Bool.and_eq_false_iff, beq_eq_false_iff_ne] at free
  obtain ⟨⟨noFill, noP⟩, noT⟩ := free
  cases now : s.fNew with
  | false =>
    have waiting : s.filling = true := by
      unfold fExists at fill
      rwa [now, Bool.or_false] at fill
    unfold fBusNow
    rw [now]
    exact fun same => noFill.elim (fun none => by simp [none] at waiting) (fun ne => ne same.symm)
  | true =>
    unfold fBusNow
    rw [now]
    cases miss : s.pMiss with
    | true =>
      have up : s.lpV = true := by
        unfold pMiss at miss
        simp only [Bool.and_eq_true] at miss
        exact miss.1
      exact fun same => noP.elim (fun none => by simp [none] at up) (fun ne => ne same.symm)
    | false =>
      have up : s.ltV = true := by
        unfold fNew at now
        rw [miss, Bool.false_or] at now
        unfold tMiss at now
        simp only [Bool.and_eq_true] at now
        exact now.1.1
      exact fun same => noT.elim (fun none => by simp [none] at up) (fun ne => ne same.symm)

theorem pushes_subset (off : i.rst = false) (few : s.qCount.toNat ≤ 8) :
    s.pushes i ⊆ (s.next i).queued := by
  have queue := queued_next off few
  intro w member
  cases taken : s.mwTaken i with
  | false =>
    rw [taken] at queue
    have all : s.queued ++ s.pushes i = (s.next i).queued := by simpa using queue
    rw [← all]
    exact List.mem_append_right _ member
  | true =>
    have req := queued_of_taken taken
    unfold mwReq at req
    simp only [Bool.and_eq_true, bne_iff_ne] at req
    have head := Traced.head_queued few req.1.1
    obtain ⟨rest, list⟩ := List.head?_eq_some_iff.mp head
    rw [taken, list] at queue
    have all : rest ++ s.pushes i = (s.next i).queued := by simpa using queue
    rw [← all]
    exact List.mem_append_right _ member

/-- No write to a line is queued or stays in flight. -/
def Unwritten (s : Port c) (line : BitVec 26) : Prop :=
  (∀ w ∈ s.queued, lineOf w.bus ≠ line) ∧
    ∀ slot ∈ s.slots.drop s.landing.length, s.fLine slot ≠ line

theorem written_eq_false : s.written = false ↔ s.Unwritten (lineOf s.fBusNow) := by
  unfold written Unwritten queued
  rw [staying_drop]
  simp [List.any_eq_false, entry]

theorem unwritten_next {line : BitVec 26} (off : i.rst = false) (few : s.qCount.toNat ≤ 8)
    (room : s.fCount.toNat ≤ 16) (clear : s.Unwritten line)
    (none : ∀ w ∈ s.pushes i, lineOf w.bus ≠ line) : (s.next i).Unwritten line := by
  have queue := queued_next off few
  have all := (lists_next (s := s) off).2
  simp only [flying, Prod.mk.injEq] at all
  have lines : (s.next i).fLine = if s.mwTaken i then
      Function.update s.fLine s.fTail (lineOf (s.qBus s.qHead)) else s.fLine := all.2.2.2.2.2
  have held (w : Write) (member : w ∈ s.queued ++ s.pushes i) : lineOf w.bus ≠ line := by
    rw [List.mem_append] at member
    exact member.elim (clear.1 w) (none w)
  rw [queue] at held
  constructor
  · intro w member
    exact held w (List.mem_append_right _ member)
  · intro slot member
    have inside : (s.next i).fLine slot ∈ (s.next i).slots.map (s.next i).fLine :=
      List.mem_map_of_mem (List.mem_of_mem_drop member)
    rw [lines, map_slots_next off room, ← lines, List.mem_append, ← List.map_drop] at inside
    rcases inside with before | accepted
    · obtain ⟨other, stays, same⟩ := List.mem_map.mp before
      rw [← same]
      exact clear.2 other stays
    · cases taken : s.mwTaken i with
      | false => simp [taken] at accepted
      | true =>
        simp only [taken, if_true, List.mem_singleton] at accepted
        rw [accepted]
        exact held (s.entry s.qHead) (List.mem_append_left _ (by simp [taken]))

end Port

namespace Master

variable {c : MasterConfig} {r : MasterReq} {i : AxiInput} {m : Master}

/-- The reads' registers. -/
def reads (m : Master) := (m.rstate, m.secondAddr, m.secondLen, m.beat, m.rWin)

theorem reads_next : (m.next false c r i).reads = (m.readNext c r i).reads := by
  have answer (x : Master) : (m.answer c i x).reads = x.reads := by
    unfold Master.answer
    dsimp only
    split_ifs <;> rfl
  have cont (x : Master) : (m.continuation c r i x).reads = x.reads := by
    unfold continuation
    split_ifs <;> rfl
  have offer (x : Master) : (m.offer c r i x).reads = x.reads := by
    unfold Master.offer
    split_ifs <;> rfl
  unfold next writeNext
  rw [if_neg Bool.false_ne_true, answer, cont, offer]

theorem reads_second (state : m.rstate = .second) : (m.next false c r i).reads =
    (if i.rvalid && m.beat == m.lastBeat then .idle else if i.arready then .data else .second,
      m.secondAddr, m.secondLen, if i.rvalid then m.beat + 1 else m.beat, m.rWin) := by
  rw [reads_next]
  unfold readNext
  cases valid : i.rvalid <;> cases ready : i.arready <;> cases last : m.beat == m.lastBeat <;>
    simp [state, reads]

theorem reads_data (state : m.rstate = .data) : (m.next false c r i).reads =
    (if i.rvalid && m.beat == m.lastBeat then .idle else .data,
      m.secondAddr, m.secondLen, if i.rvalid then m.beat + 1 else m.beat, m.rWin) := by
  rw [reads_next]
  unfold readNext
  cases valid : i.rvalid <;> cases last : m.beat == m.lastBeat <;> simp [state, reads]

end Master

/-- The port with its history and the read beats the memory owes it. -/
structure Served (c : PortConfig) where
  writes : Traced c
  owed : Nat

namespace Served

variable {c : PortConfig} {i : PortInput} {y : Served c}

/-- The port. -/
def port (y : Served c) : Port c := y.writes.port

/-- The read address on the channel. -/
def ar (y : Served c) : Option ArBeat := y.port.master.ar c.master y.port.request

/-- The write address on the channel. -/
def aw (y : Served c) : Option AwBeat := y.port.master.aw c.master y.port.request

/-- The write beat on the channel. -/
def w (y : Served c) : Option WBeat := y.port.master.w c.master y.port.request

/-- The beats of the read address taken this clock. -/
def asked (i : PortInput) (y : Served c) : Nat :=
  if i.axi.arready then y.ar.elim 0 fun b => b.len.toNat + 1 else 0

/-- A port out of reset, whatever it was before. -/
def start (p : Port c) : Served c := ⟨.start p, 0⟩

/-- The clock. -/
def next (i : PortInput) (y : Served c) : Served c where
  writes := y.writes.next i
  owed := if i.rst then 0 else y.owed + y.asked i - i.axi.rvalid.toNat

/-- What the port is built never to see does not come, the memory answers and sends no more than it
was asked, and a reset comes only while the port is quiet. -/
structure Allowed (i : PortInput) (y : Served c) : Prop where
  answers : Traced.Answers i y.writes
  beats : i.rst = false → i.axi.rvalid = true → 0 < y.owed
  reset : i.rst = true → y.port.quiet = true
  read : i.rst = false → i.pReq = true → y.port.fNew = false ∧ y.port.pBusy i = false
  write : i.rst = false → i.wReq = true → y.port.fNew = false
  buffer : i.rst = false → y.port.postPush i = true ∨ y.port.wPush i = true → y.port.db.length < 4
  posted : i.rst = false → y.port.postPush i = true →
    y.port.tlV = true ∧ y.port.tlLine = lineOf i.postBus

/-- A word is not posted to the line of a fill whose address waits to be taken. -/
def Unposted (i : PortInput) (y : Served c) : Prop :=
  i.rst = false → y.port.master.rstate = .idle → y.port.arReq = true → i.axi.arready = false →
    y.port.postPush i = true → lineOf i.postBus ≠ lineOf y.port.fBusNow

/-- A channel with VALID up and READY low has the same beat up the next clock. -/
structure Stable (i : PortInput) (y : Served c) : Prop where
  ar : ∀ beat, y.ar = some beat → i.axi.arready = false → (y.next i).ar = some beat
  aw : ∀ beat, y.aw = some beat → i.axi.awready = false → (y.next i).aw = some beat
  w : ∀ beat, y.w = some beat → i.axi.wready = false → (y.next i).w = some beat

/-- The beats owed are those of the bursts asked for that have not come. -/
def Owes (y : Served c) : Prop :=
  match y.port.master.rstate with
  | .idle => y.owed = 0
  | .second => y.port.master.rWin = false ∧ ∃ first, first ≤ 4 ∧
      y.port.master.secondLen.toNat + 1 + first = 5 ∧ y.owed + y.port.master.beat.toNat = first
  | .data => y.owed + y.port.master.beat.toNat = y.port.master.lastBeat.toNat + 1

/-- What holds at every clock: the lists and their history, no more answers than bursts sent whole,
lookups only beside no fill, and the reads of the fill. -/
structure Steady (y : Served c) : Prop where
  sound : y.writes.Sound
  backed : ∀ id, y.writes.answers.count id ≤
    ((y.writes.aws.take (y.writes.beats.countP WBeat.last)).map AwBeat.id).count id
  looking : (y.port.lpV || y.port.ltV) = true → y.port.filling = false
  reading : y.port.master.rstate ≠ .idle → y.port.fs = .data
  owes : y.Owes

theorem Steady.fNew (steady : Steady y) (made : y.port.fNew = true) : y.port.filling = false := by
  apply steady.looking
  unfold Port.fNew Port.pMiss Port.tMiss at made
  simp only [Bool.or_eq_true, Bool.and_eq_true] at made ⊢
  rcases made with p | t
  · exact Or.inl p.1
  · exact Or.inr t.1.1

theorem looking_next (off : i.rst = false) (allowed : Allowed i y)
    (lookup : i.pReq = true ∨ y.port.tIssue i = true) : (y.port.next i).filling = false :=
  Port.looking_next off (allowed.read off) lookup

theorem firstBeats_bounds {m : MasterConfig} (aligned : m.mainBase.extractLsb' 0 3 = 0#3)
    {line : BitVec 26} (split : m.lineSplit line = true) :
    1 ≤ (m.firstBeats line).toNat ∧ (m.firstBeats line).toNat ≤ 4 := by
  unfold MasterConfig.lineSplit at split
  simp only [Bool.and_eq_true, Bool.not_eq_true', decide_eq_true_eq] at split
  obtain ⟨main, past⟩ := split
  have eighth : (m.lineByte line).toNat % 8 = 0 := by
    have base := congrArg BitVec.toNat aligned
    unfold MasterConfig.lineByte
    rw [main, if_neg Bool.false_ne_true]
    simp only [BitVec.extractLsb'_toNat, Nat.shiftRight_zero, BitVec.toNat_add,
      BitVec.toNat_append, Nat.shiftLeft_eq, BitVec.toNat_ofNat, Nat.zero_mod, Nat.zero_mul,
      Nat.zero_or, Nat.or_zero] at base ⊢
    omega
  rw [BitVec.lt_def] at past
  unfold MasterConfig.firstBeats
  simp only [BitVec.extractLsb'_toNat, BitVec.toNat_ofNat, BitVec.toNat_ushiftRight, BitVec.toNat_sub, BitVec.toNat_append, Nat.shiftLeft_eq,
    Nat.shiftRight_eq_div_pow, Nat.zero_mod, Nat.zero_mul, Nat.zero_or] at past ⊢
  omega

theorem Steady.early (steady : Steady y) (state : y.port.master.rstate = .second)
    (some : 0 < y.owed) : (y.port.master.beat == y.port.master.lastBeat) = false := by
  have owes := steady.owes
  unfold Owes at owes
  rw [state] at owes
  obtain ⟨win, first, few, whole, sum⟩ := owes
  unfold Master.lastBeat
  rw [win, beq_eq_false_iff_ne]
  intro last
  rw [last] at sum
  simp at sum
  omega

/-- What the reads of the next clock are made of. -/
theorem reads_of (off : i.rst = false) : (y.next i).port = y.port.next i ∧
    (y.port.next i).master = y.port.master.next false c.master y.port.request i.axi ∧
    (y.port.next i).fs = y.port.fsNext i ∧
    (y.next i).owed = y.owed + y.asked i - i.axi.rvalid.toNat := by
  refine ⟨by simp [next, Served.port, Traced.next, off], ?_, (Port.asking_next off).2.2.1,
    by simp [next, off]⟩
  rw [← off]
  rfl

section

variable (steady : Steady y) (off : i.rst = false) (allowed : Allowed i y)

include steady off allowed

/-- With no read under way, a fill's address may be taken. -/
theorem Steady.idle_next
    (aligned : c.master.mainBase.extractLsb' 0 3 = 0#3) (state : y.port.master.rstate = .idle) :
    ((y.next i).port.master.rstate ≠ .idle → (y.next i).port.fs = .data) ∧ (y.next i).Owes := by
  have owes := steady.owes
  unfold Owes at owes ⊢
  obtain ⟨port, master, fill, owed⟩ := reads_of off
  rw [port, master, fill, owed]
  rw [state] at owes
  dsimp only at owes
  have silent : i.axi.rvalid = false := by
    cases valid : i.axi.rvalid with
    | false => rfl
    | true => exact absurd (allowed.beats off valid) (by omega)
  have clock := Master.reads_next (c := c.master) (r := y.port.request) (i := i.axi)
    (m := y.port.master)
  unfold Master.readNext at clock
  simp only [state, silent, Bool.and_false, Bool.false_eq_true, if_false] at clock
  cases taken : y.port.master.arTaken y.port.request i.axi with
  | false =>
    simp only [taken, Bool.false_eq_true, if_false, Master.reads, Prod.mk.injEq] at clock
    have none : y.asked i = 0 := by
      unfold Master.arTaken at taken
      unfold asked Served.ar Master.ar
      simp only [state] at taken ⊢
      cases ready : i.axi.arready <;> cases req : y.port.request.arReq <;>
        simp_all
    rw [clock.1, state, none, silent, owes]
    simp
  | true =>
    simp only [taken, if_true, Master.reads, Prod.mk.injEq] at clock
    obtain ⟨rstate, -, secondLen, beat, rWin⟩ := clock
    have both := taken
    unfold Master.arTaken at both
    simp only [Bool.and_eq_true] at both
    have fs : y.port.fsNext i = .data := by
      have issue : y.port.fIssue i = true := taken
      have made : (y.port.fs == .wait || y.port.fNew) = true := by
        have req : y.port.arReq = true := both.1.2
        unfold Port.arReq at req
        simp only [Bool.and_eq_true] at req
        exact req.1
      have alone := steady.fNew
      unfold Port.filling at alone
      unfold Port.fsNext
      rw [issue]
      cases fs : y.port.fs <;> simp_all
    have beatsAsked : y.asked i = (c.master.lineAr (lineOf y.port.fBusNow)).len.toNat + 1 := by
      unfold asked Served.ar Master.ar
      rw [state, both.2, both.1.2]
      rfl
    refine ⟨fun _ => fs, ?_⟩
    unfold Master.lastBeat
    rw [rstate, secondLen, beat, rWin, beatsAsked, silent, owes]
    change (match (if c.master.lineSplit (lineOf y.port.fBusNow) then MasterRead.second
      else MasterRead.data) with
      | .idle => _
      | .second => (lineOf y.port.fBusNow).getLsbD 25 = false ∧ _
      | .data => _)
    cases split : c.master.lineSplit (lineOf y.port.fBusNow) with
    | true =>
      obtain ⟨some, few⟩ := firstBeats_bounds aligned split
      have main : (lineOf y.port.fBusNow).getLsbD 25 = false := by
        unfold MasterConfig.lineSplit at split
        simp only [Bool.and_eq_true, Bool.not_eq_true'] at split
        exact split.1
      refine ⟨main, (c.master.firstBeats (lineOf y.port.fBusNow)).toNat, few, ?_, ?_⟩
      · change (0#5 ++ (4#3 - c.master.firstBeats (lineOf y.port.fBusNow))).toNat + 1 + _ = 5
        rw [BitVec.toNat_append, BitVec.toNat_sub]
        simp only [BitVec.toNat_ofNat, Nat.zero_mod, Nat.shiftLeft_eq, Nat.zero_mul, Nat.zero_or]
        omega
      · have len : (c.master.lineAr (lineOf y.port.fBusNow)).len =
            0#5 ++ (c.master.firstBeats (lineOf y.port.fBusNow) - 1#3) := by
          unfold MasterConfig.lineAr
          rw [main, split]
          rfl
        rw [len, BitVec.toNat_append, BitVec.toNat_sub]
        change 0 + (_ + 1) - 0 + 0 = _
        simp only [BitVec.toNat_ofNat, Nat.zero_mod, Nat.shiftLeft_eq, Nat.zero_mul, Nat.zero_or]
        omega
    | false =>
      change 0 + ((c.master.lineAr (lineOf y.port.fBusNow)).len.toNat + 1) - false.toNat +
        BitVec.toNat 0#3 =
          (if (lineOf y.port.fBusNow).getLsbD 25 then 3#3 else 4#3).toNat + 1
      unfold MasterConfig.lineAr
      rw [split]
      cases (lineOf y.port.fBusNow).getLsbD 25 <;> rfl

/-- The first part's beats come, and the second address may be taken before the last of them. -/
theorem Steady.second_next (state : y.port.master.rstate = .second) :
    ((y.next i).port.master.rstate ≠ .idle → (y.next i).port.fs = .data) ∧ (y.next i).Owes := by
  have owes := steady.owes
  unfold Owes at owes ⊢
  obtain ⟨port, master, fill, owed⟩ := reads_of off
  rw [port, master, fill, owed]
  rw [state] at owes
  obtain ⟨win, first, few, whole, sum⟩ := owes
  have fs := steady.reading (by simp [state])
  have beatsAsked : y.asked i =
      if i.axi.arready then y.port.master.secondLen.toNat + 1 else 0 := by
    unfold asked Served.ar Master.ar
    rw [state]
    rfl
  have early := fun valid => steady.early state (allowed.beats off valid)
  have still : y.port.fsNext i = .data := by
    have going : y.port.master.rdLast i.axi = false := by
      unfold Master.rdLast
      cases valid : i.axi.rvalid with
      | false => simp
      | true => simp [early valid]
    unfold Port.fsNext Port.install Port.bypLast
    simp [fs, going]
  have next := Master.reads_second (c := c.master) (r := y.port.request) (i := i.axi) state
  simp only [Master.reads, Prod.mk.injEq] at next
  obtain ⟨rstate, -, secondLen, beat, rWin⟩ := next
  have short : y.port.master.beat.toNat ≤ 4 := by omega
  refine ⟨fun _ => still, ?_⟩
  unfold Master.lastBeat
  rw [rstate, secondLen, beat, rWin, beatsAsked, win]
  cases valid : i.axi.rvalid with
  | false =>
    cases ready : i.axi.arready with
    | false => exact ⟨rfl, first, few, whole, by simpa using sum⟩
    | true =>
      simp only [Bool.false_and, Bool.false_eq_true, if_false, if_true, Bool.toNat_false]
      change _ = 4 + 1
      omega
  | true =>
    have some := allowed.beats off valid
    rw [early valid]
    have up : (y.port.master.beat + 1).toNat = y.port.master.beat.toNat + 1 := by
      rw [BitVec.toNat_add]
      exact Nat.mod_eq_of_lt (by change _ + 1 < 8; omega)
    cases ready : i.axi.arready with
    | false =>
      refine ⟨rfl, first, few, whole, ?_⟩
      simp only [if_true, if_false, Bool.false_eq_true, Bool.toNat_true, up]
      omega
    | true =>
      simp only [Bool.true_and, Bool.false_eq_true, if_false, if_true, Bool.toNat_true, up]
      change _ = 4 + 1
      omega

/-- The last part's beats come, and the last of them ends the read. -/
theorem Steady.data_next (state : y.port.master.rstate = .data) :
    ((y.next i).port.master.rstate ≠ .idle → (y.next i).port.fs = .data) ∧ (y.next i).Owes := by
  have owes := steady.owes
  unfold Owes at owes ⊢
  obtain ⟨port, master, fill, owed⟩ := reads_of off
  rw [port, master, fill, owed]
  rw [state] at owes
  dsimp only at owes
  have fs := steady.reading (by simp [state])
  have beatsAsked : y.asked i = 0 := by
    unfold asked Served.ar Master.ar
    rw [state]
    simp
  have next := Master.reads_data (c := c.master) (r := y.port.request) (i := i.axi) state
  simp only [Master.reads, Prod.mk.injEq] at next
  obtain ⟨rstate, -, -, beat, rWin⟩ := next
  have lasts : y.port.master.lastBeat.toNat ≤ 4 := by
    unfold Master.lastBeat
    cases y.port.master.rWin <;> decide
  have same : (y.port.master.next false c.master y.port.request i.axi).lastBeat =
      y.port.master.lastBeat := by
    unfold Master.lastBeat
    rw [rWin]
  rw [rstate, beat, beatsAsked, same]
  cases valid : i.axi.rvalid with
  | false =>
    refine ⟨fun _ => ?_, by simpa using owes⟩
    unfold Port.fsNext Port.install Port.bypLast Master.rdLast
    simp [fs, valid]
  | true =>
    have some := allowed.beats off valid
    cases last : y.port.master.beat == y.port.master.lastBeat with
    | true =>
      rw [beq_iff_eq] at last
      rw [last] at owes
      refine ⟨fun going => absurd rfl going, ?_⟩
      simp only [Bool.and_self, if_true, Bool.toNat_true]
      omega
    | false =>
      rw [beq_eq_false_iff_ne] at last
      have other : y.port.master.beat.toNat ≠ y.port.master.lastBeat.toNat :=
        fun equal => last (BitVec.eq_of_toNat_eq equal)
      have up : (y.port.master.beat + 1).toNat = y.port.master.beat.toNat + 1 := by
        rw [BitVec.toNat_add]
        exact Nat.mod_eq_of_lt (by change _ + 1 < 8; omega)
      refine ⟨fun _ => ?_, ?_⟩
      · unfold Port.fsNext Port.install Port.bypLast Master.rdLast
        simp [fs, last]
      · simp only [Bool.and_false, Bool.false_eq_true, if_false, if_true, Bool.toNat_true, up]
        omega

theorem Steady.reads_next (aligned : c.master.mainBase.extractLsb' 0 3 = 0#3) :
    ((y.next i).port.master.rstate ≠ .idle → (y.next i).port.fs = .data) ∧ (y.next i).Owes := by
  cases state : y.port.master.rstate with
  | idle => exact steady.idle_next off allowed aligned state
  | second => exact steady.second_next off allowed state
  | data => exact steady.data_next off allowed state

theorem Steady.backed_next (id : BitVec 4) : (y.next i).writes.answers.count id ≤
      (((y.next i).writes.aws.take ((y.next i).writes.beats.countP WBeat.last)).map
        AwBeat.id).count id := by
  have aws : (y.next i).writes.aws =
      y.writes.aws ++ y.port.master.sentAw c.master y.port.request i.axi := by
    simp [next, Traced.next, off, Served.port]
  have beats : (y.next i).writes.beats =
      y.writes.beats ++ y.port.master.sentW c.master y.port.request i.axi := by
    simp [next, Traced.next, off, Served.port]
  have answers : (y.next i).writes.answers =
      y.writes.answers ++ if i.axi.bvalid then [i.axi.bid] else [] := by
    simp [next, Traced.next, off]
  have grows : ((y.writes.aws.take (y.writes.beats.countP WBeat.last)).map AwBeat.id).count id ≤
      (((y.next i).writes.aws.take ((y.next i).writes.beats.countP WBeat.last)).map
        AwBeat.id).count id := by
    apply List.Sublist.count_le
    apply List.Sublist.map
    rw [aws, beats, List.countP_append]
    have more : y.writes.aws.take (y.writes.beats.countP WBeat.last) <+:
        (y.writes.aws ++ y.port.master.sentAw c.master y.port.request i.axi).take
          (y.writes.beats.countP WBeat.last) := by
      rw [List.take_append]
      exact List.prefix_append _ _
    exact (more.trans (List.take_prefix_take_left (Nat.le_add_right _ _))).sublist
  rw [answers, List.count_append]
  cases valid : i.axi.bvalid with
  | false => exact le_trans (steady.backed id) grows
  | true =>
    have short := allowed.answers off valid
    by_cases same : i.axi.bid = id
    · rw [same] at short
      simp only [if_true, same, List.count_singleton_self]
      omega
    · have none : List.count id [i.axi.bid] = 0 := by simp [same]
      simp only [if_true, none]
      exact le_trans (steady.backed id) grows

end

theorem Steady.flies (steady : Steady y) (cont : y.port.master.contV = true) :
    y.port.fCount ≠ 0 := by
  intro none
  have listed := steady.sound.listed
  have held := steady.sound.channelled
  have all : y.writes.landed.length = y.writes.accepted.length := by
    have count := listed.count
    change _ + y.port.fCount.toNat = _ at count
    rw [none] at count
    exact count
  obtain ⟨noAw, noW⟩ := held.tidy.apart cont
  have short : (y.writes.aws.take (y.writes.beats.countP WBeat.last)).length <
      (y.writes.accepted.flatMap c.master.bursts).length := by
    have aws := congrArg List.length held.aws
    have beats := congrArg (List.countP WBeat.last) held.beats
    have going := held.tidy.going cont
    unfold Served.port at cont
    rw [List.countP_append, List.countP_append, Traced.countP_beats] at beats
    simp only [Master.heldAw, Master.heldW, Master.restAw, Master.restW, noAw, noW, cont,
      Bool.true_and, Bool.false_eq_true, if_false, List.append_nil, List.length_append,
      List.countP_nil] at aws beats
    rw [List.length_take]
    rw [Bool.or_eq_true] at going
    rcases going with address | beat
    · rw [if_pos address, List.length_singleton] at aws
      omega
    · rw [if_pos beat] at beats
      simp only [List.countP_singleton, if_true] at beats
      omega
  -- The first burst not sent whole has an ID that was answered once too often.
  obtain ⟨rest, whole⟩ := held.whole
  cases rest with
  | nil =>
    rw [List.append_nil] at whole
    rw [whole] at short
    exact Nat.lt_irrefl _ short
  | cons burst rest =>
    have answered : y.writes.answers.count burst.id =
        ((y.writes.accepted.flatMap c.master.bursts).map AwBeat.id).count burst.id := by
      rw [steady.sound.heard.total, ← List.take_length (l := y.writes.accepted),
        listed.count_bursts _ (Nat.le_refl _), List.take_length]
      apply Finset.sum_congr rfl
      intro k member
      have landed : y.writes.Done k := by
        left
        rw [all]
        exact Finset.mem_range.mp member
      rw [(steady.sound.heard.got_eq_iff (Finset.mem_range.mp member)).mpr landed]
    have most := steady.backed burst.id
    rw [answered, ← whole, List.map_append, List.count_append] at most
    simp only [List.map_cons, List.count_cons_self] at most
    omega

theorem Steady.silent (steady : Steady y) (quiet : y.port.quiet = true) :
    y.ar = none ∧ y.aw = none ∧ y.w = none := by
  unfold Port.quiet at quiet
  simp only [Bool.and_eq_true, Bool.not_eq_true', beq_iff_eq] at quiet
  obtain ⟨⟨⟨⟨⟨⟨empty, landed⟩, none⟩, -⟩, noP⟩, noT⟩, -⟩ := quiet
  have idle : y.port.master.rstate = .idle := by
    by_contra going
    have data := steady.reading going
    rw [none] at data
    exact absurd data (by decide)
  have done : y.port.master.contV = false := by
    cases cont : y.port.master.contV with
    | false => rfl
    | true => exact absurd landed (steady.flies cont)
  have noFill : y.port.arReq = false := by
    simp [Port.arReq, none, Port.fNew, Port.pMiss, Port.tMiss, noP, noT]
  have noWrite : y.port.mwReq = false := by simp [Port.mwReq, empty]
  refine ⟨?_, ?_, ?_⟩
  · unfold Served.ar Master.ar
    rw [idle]
    simp [Port.request, noFill]
  · unfold Served.aw Master.aw
    rw [done]
    simp [Port.request, noWrite]
  · unfold Served.w Master.w
    rw [done]
    simp [Port.request, noWrite]

theorem steady_begun {p : Port c} (blank : Traced.Blank p) (idle : p.master.rstate = .idle)
    (noP : p.lpV = false) (noT : p.ltV = false) : Steady ⟨.begun p, 0⟩ where
  sound := ⟨Traced.listed_begun blank, Traced.channelled_begun blank, Traced.heard_begun blank⟩
  backed := fun _ => Nat.le_refl 0
  looking := by
    intro lookup
    change (p.lpV || p.ltV) = true at lookup
    simp [noP, noT] at lookup
  reading := fun going => absurd idle going
  owes := by
    unfold Owes
    change (match p.master.rstate with
      | .idle => _
      | .second => _
      | .data => _)
    rw [idle]

theorem steady_next (aligned : c.master.mainBase.extractLsb' 0 3 = 0#3) (steady : Steady y)
    (allowed : Allowed i y) : Steady (y.next i) := by
  cases off : i.rst with
  | true =>
    have again : y.next i = ⟨.begun (y.port.next i), 0⟩ := by
      simp [next, Traced.next, off, Served.port]
    rw [again]
    refine steady_begun (Traced.blank_reset off) ?_ ?_ ?_ <;>
    · unfold Port.next
      rw [off]
      rfl
  | false =>
    have port : (y.next i).port = y.port.next i := by simp [next, Served.port, Traced.next, off]
    obtain ⟨reading, owes⟩ := steady.reads_next off allowed aligned
    have sound := steady.sound
    refine ⟨⟨Traced.listed_next sound.listed,
      Traced.channelled_next sound.listed sound.channelled,
      Traced.heard_next sound.heard sound.listed sound.channelled allowed.answers⟩,
      steady.backed_next off allowed, ?_, reading, owes⟩
    obtain ⟨lp, lt, -, -⟩ := Port.asking_next (s := y.port) off
    intro lookup
    rw [port, lp, lt, Bool.or_eq_true] at lookup
    rw [port]
    exact looking_next off allowed lookup

theorem pushes_elsewhere (off : i.rst = false) (allowed : Allowed i y)
    (unposted : Unposted i y) (idle : y.port.master.rstate = .idle) (req : y.port.arReq = true)
    (waits : i.axi.arready = false) :
    ∀ w ∈ y.port.pushes i, lineOf w.bus ≠ lineOf y.port.fBusNow := by
  have fill := Port.fExists_of_arReq req
  intro w member
  unfold Port.pushes at member
  simp only [List.mem_append, List.mem_ite_nil_right, List.mem_singleton] at member
  rcases member with (⟨push, rfl⟩ | ⟨push, rfl⟩) | ⟨push, rfl⟩
  · exact unposted off idle req waits push
  · exact Port.wPush_elsewhere (allowed.write off) fill push
  · rw [Port.lineOf_dAddr]
    exact Port.dPush_elsewhere fill push

section

variable (steady : Steady y) (off : i.rst = false)

include steady off

theorem Steady.waits_on (allowed : Allowed i y)
    (idle : y.port.master.rstate = .idle) (req : y.port.arReq = true)
    (waits : i.axi.arready = false) :
    (y.port.next i).master.rstate = .idle ∧ (y.port.next i).fs = .wait ∧
      (y.port.next i).fBusNow = y.port.fBusNow := by
  have made : (y.port.fs == .wait || y.port.fNew) = true := by
    unfold Port.arReq at req
    simp only [Bool.and_eq_true] at req
    exact req.1
  have filled := Port.fExists_of_arReq req
  obtain ⟨lp, lt, fs, bus, -⟩ := Port.asking_next (s := y.port) off
  have noP : (y.port.next i).lpV = false := by
    rw [lp]
    cases p : i.pReq with
    | false => rfl
    | true =>
      obtain ⟨none, free⟩ := allowed.read off p
      unfold Port.pBusy Port.filling at free
      simp only [Bool.or_eq_false_iff] at free
      simp [none, free] at made
  have noT : (y.port.next i).ltV = false := by
    rw [lt]
    simp [Port.tIssue, filled]
  have noNew : (y.port.next i).fNew = false := by
    simp [Port.fNew, Port.pMiss, Port.tMiss, noP, noT]
  refine ⟨?_, ?_, ?_⟩
  · have master : (y.port.next i).master =
        y.port.master.next false c.master y.port.request i.axi := by
      rw [← off]
      rfl
    have next := Master.reads_next (c := c.master) (r := y.port.request) (i := i.axi)
      (m := y.port.master)
    have untaken : y.port.master.arTaken y.port.request i.axi = false := by
      simp [Master.arTaken, waits]
    unfold Master.readNext at next
    simp only [idle, untaken, Master.reads] at next
    simp at next
    rw [master]
    exact next.1.trans idle
  · have untaken : y.port.fIssue i = false := by simp [Port.fIssue, Master.arTaken, waits]
    have alone := steady.fNew
    unfold Port.filling at alone
    rw [fs]
    unfold Port.fsNext
    rw [untaken]
    cases now : y.port.fs <;> simp_all
  · have stands : (y.port.next i).fBus = y.port.fBusNow := by
      rw [bus]
      cases now : y.port.fNew with
      | true => rfl
      | false =>
        have wait : y.port.fs = .wait := by simpa [now] using made
        have noGo : y.port.dFillGo i = false := by simp [Port.dFillGo, wait]
        simp [noGo, Port.fBusNow, now]
    rw [← stands]
    unfold Port.fBusNow
    rw [noNew]
    rfl

theorem Steady.ar_stable (allowed : Allowed i y)
    (unposted : Unposted i y) {beat : ArBeat} (valid : y.ar = some beat)
    (waits : i.axi.arready = false) : (y.next i).ar = some beat := by
  have port : (y.next i).port = y.port.next i := by simp [next, Served.port, Traced.next, off]
  unfold Served.ar at valid ⊢
  rw [port]
  unfold Master.ar at valid ⊢
  cases state : y.port.master.rstate with
  | data => simp [state] at valid
  | second =>
    rw [state] at valid
    have master : (y.port.next i).master =
        y.port.master.next false c.master y.port.request i.axi := by
      rw [← off]
      rfl
    have next := Master.reads_second (c := c.master) (r := y.port.request) (i := i.axi) state
    simp only [Master.reads, Prod.mk.injEq] at next
    obtain ⟨rstate, secondAddr, secondLen, -⟩ := next
    have going : (i.axi.rvalid && y.port.master.beat == y.port.master.lastBeat) = false := by
      cases beats : i.axi.rvalid with
      | false => rfl
      | true =>
        rw [Bool.true_and]
        exact steady.early state (allowed.beats off beats)
    rw [master, rstate, going, waits, secondAddr, secondLen]
    exact valid
  | idle =>
    rw [state] at valid
    have req : y.port.arReq = true := by
      cases up : y.port.arReq with
      | true => rfl
      | false => simp [Port.request, up] at valid
    obtain ⟨idle, waiting, same⟩ := steady.waits_on off allowed state req waits
    have still : (y.port.next i).written = false := by
      have unwritten : y.port.written = false := by
        unfold Port.arReq at req
        simp only [Bool.and_eq_true, Bool.not_eq_true'] at req
        exact req.2
      rw [Port.written_eq_false] at unwritten ⊢
      rw [same]
      exact Port.unwritten_next off steady.sound.listed.few steady.sound.listed.room unwritten
        (pushes_elsewhere off allowed unposted state req waits)
    have reqNext : (y.port.next i).arReq = true := by simp [Port.arReq, waiting, still]
    rw [idle]
    simp only [Port.request, req, reqNext, same] at valid ⊢
    exact valid

/-- A read's address is withdrawn by a post to its line. -/
theorem Steady.withdrawn (allowed : Allowed i y)
    (idle : y.port.master.rstate = .idle) (req : y.port.arReq = true)
    (waits : i.axi.arready = false) (push : y.port.postPush i = true)
    (line : lineOf i.postBus = lineOf y.port.fBusNow) : (y.next i).ar = none := by
  have port : (y.next i).port = y.port.next i := by simp [next, Served.port, Traced.next, off]
  obtain ⟨idle', waiting, same⟩ := steady.waits_on off allowed idle req waits
  have last := Port.pushes_subset off steady.sound.listed.few
  have written : (y.port.next i).written = true := by
    by_contra clear
    rw [Bool.not_eq_true, Port.written_eq_false, same] at clear
    have posted : (⟨i.postBus, i.postWord, false⟩ : Write) ∈ y.port.pushes i := by
      simp [Port.pushes, push]
    exact clear.1 _ (last posted) line
  unfold Served.ar Master.ar
  rw [port, idle']
  simp [Port.request, Port.arReq, written]

/-- A write offered and not taken is offered again. -/
theorem Steady.offer_stands (cont : y.port.master.contV = false) (req : y.port.request.wReq = true)
    (refused : y.port.master.wTaken c.master y.port.request i.axi = false) :
    (y.port.next i).request.wReq = true ∧ (y.port.next i).request.wBus = y.port.request.wBus ∧
      (y.port.next i).request.wWord = y.port.request.wWord ∧
      (y.port.next i).request.wId = y.port.request.wId := by
  have next := Master.sends_offered (c := c.master) (i := i.axi) cont req refused
  simp only [Master.sends, Prod.mk.injEq] at next
  have master := (reads_of (y := y) off).2.1
  obtain ⟨up, head, tail⟩ := steady.sound.listed.stands off req refused
    ((congrArg Master.contV master).trans next.2.2.1)
  exact ⟨up, congrArg Write.bus head, congrArg Write.word head, tail⟩

/-- A write's address stays until taken. -/
theorem Steady.aw_stable {beat : AwBeat}
    (valid : y.aw = some beat) (waits : i.axi.awready = false) : (y.next i).aw = some beat := by
  obtain ⟨port, master, -⟩ := reads_of (y := y) off
  have untaken : y.port.master.awTaken c.master y.port.request i.axi = false := by
    simp [Master.awTaken, waits]
  unfold Served.aw at valid ⊢
  rw [port, master]
  unfold Master.aw at valid ⊢
  cases cont : y.port.master.contV with
  | true =>
    have next := Master.sends_continued (c := c.master) (r := y.port.request) (i := i.axi) cont
    simp only [Master.sends, Prod.mk.injEq] at next
    obtain ⟨-, -, contV, contAw, awDone, -, addr, -, -, ident⟩ := next
    simp only [cont, if_true] at valid
    obtain ⟨going, valid⟩ := Option.ite_none_right_eq_some.mp valid
    simp only [Bool.and_eq_true, Bool.not_eq_true'] at going
    simp only [contV, contAw, awDone, addr, ident, going, untaken] at valid ⊢
    simpa using valid
  | false =>
    simp only [cont, Bool.false_eq_true, if_false] at valid
    obtain ⟨asks, valid⟩ := Option.ite_none_right_eq_some.mp valid
    simp only [Bool.and_eq_true, Bool.not_eq_true'] at asks
    have refused : y.port.master.wTaken c.master y.port.request i.axi = false := by
      simp [Master.wTaken, asks, untaken]
    have next := Master.sends_offered (c := c.master) (i := i.axi) cont asks.1 refused
    simp only [Master.sends, Prod.mk.injEq] at next
    obtain ⟨hdAw, -, contV, -⟩ := next
    obtain ⟨up, bus, -, ident⟩ := steady.offer_stands off cont asks.1 refused
    simp only [contV, hdAw, asks.2, untaken, up, bus, ident]
    simpa using valid

/-- So does its data. -/
theorem Steady.w_stable {beat : WBeat}
    (valid : y.w = some beat) (waits : i.axi.wready = false) : (y.next i).w = some beat := by
  obtain ⟨port, master, -⟩ := reads_of (y := y) off
  have untaken : y.port.master.wBeatTaken c.master y.port.request i.axi = false := by
    simp [Master.wBeatTaken, waits]
  unfold Served.w at valid ⊢
  rw [port, master]
  unfold Master.w at valid ⊢
  cases cont : y.port.master.contV with
  | true =>
    have next := Master.sends_continued (c := c.master) (r := y.port.request) (i := i.axi) cont
    simp only [Master.sends, Prod.mk.injEq] at next
    obtain ⟨-, -, contV, -, -, wDone, -, data, strb, -⟩ := next
    simp only [cont, if_true] at valid
    have going : y.port.master.contWDone = false := by
      cases done : y.port.master.contWDone with
      | false => rfl
      | true => simp [done] at valid
    simp only [contV, wDone, data, strb, going, untaken] at valid ⊢
    simpa using valid
  | false =>
    simp only [cont, Bool.false_eq_true, if_false] at valid
    obtain ⟨asks, valid⟩ := Option.ite_none_right_eq_some.mp valid
    simp only [Bool.and_eq_true, Bool.not_eq_true'] at asks
    have refused : y.port.master.wTaken c.master y.port.request i.axi = false := by
      simp [Master.wTaken, asks, untaken]
    have next := Master.sends_offered (c := c.master) (i := i.axi) cont asks.1 refused
    simp only [Master.sends, Prod.mk.injEq] at next
    obtain ⟨-, hdW, contV, -⟩ := next
    obtain ⟨up, bus, word, -⟩ := steady.offer_stands off cont asks.1 refused
    simp only [contV, hdW, asks.2, untaken, up, bus, word]
    simpa using valid

end

/-- Every run is steady. -/
theorem steady_run (aligned : c.master.mainBase.extractLsb' 0 3 = 0#3) (p : Port c)
    {inputs : Nat → PortInput} (allowed : Meets Allowed next (start p) inputs) (clock : Nat) :
    Steady (trace next (start p) inputs clock) := by
  have initial : Steady (start p) := steady_begun (Traced.blank_start p) rfl rfl rfl
  exact trace_invariant initial (fun i y legal held => steady_next aligned held legal) allowed
    clock

/-- In every run each channel with VALID up and READY low has the same beat up the next clock, if
and only if no word is posted to the line of a fill whose address waits to be taken. -/
theorem channels_stable_iff (aligned : c.master.mainBase.extractLsb' 0 3 = 0#3) (p : Port c)
    (inputs : Nat → PortInput) (allowed : Meets Allowed next (start p) inputs) :
    Meets Stable next (start p) inputs ↔ Meets Unposted next (start p) inputs := by
  constructor
  · intro stable clock off idle req waits push line
    have steady := steady_run aligned p allowed clock
    have gone := steady.withdrawn off (allowed clock) idle req waits push line
    have valid : (trace next (start p) inputs clock).ar =
        some (c.master.lineAr (lineOf (trace next (start p) inputs clock).port.fBusNow)) := by
      unfold Served.ar Master.ar
      rw [idle]
      simp [Port.request, req]
    have stands := (stable clock).ar _ valid waits
    rw [gone] at stands
    exact absurd stands (by simp)
  · intro unposted clock
    have steady := steady_run aligned p allowed clock
    cases off : (inputs clock).rst with
    | true =>
      -- A reset finds the port quiet, and a quiet port has no VALID up.
      obtain ⟨noAr, noAw, noW⟩ := steady.silent ((allowed clock).reset off)
      refine ⟨?_, ?_, ?_⟩
      · intro beat valid
        rw [noAr] at valid
        exact absurd valid (by simp)
      · intro beat valid
        rw [noAw] at valid
        exact absurd valid (by simp)
      · intro beat valid
        rw [noW] at valid
        exact absurd valid (by simp)
    | false =>
      exact ⟨fun _ => steady.ar_stable off (allowed clock) (unposted clock),
        fun _ => steady.aw_stable off, fun _ => steady.w_stable off⟩

section Played

/-- A table read fills line 1, the block disk's transfer then reads the line, and its fill's address
waits from clock 9 on; a word of the line may be posted in that clock. -/
def played (post : Bool) (clock : Nat) : PortInput where
  rst := false
  hard := false
  pReq := false
  pBus := 0
  wReq := false
  wBus := 0
  wWord := 0
  postReq := post && clock == 9
  postBus := 8
  postWord := 0x1234567890
  tStart := clock == 0
  tAddr := 8
  dReq := 8 ≤ clock
  dWrite := false
  dAddr := 8
  dWdata := 0
  dStart := false
  cReq := false
  cLine := 0
  sweepGo := false
  hold := false
  axi := ⟨true, true, 0, 0, false, clock == 1, 0, 2 ≤ clock && clock ≤ 6⟩

/-- The run as it goes. -/
def run (post : Bool) (clock : Nat) : Served Traced.small :=
  trace next (start (.cold Traced.small)) (played post) clock

theorem played_post {post : Bool} {clock : Nat} {s : Port Traced.small}
    (push : s.postPush (played post clock) = true) : post = true ∧ clock = 9 := by
  unfold Port.postPush at push
  rw [Bool.and_eq_true] at push
  have req := push.1
  simp only [played, Bool.and_eq_true, beq_iff_eq] at req
  exact req

theorem played_allowed (post : Bool) :
    Meets Allowed next (start (.cold Traced.small)) (played post) := by
  intro clock
  refine ⟨?_, ?_, ?_, ?_, ?_, ?_, ?_⟩
  · intro _ valid
    exact absurd valid Bool.false_ne_true
  · intro _ valid
    have now : clock = 2 ∨ clock = 3 ∨ clock = 4 ∨ clock = 5 ∨ clock = 6 := by
      simp only [played, Bool.and_eq_true, decide_eq_true_eq] at valid
      omega
    obtain rfl | rfl | rfl | rfl | rfl := now <;> cases post <;> decide
  · intro on
    exact absurd on Bool.false_ne_true
  · intro _ read
    exact absurd read Bool.false_ne_true
  · intro _ write
    exact absurd write Bool.false_ne_true
  · intro _ push
    have now : post = true ∧ clock = 9 := by
      rcases push with push | push
      · exact played_post push
      · unfold Port.wPush at push
        rw [Bool.and_eq_true] at push
        exact absurd push.1 Bool.false_ne_true
    obtain ⟨rfl, rfl⟩ := now
    decide
  · intro _ push
    obtain ⟨rfl, rfl⟩ := played_post push
    decide

/-- Without the post the address stands from clock 9 to clock 10. -/
theorem channels_stable_played :
    (run false 9).ar = some ⟨0x10000028#32, 4#8⟩ ∧ (run false 10).ar = (run false 9).ar := by
  have up : (run false 9).ar = some ⟨0x10000028#32, 4#8⟩ := by decide
  have unposted : Meets Unposted next (start (.cold Traced.small)) (played false) := by
    intro clock _ _ _ _ push
    exact absurd (played_post push).1 Bool.false_ne_true
  have stable := (channels_stable_iff (by decide) (.cold Traced.small) (played false)
    (played_allowed false)).mpr unposted 9
  refine ⟨up, ?_⟩
  rw [up]
  exact stable.ar _ up rfl

/-- With it the address, up at clock 9 and not taken, is withdrawn at clock 10. -/
theorem channels_not_stable : ¬ ∀ (p : Port Traced.small) (inputs : Nat → PortInput),
    Meets Allowed next (start p) inputs → Meets Stable next (start p) inputs := by
  intro claim
  have up : (run true 9).ar = some ⟨0x10000028#32, 4#8⟩ := by decide
  have gone : (run true 10).ar = none := by decide +kernel
  have stands := (claim (.cold Traced.small) (played true) (played_allowed true) 9).ar _ up rfl
  change (run true 10).ar = _ at stands
  rw [gone] at stands
  exact absurd stands (by simp)

end Played

end Served

end MuirFpga.Quux
