import MuirFpga.Quux.Port
import MuirFpga.Sync.Ring
import Mathlib.Tactic.SplitIfs

/-!
# The posted writes

The queue, the in-flight list and the master's write channel as sequences: what was pushed, what
the channel accepted, what landed, and the addresses, beats and answers of the AXI port.
-/

namespace MuirFpga.Quux

open Sync

/-- A write as it is pushed. -/
structure Write where
  bus : BitVec 29
  word : BitVec 40
  dma : Bool

namespace MasterConfig

/-- A word's second beat. -/
def secondW (c : MasterConfig) (bus : BitVec 29) (word : BitVec 40) : WBeat where
  data := 0#24 ++ (c.shifted bus word).extractLsb' 64 40
  strb := (c.strobes bus).extractLsb' 8 8
  last := true

/-- A split word's second burst. -/
def secondAw (c : MasterConfig) (bus : BitVec 29) (slot : BitVec 4) : AwBeat where
  id := c.writeId slot
  addr := c.beatAddr bus + 8#32
  len := 0

/-- A write's bursts, accepted in a slot. -/
def bursts (c : MasterConfig) (a : Write × BitVec 4) : List AwBeat :=
  c.firstAw a.1.bus a.2 :: if c.split a.1.bus then [c.secondAw a.1.bus a.2] else []

/-- A write's beats. -/
def wordBeats (c : MasterConfig) (a : Write × BitVec 4) : List WBeat :=
  c.firstW a.1.bus a.1.word :: if c.two a.1.bus then [c.secondW a.1.bus a.1.word] else []

end MasterConfig

namespace Master

variable {c : MasterConfig} {r : MasterReq} {i : AxiInput} {m : Master}

/-- The registers of what the write channel has taken. -/
def sends (m : Master) :=
  (m.hdAwDone, m.hdWDone, m.contV, m.contAw, m.contAwDone, m.contWDone, m.contAddr, m.contData,
    m.contStrb, m.contId)

theorem sends_readNext : (m.readNext c r i).sends = m.sends := by
  unfold readNext
  cases m.rstate <;> dsimp only <;> split_ifs <;> rfl

theorem sends_answer (x : Master) : (m.answer c i x).sends = x.sends := by
  unfold answer
  dsimp only
  split_ifs <;> rfl

theorem sends_taken (taken : m.wTaken c r i = true) :
    (m.next false c r i).sends = (false, false, c.two r.wBus, c.split r.wBus, false, false,
      c.beatAddr r.wBus + 8#32, 0#24 ++ (c.shifted r.wBus r.wWord).extractLsb' 64 40,
      (c.strobes r.wBus).extractLsb' 8 8, r.wId) := by
  unfold next writeNext
  rw [if_neg Bool.false_ne_true, sends_answer]
  unfold continuation offer
  rw [if_pos taken, if_pos taken]
  rfl

theorem sends_continued (cont : m.contV = true) :
    (m.next false c r i).sends = (m.hdAwDone, m.hdWDone,
      !((!m.contAw || m.contAwDone || m.awTaken c r i) &&
        (m.contWDone || m.wBeatTaken c r i)), m.contAw, m.contAwDone || m.awTaken c r i,
      m.contWDone || m.wBeatTaken c r i, m.contAddr, m.contData, m.contStrb, m.contId) := by
  have untaken : ¬ m.wTaken c r i = true := by simp [wTaken, cont]
  have read := sends_readNext (c := c) (r := r) (i := i) (m := m)
  unfold next writeNext
  rw [if_neg Bool.false_ne_true, sends_answer]
  unfold continuation offer
  rw [if_neg untaken, if_neg untaken, if_pos cont, if_neg (by simp [cont])]
  simp only [sends, Prod.mk.injEq] at read ⊢
  simp only [read, and_self]

theorem sends_offered (cont : m.contV = false) (req : r.wReq = true)
    (untaken : m.wTaken c r i = false) :
    (m.next false c r i).sends = (m.hdAwDone || m.awTaken c r i, m.hdWDone || m.wBeatTaken c r i,
      false, m.contAw, m.contAwDone, m.contWDone, m.contAddr, m.contData, m.contStrb,
      m.contId) := by
  have no : ¬ m.wTaken c r i = true := by simp [untaken]
  have read := sends_readNext (c := c) (r := r) (i := i) (m := m)
  unfold next writeNext
  rw [if_neg Bool.false_ne_true, sends_answer]
  unfold continuation offer
  rw [if_neg no, if_neg no, if_neg (by simp [cont]), if_pos (by simp [cont, req])]
  simp only [sends, Prod.mk.injEq] at read ⊢
  simp only [read, and_self, cont]

theorem sends_idle (cont : m.contV = false) (req : r.wReq = false) :
    (m.next false c r i).sends = m.sends := by
  have untaken : ¬ m.wTaken c r i = true := by simp [wTaken, req]
  unfold next writeNext
  rw [if_neg Bool.false_ne_true, sends_answer]
  unfold continuation offer
  rw [if_neg untaken, if_neg untaken, if_neg (by simp [cont]), if_neg (by simp [req])]
  exact sends_readNext

theorem next_splitQ : (m.next false c r i).splitQ =
    if m.wTaken c r i then Function.update m.splitQ r.wId (c.split r.wBus) else m.splitQ := by
  have read : (m.readNext c r i).splitQ = m.splitQ := by
    unfold readNext
    cases m.rstate <;> dsimp only <;> split_ifs <;> rfl
  have answer (x : Master) : (m.answer c i x).splitQ = x.splitQ := by
    unfold Master.answer
    dsimp only
    split_ifs <;> rfl
  unfold next writeNext
  rw [if_neg Bool.false_ne_true, answer]
  unfold continuation offer
  split_ifs <;> first | rfl | exact read

theorem next_firstBQ : (m.next false c r i).firstBQ =
    if i.bvalid && m.firstB c i then
      Function.update (if m.wTaken c r i then Function.update m.firstBQ r.wId false
        else m.firstBQ) (m.bSlot c i) true
    else if m.wTaken c r i then Function.update m.firstBQ r.wId false else m.firstBQ := by
  have read : (m.readNext c r i).firstBQ = m.firstBQ := by
    unfold readNext
    cases m.rstate <;> dsimp only <;> split_ifs <;> rfl
  have cont : (m.continuation c r i (m.offer c r i (m.readNext c r i))).firstBQ =
      if m.wTaken c r i then Function.update m.firstBQ r.wId false else m.firstBQ := by
    unfold continuation offer
    split_ifs <;> first | rfl | exact read
  rw [← cont]
  unfold next writeNext answer
  rw [if_neg Bool.false_ne_true]
  dsimp only
  split_ifs <;> rfl

theorem next_ansPtr :
    (m.next false c r i).ansPtr = if m.bDone c i then m.ansPtr + 1 else m.ansPtr := by
  have read : (m.readNext c r i).ansPtr = m.ansPtr := by
    unfold readNext
    cases m.rstate <;> dsimp only <;> split_ifs <;> rfl
  have cont : (m.continuation c r i (m.offer c r i (m.readNext c r i))).ansPtr = m.ansPtr := by
    rw [← read]
    unfold continuation offer
    split_ifs <;> rfl
  unfold next writeNext answer
  rw [if_neg Bool.false_ne_true]
  dsimp only
  split_ifs <;> first | rfl | exact cont

section Channel

variable (c : MasterConfig) (r : MasterReq) (i : AxiInput) (m : Master)

/-- The address a write on the channel has had taken. -/
def heldAw : List AwBeat := if m.hdAwDone then [c.firstAw r.wBus r.wId] else []

/-- The beat a write on the channel has had taken. -/
def heldW : List WBeat := if m.hdWDone then [c.firstW r.wBus r.wWord] else []

/-- The address an accepted write has yet to send. -/
def restAw : List AwBeat :=
  if m.contV && m.contAw && !m.contAwDone then [⟨c.writeId m.contId, m.contAddr, 0⟩] else []

/-- The beat an accepted write has yet to send. -/
def restW : List WBeat :=
  if m.contV && !m.contWDone then [⟨m.contData, m.contStrb, true⟩] else []

/-- The address the channel takes this clock. -/
def sentAw : List AwBeat := if i.awready then (m.aw c r).toList else []

/-- The beat the channel takes this clock. -/
def sentW : List WBeat := if i.wready then (m.w c r).toList else []

/-- The write channel's registers stand together: a continuation is of a write accepted, has
something to send, and has no other write beside it, and a write on the channel is not yet taken
whole. -/
structure Tidy : Prop where
  apart : m.contV = true → m.hdAwDone = false ∧ m.hdWDone = false
  going : m.contV = true → (m.contAw && !m.contAwDone || !m.contWDone) = true
  asked : (m.hdAwDone || m.hdWDone) = true → r.wReq = true
  short : (m.hdAwDone && m.hdWDone) = false

end Channel

variable {n : MasterReq}

theorem sent_continued (tidy : Tidy r m) (cont : m.contV = true) :
    m.restAw c = m.sentAw c r i ++ (m.next false c r i).restAw c ∧
      m.restW = m.sentW c r i ++ (m.next false c r i).restW ∧
      (m.next false c r i).hdAwDone = false ∧ (m.next false c r i).hdWDone = false ∧
      ((m.next false c r i).contV = true →
        ((m.next false c r i).contAw && !(m.next false c r i).contAwDone ||
          !(m.next false c r i).contWDone) = true) := by
  have clock := sends_continued (c := c) (r := r) (i := i) cont
  simp only [sends, Prod.mk.injEq] at clock
  obtain ⟨hdAw, hdW, contV, contAw, awDone, wDone, addr, data, strb, ident⟩ := clock
  obtain ⟨noAw, noW⟩ := tidy.apart cont
  have going := tidy.going cont
  simp only [restAw, restW, sentAw, sentW, hdAw, hdW, contV, contAw, awDone, wDone, addr, data,
    strb, ident, aw, w, awTaken, wBeatTaken, cont, noAw, noW, if_true]
  cases m.contAw <;> cases m.contAwDone <;> cases m.contWDone <;> cases i.awready <;>
    cases i.wready <;> simp_all

/-- An accept's clock: what was taken of the write before and now is its address and its first
beat, and what it has yet to send is the rest of it. -/
theorem sent_taken (tidy : Tidy r m) (word : Write) (bus : r.wBus = word.bus)
    (data : r.wWord = word.word) (taken : m.wTaken c r i = true) :
    m.restAw c = [] ∧ m.restW = [] ∧
      m.heldAw c r ++ m.sentAw c r i ++ (m.next false c r i).restAw c = c.bursts (word, r.wId) ∧
      m.heldW c r ++ m.sentW c r i ++ (m.next false c r i).restW = c.wordBeats (word, r.wId) ∧
      (m.next false c r i).hdAwDone = false ∧ (m.next false c r i).hdWDone = false ∧
      (m.next false c r i).contAwDone = false ∧ (m.next false c r i).contWDone = false := by
  have clock := sends_taken (c := c) (r := r) (i := i) taken
  simp only [sends, Prod.mk.injEq] at clock
  obtain ⟨hdAw, hdW, contV, contAw, awDone, wDone, addr, rest, strb, ident⟩ := clock
  have short := tidy.short
  simp only [wTaken, Bool.and_eq_true, Bool.not_eq_true', awTaken, wBeatTaken, aw, w] at taken
  obtain ⟨⟨⟨cont, req⟩, first⟩, second⟩ := taken
  simp only [cont, req] at first second
  have splits : c.split word.bus = true → c.two word.bus = true := by
    intro split
    unfold MasterConfig.split at split
    simp only [Bool.and_eq_true] at split
    exact split.1
  simp only [restAw, restW, sentAw, sentW, heldAw, heldW, hdAw, hdW, contV, contAw, awDone, wDone,
    addr, rest, strb, ident, aw, w, cont, req, MasterConfig.bursts, MasterConfig.wordBeats,
    MasterConfig.secondAw, MasterConfig.secondW, ← bus, ← data] at splits ⊢
  cases firstDone : m.hdAwDone <;> cases secondDone : m.hdWDone <;>
    cases split : c.split r.wBus <;> cases two : c.two r.wBus <;> simp_all

theorem contV_untaken (cont : m.contV = false) (untaken : m.wTaken c r i = false) :
    (m.next false c r i).contV = false := by
  cases req : r.wReq with
  | false =>
    have clock := sends_idle (c := c) (r := r) (i := i) cont req
    simp only [sends, Prod.mk.injEq] at clock
    rw [clock.2.2.1, cont]
  | true =>
    have clock := sends_offered (c := c) (r := r) (i := i) cont req untaken
    simp only [sends, Prod.mk.injEq] at clock
    exact clock.2.2.1

theorem sent_offered (cont : m.contV = false) (asked : (m.hdAwDone || m.hdWDone) = true →
    r.wReq = true) (untaken : m.wTaken c r i = false)
    (stands : r.wReq = true → n.wBus = r.wBus ∧ n.wWord = r.wWord ∧ n.wId = r.wId) :
    m.restAw c = [] ∧ m.restW = [] ∧
      (m.next false c r i).restAw c = [] ∧ (m.next false c r i).restW = [] ∧
      m.heldAw c r ++ m.sentAw c r i = (m.next false c r i).heldAw c n ∧
      m.heldW c r ++ m.sentW c r i = (m.next false c r i).heldW c n ∧
      (((m.next false c r i).hdAwDone || (m.next false c r i).hdWDone) = true → r.wReq = true) ∧
      ((m.next false c r i).hdAwDone && (m.next false c r i).hdWDone) = false := by
  cases req : r.wReq with
  | false =>
    have clock := sends_idle (c := c) (r := r) (i := i) cont req
    simp only [sends, Prod.mk.injEq] at clock
    obtain ⟨hdAw, hdW, contV, -⟩ := clock
    have none : (m.hdAwDone || m.hdWDone) = false := by
      cases some : (m.hdAwDone || m.hdWDone) with
      | false => rfl
      | true => simp [asked some] at req
    simp only [Bool.or_eq_false_iff] at none
    simp [restAw, restW, sentAw, sentW, heldAw, heldW, hdAw, hdW, contV, aw, w, cont, req, none]
  | true =>
    obtain ⟨bus, word, ident⟩ := stands req
    have clock := sends_offered (c := c) (r := r) (i := i) cont req untaken
    simp only [sends, Prod.mk.injEq] at clock
    obtain ⟨hdAw, hdW, contV, -⟩ := clock
    simp only [wTaken, awTaken, wBeatTaken, aw, w, cont, req] at untaken
    simp only [restAw, restW, sentAw, sentW, heldAw, heldW, hdAw, hdW, contV, aw, w, cont, req,
      awTaken, wBeatTaken, bus, word, ident]
    revert untaken
    cases m.hdAwDone <;> cases m.hdWDone <;> cases i.awready <;> cases i.wready <;> simp

end Master

namespace Port

variable {c : PortConfig} {i : PortInput} {s : Port c}

/-- The write at a place of the queue's array. -/
def entry (x : Port c) (slot : BitVec 3) : Write := ⟨x.qBus slot, x.qWord slot, x.qDma slot⟩

/-- The writes queued, oldest first. -/
def queued (x : Port c) : List Write := x.queue.map x.entry

/-- What a clock pushes, in order. -/
def pushes (i : PortInput) (s : Port c) : List Write :=
  (if s.postPush i then [⟨i.postBus, i.postWord, false⟩] else []) ++
    (if s.wPush i then [⟨i.wBus, i.wWord, false⟩] else []) ++
    if s.dPush i then [⟨0#1 ++ i.dAddr, i.dWdata, true⟩] else []

theorem toNat_wire {width : Nat} (on : Bool) (wide : 0 < width) :
    ((BitVec.ofBool on).setWidth width).toNat = on.toNat := by
  have room : 1 < 2 ^ width := Nat.one_lt_two_pow (by omega)
  rw [BitVec.toNat_setWidth, BitVec.toNat_ofBool]
  apply Nat.mod_eq_of_lt
  have := Bool.toNat_le on
  omega

theorem toNat_add_wire {width : Nat} {x : BitVec width} {on : Bool}
    (room : x.toNat + 1 < 2 ^ width) :
    (x + (BitVec.ofBool on).setWidth width).toNat = x.toNat + on.toNat := by
  have wide : 0 < width := by
    by_contra none
    have zero : width = 0 := by omega
    subst zero
    simp at room
  have one := Bool.toNat_le on
  rw [BitVec.toNat_add, toNat_wire on wide]
  exact Nat.mod_eq_of_lt (by omega)

theorem entry_put (on : Bool) (slot : BitVec 3) (bus : BitVec 29) (word : BitVec 40) (dma : Bool)
    (x : Port c) : (put on slot bus word dma x).entry =
      if on then Function.update x.entry slot ⟨bus, word, dma⟩ else x.entry := by
  unfold put
  cases on with
  | false => rfl
  | true =>
    funext other
    by_cases same : other = slot
    · simp [entry, same]
    · simp [entry, same, Function.update_of_ne]

theorem map_put {head slot : BitVec 3} {count : Nat} (on : Bool) (bus : BitVec 29)
    (word : BitVec 40) (dma : Bool) (x : Port c) (room : on = true → count < 8)
    (place : slot = head + BitVec.ofNat 3 count) :
    (places head (count + on.toNat)).map (put on slot bus word dma x).entry =
      (places head count).map x.entry ++ if on then [⟨bus, word, dma⟩] else [] := by
  rw [entry_put, place]
  cases on with
  | false => simp
  | true => exact map_places_push (room rfl)

theorem queued_of_taken (taken : s.mwTaken i = true) : s.mwReq = true := by
  unfold mwTaken Master.wTaken at taken
  simp only [Bool.and_eq_true] at taken
  exact taken.1.1.2

theorem counts (few : s.qCount.toNat ≤ 8) :
    ((s.mwTaken i).toNat ≤ s.qCount.toNat) ∧
      (s.qAfterAccept i).toNat = s.qCount.toNat - (s.mwTaken i).toNat ∧
      (s.postPush i = true → s.qCount.toNat - (s.mwTaken i).toNat < 8) ∧
      (s.wPush i = true →
        s.qCount.toNat - (s.mwTaken i).toNat + (s.postPush i).toNat < 8) ∧
      (s.dPush i = true → s.qCount.toNat - (s.mwTaken i).toNat + (s.postPush i).toNat +
        (s.wPush i).toNat < 8) := by
  have taken : (s.mwTaken i).toNat ≤ s.qCount.toNat := by
    cases h : s.mwTaken i with
    | false => simp
    | true =>
      have req := queued_of_taken h
      unfold mwReq at req
      simp only [Bool.and_eq_true, bne_iff_ne] at req
      have := req.1.1
      simp only [Bool.toNat_true]
      bv_omega
  have after : (s.qAfterAccept i).toNat = s.qCount.toNat - (s.mwTaken i).toNat := by
    unfold qAfterAccept
    rw [BitVec.toNat_sub_of_le, toNat_wire _ (by decide)]
    rw [BitVec.le_def, toNat_wire _ (by decide)]
    exact taken
  have post := Bool.toNat_le (s.postPush i)
  have write := Bool.toNat_le (s.wPush i)
  refine ⟨taken, after, fun push => ?_, fun push => ?_, fun push => ?_⟩
  · unfold postPush postOk at push
    simp only [Bool.and_eq_true, decide_eq_true_iff] at push
    have room := push.2.1
    rw [BitVec.lt_def, toNat_add_wire (by omega), after] at room
    exact lt_of_le_of_lt (Nat.le_add_right _ _) room
  · unfold wPush wOk at push
    simp only [Bool.and_eq_true, decide_eq_true_iff] at push
    have room := push.2.1.2
    rw [BitVec.lt_def, toNat_add_wire, toNat_add_wire, after] at room
    · exact lt_of_le_of_lt (Nat.le_add_right _ _) room
    · omega
    · rw [toNat_add_wire] <;> omega
  · unfold dPush at push
    simp only [Bool.and_eq_true, decide_eq_true_iff] at push
    have room := push.2
    rw [BitVec.lt_def, toNat_add_wire, toNat_add_wire, after] at room
    · exact room
    · omega
    · rw [toNat_add_wire] <;> omega

theorem toNat_qCountN (few : s.qCount.toNat ≤ 8) :
    (s.qCountN i).toNat = s.qCount.toNat - (s.mwTaken i).toNat + (s.postPush i).toNat +
      (s.wPush i).toNat + (s.dPush i).toNat ∧ (s.qCountN i).toNat ≤ 8 := by
  obtain ⟨taken, after, post, write, transfer⟩ := counts (i := i) few
  have postOne := Bool.toNat_le (s.postPush i)
  have writeOne := Bool.toNat_le (s.wPush i)
  have sum : (s.qCountN i).toNat = s.qCount.toNat - (s.mwTaken i).toNat +
      (s.postPush i).toNat + (s.wPush i).toNat + (s.dPush i).toNat := by
    unfold qCountN
    change (s.qAfterAccept i + _ + _ + _).toNat = _
    rw [toNat_add_wire, toNat_add_wire, toNat_add_wire, after]
    · omega
    · rw [toNat_add_wire] <;> omega
    · rw [toNat_add_wire, toNat_add_wire] <;> (try rw [toNat_add_wire]) <;> omega
  refine ⟨sum, ?_⟩
  rw [sum]
  cases pushed : s.dPush i with
  | true =>
    have room := transfer pushed
    rw [Bool.toNat_true]
    omega
  | false =>
    rw [Bool.toNat_false]
    cases stored : s.wPush i with
    | true =>
      have room := write stored
      rw [Bool.toNat_true]
      omega
    | false =>
      rw [Bool.toNat_false]
      cases posted : s.postPush i with
      | true =>
        have room := post posted
        rw [Bool.toNat_true]
        omega
      | false =>
        rw [Bool.toNat_false]
        omega

theorem slots_of_pushes (taken : (s.mwTaken i).toNat ≤ s.qCount.toNat) :
    s.postSlot = s.qHead + (BitVec.ofBool (s.mwTaken i)).setWidth 3 +
        BitVec.ofNat 3 (s.qCount.toNat - (s.mwTaken i).toNat) ∧
      s.wSlot i = s.qHead + (BitVec.ofBool (s.mwTaken i)).setWidth 3 +
        BitVec.ofNat 3 (s.qCount.toNat - (s.mwTaken i).toNat + (s.postPush i).toNat) ∧
      s.dSlot i = s.qHead + (BitVec.ofBool (s.mwTaken i)).setWidth 3 +
        BitVec.ofNat 3 (s.qCount.toNat - (s.mwTaken i).toNat + (s.postPush i).toNat +
          (s.wPush i).toNat) := by
  have low : s.qCount.extractLsb' 0 3 = BitVec.ofNat 3 s.qCount.toNat := by
    apply BitVec.eq_of_toNat_eq
    simp
  have wire (on : Bool) : (BitVec.ofBool on).setWidth 3 = BitVec.ofNat 3 on.toNat := by
    cases on <;> rfl
  have first : s.postSlot = s.qHead + (BitVec.ofBool (s.mwTaken i)).setWidth 3 +
        BitVec.ofNat 3 (s.qCount.toNat - (s.mwTaken i).toNat) := by
    unfold postSlot
    rw [low, wire, BitVec.add_assoc, ← BitVec.ofNat_add, Nat.add_sub_cancel' taken]
  refine ⟨first, ?_, ?_⟩
  · unfold wSlot
    rw [first, wire (s.postPush i), BitVec.add_assoc, ← BitVec.ofNat_add]
  · unfold dSlot wSlot
    rw [first, wire (s.postPush i), wire (s.wPush i), BitVec.add_assoc, ← BitVec.ofNat_add,
      BitVec.add_assoc, ← BitVec.ofNat_add, Nat.add_assoc]

/-- The queue's registers. -/
def queueing (x : Port c) := (x.entry, x.qHead, x.qCount, x.qPcount)

/-- The in-flight list's registers. -/
def flying (x : Port c) := (x.fArr, x.flDma, x.fHead, x.fCount, x.fPcount, x.fLine)

theorem lists_next (off : i.rst = false) :
    (s.next i).queueing = (s.queueNext i (s.listNext i s)).queueing ∧
      (s.next i).flying = (s.listNext i s).flying := by
  have put (on : Bool) (slot : BitVec 3) (bus : BitVec 29) (word : BitVec 40) (dma : Bool)
      (x : Port c) : (put on slot bus word dma x).flying = x.flying := by
    unfold Port.put
    split_ifs <;> rfl
  have queue (x : Port c) : (s.queueNext i x).flying = x.flying := by
    change (Port.put (s.dPush i) (s.dSlot i) (0#1 ++ i.dAddr) i.dWdata true _).flying = _
    rw [put, put, put]
  have transfer (x : Port c) : (s.transferNext i x).queueing = x.queueing ∧
      (s.transferNext i x).flying = x.flying := by
    unfold transferNext queueing flying entry
    cases s.bypLast i <;> exact ⟨rfl, rfl⟩
  have table (x : Port c) : (s.tableNext i x).queueing = x.queueing ∧
      (s.tableNext i x).flying = x.flying := by
    unfold tableNext queueing flying entry
    cases s.tHit <;> exact ⟨rfl, rfl⟩
  have fill (x : Port c) : (s.fillNext i x).queueing = x.queueing ∧
      (s.fillNext i x).flying = x.flying := by
    unfold fillNext queueing flying entry
    generalize s.fNew = new, s.dFillGo i = go, s.install i = install, s.fTable = forTable
    cases install with
    | false => cases new <;> cases go <;> exact ⟨rfl, rfl⟩
    | true => cases new <;> cases go <;> cases forTable <;> exact ⟨rfl, rfl⟩
  have lookup (x : Port c) : (s.lookupNext i x).queueing = x.queueing ∧
      (s.lookupNext i x).flying = x.flying := ⟨rfl, rfl⟩
  have registers : (s.next i).queueing = (s.registers i).queueing ∧
      (s.next i).flying = (s.registers i).flying := by
    unfold next queueing flying entry
    rw [off, if_neg Bool.false_ne_true]
    exact ⟨rfl, rfl⟩
  rw [registers.1, registers.2]
  change (s.fillNext i _).queueing = _ ∧ (s.fillNext i _).flying = _
  rw [(fill _).1, (table _).1, (lookup _).1, (transfer _).1, (fill _).2, (table _).2,
    (lookup _).2, (transfer _).2, queue]
  exact ⟨rfl, rfl⟩

theorem queued_eq (few : s.qCount.toNat ≤ 8) :
    s.queued = (places s.qHead s.qCount.toNat).map s.entry := by
  unfold queued queue places
  rw [Nat.min_eq_right few]

theorem queued_next (off : i.rst = false) (few : s.qCount.toNat ≤ 8) :
    s.queued ++ s.pushes i =
      (if s.mwTaken i then [s.entry s.qHead] else []) ++ (s.next i).queued := by
  obtain ⟨taken, -, post, write, transfer⟩ := counts (i := i) few
  obtain ⟨postPlace, writePlace, transferPlace⟩ := slots_of_pushes taken
  obtain ⟨sum, fewNext⟩ := toNat_qCountN (i := i) few
  have all := (lists_next (s := s) off).1
  simp only [queueing, Prod.mk.injEq] at all
  obtain ⟨entries, head, count, -⟩ := all
  have countNext : (s.next i).qCount.toNat = s.qCount.toNat - (s.mwTaken i).toNat +
      (s.postPush i).toNat + (s.wPush i).toNat + (s.dPush i).toNat := by
    rw [count]
    exact sum
  have headNext : (s.next i).qHead = s.qHead + (BitVec.ofBool (s.mwTaken i)).setWidth 3 := head
  have fewer : (s.next i).qCount.toNat ≤ 8 := by
    rw [count]
    exact fewNext
  rw [queued_eq few, queued_eq fewer, headNext, countNext, entries]
  unfold queueNext
  change _ = _ ++ List.map (put (s.dPush i) (s.dSlot i) (0#1 ++ i.dAddr) i.dWdata true
    (put (s.wPush i) (s.wSlot i) i.wBus i.wWord false
      (put (s.postPush i) s.postSlot i.postBus i.postWord false (s.listNext i s)))).entry _
  rw [map_put _ _ _ _ _ transfer transferPlace, map_put _ _ _ _ _ write writePlace,
    map_put _ _ _ _ _ post postPlace]
  have kept : (s.listNext i s).entry = s.entry := rfl
  rw [kept]
  unfold pushes
  simp only [← List.append_assoc]
  congr 3
  cases accept : s.mwTaken i with
  | false => simp
  | true =>
    rw [accept] at taken
    obtain ⟨more, cnt⟩ : ∃ more, s.qCount.toNat = more + 1 := ⟨s.qCount.toNat - 1, by
      simp only [Bool.toNat_true] at taken
      omega⟩
    rw [cnt, places_cons]
    simp

theorem slots_eq (room : s.fCount.toNat ≤ 16) : s.slots = places s.fHead s.fCount.toNat := by
  unfold slots places
  rw [Nat.min_eq_right room]

theorem landing_take : s.landing = s.slots.take s.landing.length :=
  List.prefix_iff_eq_take.mp (List.takeWhile_prefix s.fArr)

theorem staying_drop : s.slots.dropWhile s.fArr = s.slots.drop s.landing.length := by
  have whole : s.landing ++ s.slots.dropWhile s.fArr = s.slots := List.takeWhile_append_dropWhile
  have front : s.slots.drop s.landing.length =
      (s.landing ++ s.slots.dropWhile s.fArr).drop s.landing.length := by rw [whole]
  rw [front, List.drop_left]

theorem landing_le (room : s.fCount.toNat ≤ 16) : s.landing.length ≤ s.fCount.toNat := by
  have short := (List.takeWhile_prefix s.fArr (l := s.slots)).length_le
  rw [slots_eq room, length_places] at short
  unfold landing
  rw [slots_eq room]
  exact short

theorem toNat_nLand (room : s.fCount.toNat ≤ 16) : s.nLand.toNat = s.landing.length := by
  have few := landing_le room
  unfold nLand
  rw [BitVec.toNat_ofNat]
  exact Nat.mod_eq_of_lt (by omega)

theorem toNat_stays (room : s.fCount.toNat ≤ 16) :
    (s.fCount - s.nLand).toNat = s.fCount.toNat - s.landing.length := by
  rw [BitVec.toNat_sub_of_le, toNat_nLand room]
  rw [BitVec.le_def, toNat_nLand room]
  exact landing_le room

theorem room_of_mwReq (room : s.fCount.toNat ≤ 16) (req : s.mwReq = true) :
    s.fCount.toNat - s.landing.length < 16 := by
  unfold mwReq at req
  simp only [Bool.and_eq_true, decide_eq_true_eq] at req
  have less := req.1.2
  rw [BitVec.lt_def, toNat_stays room] at less
  exact less

theorem head_next (off : i.rst = false) :
    (s.next i).fHead = s.fHead + BitVec.ofNat 4 s.landing.length := by
  have all := (lists_next (s := s) off).2
  simp only [flying, Prod.mk.injEq] at all
  rw [all.2.2.1]
  change s.fHead + s.nLand.extractLsb' 0 4 = _
  congr 1
  apply BitVec.eq_of_toNat_eq
  simp only [nLand, BitVec.extractLsb'_toNat, BitVec.toNat_ofNat, Nat.shiftRight_zero]
  omega

theorem fTail_eq (room : s.fCount.toNat ≤ 16) :
    s.fTail = s.fHead + BitVec.ofNat 4 s.landing.length +
      BitVec.ofNat 4 (s.fCount.toNat - s.landing.length) := by
  rw [BitVec.add_assoc, ← BitVec.ofNat_add, Nat.add_sub_cancel' (landing_le room)]
  unfold fTail
  congr 1

theorem fTail_notMem (room : s.fCount.toNat ≤ 16)
    (short : s.fCount.toNat - s.landing.length < 16) :
    s.fTail ∉ s.slots.drop s.landing.length := by
  rw [slots_eq room, drop_places (landing_le room), fTail_eq room]
  exact next_notMem short

theorem count_next (off : i.rst = false) (room : s.fCount.toNat ≤ 16) :
    (s.next i).fCount.toNat = s.fCount.toNat - s.landing.length + (s.mwTaken i).toNat ∧
      (s.next i).fCount.toNat ≤ 16 := by
  have all := (lists_next (s := s) off).2
  simp only [flying, Prod.mk.injEq] at all
  have count : (s.next i).fCount = s.fCountN i := all.2.2.2.1
  have sum : (s.next i).fCount.toNat =
      s.fCount.toNat - s.landing.length + (s.mwTaken i).toNat := by
    rw [count]
    unfold fCountN
    rw [toNat_add_wire, toNat_stays room]
    rw [toNat_stays room]
    omega
  refine ⟨sum, ?_⟩
  cases taken : s.mwTaken i with
  | false => simp [sum, taken]; omega
  | true =>
    have short := room_of_mwReq room (queued_of_taken taken)
    simp only [taken, Bool.toNat_true] at sum
    omega

theorem slots_next (off : i.rst = false) (room : s.fCount.toNat ≤ 16) :
    (s.next i).slots =
      s.slots.drop s.landing.length ++ if s.mwTaken i then [s.fTail] else [] := by
  obtain ⟨sum, roomNext⟩ := count_next off room
  rw [slots_eq roomNext, slots_eq room, head_next off, sum, drop_places (landing_le room),
    places_add, fTail_eq room]
  cases s.mwTaken i <;> simp [places]

theorem map_slots_next {Entry : Type} {held : BitVec 4 → Entry} {entry : Entry}
    (off : i.rst = false) (room : s.fCount.toNat ≤ 16) :
    (s.next i).slots.map (if s.mwTaken i then Function.update held s.fTail entry else held) =
      (s.slots.map held).drop s.landing.length ++ if s.mwTaken i then [entry] else [] := by
  rw [slots_next off room, List.map_append, ← List.map_drop]
  cases taken : s.mwTaken i with
  | false => simp
  | true =>
    have short := room_of_mwReq room (queued_of_taken taken)
    simp only [if_true]
    rw [map_update_places (fTail_notMem room short)]
    simp

end Port

/-- The port with its history since the reset: the writes pushed, those accepted with the slot each
took, the write a slot was last given by its number, the numbers of those that landed, and what
the AXI port took and answered. -/
structure Traced (c : PortConfig) where
  port : Port c
  pushed : List Write
  accepted : List (Write × BitVec 4)
  number : BitVec 4 → Nat
  landed : List Nat
  aws : List AwBeat
  beats : List WBeat
  answers : List (BitVec 4)

namespace Traced

variable {c : PortConfig} {i : PortInput} {x : Traced c}

/-- A port out of reset. -/
def begun (p : Port c) : Traced c := ⟨p, [], [], fun _ => 0, [], [], [], []⟩

/-- A port out of reset, whatever it was before. -/
def start (p : Port c) : Traced c := begun { p.reset with master := p.master.reset }

/-- The clock, and what it adds to the history; a reset begins it again. -/
def next (i : PortInput) (x : Traced c) : Traced c :=
  if i.rst then begun (x.port.next i)
  else
    { port := x.port.next i
      pushed := x.pushed ++ x.port.pushes i
      accepted := x.accepted ++
        if x.port.mwTaken i then [(x.port.entry x.port.qHead, x.port.fTail)] else []
      number := if x.port.mwTaken i then
          Function.update x.number x.port.fTail x.accepted.length
        else x.number
      landed := x.landed ++ x.port.landing.map x.number
      aws := x.aws ++ x.port.master.sentAw c.master x.port.request i.axi
      beats := x.beats ++ x.port.master.sentW c.master x.port.request i.axi
      answers := x.answers ++ if i.axi.bvalid then [i.axi.bid] else [] }

/-- The memory answers no more bursts of an ID than it was sent whole. -/
def Answers (i : PortInput) (x : Traced c) : Prop :=
  i.rst = false → i.axi.bvalid = true →
    x.answers.count i.axi.bid <
      ((x.aws.take (x.beats.countP WBeat.last)).map AwBeat.id).count i.axi.bid

/-- A write accepted has been answered: its ID has, within which the answers are in order, as
often as the bursts sent with it up to this write's last. -/
def Answered (x : Traced c) (k : Nat) : Prop :=
  ∃ a, x.accepted[k]? = some a ∧
    (((x.accepted.take (k + 1)).flatMap c.master.bursts).map AwBeat.id).count
      (c.master.writeId a.2) ≤ x.answers.count (c.master.writeId a.2)

/-- The queue, the in-flight list and the history agree. -/
structure Listed (x : Traced c) : Prop where
  few : x.port.qCount.toNat ≤ 8
  sent : x.pushed = x.accepted.map Prod.fst ++ x.port.queued
  queued : x.port.qPcount.toNat = x.port.queued.countP fun w => !w.dma
  slotted : x.accepted.map Prod.snd = places 0 x.accepted.length
  landed : x.landed = List.range x.landed.length
  head : x.port.fHead = BitVec.ofNat 4 x.landed.length
  count : x.landed.length + x.port.fCount.toNat = x.accepted.length
  room : x.port.fCount.toNat ≤ 16
  numbered : x.port.slots.map x.number = List.range' x.landed.length x.port.fCount.toNat
  marked : x.port.slots.map x.port.flDma =
    (x.accepted.drop x.landed.length).map fun a => a.1.dma
  flying : x.port.fPcount.toNat =
    (x.accepted.drop x.landed.length).countP fun a => !a.1.dma

/-- The AXI port's writes are the accepted ones', in order, but for what the last of them has yet
to send and what the one on the channel has sent. -/
structure Channelled (x : Traced c) : Prop where
  aws : x.aws ++ x.port.master.restAw c.master =
    x.accepted.flatMap c.master.bursts ++ x.port.master.heldAw c.master x.port.request
  beats : x.beats ++ x.port.master.restW =
    x.accepted.flatMap c.master.wordBeats ++ x.port.master.heldW c.master x.port.request
  tidy : Master.Tidy x.port.request x.port.master

/-- A port whose lists, write channel and answers a reset has cleared. -/
structure Blank (p : Port c) : Prop where
  qCount : p.qCount = 0
  qPcount : p.qPcount = 0
  fHead : p.fHead = 0
  fCount : p.fCount = 0
  fPcount : p.fPcount = 0
  contV : p.master.contV = false
  hdAwDone : p.master.hdAwDone = false
  hdWDone : p.master.hdWDone = false
  ansPtr : p.master.ansPtr = 0

theorem blank_start (p : Port c) : Blank (start p).port :=
  ⟨rfl, rfl, rfl, rfl, rfl, rfl, rfl, rfl, rfl⟩

theorem blank_reset {p : Port c} (on : i.rst = true) : Blank (p.next i) := by
  unfold Port.next
  rw [on]
  exact ⟨rfl, rfl, rfl, rfl, rfl, rfl, rfl, rfl, rfl⟩

theorem listed_begun {p : Port c} (blank : Blank p) : Listed (begun p) := by
  have empty : p.queued = [] := by simp [Port.queued, Port.queue, blank.qCount]
  have none : p.slots = [] := by simp [Port.slots, blank.fCount]
  constructor <;>
    simp [begun, blank.qCount, blank.qPcount, blank.fHead, blank.fCount, blank.fPcount, empty, none]

theorem channelled_begun {p : Port c} (blank : Blank p) : Channelled (begun p) := by
  refine ⟨?_, ?_, ?_, ?_, ?_, ?_⟩ <;>
    simp [begun, Master.restAw, Master.restW, Master.heldAw, Master.heldW, blank.contV,
      blank.hdAwDone, blank.hdWDone]

theorem countP_pushes {s : Port c} : (s.pushes i).countP (fun w => !w.dma) =
    (s.postPush i).toNat + (s.wPush i).toNat := by
  unfold Port.pushes
  cases s.postPush i <;> cases s.wPush i <;> cases s.dPush i <;> rfl

theorem toNat_accP {s : Port c} : (s.accP i).toNat =
    (if s.mwTaken i then [s.entry s.qHead] else []).countP (fun w => !w.dma) := by
  unfold Port.accP Port.entry
  cases s.mwTaken i <;> cases s.qDma s.qHead <;> rfl

theorem Listed.queueN (listed : Listed x) (off : i.rst = false) :
    (x.port.queueN i).toNat = (x.port.next i).queued.countP fun w => !w.dma := by
  have clock := congrArg (List.countP fun w => !w.dma) (Port.queued_next off listed.few)
  rw [List.countP_append, List.countP_append, countP_pushes, ← toNat_accP, ← listed.queued]
    at clock
  have next : (x.port.next i).queued.countP (fun w => !w.dma) ≤ 8 := by
    refine le_trans List.countP_le_length ?_
    simp [Port.queued, Port.queue]
  have post := Bool.toNat_le (x.port.postPush i)
  have write := Bool.toNat_le (x.port.wPush i)
  have accept := Bool.toNat_le (x.port.accP i)
  unfold Port.queueN
  simp only [BitVec.toNat_add, BitVec.toNat_sub, Port.toNat_wire _ (show 0 < 4 by decide)]
  omega

theorem Listed.landing_dma (listed : Listed x) :
    x.port.landing.countP (fun slot => !x.port.flDma slot) =
      ((x.accepted.drop x.landed.length).take x.port.landing.length).countP
        fun a => !a.1.dma := by
  have marked := congrArg (List.take x.port.landing.length) listed.marked
  rw [← List.map_take, ← List.map_take, ← Port.landing_take] at marked
  have count := congrArg (List.countP fun dma => !dma) marked
  rw [List.countP_map, List.countP_map] at count
  exact count

theorem Listed.flies (listed : Listed x) (off : i.rst = false) :
    (x.next i).accepted.drop (x.next i).landed.length =
      (x.accepted.drop x.landed.length).drop x.port.landing.length ++
        if x.port.mwTaken i then [(x.port.entry x.port.qHead, x.port.fTail)] else [] := by
  have few := Port.landing_le listed.room
  have count := listed.count
  unfold next
  rw [off]
  simp only [Bool.false_eq_true, if_false, List.length_append, List.length_map, List.drop_drop]
  rw [List.drop_append_of_le_length (by omega)]

theorem Listed.inflightN (listed : Listed x) (off : i.rst = false) :
    (x.port.inflightN i).toNat =
      ((x.next i).accepted.drop (x.next i).landed.length).countP fun a => !a.1.dma := by
  have few := Port.landing_le listed.room
  have count := listed.count
  have room := listed.room
  have split := congrArg (List.countP fun a => !a.1.dma)
    (List.take_append_drop x.port.landing.length (x.accepted.drop x.landed.length))
  rw [List.countP_append, ← listed.landing_dma, ← listed.flying] at split
  have accept : (if x.port.mwTaken i then [(x.port.entry x.port.qHead, x.port.fTail)]
      else []).countP (fun a => !a.1.dma) = (x.port.accP i).toNat := by
    rw [toNat_accP]
    cases x.port.mwTaken i <;> rfl
  have short : x.port.fPcount.toNat ≤ 16 := by
    rw [listed.flying]
    refine le_trans List.countP_le_length ?_
    rw [List.length_drop]
    omega
  have one := Bool.toNat_le (x.port.accP i)
  rw [listed.flies off, List.countP_append, accept]
  unfold Port.inflightN Port.nLandP
  simp only [BitVec.toNat_add, BitVec.toNat_sub, BitVec.toNat_ofNat,
    Port.toNat_wire _ (show 0 < 5 by decide)]
  omega

theorem Listed.tail (listed : Listed x) : x.port.fTail = BitVec.ofNat 4 x.accepted.length := by
  rw [← listed.count, BitVec.ofNat_add, ← listed.head]
  unfold Port.fTail
  congr 1

theorem listed_next (listed : Listed x) : Listed (x.next i) := by
  cases rst : i.rst with
  | true =>
    unfold next
    rw [if_pos rst]
    exact listed_begun (blank_reset rst)
  | false =>
    obtain ⟨sum, room⟩ := Port.count_next (i := i) rst listed.room
    have few := Port.landing_le listed.room
    have count := listed.count
    have port : (x.next i).port = x.port.next i := by simp [next, rst]
    have accepted : (x.next i).accepted = x.accepted ++
        if x.port.mwTaken i then [(x.port.entry x.port.qHead, x.port.fTail)] else [] := by
      simp [next, rst]
    have landed : (x.next i).landed = List.range (x.landed.length + x.port.landing.length) := by
      have front : x.port.landing.map x.number =
          List.range' x.landed.length x.port.landing.length := by
        have take := congrArg (List.take x.port.landing.length) listed.numbered
        rw [← List.map_take, ← Port.landing_take, List.take_range'_of_length_ge few] at take
        exact take
      rw [List.range_add, ← List.range'_eq_map_range, ← front, ← listed.landed]
      simp [next, rst]
    have acceptedLength : (x.next i).accepted.length =
        x.accepted.length + (x.port.mwTaken i).toNat := by
      rw [accepted]
      cases x.port.mwTaken i <;> simp
    have landedLength : (x.next i).landed.length = x.landed.length + x.port.landing.length := by
      rw [landed, List.length_range]
    have clock := Port.lists_next (s := x.port) rst
    simp only [Port.queueing, Port.flying, Prod.mk.injEq] at clock
    refine ⟨?_, ?_, ?_, ?_, ?_, ?_, ?_, ?_, ?_, ?_, ?_⟩
    · rw [port, clock.1.2.2.1]
      exact (Port.toNat_qCountN listed.few).2
    · have pushed : (x.next i).pushed = x.pushed ++ x.port.pushes i := by simp [next, rst]
      rw [pushed, accepted, port, listed.sent, List.append_assoc,
        Port.queued_next rst listed.few, List.map_append, List.append_assoc]
      cases x.port.mwTaken i <;> rfl
    · rw [port, ← listed.queueN rst]
      exact congrArg BitVec.toNat clock.1.2.2.2
    · rw [acceptedLength, accepted, List.map_append, listed.slotted, places_add]
      cases x.port.mwTaken i with
      | false => simp
      | true => simp [places, listed.tail]
    · rw [landedLength, landed]
    · rw [port, Port.head_next rst, landedLength, listed.head, ← BitVec.ofNat_add]
    · rw [port, landedLength, acceptedLength, sum]
      omega
    · rw [port]
      exact room
    · have number : (x.next i).number = if x.port.mwTaken i then
          Function.update x.number x.port.fTail x.accepted.length else x.number := by
        simp [next, rst]
      rw [number, port, Port.map_slots_next rst listed.room, listed.numbered, landedLength, sum,
        List.drop_range', Nat.mul_one]
      cases x.port.mwTaken i with
      | false => simp
      | true =>
        simp only [if_true, Bool.toNat_true]
        rw [List.range'_1_concat, ← count]
        congr 2
        omega
    · rw [port, listed.flies rst, List.map_append, List.map_drop, ← listed.marked,
        clock.2.2.1]
      have marks : (x.port.listNext i x.port).flDma = if x.port.mwTaken i then
          Function.update x.port.flDma x.port.fTail (x.port.qDma x.port.qHead)
        else x.port.flDma := rfl
      rw [marks, Port.map_slots_next rst listed.room]
      cases x.port.mwTaken i <;> rfl
    · rw [port, ← listed.inflightN rst]
      exact congrArg BitVec.toNat clock.2.2.2.2.2.1

theorem head_queued {s : Port c} (few : s.qCount.toNat ≤ 8) (any : s.qCount ≠ 0) :
    s.queued.head? = some (s.entry s.qHead) := by
  have positive : 0 < s.qCount.toNat := by bv_omega
  obtain ⟨more, count⟩ : ∃ more, s.qCount.toNat = more + 1 := ⟨s.qCount.toNat - 1, by omega⟩
  rw [Port.queued_eq few, count, places_cons]
  rfl

theorem Listed.stands (listed : Listed x) (off : i.rst = false) (req : x.port.mwReq = true)
    (untaken : x.port.mwTaken i = false) (cont : (x.port.next i).master.contV = false) :
    (x.port.next i).mwReq = true ∧
      (x.port.next i).entry (x.port.next i).qHead = x.port.entry x.port.qHead ∧
      (x.port.next i).fTail = x.port.fTail := by
  have listed' := listed_next (i := i) listed
  have port : (x.next i).port = x.port.next i := by simp [next, off]
  have some : x.port.qCount ≠ 0 := by
    unfold Port.mwReq at req
    simp only [Bool.and_eq_true, bne_iff_ne] at req
    exact req.1.1
  have clock := (Port.lists_next (s := x.port) off).1
  simp only [Port.queueing, Prod.mk.injEq] at clock
  have some' : (x.port.next i).qCount ≠ 0 := by
    have sum := (Port.toNat_qCountN (i := i) listed.few).1
    have count : (x.port.next i).qCount = x.port.qCountN i := clock.2.2.1
    rw [← count] at sum
    simp only [untaken, Bool.toNat_false] at sum
    have positive : 0 < x.port.qCount.toNat := by bv_omega
    intro zero
    rw [zero] at sum
    simp at sum
    omega
  refine ⟨?_, ?_, ?_⟩
  · obtain ⟨sum, room⟩ := Port.count_next (i := i) off listed.room
    have short := Port.room_of_mwReq listed.room req
    unfold Port.mwReq
    simp only [Bool.and_eq_true, decide_eq_true_eq, bne_iff_ne, cont, Bool.not_false, and_true]
    refine ⟨some', ?_⟩
    rw [BitVec.lt_def, Port.toNat_stays room, sum, untaken]
    simp only [Bool.toNat_false]
    change _ < 16
    omega
  · have queue := Port.queued_next off listed.few
    rw [untaken] at queue
    have few' := listed'.few
    rw [port] at few'
    have first := head_queued few' some'
    rw [← show x.port.queued ++ x.port.pushes i = (x.port.next i).queued by simpa using queue,
      List.head?_append, head_queued listed.few some] at first
    exact (Option.some.inj first).symm
  · have tail := listed'.tail
    rw [port] at tail
    rw [tail, listed.tail]
    simp [next, off, untaken]

theorem channelled_next (listed : Listed x) (held : Channelled x) : Channelled (x.next i) := by
  cases rst : i.rst with
  | true =>
    unfold next
    rw [if_pos rst]
    exact channelled_begun (blank_reset rst)
  | false =>
    have port : (x.next i).port = x.port.next i := by simp [next, rst]
    have master : (x.port.next i).master =
        x.port.master.next false c.master x.port.request i.axi := by
      rw [← rst]
      rfl
    have aws : (x.next i).aws = x.aws ++ x.port.master.sentAw c.master x.port.request i.axi := by
      simp [next, rst]
    have beats : (x.next i).beats =
        x.beats ++ x.port.master.sentW c.master x.port.request i.axi := by
      simp [next, rst]
    have accepted : (x.next i).accepted = x.accepted ++
        if x.port.mwTaken i then [(x.port.entry x.port.qHead, x.port.fTail)] else [] := by
      simp [next, rst]
    cases cont : x.port.master.contV with
    | true =>
      obtain ⟨restAw, restW, hdAw, hdW, going⟩ :=
        Master.sent_continued (c := c.master) (i := i.axi) held.tidy cont
      have untaken : x.port.mwTaken i = false := by simp [Port.mwTaken, Master.wTaken, cont]
      obtain ⟨noAw, noW⟩ := held.tidy.apart cont
      have awsNow := held.aws
      have beatsNow := held.beats
      rw [restAw] at awsNow
      rw [restW] at beatsNow
      simp only [Master.heldAw, Master.heldW, noAw, noW] at awsNow beatsNow
      refine ⟨?_, ?_, ?_, ?_, ?_, ?_⟩
      · rw [port, master, aws, accepted, untaken, List.append_assoc, awsNow]
        simp [Master.heldAw, hdAw]
      · rw [port, master, beats, accepted, untaken, List.append_assoc, beatsNow]
        simp [Master.heldW, hdW]
      · rw [port, master]
        exact fun _ => ⟨hdAw, hdW⟩
      · rw [port, master]
        exact going
      · rw [port, master, hdAw, hdW]
        simp
      · rw [port, master, hdAw]
        rfl
    | false =>
      cases taken : x.port.mwTaken i with
      | true =>
        obtain ⟨restAw, restW, wholeAw, wholeW, hdAw, hdW, awDone, wDone⟩ :=
          Master.sent_taken (c := c.master) (i := i.axi) held.tidy (x.port.entry x.port.qHead) rfl
            rfl taken
        have awsNow := held.aws
        have beatsNow := held.beats
        rw [restAw, List.append_nil] at awsNow
        rw [restW, List.append_nil] at beatsNow
        refine ⟨?_, ?_, ?_, ?_, ?_, ?_⟩
        · rw [port, master, aws, accepted, taken, awsNow, List.append_assoc, List.append_assoc,
            ← List.append_assoc (x.port.master.heldAw _ _), wholeAw]
          simp [Master.heldAw, hdAw]
          rfl
        · rw [port, master, beats, accepted, taken, beatsNow, List.append_assoc, List.append_assoc,
            ← List.append_assoc (x.port.master.heldW _ _), wholeW]
          simp [Master.heldW, hdW]
          rfl
        · rw [port, master]
          exact fun _ => ⟨hdAw, hdW⟩
        · rw [port, master, awDone, wDone]
          simp
        · rw [port, master, hdAw, hdW]
          simp
        · rw [port, master, hdAw]
          rfl
      | false =>
        have contNext : (x.port.next i).master.contV = false := by
          rw [master]
          exact Master.contV_untaken cont taken
        have stands (req : x.port.mwReq = true) := listed.stands rst req taken contNext
        obtain ⟨restAw, restW, restAw', restW', heldAw, heldW, asked, short⟩ :=
          Master.sent_offered (c := c.master) (i := i.axi) (n := (x.port.next i).request) cont
            held.tidy.asked taken fun req =>
              ⟨congrArg Write.bus (stands req).2.1, congrArg Write.word (stands req).2.1,
                (stands req).2.2⟩
        have awsNow := held.aws
        have beatsNow := held.beats
        rw [restAw, List.append_nil] at awsNow
        rw [restW, List.append_nil] at beatsNow
        refine ⟨?_, ?_, ?_, ?_, ?_, ?_⟩
        · rw [port, master, aws, accepted, taken, awsNow, restAw', List.append_nil,
            List.append_assoc, heldAw]
          simp
        · rw [port, master, beats, accepted, taken, beatsNow, restW', List.append_nil,
            List.append_assoc, heldW]
          simp
        · rw [port, contNext]
          simp
        · rw [port, contNext]
          simp
        · rw [port, master]
          exact fun some => (stands (asked some)).1
        · rw [port, master]
          exact short

end Traced
end MuirFpga.Quux
