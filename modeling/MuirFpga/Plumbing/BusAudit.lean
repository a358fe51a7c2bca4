import MuirFpga.Sync.Trace
import Mathlib.Data.Nat.Count

/-!
# The audit of the memory port

`cadr_bus_audit` watches the bus cycle, the memory port's request and answer, and the port's own handshakes, and
counts the ticks in which one of them is not as the bus cycle names it. The first is kept.
-/

namespace MuirFpga.Plumbing

/-- What the audit sees in a tick. -/
structure AuditIn where
  cycle : Bool
  cycleWrite : Bool
  cycleMemory : Bool
  cyclePhys : BitVec 22
  memReq : Bool
  memWrite : Bool
  memDone : Bool
  memAddr : BitVec 32
  memWdata : BitVec 32
  portReadAck : Bool
  portWriteAck : Bool
  boundary : Bool
  vma : BitVec 32
  md : BitVec 32
  pc : BitVec 14
  opc : BitVec 14

/-- `fault_clause`. -/
inductive AuditClause
  | nothing | twice | twoReqs | direction | noCycle | notMemory | looseAns | portExtra
  deriving DecidableEq

/-- What is kept of the first fault, its clause apart. -/
structure AuditRecord where
  phys : BitVec 22
  addr : BitVec 32
  data : BitVec 32
  vma : BitVec 32
  md : BitVec 32
  micro : BitVec 32
  pc : BitVec 14
  opc : BitVec 14

/-- The audit's registers; the counters that saturate are of Nat, and hold what their widths do. -/
structure BusAudit where
  reqQ : Bool
  doneQ : Bool
  cycleQ : Bool
  inReq : Bool
  answers : Nat
  reqs : Nat
  cycWrite : Bool
  cycMemory : Bool
  faults : Nat
  stalled : Nat
  seen : AuditClause → Bool
  owedReads : Nat
  owedWrites : Nat
  portReads : Nat
  portWrites : Nat
  firstClause : AuditClause
  first : AuditRecord
  micro : BitVec 32

namespace BusAudit

/-- The registers out of a reset. -/
def reset : BusAudit where
  reqQ := false
  doneQ := false
  cycleQ := false
  inReq := false
  answers := 0
  reqs := 0
  cycWrite := false
  cycMemory := false
  faults := 0
  stalled := 0
  seen := fun _ => false
  owedReads := 0
  owedWrites := 0
  portReads := 0
  portWrites := 0
  firstClause := .nothing
  first := ⟨0, 0, 0, 0, 0, 0, 0, 0⟩
  micro := 0

variable (i : AuditIn) (a : BusAudit)

def reqRise : Bool := i.memReq && !a.reqQ
def doneRise : Bool := i.memDone && !a.doneQ
def cycleRise : Bool := i.cycle && !a.cycleQ

/-- `write_now` and `memory_now`: the cycle's own, live on the tick it opens. -/
def writeNow : Bool := if a.cycleRise i then i.cycleWrite else a.cycWrite
def memoryNow : Bool := if a.cycleRise i then i.cycleMemory else a.cycMemory
def reqsNow : Nat := if a.cycleRise i then 0 else a.reqs

/-- `fault_clause` of a tick. -/
def faultClause : AuditClause :=
  if i.portWriteAck && a.owedWrites == 0 then .portExtra
  else if i.portReadAck && a.owedReads == 0 then .portExtra
  else if a.reqRise i && !i.cycle then .noCycle
  else if a.reqRise i && !a.memoryNow i then .notMemory
  else if a.reqRise i && i.memWrite != a.writeNow i then .direction
  else if a.reqRise i && a.reqsNow i != 0 then .twoReqs
  else if a.doneRise i && a.inReq && a.answers != 0 then .twice
  else if a.doneRise i && !a.inReq && !a.reqRise i then .looseAns
  else .nothing

/-- What is owed in one direction, after a tick: a request and an answer at once are no change. -/
def owedNext (owed : Nat) (inc ack : Bool) : Nat :=
  if inc && !(ack && owed != 0) then if owed ≠ 15 then owed + 1 else owed
  else if ack && owed != 0 && !inc then owed - 1
  else owed

/-- A count that stops at fifteen bits' most. -/
def tally (count : Nat) (up : Bool) : Nat := if up && count != 32767 then count + 1 else count

/-- What a fault in this tick is kept as. -/
def recordNow : AuditRecord :=
  ⟨i.cyclePhys, i.memAddr, i.memWdata, i.vma, i.md, a.micro, i.pc, i.opc⟩

/-- A tick out of reset. -/
def next : BusAudit :=
  let fault := a.faultClause i != .nothing
  let latches := fault && a.firstClause == .nothing
  { reqQ := i.memReq
    doneQ := i.memDone
    cycleQ := i.cycle
    inReq := if a.reqRise i then true else if a.inReq && !i.memReq then false else a.inReq
    answers := if a.doneRise i && a.inReq && a.answers != 3 then a.answers + 1
      else if a.reqRise i then (a.doneRise i).toNat else a.answers
    reqs := if a.reqRise i && a.reqsNow i != 3 then a.reqsNow i + 1 else a.reqsNow i
    cycWrite := a.writeNow i
    cycMemory := a.memoryNow i
    faults := tally a.faults fault
    stalled := tally a.stalled (!a.reqRise i && a.inReq && !i.memReq && a.answers == 0)
    seen := if fault then Function.update a.seen (a.faultClause i) true else a.seen
    owedReads := owedNext a.owedReads (a.reqRise i && !i.memWrite) i.portReadAck
    owedWrites := owedNext a.owedWrites (a.reqRise i && i.memWrite) i.portWriteAck
    portReads := tally a.portReads i.portReadAck
    portWrites := tally a.portWrites i.portWriteAck
    firstClause := if latches then a.faultClause i else a.firstClause
    first := if latches then a.recordNow i else a.first
    micro := if i.boundary then a.micro + 1 else a.micro }

end BusAudit

/-- The audit, tick after tick out of a reset. -/
def auditRun (inputs : Nat → AuditIn) : Nat → BusAudit := Sync.trace BusAudit.next .reset inputs

section Rule

variable (inputs : Nat → AuditIn)

/-- A line of the tick before: low at a reset. -/
def lineBefore (line : AuditIn → Bool) : Nat → Bool
  | 0 => false
  | t + 1 => line (inputs t)

/-- A line rises in a tick. -/
def lineRises (line : AuditIn → Bool) (t : Nat) : Bool := line (inputs t) && !lineBefore inputs line t

/-- The cycle open in a tick opened in that one. -/
def OpenSince (opened t : Nat) : Prop :=
  lineRises inputs AuditIn.cycle opened = true ∧ opened ≤ t ∧ ∀ v, opened ≤ v → v ≤ t → (inputs v).cycle = true

/-- The request that rose in a tick stands in the one before this, or rises in it. -/
def StoodSince (rose t : Nat) : Prop :=
  lineRises inputs AuditIn.memReq rose = true ∧ rose ≤ t ∧ ∀ v, rose ≤ v → v < t → (inputs v).memReq = true

/-- The requests of a direction that rose before a tick. -/
def asked (write : Bool) (t : Nat) : Nat :=
  Nat.count (fun u => lineRises inputs AuditIn.memReq u && (inputs u).memWrite == write) t

/-- The port's answers of a direction before a tick. -/
def answered (write : Bool) (t : Nat) : Nat :=
  Nat.count (fun u => if write then (inputs u).portWriteAck else (inputs u).portReadAck) t

/-- What the audit asks of a tick. -/
structure Right (t : Nat) : Prop where
  /-- A request rises in a cycle that is memory's and of its direction. -/
  request : lineRises inputs AuditIn.memReq t = true → ∃ opened, OpenSince inputs opened t ∧
    (inputs opened).cycleMemory = true ∧ (inputs opened).cycleWrite = (inputs t).memWrite
  single : lineRises inputs AuditIn.memReq t = true → ∀ opened u, OpenSince inputs opened t → opened ≤ u → u < t →
    lineRises inputs AuditIn.memReq u = false
  standing : lineRises inputs AuditIn.memDone t = true → (inputs t).memReq = true ∨
    lineBefore inputs AuditIn.memReq t = true
  once : lineRises inputs AuditIn.memDone t = true → ∀ rose u, StoodSince inputs rose t → rose ≤ u → u < t →
    lineRises inputs AuditIn.memDone u = false
  port : ∀ write, answered inputs write (t + 1) ≤ asked inputs write t

/-- Fewer than sixteen requests of a direction are unanswered at once. -/
def Few : Prop := ∀ write t, asked inputs write t < answered inputs write t + 16

end Rule

section Books

variable {inputs : Nat → AuditIn} {t : Nat} {a : BusAudit}

/-- What the registers hold of the ticks before one. -/
structure Watched (inputs : Nat → AuditIn) (t : Nat) (a : BusAudit) : Prop where
  req : a.reqQ = lineBefore inputs AuditIn.memReq t
  done : a.doneQ = lineBefore inputs AuditIn.memDone t
  cycle : a.cycleQ = lineBefore inputs AuditIn.cycle t
  inReq : a.inReq = a.reqQ
  open_ : a.cycleQ = true → ∃ opened, opened < t ∧ lineRises inputs AuditIn.cycle opened = true ∧
    (∀ v, opened ≤ v → v < t → (inputs v).cycle = true) ∧ a.cycWrite = (inputs opened).cycleWrite ∧
    a.cycMemory = (inputs opened).cycleMemory ∧
    (a.reqs = 0 ↔ ∀ u, opened ≤ u → u < t → lineRises inputs AuditIn.memReq u = false)
  stands : a.inReq = true → ∃ rose, rose < t ∧ StoodSince inputs rose t ∧
    (a.answers = 0 ↔ ∀ u, rose ≤ u → u < t → lineRises inputs AuditIn.memDone u = false)

theorem lineRises_eq (line : AuditIn → Bool) (t : Nat) :
    lineRises inputs line t = (line (inputs t) && !lineBefore inputs line t) := rfl

theorem le_of_stood {line : AuditIn → Bool} {first second : Nat} (rises : lineRises inputs line first = true)
    (stood : ∀ v, second ≤ v → v < first → line (inputs v) = true) : first ≤ second := by
  by_contra later
  obtain ⟨n, rfl⟩ : ∃ n, first = n + 1 := ⟨first - 1, by omega⟩
  have before := stood n (by omega) (Nat.lt_succ_self n)
  rw [lineRises_eq, Bool.and_eq_true, Bool.not_eq_true'] at rises
  exact Bool.false_ne_true (rises.2.symm.trans before)

theorem OpenSince.same {first second : Nat} (one : OpenSince inputs first t) (other : OpenSince inputs second t) :
    first = second :=
  Nat.le_antisymm (le_of_stood one.1 fun v lo hi => other.2.2 v lo (Nat.le_trans (Nat.le_of_lt hi) one.2.1))
    (le_of_stood other.1 fun v lo hi => one.2.2 v lo (Nat.le_trans (Nat.le_of_lt hi) other.2.1))

theorem StoodSince.same {first second : Nat} (one : StoodSince inputs first t) (other : StoodSince inputs second t) :
    first = second :=
  Nat.le_antisymm (le_of_stood one.1 fun v lo hi => other.2.2 v lo (Nat.lt_of_lt_of_le hi one.2.1))
    (le_of_stood other.1 fun v lo hi => one.2.2 v lo (Nat.lt_of_lt_of_le hi other.2.1))

theorem none_succ {line : AuditIn → Bool} {first : Nat} (upTo : first ≤ t) :
    (∀ u, first ≤ u → u < t + 1 → lineRises inputs line u = false) ↔
      (∀ u, first ≤ u → u < t → lineRises inputs line u = false) ∧ lineRises inputs line t = false := by
  refine ⟨fun none_ => ⟨fun u lo hi => none_ u lo (by omega), none_ t upTo (Nat.lt_succ_self t)⟩, fun both u lo hi => ?_⟩
  obtain rfl | before : u = t ∨ u < t := by omega
  · exact both.2
  · exact both.1 u lo before

namespace Watched

variable (w : Watched inputs t a)

include w

theorem reqRise : a.reqRise (inputs t) = lineRises inputs AuditIn.memReq t := by
  rw [BusAudit.reqRise, w.req, lineRises_eq]

theorem doneRise : a.doneRise (inputs t) = lineRises inputs AuditIn.memDone t := by
  rw [BusAudit.doneRise, w.done, lineRises_eq]

theorem cycleRise : a.cycleRise (inputs t) = lineRises inputs AuditIn.cycle t := by
  rw [BusAudit.cycleRise, w.cycle, lineRises_eq]

theorem judged (up : (inputs t).cycle = true) : ∃ opened, OpenSince inputs opened t ∧
    a.writeNow (inputs t) = (inputs opened).cycleWrite ∧ a.memoryNow (inputs t) = (inputs opened).cycleMemory ∧
    (a.reqsNow (inputs t) = 0 ↔ ∀ u, opened ≤ u → u < t → lineRises inputs AuditIn.memReq u = false) := by
  unfold BusAudit.writeNow BusAudit.memoryNow BusAudit.reqsNow
  cases opens : a.cycleRise (inputs t) with
  | true =>
    refine ⟨t, ⟨w.cycleRise.symm.trans opens, Nat.le_refl t, fun v lo hi => ?_⟩, rfl, rfl, ?_⟩
    · rw [show v = t by omega]
      exact up
    · exact ⟨fun _ u lo hi => by omega, fun _ => rfl⟩
  | false =>
    have still : a.cycleQ = true := by
      rw [BusAudit.cycleRise, up, Bool.true_and, Bool.not_eq_false'] at opens
      exact opens
    obtain ⟨opened, before, rises, high, write, memory, none_⟩ := w.open_ still
    refine ⟨opened, ⟨rises, Nat.le_of_lt before, fun v lo hi => ?_⟩, write, memory, none_⟩
    by_cases now : v = t
    · exact now ▸ up
    · exact high v lo (by omega)

theorem next_inReq : (a.next (inputs t)).inReq = (inputs t).memReq := by
  show (if a.reqRise (inputs t) then true else if a.inReq && !(inputs t).memReq then false else a.inReq) = _
  rw [w.inReq]
  unfold BusAudit.reqRise
  cases a.reqQ <;> cases (inputs t).memReq <;> rfl

theorem next : Watched inputs (t + 1) (a.next (inputs t)) := by
  have req := w.reqRise
  have done := w.doneRise
  constructor
  case req => rfl
  case done => rfl
  case cycle => rfl
  case inReq => exact w.next_inReq
  case open_ =>
    intro up
    obtain ⟨opened, ⟨rises, upTo, high⟩, write, memory, none_⟩ := w.judged up
    refine ⟨opened, by omega, rises, fun v lo hi => high v lo (by omega), write, memory, ?_⟩
    show (if a.reqRise (inputs t) && a.reqsNow (inputs t) != 3 then a.reqsNow (inputs t) + 1
      else a.reqsNow (inputs t)) = 0 ↔ _
    rw [none_succ upTo, ← none_, ← req]
    cases a.reqRise (inputs t) with
    | false => simp
    | true =>
      refine iff_of_false ?_ fun both => Bool.false_ne_true both.2.symm
      rw [Bool.true_and]
      by_cases full : a.reqsNow (inputs t) = 3
      · simp [full]
      · simp [full]
  case stands =>
    intro up
    have asks : (inputs t).memReq = true := w.next_inReq.symm.trans up
    show ∃ rose, _ ∧ _ ∧ ((if a.doneRise (inputs t) && a.inReq && a.answers != 3 then a.answers + 1
      else if a.reqRise (inputs t) then (a.doneRise (inputs t)).toNat else a.answers) = 0 ↔ _)
    cases stood : a.inReq with
    | false =>
      have rises : a.reqRise (inputs t) = true := by
        rw [BusAudit.reqRise, asks, ← w.inReq, stood]
        rfl
      refine ⟨t, Nat.lt_succ_self t, ⟨req.symm.trans rises, Nat.le_succ t, fun v lo hi => ?_⟩, ?_⟩
      · rw [show v = t by omega]
        exact asks
      · rw [none_succ (Nat.le_refl t), ← done, Bool.and_false, Bool.false_and, rises]
        cases a.doneRise (inputs t) with
        | false => exact iff_of_true rfl ⟨fun u lo hi => by omega, rfl⟩
        | true => exact iff_of_false Nat.one_ne_zero fun both => Bool.false_ne_true both.2.symm
    | true =>
      obtain ⟨rose, before, ⟨rises, upTo, high⟩, none_⟩ := w.stands stood
      have still : a.reqRise (inputs t) = false := by
        rw [BusAudit.reqRise, ← w.inReq, stood, Bool.not_true, Bool.and_false]
      refine ⟨rose, by omega, ⟨rises, by omega, fun v lo hi => ?_⟩, ?_⟩
      · obtain rfl | earlier : v = t ∨ v < t := by omega
        · exact asks
        · exact high v lo earlier
      · rw [none_succ upTo, ← none_, ← done, still, Bool.and_true]
        cases a.doneRise (inputs t) with
        | false => simp
        | true =>
          refine iff_of_false ?_ fun both => Bool.false_ne_true both.2.symm
          rw [Bool.true_and]
          by_cases full : a.answers = 3
          · simp [full]
          · simp [full]

end Watched

theorem watched (inputs : Nat → AuditIn) (t : Nat) : Watched inputs t (auditRun inputs t) := by
  induction t with
  | zero => exact ⟨rfl, rfl, rfl, rfl, fun up => absurd up Bool.false_ne_true, fun up => absurd up Bool.false_ne_true⟩
  | succ t ih => exact ih.next

end Books

section Owed

variable {inputs : Nat → AuditIn} {t n : Nat}

def BusAudit.owed (a : BusAudit) (write : Bool) : Nat := if write then a.owedWrites else a.owedReads
def acks (i : AuditIn) (write : Bool) : Bool := if write then i.portWriteAck else i.portReadAck

/-- No answer of the port's that nobody asked for, up to a tick. -/
def Owing (inputs : Nat → AuditIn) (t : Nat) : Prop :=
  ∀ u < t, ∀ write, answered inputs write (u + 1) ≤ asked inputs write u

theorem asked_succ (write : Bool) : asked inputs write (t + 1) = asked inputs write t +
    (lineRises inputs AuditIn.memReq t && (inputs t).memWrite == write).toNat := by
  unfold asked
  rw [Nat.count_succ]
  cases lineRises inputs AuditIn.memReq t && (inputs t).memWrite == write <;> rfl

theorem answered_succ (write : Bool) :
    answered inputs write (t + 1) = answered inputs write t + (acks (inputs t) write).toNat := by
  unfold answered
  rw [Nat.count_succ]
  show _ + (if acks (inputs t) write = true then 1 else 0) = _
  cases acks (inputs t) write <;> rfl

theorem owed_succ (write : Bool) : (auditRun inputs (t + 1)).owed write = BusAudit.owedNext
    ((auditRun inputs t).owed write) (lineRises inputs AuditIn.memReq t && (inputs t).memWrite == write)
    (acks (inputs t) write) := by
  rw [← (watched inputs t).reqRise]
  cases write with
  | true => exact congrArg (BusAudit.owedNext _ · _) (congrArg _ (beq_true _).symm)
  | false => exact congrArg (BusAudit.owedNext _ · _) (congrArg _ (beq_false _).symm)

theorem owedNext_le {o k d : Nat} {inc ack : Bool} (before : o + d ≤ k) (now : d + ack.toNat ≤ k) :
    BusAudit.owedNext o inc ack + (d + ack.toNat) ≤ k + inc.toNat := by
  unfold BusAudit.owedNext
  by_cases none_ : o = 0
  · cases inc <;> cases ack <;> simp [none_] at now ⊢ <;> omega
  · cases inc <;> cases ack <;> simp [none_] at now ⊢ <;> first | omega | (split_ifs <;> omega)

theorem owedNext_eq {o k d : Nat} {inc ack : Bool} (before : o + d = k) (now : d + ack.toNat ≤ k)
    (room : k + inc.toNat < d + ack.toNat + 16) :
    BusAudit.owedNext o inc ack + (d + ack.toNat) = k + inc.toNat := by
  unfold BusAudit.owedNext
  by_cases none_ : o = 0
  · cases inc <;> cases ack <;> simp [none_] at now room ⊢ <;> omega
  · cases inc <;> cases ack <;> simp [none_] at now room ⊢ <;> first | omega | (split_ifs <;> omega)

theorem owed_le (owing : Owing inputs t) (write : Bool) :
    (auditRun inputs t).owed write + answered inputs write t ≤ asked inputs write t := by
  induction t with
  | zero => cases write <;> exact Nat.le_refl 0
  | succ t ih =>
    have before := ih fun u earlier => owing u (by omega)
    have now := owing t (Nat.lt_succ_self t) write
    rw [answered_succ] at now ⊢
    rw [asked_succ, owed_succ]
    exact owedNext_le before now

theorem owed_eq (few : Few inputs) (owing : Owing inputs t) (write : Bool) :
    (auditRun inputs t).owed write + answered inputs write t = asked inputs write t := by
  induction t with
  | zero => cases write <;> rfl
  | succ t ih =>
    have before := ih fun u earlier => owing u (by omega)
    have now := owing t (Nat.lt_succ_self t) write
    have room := few write (t + 1)
    rw [asked_succ, answered_succ] at room
    rw [answered_succ] at now ⊢
    rw [asked_succ, owed_succ]
    exact owedNext_eq before now room

end Owed

section Faults

variable {inputs : Nat → AuditIn} {t n : Nat}

theorem faultClause_nothing (i : AuditIn) (a : BusAudit) : a.faultClause i = .nothing ↔
    (∀ write, acks i write = true → a.owed write ≠ 0) ∧
    (a.reqRise i = true → i.cycle = true ∧ a.memoryNow i = true ∧ i.memWrite = a.writeNow i ∧ a.reqsNow i = 0) ∧
    (a.doneRise i = true → (a.inReq = true → a.answers = 0) ∧ (a.inReq = false → a.reqRise i = true)) := by
  have port : (∀ write, acks i write = true → a.owed write ≠ 0) ↔
      (i.portWriteAck = true → a.owedWrites ≠ 0) ∧ (i.portReadAck = true → a.owedReads ≠ 0) :=
    ⟨fun all => ⟨all true, all false⟩, fun both write => by cases write; exacts [both.2, both.1]⟩
  rw [port]
  unfold BusAudit.faultClause
  split_ifs <;> simp_all

/-- The audit is silent just when the tick is right. -/
theorem nothing_iff_right (few : Few inputs) (owing : Owing inputs t) :
    (auditRun inputs t).faultClause (inputs t) = .nothing ↔ Right inputs t := by
  have w := watched inputs t
  rw [faultClause_nothing, w.reqRise, w.doneRise]
  constructor
  · rintro ⟨port, request, done⟩
    constructor
    case request =>
      intro rises
      obtain ⟨up, memory, write, -⟩ := request rises
      obtain ⟨opened, since, opensWrite, opensMemory, -⟩ := w.judged up
      exact ⟨opened, since, opensMemory.symm.trans memory, (write.trans opensWrite).symm⟩
    case single =>
      intro rises opened u since lo hi
      obtain ⟨up, -, -, none_⟩ := request rises
      obtain ⟨other, sinceOther, -, -, counted⟩ := w.judged up
      rw [since.same sinceOther] at lo
      exact counted.mp none_ u lo hi
    case standing =>
      intro rises
      cases stood : (auditRun inputs t).inReq with
      | true => exact .inr (w.req.symm.trans (w.inReq.symm.trans stood))
      | false =>
        have asks := (done rises).2 stood
        rw [lineRises_eq, Bool.and_eq_true] at asks
        exact .inl asks.1
    case once =>
      intro rises rose u since lo hi
      have stood : (auditRun inputs t).inReq = true := by
        rw [w.inReq, w.req]
        obtain ⟨m, rfl⟩ : ∃ m, t = m + 1 := ⟨t - 1, by omega⟩
        exact since.2.2 m (by omega) (Nat.lt_succ_self m)
      obtain ⟨v, -, stands, counted⟩ := w.stands stood
      rw [since.same stands] at lo
      exact counted.mp ((done rises).1 stood) u lo hi
    case port =>
      intro write
      have owed := owed_eq few owing write
      rw [answered_succ]
      cases ack : acks (inputs t) write with
      | false => exact owed ▸ Nat.le_add_left _ _
      | true =>
        have some_ := port write ack
        show _ + 1 ≤ _
        omega
  · intro right
    refine ⟨fun write ack none_ => ?_, fun rises => ?_, fun rises => ⟨fun stood => ?_, ?_⟩⟩
    · have owed := owed_eq few owing write
      have now := right.port write
      rw [answered_succ, ack, ← owed, none_, Nat.zero_add] at now
      exact Nat.not_succ_le_self _ now
    · obtain ⟨opened, since, memory, write⟩ := right.request rises
      have up : (inputs t).cycle = true := since.2.2 t since.2.1 (Nat.le_refl t)
      obtain ⟨other, sinceOther, opensWrite, opensMemory, counted⟩ := w.judged up
      obtain rfl := since.same sinceOther
      exact ⟨up, opensMemory.trans memory, (opensWrite.trans write).symm,
        counted.mpr fun u lo hi => right.single rises _ u since lo hi⟩
    · obtain ⟨rose, -, since, counted⟩ := w.stands stood
      exact counted.mpr fun u lo hi => right.once rises rose u since lo hi
    · intro down
      rw [w.inReq, w.req] at down
      rw [lineRises_eq, down]
      rcases right.standing rises with up | stood
      · rw [up]
        rfl
      · exact absurd (down.symm.trans stood) Bool.false_ne_true

theorem faults_eq_zero (n : Nat) : (auditRun inputs n).faults = 0 ↔
    ∀ t < n, (auditRun inputs t).faultClause (inputs t) = .nothing := by
  induction n with
  | zero => exact iff_of_true rfl fun t none_ => absurd none_ (Nat.not_lt_zero t)
  | succ n ih =>
    rw [Nat.forall_lt_succ_right, ← ih]
    show BusAudit.tally (auditRun inputs n).faults ((auditRun inputs n).faultClause (inputs n) != .nothing) = 0 ↔ _
    unfold BusAudit.tally
    by_cases clean : (auditRun inputs n).faultClause (inputs n) = .nothing
    · simp [clean]
    · by_cases full : (auditRun inputs n).faults = 32767 <;> simp [clean, full]

/-- And in a run, just when every tick is. -/
theorem clean_iff_right (few : Few inputs) (n : Nat) :
    (∀ t < n, (auditRun inputs t).faultClause (inputs t) = .nothing) ↔ ∀ t < n, Right inputs t := by
  induction n with
  | zero => exact iff_of_true (fun t none_ => absurd none_ (Nat.not_lt_zero t)) fun t none_ => absurd none_ (Nat.not_lt_zero t)
  | succ n ih =>
    rw [Nat.forall_lt_succ_right, Nat.forall_lt_succ_right, ih]
    exact and_congr_right fun right => nothing_iff_right few fun u before => (right u before).port

theorem owing_of_clean (n : Nat) (clean : ∀ t < n, (auditRun inputs t).faultClause (inputs t) = .nothing) :
    Owing inputs n := by
  induction n with
  | zero => exact fun u none_ => absurd none_ (Nat.not_lt_zero u)
  | succ n ih =>
    have before := ih fun t earlier => clean t (Nat.lt_succ_of_lt earlier)
    intro u upTo write
    obtain rfl | earlier : u = n ∨ u < n := by omega
    · have owed := owed_le before write
      have port := ((faultClause_nothing _ _).mp (clean u (Nat.lt_succ_self u))).1 write
      rw [answered_succ]
      cases ack : acks (inputs u) write with
      | false =>
        show _ + 0 ≤ _
        omega
      | true =>
        have some_ := port ack
        show _ + 1 ≤ _
        omega
    · exact before u earlier write

theorem micro_eq (n : Nat) : (auditRun inputs n).micro =
    BitVec.ofNat 32 (Nat.count (fun u => (inputs u).boundary) n) := by
  induction n with
  | zero => rfl
  | succ n ih =>
    show (if (inputs n).boundary then (auditRun inputs n).micro + 1 else (auditRun inputs n).micro) = _
    rw [Nat.count_succ, ih]
    split
    · exact (BitVec.ofNat_add _ _).symm
    · rfl

theorem firstClause_nothing (n : Nat) (clean : ∀ t < n, (auditRun inputs t).faultClause (inputs t) = .nothing) :
    (auditRun inputs n).firstClause = .nothing := by
  induction n with
  | zero => rfl
  | succ n ih =>
    have before := ih fun t earlier => clean t (Nat.lt_succ_of_lt earlier)
    have now := clean n (Nat.lt_succ_self n)
    show (if ((auditRun inputs n).faultClause (inputs n) != .nothing) && _ then _ else (auditRun inputs n).firstClause) = _
    rw [now]
    exact before

/-- The first fault's record stands. -/
theorem latched {f : Nat} (clean : ∀ t < f, (auditRun inputs t).faultClause (inputs t) = .nothing)
    (fault : (auditRun inputs f).faultClause (inputs f) ≠ .nothing) (after : f < n) :
    (auditRun inputs n).firstClause = (auditRun inputs f).faultClause (inputs f) ∧
      (auditRun inputs n).first = (auditRun inputs f).recordNow (inputs f) := by
  induction n, after using Nat.le_induction with
  | base =>
    have now : ((auditRun inputs f).faultClause (inputs f) != .nothing && (auditRun inputs f).firstClause == .nothing) =
        true := by
      rw [firstClause_nothing f clean, bne_iff_ne.mpr fault]
      rfl
    exact ⟨if_pos now, if_pos now⟩
  | succ n after ih =>
    have held : ((auditRun inputs n).faultClause (inputs n) != .nothing && (auditRun inputs n).firstClause == .nothing) =
        false := by
      rw [ih.1, beq_eq_false_iff_ne.mpr fault, Bool.and_false]
    have off := Bool.eq_false_iff.mp held
    exact ⟨(if_neg off).trans ih.1, (if_neg off).trans ih.2⟩

end Faults

/-- The fault count is zero as long as every tick was right, where the port never owes sixteen answers of a direction;
the record is of the first that was not; and an answer nobody asked for is counted however much is owed. -/
theorem audit_accuses (inputs : Nat → AuditIn) (n : Nat) :
    (Few inputs → ((auditRun inputs n).faults = 0 ↔ ∀ t < n, Right inputs t) ∧
      ∀ f < n, ¬ Right inputs f → (∀ t < f, Right inputs t) →
        (auditRun inputs n).firstClause = (auditRun inputs f).faultClause (inputs f) ∧
          (auditRun inputs n).firstClause ≠ .nothing ∧
          (auditRun inputs n).first = ⟨(inputs f).cyclePhys, (inputs f).memAddr, (inputs f).memWdata, (inputs f).vma,
            (inputs f).md, BitVec.ofNat 32 (Nat.count (fun u => (inputs u).boundary) f), (inputs f).pc,
            (inputs f).opc⟩) ∧
    ∀ t < n, ∀ write, asked inputs write t < answered inputs write (t + 1) → (auditRun inputs n).faults ≠ 0 := by
  refine ⟨fun few => ⟨(faults_eq_zero n).trans (clean_iff_right few n), fun f before wrong right => ?_⟩, ?_⟩
  · have clean := (clean_iff_right few f).mpr right
    have fault : (auditRun inputs f).faultClause (inputs f) ≠ .nothing := fun none_ =>
      wrong ((nothing_iff_right few fun u earlier => (right u earlier).port).mp none_)
    obtain ⟨clause, record⟩ := latched clean fault before
    refine ⟨clause, clause.symm ▸ fault, record.trans ?_⟩
    rw [← micro_eq]
    rfl
  · intro t before write unasked none_
    have owing := owing_of_clean n ((faults_eq_zero n).mp none_) t before write
    omega

/-- A read in one cycle, answered in its third tick and again in its fifth. -/
def answeredTwice (t : Nat) : AuditIn where
  cycle := decide (1 ≤ t ∧ t < 8)
  cycleWrite := false
  cycleMemory := true
  cyclePhys := 5
  memReq := decide (2 ≤ t ∧ t < 7)
  memWrite := false
  memDone := t == 4 || t == 6
  memAddr := 0x10000014
  memWdata := 0
  portReadAck := t == 4
  portWriteAck := false
  boundary := t % 4 == 0
  vma := 5
  md := 0
  pc := 7
  opc := 6

/-- The second answer is accused, and what stood on the bus is kept. -/
theorem audit_accuses_twice : (∀ t < 6, Right answeredTwice t) ∧ ¬ Right answeredTwice 6 ∧
    (auditRun answeredTwice 8).firstClause = .twice ∧
      (auditRun answeredTwice 8).first = ⟨5, 0x10000014, 0, 5, 0, 2, 7, 6⟩ := by
  have few : Few answeredTwice := by
    intro write t
    have one : asked answeredTwice write t ≤ 1 := by
      unfold asked
      rw [Nat.count_eq_card_filter_range]
      refine (Finset.card_le_card (t := {2}) fun u inside => ?_).trans_eq (Finset.card_singleton 2)
      have rises := (Bool.and_eq_true_iff.mp (Finset.mem_filter.mp inside).2).1
      rw [Finset.mem_singleton]
      cases u with
      | zero => exact absurd rises (by decide)
      | succ u =>
        simp [lineRises, lineBefore, answeredTwice] at rises
        omega
    omega
  have right := ((audit_accuses answeredTwice 6).1 few).1.mp (by decide)
  have wrong : ¬ Right answeredTwice 6 := by
    intro now
    refine absurd (((audit_accuses answeredTwice 7).1 few).1.mpr fun t before => ?_) (by decide)
    obtain rfl | earlier := Nat.eq_or_lt_of_le (Nat.le_of_lt_succ before)
    · exact now
    · exact right t earlier
  obtain ⟨clause, -, record⟩ := ((audit_accuses answeredTwice 8).1 few).2 6 (by decide) wrong right
  exact ⟨right, wrong, clause.trans (by decide), record.trans rfl⟩

end MuirFpga.Plumbing
