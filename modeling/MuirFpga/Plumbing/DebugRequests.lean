import MuirFpga.Plumbing.DebugWindow
import MuirFpga.Sync.Trace
import MuirFpga.Sync.Occurs
import Mathlib.Tactic.SplitIfs

/-!
# One store is one transaction

The window and the debuggee at the two ends of the cable, from reset, under any stores and any
answers. A request taken is on the lines until the next is taken; `-DEBUG IN REQ` is down from the
lead's end to the lift and never again for it; the latches take its word at its lift; and what the
window reports is the last request taken, its answer and how many there were.
-/

namespace MuirFpga.Plumbing

open Sync

variable {c : WindowConfig} {d : DbginConfig}

/-- The window with a debuggee on its cable. -/
structure Lashup (c : WindowConfig) where
  window : DebugWindow c
  debuggee : Dbgin

/-- What a tick brings the two: the port, what is on the cable from the far end, be it the
debuggee's answer or any other, and the debuggee's machine. -/
structure LashupInput (c : WindowConfig) where
  port : WindowInput c
  answer : FarEnd
  machine : DbginInput

/-- The levels on the cable. -/
def DebugWindow.lines (w : DebugWindow c) : CableLines :=
  ⟨w.regs.dbgInReq, w.regs.dbgInWr, w.regs.dbgInA, w.regs.dbdOut⟩

namespace Lashup

/-- A tick of both ends. -/
def next (d : DbginConfig) (e : LashupInput c) (s : Lashup c) : Lashup c where
  window := s.window.next e.port e.answer
  debuggee := s.debuggee.next d s.window.lines e.machine

/-- Both out of reset. -/
def start : Lashup c := ⟨⟨DebugWindow.Regs.reset, DebugWindow.portReset⟩, Dbgin.reset⟩

/-- The two at every tick. -/
def run (d : DbginConfig) (e : Nat → LashupInput c) : Nat → Lashup c := trace (next d) start e

/-- The window's registers are reset. -/
def Resets (e : Nat → LashupInput c) (n : Nat) : Prop :=
  (e n).port.rst = true ∨ (e n).port.fabricRst = true

/-- A request is taken: a store to CTL with bit 0 and all lanes, with none standing. -/
def Takes (d : DbginConfig) (e : Nat → LashupInput c) (n : Nat) : Prop :=
  ¬ Resets e n ∧ (run d e n).window.takes (e n).port = true

/-- The request standing is lifted. -/
def Lifts (d : DbginConfig) (e : Nat → LashupInput c) (n : Nat) : Prop :=
  ¬ Resets e n ∧ (run d e n).window.lifting (e n).port = true

/-- The key is stored. -/
def Clears (d : DbginConfig) (e : Nat → LashupInput c) (n : Nat) : Prop :=
  ¬ Resets e n ∧ (run d e n).window.clearStore (e n).port = true

/-- `DEBUG IN ACK` is up while the request is down. -/
def Acks (d : DbginConfig) (e : Nat → LashupInput c) (n : Nat) : Prop :=
  (run d e n).window.regs.dbgInReq = true ∧ (e n).answer.ack = true

/-- The request's fields of a store. -/
def fields (word : BitVec 32) : Bool × BitVec 2 × BitVec 16 :=
  (word.getLsbD 1, word.extractLsb' 2 2, word.extractLsb' 16 16)

/-- The request's fields on the cable. -/
def onCable (s : Lashup c) : Bool × BitVec 2 × BitVec 16 :=
  (s.window.regs.dbgInWr, s.window.regs.dbgInA, s.window.regs.dbdOut)

end Lashup

namespace DebugWindow

variable {i : WindowInput c} {f : FarEnd} {w : DebugWindow c}

theorem clearStore_of_ctlStore (ctl : w.ctlStore i = true) : w.clearStore i = false := by
  unfold ctlStore stores at ctl
  simp only [Bool.and_eq_true, beq_iff_eq] at ctl
  unfold clearStore stores
  simp [ctl.2]

theorem regsNext_reset (reset : i.rst = true ∨ i.fabricRst = true) :
    w.regsNext i f = Regs.reset := by
  unfold regsNext
  rcases reset with reset | reset <;> simp [reset]

theorem lifts_answers (lift dog : Bool) (r : WindowRegs) :
    Regs.lifts lift dog (Regs.answers f r (Regs.counts r)) =
      { r with
        standing := r.standing && !lift
        faults := if lift && dog then r.faults ||| 1#3 else r.faults
        leading := r.leading && r.leadT != 0 && !lift
        leadT := if r.leading then r.leadT - 1 else r.leadT
        dogT := if r.standing then r.dogT - 1 else r.dogT
        stsAck := r.stsAck || (r.dbgInReq && f.ack)
        stsDrv := if r.dbgInReq && f.ack && !r.stsAck then f.oe != 0#2 else r.stsDrv
        stsDbd := if r.dbgInReq && f.ack && !r.stsAck then dbdSeen f else r.stsDbd
        dbgInReq := (r.dbgInReq || (r.leading && r.leadT == 0)) && !lift } := by
  have acked (answering : (r.dbgInReq && f.ack && !r.stsAck) = false) :
      r.stsAck = (r.stsAck || (r.dbgInReq && f.ack)) := by
    cases stored : r.stsAck with
    | true => rfl
    | false =>
      rw [stored, Bool.not_false, Bool.and_true] at answering
      rw [answering]
      rfl
  unfold Regs.lifts Regs.answers Regs.counts
  cases answering : r.dbgInReq && f.ack && !r.stsAck with
  | true =>
    rw [Bool.and_eq_true] at answering
    rw [answering.1, Bool.or_true]
    cases lift <;> simp
  | false =>
    rw [← acked answering]
    cases lift <;> simp

theorem regsNext_live (live : ¬ (i.rst = true ∨ i.fabricRst = true)) :
    w.regsNext i f =
      { standing := w.takes i || (w.regs.standing && !w.lifting i)
        seq := if w.takes i then i.wdata.extractLsb' 8 4
          else if w.clearStore i then 0 else w.regs.seq
        count := if w.clearStore i then 0
          else if w.takes i && w.regs.count != 0xFFFF#16 then w.regs.count + 1 else w.regs.count
        faults := (w.regsNext i f).faults
        leading := w.takes i || (w.regs.leading && w.regs.leadT != 0 && !w.lifting i)
        leadT := if w.takes i then c.leadT - 1
          else if w.regs.leading then w.regs.leadT - 1 else w.regs.leadT
        dogT := if w.takes i then c.watchdogT
          else if w.regs.standing then w.regs.dogT - 1 else w.regs.dogT
        stsAck := !w.takes i && !w.clearStore i &&
          (w.regs.stsAck || (w.regs.dbgInReq && f.ack))
        stsDrv := !w.takes i && !w.clearStore i &&
          (if w.regs.dbgInReq && f.ack && !w.regs.stsAck then f.oe != 0#2 else w.regs.stsDrv)
        stsDbd := if w.takes i || w.clearStore i then 0
          else if w.regs.dbgInReq && f.ack && !w.regs.stsAck then dbdSeen f else w.regs.stsDbd
        dbgInReq := (w.regs.dbgInReq || (w.regs.leading && w.regs.leadT == 0)) && !w.lifting i
        dbgInWr := if w.takes i then i.wdata.getLsbD 1 else w.regs.dbgInWr
        dbgInA := if w.takes i then i.wdata.extractLsb' 2 2 else w.regs.dbgInA
        dbdOut := if w.takes i then i.wdata.extractLsb' 16 16 else w.regs.dbdOut } := by
  simp only [not_or, Bool.not_eq_true] at live
  unfold regsNext
  rw [live.1, live.2, Bool.or_false, if_neg Bool.false_ne_true, lifts_answers]
  dsimp only
  cases take : w.takes i with
  | true =>
    unfold takes at take
    simp only [Bool.and_eq_true, Bool.not_eq_true'] at take
    obtain ⟨⟨ctl, bit⟩, idle⟩ := take
    have down : w.lifting i = false := by
      unfold lifting
      rw [idle, Bool.false_and]
    rw [ctl, clearStore_of_ctlStore ctl, down]
    unfold Regs.controls
    simp only [bit, idle, if_true, Bool.false_eq_true, if_false, Bool.true_or,
      Bool.not_true, Bool.not_false, Bool.false_and, Bool.and_true, Bool.true_and, bne_iff_ne,
      ite_not, ne_eq]
  | false =>
    have kept (x : WindowRegs) : (if w.ctlStore i then Regs.controls c i.wdata w.regs x else x) =
        { x with faults :=
          (if w.ctlStore i then Regs.controls c i.wdata w.regs x else x).faults } := by
      split
      · rename_i ctl
        unfold takes at take
        rw [ctl, Bool.true_and] at take
        unfold Regs.controls
        split
        · rename_i bit
          rw [bit, Bool.true_and, Bool.not_eq_false'] at take
          rw [if_pos take]
        · split <;> rfl
      · rfl
    rw [kept]
    dsimp only
    unfold Regs.clears
    cases w.clearStore i <;>
      simp only [if_true, Bool.false_eq_true, if_false, Bool.false_or, Bool.not_true, Bool.not_false,
        Bool.false_and, Bool.true_and, Bool.and_true, Bool.or_true, Bool.or_false]

end DebugWindow

namespace Lashup

variable {e : Nat → LashupInput c} {n m : Nat}

/-- The request taken at a tick is the last one before another, with no reset since. -/
structure Latest (d : DbginConfig) (e : Nat → LashupInput c) (n m : Nat) : Prop where
  taken : Takes d e n
  before : n < m
  alone : Never (fun k => Takes d e k ∨ Resets e k) (n + 1) m

/-- What STS says of a request's answer: nothing until the first acknowledgment, and that one from
then on. -/
def Told (d : DbginConfig) (e : Nat → LashupInput c) (n m : Nat) (r : WindowRegs) : Prop :=
  (Never (Acks d e) (n + 1) m ∧ r.stsAck = false ∧ r.stsDrv = false ∧ r.stsDbd = 0) ∨
    ∃ k, n < k ∧ k < m ∧ Acks d e k ∧ Never (Acks d e) (n + 1) k ∧ r.stsAck = true ∧
      r.stsDrv = ((e k).answer.oe != 0#2) ∧ r.stsDbd = DebugWindow.dbdSeen (e k).answer

/-- The window holds a request, from the tick it was taken on. -/
structure Carries (d : DbginConfig) (e : Nat → LashupInput c) (n m : Nat) : Prop where
  lines : onCable (run d e m) = fields (e n).port.wdata
  stands : Never (Lifts d e) (n + 1) m → (run d e m).window.regs.standing = true
  within : Never (Lifts d e) (n + 1) m → m ≤ n + 1 + c.watchdogT
  dog : Never (Lifts d e) (n + 1) m →
    (run d e m).window.regs.dogT = n + 1 + c.watchdogT - m
  leads : Never (Lifts d e) (n + 1) m →
    (run d e m).window.regs.leading = decide (m ≤ n + c.leadT)
  lead : Never (Lifts d e) (n + 1) m → m ≤ n + c.leadT →
    (run d e m).window.regs.leadT = n + c.leadT - m
  raised : Never (Lifts d e) (n + 1) m →
    (run d e m).window.regs.dbgInReq = decide (n + c.leadT < m)
  lifted : ¬ Never (Lifts d e) (n + 1) m → (run d e m).window.regs.standing = false ∧
    (run d e m).window.regs.leading = false ∧ (run d e m).window.regs.dbgInReq = false
  told : Never (Clears d e) (n + 1) m →
    (run d e m).window.regs.seq = (e n).port.wdata.extractLsb' 8 4 ∧
      Told d e n m (run d e m).window.regs
  cleared : ¬ Never (Clears d e) (n + 1) m → (run d e m).window.regs.standing = false ∧
    (run d e m).window.regs.dbgInReq = false ∧ (run d e m).window.regs.seq = 0 ∧
    (run d e m).window.regs.stsAck = false ∧ (run d e m).window.regs.stsDrv = false ∧
    (run d e m).window.regs.stsDbd = 0

theorem run_regs (m : Nat) : (run d e (m + 1)).window.regs =
    (run d e m).window.regsNext (e m).port (e m).answer := rfl

theorem not_lifting_of_takes {w : DebugWindow c} {i : WindowInput c} (takes : w.takes i = true) :
    w.lifting i = false := by
  unfold DebugWindow.takes at takes
  unfold DebugWindow.lifting
  simp_all

theorem idle (m : Nat) : (run d e m).window.regs.standing = false →
    (run d e m).window.regs.leading = false ∧ (run d e m).window.regs.dbgInReq = false := by
  induction m with
  | zero => exact fun _ => ⟨rfl, rfl⟩
  | succ m before =>
    rw [run_regs]
    by_cases reset : Resets e m
    · rw [DebugWindow.regsNext_reset reset]
      exact fun _ => ⟨rfl, rfl⟩
    · rw [DebugWindow.regsNext_live reset]
      dsimp only
      intro down
      cases lift : (run d e m).window.lifting (e m).port <;>
        cases up : (run d e m).window.regs.standing <;> simp_all

theorem Carries.first (taken : Takes d e n) : Carries d e n (n + 1) := by
  have unlifted := not_lifting_of_takes taken.2
  have down : (run d e n).window.regs.standing = false := by
    have takes := taken.2
    unfold DebugWindow.takes at takes
    simp_all
  obtain ⟨unled, unraised⟩ := idle n down
  have leads := c.leads
  have never {event : Nat → Prop} : Never event (n + 1) (n + 1) := never_self event _
  have next := run_regs (d := d) (e := e) n
  rw [DebugWindow.regsNext_live taken.1] at next
  simp only [taken.2, unlifted, unled, unraised] at next
  exact
    { lines := by simp [onCable, fields, next]
      stands := fun _ => by simp [next]
      within := fun _ => by omega
      dog := fun _ => by simp [next]
      leads := fun _ => by simp [next]; omega
      lead := fun _ _ => by simp [next]; omega
      raised := fun _ => by simp [next]; omega
      lifted := fun not => absurd never not
      told := fun _ => ⟨by simp [next], .inl ⟨never, by simp [next], by simp [next], by simp [next]⟩⟩
      cleared := fun not => absurd never not }

theorem dogFires_of_lifting {w : DebugWindow c} {i : WindowInput c} (quiet : w.lifting i = false) :
    w.dogFires = false := by
  cases fires : w.dogFires with
  | false => rfl
  | true =>
    have up : w.regs.standing = true := by
      unfold DebugWindow.dogFires at fires
      simp_all
    unfold DebugWindow.lifting at quiet
    simp [fires, up] at quiet

theorem told_next {r x : WindowRegs} (order : n + 1 ≤ m) (told : Told d e n m r)
    (ack : x.stsAck = (r.stsAck || (r.dbgInReq && (e m).answer.ack)))
    (drv : x.stsDrv = if r.dbgInReq && (e m).answer.ack && !r.stsAck then (e m).answer.oe != 0#2
      else r.stsDrv)
    (dbd : x.stsDbd = if r.dbgInReq && (e m).answer.ack && !r.stsAck then
      DebugWindow.dbdSeen (e m).answer else r.stsDbd)
    (now : r = (run d e m).window.regs) : Told d e n (m + 1) x := by
  rcases told with ⟨never, ack', drv', dbd'⟩ | ⟨k, after, before, acked, never, ack', drv', dbd'⟩
  · by_cases acks : Acks d e m
    · have both := acks
      unfold Acks at both
      rw [← now] at both
      refine .inr ⟨m, by omega, by omega, acks, never, ?_, ?_, ?_⟩
      · simp [ack, both]
      · simp [drv, both, ack']
      · simp [dbd, both, ack']
    · have silent : (r.dbgInReq && (e m).answer.ack) = false := by
        unfold Acks at acks
        rw [← now] at acks
        simpa using acks
      refine .inl ⟨never_succ never acks, ?_, ?_, ?_⟩
      · rw [ack, silent, ack']
        rfl
      · rw [drv, silent]
        simpa using drv'
      · rw [dbd, silent]
        simpa using dbd'
  · refine .inr ⟨k, after, by omega, acked, never, ?_, ?_, ?_⟩
    · simp [ack, ack']
    · simp [drv, ack', drv']
    · simp [dbd, ack', dbd']

theorem Carries.next (order : n + 1 ≤ m) (carries : Carries d e n m) (live : ¬ Resets e m)
    (untaken : ¬ Takes d e m) : Carries d e n (m + 1) := by
  have takes : (run d e m).window.takes (e m).port = false :=
    Bool.eq_false_iff.mpr fun takes => untaken ⟨live, takes⟩
  have next := run_regs (d := d) (e := e) m
  rw [DebugWindow.regsNext_live live] at next
  simp only [takes, Bool.false_or, Bool.false_and, Bool.not_false, Bool.true_and,
    Bool.false_eq_true, if_false] at next
  have unlifted (never : Never (Lifts d e) (n + 1) (m + 1)) :
      Never (Lifts d e) (n + 1) m ∧ (run d e m).window.lifting (e m).port = false := by
    obtain ⟨never, not⟩ := (never_succ_iff order).mp never
    exact ⟨never, Bool.eq_false_iff.mpr fun lift => not ⟨live, lift⟩⟩
  have lifted (not : ¬ Never (Lifts d e) (n + 1) (m + 1)) :
      (run d e m).window.regs.standing = false ∨ (run d e m).window.lifting (e m).port = true := by
    by_cases lift : (run d e m).window.lifting (e m).port = true
    · exact .inr lift
    · exact .inl (carries.lifted fun never => not (never_succ never fun lifts => lift lifts.2)).1
  exact
    { lines := by
        rw [← carries.lines]
        simp [onCable, next]
      stands := fun never => by
        obtain ⟨before, quiet⟩ := unlifted never
        simp [next, quiet, carries.stands before]
      within := fun never => by
        obtain ⟨before, quiet⟩ := unlifted never
        have alive := dogFires_of_lifting quiet
        unfold DebugWindow.dogFires at alive
        simp only [carries.stands before, carries.dog before, Bool.true_and, beq_eq_false_iff_ne]
          at alive
        omega
      dog := fun never => by
        obtain ⟨before, quiet⟩ := unlifted never
        simp [next, carries.stands before, carries.dog before]
        omega
      leads := fun never => by
        obtain ⟨before, quiet⟩ := unlifted never
        rw [next, Bool.eq_iff_iff]
        by_cases early : m ≤ n + c.leadT
        · simp only [quiet, carries.leads before, carries.lead before early, early, decide_true,
            Bool.true_and, Bool.not_false, Bool.and_true, bne_iff_ne, decide_eq_true_eq]
          omega
        · simp only [carries.leads before, early, decide_false, Bool.false_and, decide_eq_true_eq]
          exact iff_of_false (by decide) (by omega)
      lead := fun never late => by
        obtain ⟨before, quiet⟩ := unlifted never
        have early : m ≤ n + c.leadT := by omega
        simp [next, carries.leads before, early, carries.lead before early]
        omega
      raised := fun never => by
        obtain ⟨before, quiet⟩ := unlifted never
        rw [next, Bool.eq_iff_iff]
        by_cases early : m ≤ n + c.leadT
        · simp only [quiet, carries.leads before, carries.raised before, carries.lead before early,
            early, decide_true, Bool.true_and, Bool.not_false, Bool.and_true, Bool.or_eq_true,
            beq_iff_eq, decide_eq_true_eq]
          omega
        · simp only [quiet, carries.leads before, carries.raised before, early, decide_false,
            Bool.false_and, Bool.not_false, Bool.and_true, Bool.or_false, decide_eq_true_eq]
          omega
      lifted := fun not => by
        rcases lifted not with down | lift
        · obtain ⟨unled, unraised⟩ := idle m down
          simp [next, down, unled, unraised]
        · simp [next, lift]
      told := fun never => by
        obtain ⟨before, not⟩ := (never_succ_iff order).mp never
        have unclear : (run d e m).window.clearStore (e m).port = false :=
          Bool.eq_false_iff.mpr fun clear => not ⟨live, clear⟩
        obtain ⟨seq, told⟩ := carries.told before
        refine ⟨by simp [next, unclear, seq], told_next order told ?_ ?_ ?_ rfl⟩
        all_goals simp [next, unclear]
      cleared := fun not => by
        by_cases clear : (run d e m).window.clearStore (e m).port = true
        · cases up : (run d e m).window.regs.standing with
          | false =>
            obtain ⟨unled, unraised⟩ := idle m up
            simp [next, clear, up, unled, unraised]
          | true =>
            have lift : (run d e m).window.lifting (e m).port = true := by
              unfold DebugWindow.lifting
              simp [up, clear]
            simp [next, clear, lift]
        · obtain ⟨down, unraised, seq, ack, drv, dbd⟩ :=
            carries.cleared fun never => not (never_succ never fun clears => clear clears.2)
          have unled := (idle m down).1
          simp [next, clear, down, unraised, seq, ack, drv, dbd, unled] }

theorem Latest.longer (latest : Latest d e n m) (live : ¬ Resets e m) (untaken : ¬ Takes d e m) :
    Latest d e n (m + 1) where
  taken := latest.taken
  before := by
    have := latest.before
    omega
  alone := never_succ latest.alone fun event => event.elim untaken live

theorem Latest.shorter (latest : Latest d e n (m + 1)) (later : n < m) : Latest d e n m where
  taken := latest.taken
  before := later
  alone := fun k after upTo => latest.alone k after (by omega)

theorem Latest.first (taken : Takes d e n) : Latest d e n (n + 1) :=
  ⟨taken, by omega, never_self _ _⟩

/-- The cable carries the latest request taken. -/
theorem Latest.carries (latest : Latest d e n m) : Carries d e n m := by
  obtain ⟨taken, before, alone⟩ := latest
  induction m, before using Nat.le_induction with
  | base => exact Carries.first taken
  | succ m order ih =>
    have event := alone m order (by omega)
    exact (ih fun k after upTo => alone k after (by omega)).next order
      (fun reset => event (.inr reset)) fun takes => event (.inl takes)

theorem regs_of_none (m : Nat) : (∀ n, ¬ Latest d e n m) → (run d e m).window.regs =
    { DebugWindow.Regs.reset with faults := (run d e m).window.regs.faults } := by
  induction m with
  | zero => exact fun _ => rfl
  | succ m ih =>
    intro fresh
    by_cases reset : Resets e m
    · rw [run_regs, DebugWindow.regsNext_reset reset]
    · have takes : (run d e m).window.takes (e m).port = false :=
        Bool.eq_false_iff.mpr fun takes => fresh m (Latest.first ⟨reset, takes⟩)
      have before := ih fun n latest =>
        fresh n (latest.longer reset fun taken => absurd taken.2 (by simp [takes]))
      rw [run_regs, DebugWindow.regsNext_live reset]
      rw [before]
      simp [takes, DebugWindow.Regs.reset]

theorem latest_of_lifts {l : Nat} (latest : Latest d e n l) (lifts : Lifts d e l) :
    Latest d e n (l + 1) :=
  latest.longer lifts.1 fun taken => by
    have quiet := not_lifting_of_takes taken.2
    simp [lifts.2] at quiet

theorem latest_of_standing (up : (run d e m).window.regs.standing = true) :
    ∃ n, Latest d e n m ∧ Never (Lifts d e) (n + 1) m := by
  by_cases latest : ∃ n, Latest d e n m
  · obtain ⟨n, latest⟩ := latest
    refine ⟨n, latest, Classical.byContradiction fun lifted => ?_⟩
    have down := (latest.carries.lifted lifted).1
    simp [up] at down
  · rw [regs_of_none m fun n here => latest ⟨n, here⟩] at up
    simp [DebugWindow.Regs.reset] at up

theorem latest_of_raised (raised : (run d e m).window.regs.dbgInReq = true) :
    ∃ n, Latest d e n m ∧ Never (Lifts d e) (n + 1) m ∧ n + c.leadT < m := by
  have up : (run d e m).window.regs.standing = true := by
    cases up : (run d e m).window.regs.standing with
    | true => rfl
    | false => simp [(idle m up).2] at raised
  obtain ⟨n, latest, unlifted⟩ := latest_of_standing up
  have past := latest.carries.raised unlifted
  rw [raised] at past
  exact ⟨n, latest, unlifted, of_decide_eq_true past.symm⟩

theorem not_takes_of_standing (up : (run d e m).window.regs.standing = true) : ¬ Takes d e m := by
  intro taken
  have takes := taken.2
  unfold DebugWindow.takes at takes
  simp [up] at takes

theorem Latest.through (taken : Takes d e n) (order : n < m)
    (quiet : Never (fun k => Lifts d e k ∨ Resets e k) (n + 1) m) :
    Latest d e n m ∧ Never (Lifts d e) (n + 1) m := by
  have unlifted : Never (Lifts d e) (n + 1) m :=
    fun k after before lifts => quiet k after before (.inl lifts)
  refine ⟨?_, unlifted⟩
  induction m, order using Nat.le_induction with
  | base => exact Latest.first taken
  | succ m order ih =>
    have before : Latest d e n m := ih (fun k after upTo => quiet k after (by omega))
      fun k after upTo => unlifted k after (by omega)
    have up := before.carries.stands fun k after upTo => unlifted k after (by omega)
    exact before.longer (fun resets => quiet m order (by omega) (.inr resets))
      (not_takes_of_standing up)

/-- Between two requests one is lifted. -/
theorem lifted_between (first : Takes d e n) (second : Takes d e m) (order : n < m) :
    ∃ l, n < l ∧ l < m ∧ (Lifts d e l ∨ Resets e l) := by
  refine Classical.byContradiction fun none => ?_
  obtain ⟨latest, unlifted⟩ := Latest.through first order
    fun k after before event => none ⟨k, after, before, event⟩
  exact not_takes_of_standing (latest.carries.stands unlifted) second

/-- Every request is lifted within the watchdog's time. -/
theorem lifted_within (taken : Takes d e n) :
    ∃ l, n < l ∧ l ≤ n + c.watchdogT + 1 ∧ (Lifts d e l ∨ Resets e l) := by
  refine Classical.byContradiction fun none => ?_
  obtain ⟨latest, unlifted⟩ := Latest.through (m := n + c.watchdogT + 2) taken (by omega)
    fun k after before event => none ⟨k, after, by omega, event⟩
  have within := latest.carries.within unlifted
  omega

theorem index_succ (place : BitVec 32) :
    (place + 4#32).extractLsb' 2 4 = place.extractLsb' 2 4 + 1#4 := by
  apply BitVec.eq_of_toNat_eq
  simp only [BitVec.extractLsb'_toNat, BitVec.toNat_add, BitVec.toNat_ofNat,
    Nat.shiftRight_eq_div_pow]
  omega

theorem of_stores {w : DebugWindow c} {i : WindowInput c} {idx : BitVec 4}
    (store : w.stores i idx = true) :
    w.port.wst = .data ∧ i.wvalid = true ∧ w.port.wAt.extractLsb' 2 4 = idx := by
  unfold DebugWindow.stores DebugWindow.wBeat at store
  simp_all

theorem reads_writes (word : BitVec 32) (i : WindowInput c) (p : WindowPort c) :
    (DebugWindow.reads word i p).wst = p.wst ∧ (DebugWindow.reads word i p).wAt = p.wAt := by
  unfold DebugWindow.reads
  split
  · split <;> exact ⟨rfl, rfl⟩
  · exact ⟨rfl, rfl⟩
  · exact ⟨rfl, rfl⟩
  · split
    · split <;> exact ⟨rfl, rfl⟩
    · exact ⟨rfl, rfl⟩

theorem run_port (m : Nat) : (run d e (m + 1)).window.port =
    if (e m).port.rst then DebugWindow.portReset
    else DebugWindow.writes (e m).port
      (DebugWindow.reads (run d e m).window.rWord (e m).port (run d e m).window.port) := rfl

theorem past_store {idx : BitVec 4} (live : (e m).port.rst = false)
    (store : (run d e m).window.stores (e m).port idx = true) :
    (run d e (m + 1)).window.port.wst ≠ .addr ∧
      (run d e (m + 1)).window.port.wAt.extractLsb' 2 4 = idx + 1#4 := by
  obtain ⟨data, valid, here⟩ := of_stores store
  have kept := reads_writes (run d e m).window.rWord (e m).port (run d e m).window.port
  rw [run_port, if_neg (by simp [live])]
  unfold DebugWindow.writes
  rw [kept.1, data]
  simp only [valid, if_true, kept.2]
  refine ⟨?_, ?_⟩
  · split <;> decide
  · rw [index_succ, here]

theorem past_data (busy : (run d e m).window.port.wst ≠ .addr)
    (data : (run d e (m + 1)).window.port.wst = .data) :
    (run d e (m + 1)).window.port.wAt.extractLsb' 2 4 =
        (run d e m).window.port.wAt.extractLsb' 2 4 ∨
      (run d e (m + 1)).window.port.wAt.extractLsb' 2 4 =
        (run d e m).window.port.wAt.extractLsb' 2 4 + 1#4 := by
  have kept := reads_writes (run d e m).window.rWord (e m).port (run d e m).window.port
  rw [run_port] at data ⊢
  split at data
  · simp [DebugWindow.portReset] at data
  · rename_i live
    rw [if_neg live]
    unfold DebugWindow.writes at data ⊢
    rw [kept.1] at data ⊢
    cases at_ : (run d e m).window.port.wst with
    | addr => exact absurd at_ busy
    | data =>
      simp only
      split
      · exact .inr (by rw [kept.2, index_succ])
      · exact .inl (by rw [kept.2])
    | resp =>
      simp only [at_] at data ⊢
      split at data
      · simp at data
      · rw [kept.1, at_] at data
        simp at data

theorem spaced {idx : BitVec 4} (live : (e m).port.rst = false)
    (store : (run d e m).window.stores (e m).port idx = true) (which : idx = 1#4 ∨ idx = 3#4) :
    (run d e (m + 1)).window.ctlStore (e (m + 1)).port = false ∧
      (run d e (m + 2)).window.ctlStore (e (m + 2)).port = false := by
  obtain ⟨busy, next⟩ := past_store live store
  constructor
  · refine Bool.eq_false_iff.mpr fun ctl => ?_
    obtain ⟨-, -, here⟩ := of_stores ctl
    rw [next] at here
    rcases which with rfl | rfl <;> simp at here
  · refine Bool.eq_false_iff.mpr fun ctl => ?_
    obtain ⟨data, -, here⟩ := of_stores ctl
    rcases past_data busy data with same | after
    · rw [same, next] at here
      rcases which with rfl | rfl <;> simp at here
    · rw [after, next] at here
      rcases which with rfl | rfl <;> simp at here

theorem onCable_kept (live : ¬ Resets e m) (untaken : ¬ Takes d e m) :
    onCable (run d e (m + 1)) = onCable (run d e m) := by
  have takes : (run d e m).window.takes (e m).port = false :=
    Bool.eq_false_iff.mpr fun takes => untaken ⟨live, takes⟩
  unfold onCable
  rw [run_regs, DebugWindow.regsNext_live live]
  simp [takes]

theorem onCable_raised (now : (run d e m).window.regs.dbgInReq = true)
    (next : (run d e (m + 1)).window.regs.dbgInReq = true) :
    ¬ Resets e m ∧ ¬ Takes d e m := by
  have live : ¬ Resets e m := by
    intro resets
    rw [run_regs, DebugWindow.regsNext_reset resets] at next
    simp [DebugWindow.Regs.reset] at next
  refine ⟨live, not_takes_of_standing ?_⟩
  cases up : (run d e m).window.regs.standing with
  | true => rfl
  | false => simp [(idle m up).2] at now

theorem run_debuggee (m : Nat) : (run d e (m + 1)).debuggee =
    (run d e m).debuggee.next d (run d e m).window.lines (e m).machine := rfl

/-- A raised request of one of the four kinds was lifted at the tick before. -/
def Closes (d : DbginConfig) (e : Nat → LashupInput c) (kind : BitVec 2) (n m : Nat) : Prop :=
  ∃ l, m = l + 1 ∧ Latest d e n l ∧ Lifts d e l ∧ (run d e l).window.regs.dbgInReq = true ∧
    (e n).port.wdata.extractLsb' 2 2 = kind ∧ (e l).machine.rst = false

/-- The debuggee sees a trailing edge with a kind on the cable just where a request of that kind
was lifted, and the request's word is still on it. -/
theorem lift_iff {kind : BitVec 2} (named : kind ≠ 0#2) :
    ((run d e m).debuggee.lift (run d e m).window.lines = true ∧
      (run d e m).window.lines.a = kind) ↔ ∃ n, Closes d e kind n m := by
  unfold Dbgin.lift DebugWindow.lines
  simp only [Bool.and_eq_true, Bool.not_eq_true']
  constructor
  · rintro ⟨⟨before, up⟩, here⟩
    cases m with
    | zero => exact absurd before Bool.false_ne_true
    | succ l =>
      have seen : (e l).machine.rst = false ∧ (run d e l).window.regs.dbgInReq = true := by
        rw [run_debuggee] at before
        unfold Dbgin.next at before
        split at before
        · exact absurd before (by decide)
        · rename_i live
          exact ⟨by simpa using live, before⟩
      obtain ⟨n, latest, -, -⟩ := latest_of_raised seen.2
      have live : ¬ Resets e l := by
        intro resets
        rw [run_regs, DebugWindow.regsNext_reset resets] at here
        exact named here.symm
      have lifts : Lifts d e l := by
        refine ⟨live, ?_⟩
        rw [run_regs, DebugWindow.regsNext_live live] at up
        simpa [seen.2] using up
      have lines := (latest_of_lifts latest lifts).carries.lines
      unfold onCable fields at lines
      simp only [Prod.mk.injEq] at lines
      exact ⟨n, l, rfl, latest, lifts, seen.2, lines.2.1.symm.trans here, seen.1⟩
  · rintro ⟨n, l, rfl, latest, lifts, raised, kind, live⟩
    have longer := latest_of_lifts latest lifts
    have down := (longer.carries.lifted fun never =>
      never l latest.before (Nat.lt_succ_self l) lifts).2.2
    have lines := longer.carries.lines
    unfold onCable fields at lines
    simp only [Prod.mk.injEq] at lines
    refine ⟨⟨?_, down⟩, lines.2.1.trans kind⟩
    rw [run_debuggee]
    unfold Dbgin.next
    rw [if_neg (by simp [live])]
    exact raised

/-- The debuggee moves only under a request. -/
theorem engaged (m : Nat) : (run d e m).debuggee.cst = .needub ∨ (run d e m).debuggee.cst = .msyn ∨
    (run d e m).debuggee.cst = .xfer →
    ∃ l, m = l + 1 ∧ (run d e l).window.regs.dbgInReq = true ∧
      (run d e l).window.regs.dbgInA = 0#2 := by
  induction m with
  | zero => exact fun wrong => by simp [run, trace, start, Dbgin.reset] at wrong
  | succ m ih =>
    intro engaged
    rw [run_debuggee] at engaged
    refine ⟨m, rfl, ?_⟩
    unfold Dbgin.next at engaged
    split at engaged
    · simp [Dbgin.reset] at engaged
    · -- a cycle that goes on has its request down as it had it the tick before
      have kept (busy : (run d e m).debuggee.cst = .needub ∨ (run d e m).debuggee.cst = .msyn ∨
          (run d e m).debuggee.cst = .xfer) (down : (run d e m).window.regs.dbgInReq = true) :
          (run d e m).window.regs.dbgInReq = true ∧ (run d e m).window.regs.dbgInA = 0#2 := by
        obtain ⟨l, rfl, before, named⟩ := ih busy
        obtain ⟨live, untaken⟩ := onCable_raised before down
        have same := onCable_kept live untaken
        unfold onCable at same
        simp only [Prod.mk.injEq] at same
        exact ⟨down, same.2.1.trans named⟩
      unfold Dbgin.cycleNext at engaged
      cases state : (run d e m).debuggee.cst with
      | idle =>
        simp only [state] at engaged
        by_cases strobe : Dbgin.strobeCycle (run d e m).window.lines = true
        · unfold Dbgin.strobeCycle Dbgin.strobe DebugWindow.lines at strobe
          simpa using strobe
        · simp [strobe] at engaged
      | rel =>
        simp only [state] at engaged
        split at engaged <;> simp at engaged
      | needub =>
        refine kept (.inl state) (Classical.byContradiction fun up => ?_)
        simp [state, DebugWindow.lines, up] at engaged
      | msyn =>
        refine kept (.inr (.inl state)) (Classical.byContradiction fun up => ?_)
        simp [state, DebugWindow.lines, up] at engaged
      | xfer =>
        refine kept (.inr (.inr state)) (Classical.byContradiction fun up => ?_)
        simp [state, DebugWindow.lines, up] at engaged

instance : Decidable (Resets e m) := inferInstanceAs (Decidable (_ ∨ _))
instance : Decidable (Takes d e m) := inferInstanceAs (Decidable (_ ∧ _))
instance : Decidable (Lifts d e m) := inferInstanceAs (Decidable (_ ∧ _))
instance : Decidable (Clears d e m) := inferInstanceAs (Decidable (_ ∧ _))

/-- The requests taken since the last reset or the last store of the key. -/
def accepted (d : DbginConfig) (e : Nat → LashupInput c) : Nat → Nat
  | 0 => 0
  | m + 1 =>
    if Resets e m ∨ Clears d e m then 0
    else if Takes d e m then accepted d e m + 1 else accepted d e m

/-- The count is of the requests accepted, and saturates. -/
theorem count_eq (m : Nat) : (run d e m).window.regs.count.toNat = min 0xFFFF (accepted d e m) := by
  induction m with
  | zero => rfl
  | succ m ih =>
    rw [run_regs]
    by_cases live : Resets e m
    · have tally : accepted d e (m + 1) = 0 := if_pos (.inl live)
      rw [DebugWindow.regsNext_reset live, tally]
      rfl
    · rw [DebugWindow.regsNext_live live]
      dsimp only
      by_cases clear : Clears d e m
      · have tally : accepted d e (m + 1) = 0 := if_pos (.inr clear)
        rw [tally, if_pos clear.2]
        rfl
      · have unclear : (run d e m).window.clearStore (e m).port ≠ true :=
          fun store => clear ⟨live, store⟩
        have same : accepted d e (m + 1) =
            if Takes d e m then accepted d e m + 1 else accepted d e m :=
          if_neg (not_or.mpr ⟨live, clear⟩)
        rw [same, if_neg unclear]
        by_cases taken : Takes d e m
        · rw [if_pos taken, taken.2, Bool.true_and]
          split
          · rename_i more
            have less : (run d e m).window.regs.count.toNat ≠ 65535 := fun full =>
              (bne_iff_ne.mp more) (BitVec.eq_of_toNat_eq full)
            rw [BitVec.toNat_add, ih]
            rw [ih] at less
            change (_ + 1) % 65536 = _
            omega
          · rename_i full
            have most : (run d e m).window.regs.count = 0xFFFF#16 := by simpa using full
            rw [most] at ih
            rw [most]
            change 65535 = _ at ih
            change 65535 = _
            omega
        · have untaken : (run d e m).window.takes (e m).port = false :=
            Bool.eq_false_iff.mpr fun takes => taken ⟨live, takes⟩
          simp only [untaken, Bool.false_and, Bool.false_eq_true, if_false, taken, ih]

theorem regs_dropped (live : ¬ Resets e m) (untaken : ¬ Takes d e m) (unclear : ¬ Clears d e m)
    (unlifted : ¬ ((run d e m).window.ctlStore (e m).port = true ∧
      (e m).port.wdata.getLsbD 0 = false)) :
    { (run d e (m + 1)).window.regs with faults := 0 } =
      { (run d e m).window.regsNext { (e m).port with wvalid := false } (e m).answer with
        faults := 0 } := by
  have takes : (run d e m).window.takes (e m).port = false :=
    Bool.eq_false_iff.mpr fun takes => untaken ⟨live, takes⟩
  have clear : (run d e m).window.clearStore (e m).port = false :=
    Bool.eq_false_iff.mpr fun clear => unclear ⟨live, clear⟩
  have lift : ((run d e m).window.ctlStore (e m).port && !(e m).port.wdata.getLsbD 0) = false := by
    simpa using unlifted
  let silent : WindowInput c := { (e m).port with wvalid := false }
  have quiet (idx : BitVec 4) : (run d e m).window.stores silent idx = false := by
    simp [silent, DebugWindow.stores, DebugWindow.wBeat]
  have takes' : (run d e m).window.takes silent = false := by
    simp [DebugWindow.takes, DebugWindow.ctlStore, quiet]
  have clear' : (run d e m).window.clearStore silent = false := by
    simp [DebugWindow.clearStore, quiet]
  have lifting : (run d e m).window.lifting (e m).port = (run d e m).window.lifting silent := by
    unfold DebugWindow.lifting
    rw [lift, clear, clear']
    simp [DebugWindow.ctlStore, quiet]
  have now := DebugWindow.regsNext_live (f := (e m).answer) (w := (run d e m).window) live
  have silently := DebugWindow.regsNext_live (i := silent) (f := (e m).answer)
    (w := (run d e m).window) live
  rw [run_regs, now, silently]
  simp only [takes, clear, takes', clear', lifting]
  rfl

/-- A lift made by a store: to CTL, or of the key. -/
def Stored (d : DbginConfig) (e : Nat → LashupInput c) (l : Nat) : Prop :=
  (run d e l).window.ctlStore (e l).port = true ∨ (run d e l).window.clearStore (e l).port = true

/-- Every request taken is one transaction on the cable. -/
structure Transacted (d : DbginConfig) (e : Nat → LashupInput c) : Prop where
  -- the request: once, a lead after the lines, from then to its lift
  rises : ∀ m, (run d e m).window.regs.dbgInReq = false →
    (run d e (m + 1)).window.regs.dbgInReq = true → ∃ n, Latest d e n m ∧ m = n + c.leadT
  raised : ∀ n m, Latest d e n m → ((run d e m).window.regs.dbgInReq = true ↔
    Never (Lifts d e) (n + 1) m ∧ n + c.leadT < m)
  unraised : ∀ m, (∀ n, ¬ Latest d e n m) → (run d e m).window.regs.dbgInReq = false
  -- the lines: from the store to the next one taken, and how long past the lift that is
  lines : ∀ n m, Latest d e n m → onCable (run d e m) = fields (e n).port.wdata
  moved : ∀ m, ¬ Resets e m → ¬ Takes d e m → onCable (run d e (m + 1)) = onCable (run d e m)
  trails : ∀ n l, Latest d e n l → Lifts d e l → Latest d e n (l + 1)
  trailsStore : ∀ n l, Latest d e n l → Lifts d e l → Stored d e l → ¬ Resets e (l + 1) →
    ¬ Resets e (l + 2) → Latest d e n (l + 2) ∧ Latest d e n (l + 3)
  -- the debuggee: each strobe and each latch is the named store's own
  strobes : ∀ m kind, Dbgin.strobe kind (run d e m).window.lines = true →
    ∃ n, Latest d e n m ∧ Never (Lifts d e) (n + 1) m ∧ (e n).port.wdata.extractLsb' 2 2 = kind
  addressed : ∀ n m, Closes d e 3#2 n m → (e m).machine.rst = false →
    (run d e (m + 1)).debuggee.address = (e n).port.wdata.extractLsb' 16 16
  modified : ∀ n m, Closes d e 2#2 n m → (e m).machine.rst = false →
    (run d e (m + 1)).debuggee.modifier = ((e n).port.wdata.extractLsb' 16 16).extractLsb' 0 3
  addressKept : ∀ m, (∀ n, ¬ Closes d e 3#2 n m) → (e m).machine.rst = false →
    (run d e (m + 1)).debuggee.address = (run d e m).debuggee.address
  modifierKept : ∀ m, (∀ n, ¬ Closes d e 2#2 n m) → (e m).machine.rst = false →
    (run d e (m + 1)).debuggee.modifier = (run d e m).debuggee.modifier
  cycles : ∀ m, (run d e m).debuggee.ubMsyn = true → ∃ n l, m = l + 1 ∧ Latest d e n l ∧
    Never (Lifts d e) (n + 1) l ∧ (e n).port.wdata.extractLsb' 2 2 = 0#2 ∧
    (Resets e l ∨ Latest d e n m)
  -- one at a time, and none for ever
  single : ∀ n m, Takes d e n → Takes d e m → n < m →
    ∃ l, n < l ∧ l < m ∧ (Lifts d e l ∨ Resets e l)
  stands : ∀ n m, Latest d e n m →
    ((run d e m).window.regs.standing = true ↔ Never (Lifts d e) (n + 1) m)
  bounded : ∀ n, Takes d e n →
    ∃ l, n < l ∧ l ≤ n + c.watchdogT + 1 ∧ (Lifts d e l ∨ Resets e l)
  -- what the window reports
  told : ∀ n m, Latest d e n m → Never (Clears d e) (n + 1) m →
    (run d e m).window.regs.seq = (e n).port.wdata.extractLsb' 8 4 ∧
      Told d e n m (run d e m).window.regs
  cleared : ∀ n m, Latest d e n m → ¬ Never (Clears d e) (n + 1) m →
    (run d e m).window.regs.standing = false ∧ (run d e m).window.regs.seq = 0 ∧
      (run d e m).window.regs.stsAck = false ∧ (run d e m).window.regs.stsDrv = false ∧
      (run d e m).window.regs.stsDbd = 0
  fresh : ∀ m, (∀ n, ¬ Latest d e n m) → (run d e m).window.regs =
    { DebugWindow.Regs.reset with faults := (run d e m).window.regs.faults }
  counted : ∀ m, (run d e m).window.regs.count.toNat = min 0xFFFF (accepted d e m)
  dropped : ∀ m, ¬ Resets e m → ¬ Takes d e m → ¬ Clears d e m →
    ¬ ((run d e m).window.ctlStore (e m).port = true ∧ (e m).port.wdata.getLsbD 0 = false) →
    { (run d e (m + 1)).window.regs with faults := 0 } =
      { (run d e m).window.regsNext { (e m).port with wvalid := false } (e m).answer with
        faults := 0 }

theorem latch_next (m : Nat) (live : (e m).machine.rst = false) :
    (run d e (m + 1)).debuggee.address =
        (if (run d e m).debuggee.lift (run d e m).window.lines = true ∧
            (run d e m).window.lines.a = 3#2 then (run d e m).window.lines.dbd
          else (run d e m).debuggee.address) ∧
      (run d e (m + 1)).debuggee.modifier =
        (if (run d e m).debuggee.lift (run d e m).window.lines = true ∧
            (run d e m).window.lines.a = 2#2 then (run d e m).window.lines.dbd.extractLsb' 0 3
          else (run d e m).debuggee.modifier) := by
  rw [run_debuggee]
  unfold Dbgin.next
  rw [if_neg (by simp [live])]
  simp

theorem Closes.word {kind : BitVec 2} (closes : Closes d e kind n m) :
    (run d e m).window.lines.dbd = (e n).port.wdata.extractLsb' 16 16 := by
  obtain ⟨l, rfl, latest, lifts, -⟩ := closes
  have lines := (latest_of_lifts latest lifts).carries.lines
  unfold onCable fields at lines
  simp only [Prod.mk.injEq] at lines
  exact lines.2.2

/-- One store is one transaction, from reset, under any stores at the port, any resets, anything
the far end puts on the cable and anything the debuggee's machine does. -/
theorem one_transaction (d : DbginConfig) (e : Nat → LashupInput c) : Transacted d e where
  rises m down up := by
    obtain ⟨n, latest, unlifted, past⟩ := latest_of_raised up
    have order : n < m := by
      have := c.leads
      omega
    have shorter := latest.shorter order
    have before := shorter.carries.raised fun k after upTo => unlifted k after (by omega)
    rw [down] at before
    have early := of_decide_eq_false before.symm
    exact ⟨n, shorter, by omega⟩
  raised n m latest := by
    by_cases unlifted : Never (Lifts d e) (n + 1) m
    · rw [latest.carries.raised unlifted]
      simp [unlifted]
    · rw [(latest.carries.lifted unlifted).2.2]
      simp [unlifted]
  unraised m none := by
    rw [regs_of_none m none]
    rfl
  lines n m latest := latest.carries.lines
  moved m live untaken := onCable_kept live untaken
  trails n l latest lifts := latest_of_lifts latest lifts
  trailsStore n l latest lifts stored live live' := by
    have first := latest_of_lifts latest lifts
    have up : (e l).port.rst = false := by
      have live := lifts.1
      unfold Resets at live
      simpa using fun reset => live (.inl reset)
    have quiet : (run d e (l + 1)).window.ctlStore (e (l + 1)).port = false ∧
        (run d e (l + 2)).window.ctlStore (e (l + 2)).port = false := by
      rcases stored with ctl | clear
      · exact spaced up ctl (.inl rfl)
      · unfold DebugWindow.clearStore at clear
        simp only [Bool.and_eq_true] at clear
        exact spaced up clear.1 (.inr rfl)
    have untaken {m : Nat} (none : (run d e m).window.ctlStore (e m).port = false) :
        ¬ Takes d e m := by
      intro taken
      have takes := taken.2
      unfold DebugWindow.takes at takes
      simp [none] at takes
    have second := first.longer live (untaken quiet.1)
    exact ⟨second, second.longer live' (untaken quiet.2)⟩
  strobes m kind strobe := by
    unfold Dbgin.strobe DebugWindow.lines at strobe
    simp only [Bool.and_eq_true, beq_iff_eq] at strobe
    obtain ⟨n, latest, unlifted, -⟩ := latest_of_raised strobe.1
    have lines := latest.carries.lines
    unfold onCable fields at lines
    simp only [Prod.mk.injEq] at lines
    exact ⟨n, latest, unlifted, lines.2.1.symm.trans strobe.2⟩
  addressed n m closes live := by
    rw [(latch_next m live).1, if_pos ((lift_iff (by decide)).mpr ⟨n, closes⟩), closes.word]
  modified n m closes live := by
    rw [(latch_next m live).2, if_pos ((lift_iff (by decide)).mpr ⟨n, closes⟩), closes.word]
  addressKept m none live := by
    rw [(latch_next m live).1, if_neg]
    intro lift
    obtain ⟨n, closes⟩ := (lift_iff (by decide)).mp lift
    exact none n closes
  modifierKept m none live := by
    rw [(latch_next m live).2, if_neg]
    intro lift
    obtain ⟨n, closes⟩ := (lift_iff (by decide)).mp lift
    exact none n closes
  cycles m msyn := by
    unfold Dbgin.ubMsyn at msyn
    obtain ⟨l, rfl, raised, named⟩ := engaged m (.inr (.inr (by simpa using msyn)))
    obtain ⟨n, latest, unlifted, -⟩ := latest_of_raised raised
    have lines := latest.carries.lines
    unfold onCable fields at lines
    simp only [Prod.mk.injEq] at lines
    refine ⟨n, l, rfl, latest, unlifted, lines.2.1.symm.trans named, ?_⟩
    by_cases live : Resets e l
    · exact .inl live
    · exact .inr (latest.longer live (not_takes_of_standing (latest.carries.stands unlifted)))
  single n m first second order := lifted_between first second order
  stands n m latest := by
    by_cases unlifted : Never (Lifts d e) (n + 1) m
    · simp [latest.carries.stands unlifted, unlifted]
    · simp [(latest.carries.lifted unlifted).1, unlifted]
  bounded n taken := lifted_within taken
  told n m latest := latest.carries.told
  cleared n m latest wiped := by
    obtain ⟨down, -, rest⟩ := latest.carries.cleared wiped
    exact ⟨down, rest⟩
  fresh m none := regs_of_none m none
  counted m := count_eq m
  dropped m live untaken unclear unlifted := regs_dropped live untaken unclear unlifted

/-- A window with a short lead and a short watchdog. -/
def brief : WindowConfig where
  regBase := 0x80000000#32
  ident := 0x4D555244#32
  liftKey := 0x4C494654#32
  leadT := 1
  watchdogT := 2
  idW := 1
  lenW := 4
  leads := by decide

/-- The sections of the delay line, in ticks. -/
def sections : DbginConfig := ⟨20, 10, by decide, by decide⟩

/-- Two requests, the second stored on the tick after the watchdog lifts the first. -/
def hurried (k : Nat) : LashupInput brief where
  port :=
    { rst := false
      fabricRst := false
      awaddr := 0x80000004#32
      awid := 0
      awvalid := true
      wdata := if k = 1 then 0x1234000D#32 else 0x56780009#32
      wstrb := 15
      wlast := true
      wvalid := k == 1 || k == 5
      bready := true
      araddr := 0
      arlen := 0
      arid := 0
      arvalid := false
      rready := true }
  answer := ⟨k == 3 || k == 4, 0, 0⟩
  machine := ⟨false, 0, false, false, 0⟩

/-- The lines are not the lifted request's until two ticks after every lift: the watchdog's leaves
one. -/
theorem lines_moved_after_watchdog :
    ¬ ∀ (c : WindowConfig) (d : DbginConfig) (e : Nat → LashupInput c) (n l m : Nat),
      Latest d e n l → Lifts d e l → Never (Resets e) n m → l < m → m ≤ l + 2 →
        onCable (run d e m) = fields (e n).port.wdata := by
  intro held
  have live (k : Nat) : ¬ Resets hurried k := by simp [Resets, hurried]
  have latest : Latest sections hurried 1 4 :=
    ⟨by decide, by decide, fun k after before => by
      obtain rfl | rfl : k = 2 ∨ k = 3 := by omega
      · decide
      · decide⟩
  have wrong := held brief sections hurried 1 4 6 latest (by decide) (fun k _ _ => live k)
    (by decide) (by decide)
  revert wrong
  decide

end Lashup
end MuirFpga.Plumbing
