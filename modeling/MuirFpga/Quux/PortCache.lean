import MuirFpga.Quux.Channels
import MuirFpga.Sync.Occurs

/-!
# The port's cache

No set of the cache has one line in both ways, and there is never a fill beside a fill. A fill's
address is taken with no write to its line queued or in flight, and until its line is in no write
start's and no transfer's word to the line is; a write-back's posted word may be.
-/

namespace MuirFpga.Quux

open Sync

namespace Port

variable {c : PortConfig} {i : PortInput} {s : Port c}

/-- A way holds a bus address's line. -/
def Within (w : Way c.sb) (bus : BitVec 29) : Prop :=
  w.valid (c.set bus) = true ∧ w.tag (c.set bus) = c.tag bus

/-- The cache holds a bus address's line. -/
def Holds (s : Port c) (bus : BitVec 29) : Prop := Within s.way0 bus ∨ Within s.way1 bus

/-- No two valid ways of a set have the same tag. -/
def Single (s : Port c) : Prop :=
  ∀ k, s.way0.valid k = true → s.way1.valid k = true → s.way0.tag k ≠ s.way1.tag k

/-- A way's lookup registers read a set's tag. -/
def Looks (tag : Way c.sb → BitVec (26 - c.sb)) (k : BitVec c.sb) (s : Port c) : Prop :=
  tag s.way0 = s.way0.tag k ∧ tag s.way1 = s.way1.tag k

/-- What the port is built never to see of the processor's reads and its write starts. -/
structure Asks (i : PortInput) (s : Port c) : Prop where
  read : i.rst = false → i.pReq = true → s.fNew = false ∧ s.pBusy i = false
  write : i.rst = false → i.wReq = true → s.fNew = false

/-- The cache, the lookups answered now and the fill agree. -/
structure Coherent (s : Port c) : Prop where
  single : s.Single
  looking : (s.lpV || s.ltV) = true → s.filling = false
  read : s.lpV = true → s.Looks Way.tagA (c.set s.lpBus)
  table : s.ltV = true → s.Looks Way.tagB (c.set s.ltBus)
  beside : s.lpV = true → s.ltV = true → s.ltWithP = true
  absent : s.filling = true → s.fByp = false → ¬ s.Holds s.fBus

theorem asking_reset (on : i.rst = true) :
    (s.next i).lpV = false ∧ (s.next i).ltV = false ∧ (s.next i).fs = .none := by
  unfold next
  rw [on]
  exact ⟨rfl, rfl, rfl⟩

theorem filling_of_install (install : s.install i = true) :
    s.filling = true ∧ s.fByp = false := by
  unfold Port.install at install
  simp only [Bool.and_eq_true, Bool.not_eq_true'] at install
  refine ⟨?_, install.2⟩
  unfold filling
  rw [install.1.1, Bool.or_true]

theorem valid_next {way : Bool} {w : Way c.sb} {k : BitVec c.sb}
    (up : (s.wayNext i way w).valid k = true) :
    w.valid k = true ∨ s.install i = true ∧ s.victim = way ∧ k = s.fSet := by
  change s.validNext i way w k = true at up
  unfold validNext at up
  have held : (if i.sweepGo then fun _ => false else w.valid) k = true → w.valid k = true := by
    split_ifs <;> simp
  by_cases hard : i.hard = true
  · simp [hard] at up
  · rw [if_neg hard] at up
    generalize (if i.sweepGo then fun _ => false else w.valid) = map at up held
    have cleared (set : BitVec c.sb) (still : Function.update map set false k = true) :
        w.valid k = true := by
      by_cases here : k = set
      · simp [here] at still
      · rw [Function.update_of_ne here] at still
        exact held still
    split_ifs at up with push done fill
    · exact Or.inl (cleared _ up)
    · exact Or.inl (cleared _ up)
    · rw [Bool.and_eq_true, beq_iff_eq] at fill
      by_cases here : k = s.fSet
      · exact Or.inr ⟨fill.1, fill.2, here⟩
      · rw [Function.update_of_ne here] at up
        exact Or.inl (held up)
    · exact Or.inl (held up)

theorem tag_next {way : Bool} {w : Way c.sb} {k : BitVec c.sb} : (s.wayNext i way w).tag k =
    if s.install i = true ∧ s.victim = way ∧ k = s.fSet then c.tag s.fBus else w.tag k := by
  change (if s.install i && s.victim == way then Function.update w.tag s.fSet (c.tag s.fBus)
    else w.tag) k = _
  by_cases fill : s.install i = true ∧ s.victim = way
  · rw [if_pos (by simp [fill])]
    by_cases here : k = s.fSet
    · rw [if_pos ⟨fill.1, fill.2, here⟩, here, Function.update_self]
    · rw [if_neg (fun all => here all.2.2), Function.update_of_ne here]
  · rw [if_neg (by simpa using fill), if_neg (fun all => fill ⟨all.1, all.2.1⟩)]

theorem tag_kept {way : Bool} {w : Way c.sb} (still : s.install i = false) :
    (s.wayNext i way w).tag = w.tag := by
  funext k
  rw [tag_next, if_neg (by simp [still])]

theorem holds_next {bus : BitVec 29} (still : s.install i = false)
    (holds : (s.next i).Holds bus) : s.Holds bus := by
  have way {way : Bool} {w : Way c.sb} (within : Within (s.wayNext i way w) bus) :
      Within w bus := by
    obtain ⟨up, tag⟩ := within
    rw [tag_kept still] at tag
    rcases valid_next up with valid | installed
    · exact ⟨valid, tag⟩
    · simp [still] at installed
  exact holds.imp way way

theorem single_next (coherent : Coherent s) : (s.next i).Single := by
  intro k first second same
  change (s.wayNext i false s.way0).tag k = (s.wayNext i true s.way1).tag k at same
  rw [tag_next, tag_next] at same
  have zero : s.way0.valid k = true ∨ s.install i = true ∧ s.victim = false ∧ k = s.fSet :=
    valid_next first
  have one : s.way1.valid k = true ∨ s.install i = true ∧ s.victim = true ∧ k = s.fSet :=
    valid_next second
  cases install : s.install i with
  | false =>
    simp only [install, Bool.false_eq_true, false_and, or_false, if_false] at zero one same
    exact coherent.single k zero one same
  | true =>
    obtain ⟨filling, byp⟩ := filling_of_install install
    have absent := coherent.absent filling byp
    unfold Holds Within at absent
    rw [not_or] at absent
    by_cases here : k = s.fSet
    · subst here
      cases victim : s.victim with
      | false =>
        simp only [victim, install, Bool.false_eq_true, false_and, and_false, or_false, if_false,
          and_self, if_true] at one same
        exact absent.2 ⟨one, same.symm⟩
      | true =>
        simp only [victim, install, Bool.true_eq_false, false_and, and_false, or_false, if_false,
          and_self, if_true] at zero same
        exact absent.1 ⟨zero, same⟩
    · simp only [here, and_false, or_false, if_false] at zero one same
      exact coherent.single k zero one same

theorem not_holds {tag : Way c.sb → BitVec (26 - c.sb)} {bus : BitVec 29}
    (looks : s.Looks tag (c.set bus))
    (first : (s.way0.valid (c.set bus) && tag s.way0 == c.tag bus) = false)
    (second : (s.way1.valid (c.set bus) && tag s.way1 == c.tag bus) = false) :
    ¬ s.Holds bus := by
  rw [looks.1] at first
  rw [looks.2] at second
  rintro (⟨valid, same⟩ | ⟨valid, same⟩)
  · simp [valid, same] at first
  · simp [valid, same] at second

theorem Coherent.missed (coherent : Coherent s) (made : s.fNew = true) :
    ¬ s.Holds s.fBusNow := by
  unfold fBusNow
  rw [if_pos made]
  cases miss : s.pMiss with
  | true =>
    unfold pMiss at miss
    simp only [Bool.and_eq_true, Bool.not_eq_true', Bool.or_eq_false_iff] at miss
    exact not_holds (coherent.read miss.1) miss.2.1 miss.2.2
  | false =>
    unfold Port.fNew at made
    rw [miss, Bool.false_or] at made
    unfold tMiss at made
    simp only [Bool.and_eq_true, Bool.not_eq_true', Bool.or_eq_false_iff] at made
    exact not_holds (coherent.table made.1.1) made.2.1 made.2.2

theorem Coherent.fNew (coherent : Coherent s) (made : s.fNew = true) : s.filling = false := by
  apply coherent.looking
  unfold Port.fNew pMiss tMiss at made
  simp only [Bool.or_eq_true, Bool.and_eq_true] at made ⊢
  exact made.imp And.left (fun t => t.1.1)

theorem looks_next (off : i.rst = false) (asks : Asks i s) :
    ((s.next i).lpV = true → (s.next i).Looks Way.tagA (c.set (s.next i).lpBus)) ∧
      ((s.next i).ltV = true → (s.next i).Looks Way.tagB (c.set (s.next i).ltBus)) := by
  obtain ⟨lp, lt, -, -, lpBus, ltBus, -⟩ := asking_next (s := s) off
  have still (empty : s.filling = false) : s.install i = false := by
    cases install : s.install i with
    | false => rfl
    | true =>
      rw [(filling_of_install install).1] at empty
      exact absurd empty Bool.true_eq_false.mp
  rw [lp, lt, lpBus, ltBus]
  constructor
  · intro read
    have free := (asks.read off read).2
    unfold pBusy at free
    simp only [Bool.or_eq_false_iff] at free
    have none := still free.1.1.1
    have way (way : Bool) (w : Way c.sb) :
        (s.wayNext i way w).tagA = (s.wayNext i way w).tag (c.set i.pBus) := by
      rw [tag_kept none]
      simp [wayNext, read]
    exact ⟨way false s.way0, way true s.way1⟩
  · intro read
    have free := read
    unfold tIssue fExists at free
    simp only [Bool.and_eq_true, Bool.not_eq_true', Bool.or_eq_false_iff] at free
    have none := still free.1.1.1.2.1
    have way (way : Bool) (w : Way c.sb) :
        (s.wayNext i way w).tagB = (s.wayNext i way w).tag (c.set (s.tNow i)) := by
      rw [tag_kept none]
      simp [wayNext, read, none]
    exact ⟨way false s.way0, way true s.way1⟩

theorem absent_next (off : i.rst = false) (coherent : Coherent s)
    (filling : (s.next i).filling = true) (own : (s.next i).fByp = false) :
    ¬ (s.next i).Holds (s.next i).fBus := by
  obtain ⟨-, -, fs, bus, -, -, -, byp⟩ := asking_next (s := s) off
  have still : s.install i = false := by
    cases install : s.install i with
    | false => rfl
    | true =>
      have data : s.fs = .data := by
        unfold Port.install at install
        simp only [Bool.and_eq_true, beq_iff_eq] at install
        exact install.1.1
      have land : (s.next i).fs = .land := by
        rw [fs]
        unfold fsNext
        rw [data]
        simp [install]
      unfold Port.filling at filling
      rw [land] at filling
      exact absurd filling (by decide)
  intro holds
  have before := holds_next still holds
  rw [byp] at own
  rw [bus] at before
  cases made : s.fNew with
  | true =>
    rw [made, if_pos rfl] at before
    exact coherent.missed made before
  | false =>
    cases go : s.dFillGo i with
    | true => simp [made, go] at own
    | false =>
      simp only [made, go, Bool.false_eq_true, if_false] at own before
      refine coherent.absent ?_ own before
      -- No fill is made now, so the one of the next clock is there now.
      unfold Port.filling at filling ⊢
      rw [fs] at filling
      unfold fsNext at filling
      cases now : s.fs <;> simp_all

theorem coherent_next (coherent : Coherent s) (asks : Asks i s) : Coherent (s.next i) := by
  have single := single_next (i := i) coherent
  cases off : i.rst with
  | true =>
    obtain ⟨lp, lt, fs⟩ := asking_reset (s := s) off
    refine ⟨single, ?_, ?_, ?_, ?_, ?_⟩ <;> simp [lp, lt, fs, filling]
  | false =>
    obtain ⟨lp, lt, -, -, -, -, withP, -⟩ := asking_next (s := s) off
    obtain ⟨read, table⟩ := looks_next off asks
    refine ⟨single, ?_, read, table, ?_, absent_next off coherent⟩
    · intro lookup
      rw [lp, lt, Bool.or_eq_true] at lookup
      exact looking_next off (asks.read off) lookup
    · intro reading _
      rw [withP, ← lp]
      exact reading

/-- The fill's last clock: its line is installed or kept for the transfer, or a reset drops it. -/
def ends (i : PortInput) (s : Port c) : Bool := i.rst || s.install i || s.bypLast i

/-- The fills of a clock: one is made only where there is none, by one lookup or by the transfer,
and one there stays as it is until its last clock. -/
structure OneFill (i : PortInput) (s : Port c) : Prop where
  alone : s.fNew = true ∨ s.dFillGo i = true → s.filling = false
  maker : s.fNew = true → s.dFillGo i = false
  lookup : s.pMiss = true → s.tMiss = false
  stays : s.filling = true → s.ends i = false →
    (s.next i).filling = true ∧ (s.next i).fBus = s.fBus ∧ (s.next i).fByp = s.fByp

theorem Coherent.none_made (coherent : Coherent s) (filling : s.filling = true) :
    s.fNew = false ∧ s.dFillGo i = false := by
  constructor
  · cases made : s.fNew with
    | false => rfl
    | true =>
      rw [coherent.fNew made] at filling
      exact absurd filling Bool.false_ne_true
  · unfold Port.filling at filling
    unfold dFillGo
    cases now : s.fs <;> simp_all

theorem Coherent.stays (coherent : Coherent s) (filling : s.filling = true)
    (going : s.ends i = false) :
    (s.next i).filling = true ∧ (s.next i).fBus = s.fBus ∧ (s.next i).fByp = s.fByp := by
  unfold ends at going
  simp only [Bool.or_eq_false_iff] at going
  obtain ⟨⟨off, install⟩, last⟩ := going
  obtain ⟨none, go⟩ := coherent.none_made (i := i) filling
  obtain ⟨-, -, fs, bus, -, -, -, byp⟩ := asking_next (s := s) off
  refine ⟨?_, by simp [bus, none, go], by simp [byp, none, go]⟩
  unfold Port.filling at filling ⊢
  rw [fs]
  unfold fsNext
  rw [install, last]
  cases now : s.fs with
  | wait => cases s.fIssue i <;> rfl
  | data => rfl
  | none => simp [now] at filling
  | land => simp [now] at filling

theorem Coherent.oneFill (coherent : Coherent s) : OneFill i s := by
  refine ⟨?_, ?_, ?_, coherent.stays⟩
  · rintro (made | go)
    · exact coherent.fNew made
    · unfold dFillGo at go
      simp only [Bool.and_eq_true, Bool.or_eq_true, beq_iff_eq] at go
      unfold Port.filling
      have still : s.fs = .none ∨ s.fs = .land := go.1.1.1.1.1.1.2
      rcases still with now | now <;> rw [now] <;> rfl
  · intro made
    -- The transfer's fill waits for a clock in which no lookup is answered.
    unfold Port.fNew pMiss tMiss at made
    unfold dFillGo
    cases lp : s.lpV <;> cases lt : s.ltV <;> simp_all
  · intro miss
    -- A table read looked up beside a processor's read that missed is asked again.
    have up : s.lpV = true := by
      unfold pMiss at miss
      rw [Bool.and_eq_true] at miss
      exact miss.1
    unfold tMiss tCancel
    cases lt : s.ltV with
    | false => rfl
    | true => simp [miss, coherent.beside up lt]

theorem Coherent.issued (coherent : Coherent s) (off : i.rst = false)
    (issue : s.fIssue i = true) :
    (s.next i).fs = .data ∧ (s.next i).fBus = s.fBusNow := by
  have req : s.arReq = true := by
    unfold fIssue Master.arTaken at issue
    simp only [Bool.and_eq_true] at issue
    exact issue.1.2
  obtain ⟨-, -, fs, bus, -⟩ := asking_next (s := s) off
  rw [fs, bus]
  cases made : s.fNew with
  | true =>
    have none := coherent.fNew made
    refine ⟨?_, rfl⟩
    unfold Port.filling at none
    unfold fsNext
    rw [made, issue]
    cases now : s.fs <;> simp_all
  | false =>
    have waits : s.fs = .wait := by
      unfold arReq at req
      rw [Bool.and_eq_true, made, Bool.or_false, beq_iff_eq] at req
      exact req.1
    have go : s.dFillGo i = false := by simp [dFillGo, waits]
    unfold fsNext fBusNow
    simp [waits, issue, go, made]

theorem Coherent.coming (coherent : Coherent s) (data : s.fs = .data) (going : s.ends i = false) :
    (s.next i).fs = .data ∧ (s.next i).fBus = s.fBus := by
  have filling : s.filling = true := by
    unfold Port.filling
    rw [data]
    rfl
  refine ⟨?_, (coherent.stays filling going).2.1⟩
  unfold ends at going
  simp only [Bool.or_eq_false_iff] at going
  obtain ⟨⟨off, install⟩, last⟩ := going
  rw [(asking_next off).2.2.1]
  unfold fsNext
  rw [data, install, last]
  rfl

/-- The lists have no more than they have room for. -/
def Roomy (s : Port c) : Prop := s.qCount.toNat ≤ 8 ∧ s.fCount.toNat ≤ 16

theorem roomy_reset (on : i.rst = true) : Roomy (s.next i) := by
  have blank := Traced.blank_reset (p := s) on
  unfold Roomy
  rw [blank.qCount, blank.fCount]
  decide

theorem roomy_next (roomy : Roomy s) : Roomy (s.next i) := by
  cases off : i.rst with
  | true => exact roomy_reset off
  | false =>
    have queue := (lists_next (s := s) off).1
    simp only [queueing, Prod.mk.injEq] at queue
    unfold Roomy
    rw [queue.2.2.1]
    exact ⟨(toNat_qCountN roomy.1).2, (count_next off roomy.2).2⟩

section Run

variable {p : Port c} {inputs : Nat → PortInput}

/-- A post to a line. -/
def Posts (line : BitVec 26) (i : PortInput) (s : Port c) : Prop :=
  s.postPush i = true ∧ lineOf i.postBus = line

/-- A clock of a fill whose address was taken at an earlier one or is now: its line is still that
one's, no write start and no transfer's word to the line is taken, and no write to it is queued or
stays in flight but one posted since. -/
structure Fresh (p : Port c) (inputs : Nat → PortInput) (first clock : Nat) : Prop where
  coming : first < clock → (trace next p inputs clock).fs = .data ∧
    (trace next p inputs clock).fBus = (trace next p inputs first).fBusNow
  write : (trace next p inputs clock).wPush (inputs clock) = true →
    lineOf (inputs clock).wBus ≠ lineOf (trace next p inputs first).fBusNow
  word : (trace next p inputs clock).dPush (inputs clock) = true →
    dLine (inputs clock) ≠ lineOf (trace next p inputs first).fBusNow
  unwritten : Never (fun k => Posts (lineOf (trace next p inputs first).fBusNow) (inputs k)
      (trace next p inputs k)) first clock →
    (trace next p inputs clock).Unwritten (lineOf (trace next p inputs first).fBusNow)

theorem coherent_begun (rst : i.rst = true) (hard : i.hard = true) :
    Coherent (p.next i) ∧ Roomy (p.next i) := by
  obtain ⟨lp, lt, fs⟩ := asking_reset (s := p) rst
  refine ⟨⟨?_, ?_, ?_, ?_, ?_, ?_⟩, roomy_reset rst⟩
  · intro k up
    change p.validNext i false p.way0 k = true at up
    simp [validNext, hard] at up
  all_goals simp [lp, lt, fs, filling]

/-- Every run from a hard reset is coherent. -/
theorem coherent_run (rst : (inputs 0).rst = true) (hard : (inputs 0).hard = true)
    (asks : Meets Asks next p inputs) (clock : Nat) :
    Coherent (trace next p inputs (clock + 1)) ∧ Roomy (trace next p inputs (clock + 1)) := by
  induction clock with
  | zero => exact coherent_begun rst hard
  | succ clock held => exact ⟨coherent_next held.1 (asks _), roomy_next held.2⟩

theorem pushed_elsewhere (asks : Asks i s) (off : i.rst = false) (fill : s.fExists = true)
    (posts : ¬ Posts (lineOf s.fBusNow) i s) :
    ∀ w ∈ s.pushes i, lineOf w.bus ≠ lineOf s.fBusNow := by
  intro w member
  unfold pushes at member
  simp only [List.mem_append, List.mem_ite_nil_right, List.mem_singleton] at member
  rcases member with (⟨push, rfl⟩ | ⟨push, rfl⟩) | ⟨push, rfl⟩
  · exact fun same => posts ⟨push, same⟩
  · exact wPush_elsewhere (asks.write off) fill push
  · rw [lineOf_dAddr]
    exact dPush_elsewhere fill push

/-- While a fill goes on its line is not written, unless it is posted to. -/
theorem fresh_run (rst : (inputs 0).rst = true) (hard : (inputs 0).hard = true)
    (asks : Meets Asks next p inputs) {first clock : Nat} (begun : 0 < first)
    (issue : (trace next p inputs first).fIssue (inputs first) = true)
    (order : first ≤ clock)
    (going : Never (fun k => (trace next p inputs k).ends (inputs k) = true) first clock) :
    (trace next p inputs clock).fExists = true ∧
      (trace next p inputs clock).fBusNow = (trace next p inputs first).fBusNow ∧
      (first < clock → (trace next p inputs clock).fs = .data ∧
        (trace next p inputs clock).fBus = (trace next p inputs first).fBusNow) ∧
      (Never (fun k => Posts (lineOf (trace next p inputs first).fBusNow) (inputs k)
          (trace next p inputs k)) first clock →
        (trace next p inputs clock).Unwritten (lineOf (trace next p inputs first).fBusNow)) := by
  induction clock, order using Nat.le_induction with
  | base =>
    have req : (trace next p inputs first).arReq = true := by
      unfold fIssue Master.arTaken at issue
      simp only [Bool.and_eq_true] at issue
      exact issue.1.2
    refine ⟨fExists_of_arReq req, rfl, fun less => absurd less (Nat.lt_irrefl _), fun _ => ?_⟩
    unfold arReq at req
    simp only [Bool.and_eq_true, Bool.not_eq_true'] at req
    exact written_eq_false.mp req.2
  | succ clock order held =>
    obtain ⟨before, on⟩ := (never_succ_iff order).mp going
    obtain ⟨fill, bus, coming, unwritten⟩ := held before
    obtain ⟨coherent, roomy⟩ : Coherent (trace next p inputs clock) ∧
        Roomy (trace next p inputs clock) := by
      have after := coherent_run rst hard asks (clock - 1)
      rwa [Nat.sub_add_cancel (by omega)] at after
    rw [Bool.not_eq_true] at on
    have off : (inputs clock).rst = false := by
      unfold ends at on
      simp only [Bool.or_eq_false_iff] at on
      exact on.1.1
    have data : (trace next p inputs (clock + 1)).fs = .data ∧
        (trace next p inputs (clock + 1)).fBus = (trace next p inputs first).fBusNow := by
      rw [← bus]
      rcases Nat.eq_or_lt_of_le order with same | later
      · subst same
        exact coherent.issued off issue
      · obtain ⟨state, stands⟩ := coming later
        obtain ⟨next, kept⟩ := coherent.coming state on
        exact ⟨next, by rw [bus, ← stands]; exact kept⟩
    have filling : (trace next p inputs (clock + 1)).filling = true := by
      unfold Port.filling
      rw [data.1]
      rfl
    have none := ((coherent_run rst hard asks clock).1.none_made
      (i := inputs (clock + 1)) filling).1
    refine ⟨?_, ?_, fun _ => data, ?_⟩
    · unfold fExists
      rw [filling, Bool.true_or]
    · unfold fBusNow
      rw [none, if_neg Bool.false_ne_true]
      exact data.2
    · intro posts
      obtain ⟨earlier, now⟩ := (never_succ_iff order).mp posts
      refine unwritten_next off roomy.1 roomy.2 (unwritten earlier) ?_
      rw [← bus] at now ⊢
      exact pushed_elsewhere (asks clock) off fill now

/-- At every clock after a hard reset no two valid ways of a set have the same tag and there is one
fill at most; and from the clock a fill's address is taken until its line is in, no write start and
no transfer's word to the line is taken, and no write to it is queued or stays in flight but one a
write-back posts in between. -/
theorem cache_coherent (rst : (inputs 0).rst = true) (hard : (inputs 0).hard = true)
    (asks : Meets Asks next p inputs) {first : Nat} (begun : 0 < first) :
    (trace next p inputs first).Single ∧
      OneFill (inputs first) (trace next p inputs first) ∧
      ((trace next p inputs first).fIssue (inputs first) = true →
        (trace next p inputs first).Unwritten (lineOf (trace next p inputs first).fBusNow) ∧
          ∀ clock, first ≤ clock →
            Never (fun k => (trace next p inputs k).ends (inputs k) = true) first clock →
            (inputs clock).rst = false → Fresh p inputs first clock) := by
  have coherent : Coherent (trace next p inputs first) := by
    have after := (coherent_run rst hard asks (first - 1)).1
    rwa [Nat.sub_add_cancel begun] at after
  refine ⟨coherent.single, coherent.oneFill, fun issue => ⟨?_, ?_⟩⟩
  · exact (fresh_run rst hard asks begun issue (Nat.le_refl first) (never_self _ _)).2.2.2
      (never_self _ _)
  · intro clock order going off
    obtain ⟨fill, bus, coming, unwritten⟩ := fresh_run rst hard asks begun issue order going
    refine ⟨coming, ?_, ?_, unwritten⟩
    · rw [← bus]
      exact wPush_elsewhere ((asks clock).write off) fill
    · rw [← bus]
      exact dPush_elsewhere fill

end Run

section Played

/-- After a hard reset the processor reads line 1, whose address is taken at clock 3 and whose
beats come at clocks 4 to 8; a write start to the line asks at clock 5. -/
def filled (clock : Nat) : PortInput where
  rst := clock == 0
  hard := clock == 0
  pReq := clock == 2
  pBus := 8
  wReq := clock == 5
  wBus := 8
  wWord := 0x1234567890
  postReq := false
  postBus := 0
  postWord := 0
  tStart := false
  tAddr := 0
  dReq := false
  dWrite := false
  dAddr := 0
  dWdata := 0
  dStart := false
  cReq := false
  cLine := 0
  sweepGo := false
  hold := false
  axi := ⟨true, true, 0, 0, false, true, 0, 4 ≤ clock && clock ≤ 8⟩

/-- The run as it goes. -/
def filledRun (clock : Nat) : Port Traced.small := trace next (cold Traced.small) filled clock

theorem filled_asks : Meets Asks next (cold Traced.small) filled := by
  intro clock
  constructor
  · intro _ read
    have now : clock = 2 := beq_iff_eq.mp read
    subst now
    decide
  · intro _ write
    have now : clock = 5 := beq_iff_eq.mp write
    subst now
    decide

/-- The line's address is taken at clock 3, its write start is refused at clock 5 and it is
installed at clock 8. -/
theorem cache_coherent_filled :
    (filledRun 3).fIssue (filled 3) = true ∧ (filled 5).wReq = true ∧
      (filledRun 5).wPush (filled 5) = false ∧ (filledRun 8).install (filled 8) = true ∧
      (filledRun 8).Unwritten 1#26 := by
  have issue : (filledRun 3).fIssue (filled 3) = true := by decide
  have line : lineOf (filledRun 3).fBusNow = 1#26 := by decide
  have going : Never (fun k => (filledRun k).ends (filled k) = true) 3 8 := by
    have each : ∀ k < 8, 3 ≤ k → ¬ (filledRun k).ends (filled k) = true := by decide
    exact fun k after before => each k before after
  have three : 0 < 3 := by decide
  have fresh := (cache_coherent rfl rfl filled_asks three).2.2 issue
  have five := fresh.2 5 (by decide) (fun k after before => going k after (by omega)) rfl
  have eight := fresh.2 8 (by decide) going rfl
  change lineOf (trace next (cold Traced.small) filled 3).fBusNow = 1#26 at line
  refine ⟨issue, rfl, ?_, by decide, ?_⟩
  · by_contra push
    rw [Bool.not_eq_false] at push
    exact five.write push (by rw [line]; decide)
  · rw [← line]
    refine eight.unwritten ?_
    intro k _ _ posts
    have post := posts.1
    unfold postPush at post
    rw [Bool.and_eq_true] at post
    exact absurd post.1 Bool.false_ne_true

end Played

end Port

end MuirFpga.Quux
