import MuirFpga.Plumbing.Split
import MuirFpga.Sync.Occurs
import Mathlib.Data.Nat.Count

/-!
# Every access of a general purpose port is answered once

The splitter and the slave it has selected are in step, and every other slave is at rest. So an accepted
address is answered to its end before the port takes another in that direction, whatever the other direction
and the fabric's reset do.
-/

namespace MuirFpga.Plumbing

open Sync

variable {Id World Page : Type} {c : Splitter Id World Page}

/-! ### The write direction -/

namespace WriteSide

/-- Where the slave selected stands when the splitter stands here. -/
def slaveSt : SplitWState → WState
  | .addr => .addr
  | .issue => .addr
  | .data => .data
  | .resp => .resp

/-- The slave selected in step, with the transaction's ID once it has the address, and the others at rest. -/
structure InStep (s : WriteSide c) : Prop where
  selected : s.selSt = slaveSt s.split.st
  id : s.split.st = .data ∨ s.split.st = .resp → s.bid = s.split.id
  rest : ∀ p, p ≠ s.split.sel → (c.slave p).write.st (s.slaves p) = .addr

variable {s : WriteSide c} {i : WriteIn Id}

theorem inStep_reset : (reset c).InStep where
  selected := (c.slave c.dflt).write.st_start
  id started := by obtain data | resp := started <;> contradiction
  rest p _ := (c.slave p).write.st_start

theorem InStep.wready_eq (inStep : s.InStep) : s.wready = decide (s.split.st = .data) := by
  unfold wready selWready
  rw [inStep.selected]
  cases s.split.st <;> rfl

theorem InStep.bvalid_eq (inStep : s.InStep) : s.bvalid = decide (s.split.st = .resp) := by
  unfold bvalid selBvalid
  rw [inStep.selected]
  cases s.split.st <;> rfl

/-! An address, a beat and a response are taken where valid and ready meet. -/

def awTaken (i : WriteIn Id) (s : WriteSide c) : Prop := i.awvalid = true ∧ s.awready = true
def lastTaken (i : WriteIn Id) (s : WriteSide c) : Prop := (i.wvalid = true ∧ i.wlast = true) ∧ s.wready = true
def bTaken (i : WriteIn Id) (s : WriteSide c) : Prop := i.bready = true ∧ s.bvalid = true

theorem InStep.lastTaken_iff (inStep : s.InStep) :
    lastTaken i s ↔ (i.wvalid = true ∧ i.wlast = true) ∧ s.split.st = .data := by
  unfold lastTaken
  rw [inStep.wready_eq, decide_eq_true_iff]

theorem InStep.bTaken_iff (inStep : s.InStep) : bTaken i s ↔ i.bready = true ∧ s.split.st = .resp := by
  unfold bTaken
  rw [inStep.bvalid_eq, decide_eq_true_iff]

/-- The splitter's tick where the slaves are in step. -/
def stepped (i : WriteIn Id) (s : WriteSide c) : SplitWrite Id Page :=
  match s.split.st with
  | .addr => if i.awvalid then ⟨.issue, i.awaddr, i.awlen, i.awid, c.target (i.awaddr.extractLsb' 12 20)⟩ else s.split
  | .issue => { s.split with st := .data }
  | .data => if i.wvalid && i.wlast then { s.split with st := .resp } else s.split
  | .resp => if i.bready then { s.split with st := .addr } else s.split

variable [DecidableEq Page]

theorem InStep.split_next (inStep : s.InStep) : (s.next i).split = s.stepped i := by
  show s.splitNext i = s.stepped i
  unfold splitNext stepped selAwready selWready selBvalid
  rw [inStep.selected]
  cases st : s.split.st <;> simp [slaveSt]

theorem st_slave_next (p : Page) : (c.slave p).write.st ((s.next i).slaves p) =
    ((c.slave p).write.st (s.slaves p)).next (s.offered i p) := (c.slave p).write.st_next _ _

theorem id_slave_next (p : Page) : (c.slave p).write.id ((s.next i).slaves p) =
    if (c.slave p).write.st (s.slaves p) = .addr ∧ (s.offered i p).awvalid then s.split.id
    else (c.slave p).write.id (s.slaves p) := (c.slave p).write.id_next _ _

theorem rest_next {p : Page} (other : p ≠ s.split.sel) (rest : (c.slave p).write.st (s.slaves p) = .addr) :
    (c.slave p).write.st ((s.next i).slaves p) = .addr := by
  rw [st_slave_next, rest]
  simp [WState.next, offered, Ne.symm other]

theorem InStep.stands (inStep : s.InStep) (open_ : s.split.st ≠ .addr) : (s.next i).split.awAt = s.split.awAt ∧
    (s.next i).split.id = s.split.id ∧ (s.next i).split.sel = s.split.sel := by
  rw [inStep.split_next, stepped]
  cases st : s.split.st with
  | addr => exact absurd st open_
  | issue => exact ⟨rfl, rfl, rfl⟩
  | data => dsimp only; split <;> exact ⟨rfl, rfl, rfl⟩
  | resp => dsimp only; split <;> exact ⟨rfl, rfl, rfl⟩

theorem selected_next (stands : (s.next i).split.sel = s.split.sel) :
    (s.next i).selSt = s.selSt.next (s.offered i s.split.sel) ∧
      (s.next i).bid = if s.selSt = .addr ∧ (s.offered i s.split.sel).awvalid then s.split.id else s.bid := by
  unfold selSt bid
  rw [stands]
  exact ⟨st_slave_next _, id_slave_next _⟩

theorem slaveSt_stepped (open_ : s.split.st ≠ .addr) :
    slaveSt (s.stepped i).st = (slaveSt s.split.st).next (s.offered i s.split.sel) := by
  unfold stepped
  cases st : s.split.st with
  | addr => exact absurd st open_
  | issue => simp [slaveSt, WState.next, offered, st]
  | data =>
    simp only [slaveSt, WState.next, offered, st]
    cases i.wvalid <;> cases i.wlast <;> simp [st]
  | resp =>
    simp only [slaveSt, WState.next, offered, st]
    cases i.bready <;> simp [st]

theorem InStep.next (inStep : s.InStep) : (s.next i).InStep := by
  cases st : s.split.st with
  | addr =>
    have still (p : Page) : (c.slave p).write.st ((s.next i).slaves p) = .addr := by
      have before : (c.slave p).write.st (s.slaves p) = .addr := by
        by_cases selected : p = s.split.sel
        · rw [selected]
          exact inStep.selected.trans (by rw [st]; rfl)
        · exact inStep.rest p selected
      rw [st_slave_next, before]
      simp [WState.next, offered, st]
    have after : (s.next i).split.st = .addr ∨ (s.next i).split.st = .issue := by
      rw [inStep.split_next, stepped, st]
      dsimp only
      split
      · exact Or.inr rfl
      · exact Or.inl st
    refine ⟨(still _).trans ?_, fun started => ?_, fun p _ => still p⟩
    · obtain addr | issue := after
      · rw [addr]; rfl
      · rw [issue]; rfl
    · obtain addr | issue := after
      · rw [addr] at started; simp at started
      · rw [issue] at started; simp at started
  | issue | data | resp =>
    have open_ : s.split.st ≠ .addr := by
      rw [st]
      decide
    obtain ⟨-, id, sel⟩ := inStep.stands (i := i) open_
    obtain ⟨selSt, bid⟩ := selected_next sel
    refine ⟨?_, fun _ => ?_, fun p other => rest_next (sel ▸ other) (inStep.rest p (sel ▸ other))⟩
    · rw [selSt, inStep.selected, inStep.split_next, slaveSt_stepped open_]
    · rw [bid, id, inStep.selected, st]
      simp [slaveSt, offered, st, inStep.id]

section Run

variable (c) (writes : Nat → WriteIn Id)

/-- The write direction at a clock. -/
def at_ (clock : Nat) : WriteSide c := trace (fun i s => next i s) (reset c) writes clock

/-- A master that gives the data of the address it has given to the last of them, and takes the response. -/
structure Patient : Prop where
  data : ∀ clock, (at_ c writes clock).wready = true →
    ∃ later, clock ≤ later ∧ (writes later).wvalid = true ∧ (writes later).wlast = true
  resp : ∀ clock, (at_ c writes clock).bvalid = true → ∃ later, clock ≤ later ∧ (writes later).bready = true

def AwAt (clock : Nat) : Prop := awTaken (writes clock) (at_ c writes clock)
def LastAt (clock : Nat) : Prop := lastTaken (writes clock) (at_ c writes clock)
def BAt (clock : Nat) : Prop := bTaken (writes clock) (at_ c writes clock)

/-- An address accepted is answered: its last data beat, one alone, then one response with its ID, and no other
response and no other address before the response is over. -/
def Answered (taken : Nat) : Prop :=
  ∃ last resp, taken < last ∧ last < resp ∧ LastAt c writes last ∧ BAt c writes resp ∧
    (at_ c writes resp).bid = (writes taken).awid ∧
    Never (BAt c writes) (taken + 1) resp ∧ Never (AwAt c writes) (taken + 1) (resp + 1) ∧
    ∀ clock, taken < clock → clock ≤ resp → LastAt c writes clock → clock = last

/-- The transaction of an address accepted before, that no other and no response has followed. -/
structure Owner (taken clock : Nat) : Prop where
  before : taken < clock
  awTaken : AwAt c writes taken
  awAt : (at_ c writes clock).split.awAt = (writes taken).awaddr
  id : (at_ c writes clock).split.id = (writes taken).awid
  sel : (at_ c writes clock).split.sel = c.target ((writes taken).awaddr.extractLsb' 12 20)
  alone : Never (AwAt c writes) (taken + 1) clock
  owed : Never (BAt c writes) (taken + 1) clock

variable {c writes} {clock : Nat}

theorem inStep_at : (at_ c writes clock).InStep := by
  induction clock with
  | zero => exact inStep_reset
  | succ clock ih => exact ih.next

theorem split_succ : (at_ c writes (clock + 1)).split = (at_ c writes clock).stepped (writes clock) :=
  inStep_at.split_next

theorem stands (open_ : (at_ c writes clock).split.st ≠ .addr) :
    (at_ c writes (clock + 1)).split.awAt = (at_ c writes clock).split.awAt ∧
      (at_ c writes (clock + 1)).split.id = (at_ c writes clock).split.id ∧
      (at_ c writes (clock + 1)).split.sel = (at_ c writes clock).split.sel := inStep_at.stands open_

theorem awAt_iff : AwAt c writes clock ↔
    (writes clock).awvalid = true ∧ (at_ c writes clock).split.st = .addr := by
  simp [AwAt, awTaken, awready]

theorem split_accepted (taken : AwAt c writes clock) : (at_ c writes (clock + 1)).split =
    ⟨.issue, (writes clock).awaddr, (writes clock).awlen, (writes clock).awid,
      c.target ((writes clock).awaddr.extractLsb' 12 20)⟩ := by
  obtain ⟨valid, addr⟩ := awAt_iff.mp taken
  simp [split_succ, stepped, addr, valid]

theorem owner_of_open (open_ : (at_ c writes clock).split.st ≠ .addr) : ∃ taken, Owner c writes taken clock := by
  induction clock with
  | zero => exact absurd rfl open_
  | succ clock ih =>
    by_cases was : (at_ c writes clock).split.st = .addr
    · have taken : AwAt c writes clock := by
        refine awAt_iff.mpr ⟨?_, was⟩
        by_contra low
        apply open_
        rw [split_succ, stepped, was]
        simp [low, was]
      have split := split_accepted taken
      exact ⟨clock, Nat.lt_succ_self clock, taken, by rw [split], by rw [split], by rw [split], never_self _ _,
        never_self _ _⟩
    · obtain ⟨taken, owner⟩ := ih was
      obtain ⟨awAt, id, sel⟩ := stands was
      refine ⟨taken, Nat.lt_succ_of_lt owner.before, owner.awTaken, awAt.trans owner.awAt, id.trans owner.id,
        sel.trans owner.sel, never_succ owner.alone fun again => was (awAt_iff.mp again).2,
        never_succ owner.owed fun past => open_ ?_⟩
      obtain ⟨ready, resp⟩ := inStep_at.bTaken_iff.mp past
      simp [split_succ, stepped, resp, ready]

/-- The splitter is here, with a transaction of this ID. -/
def Stands (c : Splitter Id World Page) (writes : Nat → WriteIn Id) (st : SplitWState) (id : Id)
    (clock : Nat) : Prop :=
  (at_ c writes clock).split.st = st ∧ (at_ c writes clock).split.id = id

theorem Stands.id_succ {st : SplitWState} {id : Id} (here : Stands c writes st id clock) (open_ : st ≠ .addr) :
    (at_ c writes (clock + 1)).split.id = id :=
  (stands (by rw [here.1]; exact open_)).2.1.trans here.2

theorem owner_of_b (response : BAt c writes clock) : ∃ taken, Owner c writes taken clock :=
  owner_of_open (by rw [(inStep_at.bTaken_iff.mp response).2]; decide)

theorem goes (st after : SplitWState) (event : Nat → Prop) {first : Nat} {id : Id}
    (now : Stands c writes st id first) (met : ∃ later, first ≤ later ∧ event later) (open_ : st ≠ .addr)
    (stays : ∀ clock, (at_ c writes clock).split.st = st → ¬ event clock →
      (at_ c writes (clock + 1)).split.st = st)
    (leaves : ∀ clock, (at_ c writes clock).split.st = st → event clock →
      (at_ c writes (clock + 1)).split.st = after) :
    ∃ there, first ≤ there ∧ event there ∧ Never event first there ∧
      (∀ clock, first ≤ clock → clock ≤ there → Stands c writes st id clock) ∧
      Stands c writes after id (there + 1) := by
  have kept (clock : Nat) (here : Stands c writes st id clock) (not : ¬ event clock) :
      Stands c writes st id (clock + 1) := ⟨stays clock here.1 not, here.id_succ open_⟩
  obtain ⟨later, from_, comes⟩ := met
  obtain ⟨there, toThere, -, here, now_, never⟩ := stands_until now from_ comes
    fun clock _ _ here not => kept clock here not
  exact ⟨there, toThere, now_, never, fun clock lo hi => stands_through now never kept lo hi,
    leaves there here.1 now_, here.id_succ open_⟩

theorem answered (patient : Patient c writes) {taken : Nat} (accepted : AwAt c writes taken) :
    Answered c writes taken := by
  have issue := split_accepted accepted
  have data : Stands c writes .data (writes taken).awid (taken + 2) := by
    unfold Stands
    rw [split_succ, stepped, issue]
    exact ⟨rfl, rfl⟩
  obtain ⟨last, toLast, lastBeat, noLast, inData, resp⟩ := goes .data .resp
    (fun clock => (writes clock).wvalid = true ∧ (writes clock).wlast = true) data
    (patient.data (taken + 2) (by rw [inStep_at.wready_eq, data.1]; rfl)) (by decide)
    (fun clock here not => by simp [split_succ, stepped, here, not])
    (fun clock here now => by simp [split_succ, stepped, here, now])
  obtain ⟨past, toOver, ready, notYet, inResp, -⟩ := goes .resp .addr
    (fun clock => (writes clock).bready = true) resp
    (patient.resp (last + 1) (by rw [inStep_at.bvalid_eq, resp.1]; rfl)) (by decide)
    (fun clock here not => by simp [split_succ, stepped, here, not])
    (fun clock here now => by simp [split_succ, stepped, here, now])
  have atIssue : (at_ c writes (taken + 1)).split.st = .issue := by rw [issue]
  have stays (clock : Nat) (after : taken < clock) (upTo : clock ≤ past) :
      (at_ c writes clock).split.st ≠ .addr ∧ ((at_ c writes clock).split.st = .data ↔
        taken + 2 ≤ clock ∧ clock ≤ last) ∧ ((at_ c writes clock).split.st = .resp ↔ last < clock) := by
    obtain rfl | early | late : clock = taken + 1 ∨ taken + 2 ≤ clock ∧ clock ≤ last ∨ last < clock := by omega
    · rw [atIssue]
      exact ⟨by decide, ⟨fun no => (nomatch no), fun le => by omega⟩, fun no => (nomatch no), fun lt => by omega⟩
    · rw [(inData clock early.1 early.2).1]
      exact ⟨by decide, ⟨fun _ => early, fun _ => rfl⟩, fun no => (nomatch no), fun lt => by omega⟩
    · rw [(inResp clock late upTo).1]
      exact ⟨by decide, ⟨fun no => (nomatch no), fun le => by omega⟩, fun _ => late, fun _ => rfl⟩
  refine ⟨last, past, by omega, toOver, ?_, ?_, ?_, ?_, ?_, ?_⟩
  · exact inStep_at.lastTaken_iff.mpr ⟨lastBeat, (inData last toLast (Nat.le_refl _)).1⟩
  · exact inStep_at.bTaken_iff.mpr ⟨ready, (inResp past toOver (Nat.le_refl _)).1⟩
  · exact (inStep_at.id (Or.inr (inResp past toOver (Nat.le_refl _)).1)).trans
      (inResp past toOver (Nat.le_refl _)).2
  · intro clock after before response
    obtain ⟨now, here⟩ := inStep_at.bTaken_iff.mp response
    exact notYet clock ((stays clock after (Nat.le_of_lt before)).2.2.mp here) before now
  · intro clock after upTo again
    exact (stays clock after (by omega)).1 (awAt_iff.mp again).2
  · intro clock after upTo beat
    obtain ⟨now, here⟩ := inStep_at.lastTaken_iff.mp beat
    have inside := (stays clock after upTo).2.1.mp here
    by_contra other
    exact noLast clock inside.1 (by omega) now

theorem valid_addressed {p : Page} (valid : ((at_ c writes clock).offered (writes clock) p).awvalid = true ∨
    ((at_ c writes clock).offered (writes clock) p).wvalid = true) : ∃ taken, taken < clock ∧
      AwAt c writes taken ∧ Never (AwAt c writes) (taken + 1) clock ∧
      p = c.target ((writes taken).awaddr.extractLsb' 12 20) := by
  have mine : (at_ c writes clock).split.st ≠ .addr ∧ (at_ c writes clock).split.sel = p := by
    simp only [offered, Bool.and_eq_true, decide_eq_true_eq] at valid
    obtain ⟨st, sel⟩ | ⟨⟨st, sel⟩, -⟩ := valid
    · exact ⟨by rw [st]; decide, sel⟩
    · exact ⟨by rw [st]; decide, sel⟩
  obtain ⟨taken, owner⟩ := owner_of_open mine.1
  exact ⟨taken, owner.before, owner.awTaken, owner.alone, mine.2.symm.trans owner.sel⟩

/-- An address accepted is offered to the slave it is for at the next clock. -/
theorem offered_accepted (taken : AwAt c writes clock) :
    (at_ c writes (clock + 1)).offered (writes (clock + 1)) (c.target ((writes clock).awaddr.extractLsb' 12 20)) =
      ⟨(writes clock).awaddr, (writes clock).awlen, (writes clock).awid, true, (writes (clock + 1)).wdata,
        (writes (clock + 1)).wstrb, (writes (clock + 1)).wlast, false, false⟩ := by
  unfold offered
  rw [split_accepted taken]
  simp

end Run

end WriteSide

/-! ### The read direction -/

namespace ReadSide

/-- The slave selected owes what the splitter waits for, with the transaction's ID, and the others owe
nothing. -/
structure InStep (s : ReadSide c) : Prop where
  quiet : s.split.st ≠ .data → s.selOwes = none
  owes : s.split.st = .data → s.selOwes.isSome = true ∧ s.rid = s.split.id
  rest : ∀ p, p ≠ s.split.sel → (c.slave p).read.owes (s.slaves p) = none

variable {s : ReadSide c} {i : ReadIn Id}

theorem inStep_reset : (reset c).InStep where
  quiet _ := (c.slave c.dflt).read.owes_start
  owes started := by contradiction
  rest p _ := (c.slave p).read.owes_start

/-! An address and a beat are taken where valid and ready meet. -/

def arTaken (i : ReadIn Id) (s : ReadSide c) : Prop := i.arvalid = true ∧ s.arready = true
def rTaken (i : ReadIn Id) (s : ReadSide c) : Bool := i.rready && s.rvalid

theorem rvalid_iff : s.rvalid = true ↔ s.split.st = .data ∧ s.selOwes = some 0 := by
  simp [rvalid, selRvalid]

theorem rTaken_iff : rTaken i s = true ↔ i.rready = true ∧ s.split.st = .data ∧ s.selOwes = some 0 := by
  rw [rTaken, Bool.and_eq_true, rvalid_iff]

variable [DecidableEq Page]

theorem rest_next {p : Page} (rest : (c.slave p).read.owes (s.slaves p) = none)
    (other : (s.offered i p).arvalid = false) : (c.slave p).read.owes ((s.next i).slaves p) = none :=
  (congrArg _ ((c.slave p).read.rest rest other)).trans rest

theorem addr_next (st : s.split.st = .addr) : (s.next i).split =
    if i.arvalid then ⟨.issue, i.araddr, i.arlen, i.arid, c.target (i.araddr.extractLsb' 12 20)⟩ else s.split := by
  show s.splitNext i = _
  rw [splitNext, st]

theorem InStep.issue_next (inStep : s.InStep) (st : s.split.st = .issue) :
    (s.next i).split = { s.split with st := .data } ∧
      (s.next i).selOwes.isSome = true ∧ (s.next i).left = s.split.len ∧
      (s.next i).rid = s.split.id := by
  have split : (s.next i).split = { s.split with st := .data } := by
    show s.splitNext i = _
    rw [splitNext, st]
    exact if_pos (decide_eq_true (inStep.quiet (by rw [st]; decide)))
  have accepted := (c.slave s.split.sel).read.accept (inStep.quiet (by rw [st]; decide))
    (show (s.offered i s.split.sel).arvalid = true by simp [offered, st])
  refine ⟨split, ?_⟩
  unfold selOwes left rid
  rw [split]
  exact accepted

theorem offered_rready (st : s.split.st = .data) : (s.offered i s.split.sel).rready = i.rready := by
  simp [offered, st]

theorem InStep.wait_next (inStep : s.InStep) (st : s.split.st = .data) (no : rTaken i s = false) :
    (s.next i).split = s.split ∧ (s.next i).left = s.left ∧
      (s.next i).rid = s.rid ∧ ∀ n, s.selOwes = some n → (s.next i).selOwes = some (n - 1) := by
  have split : (s.next i).split = s.split := by
    show s.splitNext i = _
    rw [splitNext, st]
    apply if_neg
    intro beat
    simp only [Bool.and_eq_true] at beat
    simp [rTaken, rvalid, st, beat.1.1, beat.1.2] at no
  obtain ⟨n, owed⟩ := Option.isSome_iff_exists.mp (inStep.owes st).1
  have law : (s.next i).selOwes = some (n - 1) ∧ (s.next i).left = s.left ∧
      (s.next i).rid = s.rid := by
    unfold selOwes left rid
    rw [split]
    cases n with
    | zero =>
      have low : i.rready = false := by
        simpa [rTaken, rvalid_iff.mpr ⟨st, owed⟩] using no
      exact (c.slave s.split.sel).read.hold owed (by rw [offered_rready st, low])
    | succ n => exact (c.slave s.split.sel).read.wait owed
  refine ⟨split, law.2.1, law.2.2, fun m same => ?_⟩
  obtain rfl : n = m := Option.some.inj (owed.symm.trans same)
  exact law.1

theorem beat_next {n : Nat} (beat : rTaken i s = true) (more : s.left = n + 1) :
    (s.next i).split = s.split ∧ (s.next i).selOwes.isSome = true ∧
      (s.next i).left = n ∧ (s.next i).rid = s.rid := by
  obtain ⟨ready, st, owed⟩ := rTaken_iff.mp beat
  have split : (s.next i).split = s.split := by
    show s.splitNext i = _
    rw [splitNext, st]
    exact if_neg (by simp [rlast, more])
  refine ⟨split, ?_⟩
  unfold selOwes left rid
  rw [split]
  exact (c.slave s.split.sel).read.beat owed (by rw [offered_rready st, ready]) more

theorem last_next (beat : rTaken i s = true) (last : s.left = 0) :
    (s.next i).split = { s.split with st := .addr } ∧ (s.next i).selOwes = none := by
  obtain ⟨ready, st, owed⟩ := rTaken_iff.mp beat
  have split : (s.next i).split = { s.split with st := .addr } := by
    show s.splitNext i = _
    rw [splitNext, st]
    exact if_pos (by simp [rlast, last, selRvalid, owed, ready])
  refine ⟨split, ?_⟩
  unfold selOwes
  rw [split]
  exact (c.slave s.split.sel).read.last owed (by rw [offered_rready st, ready]) last

theorem InStep.next (inStep : s.InStep) : (s.next i).InStep := by
  cases st : s.split.st with
  | addr =>
    have still (p : Page) : (c.slave p).read.owes ((s.next i).slaves p) = none := by
      apply rest_next
      · by_cases selected : p = s.split.sel
        · rw [selected]
          exact inStep.quiet (by rw [st]; decide)
        · exact inStep.rest p selected
      · simp [offered, st]
    refine ⟨fun _ => still _, fun started => ?_, fun p _ => still p⟩
    rw [addr_next st] at started
    split at started
    · contradiction
    · rw [st] at started
      contradiction
  | issue =>
    obtain ⟨split, owes, -, id⟩ := inStep.issue_next (i := i) st
    refine ⟨fun no => absurd (by rw [split]) no, fun _ => ⟨owes, by rw [id, split]⟩, fun p other => ?_⟩
    rw [split] at other
    exact rest_next (inStep.rest p other) (by simp [offered, Ne.symm other])
  | data =>
    have others (p : Page) (other : p ≠ s.split.sel) :
        (c.slave p).read.owes ((s.next i).slaves p) = none :=
      rest_next (inStep.rest p other) (by simp [offered, st])
    obtain ⟨owed, id⟩ := inStep.owes st
    cases beat : rTaken i s with
    | false =>
      obtain ⟨split, -, rid, owes⟩ := inStep.wait_next st beat
      obtain ⟨n, is⟩ := Option.isSome_iff_exists.mp owed
      refine ⟨fun no => absurd (by rw [split, st]) no, fun _ => ⟨by rw [owes n is]; rfl, ?_⟩, fun p other => ?_⟩
      · rw [rid, id, split]
      · exact others p (by rw [split] at other; exact other)
    | true =>
      cases left : s.left with
      | zero =>
        obtain ⟨split, owes⟩ := last_next beat left
        refine ⟨fun _ => owes, fun started => ?_, fun p other => ?_⟩
        · rw [split] at started
          contradiction
        · exact others p (by rw [split] at other; exact other)
      | succ n =>
        obtain ⟨split, owes, -, rid⟩ := beat_next beat left
        refine ⟨fun no => absurd (by rw [split, st]) no, fun _ => ⟨owes, ?_⟩, fun p other => ?_⟩
        · rw [rid, id, split]
        · exact others p (by rw [split] at other; exact other)

section Run

variable (c) (reads : Nat → ReadIn Id)

/-- The read direction at a clock. -/
def at_ (clock : Nat) : ReadSide c := trace (fun i s => next i s) (reset c) reads clock

/-- A master that takes the beat it is given. -/
def Patient : Prop :=
  ∀ clock, (at_ c reads clock).rvalid = true → ∃ later, clock ≤ later ∧ (reads later).rready = true

def ArAt (clock : Nat) : Prop := arTaken (reads clock) (at_ c reads clock)
def RAt (clock : Nat) : Prop := rTaken (reads clock) (at_ c reads clock) = true

/-- The beats before a clock. -/
def beats (clock : Nat) : Nat :=
  Nat.count (fun tick => rTaken (reads tick) (at_ c reads tick) = true) clock

/-- An address accepted is answered: as many beats as were asked for and the one more, with its ID, the last
of them alone marked so, and no other address before they are over. -/
def Answered (taken : Nat) : Prop :=
  ∃ last, taken < last ∧ RAt c reads last ∧
    (∀ clock, taken < clock → clock ≤ last → RAt c reads clock →
      (at_ c reads clock).rid = (reads taken).arid ∧
        ((at_ c reads clock).rlast = true ↔ clock = last)) ∧
    beats c reads (last + 1) = beats c reads (taken + 1) + ((reads taken).arlen + 1) ∧
    Never (ArAt c reads) (taken + 1) (last + 1)

/-- The transaction of an address accepted before, that no other and no last beat has followed. -/
structure Owner (taken clock : Nat) : Prop where
  before : taken < clock
  arTaken : ArAt c reads taken
  arAt : (at_ c reads clock).split.arAt = (reads taken).araddr
  id : (at_ c reads clock).split.id = (reads taken).arid
  sel : (at_ c reads clock).split.sel = c.target ((reads taken).araddr.extractLsb' 12 20)
  alone : Never (ArAt c reads) (taken + 1) clock
  owed : Never (fun tick => RAt c reads tick ∧ (at_ c reads tick).rlast = true) (taken + 1) clock

variable {c reads} {clock : Nat}

theorem inStep_at : (at_ c reads clock).InStep := by
  induction clock with
  | zero => exact inStep_reset
  | succ clock ih => exact ih.next

theorem arAt_iff : ArAt c reads clock ↔
    (reads clock).arvalid = true ∧ (at_ c reads clock).split.st = .addr := by
  simp [ArAt, arTaken, arready]

theorem split_accepted (taken : ArAt c reads clock) : (at_ c reads (clock + 1)).split =
    ⟨.issue, (reads clock).araddr, (reads clock).arlen, (reads clock).arid,
      c.target ((reads clock).araddr.extractLsb' 12 20)⟩ := by
  obtain ⟨valid, addr⟩ := arAt_iff.mp taken
  exact (addr_next addr).trans (if_pos valid)

theorem stands (open_ : (at_ c reads clock).split.st ≠ .addr) :
    (at_ c reads (clock + 1)).split.arAt = (at_ c reads clock).split.arAt ∧
      (at_ c reads (clock + 1)).split.id = (at_ c reads clock).split.id ∧
      (at_ c reads (clock + 1)).split.sel = (at_ c reads clock).split.sel := by
  show ((at_ c reads clock).splitNext (reads clock)).arAt = _ ∧ _ ∧ _
  have split : (at_ c reads (clock + 1)).split = (at_ c reads clock).splitNext (reads clock) := rfl
  rw [split, splitNext]
  cases st : (at_ c reads clock).split.st with
  | addr => exact absurd st open_
  | issue | data => dsimp only; split <;> exact ⟨rfl, rfl, rfl⟩

theorem owner_of_open (open_ : (at_ c reads clock).split.st ≠ .addr) :
    ∃ taken, Owner c reads taken clock := by
  induction clock with
  | zero => exact absurd rfl open_
  | succ clock ih =>
    by_cases was : (at_ c reads clock).split.st = .addr
    · have taken : ArAt c reads clock := by
        refine arAt_iff.mpr ⟨?_, was⟩
        by_contra low
        apply open_
        exact (congrArg SplitRead.st ((addr_next was).trans (if_neg low))).trans was
      have split := split_accepted taken
      exact ⟨clock, Nat.lt_succ_self clock, taken, by rw [split], by rw [split], by rw [split], never_self _ _,
        never_self _ _⟩
    · obtain ⟨taken, owner⟩ := ih was
      obtain ⟨arAt, id, sel⟩ := stands was
      refine ⟨taken, Nat.lt_succ_of_lt owner.before, owner.arTaken, arAt.trans owner.arAt, id.trans owner.id,
        sel.trans owner.sel, never_succ owner.alone fun again => was (arAt_iff.mp again).2,
        never_succ owner.owed fun past => open_ ?_⟩
      have ended := last_next past.1 (of_decide_eq_true past.2)
      exact congrArg SplitRead.st ended.1

theorem owner_of_r (beat : RAt c reads clock) : ∃ taken, Owner c reads taken clock :=
  owner_of_open (by rw [(rTaken_iff.mp beat).2.1]; decide)

theorem valid_addressed {p : Page} (valid : ((at_ c reads clock).offered (reads clock) p).arvalid = true) :
    ∃ taken, taken < clock ∧ ArAt c reads taken ∧
      Never (ArAt c reads) (taken + 1) clock ∧
      p = c.target ((reads taken).araddr.extractLsb' 12 20) := by
  simp only [offered, Bool.and_eq_true, decide_eq_true_eq] at valid
  have open_ : (at_ c reads clock).split.st ≠ .addr := by
    rw [valid.1]
    decide
  obtain ⟨taken, owner⟩ := owner_of_open open_
  exact ⟨taken, owner.before, owner.arTaken, owner.alone, valid.2.symm.trans owner.sel⟩

/-- An address accepted is offered to the slave it is for at the next clock. -/
theorem offered_accepted (taken : ArAt c reads clock) :
    (at_ c reads (clock + 1)).offered (reads (clock + 1)) (c.target ((reads clock).araddr.extractLsb' 12 20)) =
      ⟨(reads clock).araddr, (reads clock).arlen, (reads clock).arid, true, false⟩ := by
  unfold offered
  rw [split_accepted taken]
  simp

/-- A transaction of this ID with so many beats owed after the next. -/
def Owes (c : Splitter Id World Page) (reads : Nat → ReadIn Id) (id : Id)
    (more clock : Nat) : Prop :=
  (at_ c reads clock).split.st = .data ∧ (at_ c reads clock).split.id = id ∧
    (at_ c reads clock).left = more

section Owes

variable {id : Id} {more : Nat}

theorem Owes.rid (owes : Owes c reads id more clock) : (at_ c reads clock).rid = id :=
  (inStep_at.owes owes.1).2.trans owes.2.1

theorem Owes.wait (owes : Owes c reads id more clock) (no : ¬ RAt c reads clock) :
    Owes c reads id more (clock + 1) ∧ ∀ n, (at_ c reads clock).selOwes = some n →
      (at_ c reads (clock + 1)).selOwes = some (n - 1) := by
  obtain ⟨split, left, -, next⟩ := inStep_at.wait_next owes.1 (eq_false_of_ne_true no)
  have split' : (at_ c reads (clock + 1)).split = (at_ c reads clock).split := split
  exact ⟨⟨by rw [split', owes.1], by rw [split', owes.2.1], left.trans owes.2.2⟩, next⟩

theorem Owes.beat (patient : Patient c reads) (owes : Owes c reads id more clock) :
    ∃ there, clock ≤ there ∧ RAt c reads there ∧ Never (RAt c reads) clock there ∧
      ∀ tick, clock ≤ tick → tick ≤ there → Owes c reads id more tick := by
  have kept (clock : Nat) (owes : Owes c reads id more clock) (no : ¬ RAt c reads clock) :=
    (owes.wait no).1
  obtain ⟨wait, waits⟩ := Option.isSome_iff_exists.mp (inStep_at.owes owes.1).1
  -- The slave is at its beat in so many ticks, and then the master takes it.
  induction wait generalizing clock with
  | zero =>
    obtain ⟨later, after, ready⟩ := patient clock (rvalid_iff.mpr ⟨owes.1, waits⟩)
    obtain ⟨there, toThere, -, here, now, never⟩ := @stands_until (fun tick => (reads tick).rready = true) clock
      (fun tick => Owes c reads id more tick ∧ (at_ c reads tick).selOwes = some 0) later
      ⟨owes, waits⟩ after ready
      fun tick _ _ here no => by
        have none_ : ¬ RAt c reads tick := fun beat => no (rTaken_iff.mp beat).1
        exact ⟨kept tick here.1 none_, (here.1.wait none_).2 0 here.2⟩
    have quiet : Never (RAt c reads) clock there :=
      fun tick lo hi beat => never tick lo hi (rTaken_iff.mp beat).1
    exact ⟨there, toThere, rTaken_iff.mpr ⟨now, here.1.1, here.2⟩, quiet,
      fun tick lo hi => stands_through owes quiet kept lo hi⟩
  | succ wait ih =>
    have none_ : ¬ RAt c reads clock := by
      intro beat
      have zero := (rTaken_iff.mp beat).2.2
      rw [waits] at zero
      exact absurd zero (by simp)
    obtain ⟨there, toThere, beat, never, through⟩ := ih (owes.wait none_).1 ((owes.wait none_).2 _ waits)
    refine ⟨there, Nat.le_of_succ_le toThere, beat, fun tick lo hi => ?_, fun tick lo hi => ?_⟩
    · obtain rfl | after : tick = clock ∨ clock + 1 ≤ tick := by omega
      · exact none_
      · exact never tick after hi
    · obtain rfl | after : tick = clock ∨ clock + 1 ≤ tick := by omega
      · exact owes
      · exact through tick after hi

theorem beats_beat (beat : RAt c reads clock) :
    beats c reads (clock + 1) = beats c reads clock + 1 :=
  Nat.count_succ_eq_succ_count_iff.mpr beat

theorem beats_quiet (no : ¬ RAt c reads clock) :
    beats c reads (clock + 1) = beats c reads clock :=
  Nat.count_succ_eq_count_iff.mpr no

theorem beats_never {later : Nat} (after : clock ≤ later) (never : Never (RAt c reads) clock later) :
    beats c reads later = beats c reads clock := by
  induction later, after using Nat.le_induction with
  | base => rfl
  | succ later after ih =>
    rw [beats_quiet (never later after (Nat.lt_succ_self later))]
    exact ih fun tick lo hi => never tick lo (Nat.lt_succ_of_lt hi)

/-- A read's beats all come, under its own id. -/
theorem Owes.all (patient : Patient c reads) (owes : Owes c reads id more clock) :
    ∃ last, clock ≤ last ∧ RAt c reads last ∧ (at_ c reads last).left = 0 ∧
      (∀ tick, clock ≤ tick → tick ≤ last → (at_ c reads tick).split.st = .data ∧
        (RAt c reads tick → (at_ c reads tick).rid = id ∧
          (tick ≠ last → (at_ c reads tick).left ≠ 0))) ∧
      beats c reads (last + 1) = beats c reads clock + (more + 1) := by
  induction more generalizing clock with
  | zero =>
    obtain ⟨there, toThere, beat, never, through⟩ := owes.beat patient
    refine ⟨there, toThere, beat, (through there toThere (Nat.le_refl _)).2.2, fun tick lo hi => ?_, ?_⟩
    · refine ⟨(through tick lo hi).1, fun taken => ⟨(through tick lo hi).rid, fun other => ?_⟩⟩
      exact absurd taken (never tick lo (Nat.lt_of_le_of_ne hi other))
    · rw [beats_beat beat, beats_never toThere never]
  | succ more ih =>
    obtain ⟨there, toThere, beat, never, through⟩ := owes.beat patient
    have here := through there toThere (Nat.le_refl _)
    obtain ⟨split, -, left, -⟩ := beat_next beat here.2.2
    have split' : (at_ c reads (there + 1)).split = (at_ c reads there).split := split
    obtain ⟨last, toLast, final, none_, inside, count⟩ :=
      ih (show Owes c reads id more (there + 1) from
        ⟨by rw [split', here.1], by rw [split', here.2.1], left⟩)
    refine ⟨last, by omega, final, none_, fun tick lo hi => ?_, ?_⟩
    · obtain early | late : tick ≤ there ∨ there + 1 ≤ tick := by omega
      · refine ⟨(through tick lo early).1, fun _ => ⟨(through tick lo early).rid, fun _ => ?_⟩⟩
        rw [(through tick lo early).2.2]
        exact Nat.succ_ne_zero more
      · exact inside tick late hi
    · rw [count, beats_beat beat, beats_never toThere never]
      omega

end Owes

theorem answered (patient : Patient c reads) {taken : Nat} (accepted : ArAt c reads taken) :
    Answered c reads taken := by
  have issue := split_accepted accepted
  have stIssue : (at_ c reads (taken + 1)).split.st = .issue := by rw [issue]
  obtain ⟨split, -, left, -⟩ := inStep_at.issue_next (i := reads (taken + 1)) stIssue
  have split' : (at_ c reads (taken + 2)).split = _ := split
  have left' : (at_ c reads (taken + 2)).left = _ := left
  have owes : Owes c reads (reads taken).arid (reads taken).arlen (taken + 2) :=
    ⟨by rw [split'], by rw [split', issue], by rw [left', issue]⟩
  obtain ⟨last, toLast, final, none_, inside, count⟩ := owes.all patient
  have noBeat : ¬ RAt c reads (taken + 1) := fun beat => by
    have data := (rTaken_iff.mp beat).2.1
    rw [stIssue] at data
    exact absurd data (by decide)
  refine ⟨last, by omega, final, fun clock after upTo beat => ?_, ?_, fun clock after upTo again => ?_⟩
  · obtain rfl | late : clock = taken + 1 ∨ taken + 2 ≤ clock := by omega
    · exact absurd beat noBeat
    · obtain ⟨rid, more⟩ := (inside clock late upTo).2 beat
      refine ⟨rid, fun marked => ?_, fun same => ?_⟩
      · by_contra other
        exact more other (of_decide_eq_true marked)
      · rw [same]
        exact decide_eq_true none_
  · rw [count, beats_quiet noBeat]
  · obtain rfl | late : clock = taken + 1 ∨ taken + 2 ≤ clock := by omega
    · exact absurd (stIssue.symm.trans (arAt_iff.mp again).2) (by decide)
    · exact absurd ((inside clock late (by omega)).1.symm.trans (arAt_iff.mp again).2) (by decide)

end Run

end ReadSide

/-! ### The port -/

namespace GpPort

variable [DecidableEq Page]

section Run

variable (c) (ticks : Nat → GpTick Id World Page)

/-- The port at a clock. -/
def at_ (clock : Nat) : GpPort c := trace (fun i s => next i s) (reset c) ticks clock

def writes : Nat → WriteIn Id := fun clock => (ticks clock).write
def reads : Nat → ReadIn Id := fun clock => (ticks clock).read

variable {c ticks} {clock : Nat}

theorem w_at : (at_ c ticks clock).w = WriteSide.at_ c (writes ticks) clock := by
  induction clock with
  | zero => rfl
  | succ clock ih =>
    show ((at_ c ticks clock).w).next _ = _
    rw [ih]
    rfl

theorem r_at : (at_ c ticks clock).r = ReadSide.at_ c (reads ticks) clock := by
  induction clock with
  | zero => rfl
  | succ clock ih =>
    show ((at_ c ticks clock).r).next _ = _
    rw [ih]
    rfl

/-- Where addresses belong is where the splitter takes them. -/
def Decodes (c : Splitter Id World Page) (home : BitVec 32 → Page → Prop) : Prop :=
  ∀ {addr p}, home addr p ↔ c.target (addr.extractLsb' 12 20) = p

/-- No write of a run is for the page. -/
def NoWrite (c : Splitter Id World Page) (home : BitVec 32 → Page → Prop) (writes : Nat → WriteIn Id)
    (p : Page) : Prop :=
  ∀ clock, WriteSide.AwAt c writes clock → ¬home (writes clock).awaddr p

/-- No read of a run is for the page. -/
def NoRead (c : Splitter Id World Page) (home : BitVec 32 → Page → Prop) (reads : Nat → ReadIn Id)
    (p : Page) : Prop :=
  ∀ clock, ReadSide.ArAt c reads clock → ¬home (reads clock).araddr p

variable {home : BitVec 32 → Page → Prop} (decodes : Decodes c home)

include decodes

theorem NoWrite.quiet {p : Page} {writes : Nat → WriteIn Id} (noWrite : NoWrite c home writes p) (clock : Nat) :
    ((WriteSide.at_ c writes clock).offered (writes clock) p).awvalid = false ∧
      ((WriteSide.at_ c writes clock).offered (writes clock) p).wvalid = false := by
  have never (valid : ((WriteSide.at_ c writes clock).offered (writes clock) p).awvalid = true ∨
      ((WriteSide.at_ c writes clock).offered (writes clock) p).wvalid = true) : False := by
    obtain ⟨taken, -, accepted, -, same⟩ := WriteSide.valid_addressed valid
    exact noWrite taken accepted (decodes.mpr same.symm)
  exact ⟨eq_false_of_ne_true fun high => never (Or.inl high), eq_false_of_ne_true fun high => never (Or.inr high)⟩

theorem NoWrite.slave {p : Page} {writes : Nat → WriteIn Id} (noWrite : NoWrite c home writes p) (clock : Nat) :
    (WriteSide.at_ c writes clock).slaves p = (c.slave p).write.start := by
  induction clock with
  | zero => rfl
  | succ clock ih =>
    have next : (WriteSide.at_ c writes (clock + 1)).slaves p = (c.slave p).write.next
      ((WriteSide.at_ c writes clock).offered (writes clock) p) ((WriteSide.at_ c writes clock).slaves p) := rfl
    rw [next, (c.slave p).write.rest (by rw [ih]; exact (c.slave p).write.st_start) (noWrite.quiet decodes clock).1, ih]

theorem NoRead.slave {p : Page} {reads : Nat → ReadIn Id} (noRead : NoRead c home reads p) (clock : Nat) :
    (ReadSide.at_ c reads clock).slaves p = (c.slave p).read.start := by
  induction clock with
  | zero => rfl
  | succ clock ih =>
    have quiet : ((ReadSide.at_ c reads clock).offered (reads clock) p).arvalid = false := by
      apply eq_false_of_ne_true
      intro high
      obtain ⟨taken, -, accepted, -, same⟩ := ReadSide.valid_addressed high
      exact noRead taken accepted (decodes.mpr same.symm)
    have next : (ReadSide.at_ c reads (clock + 1)).slaves p = (c.slave p).read.next
      ((ReadSide.at_ c reads clock).offered (reads clock) p) ((ReadSide.at_ c reads clock).slaves p) := rfl
    rw [next, (c.slave p).read.rest (by rw [ih]; exact (c.slave p).read.owes_start) quiet, ih]

omit decodes

/-- The world and the fabric's reset are the same for the page in both runs. -/
structure SameFor (p : Page) (ticks ticks' : Nat → GpTick Id World Page) : Prop where
  fabricRst : ∀ clock, (ticks clock).fabricRst = (ticks' clock).fabricRst
  world : ∀ clock, (ticks clock).world p = (ticks' clock).world p

variable {p : Page} {ticks' : Nat → GpTick Id World Page}

theorem block_succ : (at_ c ticks (clock + 1)).block p = (c.slave p).next (ticks clock).fabricRst
    ((ticks clock).world p) ((at_ c ticks clock).seam (ticks clock) p) ((at_ c ticks clock).block p) := rfl

theorem rdataQ_succ : (at_ c ticks (clock + 1)).rdataQ p = (c.slave p).read.sample
    ((c.slave p).answer ((ticks clock).world p) ((at_ c ticks clock).seam (ticks clock) p)
      ((at_ c ticks clock).block p)) ((at_ c ticks clock).r.slaves p) ((at_ c ticks clock).rdataQ p) := rfl

theorem block_eq (same : SameFor p ticks ticks')
    (seams : ∀ clock, (at_ c ticks clock).seam (ticks clock) p = (at_ c ticks' clock).seam (ticks' clock) p)
    (readers : ∀ clock, (at_ c ticks clock).r.slaves p = (at_ c ticks' clock).r.slaves p) (clock : Nat) :
    (at_ c ticks clock).block p = (at_ c ticks' clock).block p ∧
      (at_ c ticks clock).rdataQ p = (at_ c ticks' clock).rdataQ p := by
  induction clock with
  | zero => exact ⟨rfl, rfl⟩
  | succ clock ih =>
    constructor
    · rw [block_succ, block_succ, seams clock, same.fabricRst clock, same.world clock, ih.1]
    · rw [rdataQ_succ, rdataQ_succ, seams clock, same.world clock, ih.1, ih.2, readers clock]

include decodes

theorem apart_of_writes (same : SameFor p ticks ticks') (sameReads : reads ticks = reads ticks')
    (noWrite : NoWrite c home (writes ticks) p) (noWrite' : NoWrite c home (writes ticks') p) (clock : Nat) :
    (at_ c ticks clock).block p = (at_ c ticks' clock).block p ∧
      (at_ c ticks clock).rdataQ p = (at_ c ticks' clock).rdataQ p := by
  refine block_eq same (fun clock => ?_) (fun clock => by rw [r_at, r_at, sameReads]) clock
  have idle := (c.slave p).write.seam_idle (noWrite.quiet decodes clock).2 (noWrite'.quiet decodes clock).2
    (s := (c.slave p).write.start)
  unfold seam
  rw [w_at, w_at, r_at, r_at, sameReads, noWrite.slave decodes clock, noWrite'.slave decodes clock]
  exact congrArg (fun it => Seam.mk it.1 it.2 _ _) idle

theorem apart_of_reads (same : SameFor p ticks ticks') (sameWrites : writes ticks = writes ticks')
    (noRead : NoRead c home (reads ticks) p) (noRead' : NoRead c home (reads ticks') p) (clock : Nat) :
    (at_ c ticks clock).block p = (at_ c ticks' clock).block p := by
  have readers (clock : Nat) : (at_ c ticks clock).r.slaves p = (at_ c ticks' clock).r.slaves p := by
    rw [r_at, r_at, noRead.slave decodes clock, noRead'.slave decodes clock]
  refine (block_eq same (fun clock => ?_) readers clock).1
  have write : (ticks clock).write = (ticks' clock).write := congrFun sameWrites clock
  unfold seam
  rw [readers clock, w_at, w_at, sameWrites, write]

end Run

/-- What is promised of a run of a port whose pages are at home in `home`: the two directions each a machine of
its own channels; every address accepted answered, and every answer owed to one; an address offered to the slave
of its page, and no other slave offered anything; and a page's block and its answers the same whatever is
written to other pages, and its block whatever is read of them. -/
structure AnswersOnce (c : Splitter Id World Page) (home : BitVec 32 → Page → Prop)
    (ticks : Nat → GpTick Id World Page) : Prop where
  w : ∀ clock, (at_ c ticks clock).w = WriteSide.at_ c (writes ticks) clock
  r : ∀ clock, (at_ c ticks clock).r = ReadSide.at_ c (reads ticks) clock
  write : ∀ taken, WriteSide.AwAt c (writes ticks) taken → WriteSide.Answered c (writes ticks) taken
  response : ∀ clock, WriteSide.BAt c (writes ticks) clock → ∃ taken, WriteSide.Owner c (writes ticks) taken clock
  read : ∀ taken, ReadSide.ArAt c (reads ticks) taken → ReadSide.Answered c (reads ticks) taken
  beat : ∀ clock, ReadSide.RAt c (reads ticks) clock → ∃ taken, ReadSide.Owner c (reads ticks) taken clock
  awgoes : ∀ taken p, WriteSide.AwAt c (writes ticks) taken → home (ticks taken).write.awaddr p →
    (at_ c ticks (taken + 1)).w.offered (ticks (taken + 1)).write p =
      ⟨(ticks taken).write.awaddr, (ticks taken).write.awlen, (ticks taken).write.awid, true,
        (ticks (taken + 1)).write.wdata, (ticks (taken + 1)).write.wstrb, (ticks (taken + 1)).write.wlast, false, false⟩
  awvalid : ∀ clock p, ((at_ c ticks clock).w.offered (ticks clock).write p).awvalid = true ∨
      ((at_ c ticks clock).w.offered (ticks clock).write p).wvalid = true → ∃ taken, taken < clock ∧
    WriteSide.AwAt c (writes ticks) taken ∧ Never (WriteSide.AwAt c (writes ticks)) (taken + 1) clock ∧
    home (ticks taken).write.awaddr p
  argoes : ∀ taken p, ReadSide.ArAt c (reads ticks) taken → home (ticks taken).read.araddr p →
    (at_ c ticks (taken + 1)).r.offered (ticks (taken + 1)).read p =
      ⟨(ticks taken).read.araddr, (ticks taken).read.arlen, (ticks taken).read.arid, true, false⟩
  arvalid : ∀ clock p, ((at_ c ticks clock).r.offered (ticks clock).read p).arvalid = true → ∃ taken,
    taken < clock ∧ ReadSide.ArAt c (reads ticks) taken ∧
    Never (ReadSide.ArAt c (reads ticks)) (taken + 1) clock ∧
    home (ticks taken).read.araddr p
  writesApart : ∀ ticks' p, SameFor p ticks ticks' → reads ticks = reads ticks' →
    NoWrite c home (writes ticks) p → NoWrite c home (writes ticks') p → ∀ clock,
      (at_ c ticks clock).block p = (at_ c ticks' clock).block p ∧
        (at_ c ticks clock).rdataQ p = (at_ c ticks' clock).rdataQ p
  readsApart : ∀ ticks' p, SameFor p ticks ticks' → writes ticks = writes ticks' →
    NoRead c home (reads ticks) p → NoRead c home (reads ticks') p → ∀ clock,
      (at_ c ticks clock).block p = (at_ c ticks' clock).block p

/-- A master that gives the data it owes and takes the answers it is given. -/
structure Patient (c : Splitter Id World Page) (ticks : Nat → GpTick Id World Page) : Prop where
  write : WriteSide.Patient c (writes ticks)
  read : ReadSide.Patient c (reads ticks)

/-- Every transaction is answered once. -/
theorem answersOnce {home : BitVec 32 → Page → Prop} (decodes : Decodes c home)
    {ticks : Nat → GpTick Id World Page} (patient : Patient c ticks) : AnswersOnce c home ticks where
  w _ := w_at
  r _ := r_at
  write _ := WriteSide.answered patient.write
  response _ := WriteSide.owner_of_b
  read _ := ReadSide.answered patient.read
  beat _ := ReadSide.owner_of_r
  awgoes taken p accepted belongs := by
    rw [w_at, ← decodes.mp belongs]
    exact WriteSide.offered_accepted accepted
  awvalid clock p valid := by
    rw [w_at] at valid
    obtain ⟨taken, before, accepted, alone, same⟩ := WriteSide.valid_addressed valid
    exact ⟨taken, before, accepted, alone, decodes.mpr same.symm⟩
  argoes taken p accepted belongs := by
    rw [r_at, ← decodes.mp belongs]
    exact ReadSide.offered_accepted accepted
  arvalid clock p valid := by
    rw [r_at] at valid
    obtain ⟨taken, before, accepted, alone, same⟩ := ReadSide.valid_addressed valid
    exact ⟨taken, before, accepted, alone, decodes.mpr same.symm⟩
  writesApart _ _ := apart_of_writes decodes
  readsApart _ _ := apart_of_reads decodes

end GpPort

section Ports

variable (b₀ : Gp0Bases) (b₁ : Gp1Bases) (blocks₀ : Gp0Page → RegisterBlock World)
  (blocks₁ : Gp1Page → RegisterBlock World) (id : Id)

/-- Both ports answer every access once, in every run, the fabric's reset at any clocks of it. -/
theorem gp_ports_answer_once (ticks₀ : Nat → GpTick Id World Gp0Page) (ticks₁ : Nat → GpTick Id World Gp1Page)
    (patient₀ : GpPort.Patient (gp0Split b₀ blocks₀ id) ticks₀)
    (patient₁ : GpPort.Patient (gp1Split b₁ blocks₁ id) ticks₁) :
    GpPort.AnswersOnce (gp0Split b₀ blocks₀ id) b₀.Home ticks₀ ∧
      GpPort.AnswersOnce (gp1Split b₁ blocks₁ id) b₁.Home ticks₁ :=
  ⟨GpPort.answersOnce Gp0Bases.home_iff patient₀, GpPort.answersOnce Gp1Bases.home_iff patient₁⟩

/-- A master that is ready at every clock, reading and writing one page with the fabric in reset. -/
def eager (Page : Type) : Nat → GpTick Nat Unit Page := fun clock =>
  ⟨⟨0x40001004, 0, clock, true, 0, 0, true, true, true⟩, ⟨0x80001000, 1, clock, true, true⟩, true, fun _ => ()⟩

/-- A block of one word. -/
def wordBlock : RegisterBlock Unit where
  State := BitVec 32
  first := 0
  next rst _ seam word := if rst then 0 else (seam.wr.map Prod.fst).getD word
  answer _ _ word := word

/-- Of such a master every access is answered once. -/
theorem gp_ports_answer_once_eager :
    GpPort.AnswersOnce (gp0Split {} (fun _ => wordBlock) 0) ({} : Gp0Bases).Home (eager Gp0Page) ∧
      GpPort.AnswersOnce (gp1Split {} (fun _ => wordBlock) 0) ({} : Gp1Bases).Home (eager Gp1Page) :=
  gp_ports_answer_once {} {} (fun _ => wordBlock) (fun _ => wordBlock) 0 (eager Gp0Page) (eager Gp1Page)
    ⟨⟨fun clock _ => ⟨clock, Nat.le_refl _, rfl, rfl⟩, fun clock _ => ⟨clock, Nat.le_refl _, rfl⟩⟩,
      fun clock _ => ⟨clock, Nat.le_refl _, rfl⟩⟩
    ⟨⟨fun clock _ => ⟨clock, Nat.le_refl _, rfl, rfl⟩, fun clock _ => ⟨clock, Nat.le_refl _, rfl⟩⟩,
      fun clock _ => ⟨clock, Nat.le_refl _, rfl⟩⟩

end Ports

end MuirFpga.Plumbing
