import MuirFpga.Quux.Tables
import Mathlib.Tactic.SplitIfs

/-!
# The write-back of the accessed, modified and ephemeral bits

A start whose entry lacks a bit it needs has the bit written: into the TLB at once, and into the page's
word in main memory, read through the directory and posted with the bits, or refused and counted. The
start is held meanwhile, over as many clocks as the table's words and the queue take.
-/

namespace MuirFpga.Quux

open Sync

namespace Mmu

variable {frames : BitVec 18} {m : Mmu} {i : MmuInput}

/-- WB's start is to be written back if it needs to be. -/
def Asks (i : MmuInput) : Prop := i.kReq = true ∧ region i.kVa = .paged

theorem asked_guard (asks : Asks i) : ¬ (!(i.kReq && region i.kVa == .paged)) = true := by
  rw [asks.1, asks.2]
  decide

theorem back_nothing (asks : Asks i) (idle : m.kState = .idle) (none_ : m.needed i = 0#30) :
    m.back frames i = { m.backStay with bits := m.needed i } := by
  unfold back
  rw [if_neg (asked_guard asks), idle]
  exact if_pos none_

theorem back_undirected (asks : Asks i) (idle : m.kState = .idle) (some_ : m.needed i ≠ 0#30)
    (none_ : m.directory = 0#18) :
    m.back frames i = { m.backStay with bits := m.needed i, or := true, refused := true } := by
  unfold back
  rw [if_neg (asked_guard asks), idle]
  exact (if_neg some_).trans (if_pos none_)

theorem back_begins (asks : Asks i) (idle : m.kState = .idle) (some_ : m.needed i ≠ 0#30)
    (base : m.directory ≠ 0#18) :
    m.back frames i = { m.backStay with
      bits := m.needed i, or := true, state := .dir, tstart := true
      taddr := PageTable.dirAt m.directory i.kVa, hold := true } := by
  unfold back
  rw [if_neg (asked_guard asks), idle]
  exact (if_neg some_).trans (if_neg base)

theorem back_dir_waits (asks : Asks i) (dir : m.kState = .dir) (waits : i.tReady = false) :
    m.back frames i = { m.backStay with hold := true } := by
  unfold back
  rw [if_neg (asked_guard asks), dir]
  exact if_pos (by rw [waits]; rfl)

theorem back_dir_lands (asks : Asks i) (dir : m.kState = .dir) (lands : i.tReady = true)
    (own : (m.wa frames i).took = false) :
    m.back frames i =
      if PageTable.Names frames i.tWord then
        { m.backStay with
          page := PageTable.pageAt i.tWord i.kVa, state := .page, tstart := true
          taddr := PageTable.pageAt i.tWord i.kVa, hold := true }
      else { m.backStay with state := .idle, refused := true } := by
  unfold back
  rw [if_neg (asked_guard asks), dir]
  dsimp only
  rw [if_neg (by rw [lands, own]; decide)]
  by_cases names : PageTable.Names frames i.tWord
  · rw [if_pos names, if_neg (PageTable.names_iff.mp names)]
    rfl
  · rw [if_neg names, if_pos (Decidable.not_not.mp (mt PageTable.names_iff.mpr names))]

theorem back_page_waits (asks : Asks i) (page : m.kState = .page) (fresh : m.kWordV = false)
    (waits : i.tReady = false) : m.back frames i = { m.backStay with hold := true } := by
  unfold back
  rw [if_neg (asked_guard asks), page]
  exact if_pos (by rw [fresh, waits]; rfl)

theorem back_page_had (asks : Asks i) (page : m.kState = .page)
    (had : m.kWordV = true ∨ i.tReady = true ∧ (m.wa frames i).took = false) {word : BitVec 40}
    (word_eq : (if m.kWordV then m.kWord else i.tWord) = word) :
    m.back frames i =
      if PageTable.Writes (i.kEntry.extractLsb' 0 18) word then
        if i.postOk then
          { m.backStay with
            postReq := true, postWord := word ||| (0#10 ++ m.kBits), state := .idle, wordV := false }
        else
          { m.backStay with
            postReq := true, postWord := word ||| (0#10 ++ m.kBits), hold := true, wordV := true
            word := word }
      else { m.backStay with state := .idle, wordV := false, refused := true } := by
  have has : ¬ (!(m.kWordV || (i.tReady && !(m.wa frames i).took))) = true := by
    rcases had with saved | ⟨lands, own⟩
    · rw [saved]
      exact Bool.false_ne_true
    · rw [lands, own]
      cases m.kWordV <;> decide
  have writes : PageTable.Writes (i.kEntry.extractLsb' 0 18) word ↔
      ¬ (¬ (2#3 ≤ status word ∧ status word ≤ 6#3) ∨ word.extractLsb' 0 18 ≠ i.kEntry.extractLsb' 0 18) := by
    rw [not_or, Decidable.not_not, Decidable.not_not]
    rfl
  unfold back
  rw [if_neg (asked_guard asks), page]
  dsimp only
  rw [if_neg has, word_eq]
  by_cases good : PageTable.Writes (i.kEntry.extractLsb' 0 18) word
  · rw [if_pos good, if_neg (writes.mp good)]
    cases i.postOk <;> rfl
  · rw [if_neg good, if_pos (Decidable.not_not.mp (mt writes.mpr good))]

theorem wa_took_idle (idle : m.wState = .idle) : (m.wa frames i).took = false := by
  unfold wa
  rw [idle, WalkCall.call_idle]
  split_ifs <;> rfl

theorem wa_state_idle (idle : m.wState = .idle) (free : m.aHold frames i = false) :
    (m.wa frames i).state = .idle := by
  unfold aHold at free
  unfold wa at free ⊢
  by_cases called : (aLook i && !m.aHit i) = true
  · rw [if_pos called, called, Bool.true_and, Bool.not_eq_false'] at free
    rw [if_pos called]
    rw [idle, WalkCall.call_idle] at free ⊢
    by_cases none_ : m.directory = 0#18
    · rw [if_pos none_]
      rfl
    · rw [if_neg none_] at free
      exact absurd free Bool.false_ne_true
  · rw [if_neg called]
    exact idle

theorem next_back (going : i.rst = false) :
    (m.next frames i).kState = (m.back frames i).state ∧
      (m.next frames i).kPage = (m.back frames i).page ∧
      (m.next frames i).kWordV = (m.back frames i).wordV ∧
      (m.next frames i).kWord = (m.back frames i).word ∧
      (m.next frames i).wState = (m.wb frames i).state ∧
      (m.next frames i).kBits =
        if i.kReq && m.kState == .idle then (m.back frames i).bits else m.kBits := by
  unfold next
  rw [if_neg (by rw [going]; exact Bool.false_ne_true)]
  exact ⟨rfl, rfl, rfl, rfl, rfl, rfl⟩

theorem wb_state_unasked (silent : i.bReq = false) :
    (m.wb frames i).state = (m.wa frames i).state := by
  unfold wb bCalled
  rw [silent]
  rfl

end Mmu

section Saved

variable {frames : BitVec 18} {m : Mmu} {inputs : Nat → MmuInput}

theorem Mmu.back_wordV {i : MmuInput} (saved : m.kWordV = true → m.kState = .page)
    (here : (m.back frames i).wordV = true) : (m.back frames i).state = .page := by
  unfold Mmu.back Mmu.backStay at here ⊢
  cases state : m.kState with
  | idle =>
    have fresh : m.kWordV = false := by
      by_contra had
      rw [Bool.not_eq_false] at had
      exact absurd ((saved had).symm.trans state) (by decide)
    simp only [state, fresh] at here ⊢
    split_ifs at here
  | dir =>
    have fresh : m.kWordV = false := by
      by_contra had
      rw [Bool.not_eq_false] at had
      exact absurd ((saved had).symm.trans state) (by decide)
    simp only [state, fresh] at here ⊢
    split_ifs at here
  | page =>
    simp only [state] at here ⊢
    split_ifs at here ⊢ <;> rfl

theorem kWordV_page (clock : Nat) :
    (mmuRun frames m inputs clock).kWordV = true → (mmuRun frames m inputs clock).kState = .page := by
  induction clock with
  | zero => exact fun saved => absurd saved Bool.false_ne_true
  | succ clock ih =>
    show ((mmuRun frames m inputs clock).next frames (inputs clock)).kWordV = true →
      ((mmuRun frames m inputs clock).next frames (inputs clock)).kState = .page
    cases rst : (inputs clock).rst with
    | true =>
      unfold Mmu.next
      rw [rst]
      exact fun saved => absurd saved Bool.false_ne_true
    | false =>
      obtain ⟨state, -, wordV, -, -, -⟩ := @Mmu.next_back frames (mmuRun frames m inputs clock) (inputs clock) rst
      rw [state, wordV]
      exact Mmu.back_wordV ih

end Saved

/-- A start at WB in a run: the clock it asks, and the memory its reads are of. -/
structure StartRun where
  frames : BitVec 18
  m : Mmu
  inputs : Nat → MmuInput
  mem : TableMem
  clock : Nat

namespace StartRun

variable (x : StartRun)

/-- The registers and what the clock brings, so many clocks on. -/
def s (n : Nat) : Mmu := mmuRun x.frames x.m x.inputs (x.clock + n)
def i (n : Nat) : MmuInput := x.inputs (x.clock + n)
def back (n : Nat) : BackCall := (x.s n).back x.frames (x.i n)

/-- The start is held up to here. -/
def Held (n : Nat) : Prop := ∀ j < n, (x.back j).hold = true

/-- The write-back's read still to be answered. -/
def pending : Nat → Option (BitVec 29)
  | 0 => none
  | n + 1 =>
    if (x.back n).tstart then some (x.back n).taddr
    else if (x.i n).tReady then none
    else pending n

/-- What is posted in a clock. -/
def posted (n : Nat) : Option (BitVec 29 × BitVec 40) :=
  if (x.back n).postReq && (x.i n).postOk then some ((x.back n).postBus, (x.back n).postWord) else none

/-- The bits the start's access needs and its entry lacks. -/
def bits : BitVec 30 := (x.s 0).needed (x.i 0)

/-- What a start asks for while it is held: its address, and its entry's frame. The bits of the entry
follow the TLB's. -/
def request (i : MmuInput) : Bool × BitVec 32 × BitVec 18 := (i.kReq, i.kVa, i.kEntry.extractLsb' 0 18)

/-- What it is to post. -/
def owed : Option (BitVec 29 × BitVec 40) :=
  PageTable.post x.frames (x.s 0).directory x.mem (x.i 0).kVa ((x.i 0).kEntry.extractLsb' 0 18) x.bits

/-- What the core and the port keep: a paged start that no write-back and no walk is under way at; no
reset; the start stands while it is held, translated and with port B not asked; each read answered once,
with the word at its address. -/
structure Kept : Prop where
  asks : Mmu.Asks (x.i 0)
  fresh : (x.s 0).kState = .idle
  free : ((x.s 0).wa x.frames (x.i 0)).state = .idle
  running : ∀ n, x.Held n → (x.i n).rst = false ∧ (x.i n).conReset = false
  translated : ∀ n, x.Held n → (x.s n).aHold x.frames (x.i n) = false
  alone : ∀ n, x.Held (n + 1) → (x.i n).bReq = false
  stands : ∀ n, x.Held (n + 1) → request (x.i (n + 1)) = request (x.i n)
  ready : ∀ n, x.Held (n + 1) → (x.i (n + 1)).tReady = true →
    ∃ place, x.pending (n + 1) = some place ∧ (x.i (n + 1)).tWord = x.mem place

/-- Where a write-back is: the directory's word waited for, the page's, or the page's word saved for the
queue. -/
inductive Stage (n : Nat) : Prop
  | dir (state : (x.s n).kState = .dir) (fresh : (x.s n).kWordV = false)
      (pending : x.pending n = some (PageTable.dirAt (x.s 0).directory (x.i 0).kVa))
  | page (place : BitVec 29)
      (page : PageTable.page x.frames (x.s 0).directory x.mem (x.i 0).kVa = some place)
      (state : (x.s n).kState = .page) (place_eq : (x.s n).kPage = place) (fresh : (x.s n).kWordV = false)
      (pending : x.pending n = some place)
  | saved (place : BitVec 29)
      (page : PageTable.page x.frames (x.s 0).directory x.mem (x.i 0).kVa = some place)
      (state : (x.s n).kState = .page) (place_eq : (x.s n).kPage = place) (saved : (x.s n).kWordV = true)
      (word : (x.s n).kWord = x.mem place) (pending : x.pending n = none)

/-- A clock of a write-back under way: nothing posted yet, nothing refused. -/
structure Along (n : Nat) : Prop where
  same : request (x.i n) = request (x.i 0)
  walk : (x.s n).wState = .idle
  bits : (x.s n).kBits = x.bits
  some_ : x.bits ≠ 0#30
  base : (x.s 0).directory ≠ 0#18
  quiet : ∀ j < n, x.posted j = none ∧ (x.back j).refused = false
  stage : x.Stage n

variable {x}

theorem Along.asks {n : Nat} (along : x.Along n) (kept : x.Kept) : Mmu.Asks (x.i n) := by
  have same := along.same
  unfold request at same
  simp only [Prod.mk.injEq] at same
  obtain ⟨req, va, -⟩ := same
  unfold Mmu.Asks
  rw [req, va]
  exact kept.asks

theorem Kept.next {n : Nat} (kept : x.Kept) (held : x.Held n) :
    (x.s (n + 1)).kState = (x.back n).state ∧ (x.s (n + 1)).kPage = (x.back n).page ∧
      (x.s (n + 1)).kWordV = (x.back n).wordV ∧ (x.s (n + 1)).kWord = (x.back n).word ∧
      (x.s (n + 1)).wState = ((x.s n).wb x.frames (x.i n)).state ∧
      (x.s (n + 1)).kBits =
        if (x.i n).kReq && (x.s n).kState == .idle then (x.back n).bits else (x.s n).kBits :=
  Mmu.next_back (kept.running n held).1

theorem Held.succ {n : Nat} (held : x.Held n) (here : (x.back n).hold = true) : x.Held (n + 1) := by
  intro j less
  obtain rfl | before : j = n ∨ j < n := by omega
  · exact here
  · exact held j before

theorem Kept.valid (kept : x.Kept) : (x.s 0).kWordV = false := by
  by_contra had
  rw [Bool.not_eq_false] at had
  have page : (x.s 0).kState = .page := kWordV_page x.clock had
  exact absurd (kept.fresh.symm.trans page) (by decide)

theorem Kept.first (kept : x.Kept) (here : (x.back 0).hold = true) : x.Along 1 := by
  have held : x.Held 0 := fun j less => absurd less (Nat.not_lt_zero j)
  have some_ : x.bits ≠ 0#30 := by
    intro none_
    have nothing : x.back 0 = _ := Mmu.back_nothing kept.asks kept.fresh none_
    rw [nothing] at here
    exact Bool.false_ne_true here
  have base : (x.s 0).directory ≠ 0#18 := by
    intro none_
    have refused : x.back 0 = _ := Mmu.back_undirected kept.asks kept.fresh some_ none_
    rw [refused] at here
    exact Bool.false_ne_true here
  have begins : x.back 0 = _ := Mmu.back_begins kept.asks kept.fresh some_ base
  obtain ⟨state, -, wordV, -, walk, bits⟩ := kept.next held
  have silent := kept.alone 0 (held.succ here)
  refine ⟨kept.stands 0 (held.succ here), ?_, ?_, some_, base, ?_, ?_⟩
  · rw [walk, Mmu.wb_state_unasked silent]
    exact kept.free
  · rw [bits, kept.asks.1, kept.fresh, begins]
    rfl
  · intro j less
    obtain rfl : j = 0 := by omega
    unfold posted
    rw [begins]
    exact ⟨rfl, rfl⟩
  · refine .dir ?_ ?_ ?_
    · rw [state, begins]
    · rw [wordV, begins]
      exact kept.valid
    · unfold pending
      rw [begins]
      rfl

/-- How far a write-back is from its post. -/
def rank (x : StartRun) (n : Nat) : Nat :=
  match (x.s n).kState with
  | .idle => 3
  | .dir => 2
  | .page => if (x.s n).kWordV then 0 else 1

/-- A clock a write-back is held: a word brought takes it on, and without one it waits as it did. -/
structure Onward (x : StartRun) (n : Nat) : Prop where
  le : x.rank (n + 1) ≤ x.rank n
  lands : x.pending n ≠ none → (x.i n).tReady = true → x.rank (n + 1) < x.rank n
  waits : x.pending n ≠ none → (x.i n).tReady = false → x.pending (n + 1) ≠ none
  none_ : x.pending n = none → x.pending (n + 1) = none
  room : x.pending n = none → (x.i n).postOk = false

/-- What a clock of a write-back does: it waits; it goes on to the page's word; it saves the word for the
queue; it refuses; it posts. -/
inductive Stepped (x : StartRun) (n : Nat) : Prop
  | waits (hold : (x.back n).hold = true) (stage : x.Stage (n + 1)) (onward : x.Onward n)
      (post : x.posted n = none) (allows : (x.back n).refused = false)
  | refuses (done : (x.back n).hold = false) (owed : x.owed = none) (post : x.posted n = none)
      (refused : (x.back n).refused = true)
  | posts (done : (x.back n).hold = false) (some_ : x.owed.isSome = true) (post : x.posted n = x.owed)
      (allows : (x.back n).refused = false)

theorem Onward.still {n : Nat} (state : (x.s (n + 1)).kState = (x.s n).kState)
    (wordV : (x.s (n + 1)).kWordV = (x.s n).kWordV) (pending : x.pending (n + 1) = x.pending n)
    (waits : x.pending n ≠ none) (silent : (x.i n).tReady = false) : x.Onward n := by
  refine ⟨le_of_eq ?_, fun _ lands => ?_, fun _ _ => ?_, fun none_ => absurd none_ waits, fun none_ => absurd none_ waits⟩
  · unfold rank
    rw [state, wordV]
  · exact absurd (silent.symm.trans lands) Bool.false_ne_true
  · rw [pending]
    exact waits

theorem owed_paged {place : BitVec 29}
    (paged : PageTable.page x.frames (x.s 0).directory x.mem (x.i 0).kVa = some place) :
    x.owed = if PageTable.Writes ((x.i 0).kEntry.extractLsb' 0 18) (x.mem place) then
      some (place, x.mem place ||| (0#10 ++ x.bits)) else none := by
  unfold owed PageTable.post
  rw [paged]
  rfl

theorem Along.had {n : Nat} (along : x.Along (n + 1)) (kept : x.Kept) (held : x.Held (n + 1))
    {place : BitVec 29} (paged : PageTable.page x.frames (x.s 0).directory x.mem (x.i 0).kVa = some place)
    (state : (x.s (n + 1)).kState = .page) (place_eq : (x.s (n + 1)).kPage = place)
    (had : (x.s (n + 1)).kWordV = true ∨ (x.i (n + 1)).tReady = true)
    (word : (if (x.s (n + 1)).kWordV then (x.s (n + 1)).kWord else (x.i (n + 1)).tWord) = x.mem place)
    (answered : (if (x.i (n + 1)).tReady then none else x.pending (n + 1)) = none)
    (saved : (x.s (n + 1)).kWordV = true → x.pending (n + 1) = none) : x.Stepped (n + 1) := by
  have took : ((x.s (n + 1)).wa x.frames (x.i (n + 1))).took = false := Mmu.wa_took_idle along.walk
  have step : x.back (n + 1) = _ :=
    Mmu.back_page_had (along.asks kept) state (had.imp_right fun lands => ⟨lands, took⟩) word
  obtain ⟨state', page', wordV', word', -, -⟩ := kept.next held
  have same := along.same
  unfold request at same
  simp only [Prod.mk.injEq] at same
  obtain ⟨-, -, entry⟩ := same
  rw [entry, along.bits] at step
  have owed := owed_paged paged
  have next : x.pending (n + 2) = if (x.back (n + 1)).tstart then some (x.back (n + 1)).taddr
      else if (x.i (n + 1)).tReady then none else x.pending (n + 1) := rfl
  by_cases writes : PageTable.Writes ((x.i 0).kEntry.extractLsb' 0 18) (x.mem place)
  · rw [if_pos writes] at step owed
    cases queue : (x.i (n + 1)).postOk with
    | true =>
      rw [queue, if_pos rfl] at step
      refine .posts (by rw [step]; rfl) (by rw [owed]; rfl) ?_ (by rw [step]; rfl)
      unfold posted
      rw [step, queue, owed]
      exact congrArg (fun at_ => some (at_, _)) place_eq
    | false =>
      rw [queue, if_neg Bool.false_ne_true] at step
      rw [step] at state' page' wordV' word' next
      have after : x.rank (n + 2) = 0 := by
        unfold rank
        rw [state'.trans state, show (x.s (n + 2)).kWordV = true from wordV']
        rfl
      have none_ : x.pending (n + 2) = none := next.trans answered
      refine .waits (by rw [step]) (.saved place paged (state'.trans state) (page'.trans place_eq) wordV' word' none_)
        ⟨?_, fun waited lands => ?_, fun waited lands => ?_, fun _ => none_, fun _ => queue⟩ ?_ (by rw [step]; rfl)
      · rw [after]
        exact Nat.zero_le _
      · rw [after]
        have fresh : (x.s (n + 1)).kWordV = false := by
          rw [← Bool.not_eq_true]
          exact mt saved waited
        unfold rank
        rw [state, fresh]
        exact Nat.one_pos
      · rw [lands] at answered
        exact absurd answered waited
      · unfold posted
        rw [queue, Bool.and_false]
        rfl
  · rw [if_neg writes] at step owed
    refine .refuses (by rw [step]; rfl) owed ?_ (by rw [step])
    unfold posted
    rw [step]
    rfl

theorem Along.stepped {n : Nat} (along : x.Along (n + 1)) (kept : x.Kept) (held : x.Held (n + 1)) :
    x.Stepped (n + 1) := by
  have asks := along.asks kept
  obtain ⟨state, page, wordV, word, -, -⟩ := kept.next held
  have took : ((x.s (n + 1)).wa x.frames (x.i (n + 1))).took = false := Mmu.wa_took_idle along.walk
  have same := along.same
  unfold request at same
  simp only [Prod.mk.injEq] at same
  obtain ⟨-, va, -⟩ := same
  have next : x.pending (n + 2) = if (x.back (n + 1)).tstart then some (x.back (n + 1)).taddr
      else if (x.i (n + 1)).tReady then none else x.pending (n + 1) := rfl
  cases along.stage with
  | dir dir fresh pending =>
    cases lands : (x.i (n + 1)).tReady with
    | false =>
      have waits : x.back (n + 1) = _ := Mmu.back_dir_waits asks dir lands
      have post : x.posted (n + 1) = none := by
        unfold posted
        rw [waits]
        rfl
      rw [lands, waits] at next
      rw [waits] at state wordV
      have still := Onward.still state wordV next (by rw [pending]; exact Option.some_ne_none _) lands
      refine .waits (by rw [waits]) (.dir (state.trans dir) (wordV.trans fresh) (next.trans pending)) still post ?_
      rw [waits]
      rfl
    | true =>
      obtain ⟨place, asked, brought⟩ := kept.ready n held lands
      obtain rfl := Option.some.inj (pending.symm.trans asked)
      have step : x.back (n + 1) = _ := Mmu.back_dir_lands asks dir lands took
      rw [brought, va] at step
      have post : x.posted (n + 1) = none := by
        unfold posted
        rw [step]
        split <;> rfl
      by_cases names : PageTable.Names x.frames (x.mem (PageTable.dirAt (x.s 0).directory (x.i 0).kVa))
      · have paged := PageTable.page_eq along.base names
        rw [if_pos names] at step
        rw [step] at state page wordV next
        have fresh' : (x.s (n + 2)).kWordV = false := wordV.trans fresh
        have less : x.rank (n + 2) < x.rank (n + 1) := by
          unfold rank
          rw [show (x.s (n + 2)).kState = .page from state, fresh', dir]
          exact Nat.lt_succ_self 1
        have asked : x.pending (n + 2) ≠ none := by
          rw [next]
          exact Option.some_ne_none _
        refine .waits (by rw [step]) (.page _ paged state page fresh' next) ⟨le_of_lt less, fun _ _ => less,
          fun _ _ => asked, fun none_ => ?_, fun none_ => ?_⟩ post (by rw [step]; rfl)
        · exact absurd (pending.symm.trans none_) (Option.some_ne_none _)
        · exact absurd (pending.symm.trans none_) (Option.some_ne_none _)
      · rw [if_neg names] at step
        refine .refuses (by rw [step]; rfl) ?_ post (by rw [step])
        unfold owed PageTable.post
        rw [PageTable.page_eq_none names]
        rfl
  | page place paged dir place_eq fresh pending =>
    cases lands : (x.i (n + 1)).tReady with
    | false =>
      have waits : x.back (n + 1) = _ := Mmu.back_page_waits asks dir fresh lands
      have post : x.posted (n + 1) = none := by
        unfold posted
        rw [waits]
        rfl
      rw [lands, waits] at next
      rw [waits] at state page wordV
      have still := Onward.still state wordV next (by rw [pending]; exact Option.some_ne_none _) lands
      exact .waits (by rw [waits]) (.page place paged (state.trans dir) (page.trans place_eq)
        (wordV.trans fresh) (next.trans pending)) still post (by rw [waits]; rfl)
    | true =>
      obtain ⟨asked, here, brought⟩ := kept.ready n held lands
      obtain rfl := Option.some.inj (pending.symm.trans here)
      refine along.had kept held paged dir place_eq (.inr lands) ?_ (by rw [lands]; rfl)
        fun saved => absurd (fresh.symm.trans saved) Bool.false_ne_true
      rw [fresh, if_neg Bool.false_ne_true]
      exact brought
  | saved place paged dir place_eq saved had pending =>
    refine along.had kept held paged dir place_eq (.inl saved) ?_ ?_ fun _ => pending
    · rw [saved, if_pos rfl]
      exact had
    · rw [pending, ite_self]

theorem Along.succ {n : Nat} (along : x.Along (n + 1)) (kept : x.Kept) (held : x.Held (n + 2)) :
    x.Along (n + 2) := by
  have before : x.Held (n + 1) := fun j less => held j (Nat.lt_succ_of_lt less)
  have here := held (n + 1) (Nat.lt_succ_self _)
  obtain ⟨-, -, -, -, walk, bits⟩ := kept.next before
  have silent := kept.alone (n + 1) held
  have started : ((x.s (n + 1)).kState == .idle) = false := by
    cases along.stage with
    | dir state => rw [state]; rfl
    | page place paged state => rw [state]; rfl
    | saved place paged state => rw [state]; rfl
  cases along.stepped kept before with
  | waits hold stage onward post allows =>
    refine ⟨(kept.stands (n + 1) held).trans along.same, ?_, ?_, along.some_, along.base, ?_, stage⟩
    · rw [walk, Mmu.wb_state_unasked silent]
      exact Mmu.wa_state_idle along.walk (kept.translated (n + 1) before)
    · rw [bits, started, Bool.and_false]
      exact along.bits
    · intro j less
      obtain rfl | earlier : j = n + 1 ∨ j < n + 1 := by omega
      · exact ⟨post, allows⟩
      · exact along.quiet j earlier
  | refuses done => exact absurd (done.symm.trans here) Bool.false_ne_true
  | posts done => exact absurd (done.symm.trans here) Bool.false_ne_true

theorem Kept.along (kept : x.Kept) {n : Nat} (held : x.Held (n + 1)) :
    x.Along (n + 1) := by
  induction n with
  | zero => exact kept.first (held 0 (Nat.lt_succ_self 0))
  | succ n ih => exact (ih fun j less => held j (Nat.lt_succ_of_lt less)).succ kept held

/-- The clock a start is no longer held. -/
def Ends (x : StartRun) (u : Nat) : Prop := x.Held u ∧ (x.back u).hold = false

/-- What a start posts, up to a clock and in it. -/
def posts (x : StartRun) (u : Nat) : List (BitVec 29 × BitVec 40) := (List.range (u + 1)).filterMap x.posted

/-- The reads it begins. -/
def reads (x : StartRun) (u : Nat) : List (BitVec 29) :=
  (List.range (u + 1)).filterMap fun j => if (x.back j).tstart then some (x.back j).taddr else none

/-- How often it is refused. -/
def refusals (x : StartRun) (u : Nat) : Nat := (List.range (u + 1)).countP fun j => (x.back j).refused

theorem posts_last {u : Nat} (quiet : ∀ j < u, x.posted j = none) : x.posts u = (x.posted u).toList := by
  have none_ : (List.range u).filterMap x.posted = [] :=
    List.filterMap_eq_nil_iff.mpr fun j among => quiet j (List.mem_range.mp among)
  unfold posts
  rw [List.range_succ, List.filterMap_append, none_, List.nil_append]
  cases post : x.posted u <;> simp [post]

theorem refusals_last {u : Nat} (quiet : ∀ j < u, (x.back j).refused = false) :
    x.refusals u = (x.back u).refused.toNat := by
  have none_ : (List.range u).countP (fun j => (x.back j).refused) = 0 :=
    List.countP_eq_zero.mpr fun j among refused =>
      Bool.false_ne_true ((quiet j (List.mem_range.mp among)).symm.trans refused)
  unfold refusals
  rw [List.range_succ, List.countP_append, none_, Nat.zero_add]
  cases refused : (x.back u).refused <;> simp [refused]

theorem Kept.ends (kept : x.Kept) {u : Nat} (ends : x.Ends u) :
    if x.bits = 0#30 then u = 0 ∧ x.posts u = [] ∧ x.reads u = [] ∧ x.refusals u = 0
    else x.posts u = x.owed.toList ∧ x.refusals u = if x.owed.isSome then 0 else 1 := by
  obtain ⟨held, done⟩ := ends
  cases u with
  | zero =>
    have posts := posts_last (x := x) (u := 0) fun j less => absurd less (Nat.not_lt_zero j)
    have refusals := refusals_last (x := x) (u := 0) fun j less => absurd less (Nat.not_lt_zero j)
    split
    · rename_i none_
      have nothing : x.back 0 = _ := Mmu.back_nothing kept.asks kept.fresh none_
      refine ⟨rfl, ?_, ?_, ?_⟩
      · rw [posts]
        unfold posted
        rw [nothing]
        rfl
      · show (if (x.back 0).tstart then some (x.back 0).taddr else none).toList = []
        rw [nothing]
        rfl
      · rw [refusals, nothing]
        rfl
    · rename_i some_
      have none_ : (x.s 0).directory = 0#18 := by
        by_contra base
        have begins : x.back 0 = _ := Mmu.back_begins kept.asks kept.fresh some_ base
        rw [begins] at done
        exact Bool.false_ne_true done.symm
      have refused : x.back 0 = _ := Mmu.back_undirected kept.asks kept.fresh some_ none_
      have owed : x.owed = none := by
        unfold owed PageTable.post PageTable.page
        rw [none_, if_neg fun both => both.1 rfl]
        rfl
      rw [posts, refusals, owed]
      unfold posted
      rw [refused]
      exact ⟨rfl, rfl⟩
  | succ n =>
    have along := kept.along held
    rw [if_neg along.some_, posts_last fun j less => (along.quiet j less).1,
      refusals_last fun j less => (along.quiet j less).2]
    cases along.stepped kept held with
    | waits hold => exact absurd (done.symm.trans hold) Bool.false_ne_true
    | refuses done owed post refused =>
      rw [owed, post, refused]
      exact ⟨rfl, rfl⟩
    | posts done some_ post allows =>
      rw [post, allows, some_]
      exact ⟨rfl, rfl⟩

theorem Kept.counts (kept : x.Kept) {u : Nat} (held : x.Held u)
    (silent : ∀ j ≤ u, Mmu.rw (x.i j) 0o224#8 = false) :
    (x.s (u + 1)).refused = (x.s 0).refused + BitVec.ofNat 32 (x.refusals u) := by
  have step (n : Nat) (less : n ≤ u) :
      (x.s (n + 1)).refused = (x.s n).refused + BitVec.ofNat 32 (x.back n).refused.toNat := by
    obtain ⟨rst, con⟩ := kept.running n fun j before => held j (Nat.lt_of_lt_of_le before less)
    show ((x.s n).next x.frames (x.i n)).refused = _
    unfold Mmu.next
    rw [rst, con, silent n less]
    show (if (x.back n).refused then (x.s n).refused + 1#32 else (x.s n).refused) = _
    cases (x.back n).refused with
    | false => exact (BitVec.add_zero _).symm
    | true => rfl
  have along (n : Nat) (less : n ≤ u) :
      (x.s (n + 1)).refused = (x.s 0).refused + BitVec.ofNat 32 (x.refusals n) := by
    induction n with
    | zero =>
      rw [step 0 less, refusals_last fun j before => absurd before (Nat.not_lt_zero j)]
    | succ n ih =>
      have more : x.refusals (n + 1) = x.refusals n + (x.back (n + 1)).refused.toNat := by
        unfold refusals
        rw [List.range_succ, List.countP_append]
        cases refused : (x.back (n + 1)).refused <;> simp [refused]
      rw [step (n + 1) less, ih (Nat.le_of_succ_le less), more, BitVec.ofNat_add, BitVec.add_assoc]
  exact along u le_rfl

/-- The last of what a start needs: the table's word brought, or the queue's room. -/
inductive Awaited
  | word
  | room

/-- Every write-back ends. -/
theorem Kept.some_end (kept : x.Kept)
    (ready : ∀ n, x.pending n ≠ none → ∃ later, n ≤ later ∧ (x.i later).tReady = true)
    (room : ∀ n, ∃ later, n ≤ later ∧ (x.i later).postOk = true) : ∃ u, x.Ends u := by
  by_contra never
  have held (n : Nat) : x.Held n := by
    induction n with
    | zero => exact fun j less => absurd less (Nat.not_lt_zero j)
    | succ n ih =>
      apply ih.succ
      by_contra done
      exact never ⟨n, ih, Bool.not_eq_true _ ▸ done⟩
  have onward (n : Nat) (after : 1 ≤ n) : x.Onward n := by
    obtain ⟨k, rfl⟩ : ∃ k, n = k + 1 := ⟨n - 1, by omega⟩
    cases (kept.along (held (k + 1))).stepped kept (held (k + 1)) with
    | waits hold stage onward => exact onward
    | refuses done => exact absurd (done.symm.trans (held (k + 2) (k + 1) (Nat.lt_succ_self _))) Bool.false_ne_true
    | posts done => exact absurd (done.symm.trans (held (k + 2) (k + 1) (Nat.lt_succ_self _))) Bool.false_ne_true
  let waits : Awaited → Nat → Prop
    | .word, n => x.pending n ≠ none
    | .room, n => x.pending n = none
  let chosen : Awaited → Nat → Prop
    | .word, n => x.pending n = none ∨ (x.i n).tReady = true
    | .room, n => (x.i n).postOk = true
  have reached := @met_of_fair Awaited x.rank (fun _ => False) waits chosen 1 ?_ ?_ (fun n after _ => (onward n after).le) ?_ ?_
  · obtain ⟨-, -, ⟨⟩⟩ := reached
  · intro n after _
    by_cases none_ : x.pending n = none
    · exact ⟨.room, none_⟩
    · exact ⟨.word, none_⟩
  · intro event n after _ _ waiting unmade
    cases event with
    | word =>
      have silent : (x.i n).tReady = false := by
        rw [← Bool.not_eq_true]
        exact fun lands => unmade (.inr lands)
      exact (onward n after).waits waiting silent
    | room => exact (onward n after).none_ waiting
  · intro event n after _ waiting made
    cases event with
    | word => exact (onward n after).lands waiting (made.resolve_left waiting)
    | room => exact absurd (((onward n after).room waiting).symm.trans made) Bool.false_ne_true
  · intro event n
    cases event with
    | word =>
      by_cases none_ : x.pending n = none
      · exact ⟨n, le_rfl, .inl none_⟩
      · obtain ⟨later, after, lands⟩ := ready n none_
        exact ⟨later, after, .inr lands⟩
    | room => exact room n

section Marks

/-- The bits a write-back is of. -/
def marks : BitVec 30 := Mmu.accessedBit ||| Mmu.modifiedBit ||| Mmu.ephemeralBit

/-- The entry the start translated by. -/
def used (x : StartRun) : BitVec 30 :=
  if (x.s 0).awFill x.frames (x.i 0) then ((x.s 0).wa x.frames (x.i 0)).entry else (x.s 0).aHitEntry

/-- The entry's word, its bits in. -/
def marked (x : StartRun) : BitVec 40 := Mmu.tag (x.i 0).kVa ++ (x.used ||| x.bits)

/-- A start translated by an entry of the TLB, its own or just filled, whose bits its own entry has. -/
structure Translated (x : StartRun) : Prop where
  va : (x.i 0).aVa = (x.i 0).kVa
  found : (x.s 0).aHit (x.i 0) = true ∨ (x.s 0).awFill x.frames (x.i 0) = true
  entry : (x.i 0).kEntry &&& marks = x.used &&& marks

theorem back_or (kept : x.Kept) : (x.back 0).or = decide (x.bits ≠ 0#30) ∧ (x.back 0).bits = x.bits := by
  by_cases none_ : x.bits = 0#30
  · have nothing : x.back 0 = _ := Mmu.back_nothing kept.asks kept.fresh none_
    rw [nothing, none_]
    exact ⟨rfl, none_⟩
  · rw [decide_eq_true none_]
    by_cases base : (x.s 0).directory = 0#18
    · have refused : x.back 0 = _ := Mmu.back_undirected kept.asks kept.fresh none_ base
      rw [refused]
      exact ⟨rfl, rfl⟩
    · have begins : x.back 0 = _ := Mmu.back_begins kept.asks kept.fresh none_ base
      rw [begins]
      exact ⟨rfl, rfl⟩

theorem writes_marked (kept : x.Kept) (translated : x.Translated) (some_ : x.bits ≠ 0#30) :
    ∃ others, (x.s 0).writes x.frames (x.i 0) = ⟨Mmu.idx (x.i 0).kVa, x.marked, true⟩ :: others := by
  obtain ⟨or_, bits⟩ := back_or kept
  rw [decide_eq_true some_] at or_
  have either : ((x.s 0).aHit (x.i 0) || (x.s 0).awFill x.frames (x.i 0)) = true := by
    rw [Bool.or_eq_true]
    exact translated.found
  have orNow : ((x.s 0).back x.frames (x.i 0)).or = true := or_
  have bitsNow : ((x.s 0).back x.frames (x.i 0)).bits = x.bits := bits
  have written : (x.s 0).awV x.frames (x.i 0) = true := by
    unfold Mmu.awV
    rw [either, orNow, Bool.and_self, Bool.or_true]
  have data : (x.s 0).awData x.frames (x.i 0) = x.marked := by
    unfold Mmu.awData marked used
    rw [either, orNow, bitsNow, translated.va]
    rfl
  unfold Mmu.writes
  rw [written, data, translated.va]
  exact ⟨_, rfl⟩

/-- The bits an access needs in its entry. -/
def wants (m : Mmu) (i : MmuInput) : BitVec 30 :=
  Mmu.accessedBit |||
    if i.kWrite then
      Mmu.modifiedBit |||
        if m.ephemeral && m.pointerTypes.getLsbD (i.kMd.extractLsb' 32 6).toNat &&
          i.kMd.extractLsb' 28 4 == 0b1101#4 then Mmu.ephemeralBit else 0#30
    else 0#30

theorem needed_eq (m : Mmu) (i : MmuInput) : m.needed i = wants m i &&& ~~~ i.kEntry := by
  unfold Mmu.needed wants
  cases i.kWrite with
  | false =>
    simp only [Bool.false_eq_true, if_false, BitVec.or_zero]
  | true =>
    simp only [if_true]
    split
    · rw [BitVec.and_or_distrib_right, BitVec.and_or_distrib_right]
    · rw [BitVec.or_zero, BitVec.or_zero, BitVec.and_or_distrib_right]

theorem wants_marks (m : Mmu) (i : MmuInput) : wants m i &&& marks = wants m i := by
  unfold wants
  cases i.kWrite with
  | false =>
    simp only [Bool.false_eq_true, if_false]
    decide
  | true =>
    simp only [if_true]
    split <;> decide

theorem lacks_none {wants among used own entry : BitVec 30} (inside : wants &&& among = wants)
    (first : own &&& among = used &&& among)
    (again : entry &&& among = (used ||| (wants &&& ~~~ own)) &&& among) : wants &&& ~~~ entry = 0#30 := by
  apply BitVec.eq_of_getLsbD_eq
  intro k bound
  have within := congrArg (fun word => word.getLsbD k) inside
  have before := congrArg (fun word => word.getLsbD k) first
  have after := congrArg (fun word => word.getLsbD k) again
  simp only [BitVec.getLsbD_and, BitVec.getLsbD_or, BitVec.getLsbD_not, bound, decide_true, Bool.true_and]
    at within before after
  simp only [BitVec.getLsbD_and, BitVec.getLsbD_not, BitVec.getLsbD_zero, bound, decide_true, Bool.true_and]
  -- A bit not among those wanted is not lacked; of one that is, the entry has what `used` has or lacked.
  cases wanted : wants.getLsbD k with
  | false => rfl
  | true =>
    rw [wanted, Bool.true_and] at within
    rw [within, Bool.and_true, Bool.and_true] at before
    rw [wanted, within, before, Bool.true_and, Bool.and_true, Bool.and_true, Bool.or_not_self] at after
    rw [after]
    rfl

theorem needed_marked (translated : x.Translated) {m : Mmu} {i : MmuInput}
    (same : wants m i = wants (x.s 0) (x.i 0))
    (entry : i.kEntry &&& marks = (x.used ||| x.bits) &&& marks) : m.needed i = 0#30 := by
  have bits : x.bits = wants m i &&& ~~~ (x.i 0).kEntry := by
    rw [same]
    exact needed_eq _ _
  rw [bits] at entry
  rw [needed_eq]
  exact lacks_none (wants_marks m i) translated.entry entry

/-- Up to here nothing clears the TLB, and nothing but the start writes its entry. -/
structure Undisturbed (x : StartRun) (n : Nat) : Prop where
  stays : ∀ j < n, ((x.i j).rst || (x.i j).conReset || Mmu.opEmpty (x.i j)) = false
  own : ∀ w ∈ ((x.s 0).writes x.frames (x.i 0)).tail, w.idx ≠ Mmu.idx (x.i 0).kVa
  others : ∀ j < n, 0 < j → ∀ w ∈ (x.s j).writes x.frames (x.i j), w.idx ≠ Mmu.idx (x.i 0).kVa

/-- The table's entry is marked. -/
theorem table_marked (kept : x.Kept) (translated : x.Translated) (some_ : x.bits ≠ 0#30) {n : Nat}
    (undisturbed : x.Undisturbed (n + 1)) :
    mmuTable x.frames x.m x.inputs (x.clock + (n + 1)) (Mmu.idx (x.i 0).kVa) = some x.marked := by
  have placed {writes : List TlbWrite} (others : ∀ w ∈ writes, w.idx ≠ Mmu.idx (x.i 0).kVa) :
      ∀ write ∈ writes.map TlbWrite.placed, write.1 ≠ Mmu.idx (x.i 0).kVa := by
    intro write among
    obtain ⟨w, here, rfl⟩ := List.mem_map.mp among
    exact others w here
  have step (j : Nat) (less : j < n + 1) : mmuTable x.frames x.m x.inputs (x.clock + (j + 1)) =
      applied (mmuTable x.frames x.m x.inputs (x.clock + j))
        (((x.s j).writes x.frames (x.i j)).map TlbWrite.placed) := by
    show (x.s j).tableNext x.frames (x.i j) _ = _
    unfold Mmu.tableNext
    rw [undisturbed.stays j less]
    rfl
  have along (j : Nat) (less : j < n + 1) :
      mmuTable x.frames x.m x.inputs (x.clock + (j + 1)) (Mmu.idx (x.i 0).kVa) = some x.marked := by
    induction j with
    | zero =>
      obtain ⟨others, writes⟩ := writes_marked kept translated some_
      have own := undisturbed.own
      rw [writes, List.tail_cons] at own
      rw [step 0 less, writes, List.map_cons, applied_cons, applied_untouched _ (placed own)]
      exact Function.update_self _ _ _
    | succ j ih =>
      rw [step (j + 1) less, applied_untouched _ (placed (undisturbed.others (j + 1) less (Nat.succ_pos j)))]
      exact ih (Nat.lt_of_succ_lt less)
  exact along n (Nat.lt_succ_self n)

/-- The same access made again, some clocks on: the TLB undisturbed and none of its writes lost, the
address looked up, the entry's bits the lookup's, and the access's wants the same. -/
structure Again (x : StartRun) (n : Nat) : Prop where
  undisturbed : x.Undisturbed (n + 1)
  fits : ∀ earlier, earlier < x.clock + (n + 1) →
    ¬ (mmuRun x.frames x.m x.inputs earlier).Overflows x.frames (x.inputs earlier)
  presented : Presented x.inputs MmuInput.aNextVa MmuInput.aVa (x.clock + (n + 1))
  va : (x.i (n + 1)).aVa = (x.i 0).kVa
  entry : (x.i (n + 1)).kEntry &&& marks = (x.s (n + 1)).aHitEntry &&& marks
  wants : wants (x.s (n + 1)) (x.i (n + 1)) = wants (x.s 0) (x.i 0)

/-- Asked again, nothing is needed. -/
theorem again_needs_none (kept : x.Kept) (translated : x.Translated) (some_ : x.bits ≠ 0#30) {n : Nat}
    (again : x.Again n) :
    (x.s (n + 1)).aHit (x.i (n + 1)) = true ∧ (x.s (n + 1)).aHitEntry = x.used ||| x.bits ∧
      (x.s (n + 1)).needed (x.i (n + 1)) = 0#30 := by
  have table := table_marked kept translated some_ again.undisturbed
  obtain ⟨hit, word⟩ := aLookup again.fits again.presented
  have va : (x.inputs (x.clock + (n + 1))).aVa = (x.i 0).kVa := again.va
  rw [va] at hit word
  have tagged : x.marked.extractLsb' 30 10 = Mmu.tag (x.i 0).kVa := BitVec.extractLsb'_append_eq_left
  have found : (x.s (n + 1)).aHit (x.i (n + 1)) = true := by
    refine hit.trans ?_
    unfold hits
    rw [table, Option.any_some, tagged]
    exact beq_self_eq_true _
  have held : (x.s (n + 1)).aHitEntry = x.used ||| x.bits := by
    refine (congrArg (fun w => w.extractLsb' 0 30) (word _ table)).trans ?_
    exact BitVec.extractLsb'_append_eq_right
  refine ⟨found, held, ?_⟩
  apply needed_marked translated again.wants
  rw [again.entry, held]

end Marks

/-- The write-back is exact. A start that needs no bit ends at once, with nothing read, posted or refused;
any other posts what the tables say it owes and is not refused, or owes nothing and is refused once, and
the register counts it. It ends, if its reads are answered and the queue takes a post some day. Its
entry of the TLB has the bits from its first clock on, and the same access made again needs none. -/
theorem write_back_exact (x : StartRun) (kept : x.Kept) (translated : x.Translated) :
    (∀ u, x.Ends u →
      (if x.bits = 0#30 then u = 0 ∧ x.posts u = [] ∧ x.reads u = [] ∧ x.refusals u = 0
        else x.posts u = x.owed.toList ∧ x.refusals u = if x.owed.isSome then 0 else 1) ∧
      ((∀ j ≤ u, Mmu.rw (x.i j) 0o224#8 = false) →
        (x.s (u + 1)).refused = (x.s 0).refused + BitVec.ofNat 32 (x.refusals u))) ∧
    ((∀ n, x.pending n ≠ none → ∃ later, n ≤ later ∧ (x.i later).tReady = true) →
      (∀ n, ∃ later, n ≤ later ∧ (x.i later).postOk = true) → ∃ u, x.Ends u) ∧
    (x.bits ≠ 0#30 → ∀ n,
      (x.Undisturbed (n + 1) →
        mmuTable x.frames x.m x.inputs (x.clock + (n + 1)) (Mmu.idx (x.i 0).kVa) = some x.marked) ∧
      (x.Again n → (x.s (n + 1)).aHit (x.i (n + 1)) = true ∧
        (x.s (n + 1)).aHitEntry = x.used ||| x.bits ∧
        (x.s (n + 1)).needed (x.i (n + 1)) = 0#30)) := by
  refine ⟨fun u ends => ⟨kept.ends ends, kept.counts ends.1⟩, kept.some_end, fun some_ n => ⟨?_, ?_⟩⟩
  · exact table_marked kept translated some_
  · exact again_needs_none kept translated some_

/-- A write's start that the queue does not take at once: the entry, of frame 5 and of none of the bits, is
loaded; its page's word is the second of the table in frame 3. -/
def started : StartRun where
  frames := 2048#18
  m := Mmu.blank
  inputs clock :=
    { rst := false
      conReset := false
      aNextVa := 0x400#32
      bNextVa := 0#32
      aReq := decide (1 ≤ clock)
      aVa := 0x400#32
      kReq := decide (1 ≤ clock)
      kVa := 0x400#32
      kEntry := if clock = 1 then 5#30 else 0x30000005#30
      kWrite := true
      kMd := 0#40
      postOk := decide (4 ≤ clock)
      bReq := false
      bVa := 0#32
      bWalked := false
      opV := decide (clock = 0)
      opVma := 0x100000005#40
      opMd := 0x400#40
      tReady := decide (clock = 2 ∨ clock = 3)
      tWord := if clock = 2 then 0x4000003#40 else 0x2000005#40
      rwV := decide (clock = 0)
      rwK := 0o220#8
      rwData := 4#32 }
  mem place :=
    if place = 0x1000#29 then 0x4000003#40 else if place = 0xC01#29 then 0x2000005#40 else 0#40
  clock := 1

/-- What a start owes is posted once. -/
theorem write_back_exact_started :
    started.posts 3 = [(0xC01#29, 0x32000005#40)] ∧ started.refusals 3 = 0 ∧
      (started.s 4).needed (started.i 4) = 0#30 := by
  have ends : started.Ends 3 := by
    unfold Ends Held
    decide
  have few {n : Nat} (held : started.Held n) : n < 4 := by
    by_contra more
    exact absurd (ends.2.symm.trans (held 3 (Nat.not_lt.mp more))) Bool.false_ne_true
  have kept : started.Kept := by
    refine ⟨⟨rfl, by decide⟩, by decide, by decide, fun n _ => ⟨rfl, rfl⟩, ?_, fun n _ => rfl, ?_, ?_⟩
    · have translated : ∀ n < 4, (started.s n).aHold started.frames (started.i n) = false := by decide
      exact fun n held => translated n (few held)
    · have stands : ∀ n < 4, request (started.i (n + 1)) = request (started.i n) := by decide
      exact fun n held => stands n (Nat.lt_of_succ_lt (few held))
    · have ready : ∀ n < 3, (started.i (n + 1)).tReady = true →
          started.pending (n + 1) ≠ none ∧
            (started.i (n + 1)).tWord = started.mem ((started.pending (n + 1)).getD 0#29) := by
        decide
      intro n held lands
      obtain ⟨some_, word⟩ := ready n (Nat.lt_of_succ_lt_succ (few held)) lands
      obtain ⟨place, asked⟩ := Option.ne_none_iff_exists'.mp some_
      rw [asked] at word
      exact ⟨place, asked, word⟩
  have translated : started.Translated := ⟨rfl, .inl (by decide), by decide⟩
  obtain ⟨exact_, -, again⟩ := write_back_exact started kept translated
  have some_ : started.bits ≠ 0#30 := by decide
  have outcome := (exact_ 3 ends).1
  rw [if_neg some_] at outcome
  have owed : started.owed = some (0xC01#29, 0x32000005#40) := by decide
  rw [owed] at outcome
  refine ⟨outcome.1, outcome.2, ((again some_ 3).2 ⟨⟨?_, ?_, ?_⟩, ?_, rfl, rfl, ?_, ?_⟩).2.2⟩
  · decide
  · decide
  · decide
  · unfold Mmu.Overflows
    decide
  · decide
  · decide

end StartRun

end MuirFpga.Quux
