import MuirFpga.Spy.Masters

/-!
# Three masters share the diagnostic registers

The bus changes hands only with `-UB MSYN` down, so every strobe and every answer is of one master's cycle. A
write is applied at its strobe's next look or, due at SPEEDCLK, at once; the one holding register is enough for
as long as no strobe comes while a word waits in it for a look.
-/

namespace MuirFpga.Spy

open Sync
open Plumbing (Dbgin)

namespace Shared

section Owners

variable (r : SpyRun)

def srAt (clock : Nat) : Lines := (run r clock).sr (r.ticks clock)
def masterAt (clock : Nat) : Master := (run r clock).bus.master
def regsAt (clock : Nat) : Registers := (run r clock).regs

/-- Who holds the bus, and what its holder is doing. -/
structure Owned (s : Shared) : Prop where
  apart : ¬ (s.bus.dbgOwn = true ∧ s.bus.conOwn = true)
  console : s.bus.conQ.msyn = true → s.engine.est = .active ∨ s.engine.est = .drop
  lines : s.bus.conQ.msyn = true → s.bus.conQ = { s.engine.lines with msyn := true }
  debug : s.dbgin.cst = .msyn ∨ s.dbgin.cst = .xfer ∨ s.dbgin.cst = .rel → s.bus.dbgOwn = true

variable {r} {clock : Nat}

theorem run_succ : run r (clock + 1) = (run r clock).next r.sync (r.ticks clock) := rfl

theorem dbgOwn_next (i : SpyTick) (s : Shared) : (s.next r.sync i).bus.dbgOwn =
    if s.bus.dbgOwn then dbgReq s.dbgin else dbgReq s.dbgin && !i.cpu.msyn && !s.bus.conOwn := rfl

theorem conOwn_next (i : SpyTick) (s : Shared) : (s.next r.sync i).bus.conOwn =
    if s.bus.conOwn then s.engine.conReq
    else s.engine.conReq && !i.cpu.msyn && !dbgReq s.dbgin && !s.bus.dbgOwn := rfl

theorem est_next (i : SpyTick) (s : Shared) : (s.next r.sync i).engine.est = match s.engine.est with
    | .idle => if i.ask.isSome then .grant else .idle
    | .grant => if s.bus.conOwn then .active else if i.giveUp then .drop else .grant
    | .active => if s.bus.conSsyn s.regs.ubSsyn || i.giveUp then .drop else .active
    | .drop => if s.bus.conSsyn s.regs.ubSsyn then .drop else .idle := rfl

theorem asked_next (i : SpyTick) (s : Shared) : (s.next r.sync i).engine.asked = match s.engine.est, i.ask with
      | .idle, some asked => asked
      | _, _ => s.engine.asked := rfl

theorem cst_next (i : SpyTick) (s : Shared) : (s.next r.sync i).dbgin.cst = match s.dbgin.cst with
    | .idle => if Dbgin.strobeCycle i.cable then .needub else .idle
    | .needub => if !i.cable.req then .idle else if s.bus.dbgOwn then .msyn else .needub
    | .msyn => if !i.cable.req then .rel else if s.dbgin.waitT = 0 then .xfer else .msyn
    | .xfer => if !i.cable.req then .rel else .xfer
    | .rel => if s.dbgin.waitT = 0 then .idle else .rel := by
  show (Dbgin.cycleNext _ _ _ s.dbgin).cst = _
  unfold Dbgin.cycleNext
  cases cst : s.dbgin.cst <;> dsimp only <;> split_ifs <;> simp_all

theorem Owned.next {s : Shared} (owned : Owned s) (i : SpyTick) : Owned (s.next r.sync i) := by
  refine ⟨?_, fun up => ?_, fun up => ?_, fun held => ?_⟩
  · rw [dbgOwn_next, conOwn_next]
    rintro ⟨dbg, con⟩
    cases dbgOwn : s.bus.dbgOwn <;> cases conOwn : s.bus.conOwn <;> simp [dbgOwn, conOwn] at dbg con
    · exact absurd dbg.1 (by rw [con.2]; decide)
    · exact owned.apart ⟨dbgOwn, conOwn⟩
  · have active : s.engine.est = .active := of_decide_eq_true up
    rw [est_next, active]
    dsimp only
    split_ifs
    · exact Or.inr rfl
    · exact Or.inl rfl
  · have active : s.engine.est = .active := of_decide_eq_true up
    have asked : (s.next r.sync i).engine.asked = s.engine.asked := by
      rw [asked_next, active]
    show s.engine.lines = { (s.next r.sync i).engine.lines with msyn := true }
    unfold Engine.lines
    rw [asked, active]
    rfl
  · rw [dbgOwn_next]
    have own : s.bus.dbgOwn = true := by
      rw [cst_next] at held
      cases cst : s.dbgin.cst with
      | idle =>
        rw [cst] at held
        dsimp only at held
        split_ifs at held <;> simp at held
      | needub =>
        rw [cst] at held
        dsimp only at held
        split_ifs at held with _ own
        · simp at held
        · exact own
        · simp at held
      | msyn => exact owned.debug (Or.inl cst)
      | xfer => exact owned.debug (Or.inr (Or.inl cst))
      | rel => exact owned.debug (Or.inr (Or.inr cst))
    rw [own, if_pos rfl]
    refine decide_eq_true fun idle => ?_
    rw [cst_next, idle] at held
    dsimp only at held
    split_ifs at held <;> simp at held

theorem owned_run : Owned (run r clock) := by
  induction clock with
  | zero => exact ⟨fun both => Bool.false_ne_true both.1, (fun no => nomatch no), (fun no => nomatch no), fun held => by
      rcases held with no | no | no <;> exact nomatch no⟩
  | succ clock ih => exact ih.next _

theorem master_stays (up : (srAt r clock).msyn = true) : masterAt r (clock + 1) = masterAt r clock := by
  have owned : Owned (run r clock) := owned_run
  unfold masterAt ConsoleBus.master
  rw [run_succ, dbgOwn_next, conOwn_next]
  unfold srAt sr ConsoleBus.srLines at up
  cases dbgOwn : (run r clock).bus.dbgOwn with
  | true =>
    rw [dbgOwn] at up
    have xfer : (run r clock).dbgin.cst = .xfer := of_decide_eq_true up
    have asks : dbgReq (run r clock).dbgin = true := decide_eq_true (by rw [xfer]; decide)
    rw [asks]
    rfl
  | false =>
    rw [dbgOwn] at up
    cases conOwn : (run r clock).bus.conOwn with
    | true =>
      rw [conOwn] at up
      have asks : (run r clock).engine.conReq = true := by
        rcases owned.console up with est | est
        · exact decide_eq_true (by rw [est]; decide)
        · exact decide_eq_true (by rw [est]; decide)
      rw [asks]
      simp
    | false =>
      rw [conOwn] at up
      have strobe : (r.ticks clock).cpu.msyn = true := up
      rw [strobe]
      simp

theorem strobe_falls {later : Nat} (after : clock < later) (up : (srAt r clock).msyn = true)
    (other : masterAt r clock ≠ masterAt r later) :
    ∃ between, clock < between ∧ between < later ∧ (srAt r between).msyn = false := by
  by_contra none_
  refine other ?_
  have same (n : Nat) (inside : clock + 1 + n ≤ later) : masterAt r (clock + 1 + n) = masterAt r clock := by
    induction n with
    | zero => exact master_stays up
    | succ n ih =>
      rw [← ih (by omega)]
      refine master_stays (Bool.of_not_eq_false fun down => none_ ⟨clock + 1 + n, by omega, by omega, down⟩)
  rw [← same (later - clock - 1) (by omega)]
  congr 1
  omega

theorem processor_stays (mine : masterAt r clock = .processor)
    (up : (r.ticks clock).cpu.msyn = true) (still : (r.ticks (clock + 1)).cpu.msyn = true) :
    masterAt r (clock + 1) = .processor ∧ (srAt r (clock + 1)).msyn = true := by
  have lines (clock : Nat) (mine : masterAt r clock = .processor) : srAt r clock = (r.ticks clock).cpu := by
    unfold masterAt ConsoleBus.master at mine
    unfold srAt sr ConsoleBus.srLines
    split_ifs at mine with dbgOwn conOwn
    rw [if_neg dbgOwn, if_neg conOwn]
  have stays : masterAt r (clock + 1) = .processor :=
    (master_stays (by rw [lines clock mine]; exact up)).trans mine
  exact ⟨stays, by rw [lines _ stays]; exact still⟩

theorem elapsed_succ : (regsAt r (clock + 1)).elapsed = if !(srAt r clock).msyn then 0
    else if (srAt r clock).selected && (regsAt r clock).elapsed ≠ 511
    then (regsAt r clock).elapsed + 1 else (regsAt r clock).elapsed := rfl

theorem elapsed_le_succ : (regsAt r (clock + 1)).elapsed ≤
    (regsAt r clock).elapsed + 1 := by
  rw [elapsed_succ]
  split_ifs <;> omega

theorem elapsed_mine (k : Nat) (inside : k < (regsAt r clock).elapsed) : k < clock ∧
    (srAt r (clock - 1 - k)).msyn = true ∧ masterAt r (clock - 1 - k) = masterAt r clock := by
  induction clock generalizing k with
  | zero => exact absurd inside (Nat.not_lt_zero k)
  | succ clock ih =>
    cases up : (srAt r clock).msyn with
    | false =>
      rw [elapsed_succ, up] at inside
      exact absurd inside (Nat.not_lt_zero k)
    | true =>
      have stays := master_stays up
      cases k with
      | zero => exact ⟨Nat.succ_pos _, up, stays.symm⟩
      | succ k =>
        have before := Nat.lt_of_lt_of_le inside elapsed_le_succ
        obtain ⟨lt, earlier, mine⟩ := ih k (by omega)
        rw [show clock + 1 - 1 - (k + 1) = clock - 1 - k by omega]
        exact ⟨by omega, earlier, mine.trans stays.symm⟩

theorem ubSsyn_succ : (regsAt r (clock + 1)).ubSsyn = if !(srAt r clock).msyn then false
    else if (srAt r clock).selected && (regsAt r clock).running &&
      SSYN_T - 1 ≤ (regsAt r clock).elapsed
    then true else (regsAt r clock).ubSsyn := rfl

theorem elapsed_of_ubSsyn (answer : (regsAt r clock).ubSsyn = true) : SSYN_T ≤ (regsAt r clock).elapsed := by
  induction clock with
  | zero => exact absurd answer Bool.false_ne_true
  | succ clock ih =>
    rw [ubSsyn_succ] at answer
    rw [elapsed_succ]
    unfold SSYN_T at *
    split_ifs at answer with down full
    · rw [if_neg down]
      simp only [Bool.and_eq_true, decide_eq_true_iff] at full
      obtain ⟨⟨selected, -⟩, late⟩ := full
      rw [selected, Bool.true_and]
      by_cases top : (regsAt r clock).elapsed = 511
      · rw [if_neg (by simp [top]), top]
        decide
      · rw [if_pos (decide_eq_true top)]
        omega
    · rw [if_neg down]
      have := ih answer
      split_ifs <;> omega

end Owners

section Writes

variable (r : SpyRun)

/-- The machine looks at its registers in this tick. -/
def Looks (clock : Nat) : Bool := (regsAt r clock).landing r.sync (r.ticks clock).mclk

/-- A write's strobe, the write, and whether it is held or lands early. -/
def Strobes (clock : Nat) : Bool := (regsAt r clock).strobes (srAt r clock)
def writeAt (clock : Nat) : RegWrite := Registers.onBus (srAt r clock)
def Captures (clock : Nat) : Bool :=
  (regsAt r clock).captures r.sync (r.ticks clock).mclk (srAt r clock)
def Early (clock : Nat) : Bool :=
  (regsAt r clock).early r.sync (r.ticks clock).mclk (srAt r clock)

/-- The write that lands in this tick. -/
def lands (clock : Nat) : Option RegWrite :=
  (regsAt r clock).lands r.sync (r.ticks clock).mclk (srAt r clock)

/-- The processor holds its lines through its strobe, and the cable through its request and a tick past it. -/
structure Keeps : Prop where
  cpu : ∀ clock, (r.ticks clock).cpu.msyn = true → (r.ticks (clock + 1)).cpu.msyn = true →
    (r.ticks (clock + 1)).cpu = (r.ticks clock).cpu
  cable : ∀ clock, (r.ticks clock).cable.req = true → (r.ticks (clock + 1)).cable.wr = (r.ticks clock).cable.wr ∧
    (r.ticks (clock + 1)).cable.a = (r.ticks clock).cable.a ∧ (r.ticks (clock + 1)).cable.dbd = (r.ticks clock).cable.dbd

/-- A word held since its strobe: no look and no boot before a tick. -/
def HeldFrom (strobe clock : Nat) : Prop := (r.ticks strobe).booting = false ∧
  ∀ tick, strobe < tick → tick < clock → Looks r tick = false ∧ (r.ticks tick).booting = false

/-- SPEEDCLK looks at the registers in this tick. -/
def SpeedLooks (clock : Nat) : Prop := r.sync = false ∧ (r.ticks clock).mclk = false ∧
  (regsAt r clock).phaseT = SPEEDCLK_T - 3

/-- A write is on the bus in the tick of its strobe or the one before. -/
def Due (clock : Nat) : Prop :=
  (regsAt r clock).strobeDue (srAt r clock) = true

/-- A write strobed when SPEEDCLK did not look waits for a look. -/
def Waits (strobe clock : Nat) : Prop := Strobes r strobe = true ∧
  (∀ look, SpeedLooks r look → look ≠ strobe ∧ look + 1 ≠ strobe) ∧ strobe < clock ∧ HeldFrom r strobe clock

/-- Where a write strobed is to land: at SPEEDCLK's look in the tick of its strobe or the one before, or else at
the first look after it. -/
def LandsAt (strobe clock : Nat) : Prop :=
  Strobes r strobe = true ∧ SpeedLooks r clock ∧ (clock = strobe ∨ clock + 1 = strobe) ∨
  Waits r strobe clock ∧ Looks r clock = true

/-- No strobe comes while another write waits, unless the machine looks in that tick. -/
def Alone : Prop := ∀ strobe clock, Waits r strobe clock → Strobes r clock = true → Looks r clock = true

/-- The console's registers with the page's error stop and then the boot of a tick. -/
def settled (i : SpyTick) (r : ConsoleRegs) : ConsoleRegs :=
  let paged := i.page.elim r fun errstop => { r with errstop }
  if i.booting then paged.boot else paged

variable {r} {clock : Nat}

theorem pending_succ : (regsAt r (clock + 1)).pending = if (r.ticks clock).booting then false
    else if Captures r clock then true
    else if ((regsAt r clock).pending && Looks r clock) ||
      Early r clock then false
    else (regsAt r clock).pending := rfl

theorem held_succ : (regsAt r (clock + 1)).held = if Captures r clock
    then writeAt r clock else (regsAt r clock).held := rfl

theorem phaseT_succ : (regsAt r (clock + 1)).phaseT = if (r.ticks clock).mclk then 0
    else if (regsAt r clock).phaseT ≠ 63 then (regsAt r clock).phaseT + 1
    else (regsAt r clock).phaseT := rfl

theorem earlyTaken_succ : (regsAt r (clock + 1)).earlyTaken = if !(srAt r clock).msyn then false
    else if Early r clock then true else (regsAt r clock).earlyTaken := rfl

theorem writing_iff (elapsed : Nat) : (regsAt r clock).writing (srAt r clock) elapsed = true ↔
      (srAt r clock).msyn = true ∧ (srAt r clock).selected = true ∧
      (srAt r clock).write = true ∧ (regsAt r clock).running = true ∧ (regsAt r clock).elapsed = elapsed := by
  unfold Registers.writing
  simp only [Bool.and_eq_true, decide_eq_true_iff, and_assoc]

theorem early_iff : Early r clock = true ↔ r.sync = false ∧ (r.ticks clock).mclk = false ∧
    (regsAt r clock).phaseT = SPEEDCLK_T - 3 ∧ (regsAt r clock).strobeDue (srAt r clock) = true ∧
    (regsAt r clock).earlyTaken = false := by
  unfold Early Registers.early
  simp only [Bool.and_eq_true, Bool.not_eq_true', decide_eq_true_iff, and_assoc]

theorem strobeDue_iff : (regsAt r clock).strobeDue (srAt r clock) = true ↔
      (srAt r clock).msyn = true ∧ (srAt r clock).selected = true ∧
      (srAt r clock).write = true ∧ (regsAt r clock).running = true ∧ ((regsAt r clock).elapsed = STROBE_T - 1 ∨
        (regsAt r clock).elapsed = STROBE_T - 2) := by
  unfold Registers.strobeDue
  rw [Bool.or_eq_true, writing_iff, writing_iff, ← and_or_left, ← and_or_left, ← and_or_left, ← and_or_left]

theorem captures_iff : Captures r clock = true ↔ Strobes r clock = true ∧
    Early r clock = false ∧ (regsAt r clock).earlyTaken = false := by
  unfold Captures Registers.captures
  simp only [Bool.and_eq_true, Bool.not_eq_true', and_assoc]
  rfl

theorem looks_of_speed (speed : SpeedLooks r clock) : Looks r clock = true := by
  obtain ⟨ring, low, phase⟩ := speed
  unfold Looks Registers.landing
  rw [phase, low, ring]
  rfl

theorem speed_of_early (early : Early r clock = true) : SpeedLooks r clock := by
  obtain ⟨ring, low, phase, -⟩ := early_iff.mp early
  exact ⟨ring, low, phase⟩

theorem elapsed_of_earlyTaken (taken : (regsAt r clock).earlyTaken = true) :
    STROBE_T - 1 ≤ (regsAt r clock).elapsed := by
  induction clock with
  | zero => exact absurd taken Bool.false_ne_true
  | succ clock ih =>
    rw [earlyTaken_succ] at taken
    rw [elapsed_succ]
    unfold STROBE_T at *
    split_ifs at taken with down early
    · obtain ⟨-, -, -, due, -⟩ := early_iff.mp early
      obtain ⟨-, selected, -, -, elapsed⟩ := strobeDue_iff.mp due
      unfold STROBE_T at elapsed
      rw [if_neg down, selected, Bool.true_and, if_pos (decide_eq_true (by omega))]
      omega
    · have := ih taken
      rw [if_neg down]
      split_ifs <;> omega

theorem elapsed_of_pending (pending : (regsAt r clock).pending = true)
    (first : (regsAt r clock).phaseT ≤ 3) : (regsAt r clock).elapsed ≤ (regsAt r clock).phaseT ∨
      STROBE_T ≤ (regsAt r clock).elapsed := by
  induction clock with
  | zero => exact absurd pending Bool.false_ne_true
  | succ clock ih =>
    rw [pending_succ] at pending
    rw [phaseT_succ] at first ⊢
    rw [elapsed_succ]
    split_ifs at pending with boots captures landed
    · obtain ⟨strobes, -, -⟩ := captures_iff.mp captures
      obtain ⟨up, selected, -, -, elapsed⟩ := (writing_iff _).mp strobes
      unfold STROBE_T at *
      right
      rw [up, selected, elapsed]
      decide
    · have still : Looks r clock = false := by
        by_contra looks
        exact landed (by rw [pending, Bool.of_not_eq_false looks]; rfl)
      have low : (r.ticks clock).mclk = false := by
        unfold Looks Registers.landing at still
        exact (Bool.or_eq_false_iff.mp still).1
      rw [low, if_neg Bool.false_ne_true] at first ⊢
      have before := ih pending (by split_ifs at first <;> omega)
      unfold STROBE_T at *
      split_ifs at first ⊢ <;> omega

theorem pending_of_early (early : Early r clock = true) : (regsAt r clock).pending = false := by
  obtain ⟨-, -, phase, due, -⟩ := early_iff.mp early
  obtain ⟨-, -, -, -, elapsed⟩ := strobeDue_iff.mp due
  by_contra pending
  unfold SPEEDCLK_T STROBE_T at *
  have := elapsed_of_pending (Bool.of_not_eq_false pending) (by rw [phase])
  unfold STROBE_T at this
  omega

theorem lands_of_early (early : Early r clock = true) : lands r clock = some (writeAt r clock) := by
  have none_ := pending_of_early early
  have is : (regsAt r clock).early r.sync (r.ticks clock).mclk (srAt r clock) = true := early
  unfold lands Registers.lands Registers.landWord
  rw [is, none_]
  rfl

theorem lands_of_held (pending : (regsAt r clock).pending = true)
    (looks : Looks r clock = true) : lands r clock = some (regsAt r clock).held := by
  have is : (regsAt r clock).landing r.sync (r.ticks clock).mclk = true := looks
  unfold lands Registers.lands Registers.landWord
  rw [is, pending]
  rfl

theorem lands_cases {w : RegWrite} (landed : lands r clock = some w) :
    Early r clock = true ∨ (regsAt r clock).pending = true ∧
      Looks r clock = true ∧ (regsAt r clock).held = w := by
  unfold lands Registers.lands at landed
  split_ifs at landed with is
  rw [Bool.or_eq_true, Bool.and_eq_true] at is
  rcases is with ⟨pending, looks⟩ | early
  · rw [Registers.landWord, pending, if_pos rfl, Option.some.injEq] at landed
    exact Or.inr ⟨pending, looks, landed⟩
  · exact Or.inl early

theorem captured_of_pending (pending : (regsAt r clock).pending = true) :
    ∃ strobe, strobe < clock ∧ Captures r strobe = true ∧ HeldFrom r strobe clock ∧
      (regsAt r clock).held = writeAt r strobe := by
  induction clock with
  | zero => exact absurd pending Bool.false_ne_true
  | succ clock ih =>
    rw [pending_succ] at pending
    rw [held_succ]
    split_ifs at pending with boots captures landed
    · rw [if_pos captures]
      exact ⟨clock, Nat.lt_succ_self _, captures, ⟨Bool.eq_false_iff.mpr boots, fun tick lo hi => by omega⟩, rfl⟩
    · obtain ⟨strobe, before, is, held, word⟩ := ih pending
      rw [if_neg captures]
      refine ⟨strobe, by omega, is, ⟨held.1, fun tick lo hi => ?_⟩, word⟩
      obtain rfl | earlier : tick = clock ∨ tick < clock := by omega
      · refine ⟨?_, Bool.eq_false_iff.mpr boots⟩
        by_contra looks
        exact landed (by rw [pending, Bool.of_not_eq_false looks]; rfl)
      · exact held.2 tick lo earlier

theorem HeldFrom.held {strobe : Nat} (alone : ∀ tick, Captures r tick = true →
      (regsAt r tick).pending = true → Looks r tick = true)
    (captures : Captures r strobe = true) (after : strobe < clock)
    (held : HeldFrom r strobe clock) : (regsAt r clock).pending = true ∧
      (regsAt r clock).held = writeAt r strobe := by
  induction clock, after using Nat.le_induction with
  | base =>
    rw [pending_succ, held_succ, held.1, captures]
    exact ⟨rfl, rfl⟩
  | succ clock after ih =>
    obtain ⟨pending, word⟩ := ih ⟨held.1, fun tick lo hi => held.2 tick lo (Nat.lt_succ_of_lt hi)⟩
    obtain ⟨still, calm⟩ := held.2 clock after (Nat.lt_succ_self _)
    have none_ : Captures r clock = false := by
      by_contra again
      exact Bool.false_ne_true (still.symm.trans (alone clock (Bool.of_not_eq_false again) pending))
    have late : Early r clock = false := by
      by_contra early
      exact Bool.false_ne_true (still.symm.trans (looks_of_speed (speed_of_early (Bool.of_not_eq_false early))))
    rw [pending_succ, held_succ, calm, none_, still, late, pending]
    exact ⟨rfl, word⟩

theorem srAt_stays (keeps : Keeps r) (up : (srAt r clock).msyn = true)
    (still : (srAt r (clock + 1)).msyn = true) : srAt r (clock + 1) = srAt r clock := by
  have owned : Owned (run r clock) := owned_run
  have same := master_stays up
  unfold masterAt ConsoleBus.master at same
  unfold srAt sr ConsoleBus.srLines at up still ⊢
  cases dbgOwn : (run r clock).bus.dbgOwn with
  | true =>
    have later : (run r (clock + 1)).bus.dbgOwn = true := by
      rw [dbgOwn, if_pos rfl] at same
      by_contra no
      rw [if_neg no] at same
      split_ifs at same
    rw [dbgOwn, if_pos rfl] at up
    rw [later, if_pos rfl] at still
    rw [later, if_pos rfl, if_pos rfl]
    have xfer : (run r clock).dbgin.cst = .xfer := of_decide_eq_true up
    have goes : (run r (clock + 1)).dbgin.cst = .xfer := of_decide_eq_true still
    have req : (r.ticks clock).cable.req = true := by
      by_contra low
      rw [run_succ, cst_next, xfer, Bool.eq_false_iff.mpr low] at goes
      exact nomatch goes
    have unlifted : (run r clock).dbgin.lift (r.ticks clock).cable = false := by
      rw [Dbgin.lift, req]
      exact Bool.and_false _
    have modifier : (run r (clock + 1)).dbgin.modifier = (run r clock).dbgin.modifier := by
      show (if (run r clock).dbgin.lift _ && _ then _ else _) = _
      rw [unlifted]
      rfl
    have address : (run r (clock + 1)).dbgin.address = (run r clock).dbgin.address := by
      show (if (run r clock).dbgin.lift _ && _ then _ else _) = _
      rw [unlifted]
      rfl
    obtain ⟨wr, -, dbd⟩ := keeps.cable clock req
    unfold dbgLines Dbgin.ubMsyn
    rw [modifier, address, wr, dbd, xfer, goes]
  | false =>
    rw [dbgOwn, if_neg Bool.false_ne_true] at up same
    rw [if_neg Bool.false_ne_true]
    cases conOwn : (run r clock).bus.conOwn with
    | true =>
      rw [conOwn, if_pos rfl] at up same
      have later : (run r (clock + 1)).bus.dbgOwn = false ∧ (run r (clock + 1)).bus.conOwn = true := by
        split_ifs at same with dbg con
        exact ⟨Bool.eq_false_iff.mpr dbg, con⟩
      rw [later.1, later.2, if_neg Bool.false_ne_true, if_pos rfl] at still
      rw [later.1, later.2, if_neg Bool.false_ne_true, if_pos rfl, if_pos rfl, owned.lines up]
      have active : (run r clock).engine.est = .active := of_decide_eq_true still
      show (run r clock).engine.lines = _
      unfold Engine.lines
      rw [active]
      rfl
    | false =>
      rw [conOwn, if_neg Bool.false_ne_true] at up same
      have later : (run r (clock + 1)).bus.dbgOwn = false ∧ (run r (clock + 1)).bus.conOwn = false := by
        split_ifs at same with dbg con
        exact ⟨Bool.eq_false_iff.mpr dbg, Bool.eq_false_iff.mpr con⟩
      rw [later.1, later.2, if_neg Bool.false_ne_true, if_neg Bool.false_ne_true] at still
      rw [later.1, later.2, if_neg Bool.false_ne_true, if_neg Bool.false_ne_true, if_neg Bool.false_ne_true]
      exact keeps.cpu clock up still

theorem running_of_elapsed (counts : (regsAt r clock).elapsed ≠ 0) : (regsAt r clock).running = true := by
  induction clock with
  | zero => exact absurd rfl counts
  | succ clock ih =>
    have next : (regsAt r (clock + 1)).running = if !(srAt r clock).msyn then false
        else if (srAt r clock).selected then true
        else (regsAt r clock).running := rfl
    rw [elapsed_succ] at counts
    rw [next]
    cases up : (srAt r clock).msyn with
    | false =>
      rw [up] at counts
      exact absurd rfl counts
    | true =>
      cases selected : (srAt r clock).selected with
      | true => rfl
      | false =>
        rw [up, selected] at counts
        exact ih counts

/-- A write is on the bus unchanged in the tick before its strobe. -/
theorem due_before (keeps : Keeps r) (strobes : Strobes r (clock + 1) = true) :
    Due r clock ∧ (regsAt r clock).elapsed = STROBE_T - 2 ∧ srAt r (clock + 1) = srAt r clock := by
  obtain ⟨up, selected, write, -, elapsed⟩ := (writing_iff _).mp strobes
  have was : (srAt r clock).msyn = true := by
    by_contra down
    rw [elapsed_succ, Bool.eq_false_iff.mpr down] at elapsed
    exact nomatch elapsed
  have lines := srAt_stays keeps was up
  rw [lines] at selected write
  have before : (regsAt r clock).elapsed = STROBE_T - 2 := by
    rw [elapsed_succ, was, selected, Bool.true_and] at elapsed
    unfold STROBE_T at *
    by_cases top : (regsAt r clock).elapsed = 511
    · simp [top] at elapsed
    · simp only [Bool.not_true, Bool.false_eq_true, if_false, decide_eq_true top, if_true] at elapsed
      omega
  have running : (regsAt r clock).running = true := running_of_elapsed (by rw [before]; decide)
  exact ⟨strobeDue_iff.mpr ⟨was, selected, write, running, Or.inr before⟩, before, lines⟩

theorem due_of_strobes (strobes : Strobes r clock = true) : Due r clock := by
  obtain ⟨up, selected, write, running, elapsed⟩ := (writing_iff _).mp strobes
  exact strobeDue_iff.mpr ⟨up, selected, write, running, Or.inl elapsed⟩

/-- SPEEDCLK does not look twice running. -/
theorem speed_once (speed : SpeedLooks r clock) : ¬SpeedLooks r (clock + 1) := by
  rintro ⟨-, -, again⟩
  rw [phaseT_succ, speed.2.1, speed.2.2] at again
  exact absurd again (by decide)

/-- Of a write due, only SPEEDCLK's look in the tick before can have taken it. -/
theorem taken_before (keeps : Keeps r) (due : Due r clock)
    (taken : (regsAt r clock).earlyTaken = true) : ∃ before, clock = before + 1 ∧ Early r before = true := by
  obtain ⟨up, selected, -, -, elapsed⟩ := strobeDue_iff.mp due
  cases clock with
  | zero => exact absurd taken Bool.false_ne_true
  | succ before =>
    refine ⟨before, rfl, ?_⟩
    have late := elapsed_of_earlyTaken taken
    rw [earlyTaken_succ] at taken
    split_ifs at taken with down first
    · exact first
    · rw [Bool.not_eq_true', Bool.not_eq_false] at down
      have lines := srAt_stays keeps down up
      have past := elapsed_of_earlyTaken taken
      unfold STROBE_T at *
      rw [elapsed_succ, down, ← lines, selected, if_neg (by decide), Bool.true_and] at elapsed
      by_cases top : (regsAt r before).elapsed = 511
      · simp [top] at elapsed
      · rw [if_pos (decide_eq_true top)] at elapsed
        rw [elapsed_succ, down, ← lines, selected, if_neg (by decide), Bool.true_and, if_pos (decide_eq_true top)]
          at late
        omega

theorem early_of_speed (keeps : Keeps r) (speed : SpeedLooks r clock)
    (due : Due r clock) : Early r clock = true := by
  refine early_iff.mpr ⟨speed.1, speed.2.1, speed.2.2, due, ?_⟩
  by_contra taken
  obtain ⟨before, rfl, early⟩ := taken_before keeps due (Bool.of_not_eq_false taken)
  exact speed_once (speed_of_early early) speed

/-- A strobe takes its word into the holding register exactly where SPEEDCLK's look has not. -/
theorem captures_iff_speed (keeps : Keeps r) : Captures r clock = true ↔ Strobes r clock = true ∧
      ∀ look, SpeedLooks r look → look ≠ clock ∧ look + 1 ≠ clock := by
  rw [captures_iff]
  constructor
  · rintro ⟨strobes, late, untaken⟩
    refine ⟨strobes, fun look speed => ⟨?_, ?_⟩⟩
    · rintro rfl
      exact Bool.false_ne_true (late.symm.trans (early_of_speed keeps speed (due_of_strobes strobes)))
    · rintro rfl
      have early := early_of_speed keeps speed (due_before keeps strobes).1
      have up := (strobeDue_iff.mp (due_before keeps strobes).1).1
      rw [earlyTaken_succ, up, early] at untaken
      exact nomatch untaken
  · rintro ⟨strobes, apart⟩
    refine ⟨strobes, ?_, ?_⟩
    · by_contra early
      exact (apart clock (speed_of_early (Bool.of_not_eq_false early))).1 rfl
    · by_contra taken
      obtain ⟨before, rfl, early⟩ := taken_before keeps (due_of_strobes strobes) (Bool.of_not_eq_false taken)
      exact (apart before (speed_of_early early)).2 rfl

/-- Two strobes are sixteen r.ticks apart. -/
theorem strobes_apart {strobe : Nat} (strobes : Strobes r strobe = true) (after : strobe < clock)
    (again : Strobes r clock = true) : strobe + 16 ≤ clock := by
  obtain ⟨up, selected, -, -, elapsed⟩ := (writing_iff _).mp strobes
  obtain ⟨-, -, -, -, counted⟩ := (writing_iff _).mp again
  unfold STROBE_T at elapsed counted
  have counts : 15 ≤ (regsAt r clock).elapsed ∨ strobe + 2 + (regsAt r clock).elapsed ≤ clock := by
    clear again counted
    induction clock, after using Nat.le_induction with
    | base =>
      rw [elapsed_succ, up, selected, elapsed]
      exact Or.inl (Nat.le_refl _)
    | succ clock after ih =>
      rw [elapsed_succ]
      split_ifs <;> omega
  omega

end Writes

section Applied

variable {r : SpyRun} {strobe clock : Nat}

theorem Waits.held (keeps : Keeps r) (alone : Alone r)
    (waits : Waits r strobe clock) : (regsAt r clock).pending = true ∧
      (regsAt r clock).held = writeAt r strobe := by
  obtain ⟨strobes, apart, after, held⟩ := waits
  refine held.held (fun tick captures pending => ?_) ((captures_iff_speed keeps).mpr ⟨strobes, apart⟩) after
  obtain ⟨earlier, before, is, since, -⟩ := captured_of_pending pending
  obtain ⟨strobes, apart⟩ := (captures_iff_speed keeps).mp is
  exact alone earlier tick ⟨strobes, apart, before, since⟩ (captures_iff.mp captures).1

theorem LandsAt.lands (keeps : Keeps r) (alone : Alone r)
    (at_ : LandsAt r strobe clock) : Shared.lands r clock = some (writeAt r strobe) := by
  obtain ⟨strobes, speed, rfl | rfl⟩ | ⟨waits, looks⟩ := at_
  · exact lands_of_early (early_of_speed keeps speed (due_of_strobes strobes))
  · obtain ⟨due, -, lines⟩ := due_before keeps strobes
    rw [lands_of_early (early_of_speed keeps speed due), writeAt, writeAt, lines]
  · obtain ⟨pending, word⟩ := waits.held keeps alone
    exact word ▸ lands_of_held pending looks

/-- Nothing lands but where a write strobed is to land, or a write due at SPEEDCLK. -/
theorem landsAt_of_lands (keeps : Keeps r) {w : RegWrite} (landed : lands r clock = some w) :
    SpeedLooks r clock ∧ Due r clock ∨ ∃ strobe, LandsAt r strobe clock := by
  obtain early | ⟨pending, looks, -⟩ := lands_cases landed
  · exact Or.inl ⟨speed_of_early early, (early_iff.mp early).2.2.2.1⟩
  · obtain ⟨strobe, before, captures, held, -⟩ := captured_of_pending pending
    obtain ⟨strobes, apart⟩ := (captures_iff_speed keeps).mp captures
    exact Or.inr ⟨strobe, Or.inr ⟨⟨strobes, apart, before, held⟩, looks⟩⟩

theorem LandsAt.once {clock' : Nat} (at_ : LandsAt r strobe clock)
    (again : LandsAt r strobe clock') : clock = clock' := by
  obtain ⟨-, speed, near⟩ | ⟨waits, looks⟩ := at_ <;> obtain ⟨-, speed', near'⟩ | ⟨waits', looks'⟩ := again
  · obtain rfl | rfl | rfl : clock = clock' ∨ clock' = clock + 1 ∨ clock = clock' + 1 := by omega
    · rfl
    · exact absurd speed' (speed_once speed)
    · exact absurd speed (speed_once speed')
  · exact absurd near (not_or.mpr (waits'.2.1 clock speed))
  · exact absurd near' (not_or.mpr (waits.2.1 clock' speed'))
  · obtain lt | rfl | gt := Nat.lt_trichotomy clock clock'
    · exact absurd ((waits'.2.2.2.2 clock waits.2.2.1 lt).1.symm.trans looks) Bool.false_ne_true
    · rfl
    · exact absurd ((waits.2.2.2.2 clock' waits'.2.2.1 gt).1.symm.trans looks') Bool.false_ne_true

/-- Writes land in the order they came. -/
theorem LandsAt.order (keeps : Keeps r) (alone : Alone r) {later clock' : Nat}
    (after : strobe < later) (at_ : LandsAt r strobe clock)
    (then_ : LandsAt r later clock') : clock < clock' := by
  have strobes : Strobes r strobe = true := at_.elim (·.1) (·.1.1)
  have again : Strobes r later = true := then_.elim (·.1) (·.1.1)
  have apart := strobes_apart strobes after again
  obtain ⟨-, -, near⟩ | ⟨waits, -⟩ := at_
  · obtain ⟨-, -, near'⟩ | ⟨waits', -⟩ := then_
    · omega
    · have := waits'.2.2.1
      omega
  -- A strobe at which the first still waits looks, so the first has landed by then.
  have by_ : clock ≤ later := by
    by_contra late
    have looks := alone strobe later ⟨waits.1, waits.2.1, after,
      ⟨waits.2.2.2.1, fun tick lo hi => waits.2.2.2.2 tick lo (by omega)⟩⟩ again
    exact Bool.false_ne_true ((waits.2.2.2.2 later after (by omega)).1.symm.trans looks)
  obtain ⟨-, speed, near'⟩ | ⟨waits', -⟩ := then_
  · by_contra late
    obtain rfl | before : clock' = clock ∨ clock' < clock := by omega
    · have due : Due r clock' := by
        obtain rfl | rfl := near'
        · exact due_of_strobes again
        · exact (due_before keeps again).1
      have none_ := pending_of_early (early_of_speed keeps speed due)
      exact Bool.false_ne_true (none_.symm.trans (waits.held keeps alone).1)
    · exact Bool.false_ne_true
        ((waits.2.2.2.2 clock' (by omega) before).1.symm.trans (looks_of_speed speed))
  · exact Nat.lt_of_le_of_lt by_ waits'.2.2.1

/-- A write strobed lands by the first look after it if no boot comes before. -/
theorem landsAt_of_looks (strobes : Strobes r strobe = true) (after : strobe < clock)
    (looks : Looks r clock = true)
    (calm : ∀ tick, strobe ≤ tick → tick < clock → (r.ticks tick).booting = false) :
    ∃ at_, at_ ≤ clock ∧ LandsAt r strobe at_ := by
  by_cases apart : ∀ look, SpeedLooks r look → look ≠ strobe ∧ look + 1 ≠ strobe
  · induction clock using Nat.strongRecOn with
    | ind clock ih =>
      by_cases first : ∃ tick, strobe < tick ∧ tick < clock ∧ Looks r tick = true
      · obtain ⟨tick, lo, hi, sees⟩ := first
        obtain ⟨at_, upTo, lands⟩ := ih tick hi lo sees fun between low high => calm between low (by omega)
        exact ⟨at_, by omega, lands⟩
      · refine ⟨clock, Nat.le_refl _, Or.inr ⟨⟨strobes, apart, after, calm strobe (Nat.le_refl _) after,
          fun tick lo hi => ⟨?_, calm tick (by omega) hi⟩⟩, looks⟩⟩
        by_contra sees
        exact first ⟨tick, lo, hi, Bool.of_not_eq_false sees⟩
  · obtain ⟨look, near⟩ := not_forall.mp apart
    obtain ⟨speed, near⟩ := Classical.not_imp.mp near
    exact ⟨look, by omega, Or.inl ⟨strobes, speed, by omega⟩⟩

theorem console_succ : (regsAt r (clock + 1)).console = settled (r.ticks clock)
    ((lands r clock).elim (regsAt r clock).console
      (regsAt r clock).console.land) := by
  show (regsAt r clock).consoleNext r.sync (r.ticks clock).mclk (srAt r clock)
    (r.ticks clock).booting (r.ticks clock).page = _
  unfold Registers.consoleNext settled lands
  cases (regsAt r clock).lands r.sync (r.ticks clock).mclk (srAt r clock) <;>
    cases (r.ticks clock).page <;> rfl

end Applied

section Cable

variable (r : SpyRun)

def dbginAt (clock : Nat) : Dbgin := (run r clock).dbgin

/-- The trailing edge of a request. -/
def Lifts (clock : Nat) : Prop :=
  (r.ticks clock).cable.req = false ∧ ∃ before, clock = before + 1 ∧ (r.ticks before).cable.req = true

/-- The word on the cable at the last lift of a strobe. -/
def LastLift (a : BitVec 2) (clock : Nat) (word : Word) : Prop :=
  ∃ lift, lift < clock ∧ Lifts r lift ∧ (r.ticks lift).cable.a = a ∧ (r.ticks lift).cable.dbd = word ∧
    ∀ tick, lift < tick → tick < clock → ¬ (Lifts r tick ∧ (r.ticks tick).cable.a = a)

variable {r} {clock : Nat}

theorem lift_iff : (dbginAt r clock).lift (r.ticks clock).cable = true ↔ Lifts r clock := by
  unfold Dbgin.lift Lifts
  rw [Bool.and_eq_true, Bool.not_eq_true', and_comm]
  refine and_congr_right fun _ => ?_
  cases clock with
  | zero => exact ⟨(fun no => nomatch no), fun no => nomatch no⟩
  | succ before =>
    constructor
    · exact fun up => ⟨before, rfl, up⟩
    · rintro ⟨_, is, up⟩
      obtain rfl := Nat.succ.inj is
      exact up

theorem address_succ : (dbginAt r (clock + 1)).address =
    if (dbginAt r clock).lift (r.ticks clock).cable && (r.ticks clock).cable.a = 3
    then (r.ticks clock).cable.dbd else (dbginAt r clock).address := rfl

theorem modifier_succ : (dbginAt r (clock + 1)).modifier =
    if (dbginAt r clock).lift (r.ticks clock).cable && (r.ticks clock).cable.a = 2
    then (r.ticks clock).cable.dbd.extractLsb' 0 3 else (dbginAt r clock).modifier := rfl

theorem held_of_lastLift {α : Type} (latch : Nat → α) (load : Word → α) {a : BitVec 2} {word : Word}
    (loads : ∀ clock, Lifts r clock ∧ (r.ticks clock).cable.a = a →
      latch (clock + 1) = load (r.ticks clock).cable.dbd)
    (stands : ∀ clock, ¬ (Lifts r clock ∧ (r.ticks clock).cable.a = a) → latch (clock + 1) = latch clock)
    (last : LastLift r a clock word) : latch clock = load word := by
  obtain ⟨lift, before, lifts, is, rfl, later⟩ := last
  induction clock, before using Nat.le_induction with
  | base => exact loads lift ⟨lifts, is⟩
  | succ clock before ih =>
    rw [stands clock (later clock before (Nat.lt_succ_self _))]
    exact ih fun tick lo hi => later tick lo (Nat.lt_succ_of_lt hi)

theorem lift_and {a : BitVec 2} : ((dbginAt r clock).lift (r.ticks clock).cable &&
    decide ((r.ticks clock).cable.a = a)) = true ↔ Lifts r clock ∧ (r.ticks clock).cable.a = a := by
  rw [Bool.and_eq_true, lift_iff, decide_eq_true_iff]

theorem address_held {word : Word} (last : LastLift r 3 clock word) : (dbginAt r clock).address = word :=
  held_of_lastLift (fun clock => (dbginAt r clock).address) id
    (fun clock is => by rw [address_succ, if_pos (lift_and.mpr is)]; rfl)
    (fun clock no => by rw [address_succ, if_neg fun is => no (lift_and.mp is)]) last

theorem modifier_held {word : Word} (last : LastLift r 2 clock word) :
    (dbginAt r clock).modifier = word.extractLsb' 0 3 :=
  held_of_lastLift (fun clock => (dbginAt r clock).modifier) (fun w => w.extractLsb' 0 3)
    (fun clock is => by rw [modifier_succ, if_pos (lift_and.mpr is)])
    (fun clock no => by rw [modifier_succ, if_neg fun is => no (lift_and.mp is)]) last

theorem xfer_stays {later : Nat} (after : clock ≤ later) (xfer : (dbginAt r clock).cst = .xfer)
    (req : ∀ tick, clock ≤ tick → tick < later → (r.ticks tick).cable.req = true) :
    (dbginAt r later).cst = .xfer := by
  induction later, after using Nat.le_induction with
  | base => exact xfer
  | succ later after ih =>
    have now := ih fun tick lo hi => req tick lo (Nat.lt_succ_of_lt hi)
    unfold dbginAt at now ⊢
    rw [run_succ, cst_next, now, req later after (Nat.lt_succ_self _)]
    rfl

theorem xfer_addr (xfer : (dbginAt r clock).cst = .xfer) :
    masterAt r clock = .debug ∧ (srAt r clock).msyn = true ∧
      (srAt r clock).addr = (dbginAt r clock).modifier.extractLsb' 0 1 ++
        (dbginAt r clock).address ++ (0 : BitVec 1) := by
  have owned : Owned (run r clock) := owned_run
  have own := owned.debug (Or.inr (Or.inl xfer))
  unfold masterAt ConsoleBus.master srAt sr ConsoleBus.srLines
  rw [own]
  exact ⟨rfl, decide_eq_true xfer, rfl⟩

end Cable

section Shared

variable (r : SpyRun)

/-- The masters are kept apart: the bus has one owner and changes hands with the strobe down, a processor's cycle
is not broken, an answer is to its owner's strobe and goes to it alone, and the cable's cycles are one a request,
at its latched address. -/
structure Apart : Prop where
  owner : ∀ clock, ¬((run r clock).bus.dbgOwn = true ∧ (run r clock).bus.conOwn = true)
  falls : ∀ clock later, clock < later → (srAt r clock).msyn = true → masterAt r clock ≠ masterAt r later →
    ∃ between, clock < between ∧ between < later ∧ (srAt r between).msyn = false
  stays : ∀ clock, masterAt r clock = .processor → (r.ticks clock).cpu.msyn = true →
    (r.ticks (clock + 1)).cpu.msyn = true → masterAt r (clock + 1) = .processor ∧
      (srAt r (clock + 1)).msyn = true
  answers : ∀ clock, (regsAt r clock).ubSsyn = true → ∀ k, k < SSYN_T → k < clock ∧
    (srAt r (clock - 1 - k)).msyn = true ∧ masterAt r (clock - 1 - k) = masterAt r clock
  answered : ∀ clock, let s := run r clock
    (s.bus.cpuSsyn s.regs.ubSsyn = true ↔ s.regs.ubSsyn = true ∧ s.bus.master = .processor) ∧
    (s.bus.dbgSsyn s.regs.ubSsyn = true ↔ s.regs.ubSsyn = true ∧ s.bus.master = .debug) ∧
    (s.bus.conSsyn s.regs.ubSsyn = true ↔ s.regs.ubSsyn = true ∧ s.bus.master = .console)
  cycle : ∀ clock, (dbginAt r clock).cst = .xfer → (masterAt r clock = .debug ∧ (srAt r clock).msyn = true ∧
      ∀ address modifier, LastLift r 3 clock address → LastLift r 2 clock modifier →
        (srAt r clock).addr = modifier.extractLsb' 0 1 ++ address ++ (0 : BitVec 1)) ∧
    ∀ later, clock ≤ later → (∀ tick, clock ≤ tick → tick < later → (r.ticks tick).cable.req = true) →
      (dbginAt r later).cst = .xfer

/-- Every write strobed is applied once: it has one tick to land in, which comes with the next look unless a boot
does first; it lands there, and nothing else but a write due at SPEEDCLK lands anywhere; they land in the order
of their strobes, each kept till then; and only what lands, the page and the boot change the registers. -/
structure Applied : Prop where
  once : ∀ strobe clock clock', LandsAt r strobe clock → LandsAt r strobe clock' → clock = clock'
  comes : ∀ strobe look, Strobes r strobe = true → strobe < look → Looks r look = true →
    (∀ tick, strobe ≤ tick → tick < look → (r.ticks tick).booting = false) →
    ∃ clock, clock ≤ look ∧ LandsAt r strobe clock
  order : ∀ strobe later clock clock', strobe < later → LandsAt r strobe clock →
    LandsAt r later clock' → clock < clock'
  kept : ∀ strobe clock, Waits r strobe clock → (regsAt r clock).held = writeAt r strobe
  lands : ∀ strobe clock, LandsAt r strobe clock → Shared.lands r clock = some (writeAt r strobe)
  speed : ∀ clock, SpeedLooks r clock → Due r clock → Shared.lands r clock = some (writeAt r clock)
  rest : ∀ clock, (∀ strobe, ¬LandsAt r strobe clock) → ¬(SpeedLooks r clock ∧ Due r clock) →
    Shared.lands r clock = none
  console : ∀ clock, (regsAt r (clock + 1)).console = settled (r.ticks clock)
    ((Shared.lands r clock).elim (regsAt r clock).console
      (regsAt r clock).console.land)

theorem apart : Apart r where
  owner _ := owned_run.apart
  falls _ _ := strobe_falls
  stays _ := processor_stays
  answers _ answer _ inside := elapsed_mine _ (Nat.lt_of_lt_of_le inside (elapsed_of_ubSsyn answer))
  answered clock := by
    have owned : Owned (run r clock) := owned_run
    have apart := owned.apart
    unfold ConsoleBus.cpuSsyn ConsoleBus.dbgSsyn ConsoleBus.conSsyn ConsoleBus.master
    dsimp only
    cases dbg : (run r clock).bus.dbgOwn <;>
      cases con : (run r clock).bus.conOwn <;> simp
  cycle clock xfer := by
    obtain ⟨mine, up, addr⟩ := xfer_addr xfer
    refine ⟨⟨mine, up, fun address modifier lastAddress lastModifier => ?_⟩, fun later after req =>
      xfer_stays after xfer req⟩
    rw [addr, address_held lastAddress, modifier_held lastModifier]
    congr 2
    ext k
    simp

variable {r}

/-- Every write is applied once, and in order. -/
theorem applied (keeps : Keeps r) (alone : Alone r) : Applied r where
  once _ _ _ at_ again := at_.once again
  comes _ _ := landsAt_of_looks
  order _ _ _ _ after at_ then_ := at_.order keeps alone after then_
  kept _ _ waits := (waits.held keeps alone).2
  lands _ _ at_ := at_.lands keeps alone
  speed _ speed due := lands_of_early (early_of_speed keeps speed due)
  console _ := console_succ
  rest clock none_ undue := by
    cases landed : Shared.lands r clock with
    | none => rfl
    | some w =>
      obtain due | ⟨strobe, at_⟩ := landsAt_of_lands keeps landed
      · exact absurd due undue
      · exact absurd at_ (none_ strobe)

end Shared

section Parked

/-- The generator parked: the console writes the mode register, and then the processor the clock control
register. -/
def parked (clock : Nat) : SpyTick where
  mclk := false
  booting := false
  page := none
  spyRdata := 0
  cpu := if 10 ≤ clock ∧ clock < 70 then ⟨true, true, 0o766006, 1⟩ else ⟨false, false, 0, 0⟩
  cable := ⟨false, false, 0, 0⟩
  ask := if clock = 0 then some ⟨true, 5, 0x20⟩ else none
  giveUp := false

end Parked

end Shared

end MuirFpga.Spy
