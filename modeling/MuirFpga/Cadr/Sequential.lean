import MuirFpga.Cadr.Boundary

/-!
# One microcycle at a time

The machine a microprogrammer has in mind, and that the tick-by-tick processor is one. An A
or M operand is the memory as every earlier instruction left it, a control-store word is what
was written there last; a PDL word and a pushed address are in their memories one instruction
later, and a return takes the standing push. The words MD, the maps, the dispatch memory and
the interrupt line give are taken from the run, and so are the lines of the console and of the
boot's trap. There is no clock here: no phase, no pulse, no latch and no pass-around.
-/

namespace MuirFpga.Cadr

/-- What one instruction of the sequential machine is fed. -/
structure Feed where
  trap : Bool
  promdisabled : Bool
  nop11 : Bool
  idebug : Bool
  ldstat : Bool
  debugIr : BitVec 48
  md : BitVec 32
  vmap : BitVec 5
  vmo : BitVec 24
  pfr : Bool
  pfw : Bool
  dmem : BitVec 11 → BitVec 17
  sintr : Bool

/-- The sequential machine: the registers, and its memories. -/
structure Sequential where
  regs : Regs
  prom : BitVec 10 → BitVec 48
  imem : BitVec 14 → BitVec 48
  amem : BitVec 10 → BitVec 32
  mmem : BitVec 5 → BitVec 32
  pdl : BitVec 10 → BitVec 32
  spcm : BitVec 5 → BitVec 19

namespace Sequential

/-- The instruction as it is decoded. -/
def inst (f : Feed) (q : Sequential) : Inst := { regs := q.regs, trap := f.trap, nop11 := f.nop11 }

/-- The word fetched: off the console, the boot PROM or the control store. -/
def fetch (f : Feed) (q : Sequential) : BitVec 48 :=
  if f.idebug then f.debugIr
  else if decide (q.regs.pc.toNat < 1024) && !f.promdisabled && !q.regs.iwrited then
    q.prom (q.regs.pc.extractLsb' 0 10)
  else q.imem q.regs.pc

/-- What the instruction stands on: every operand out of its memory. -/
def view (f : Feed) (q : Sequential) : View :=
  { q.inst f with
    idebug := f.idebug, ldstat := f.ldstat, i := q.fetch f, a := q.amem (q.inst f).aadr,
    mmemOut := q.mmem (q.inst f).madr, pdlQ := q.pdl (q.inst f).pdlaRead,
    spcQ := q.spcm q.regs.spcptr, md := f.md, vmap := f.vmap, vmo := f.vmo, pfr := f.pfr,
    pfw := f.pfw, dmem := f.dmem, sintr := f.sintr }

/-- One instruction. A, M and the control store are written at once; the PDL buffer and the
micro stack take the word of the instruction before. -/
def step (q : Sequential) (f : Feed) : Sequential where
  regs := (q.view f).regsNext
  prom := q.prom
  imem := if (q.view f).iwrite then
      Function.update q.imem (q.view f).npc ((q.view f).a.extractLsb' 0 16 ++ (q.view f).m)
    else q.imem
  amem := if (q.view f).dest then Function.update q.amem (q.view f).wadrIn (q.view f).ob
    else q.amem
  mmem := if (q.view f).destm then
      Function.update q.mmem ((q.view f).wadrIn.extractLsb' 0 5) (q.view f).ob
    else q.mmem
  pdl := if q.regs.pdlwrited then Function.update q.pdl (q.inst f).pdlaWrite q.regs.l else q.pdl
  spcm := if q.regs.spushd then Function.update q.spcm q.regs.spcptr (q.inst f).spcw else q.spcm

/-- A run of the machine. -/
def run (q : Sequential) (feeds : List Feed) : Sequential := feeds.foldl step q

/-- The machine in reset, over memories as they stand. -/
def reset (mems : Mems) : Sequential where
  regs := Machine.resetRegs
  prom := mems.prom
  imem := mems.imem
  amem := mems.amem
  mmem := mems.mmem
  pdl := mems.pdl
  spcm := mems.spcm

end Sequential

namespace Processor

/-- The control store with the standing write in it. -/
def imemLeft (s : Processor) : BitVec 14 → BitVec 48 :=
  if s.regs.iwrited then Function.update s.mems.imem s.regs.pc s.regs.iwr else s.mems.imem

/-- A memory with the standing write in it. -/
def amemLeft (s : Processor) : BitVec 10 → BitVec 32 :=
  if s.regs.destd then Function.update s.mems.amem s.regs.wadr s.regs.l else s.mems.amem

/-- M memory with the standing write in it. -/
def mmemLeft (s : Processor) : BitVec 5 → BitVec 32 :=
  if s.regs.destmd then
    Function.update s.mems.mmem (s.regs.wadr.extractLsb' 0 5) s.regs.l
  else s.mems.mmem

/-- What a cpu edge feeds the sequential machine. -/
def feed (i : ProcIn) (s : Processor) : Feed where
  trap := s.olord.trap
  promdisabled := s.olord.promdisabled
  nop11 := i.spy.nop11
  idebug := i.spy.idebug
  ldstat := i.spy.ldstat
  debugIr := i.spy.debugIr
  md := s.mdp.md
  vmap := s.vmap
  vmo := s.vmo
  pfr := s.pfr
  pfw := s.pfw
  dmem := s.mems.dmem
  sintr := i.sintr

/-- The processor at a boundary is the sequential machine: its registers, its memories with
the standing writes of A, M and the control store in them. -/
structure Matches (s : Processor) (q : Sequential) : Prop where
  regs : s.regs = q.regs
  prom : s.mems.prom = q.prom
  imem : s.imemLeft = q.imem
  amem : s.amemLeft = q.amem
  mmem : s.mmemLeft = q.mmem
  pdl : s.mems.pdl = q.pdl
  spcm : s.mems.spcm = q.spcm

end Processor

namespace Machine

open Processor

/-- What the cpu edges of a run before a clock have fed, in their order. -/
def feeds (s : Nat → Machine) (inputs : Nat → MachIn) : Nat → List Feed
  | 0 => []
  | t + 1 => feeds s inputs t ++
    if (s t).cpu.cpuEdge ((s t).procIn (inputs t)) then [(s t).cpu.feed ((s t).procIn (inputs t))]
    else []

section

variable {s : Nat → Machine} {inputs : Nat → MachIn} {b e : Nat}

variable (run : Unbooted s inputs) (spans : Spans s b e)

include run spans

theorem Unbooted.wp_eq {t : Nat} (after : b < t) (upTo : t ≤ e) : (s t).cpu.wp ((s t).procIn (inputs t)) =
      (decide (t = pulseEnd s b) && (s e).cpu.machrun ((s e).procIn (inputs e))) := by
  have ends : pulseEnd s b = b + offAt s b + 7 := rfl
  rw [wp, run.wpEnd_iff spans.first after (spans.opened.mono (by omega))]
  by_cases here : t = pulseEnd s b
  · rw [run.machrun_open spans.first (by omega : b + 6 ≤ t) upTo spans.opened]
  · simp [here]

/-- The tick the control store is written in. -/
def storeAt (s : Nat → Machine) (b : Nat) : Nat := b + offAt s b + 1

theorem Unbooted.iwe_eq {t : Nat} (after : b < t) (upTo : t ≤ e) : (s t).cpu.iwe ((s t).procIn (inputs t)) =
      ((s e).cpu.regs.iwrited && decide (t = storeAt s b) &&
        (s e).cpu.machrun ((s e).procIn (inputs e))) := by
  have place : storeAt s b = b + offAt s b + 1 := rfl
  have offLow : 7 ≤ offAt s b := (run.placed (b + 7)).clock.gen.read_low
  have regs := run.regs_open after upTo spans.opened
  have pulse := (run.placed t).clock.gen.wpiram
  have copy := (run.placed t).clock.iramQ
  have falls : (!(s t).cpu.clock.gen.nTpwpiram && (s t).cpu.clock.nTpwpiramQ) =
      decide (t = storeAt s b) := by
    rw [pulse, copy]
    obtain early | late := Nat.lt_or_ge t (b + 7)
    · obtain ⟨n, rfl⟩ : ∃ n, t = b + n := ⟨t - b, by omega⟩
      have phase := (run.first_ticks spans.first n (by omega) (by omega)).1
      have low := (run.placed (b + n)).clock.gen.read_low
      grind
    · by_cases here : t = e
      · subst here
        have zero := (phase_of_mclkEdge (run.placed t).clock spans.last).2
        have ends := run.pulseEnd_le spans
        simp only [pulseEnd] at ends
        grind
      · obtain ⟨taps, -, phase⟩ := run.phase_open spans.first late (spans.opened.mono (by omega))
        grind
  have shape : (s t).cpu.iwe ((s t).procIn (inputs t)) = ((s t).cpu.regs.iwrited &&
      (!(s t).cpu.clock.gen.nTpwpiram && (s t).cpu.clock.nTpwpiramQ) &&
      (s t).cpu.machrun ((s t).procIn (inputs t))) := by
    simp only [iwe, Bool.and_assoc]
  rw [shape, falls, regs]
  by_cases here : t = storeAt s b
  · rw [run.machrun_open spans.first (by omega : b + 6 ≤ t) upTo spans.opened]
  · simp [here]

theorem Unbooted.pulsed {Value : Type*} (memory : Mems → Value)
    (kept : ∀ t, (s t).cpu.wp ((s t).procIn (inputs t)) = false →
      memory (s (t + 1)).cpu.mems = memory (s t).cpu.mems) :
    (∀ t, b < t → t ≤ pulseEnd s b → memory (s t).cpu.mems = memory (s (b + 1)).cpu.mems) ∧
      memory (s (e + 1)).cpu.mems = memory (s (pulseEnd s b + 1)).cpu.mems := by
  have ends := run.pulseEnd_le spans
  have first : pulseEnd s b = b + offAt s b + 7 := rfl
  obtain ⟨before, after⟩ := Sync.stands_around (fun t => memory (s t).cpu.mems) b
    (pulseEnd s b) e fun t late upTo apart => by
      refine kept t ?_
      rw [run.wp_eq spans late upTo]
      simp [apart]
  exact ⟨fun t late upTo => before t late upTo (by omega),
    after (e + 1) (by omega) (by omega) (Nat.le_refl _)⟩

theorem Unbooted.wp_pulseEnd :
    (s (pulseEnd s b)).cpu.wp ((s (pulseEnd s b)).procIn (inputs (pulseEnd s b))) =
      (s e).cpu.machrun ((s e).procIn (inputs e)) := by
  have first : pulseEnd s b = b + offAt s b + 7 := rfl
  rw [run.wp_eq spans (by omega) (run.pulseEnd_le spans)]
  simp

/-- A latch that follows a memory while TPCLK is high has at the boundary the word the memory
had at the start of the cycle, at the address the registers give. -/
theorem Unbooted.latched {Address Word : Type*}
    (memory : Mems → Address → Word) (latch : Mems → Word) (address : Regs → Address)
    (kept : ∀ t, (s t).cpu.wp ((s t).procIn (inputs t)) = false →
      memory (s (t + 1)).cpu.mems = memory (s t).cpu.mems)
    (follows : ∀ t, latch (s (t + 1)).cpu.mems = if (s t).cpu.clock.gen.tpclk then
      memory (s t).cpu.mems (address (s t).cpu.regs) else latch (s t).cpu.mems) :
    latch (s e).cpu.mems = memory (s (b + 1)).cpu.mems (address (s e).cpu.regs) := by
  have ends := run.pulseEnd_le spans
  have first : pulseEnd s b = b + offAt s b + 7 := rfl
  have offLow : 7 ≤ offAt s b := (run.placed (b + 7)).clock.gen.read_low
  -- The last tick of the read phase.
  have high : (s (b + offAt s b)).cpu.clock.gen.tpclk = true := by
    obtain ⟨taps, running, phase⟩ := run.phase_open spans.first
      (by omega : b + 7 ≤ b + offAt s b) (spans.opened.mono (by omega))
    rw [(run.placed _).clock.gen.clk, taps, running, phase, if_pos (by omega)]
    simp
  have follow := follows (b + offAt s b)
  rw [high, if_pos rfl, (run.pulsed spans memory kept).1 _ (by omega) (by omega),
    ← run.regs_open (by omega : b < b + offAt s b) (by omega : b + offAt s b ≤ e)
      spans.opened] at follow
  rw [← follow]
  refine Sync.stands_between (fun t => latch (s t).cpu.mems) (by omega) fun t late early => ?_
  have low := run.tpclk_open spans.first (by omega : b + offAt s b < t)
    (spans.opened.mono (by omega))
  have still := follows t
  rw [low] at still
  simpa using still

/-- The memories the pulse writes, after a cycle: the standing writes are in them if the cycle
ended in a cpu edge, and else nothing is. -/
theorem Unbooted.mems_after :
    (s (e + 1)).cpu.mems.amem = (if (s e).cpu.machrun ((s e).procIn (inputs e)) then
        (s (b + 1)).cpu.amemLeft else (s (b + 1)).cpu.mems.amem) ∧
      (s (e + 1)).cpu.mems.mmem = (if (s e).cpu.machrun ((s e).procIn (inputs e)) then
        (s (b + 1)).cpu.mmemLeft else (s (b + 1)).cpu.mems.mmem) ∧
      (s (e + 1)).cpu.mems.pdl = (if (s e).cpu.machrun ((s e).procIn (inputs e)) &&
          (s e).cpu.regs.pdlwrited then
        Function.update (s (b + 1)).cpu.mems.pdl (s e).inst.pdlaWrite (s e).cpu.regs.l
        else (s (b + 1)).cpu.mems.pdl) ∧
      (s (e + 1)).cpu.mems.spcm = (if (s e).cpu.machrun ((s e).procIn (inputs e)) &&
          (s e).cpu.regs.spushd then
        Function.update (s (b + 1)).cpu.mems.spcm (s e).cpu.regs.spcptr (s e).inst.spcw
        else (s (b + 1)).cpu.mems.spcm) := by
  have ends := run.pulseEnd_le spans
  have first : pulseEnd s b = b + offAt s b + 7 := rfl
  have pulse := run.wp_pulseEnd spans
  have regsEnd := run.regs_open (by omega : b < pulseEnd s b) ends spans.opened
  have regsFirst := run.regs_open (by omega : b < b + 1) (by omega : b + 1 ≤ e) spans.opened
  have regs : (s (b + 1)).cpu.regs = (s (pulseEnd s b)).cpu.regs := by rw [← regsFirst, regsEnd]
  refine ⟨?_, ?_, ?_, ?_⟩
  · obtain ⟨before, after⟩ := run.pulsed spans Mems.amem fun t low => by
      simp [run.step t, Machine.next, Processor.next, memsNext, low]
    rw [after, amemLeft, ← before _ (by omega) (Nat.le_refl _), regs, run.step]
    simp only [Machine.next, Processor.next, memsNext, pulse]
    split <;> simp_all
  · obtain ⟨before, after⟩ := run.pulsed spans Mems.mmem fun t low => by
      simp [run.step t, Machine.next, Processor.next, memsNext, low]
    rw [after, mmemLeft, ← before _ (by omega) (Nat.le_refl _), regs, run.step]
    simp only [Machine.next, Processor.next, memsNext, pulse]
    split <;> simp_all
  · obtain ⟨before, after⟩ := run.pulsed spans Mems.pdl fun t low => by
      simp [run.step t, Machine.next, Processor.next, memsNext, low]
    rw [after, ← before _ (by omega) (Nat.le_refl _), run.step]
    simp only [Machine.next, Processor.next, memsNext, pulse, Inst.pdlaWrite, Processor.inst,
      Machine.inst, regsEnd]
    rfl
  · obtain ⟨before, after⟩ := run.pulsed spans Mems.spcm fun t low => by
      simp [run.step t, Machine.next, Processor.next, memsNext, low]
    rw [after, ← before _ (by omega) (Nat.le_refl _), run.step]
    simp only [Machine.next, Processor.next, memsNext, pulse, Inst.spcw, Processor.inst,
      Machine.inst, regsEnd]
    rfl

theorem Unbooted.imem_after :
    (s (e + 1)).cpu.mems.imem = (if (s e).cpu.machrun ((s e).procIn (inputs e)) then
        (s (b + 1)).cpu.imemLeft else (s (b + 1)).cpu.mems.imem) ∧
      (s e).cpu.mems.imemQ = (s (e + 1)).cpu.mems.imem (s e).cpu.regs.pc := by
  have ends := run.pulseEnd_le spans
  have first : pulseEnd s b = b + offAt s b + 7 := rfl
  have place : storeAt s b = b + offAt s b + 1 := rfl
  have regsStore := run.regs_open (by omega : b < storeAt s b) (by omega) spans.opened
  have regsFirst := run.regs_open (by omega : b < b + 1) (by omega : b + 1 ≤ e) spans.opened
  obtain ⟨before, after⟩ := Sync.stands_around (fun t => (s t).cpu.mems.imem) b (storeAt s b) e
    fun t late upTo apart => by
      have low := run.iwe_eq spans late upTo
      simp only [decide_eq_false apart, Bool.and_false, Bool.false_and] at low
      simp [run.step t, Machine.next, Processor.next, memsNext, low]
  have store := run.iwe_eq spans (by omega : b < storeAt s b) (by omega)
  have last : (s (e + 1)).cpu.mems.imem = (s (storeAt s b + 1)).cpu.mems.imem :=
    after (e + 1) (by omega) (by omega) (Nat.le_refl _)
  constructor
  · have same : (s (storeAt s b)).cpu.mems.imem = (s (b + 1)).cpu.mems.imem :=
      before (storeAt s b) (by omega) (Nat.le_refl _) (by omega)
    rw [last, imemLeft, ← same, run.step]
    simp only [Machine.next, Processor.next, memsNext, store, ← regsFirst, ← regsStore]
    cases (s e).cpu.machrun ((s e).procIn (inputs e)) <;> cases (s e).cpu.regs.iwrited <;> simp
  · obtain ⟨p, rfl⟩ : ∃ p, e = p + 1 := ⟨e - 1, by omega⟩
    have early : (s p).cpu.mems.imem = (s (storeAt s b + 1)).cpu.mems.imem :=
      after p (by omega) (by omega) (by omega)
    have regs := run.regs_open (by omega : b < p) (Nat.le_succ p) spans.opened
    rw [last, ← early, regs, run.step p]
    rfl

theorem Unbooted.latches :
    (s e).cpu.mems.amemQ = (s (b + 1)).cpu.mems.amem (s e).inst.aadr ∧
      (s e).cpu.mems.mmemQ = (s (b + 1)).cpu.mems.mmem (s e).inst.madr ∧
      (s e).cpu.mems.pdlQ = (s (b + 1)).cpu.mems.pdl (s e).inst.pdlaRead ∧
      (s e).cpu.mems.spcQ = (s (b + 1)).cpu.mems.spcm (s e).cpu.regs.spcptr := by
  refine ⟨?_, ?_, ?_, ?_⟩
  · refine run.latched spans Mems.amem Mems.amemQ (fun r => r.ir.extractLsb' 32 10) ?_ ?_
    · intro t low
      simp [run.step t, Machine.next, Processor.next, memsNext, low]
    · intro t
      rw [run.step t]
      rfl
  · refine run.latched spans Mems.mmem Mems.mmemQ (fun r => r.ir.extractLsb' 26 5) ?_ ?_
    · intro t low
      simp [run.step t, Machine.next, Processor.next, memsNext, low]
    · intro t
      rw [run.step t]
      rfl
  · refine run.latched spans Mems.pdl Mems.pdlQ
      (fun r => if r.ir.getLsbD 30 then r.pdlPtr else r.pdlIdx) ?_ ?_
    · intro t low
      simp [run.step t, Machine.next, Processor.next, memsNext, low]
    · intro t
      rw [run.step t]
      rfl
  · refine run.latched spans Mems.spcm Mems.spcQ (fun r => r.spcptr) ?_ ?_
    · intro t low
      simp [run.step t, Machine.next, Processor.next, memsNext, low]
    · intro t
      rw [run.step t]
      rfl

theorem Unbooted.prom_open :
    (s (e + 1)).cpu.mems.prom = (s (b + 1)).cpu.mems.prom ∧
      (s e).cpu.mems.promQ = (s (b + 1)).cpu.mems.prom ((s e).cpu.regs.pc.extractLsb' 0 10) := by
  have ends := run.pulseEnd_le spans
  have first : pulseEnd s b = b + offAt s b + 7 := rfl
  have stands : ∀ t, b < t → (s t).cpu.mems.prom = (s (b + 1)).cpu.mems.prom := by
    intro t after
    refine Sync.stands_between (fun t => (s t).cpu.mems.prom) after fun u late early => ?_
    simp only [run.step u]
    rfl
  obtain ⟨p, rfl⟩ : ∃ p, e = p + 1 := ⟨e - 1, by omega⟩
  have regs := run.regs_open (by omega : b < p) (Nat.le_succ p) spans.opened
  refine ⟨stands _ (by omega), ?_⟩
  rw [← stands p (by omega), regs, run.step p]
  rfl

omit run spans in
theorem update_apply {Address Word : Type*} [DecidableEq Address] (on : Bool)
    (memory : Address → Word) (written read : Address) (word : Word) :
    (if on then Function.update memory written word else memory) read =
      if on && written == read then word else memory read := by
  cases on
  · rfl
  · by_cases here : written = read
    · simp [here]
    · simp [here, Function.update_of_ne (Ne.symm here)]

theorem Unbooted.view_eq (runs : (s e).cpu.machrun ((s e).procIn (inputs e)) = true) {q : Sequential}
    (same : (s (b + 1)).cpu.Matches q) :
    (s e).cpu.view ((s e).procIn (inputs e)) = q.view ((s e).cpu.feed ((s e).procIn (inputs e))) := by
  have ends := run.pulseEnd_le spans
  have first : pulseEnd s b = b + offAt s b + 7 := rfl
  have regs := run.regs_open (by omega : b < b + 1) (by omega : b + 1 ≤ e) spans.opened
  have regsQ : (s e).cpu.regs = q.regs := by rw [regs, same.regs]
  obtain ⟨amemQ, mmemQ, pdlQ, spcQ⟩ := run.latches spans
  obtain ⟨-, promQ⟩ := run.prom_open spans
  obtain ⟨imem, imemQ⟩ := run.imem_after spans
  rw [imem, runs, if_pos rfl, same.imem, regsQ] at imemQ
  rw [same.prom, regsQ] at promQ
  have a : ((s e).cpu.inst ((s e).procIn (inputs e))).aPass (s e).cpu.mems.amemQ =
      q.amem (s e).inst.aadr := by
    rw [← same.amem, amemLeft, update_apply, amemQ, ← regs]
    rfl
  have m : ((s e).cpu.inst ((s e).procIn (inputs e))).mPass (s e).cpu.mems.mmemQ =
      q.mmem (s e).inst.madr := by
    rw [← same.mmem, mmemLeft, update_apply, mmemQ, ← regs]
    rfl
  have i : (s e).cpu.iBus ((s e).procIn (inputs e)) =
      q.fetch ((s e).cpu.feed ((s e).procIn (inputs e))) := by
    simp only [iBus, promenable, Sequential.fetch, feed, imemQ, promQ, regsQ]
    by_cases idebug : ((s e).procIn (inputs e)).spy.idebug = true <;> simp [idebug]
  have inst : (s e).inst = q.inst ((s e).cpu.feed ((s e).procIn (inputs e))) := by
    simp only [Machine.inst, Sequential.inst, regsQ]
    rfl
  simp only [view, Sequential.view, a, m, i, pdlQ, spcQ, same.pdl, same.spcm, ← inst, regsQ]
  rfl

theorem Unbooted.matches_next {q : Sequential} (same : (s (b + 1)).cpu.Matches q) :
    (s (e + 1)).cpu.Matches (if (s e).cpu.cpuEdge ((s e).procIn (inputs e)) then
      q.step ((s e).cpu.feed ((s e).procIn (inputs e))) else q) := by
  have ends := run.pulseEnd_le spans
  have first : pulseEnd s b = b + offAt s b + 7 := rfl
  have edge := spans.last
  have high : ((s e).procIn (inputs e)).nBoot = true := run.high e
  have regs := run.regs_open (by omega : b < b + 1) (by omega : b + 1 ≤ e) spans.opened
  obtain ⟨amem, mmem, pdl, spcm⟩ := run.mems_after spans
  obtain ⟨imem, -⟩ := run.imem_after spans
  obtain ⟨prom, -⟩ := run.prom_open spans
  simp only [cpuEdge, edge, Bool.true_and]
  by_cases runs : (s e).cpu.machrun ((s e).procIn (inputs e)) = true
  · have view := run.view_eq spans runs same
    have moved : (s (e + 1)).cpu.regs =
        (q.view ((s e).cpu.feed ((s e).procIn (inputs e)))).regsNext := by
      rw [run.step e, ← view]
      simp [Machine.next, Processor.next, regsNext, cpuEdge, edge, runs, high]
    have regsQ : (s e).cpu.regs = q.regs := by rw [regs, same.regs]
    have inst : (s e).inst = q.inst ((s e).cpu.feed ((s e).procIn (inputs e))) := by
      simp only [Machine.inst, Sequential.inst, regsQ]
      rfl
    simp only [runs, if_true, Bool.true_and] at imem amem mmem pdl spcm ⊢
    constructor
    case regs => exact moved
    case prom => rw [prom, same.prom, Sequential.step]
    case imem => rw [imemLeft, moved, imem, same.imem, Sequential.step, View.regsNext]
    case amem => rw [amemLeft, moved, amem, same.amem, Sequential.step, View.regsNext]
    case mmem => rw [mmemLeft, moved, mmem, same.mmem, Sequential.step, View.regsNext]
    case pdl => rw [pdl, same.pdl, regsQ, inst, Sequential.step]
    case spcm => rw [spcm, same.spcm, regsQ, inst, Sequential.step]
  · have still : (s (e + 1)).cpu.regs = (s (b + 1)).cpu.regs := by
      rw [run.step e, ← regs]
      simp [Machine.next, Processor.next, regsNext, cpuEdge, edge, runs, high]
    simp only [runs, Bool.false_eq_true, if_false, Bool.false_and] at imem amem mmem pdl spcm ⊢
    constructor
    case regs => rw [still, same.regs]
    case prom => rw [prom, same.prom]
    case imem => rw [imemLeft, still, imem, ← same.imem, imemLeft]
    case amem => rw [amemLeft, still, amem, ← same.amem, amemLeft]
    case mmem => rw [mmemLeft, still, mmem, ← same.mmem, mmemLeft]
    case pdl => rw [pdl, same.pdl]
    case spcm => rw [spcm, same.spcm]

omit spans in
theorem Unbooted.matches_first {mems : Mems} {noAutoBoot : Bool} (start : s 0 = reset mems noAutoBoot) :
    (s 1).cpu.boundary = true ∧ (s 0).cpu.mclkEdge = false ∧ (s 1).cpu.mclkEdge = false ∧
      (s 2).cpu.Matches (Sequential.reset mems) := by
  have one : s 1 = (reset mems noAutoBoot).next (inputs 0) := by rw [run.step 0, start]
  have high : ∀ t, ((s t).procIn (inputs t)).nBoot = true := fun t => run.high t
  have still0 : (s 0).cpu.mclkEdge = false := by
    rw [start]
    rfl
  have still1 : (s 1).cpu.mclkEdge = false := by
    rw [one]
    rfl
  have regs0 : (s 0).cpu.regs = resetRegs := by
    rw [start]
    rfl
  have regs1 : (s 1).cpu.regs = resetRegs := by
    rw [run.step 0, ← regs0]
    exact regs_kept still0 (run.high 0)
  have regs2 : (s 2).cpu.regs = resetRegs := by
    rw [run.step 1, ← regs1]
    exact regs_kept still1 (run.high 1)
  -- Nothing stands to be written before the first instruction.
  have kept : ∀ t, (s t).cpu.regs = resetRegs →
      (s (t + 1)).cpu.mems.prom = (s t).cpu.mems.prom ∧
      (s (t + 1)).cpu.mems.imem = (s t).cpu.mems.imem ∧
      (s (t + 1)).cpu.mems.amem = (s t).cpu.mems.amem ∧
      (s (t + 1)).cpu.mems.mmem = (s t).cpu.mems.mmem ∧
      (s (t + 1)).cpu.mems.pdl = (s t).cpu.mems.pdl ∧
      (s (t + 1)).cpu.mems.spcm = (s t).cpu.mems.spcm := by
    intro t regs
    rw [run.step t]
    simp [Machine.next, Processor.next, memsNext, iwe, regs, resetRegs]
  obtain ⟨prom0, imem0, amem0, mmem0, pdl0, spcm0⟩ := kept 0 regs0
  obtain ⟨prom1, imem1, amem1, mmem1, pdl1, spcm1⟩ := kept 1 regs1
  refine ⟨?_, still0, still1, ?_⟩
  · rw [one]
    rfl
  constructor
  case regs => exact regs2
  case prom =>
    rw [prom1, prom0, start]
    rfl
  case imem =>
    rw [imemLeft, regs2, imem1, imem0, start]
    rfl
  case amem =>
    rw [amemLeft, regs2, amem1, amem0, start]
    rfl
  case mmem =>
    rw [mmemLeft, regs2, mmem1, mmem0, start]
    rfl
  case pdl =>
    rw [pdl1, pdl0, start]
    rfl
  case spcm =>
    rw [spcm1, spcm0, start]
    rfl

omit run spans in
theorem feeds_open {t : Nat} (order : b ≤ t) (opened : Open s b t) :
    feeds s inputs (t + 1) = feeds s inputs (b + 1) := by
  refine Sync.stands_between (feeds s inputs) (by omega) fun u late early => ?_
  have still := opened u (by omega) (by omega)
  simp [feeds, cpuEdge, still]

theorem Unbooted.matches_cycle {q : Sequential}
    (same : (s (b + 1)).cpu.Matches (q.run (feeds s inputs (b + 1)))) :
    (s (e + 1)).cpu.Matches (q.run (feeds s inputs (e + 1))) := by
  have order := spans.order
  have next := run.matches_next spans same
  have fed : feeds s inputs (e - 1 + 1) = feeds s inputs (b + 1) :=
    feeds_open (by omega) spans.opened
  rw [show e - 1 + 1 = e by omega] at fed
  rw [feeds, fed, Sequential.run, List.foldl_append]
  rw [Sequential.run] at next
  by_cases cpu : (s e).cpu.cpuEdge ((s e).procIn (inputs e)) = true
  · simpa [cpu] using next
  · simpa [cpu] using next

omit spans in
theorem Unbooted.matches_edge {mems : Mems} {noAutoBoot : Bool}
    (start : s 0 = reset mems noAutoBoot) {e : Nat} (edge : (s e).cpu.mclkEdge = true) :
    (s (e + 1)).cpu.Matches ((Sequential.reset mems).run (feeds s inputs (e + 1))) := by
  obtain ⟨first, still0, still1, same⟩ := run.matches_first start
  induction e using Nat.strong_induction_on with
  | _ e ih =>
    have late : 1 < e := by
      by_contra early
      obtain rfl | rfl : e = 0 ∨ e = 1 := by omega
      · rw [still0] at edge
        exact Bool.false_ne_true edge
      · rw [still1] at edge
        exact Bool.false_ne_true edge
    by_cases earlier : ∃ v, v ≤ e - 1 ∧ (s v).cpu.mclkEdge = true
    · obtain ⟨v, before, found⟩ := earlier
      obtain ⟨b, order, edgeB, opened⟩ := open_of_edge found before
      have spans : Spans s b e := ⟨by omega, boundary_of_mclkEdge edgeB, edge, opened⟩
      exact run.matches_cycle spans (ih b (by omega) edgeB)
    · -- The first edge ends the cycle the ring starts out of reset.
      have opened : Open s 1 (e - 1) := by
        intro v after upTo
        by_contra up
        exact earlier ⟨v, upTo, by simpa using up⟩
      have none : feeds s inputs 2 = [] := by
        simp [feeds, cpuEdge, still0, still1]
      refine run.matches_cycle ⟨late, first, edge, opened⟩ ?_
      rw [show 1 + 1 = 2 from rfl, none]
      exact same

end

/-- The processor on its clock generator is the sequential machine: after every edge, by a step
for each cpu edge; the write pulses are taken once in a cycle that ends in a cpu edge and in no
other, so each standing write lands once; and two runs that feed the same leave the same. -/
theorem microcycle_refines_sequential (mems : Mems) (noAutoBoot : Bool) (inputs : Nat → MachIn)
    (high : ∀ t, (inputs t).nBoot = true) :
    let s := at_ mems noAutoBoot inputs
    (∀ e, (s e).cpu.mclkEdge = true →
      (s (e + 1)).cpu.Matches ((Sequential.reset mems).run (feeds s inputs (e + 1)))) ∧
    (∀ b e, Spans s b e →
      ((s e).cpu.cpuEdge ((s e).procIn (inputs e)) = true →
        (∃ k, b < k ∧ k ≤ e ∧ ∀ t, b < t → t ≤ e →
          ((s t).cpu.wp ((s t).procIn (inputs t)) = true ↔ t = k)) ∧
        (∃ k, b < k ∧ k < e ∧ ∀ t, b < t → t ≤ e →
          ((s t).cpu.iwe ((s t).procIn (inputs t)) = true ↔
            (s e).cpu.regs.iwrited = true ∧ t = k)) ∧
        (s (e + 1)).cpu.mems.amem = (s (b + 1)).cpu.amemLeft ∧
        (s (e + 1)).cpu.mems.mmem = (s (b + 1)).cpu.mmemLeft ∧
        (s (e + 1)).cpu.mems.imem = (s (b + 1)).cpu.imemLeft) ∧
      ((s e).cpu.cpuEdge ((s e).procIn (inputs e)) = false →
        ∀ t, b < t → t ≤ e → (s t).cpu.wp ((s t).procIn (inputs t)) = false ∧
          (s t).cpu.iwe ((s t).procIn (inputs t)) = false)) ∧
    (∀ noAutoBoot' inputs', (∀ t, (inputs' t).nBoot = true) →
      ∀ e e', (s e).cpu.mclkEdge = true →
        (at_ mems noAutoBoot' inputs' e').cpu.mclkEdge = true →
        feeds s inputs (e + 1) = feeds (at_ mems noAutoBoot' inputs') inputs' (e' + 1) →
        ∃ q, (s (e + 1)).cpu.Matches q ∧ (at_ mems noAutoBoot' inputs' (e' + 1)).cpu.Matches q) := by
  intro s
  have run : Unbooted s inputs := ⟨⟨mems, noAutoBoot, rfl⟩, fun _ => rfl, high⟩
  refine ⟨fun e edge => run.matches_edge rfl edge, fun b e spans => ⟨fun cpu => ?_, fun still => ?_⟩,
    fun noAutoBoot' inputs' high' e e' edge edge' same => ?_⟩
  · have ends := run.pulseEnd_le spans
    have first : pulseEnd s b = b + offAt s b + 7 := rfl
    have place : storeAt s b = b + offAt s b + 1 := rfl
    have runs : (s e).cpu.machrun ((s e).procIn (inputs e)) = true := by
      simp only [cpuEdge, Bool.and_eq_true] at cpu
      exact cpu.2
    obtain ⟨amem, mmem, -, -⟩ := run.mems_after spans
    obtain ⟨imem, -⟩ := run.imem_after spans
    rw [runs, if_pos rfl] at amem mmem imem
    refine ⟨⟨pulseEnd s b, by omega, ends, fun t after upTo => ?_⟩,
      ⟨storeAt s b, by omega, by omega, fun t after upTo => ?_⟩, amem, mmem, imem⟩
    · rw [run.wp_eq spans after upTo, runs, Bool.and_true, decide_eq_true_eq]
    · rw [run.iwe_eq spans after upTo, runs, Bool.and_true, Bool.and_eq_true, decide_eq_true_eq]
  · intro t after upTo
    have stopped : (s e).cpu.machrun ((s e).procIn (inputs e)) = false := by
      simpa [cpuEdge, spans.last] using still
    rw [run.wp_eq spans after upTo, run.iwe_eq spans after upTo, stopped]
    simp
  · have run' : Unbooted (at_ mems noAutoBoot' inputs') inputs' :=
      ⟨⟨mems, noAutoBoot', rfl⟩, fun _ => rfl, high'⟩
    refine ⟨_, run.matches_edge rfl edge, ?_⟩
    rw [same]
    exact run'.matches_edge rfl edge'

/-- The rule at the read of the boot PROM: five instructions in, at the edge that follows it. -/
theorem microcycle_refines_read : (feeds readRun readIn 112).length = 5 ∧
    (readRun 112).cpu.Matches
      ((Sequential.reset (bootMems [startRead])).run (feeds readRun readIn 112)) := by
  have refines := (microcycle_refines_sequential (bootMems [startRead]) false readIn fun t => rfl).1
  exact ⟨by decide +kernel, refines 111 (by decide +kernel)⟩

end Machine

end MuirFpga.Cadr
