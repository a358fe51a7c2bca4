import MuirFpga.Cadr.IoClocks
import MuirFpga.Disk.Controller

/-!
# The spindle turns

What the walk, a START, a store and `-XBUS INIT` leave alone is the spindle, so its counters are the time's
own: the instant modulo a revolution, and the sector and what is past it.
-/

namespace MuirFpga.Disk

open Arith
open Quux (Seam)

section Frame

variable (c x : Controller) (i : Input) (m : Seam) (s : Store)

namespace Controller

/-- What the walk's own states leave alone. -/
def aside : Spindle × Face := (c.spindle, c.face)

theorem streamStep_aside : (c.streamStep x).aside = x.aside := by
  unfold streamStep
  dsimp only
  split_ifs <;> rfl

theorem parseStep_aside : (c.parseStep x).aside = x.aside := by
  unfold parseStep
  split
  case h_8 => rfl
  all_goals
    simp only [huntStep, wordStep, padStep, dataBitStep]
    split_ifs <;> first | rfl | (split <;> rfl)

theorem twrStep_aside : (c.twrStep i x).aside = x.aside := by
  unfold twrStep chunkStep nxmStep requestWord
  dsimp only
  split_ifs <;> first | rfl | exact c.parseStep_aside _

theorem accessStep_aside : (c.accessStep i x).aside = x.aside := by
  unfold accessStep
  split
  all_goals
    first
    | rfl
    | (dsimp only
       split_ifs <;> rfl)

theorem read_of_ite {α : Type} {read : Controller → α} {p : Prop} [Decidable p] {a b : Controller} {r : α}
    (left : read a = r) (right : read b = r) : read (if p then a else b) = r := by
  split
  · exact left
  · exact right

theorem moveRead_aside : (c.moveRead i s x).aside = x.aside := by
  have moved (y : Controller) (same : y.aside = x.aside) :
      (if c.walk.chILast then { y with walk.chState := .next }
        else { y with walk.chI := c.walk.chI + 1, walk.chPh := 2 }).aside = x.aside :=
    read_of_ite same same
  unfold moveRead
  apply read_of_ite rfl
  apply read_of_ite rfl
  apply read_of_ite rfl
  apply read_of_ite rfl
  apply read_of_ite _ rfl
  apply read_of_ite rfl
  exact moved _ (read_of_ite rfl rfl)

theorem moveWrite_aside : (c.moveWrite i x).aside = x.aside := by
  unfold moveWrite
  apply read_of_ite rfl
  apply read_of_ite
  · apply read_of_ite _ rfl
    exact read_of_ite rfl rfl
  apply read_of_ite rfl
  exact read_of_ite rfl rfl

theorem nextStep_aside : (c.nextStep x).aside = x.aside := by
  have moved (y : Controller) (same : y.aside = x.aside) :
      (if c.ahead.nbMoveQ then headsAt y c.walk.chUnit c.ahead.nbC c.ahead.nbH c.ahead.nbB else y).aside =
        x.aside := read_of_ite same same
  apply moved
  apply read_of_ite rfl
  apply read_of_ite rfl
  exact read_of_ite rfl rfl

theorem stateStep_aside : (c.stateStep i m s x).aside = x.aside := by
  unfold stateStep
  split
  all_goals
    first
    | rfl
    | exact c.accessStep_aside x i
    | exact c.twrStep_aside x i
    | exact c.nextStep_aside x
    | exact read_of_ite (c.moveRead_aside x i s) (c.moveWrite_aside x i)
    | (simp only [ccwStep, lookStep, hdrcStep, hdreStep, hdrckStep, pfStep, dataStep, dckStep, eccqStep, tspinStep,
        tscanStep, tsoft2Step, tlookStep, trdStep, eccShift, nxmStep, requestWord]
       split_ifs <;> rfl)

theorem seeks_spindle (state : ChState) : (c.seeks state x).spindle = x.spindle := by
  unfold seeks
  dsimp only
  split_ifs <;> rfl

theorem startSeek_spindle : (c.startSeek i x).spindle = x.spindle := by
  unfold startSeek
  dsimp only
  split_ifs <;> rfl

theorem startAtease_spindle : (c.startAtease i x).spindle = x.spindle := by
  unfold startAtease
  dsimp only
  split_ifs <;> rfl

theorem startRev_spindle : (c.startRev x).spindle = x.spindle := by
  unfold startRev
  dsimp only
  split_ifs <;> rfl

theorem startAll_spindle : (c.startAll (c.startXfer x)).spindle = x.spindle := by
  unfold startAll startXfer
  split_ifs
  · exact (c.seeks_spindle _ _).trans (c.seeks_spindle _ _)
  · exact c.seeks_spindle _ _
  · exact c.seeks_spindle _ _
  · rfl

theorem started_spindle : (c.started i x).spindle = x.spindle := by
  have begun := c.startAll_spindle x
  have faulted : (if c.face.stFault then fault c.selUnit true (c.startAll (c.startXfer x))
      else c.startAll (c.startXfer x)).spindle = x.spindle := by
    split_ifs <;> exact begun
  have rest := ((c.startAtease_spindle _ i).trans (c.startSeek_spindle _ i)).trans
    ((c.startRev_spindle _).trans faulted)
  exact read_of_ite rest rest

theorem goStep_spindle : (c.goStep i x).spindle = x.spindle := by
  unfold goStep
  split_ifs
  · unfold cmdWritten
    dsimp only
    split_ifs <;> rfl
  · rfl
  · rfl
  · exact c.started_spindle x i
  · rfl

theorem runs_spindle : (c.runs i m s).spindle = c.spindle.turn := by
  unfold runs initStep
  have taken : (c.takenStep i (c.stateStep i m s (c.streamStep (c.flow i s)))).spindle = c.spindle.turn := by
    have before := congrArg Prod.fst
      ((c.stateStep_aside (c.streamStep (c.flow i s)) i m s).trans (c.streamStep_aside (c.flow i s)))
    unfold takenStep
    split_ifs <;> exact before
  split_ifs
  · exact (c.goStep_spindle _ i).trans taken
  · exact (c.goStep_spindle _ i).trans taken

theorem next_spindle : (c.next i m s).spindle =
    { (if c.rstQ then c.spindle.reset else c.spindle.turn) with
      blockCounterQ := c.spindle.blockCounter (c.present i) } := by
  have turned : (if c.rstQ then c.reset else c.runs i m s).spindle =
      if c.rstQ then c.spindle.reset else c.spindle.turn := by
    split
    · rfl
    · exact c.runs_spindle i m s
  unfold next
  rw [← turned]

end Controller

end Frame

/-- The controller under a stream of inputs, and of what the store's face brings and holds. -/
def controllerRun (c : Controller) (inputs : Nat → Input) (seams : Nat → Seam) (stores : Nat → Store) :
    Nat → Controller :=
  Sync.trace (fun k c => c.next (inputs k) (seams k) (stores k)) c id

/-- The spindle so many nanoseconds after the instant it counts from. -/
structure Spindle.AtTime (ns : Nat) (d : Spindle) : Prop where
  spin : d.spin.toNat = ns % revolutionNs
  region : d.region.toNat = min (ns % revolutionNs / sectorNs) 17
  into : d.into.toNat = ns % revolutionNs - d.region.toNat * sectorNs
  wrap : d.wrapQ = decide (revolutionNs ≤ ns % revolutionNs + tickNs)
  step : d.stepQ = decide (sectorNs ≤ d.into.toNat + tickNs ∧ d.region.toNat < 17)

theorem Spindle.AtTime.reset (d : Spindle) : (d.reset).AtTime (2 * tickNs) := by
  have into : d.reset.into.toNat = 20 := rfl
  have region : d.reset.region.toNat = 0 := rfl
  have spun : 2 * tickNs % revolutionNs = 20 := by decide
  constructor
  · rw [spun]
    rfl
  · rw [spun, region]
    decide
  · rw [spun, region, into, Nat.zero_mul]
  · rw [spun]
    exact (decide_eq_false (by decide)).symm
  · rw [into]
    exact (decide_eq_false fun both => absurd both.1 (by decide)).symm

theorem Spindle.AtTime.counted {d : Spindle} {ns : Nat} (at_ : d.AtTime ns) (b : BitVec 8) :
    ({ d with blockCounterQ := b } : Spindle).AtTime ns := ⟨at_.spin, at_.region, at_.into, at_.wrap, at_.step⟩

section Turn

variable {d : Spindle} {ns : Nat}

theorem Spindle.AtTime.sums (at_ : d.AtTime ns) :
    (d.spin + BitVec.ofNat 24 tickNs).toNat = d.spin.toNat + 10 ∧
      (d.into + BitVec.ofNat 20 tickNs).toNat = d.into.toNat + 10 := by
  obtain ⟨spin, region, into, -, -⟩ := at_
  have less := Nat.mod_lt ns (show 0 < revolutionNs by decide)
  rw [BitVec.toNat_add, BitVec.toNat_add, show (BitVec.ofNat 24 tickNs).toNat = 10 from rfl,
    show (BitVec.ofNat 20 tickNs).toNat = 10 from rfl]
  unfold revolutionNs sectorNs at *
  omega

theorem Spindle.AtTime.wraps (at_ : d.AtTime ns) (ends : d.wrapQ = true) : d.turn.AtTime (ns + tickNs) := by
  obtain ⟨sum, -⟩ := at_.sums
  obtain ⟨spin, -, -, wrap, -⟩ := at_
  have past : revolutionNs ≤ ns % revolutionNs + tickNs := of_decide_eq_true (wrap.symm.trans ends)
  obtain ⟨-, next⟩ := divMod_step ns (show tickNs ≤ revolutionNs by decide) (by decide)
  rw [if_pos past] at next
  have less := Nat.mod_lt ns (show 0 < revolutionNs by decide)
  have revolution : (BitVec.ofNat 24 revolutionNs).toNat = revolutionNs := rfl
  have ten : tickNs = 10 := rfl
  have few : (ns + tickNs) % revolutionNs < 10 := by omega
  have back : (d.spin + BitVec.ofNat 24 tickNs - BitVec.ofNat 24 revolutionNs).toNat = (ns + tickNs) % revolutionNs := by
    rw [BitVec.toNat_sub_of_le, sum, revolution]
    · omega
    · rw [BitVec.le_def, sum, revolution]
      omega
  have low : ((d.spin + BitVec.ofNat 24 tickNs - BitVec.ofNat 24 revolutionNs).setWidth 20).toNat =
      (ns + tickNs) % revolutionNs := by
    rw [BitVec.toNat_setWidth, back]
    exact Nat.mod_eq_of_lt (by omega)
  have start : (ns + tickNs) % revolutionNs / sectorNs = 0 := Nat.div_eq_of_lt (by unfold sectorNs; omega)
  unfold turn
  dsimp only
  rw [if_pos ends]
  constructor
  · exact back
  · rw [start]
    rfl
  · have none_ : (0#5).toNat * sectorNs = 0 := Nat.zero_mul _
    refine low.trans ?_
    show _ = _ - (0#5).toNat * sectorNs
    rw [none_, Nat.sub_zero]
  · rw [ends, Bool.not_true, Bool.false_and]
    refine (decide_eq_false ?_).symm
    unfold revolutionNs at *
    omega
  · rw [ends, Bool.not_true, Bool.false_and, Bool.false_and, Bool.false_and]
    refine (decide_eq_false ?_).symm
    rw [low]
    unfold sectorNs
    omega

theorem Spindle.AtTime.goes (at_ : d.AtTime ns) (within : d.wrapQ = false) : d.turn.AtTime (ns + tickNs) := by
  obtain ⟨sum, sumInto⟩ := at_.sums
  obtain ⟨spin, region, into, wrap, step⟩ := at_
  have before : ¬ revolutionNs ≤ ns % revolutionNs + tickNs := of_decide_eq_false (wrap.symm.trans within)
  obtain ⟨-, next⟩ := divMod_step ns (show tickNs ≤ revolutionNs by decide) (by decide)
  rw [if_neg before] at next
  have ten : tickNs = 10 := rfl
  have sector : (BitVec.ofNat 20 sectorNs).toNat = sectorNs := rfl
  have early : (BitVec.ofNat 24 (revolutionNs - 2 * tickNs)).toNat = revolutionNs - 20 ∧
      (BitVec.ofNat 20 (sectorNs - 2 * tickNs)).toNat = sectorNs - 20 := ⟨rfl, rfl⟩
  have spun : (d.spin + BitVec.ofNat 24 tickNs).toNat = (ns + tickNs) % revolutionNs := by omega
  have wrapNext : (!d.wrapQ && decide (BitVec.ofNat 24 (revolutionNs - 2 * tickNs) ≤ d.spin)) =
      decide (revolutionNs ≤ (ns + tickNs) % revolutionNs + tickNs) := by
    rw [within, Bool.not_false, Bool.true_and]
    apply decide_eq_decide.mpr
    rw [BitVec.le_def, early.1, next]
    unfold revolutionNs at *
    omega
  have seventeen : (17#5).toNat = 17 := rfl
  unfold turn
  dsimp only
  rw [if_neg (by rw [within]; exact Bool.false_ne_true)]
  by_cases steps : sectorNs ≤ d.into.toNat + tickNs ∧ d.region.toNat < 17
  · rw [decide_eq_true steps] at step
    rw [if_pos step]
    have regionNext : (d.region + 1).toNat = d.region.toNat + 1 := by
      rw [BitVec.toNat_add, show (1 : BitVec 5).toNat = 1 from rfl]
      omega
    have quotient : (ns + tickNs) % revolutionNs / sectorNs = d.region.toNat + 1 := by
      unfold sectorNs at *
      omega
    have back : (d.into + BitVec.ofNat 20 tickNs - BitVec.ofNat 20 sectorNs).toNat =
        (ns + tickNs) % revolutionNs - (d.region.toNat + 1) * sectorNs := by
      rw [BitVec.toNat_sub_of_le, sumInto, sector]
      · unfold sectorNs at *
        omega
      · rw [BitVec.le_def, sumInto, sector]
        omega
    constructor
    · exact spun
    · rw [quotient]
      refine regionNext.trans ?_
      omega
    · refine back.trans ?_
      rw [regionNext]
    · exact wrapNext
    · rw [step, Bool.not_true, Bool.and_false, Bool.false_and, Bool.false_and]
      refine (decide_eq_false ?_).symm
      rw [back]
      unfold sectorNs at *
      omega
  · rw [decide_eq_false steps] at step
    rw [if_neg (by rw [step]; exact Bool.false_ne_true)]
    constructor
    · exact spun
    · show d.region.toNat = _
      unfold sectorNs revolutionNs at *
      omega
    · refine sumInto.trans ?_
      show _ = _ - d.region.toNat * _
      unfold sectorNs revolutionNs at *
      omega
    · exact wrapNext
    · rw [within, step]
      show (decide _ && decide _) = decide ((d.into + BitVec.ofNat 20 tickNs).toNat + tickNs ≥ sectorNs ∧ d.region.toNat < 17)
      rw [← Bool.decide_and]
      apply decide_eq_decide.mpr
      rw [sumInto, BitVec.le_def, BitVec.lt_def, early.2, seventeen]
      unfold sectorNs at *
      omega

theorem Spindle.AtTime.next (at_ : d.AtTime ns) : d.turn.AtTime (ns + tickNs) := by
  cases ends : d.wrapQ with
  | true => exact at_.wraps ends
  | false => exact at_.goes ends

end Turn

section Run

variable {c : Controller} {inputs : Nat → Input} {seams : Nat → Seam} {stores : Nat → Store}

/-- The time the spindle is at: two ticks at its reset. -/
def sinceStart (t : Nat) : Nat := tickNs * t + 2 * tickNs

theorem controllerRun_spindle (rst : c.rstQ = true) (going : ∀ k, (inputs k).rst = false) (t : Nat) :
    (controllerRun c inputs seams stores (1 + t)).spindle.AtTime (sinceStart t) ∧
      (controllerRun c inputs seams stores (1 + t)).rstQ = false := by
  induction t with
  | zero =>
    have next : (controllerRun c inputs seams stores 1).spindle = _ :=
      c.next_spindle (inputs 0) (seams 0) (stores 0)
    rw [rst, if_pos rfl] at next
    refine ⟨?_, going 0⟩
    rw [next]
    exact (Spindle.AtTime.reset _).counted _
  | succ t ih =>
    obtain ⟨at_, running⟩ := ih
    have next : (controllerRun c inputs seams stores (1 + (t + 1))).spindle = _ :=
      (controllerRun c inputs seams stores (1 + t)).next_spindle (inputs (1 + t)) (seams (1 + t)) (stores (1 + t))
    rw [running, if_neg Bool.false_ne_true] at next
    refine ⟨?_, going (1 + t)⟩
    have later : sinceStart (t + 1) = sinceStart t + tickNs := by
      unfold sinceStart
      rw [Nat.mul_succ]
      omega
    rw [next, later]
    exact at_.next.counted _

/-- No clock of the I/O board or the disk drifts. So many ticks after power-on the sixty-cycle count and the
edges of `FCLK^` are the time's whole periods, the spindle's counters the time's within a revolution and a
sector; and CLOCK READY is up from so many counts after a load on, until the next. -/
theorem clocks_no_drift (card : Cadr.IoClocks) (ticks : Nat → Cadr.IoClocksIn) (c : Controller)
    (inputs : Nat → Input) (seams : Nat → Seam) (stores : Nat → Store)
    (cardRst : (ticks 0).rst = true) (cardGoing : ∀ k, 0 < k → (ticks k).rst = false)
    (diskRst : c.rstQ = true) (diskGoing : ∀ k, (inputs k).rst = false) (t : Nat) :
    (Cadr.ioClocksRun card ticks (1 + Cadr.powerOnEdges + t)).mains =
      BitVec.ofNat 16 (Cadr.tickNs * t / Cadr.sixtyCycleNs) ∧
    (List.range t).countP (fun k => (Cadr.ioClocksRun card ticks (1 + Cadr.powerOnEdges + k)).fclkNow) =
      Cadr.tickNs * t / Cadr.fclkNs ∧
    ((controllerRun c inputs seams stores (1 + t)).spindle.spin.toNat = sinceStart t % revolutionNs ∧
      (controllerRun c inputs seams stores (1 + t)).spindle.region.toNat =
        min (sinceStart t % revolutionNs / sectorNs) 17 ∧
      (controllerRun c inputs seams stores (1 + t)).spindle.into.toNat =
        sinceStart t % revolutionNs - min (sinceStart t % revolutionNs / sectorNs) 17 * sectorNs) ∧
    ∀ load j, 0 < load → Cadr.IoClocks.loads (ticks load) = true → (ticks load).ubWdata ≠ 0#16 →
      (∀ k, load < k → k ≤ load + j → Cadr.IoClocks.loads (ticks k) = false) →
      (Cadr.ioClocksRun card ticks (load + 1 + j)).clockReady =
        decide ((ticks load).ubWdata.toNat * Cadr.intervalT ≤ j) := by
  obtain ⟨spindle, -⟩ := @controllerRun_spindle c inputs seams stores diskRst diskGoing t
  refine ⟨(Cadr.ioClocksRun_atTime cardRst cardGoing t).mains, Cadr.fclk_edges cardRst cardGoing t,
    ⟨spindle.spin, spindle.region, ?_⟩, ?_⟩
  · rw [spindle.into, spindle.region]
  · intro load j after loads some_ last
    have counting := Cadr.interval_ready (c := card) cardGoing after loads some_ last
    unfold Cadr.Counting at counting
    by_cases going : j < (ticks load).ubWdata.toNat * Cadr.intervalT
    · rw [if_pos going] at counting
      rw [counting.2.1, decide_eq_false (Nat.not_le.mpr going)]
    · rw [if_neg going] at counting
      rw [counting.2, decide_eq_true (Nat.not_lt.mp going)]

/-- A second and a tick after power-on, a timer loaded with two counts at the fourth tick. -/
theorem clocks_no_drift_second :
    let ticks := fun k : Nat => (⟨k == 0, k == 7, k == 7, false, true, true, 2#3, 2#16⟩ : Cadr.IoClocksIn)
    (Cadr.ioClocksRun .reset ticks (1 + Cadr.powerOnEdges + 100000001)).mains = 60#16 ∧
      (Cadr.ioClocksRun .reset ticks (7 + 1 + 3199)).clockReady = false ∧
      (Cadr.ioClocksRun .reset ticks (7 + 1 + 3200)).clockReady = true := by
  intro ticks
  have going : ∀ k, 0 < k → (ticks k).rst = false := fun k after => beq_eq_false_iff_ne.mpr (Nat.ne_of_gt after)
  have rule := clocks_no_drift .reset ticks { (default : Controller) with rstQ := true }
    (fun _ => ⟨false, false, false, false, false, 0, 0, 0, 0, true, false, false, 0⟩)
    (fun _ => ⟨false, 0, 0, 0, false, false, 0⟩) (fun _ => default) rfl going rfl fun _ => rfl
  have once (j k : Nat) (after : 7 < k) (_ : k ≤ 7 + j) : Cadr.IoClocks.loads (ticks k) = false := by
    have other : (k == 7) = false := beq_eq_false_iff_ne.mpr (Nat.ne_of_gt after)
    show ((k == 7) && (k == 7) && _ && _ && _ && _) = false
    rw [other]
    rfl
  refine ⟨(rule 100000001).1.trans (by decide), ?_, ?_⟩
  · exact ((rule 0).2.2.2 7 3199 (by decide) rfl (by decide) (once 3199)).trans (decide_eq_false (by decide))
  · exact ((rule 0).2.2.2 7 3200 (by decide) rfl (by decide) (once 3200)).trans (decide_eq_true (by decide))

end Run

end MuirFpga.Disk
