import MuirFpga.Arith.Phase
import MuirFpga.Sync.Trace
import Mathlib.Data.BitVec
import Mathlib.Tactic.SplitIfs

/-!
# The I/O board's free clocks and its interval timer

`cadr_io_board`'s accumulators: `FCLK^` and the sixty-cycle clock, each in nanoseconds into its period, and
the period taken off where the next tick would reach it. Beside them the interval timer, which counts ticks
from its load. Of a bus cycle only the load moves any of them.
-/

namespace MuirFpga.Cadr

open Arith Sync

/-- `cadr_tick_pkg`'s grid and the edges from reset to power-on. -/
def tickNs : Nat := 10
def powerOnEdges : Nat := 2

def sixtyCycleNs : Nat := 16666666
def fclkNs : Nat := 125
def intervalT : Nat := (16000 + tickNs - 1) / tickNs

/-- The registers of the clocks and of the timer. -/
structure IoClocks where
  powerOnT : BitVec 2
  fclkAcc : BitVec 8
  mainsAcc : BitVec 24
  mainsWrap : Bool
  mains : BitVec 16
  interval : BitVec 16
  ivCount : BitVec 16
  ivT : BitVec 12
  ivRun : Bool
  clockReady : Bool

/-- What a tick brings: reset, and the bus cycle as the card decodes it, when it lands. -/
structure IoClocksIn where
  rst : Bool
  ubMsyn : Bool
  land : Bool
  kbm : Bool
  clkgrp : Bool
  wr : Bool
  which : BitVec 3
  ubWdata : BitVec 16

namespace IoClocks

variable (c : IoClocks) (i : IoClocksIn)

def powered : Bool := c.powerOnT == 0#2

/-- An edge of `FCLK^`. -/
def fclkNow : Bool := decide (BitVec.ofNat 8 (fclkNs - tickNs) ≤ c.fclkAcc)

/-- `-LOAD INTERVAL`. -/
def loads : Bool := i.ubMsyn && i.land && !i.kbm && i.clkgrp && i.wr && i.which.extractLsb' 0 2 == 2#2

/-- The registers at reset. -/
def reset : IoClocks :=
  ⟨BitVec.ofNat 2 powerOnEdges, 0#8, 0#24, false, 0#16, 0#16, 0#16, 0#12, false, true⟩

/-- The clocks' edge. -/
def turn : IoClocks :=
  if c.powered then
    { c with
      fclkAcc :=
        if c.fclkNow then c.fclkAcc + BitVec.ofNat 8 tickNs - BitVec.ofNat 8 fclkNs
        else c.fclkAcc + BitVec.ofNat 8 tickNs
      mainsWrap := !c.mainsWrap && decide (BitVec.ofNat 24 (sixtyCycleNs - 2 * tickNs) ≤ c.mainsAcc)
      mainsAcc :=
        if c.mainsWrap then c.mainsAcc + BitVec.ofNat 24 tickNs - BitVec.ofNat 24 sixtyCycleNs
        else c.mainsAcc + BitVec.ofNat 24 tickNs
      mains := if c.mainsWrap then c.mains + 1#16 else c.mains }
  else { c with powerOnT := c.powerOnT - 1#2 }

/-- The interval timer's edge. -/
def count : IoClocks :=
  if c.ivRun then
    if c.ivT = 1#12 then
      let c := { c with ivT := BitVec.ofNat 12 intervalT }
      if c.ivCount = 1#16 then { c with clockReady := true, ivRun := false }
      else { c with ivCount := c.ivCount - 1#16 }
    else { c with ivT := c.ivT - 1#12 }
  else c

/-- The load, which replaces what the timer's edge assigned. -/
def load : IoClocks :=
  if loads i then
    { c with
      interval := i.ubWdata, ivCount := i.ubWdata, ivT := BitVec.ofNat 12 intervalT
      ivRun := i.ubWdata != 0#16, clockReady := i.ubWdata == 0#16 }
  else c

/-- A tick. -/
def next : IoClocks := if i.rst then reset else c.turn.count.load i

end IoClocks

/-- A run of the card's clocks. -/
def ioClocksRun (c : IoClocks) (inputs : Nat → IoClocksIn) : Nat → IoClocks :=
  trace (fun i c => c.next i) c inputs

section Free

variable (c : IoClocks) (i : IoClocksIn)

theorem IoClocks.next_free (going : i.rst = false) :
    (c.next i).powerOnT = c.turn.powerOnT ∧ (c.next i).fclkAcc = c.turn.fclkAcc ∧
      (c.next i).mainsAcc = c.turn.mainsAcc ∧ (c.next i).mainsWrap = c.turn.mainsWrap ∧
      (c.next i).mains = c.turn.mains := by
  have counted : (c.turn.count).powerOnT = c.turn.powerOnT ∧ (c.turn.count).fclkAcc = c.turn.fclkAcc ∧
      (c.turn.count).mainsAcc = c.turn.mainsAcc ∧ (c.turn.count).mainsWrap = c.turn.mainsWrap ∧
      (c.turn.count).mains = c.turn.mains := by
    unfold IoClocks.count
    dsimp only
    split_ifs <;> exact ⟨rfl, rfl, rfl, rfl, rfl⟩
  unfold IoClocks.next IoClocks.load
  rw [going, if_neg Bool.false_ne_true]
  split
  · exact counted
  · exact counted

/-- The free clocks so many ticks after power-on. -/
structure IoClocks.AtTime (t : Nat) (c : IoClocks) : Prop where
  powered : c.powerOnT = 0#2
  fclk : c.fclkAcc.toNat = tickNs * t % fclkNs
  acc : c.mainsAcc.toNat = tickNs * t % sixtyCycleNs
  wrap : c.mainsWrap = decide (sixtyCycleNs ≤ tickNs * t % sixtyCycleNs + tickNs)
  mains : c.mains = BitVec.ofNat 16 (tickNs * t / sixtyCycleNs)

variable {c i} {t : Nat}

theorem IoClocks.AtTime.fclkNow (at_ : c.AtTime t) :
    c.fclkNow = decide (fclkNs ≤ tickNs * t % fclkNs + tickNs) := by
  have less := Nat.mod_lt (tickNs * t) (show 0 < fclkNs by decide)
  unfold IoClocks.fclkNow
  apply decide_eq_decide.mpr
  rw [BitVec.le_def, at_.fclk]
  unfold fclkNs tickNs at *
  rw [show (BitVec.ofNat 8 (125 - 10)).toNat = 115 from rfl]
  omega

theorem IoClocks.AtTime.next (at_ : c.AtTime t) (going : i.rst = false) : (c.next i).AtTime (t + 1) := by
  obtain ⟨powerOnT, fclkAcc, mainsAcc, mainsWrap, mains⟩ := c.next_free i going
  have powered : c.powered = true := by
    unfold IoClocks.powered
    rw [at_.powered]
    rfl
  unfold IoClocks.turn at powerOnT fclkAcc mainsAcc mainsWrap mains
  rw [if_pos powered] at powerOnT fclkAcc mainsAcc mainsWrap mains
  obtain ⟨-, fclkNext⟩ := divMod_step (tickNs * t) (show tickNs ≤ fclkNs by decide) (by decide)
  obtain ⟨quotient, mainsNext⟩ := divMod_step (tickNs * t) (show tickNs ≤ sixtyCycleNs by decide) (by decide)
  have fclkLess := Nat.mod_lt (tickNs * t) (show 0 < fclkNs by decide)
  have mainsLess := Nat.mod_lt (tickNs * t) (show 0 < sixtyCycleNs by decide)
  have later : tickNs * (t + 1) = tickNs * t + tickNs := Nat.mul_succ _ _
  have fclk := at_.fclkNow
  have fclkWas := at_.fclk
  have mainsWas := at_.acc
  refine ⟨powerOnT.trans at_.powered, ?_, ?_, ?_, ?_⟩
  · rw [fclkAcc, later, fclkNext, fclk]
    simp only [decide_eq_true_eq]
    split
    · rw [BitVec.toNat_sub, BitVec.toNat_add, fclkWas]
      unfold fclkNs tickNs at *
      simp only [BitVec.toNat_ofNat]
      omega
    · rw [BitVec.toNat_add, fclkWas]
      unfold fclkNs tickNs at *
      simp only [BitVec.toNat_ofNat]
      omega
  · rw [mainsAcc, later, mainsNext, at_.wrap]
    simp only [decide_eq_true_eq]
    split
    · rw [BitVec.toNat_sub, BitVec.toNat_add, mainsWas]
      unfold sixtyCycleNs tickNs at *
      simp only [BitVec.toNat_ofNat]
      omega
    · rw [BitVec.toNat_add, mainsWas]
      unfold sixtyCycleNs tickNs at *
      simp only [BitVec.toNat_ofNat]
      omega
  · rw [mainsWrap, later, mainsNext]
    show (!c.mainsWrap && decide _) = _
    rw [at_.wrap, ← decide_not, ← Bool.decide_and]
    apply decide_eq_decide.mpr
    rw [BitVec.le_def, mainsWas]
    unfold sixtyCycleNs tickNs at *
    rw [show (BitVec.ofNat 24 (16666666 - 2 * 10)).toNat = 16666646 from rfl]
    split <;> omega
  · rw [mains, later, quotient, at_.wrap, at_.mains]
    simp only [decide_eq_true_eq]
    split
    · exact (BitVec.ofNat_add _ _).symm
    · rfl

theorem ioClocksRun_atTime {inputs : Nat → IoClocksIn} (rst : (inputs 0).rst = true)
    (going : ∀ k, 0 < k → (inputs k).rst = false) (t : Nat) :
    (ioClocksRun c inputs (1 + powerOnEdges + t)).AtTime t := by
  induction t with
  | zero =>
    have first : ioClocksRun c inputs 1 = IoClocks.reset := if_pos rst
    -- The clocks stand while the edges to power-on are counted off.
    have edge (k : Nat) (after : 0 < k) (unpowered : (ioClocksRun c inputs k).powered = false) :
        (ioClocksRun c inputs (k + 1)).powerOnT = (ioClocksRun c inputs k).powerOnT - 1#2 ∧
          (ioClocksRun c inputs (k + 1)).fclkAcc = (ioClocksRun c inputs k).fclkAcc ∧
          (ioClocksRun c inputs (k + 1)).mainsAcc = (ioClocksRun c inputs k).mainsAcc ∧
          (ioClocksRun c inputs (k + 1)).mainsWrap = (ioClocksRun c inputs k).mainsWrap ∧
          (ioClocksRun c inputs (k + 1)).mains = (ioClocksRun c inputs k).mains := by
      have free := (ioClocksRun c inputs k).next_free (inputs k) (going k after)
      have turned : (ioClocksRun c inputs k).turn =
          { ioClocksRun c inputs k with powerOnT := (ioClocksRun c inputs k).powerOnT - 1#2 } :=
        if_neg (by rw [unpowered]; exact Bool.false_ne_true)
      rw [turned] at free
      exact free
    obtain ⟨power1, fclk1, acc1, wrap1, mains1⟩ := edge 1 (by decide) (by rw [first]; rfl)
    rw [first] at power1 fclk1 acc1 wrap1 mains1
    have unpowered : (ioClocksRun c inputs 2).powered = false := by
      unfold IoClocks.powered
      rw [power1]
      rfl
    obtain ⟨power2, fclk2, acc2, wrap2, mains2⟩ := edge 2 (by decide) unpowered
    refine ⟨?_, ?_, ?_, ?_, ?_⟩
    · exact power2.trans (by rw [power1]; rfl)
    · exact (congrArg BitVec.toNat (fclk2.trans fclk1)).trans rfl
    · exact (congrArg BitVec.toNat (acc2.trans acc1)).trans rfl
    · exact (wrap2.trans wrap1).trans rfl
    · exact (mains2.trans mains1).trans rfl
  | succ t ih => exact ih.next (going (1 + powerOnEdges + t) (by unfold powerOnEdges; omega))

theorem fclk_edges {inputs : Nat → IoClocksIn} (rst : (inputs 0).rst = true)
    (going : ∀ k, 0 < k → (inputs k).rst = false) (t : Nat) :
    (List.range t).countP (fun k => (ioClocksRun c inputs (1 + powerOnEdges + k)).fclkNow) =
      tickNs * t / fclkNs := by
  induction t with
  | zero => rfl
  | succ t ih =>
    obtain ⟨quotient, -⟩ := divMod_step (tickNs * t) (show tickNs ≤ fclkNs by decide) (by decide)
    rw [List.range_succ, List.countP_append, ih, Nat.mul_succ, quotient]
    have edge := (ioClocksRun_atTime (c := c) rst going t).fclkNow
    have last : [t].countP (fun k => (ioClocksRun c inputs (1 + powerOnEdges + k)).fclkNow) =
        if (ioClocksRun c inputs (1 + powerOnEdges + t)).fclkNow then 1 else 0 := List.countP_singleton
    rw [last, edge]
    simp only [decide_eq_true_eq]

end Free

section Interval

/-- The timer so many ticks after a load of `n`. -/
def Counting (n j : Nat) (c : IoClocks) : Prop :=
  if j < n * intervalT then
    c.ivRun = true ∧ c.clockReady = false ∧ c.ivCount.toNat = n - j / intervalT ∧
      c.ivT.toNat = intervalT - j % intervalT
  else c.ivRun = false ∧ c.clockReady = true

variable {c : IoClocks} {n j : Nat}

theorem Counting.turn (counting : Counting n j c) : Counting n j c.turn := by
  unfold IoClocks.turn
  split
  · exact counting
  · exact counting

theorem Counting.count (counting : Counting n j c) : Counting n (j + 1) c.count := by
  have ticks : intervalT = 1600 := rfl
  unfold Counting at counting ⊢
  by_cases going : j < n * intervalT
  · rw [if_pos going] at counting
    obtain ⟨run, ready, count, left⟩ := counting
    have parts := Nat.div_add_mod j intervalT
    have less := Nat.mod_lt j (show 0 < intervalT by decide)
    obtain ⟨quotient, remainder⟩ := divMod_step j (show 1 ≤ intervalT by decide) (by decide)
    have fewer : j / intervalT < n := Nat.div_lt_of_lt_mul (by rw [Nat.mul_comm]; exact going)
    unfold IoClocks.count
    rw [if_pos run]
    dsimp only
    by_cases last : c.ivT = 1#12
    · have at_ : j % intervalT + 1 = intervalT := by
        have := congrArg BitVec.toNat last
        rw [left] at this
        have one : (1#12).toNat = 1 := rfl
        omega
      rw [if_pos last]
      rw [if_pos (by omega)] at quotient remainder
      by_cases due : c.ivCount = 1#16
      · have end_ : j / intervalT + 1 = n := by
          have := congrArg BitVec.toNat due
          rw [count] at this
          have one : (1#16).toNat = 1 := rfl
          omega
        have past : ¬ j + 1 < n * intervalT := by
          rw [← end_, ticks] at *
          omega
        rw [if_pos due, if_neg past]
        exact ⟨rfl, rfl⟩
      · have more : j / intervalT + 1 < n := by
          by_contra none_
          apply due
          apply BitVec.eq_of_toNat_eq
          rw [count]
          show _ = 1
          omega
        have inside : j + 1 < n * intervalT := by
          have := Nat.mul_le_mul_right intervalT (show j / intervalT + 2 ≤ n by omega)
          rw [ticks] at *
          omega
        rw [if_neg due, if_pos inside]
        refine ⟨run, ready, ?_, ?_⟩
        · rw [BitVec.toNat_sub_of_le (by rw [BitVec.le_def, count]; show 1 ≤ _; omega), count, quotient]
          show _ - 1 = _
          omega
        · rw [remainder]
          show (BitVec.ofNat 12 intervalT).toNat = _
          rw [ticks, BitVec.toNat_ofNat]
          omega
    · have before : j % intervalT + 1 < intervalT := by
        by_contra none_
        apply last
        apply BitVec.eq_of_toNat_eq
        rw [left]
        show _ = 1
        omega
      have inside : j + 1 < n * intervalT := by
        have := Nat.mul_le_mul_right intervalT (show j / intervalT + 1 ≤ n by omega)
        rw [ticks] at *
        omega
      rw [if_neg (by omega)] at quotient remainder
      rw [if_neg last, if_pos inside]
      refine ⟨run, ready, ?_, ?_⟩
      · rw [quotient]
        exact count
      · rw [BitVec.toNat_sub_of_le (by rw [BitVec.le_def, left]; show 1 ≤ _; omega), left, remainder]
        show _ - 1 = _
        omega
  · rw [if_neg going] at counting
    rw [if_neg (by omega)]
    unfold IoClocks.count
    rw [counting.1]
    exact counting

theorem counting_load {i : IoClocksIn} (going : i.rst = false) (loads : IoClocks.loads i = true)
    (some_ : i.ubWdata ≠ 0#16) : Counting i.ubWdata.toNat 0 (c.next i) := by
  have positive : 0 < i.ubWdata.toNat := by
    by_contra none_
    apply some_
    apply BitVec.eq_of_toNat_eq
    exact Nat.eq_zero_of_not_pos none_
  unfold IoClocks.next IoClocks.load Counting
  rw [going, if_neg Bool.false_ne_true, if_pos loads, if_pos (Nat.mul_pos positive (by decide))]
  refine ⟨bne_iff_ne.mpr some_, beq_eq_false_iff_ne.mpr some_, rfl, rfl⟩

theorem interval_ready {inputs : Nat → IoClocksIn} (going : ∀ k, 0 < k → (inputs k).rst = false) {load : Nat}
    (after : 0 < load) (loads : IoClocks.loads (inputs load) = true) (some_ : (inputs load).ubWdata ≠ 0#16) {j : Nat}
    (last : ∀ k, load < k → k ≤ load + j → IoClocks.loads (inputs k) = false) :
    Counting (inputs load).ubWdata.toNat j (ioClocksRun c inputs (load + 1 + j)) := by
  induction j with
  | zero => exact counting_load (going load after) loads some_
  | succ j ih =>
    have before := ih fun k more less => last k more (by omega)
    have next : ioClocksRun c inputs (load + 1 + (j + 1)) = (ioClocksRun c inputs (load + 1 + j)).turn.count := by
      show (ioClocksRun c inputs (load + 1 + j)).next (inputs (load + 1 + j)) = _
      unfold IoClocks.next IoClocks.load
      rw [going _ (by omega), last _ (by omega) (by omega)]
      rfl
    rw [next]
    exact before.turn.count

end Interval

end MuirFpga.Cadr
