import MuirFpga.Sync.Trace
import Mathlib.Tactic.SplitIfs
import Mathlib.Tactic.Ring

/-!
# The microsecond clock and the interval timers

`quux15_devices`' time, in units of half a nanosecond: nothing holds the instant whole. The microsecond
clock is a count and its remainder; a timer is the units to its deadline, counted down by the period,
wrapped onto the grid of its start while its flag is up. Against them stands what a timer was told and
when, which counts nothing.
-/

namespace MuirFpga.Quux

open Sync

section Grid

/-- A point of a grid, after its start, is after `since` and not after `now`. -/
def Passed (start step since now : Nat) : Prop :=
  ∃ k, 1 ≤ k ∧ since < start + k * step ∧ start + k * step ≤ now

theorem passed_iff {start step since now k : Nat} (after : start ≤ since)
    (last : start + (k - 1) * step ≤ now) (next : now < start + k * step) :
    Passed start step since now ↔ since < start + (k - 1) * step := by
  constructor
  · rintro ⟨j, -, past, now_⟩
    have less : j < k := by
      by_contra more
      have := Nat.mul_le_mul_right step (Nat.le_of_not_lt more)
      omega
    have := Nat.mul_le_mul_right step (Nat.le_sub_one_of_lt less)
    omega
  · intro past
    refine ⟨k - 1, ?_, past, last⟩
    by_contra none_
    rw [show k - 1 = 0 by omega] at past
    omega

end Grid

/-- A timer's registers. -/
structure Timer where
  on : Bool
  oneShot : Bool
  ie : Bool
  periodUs : BitVec 24
  armed : Bool
  up : Bool
  rem : BitVec 38

/-- A period in units. -/
def unitsOf (us : BitVec 24) : BitVec 38 :=
  ((0#14 ++ us) <<< 11) - ((0#14 ++ us) <<< 5) - ((0#14 ++ us) <<< 4)

namespace Timer

def zero : Timer := ⟨false, false, false, 0, false, false, 0⟩

variable (t : Timer)

/-- `timer_write`. -/
def write (periodWord : Bool) (v : BitVec 32) : Timer :=
  if periodWord then
    let us := v.extractLsb' 0 24
    if t.on then { t with periodUs := us, armed := us != 0#24, up := false, rem := unitsOf us }
    else { t with periodUs := us }
  else
    let r := if v.getLsbD 0 && !t.on then
        { t with oneShot := v.getLsbD 2, armed := t.periodUs != 0#24, up := false, rem := unitsOf t.periodUs }
      else if v.getLsbD 1 && t.armed && t.up then
        if t.oneShot || t.periodUs == 0#24 then { t with armed := false, up := false }
        else { t with up := false }
      else t
    let r := if !v.getLsbD 0 then { r with armed := false, up := false } else r
    { r with on := v.getLsbD 0, ie := v.getLsbD 8 }

/-- The count a clock later, before it wraps. -/
def counted (p : BitVec 7) : BitVec 38 := t.rem - (0#31 ++ p)

/-- `timer_tick`. -/
def tick (p : BitVec 7) : Timer :=
  if !t.armed then t
  else
    let n := t.counted p
    let r := if n.sle 0 then { t with up := true } else t
    let n := if n.sle 0 && !t.oneShot then n + unitsOf t.periodUs else n
    -- a one-shot that has risen counts nothing more
    if !(t.oneShot && t.up) then { r with rem := n } else r

/-- Its control word, as read. -/
def controlWord : BitVec 32 :=
  0#23 ++ BitVec.ofBool t.ie ++ 0#5 ++ BitVec.ofBool t.oneShot ++ BitVec.ofBool t.up ++ BitVec.ofBool t.on

/-- Its period word. -/
def periodWord : BitVec 32 := 0#8 ++ t.periodUs

end Timer

/-- The devices' time: the microsecond clock and the three timers. -/
structure Times where
  usCnt : BitVec 32
  usFrac : BitVec 11
  tm : Fin 3 → Timer

/-- What a clock brings them. -/
structure TimesIn where
  rst : Bool
  timersRst : Bool
  period : BitVec 7
  wrV : Bool
  wrK : BitVec 8
  wrData : BitVec 32

namespace TimesIn

variable (i : TimesIn)

def wrTimer : Bool := i.wrV && decide (0o110#8 ≤ i.wrK) && decide (i.wrK ≤ 0o115#8)

/-- The timer written. -/
def wrTk : BitVec 2 := ((i.wrK - 0o110#8) >>> 1).extractLsb' 0 2

/-- RESET-DEVICES. -/
def wrReset : Bool := i.wrV && i.wrK == 0o104#8 && i.wrData.getLsbD 0

end TimesIn

namespace Times

variable (i : TimesIn) (d : Times)

def usUnits : BitVec 12 := 2000

/-- The remainder a clock later, before it wraps. -/
def usSum : BitVec 12 := (0#1 ++ d.usFrac) + (0#5 ++ i.period)

/-- A timer as a clock's write leaves it. -/
def tmW (k : Fin 3) : Timer :=
  let r := if i.wrReset then Timer.zero else d.tm k
  if i.wrTimer && i.wrTk == BitVec.ofNat 2 k then (d.tm k).write (i.wrK.getLsbD 0) i.wrData else r

/-- The reset, whose clock's instant is one period. -/
def reset (period : BitVec 7) : Times := ⟨0, 0#4 ++ period, fun _ => Timer.zero⟩

/-- A clock. -/
def next : Times :=
  if i.rst then reset i.period
  else
    let wraps := decide (usUnits ≤ d.usSum i)
    { usCnt := if wraps then d.usCnt + 1 else d.usCnt
      usFrac := if wraps then (d.usSum i - usUnits).extractLsb' 0 11 else (d.usSum i).extractLsb' 0 11
      tm := fun k => if i.timersRst then Timer.zero else (d.tmW i k).tick i.period }

/-- `rd_word`, of the timers' words. -/
def rdWord (k : BitVec 8) : Option (BitVec 32) :=
  if k = 0o110#8 then some (d.tm 0).controlWord
  else if k = 0o112#8 then some (d.tm 1).controlWord
  else if k = 0o114#8 then some (d.tm 2).controlWord
  else if k = 0o111#8 then some (d.tm 0).periodWord
  else if k = 0o113#8 then some (d.tm 1).periodWord
  else if k = 0o115#8 then some (d.tm 2).periodWord
  else none

/-- The run from a reset of period `first`. -/
def run (first : BitVec 7) (e : Nat → TimesIn) : Nat → Times := trace next (reset first) e

/-- The instant of a clock: the periods since the reset, its own among them. -/
def instant (first : BitVec 7) (e : Nat → TimesIn) : Nat → Nat
  | 0 => first.toNat
  | t + 1 => if (e t).rst then (e t).period.toNat else instant first e t + (e t).period.toNat

end Times

section Microseconds

variable {i : TimesIn} {d : Times} {now : Nat}

/-- The microsecond clock at an instant. -/
structure Times.Tells (now : Nat) (d : Times) : Prop where
  frac : d.usFrac.toNat < 2000
  count : d.usCnt.toNat * 2000 + d.usFrac.toNat = now % (2000 * 2 ^ 32)

theorem Times.tells_reset (period : BitVec 7) : (Times.reset period).Tells period.toNat := by
  have less := period.isLt
  have frac : (Times.reset period).usFrac.toNat = period.toNat := by
    unfold Times.reset
    simp only [BitVec.toNat_append, BitVec.toNat_ofNat, Nat.zero_mod, Nat.zero_shiftLeft, Nat.zero_or]
  refine ⟨by omega, ?_⟩
  rw [frac]
  show 0 * 2000 + _ = _
  omega

theorem carried {c f p : Nat} (count : c < 2 ^ 32) (frac : f < 2000) (less : p < 2 ^ 7) (far : 2000 ≤ f + p) :
    (c + 1) % 2 ^ 32 * 2000 + (f + p - 2000) = (c * 2000 + f + p) % (2000 * 2 ^ 32) := by
  obtain last | inside : c + 1 = 2 ^ 32 ∨ c + 1 < 2 ^ 32 := by omega
  · have round : c * 2000 + f + p = 2000 * 2 ^ 32 + (f + p - 2000) := by omega
    rw [last, Nat.mod_self, Nat.zero_mul, Nat.zero_add, round, Nat.add_mod_left, Nat.mod_eq_of_lt (by omega)]
  · rw [Nat.mod_eq_of_lt inside, Nat.mod_eq_of_lt (by omega)]
    omega

theorem Times.Tells.next (tells : d.Tells now) (going : i.rst = false) :
    (d.next i).Tells (now + i.period.toNat) := by
  obtain ⟨frac, count⟩ := tells
  have less := i.period.isLt
  have cnt := d.usCnt.isLt
  have sum : (d.usSum i).toNat = d.usFrac.toNat + i.period.toNat := by
    unfold Times.usSum
    simp only [BitVec.toNat_add, BitVec.toNat_append, BitVec.toNat_ofNat, Nat.zero_mod, Nat.zero_shiftLeft,
      Nat.zero_or]
    omega
  have units : Times.usUnits.toNat = 2000 := rfl
  have total : (now + i.period.toNat) % (2000 * 2 ^ 32) =
      (d.usCnt.toNat * 2000 + d.usFrac.toNat + i.period.toNat) % (2000 * 2 ^ 32) := by
    rw [count, Nat.mod_add_mod]
  have eq : d.next i = _ := if_neg (by rw [going]; exact Bool.false_ne_true)
  rw [eq]
  by_cases wraps : Times.usUnits ≤ d.usSum i
  · have far : 2000 ≤ d.usFrac.toNat + i.period.toNat := by
      rw [← sum, ← units]
      exact wraps
    have rest : ((d.usSum i - Times.usUnits).extractLsb' 0 11).toNat =
        d.usFrac.toNat + i.period.toNat - 2000 := by
      rw [BitVec.extractLsb'_toNat, Nat.shiftRight_zero, BitVec.toNat_sub_of_le wraps, sum, units]
      omega
    constructor
    · simp only [wraps, decide_true, if_true]
      omega
    · have more : (d.usCnt + 1).toNat = (d.usCnt.toNat + 1) % 2 ^ 32 := BitVec.toNat_add _ _
      simp only [wraps, decide_true, if_true, rest, more, total]
      exact carried cnt frac less far
  · have near : d.usFrac.toNat + i.period.toNat < 2000 := by
      rw [← sum, ← units]
      exact BitVec.not_le.mp wraps
    have rest : ((d.usSum i).extractLsb' 0 11).toNat = d.usFrac.toNat + i.period.toNat := by
      rw [BitVec.extractLsb'_toNat, Nat.shiftRight_zero, sum]
      omega
    constructor
    · simp only [wraps, decide_false, Bool.false_eq_true, if_false]
      omega
    · simp only [wraps, decide_false, Bool.false_eq_true, if_false, rest, total]
      omega

end Microseconds

/-- What a timer has been told: whether it runs, whether once, its period in microseconds, the instant it
was started or its period rewritten, and that of the last clear or start. -/
structure Told where
  on : Bool
  oneShot : Bool
  period : Nat
  start : Nat
  cleared : Nat

namespace Told

def off : Told := ⟨false, false, 0, 0, 0⟩

variable (now : Nat) (r : Told)

/-- It has a deadline, or had one. -/
def Going : Prop := r.on = true ∧ 0 < r.period

def step : Nat := 2000 * r.period

/-- Its control word written. -/
def control (v : BitVec 32) : Told :=
  if v.getLsbD 0 = false then { r with on := false }
  else if r.on = false then { r with on := true, oneShot := v.getLsbD 2, start := now, cleared := now }
  else if v.getLsbD 1 then { r with cleared := now }
  else r

/-- Its period word written. -/
def rewritten (v : BitVec 32) : Told :=
  if r.on then { r with period := v.toNat % 2 ^ 24, start := now, cleared := now }
  else { r with period := v.toNat % 2 ^ 24 }

/-- A clock's write, at its instant. -/
def written (k : Fin 3) (i : TimesIn) : Told :=
  if i.wrV then
    if i.wrK.toNat = 0o104 ∧ i.wrData.getLsbD 0 then off
    else if i.wrK.toNat = 0o110 + 2 * k.val then r.control now i.wrData
    else if i.wrK.toNat = 0o111 + 2 * k.val then r.rewritten now i.wrData
    else r
  else r

/-- A clock. -/
def next (k : Fin 3) (i : TimesIn) : Told :=
  if i.rst || i.timersRst then off else r.written now k i

/-- The flag the timer owes: it runs, and a point of its grid, the first alone if it runs once, is after
the last clear and not after now. -/
def Flag : Prop :=
  r.Going ∧ ∃ k, 1 ≤ k ∧ (r.oneShot = true → k = 1) ∧ r.cleared < r.start + k * r.step ∧
    r.start + k * r.step ≤ now

end Told

/-- What each timer has been told by a clock of a run. -/
def Times.told (first : BitVec 7) (e : Nat → TimesIn) (k : Fin 3) : Nat → Told
  | 0 => .off
  | t + 1 => (told first e k t).next (instant first e t) k (e t)

section Arithmetic

theorem unitsOf_toNat (us : BitVec 24) : (unitsOf us).toNat = 2000 * us.toNat := by
  have less := us.isLt
  have shifted (n : Nat) (small : n ≤ 11) : ((0#14 ++ us) <<< n).toNat = us.toNat * 2 ^ n := by
    have bound : us.toNat * 2 ^ n < 2 ^ 38 :=
      Nat.lt_of_lt_of_le (Nat.mul_lt_mul_of_pos_right less (Nat.two_pow_pos n))
        ((Nat.pow_add 2 24 n).symm ▸ Nat.pow_le_pow_right (by omega) (by omega))
    rw [BitVec.toNat_shiftLeft, BitVec.toNat_append, BitVec.toNat_ofNat, Nat.zero_mod, Nat.zero_shiftLeft,
      Nat.zero_or, Nat.shiftLeft_eq, Nat.mod_eq_of_lt bound]
  unfold unitsOf
  rw [BitVec.toNat_sub, BitVec.toNat_sub, shifted 11 (by omega), shifted 5 (by omega), shifted 4 (by omega)]
  omega

theorem unitsOf_toInt (us : BitVec 24) : (unitsOf us).toInt = 2000 * us.toNat := by
  have less := us.isLt
  have units := unitsOf_toNat us
  rw [BitVec.toInt_eq_toNat_of_lt (by omega), units]
  rfl

theorem toInt_add_exact {a b : BitVec 38} (low : -2 ^ 37 ≤ a.toInt + b.toInt) (high : a.toInt + b.toInt < 2 ^ 37) :
    (a + b).toInt = a.toInt + b.toInt := by
  rw [BitVec.toInt_add]
  exact Int.bmod_eq_of_le (by omega) (by omega)

theorem Timer.counted_toInt {t : Timer} {p : BitVec 7} (low : -2 ^ 36 ≤ t.rem.toInt) :
    (t.counted p).toInt = t.rem.toInt - p.toNat := by
  have less := p.isLt
  have nat : (0#31 ++ p).toNat = p.toNat := by
    simp only [BitVec.toNat_append, BitVec.toNat_ofNat, Nat.zero_mod, Nat.zero_shiftLeft, Nat.zero_or]
  have wide : (0#31 ++ p).toInt = p.toNat := by
    rw [BitVec.toInt_eq_toNat_of_lt (by omega), nat]
  have high := t.rem.toInt_lt
  unfold counted
  rw [BitVec.toInt_sub, wide]
  exact Int.bmod_eq_of_le (by omega) (by omega)

end Arithmetic

section Keeping

variable {now : Nat} {r : Told} {t : Timer} {p : BitVec 7} {v : BitVec 32}

/-- A one-shot: its deadline to come, passed, or passed and cleared. -/
inductive Once (now : Nat) (r : Told) (t : Timer) : Prop
  | waiting (armed : t.armed = true) (down : t.up = false)
      (rem : t.rem.toInt + now = (r.start + r.step : Nat)) (before : now < r.start + r.step)
  | risen (armed : t.armed = true) (up : t.up = true) (low : -127 ≤ t.rem.toInt) (high : t.rem.toInt ≤ 0)
      (due : r.start + r.step ≤ now) (after : r.cleared < r.start + r.step)
  | spent (idle : t.armed = false) (down : t.up = false) (past : r.start + r.step ≤ r.cleared)

/-- A periodic timer: the count is to the next point of the grid, and the flag is up when the last one
is not cleared. -/
structure Often (now : Nat) (r : Told) (t : Timer) (k : Nat) : Prop where
  armed : t.armed = true
  first : 1 ≤ k
  rem : t.rem.toInt + now = (r.start + k * r.step : Nat)
  last : r.start + (k - 1) * r.step ≤ now
  next : now < r.start + k * r.step
  up : t.up = true ↔ r.cleared < r.start + (k - 1) * r.step

/-- A timer's registers at an instant, against what it was told. -/
structure Timer.Keeps (now : Nat) (r : Told) (t : Timer) : Prop where
  on : t.on = r.on
  oneShot : t.oneShot = r.oneShot
  period : t.periodUs.toNat = r.period
  still : ¬ r.Going → t.armed = false ∧ t.up = false
  order : r.Going → r.start ≤ r.cleared ∧ r.cleared ≤ now
  once : r.Going → r.oneShot = true → Once now r t
  often : r.Going → r.oneShot = false → ∃ k, Often now r t k

theorem Timer.keeps_zero (now : Nat) : Timer.zero.Keeps now .off := by
  have stopped : ¬ Told.off.Going := fun going => Bool.false_ne_true going.1
  exact ⟨rfl, rfl, rfl, fun _ => ⟨rfl, rfl⟩, fun going => absurd going stopped,
    fun going => absurd going stopped, fun going => absurd going stopped⟩

theorem Timer.Keeps.up_iff (keeps : t.Keeps now r) : t.up = true ↔ r.Flag now := by
  by_cases going : r.Going
  · have order := keeps.order going
    cases once : r.oneShot with
    | true =>
      have single : r.Flag now ↔ r.cleared < r.start + r.step ∧ r.start + r.step ≤ now := by
        constructor
        · rintro ⟨-, k, -, only_, past, due⟩
          rw [only_ once, Nat.one_mul] at past due
          exact ⟨past, due⟩
        · rintro ⟨past, due⟩
          rw [← Nat.one_mul r.step] at past due
          exact ⟨going, 1, le_rfl, fun _ => rfl, past, due⟩
      rw [single]
      cases keeps.once going once with
      | waiting armed down rem before =>
        rw [down]
        exact ⟨fun up => absurd up Bool.false_ne_true, fun flag => by omega⟩
      | risen armed up low high due after => exact ⟨fun _ => ⟨after, due⟩, fun _ => up⟩
      | spent idle down past =>
        rw [down]
        exact ⟨fun up => absurd up Bool.false_ne_true, fun flag => by omega⟩
    | false =>
      obtain ⟨k, often⟩ := keeps.often going once
      rw [often.up, ← passed_iff order.1 often.last often.next]
      constructor
      · rintro ⟨j, first, past, due⟩
        exact ⟨going, j, first, fun periodic => absurd (once.symm.trans periodic) Bool.false_ne_true, past, due⟩
      · rintro ⟨-, j, first, -, past, due⟩
        exact ⟨j, first, past, due⟩
  · rw [(keeps.still going).2]
    exact ⟨fun up => absurd up Bool.false_ne_true, fun flag => absurd flag.1 going⟩

theorem Timer.Keeps.going (keeps : t.Keeps now r) (armed : t.armed = true) : r.Going := by
  by_contra stopped
  exact Bool.false_ne_true ((keeps.still stopped).1.symm.trans armed)

theorem Timer.Keeps.rem_bounds (keeps : t.Keeps now r) (armed : t.armed = true) :
    -127 ≤ t.rem.toInt ∧ t.rem.toInt ≤ r.step ∧ (r.oneShot = false → 0 < t.rem.toInt) := by
  have going := keeps.going armed
  have order := keeps.order going
  cases once : r.oneShot with
  | true =>
    cases keeps.once going once with
    | waiting armed down rem before => exact ⟨by omega, by omega, fun periodic => nomatch periodic⟩
    | risen armed up low high due after => exact ⟨by omega, by omega, fun periodic => nomatch periodic⟩
    | spent idle down past => exact absurd (idle.symm.trans armed) Bool.false_ne_true
  | false =>
    obtain ⟨k, often⟩ := keeps.often going once
    have last := often.last
    have next := often.next
    have rem := often.rem
    have step : k * r.step = (k - 1) * r.step + r.step := by
      rw [← Nat.succ_mul, Nat.succ_eq_add_one, Nat.sub_add_cancel often.first]
    rw [step] at next rem
    generalize (k - 1) * r.step = points at last next rem
    exact ⟨by omega, by omega, fun _ => by omega⟩

theorem Timer.keeps_started (t : Timer) (now : Nat) (once : Bool) (us : BitVec 24) :
    Timer.Keeps now ⟨true, once, us.toNat, now, now⟩
      { t with on := true, oneShot := once, periodUs := us, armed := us != 0#24, up := false, rem := unitsOf us } := by
  have units := unitsOf_toInt us
  have started (going : (⟨true, once, us.toNat, now, now⟩ : Told).Going) :
      (us != 0#24) = true ∧ 0 < us.toNat := by
    have pos : 0 < us.toNat := going.2
    refine ⟨bne_iff_ne.mpr fun none_ => ?_, pos⟩
    rw [none_] at pos
    exact Nat.lt_irrefl 0 pos
  refine ⟨rfl, rfl, rfl, fun stopped => ⟨?_, rfl⟩, fun _ => ⟨le_rfl, le_rfl⟩, fun going _ => ?_, fun going _ => ?_⟩
  · have zero : us = 0#24 := by
      apply BitVec.eq_of_toNat_eq
      by_contra some_
      exact stopped ⟨rfl, Nat.pos_of_ne_zero some_⟩
    rw [zero]
    rfl
  · obtain ⟨armed, pos⟩ := started going
    refine .waiting armed rfl ?_ ?_
    · show (unitsOf us).toInt + now = (now + 2000 * us.toNat : Nat)
      omega
    · show now < now + 2000 * us.toNat
      omega
  · obtain ⟨armed, pos⟩ := started going
    refine ⟨1, armed, le_rfl, ?_, ?_, ?_, ?_⟩
    · show (unitsOf us).toInt + now = (now + 1 * (2000 * us.toNat) : Nat)
      omega
    · show now + 0 * _ ≤ now
      omega
    · show now < now + 1 * (2000 * us.toNat)
      omega
    · show false = true ↔ now < now + 0 * _
      exact ⟨fun up => absurd up Bool.false_ne_true, fun less => by omega⟩

theorem Timer.keeps_stopped (off : r.on = false) (on : t.on = r.on) (oneShot : t.oneShot = r.oneShot)
    (period : t.periodUs.toNat = r.period) (idle : t.armed = false) (down : t.up = false) : t.Keeps now r := by
  have stopped : ¬ r.Going := fun going => Bool.false_ne_true (off.symm.trans going.1)
  exact ⟨on, oneShot, period, fun _ => ⟨idle, down⟩, fun going => absurd going stopped,
    fun going => absurd going stopped, fun going => absurd going stopped⟩

theorem Timer.Keeps.rewritten (keeps : t.Keeps now r) (v : BitVec 32) :
    (t.write true v).Keeps now (r.rewritten now v) := by
  have period : (v.extractLsb' 0 24).toNat = v.toNat % 2 ^ 24 := by
    rw [BitVec.extractLsb'_toNat, Nat.shiftRight_zero]
  unfold Timer.write Told.rewritten
  rw [if_pos rfl, ← keeps.on, ← period]
  cases running : t.on with
  | true =>
    have started := t.keeps_started now t.oneShot (v.extractLsb' 0 24)
    rw [if_pos rfl, if_pos rfl, ← keeps.oneShot]
    exact started
  | false =>
    have idle := keeps.still fun going => Bool.false_ne_true (running.symm.trans (keeps.on.trans going.1))
    rw [if_neg Bool.false_ne_true, if_neg Bool.false_ne_true]
    exact keeps_stopped rfl rfl keeps.oneShot rfl idle.1 idle.2

/-- The flag cleared. -/
def Timer.cleared (t : Timer) : Timer :=
  if t.armed && t.up then
    if t.oneShot || t.periodUs == 0#24 then { t with armed := false, up := false } else { t with up := false }
  else t

theorem Timer.Keeps.clear (keeps : t.Keeps now r) : t.cleared.Keeps now { r with cleared := now } := by
  by_cases going : r.Going
  · have order := keeps.order going
    have some_ : (t.periodUs == 0#24) = false := by
      rw [beq_eq_false_iff_ne]
      intro none_
      have pos := going.2
      rw [← keeps.period, none_] at pos
      exact Nat.lt_irrefl 0 pos
    have again : Told.Going { r with cleared := now } := going
    obtain once | once := Bool.eq_false_or_eq_true r.oneShot
    · have shot : t.oneShot = true := keeps.oneShot.trans once
      have kept (x : Timer) (on : x.on = r.on) (oneShot : x.oneShot = r.oneShot)
          (period : x.periodUs.toNat = r.period) (keeps' : Once now { r with cleared := now } x) :
          x.Keeps now { r with cleared := now } :=
        ⟨on, oneShot, period, fun stopped => absurd again stopped, fun _ => ⟨order.1.trans order.2, le_rfl⟩,
          fun _ _ => keeps', fun _ periodic => absurd (once.symm.trans periodic) (by decide)⟩
      cases keeps.once going once with
      | waiting armed down rem before =>
        have same : t.cleared = t := if_neg (by rw [armed, down]; decide)
        rw [same]
        exact kept t keeps.on keeps.oneShot keeps.period (.waiting armed down rem before)
      | risen armed up low high due after =>
        have done : t.cleared = { t with armed := false, up := false } := by
          unfold cleared
          rw [if_pos (by rw [armed, up]; rfl), if_pos (by rw [shot]; rfl)]
        rw [done]
        exact kept { t with armed := false, up := false } keeps.on keeps.oneShot keeps.period (.spent rfl rfl due)
      | spent idle down past =>
        have same : t.cleared = t := by unfold cleared; rw [idle]; rfl
        rw [same]
        exact kept t keeps.on keeps.oneShot keeps.period (.spent idle down (past.trans order.2))
    · have shot : t.oneShot = false := keeps.oneShot.trans once
      obtain ⟨k, often⟩ := keeps.often going once
      have done : t.cleared = { t with up := false } := by
        unfold cleared
        rw [if_neg (c := (t.oneShot || t.periodUs == 0#24) = true) (by rw [shot, some_]; decide)]
        split
        · rfl
        · rename_i down
          rw [often.armed, Bool.true_and] at down
          rw [← Bool.eq_false_iff.mpr down]
      rw [done]
      refine ⟨keeps.on, keeps.oneShot, keeps.period, fun stopped => absurd again stopped,
        fun _ => ⟨order.1.trans order.2, le_rfl⟩, fun _ periodic => absurd (once.symm.trans periodic) (by decide),
        fun _ _ => ⟨k, often.armed, often.first, often.rem, often.last, often.next, ?_⟩⟩
      exact ⟨fun up => absurd up Bool.false_ne_true, fun after => absurd often.last (Nat.not_le_of_lt after)⟩
  · have idle := keeps.still going
    have same : t.cleared = t := by unfold cleared; rw [idle.1]; rfl
    rw [same]
    exact ⟨keeps.on, keeps.oneShot, keeps.period, fun _ => idle, fun going' => absurd going' going,
      fun going' => absurd going' going, fun going' => absurd going' going⟩

theorem Timer.Keeps.enabled (keeps : t.Keeps now r) (ie : Bool) : Timer.Keeps now r { t with ie := ie } :=
  ⟨keeps.on, keeps.oneShot, keeps.period, keeps.still, keeps.order,
    fun going shot => match keeps.once going shot with
      | .waiting armed down rem before => .waiting armed down rem before
      | .risen armed up low high due after => .risen armed up low high due after
      | .spent idle down past => .spent idle down past,
    fun going periodic => (keeps.often going periodic).imp fun _ often =>
      ⟨often.armed, often.first, often.rem, often.last, often.next, often.up⟩⟩

theorem Timer.Keeps.control (keeps : t.Keeps now r) (v : BitVec 32) :
    (t.write false v).Keeps now (r.control now v) := by
  unfold Told.control
  cases run : v.getLsbD 0 with
  | false =>
    have written : t.write false v =
        { t with on := false, ie := v.getLsbD 8, armed := false, up := false } := by
      unfold write
      rw [run]
      simp only [Bool.false_eq_true, if_false, Bool.false_and, Bool.not_false, if_true]
      split_ifs <;> rfl
    rw [written, if_pos rfl]
    exact keeps_stopped rfl rfl keeps.oneShot keeps.period rfl rfl
  | true =>
    rw [if_neg (by decide)]
    obtain on | on := Bool.eq_false_or_eq_true t.on
    · have going : r.on = true := keeps.on.symm.trans on
      have written : t.write false v =
          { (if v.getLsbD 1 then t.cleared else t) with on := t.on, ie := v.getLsbD 8 } := by
        unfold write cleared
        rw [run, on]
        cases v.getLsbD 1 <;> rfl
      rw [written, if_neg (by rw [going]; decide)]
      cases v.getLsbD 1 with
      | true =>
        have kept := keeps.clear.enabled (v.getLsbD 8)
        have same : t.cleared.on = t.on := by
          unfold cleared
          split_ifs <;> rfl
        rw [same] at kept
        exact kept
      | false => exact keeps.enabled (v.getLsbD 8)
    · have stopped : r.on = false := keeps.on.symm.trans on
      have written : t.write false v =
          { t with
            on := true, ie := v.getLsbD 8, oneShot := v.getLsbD 2, armed := t.periodUs != 0#24, up := false
            rem := unitsOf t.periodUs } := by
        unfold write
        rw [run, on]
        rfl
      have started := keeps_started { t with ie := v.getLsbD 8 } now (v.getLsbD 2) t.periodUs
      rw [keeps.period] at started
      rw [written, if_pos stopped]
      exact started

/-- What a tick's count does within its bits: an armed timer's is exact, and one wrap brings it back over
zero. -/
def Timer.Exact (p : BitVec 7) (t : Timer) : Prop :=
  t.armed = true → (t.counted p).toInt = t.rem.toInt - p.toNat ∧
    (t.oneShot = false → (t.counted p).toInt ≤ 0 →
      (t.counted p + unitsOf t.periodUs).toInt = t.rem.toInt - p.toNat + 2000 * t.periodUs.toNat ∧
        0 < (t.counted p + unitsOf t.periodUs).toInt)

theorem Timer.Keeps.exact (keeps : t.Keeps now r) (p : BitVec 7) : t.Exact p := by
  intro armed
  obtain ⟨low, high, pos⟩ := keeps.rem_bounds armed
  have less := p.isLt
  have wide := t.periodUs.isLt
  have units := unitsOf_toInt t.periodUs
  have step : r.step = 2000 * t.periodUs.toNat := by
    rw [keeps.period]
    rfl
  have some_ : 0 < t.periodUs.toNat := by
    rw [keeps.period]
    exact (keeps.going armed).2
  have counted := t.counted_toInt (p := p) (by omega)
  refine ⟨counted, fun periodic passed => ?_⟩
  have above := pos (keeps.oneShot.symm.trans periodic)
  have sum : (t.counted p + unitsOf t.periodUs).toInt = _ := toInt_add_exact (by omega) (by omega)
  rw [sum, counted, units]
  exact ⟨rfl, by omega⟩

theorem Timer.tick_armed (armed : t.armed = true) (p : BitVec 7) :
    t.tick p = { t with
      up := t.up || decide ((t.counted p).toInt ≤ 0)
      rem := if t.oneShot && t.up then t.rem
        else if decide ((t.counted p).toInt ≤ 0) && !t.oneShot then t.counted p + unitsOf t.periodUs
        else t.counted p } := by
  have passed : (t.counted p).sle 0 = decide ((t.counted p).toInt ≤ 0) := rfl
  unfold tick
  rw [armed]
  dsimp only
  rw [passed]
  generalize t.counted p = n
  obtain ⟨on, oneShot, ie, us, armed, up, rem⟩ := t
  cases decide (n.toInt ≤ 0) <;> cases oneShot <;> cases up <;> simp_all

theorem Timer.Keeps.tick (keeps : t.Keeps now r) (p : BitVec 7) : (t.tick p).Keeps (now + p.toNat) r := by
  have less := p.isLt
  cases armed : t.armed with
  | false =>
    have same : t.tick p = t := by
      unfold Timer.tick
      rw [armed]
      rfl
    rw [same]
    refine ⟨keeps.on, keeps.oneShot, keeps.period, keeps.still, fun going => ?_, fun going shot => ?_,
      fun going periodic => ?_⟩
    · have order := keeps.order going
      exact ⟨order.1, by omega⟩
    · cases keeps.once going shot with
      | waiting armed' => exact absurd (armed.symm.trans armed') Bool.false_ne_true
      | risen armed' => exact absurd (armed.symm.trans armed') Bool.false_ne_true
      | spent idle down past => exact .spent idle down past
    · obtain ⟨k, often⟩ := keeps.often going periodic
      exact absurd (armed.symm.trans often.armed) Bool.false_ne_true
  | true =>
    have going := keeps.going armed
    have order := keeps.order going
    obtain ⟨counted, wrapped⟩ := keeps.exact p armed
    have step : r.step = 2000 * t.periodUs.toNat := by
      rw [keeps.period]
      rfl
    have some_ : 0 < t.periodUs.toNat := by
      rw [keeps.period]
      exact going.2
    have ticked := tick_armed armed p
    have frame : ((t.tick p).on = t.on ∧ (t.tick p).oneShot = t.oneShot) ∧
        (t.tick p).periodUs = t.periodUs ∧ (t.tick p).armed = t.armed := by
      rw [ticked]
      exact ⟨⟨rfl, rfl⟩, rfl, rfl⟩
    obtain ⟨⟨on, oneShot⟩, period, still⟩ := frame
    refine ⟨on.trans keeps.on, oneShot.trans keeps.oneShot, (congrArg BitVec.toNat period).trans keeps.period,
      fun stopped => absurd going stopped, fun _ => ⟨order.1, by omega⟩, fun _ shot => ?_, fun _ periodic => ?_⟩
    · have once : t.oneShot = true := keeps.oneShot.trans shot
      cases keeps.once going shot with
      | waiting _ down rem before =>
        have passing : t.tick p =
            { t with up := decide ((t.counted p).toInt ≤ 0), rem := t.counted p } := by
          rw [ticked, once, down]
          simp
        rw [passing]
        by_cases passed : (t.counted p).toInt ≤ 0
        · exact .risen armed (decide_eq_true passed) (show _ ≤ (t.counted p).toInt by omega) passed (by omega) (by omega)
        · refine .waiting armed (decide_eq_false passed) ?_ (by omega)
          show (t.counted p).toInt + (now + p.toNat : Nat) = _
          omega
      | risen _ up low high due after =>
        have stays : t.tick p = t := by
          have higher : (t.up || decide ((t.counted p).toInt ≤ 0)) = t.up := by
            rw [up]
            rfl
          rw [ticked, higher, if_pos (by rw [once, up]; rfl)]
        rw [stays]
        exact .risen armed up low high (by omega) after
      | spent idle => exact absurd (idle.symm.trans armed) Bool.false_ne_true
    · have often_ : t.oneShot = false := keeps.oneShot.trans periodic
      obtain ⟨k, often⟩ := keeps.often going periodic
      have rem := often.rem
      have last := often.last
      have next := often.next
      have points : k * r.step = (k - 1) * r.step + r.step := by
        rw [← Nat.succ_mul, Nat.succ_eq_add_one, Nat.sub_add_cancel often.first]
      by_cases passed : (t.counted p).toInt ≤ 0
      · have passing : t.tick p = { t with up := true, rem := t.counted p + unitsOf t.periodUs } := by
          rw [ticked, often_, decide_eq_true passed]
          simp
        obtain ⟨sum, -⟩ := wrapped often_ passed
        have more : (k + 1) * r.step = k * r.step + r.step := Nat.succ_mul k r.step
        rw [passing]
        refine ⟨k + 1, armed, by omega, ?_, ?_, ?_, ?_⟩
        · show (t.counted p + unitsOf t.periodUs).toInt + (now + p.toNat : Nat) = _
          omega
        · show r.start + k * r.step ≤ now + p.toNat
          omega
        · omega
        · show true = true ↔ r.cleared < r.start + k * r.step
          exact ⟨fun _ => by omega, fun _ => rfl⟩
      · have going_ : t.tick p = { t with up := t.up, rem := t.counted p } := by
          rw [ticked, often_, decide_eq_false passed]
          simp
        rw [going_]
        refine ⟨k, armed, often.first, ?_, by omega, by omega, often.up⟩
        show (t.counted p).toInt + (now + p.toNat : Nat) = _
        omega

end Keeping

section Runs

variable {i : TimesIn} {d : Times} {now : Nat} {r : Told}

theorem wrTk_iff (w : BitVec 8) (k : Fin 3) :
    (0o110#8 ≤ w ∧ w ≤ 0o115#8 ∧ ((w - 0o110#8) >>> 1).extractLsb' 0 2 = BitVec.ofNat 2 k.val) ↔
      w.toNat = 0o110 + 2 * k.val ∨ w.toNat = 0o111 + 2 * k.val := by
  revert w k
  decide

theorem wrK_low (w : BitVec 8) (k : Fin 3) :
    (w.toNat = 0o110 + 2 * k.val → w.getLsbD 0 = false) ∧ (w.toNat = 0o111 + 2 * k.val → w.getLsbD 0 = true) := by
  revert w k
  decide

theorem Times.keeps_written {k : Fin 3} (keeps : (d.tm k).Keeps now r) (i : TimesIn) :
    (d.tmW i k).Keeps now (r.written now k i) := by
  have mine := wrTk_iff i.wrK k
  unfold Told.written
  cases wrote : i.wrV with
  | false =>
    have same : d.tmW i k = d.tm k := by
      unfold tmW TimesIn.wrTimer TimesIn.wrReset
      rw [wrote]
      rfl
    rw [same]
    exact keeps
  | true =>
    have timer : (i.wrTimer && i.wrTk == BitVec.ofNat 2 k.val) = true ↔ _ := Iff.trans (by
      unfold TimesIn.wrTimer TimesIn.wrTk
      simp only [wrote, Bool.true_and, Bool.and_eq_true, decide_eq_true_eq, beq_iff_eq, and_assoc]) mine
    have reset : i.wrReset = true ↔ i.wrK.toNat = 0o104 ∧ i.wrData.getLsbD 0 = true := by
      unfold TimesIn.wrReset
      simp only [wrote, Bool.true_and, Bool.and_eq_true, beq_iff_eq, ← BitVec.toNat_inj]
      rfl
    have small := k.isLt
    have other (here : ¬ (i.wrTimer && i.wrTk == BitVec.ofNat 2 k.val) = true) :
        d.tmW i k = if i.wrReset then Timer.zero else d.tm k := if_neg here
    have own (here : (i.wrTimer && i.wrTk == BitVec.ofNat 2 k.val) = true) :
        d.tmW i k = (d.tm k).write (i.wrK.getLsbD 0) i.wrData := if_pos here
    rw [if_pos rfl]
    split_ifs with whole control period
    · rw [other (fun here => by rcases timer.mp here with at_ | at_ <;> omega), if_pos (reset.mpr whole)]
      exact Timer.keeps_zero now
    · rw [own (timer.mpr (.inl control)), (wrK_low i.wrK k).1 control]
      exact keeps.control i.wrData
    · rw [own (timer.mpr (.inr period)), (wrK_low i.wrK k).2 period]
      exact keeps.rewritten i.wrData
    · rw [other (fun here => by rcases timer.mp here with at_ | at_ <;> omega),
        if_neg (fun whole' => whole (reset.mp whole'))]
      exact keeps

/-- What a clock's registers keep. -/
structure Times.Kept (first : BitVec 7) (e : Nat → TimesIn) (t : Nat) : Prop where
  tells : (run first e t).Tells (instant first e t)
  timers : ∀ k, ((run first e t).tm k).Keeps (instant first e t) (told first e k t)

/-- The timers keep true time in every run. -/
theorem Times.kept_run (first : BitVec 7) (e : Nat → TimesIn) (t : Nat) : Kept first e t := by
  induction t with
  | zero => exact ⟨tells_reset first, fun k => Timer.keeps_zero _⟩
  | succ t ih =>
    have step : run first e (t + 1) = (run first e t).next (e t) := rfl
    constructor
    · rw [step, instant]
      cases resets : (e t).rst with
      | true =>
        have fresh : (run first e t).next (e t) = reset (e t).period := if_pos resets
        rw [fresh]
        exact tells_reset _
      | false => exact ih.tells.next resets
    · intro k
      rw [step, instant, told]
      unfold Told.next Times.next
      cases resets : (e t).rst with
      | true => exact Timer.keeps_zero _
      | false =>
        cases stops : (e t).timersRst with
        | true => exact Timer.keeps_zero _
        | false => exact (keeps_written (ih.timers k) (e t)).tick (e t).period

theorem Times.rdWord_control (d : Times) (k : Fin 3) :
    d.rdWord (BitVec.ofNat 8 (0o110 + 2 * k.val)) = some (d.tm k).controlWord := by
  match k with
  | 0 => rfl
  | 1 => rfl
  | 2 => rfl

theorem Timer.controlWord_flag (t : Timer) : t.controlWord.getLsbD 1 = t.up := by
  obtain ⟨on, oneShot, ie, us, armed, up, rem⟩ := t
  show (0#23 ++ BitVec.ofBool ie ++ 0#5 ++ BitVec.ofBool oneShot ++ BitVec.ofBool up ++
    BitVec.ofBool on).getLsbD 1 = up
  revert on oneShot ie up
  decide

/-- The microsecond clock is the sum of the periods, whatever each is; a timer's flag reads as what it
was told says, and its count is exact. -/
theorem Times.no_drift (first : BitVec 7) (e : Nat → TimesIn) (t : Nat) :
    let d := run first e t
    let now := instant first e t
    (d.usCnt.toNat * 2000 + d.usFrac.toNat = now % (2000 * 2 ^ 32) ∧ d.usFrac.toNat < 2000) ∧
      (∀ k : Fin 3, ∃ w, d.rdWord (BitVec.ofNat 8 (0o110 + 2 * k.val)) = some w ∧
        (w.getLsbD 1 = true ↔ (told first e k t).Flag now)) ∧
      ∀ k, (d.tmW (e t) k).Exact (e t).period := by
  have kept := kept_run first e t
  refine ⟨⟨kept.tells.count, kept.tells.frac⟩, fun k => ?_, fun k => ?_⟩
  · refine ⟨_, rdWord_control _ k, ?_⟩
    rw [Timer.controlWord_flag]
    exact (kept.timers k).up_iff
  · exact (keeps_written (kept.timers k) (e t)).exact (e t).period

end Runs

end MuirFpga.Quux
