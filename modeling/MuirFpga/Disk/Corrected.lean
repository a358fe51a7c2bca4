import MuirFpga.Disk.Spin
import MuirFpga.Disk.Stored

/-!
# The error trap corrects

A block's data runs through the code clock after clock, and what the trap then comes to is the code's own: a block
that checks is moved, a burst of eleven bits is found where it stands, and one of thirty-two is seen.
-/

namespace MuirFpga.Disk

open Arith
open Quux (Seam)

namespace Machine

section Run

variable {m : Machine} {b : Block} {inputs : Nat → Input × Seam} {last : Nat}

theorem run_add (d : Machine) (inputs : Nat → Input × Seam) (n t : Nat) :
    d.run inputs (n + t) = (d.run inputs n).run (fun k => inputs (n + k)) t := by
  induction t with
  | zero => rfl
  | succ t ih =>
    show (d.run inputs (n + t)).next _ = _
    rw [ih]
    rfl

/-- The walk stands on the block and moves none of it. -/
def Unmoved (b : Block) (d : Machine) : Prop := Standing b d ∧ d.c.walk.chState ≠ .move

theorem Unmoved.of {d : Machine} {place : ChState} (on : Standing b d) (state : d.c.walk.chState = place)
    (apart : place ≠ .move) : Unmoved b d :=
  ⟨on, by rw [state]; exact apart⟩

variable (alone : ∀ t < last, Undisturbed (inputs t) (m.run inputs t) ∧ Leaves b.slot (inputs t))

include alone

theorem fetched (f : Fetching b 0 0 m) (long : 1280 ≤ last) (t : Nat) (within : t < 1280) :
    Fetching b (t / 5) (t % 5) (m.run inputs t) := by
  induction t with
  | zero => exact f
  | succ t ih =>
    have before := ih (by omega)
    obtain ⟨calm, leaves⟩ := alone t (by omega)
    have inside : t / 5 < 256 := by omega
    have among : t % 5 = 0 ∨ t % 5 ≠ 0 ∧ t % 5 < 4 ∨ t % 5 = 4 := by omega
    rcases among with taken | ⟨byte, more⟩ | whole
    · rw [taken] at before
      rw [show (t + 1) / 5 = t / 5 by omega, show (t + 1) % 5 = 1 by omega]
      exact before.take inside calm leaves
    · rw [show (t + 1) / 5 = t / 5 by omega, show (t + 1) % 5 = t % 5 + 1 by omega]
      exact before.shift byte more inside calm leaves
    · rw [whole] at before
      rw [show (t + 1) / 5 = t / 5 + 1 by omega, show (t + 1) % 5 = 0 by omega]
      exact before.word_next (by omega) calm leaves

theorem checkwords (f : Fetching b 0 0 m) (long : 1286 ≤ last) (t : Nat) (within : t < 4) :
    Checking b t (m.run inputs (1280 + t)) := by
  induction t with
  | zero => exact (fetched alone f (by omega) 1279 (by decide)).check (alone 1279 (by omega)).1 (alone 1279 (by omega)).2
  | succ t ih => exact (ih (by omega)).shift (by omega) (alone (1280 + t) (by omega)).1 (alone (1280 + t) (by omega)).2

theorem questioned (f : Fetching b 0 0 m) (long : 1286 ≤ last) :
    Questioned b 1 (m.run inputs 1285) ∧ ∀ t ≤ 1285, Unmoved b (m.run inputs t) := by
  have first : Questioned b 0 (m.run inputs 1284) :=
    (checkwords alone f long 3 (by decide)).done (alone 1283 (by omega)).1 (alone 1283 (by omega)).2
  have second : Questioned b 1 (m.run inputs 1285) := first.wait (alone 1284 (by omega)).1 (alone 1284 (by omega)).2
  refine ⟨second, fun t within => ?_⟩
  have among : t < 1280 ∨ (∃ p < 4, t = 1280 + p) ∨ t = 1284 ∨ t = 1285 := by
    by_cases data : t < 1280
    · exact .inl data
    · by_cases check : t < 1284
      · exact .inr (.inl ⟨t - 1280, by omega, by omega⟩)
      · omega
  rcases among with data | ⟨p, inside, rfl⟩ | rfl | rfl
  · have on := fetched alone f (by omega) t data
    exact .of on.on on.state (by decide)
  · have on := checkwords alone f long p inside
    exact .of on.on on.state (by decide)
  · exact .of first.on first.state (by decide)
  · exact .of second.on second.state (by decide)

variable (f : Fetching b 0 0 m) (bad : syndrome b ≠ 0#32)

include f bad

theorem spinning (long : 36039 ≤ last) (t : Nat) (within : t < 34753) : Spinning b t (m.run inputs (1286 + t)) := by
  induction t with
  | zero => exact (questioned alone f (by omega)).1.spin bad (alone 1285 (by omega)).1 (alone 1285 (by omega)).2
  | succ t ih => exact (ih (by omega)).shift (by omega) (alone (1286 + t) (by omega)).1 (alone (1286 + t) (by omega)).2

theorem scanning (long : 44231 ≤ last) (step : Nat) (within : step ≤ 8192)
    (none_ : ∀ j < step, ¬Fire.Low (scanned b j)) :
    Scanning b .tscan step (m.run inputs (36039 + step)) ∧ ∀ t ≤ 36039 + step, Unmoved b (m.run inputs t) := by
  induction step with
  | zero =>
    have on : Scanning b .tscan 0 (m.run inputs 36039) := (spinning alone f bad (by omega) 34752 (by decide)).scan
      (alone 36038 (by omega)).1 (alone 36038 (by omega)).2
    refine ⟨on, fun t before => ?_⟩
    by_cases early : t ≤ 1285
    · exact (questioned alone f (by omega)).2 t early
    · by_cases last_ : t = 36039
      · subst last_
        exact .of on.on on.state (by decide)
      · have spun := spinning alone f bad (by omega) (t - 1286) (by omega)
        rw [show 1286 + (t - 1286) = t by omega] at spun
        exact .of spun.on spun.state (by decide)
  | succ step ih =>
    obtain ⟨before, unmoved⟩ := ih (by omega) fun j earlier => none_ j (by omega)
    have on := before.shift (by omega) (none_ step (by omega)) (alone _ (by omega)).1 (alone _ (by omega)).2
    refine ⟨on, fun t upTo => ?_⟩
    by_cases now : t = 36039 + (step + 1)
    · subst now
      exact .of on.on on.state (by decide)
    · exact unmoved t (by omega)

theorem measured (long : 44234 ≤ last) {step : Nat} (within : step ≤ 8192) (low : Fire.Low (scanned b step))
    (none_ : ∀ j < step, ¬Fire.Low (scanned b j)) :
    Measured b step (m.run inputs (36041 + step)) ∧ ∀ t ≤ 36041 + step, Unmoved b (m.run inputs t) := by
  obtain ⟨at_, unmoved⟩ := scanning alone f bad (by omega) step within none_
  have caught := at_.catch_ low (alone _ (by omega)).1 (alone _ (by omega)).2
  have on : Measured b step (m.run inputs (36041 + step)) := by
    rw [show 36041 + step = 36039 + step + 1 + 1 by omega]
    exact caught.measure (alone _ (by omega)).1 (alone _ (by omega)).2
  refine ⟨on, fun t upTo => ?_⟩
  have among : t ≤ 36039 + step ∨ t = 36039 + step + 1 ∨ t = 36041 + step := by omega
  rcases among with before | rfl | rfl
  · exact unmoved t before
  · exact .of caught.on caught.state (by decide)
  · exact .of on.on on.state (by decide)

theorem raised (long : 44234 ≤ last) : ∃ T ≤ 44234, (∀ t < T, Unmoved b (m.run inputs t)) ∧
    (m.run inputs T).c.walk.chState = .accmul ∧
    ((m.run inputs T).c.errors.eccsoft = true ∨ (m.run inputs T).c.errors.ecchard = true) := by
  by_cases found : ∃ step, step ≤ 8192 ∧ Fire.Low (scanned b step)
  · classical
    obtain ⟨within, low⟩ := Nat.find_spec found
    have none_ : ∀ j < Nat.find found, ¬Fire.Low (scanned b j) := fun j earlier there =>
      Nat.find_min found earlier ⟨by omega, there⟩
    obtain ⟨on, unmoved⟩ := measured alone f bad long within low none_
    obtain ⟨state, raised⟩ := on.ends (alone _ (by omega)).1
    exact ⟨36041 + Nat.find found + 1, by omega, fun t before => unmoved t (by omega), state, raised⟩
  · have none_ (j : Nat) (within : j ≤ 8192) : ¬Fire.Low (scanned b j) := fun low => found ⟨j, within, low⟩
    obtain ⟨on, unmoved⟩ := scanning alone f bad (by omega) 8192 (Nat.le_refl _) fun j before => none_ j (by omega)
    obtain ⟨state, raised⟩ := on.hard (none_ 8192 (Nat.le_refl _)) (alone _ (by omega)).1
    exact ⟨36039 + 8192 + 1, by decide, fun t before => unmoved t (by omega), state, .inr raised⟩

end Run

section Burst

theorem burstHigh_top {r : BitVec 32} (top : r.getLsbD 10 = true) : burstHigh r = 10#4 := by
  unfold burstHigh
  rw [show (List.range 11).reverse = 10 :: (List.range 10).reverse from rfl, List.find?_cons_of_pos top]
  rfl

theorem burstLow_eq {r : BitVec 32} {n : Nat} (small : n ≤ 10) (set : r.getLsbD n = true)
    (clear : ∀ j < n, r.getLsbD j = false) : burstLow r = BitVec.ofNat 4 n := by
  have found : (List.range 11).find? (fun k => r.getLsbD k) = some n := by
    rw [List.find?_range_eq_some]
    refine ⟨set, List.mem_range.mpr (Nat.lt_succ_of_le small), fun j before => ?_⟩
    rw [clear j before]
    rfl
  unfold burstLow
  rw [found]
  rfl

variable {held original : BitVec 8 → BitVec 32} {check : BitVec 32} {first : Nat}

/-- The bits that came back changed. -/
def changed (held original : BitVec 8 → BitVec 32) (k : Nat) : Bool :=
  (bitsOf held).getD k false ^^ (bitsOf original).getD k false

theorem bitsOf_length (words : BitVec 8 → BitVec 32) : (bitsOf words).length = 8192 := bitsBefore_length 256

theorem differences_changed (k : Nat) : ((differences (bitsOf held ++ lowBits check 32)
    (bitsOf original ++ lowBits check 32))[k]?).getD false = changed held original k := by
  have same : (bitsOf held ++ lowBits check 32).length = (bitsOf original ++ lowBits check 32).length := by
    rw [List.length_append, List.length_append, bitsOf_length, bitsOf_length]
  unfold changed
  rw [List.getD_eq_getElem?_getD, List.getD_eq_getElem?_getD]
  by_cases inside : k < (differences (bitsOf held ++ lowBits check 32) (bitsOf original ++ lowBits check 32)).length
  · rw [List.getElem?_eq_getElem inside, Option.getD_some, differences_getElem same]
    by_cases data : k < 8192
    · rw [List.getElem?_append_left (by rw [bitsOf_length]; exact data),
        List.getElem?_append_left (by rw [bitsOf_length]; exact data)]
    · rw [List.getElem?_append_right (by rw [bitsOf_length]; omega),
        List.getElem?_append_right (by rw [bitsOf_length]; omega), bitsOf_length, bitsOf_length, Bool.xor_self,
        List.getElem?_eq_none (by rw [bitsOf_length]; omega), List.getElem?_eq_none (by rw [bitsOf_length]; omega)]
      rfl
  · have outside : 8192 ≤ k := by
      rw [differences_length same, List.length_append, bitsOf_length, Fire.lowBits_length] at inside
      omega
    rw [List.getElem?_eq_none (Nat.le_of_not_lt inside), List.getElem?_eq_none (by rw [bitsOf_length]; omega),
      List.getElem?_eq_none (by rw [bitsOf_length]; omega)]
    rfl

theorem syndrome_eq (b : Block) (own : b.check = Packs.PackFile.eccOverWords (listOf original)) :
    syndrome b = Fire.code.run (BitVec.ofNat 32 0)
      (differences (bitsOf b.words ++ lowBits b.check 32) (bitsOf original ++ lowBits b.check 32)) := by
  have same : (bitsOf b.words ++ lowBits b.check 32).length = (bitsOf original ++ lowBits b.check 32).length := by
    rw [List.length_append, List.length_append, bitsOf_length, bitsOf_length]
  have run := Feedback.run_xor (F := Fire.code) same (BitVec.ofNat 32 0) (BitVec.ofNat 32 0)
  have none_ := checked original
  rw [← own] at none_
  rw [BitVec.xor_self, none_] at run
  exact (run.trans BitVec.xor_zero).symm

theorem ends_of_burst (near : Near (bitsOf held) (bitsOf original) first 11) (differ : bitsOf held ≠ bitsOf original) :
    ∃ low last, low ≤ last ∧ last ≤ low + 10 ∧ last < 8192 ∧ changed held original low = true ∧
      changed held original last = true ∧ (∀ k < low, changed held original k = false) ∧
      ∀ k, last < k → changed held original k = false := by
  have outside (k : Nat) (beside : k < first ∨ first + 11 ≤ k) : changed held original k = false := by
    unfold changed
    rw [List.getD_eq_getElem?_getD, List.getD_eq_getElem?_getD, near.2 k beside, Bool.xor_self]
  have beyond (k : Nat) (past : 8192 ≤ k) : changed held original k = false := by
    unfold changed
    rw [List.getD_eq_getElem?_getD, List.getD_eq_getElem?_getD, List.getElem?_eq_none (by rwa [bitsOf_length]),
      List.getElem?_eq_none (by rwa [bitsOf_length])]
    rfl
  have some_ : ∃ k, changed held original k = true := by
    by_contra none_
    apply differ
    apply List.ext_getElem (by rw [bitsOf_length, bitsOf_length])
    intro k left right
    have same : changed held original k = false := Bool.eq_false_iff.mpr fun set => none_ ⟨k, set⟩
    unfold changed at same
    rw [List.getD_eq_getElem?_getD, List.getD_eq_getElem?_getD, List.getElem?_eq_getElem left,
      List.getElem?_eq_getElem right] at same
    exact bne_eq_false_iff_eq.mp same
  have low_le : Nat.find some_ ≤ 8191 := by
    by_contra past
    exact Bool.false_ne_true ((beyond _ (by omega)).symm.trans (Nat.find_spec some_))
  have greatest := Nat.findGreatest_spec (P := fun k => changed held original k = true) low_le (Nat.find_spec some_)
  have behind (k : Nat) (after : Nat.findGreatest (fun k => changed held original k = true) 8191 < k) :
      changed held original k = false := by
    by_cases past : 8192 ≤ k
    · exact beyond k past
    · exact Bool.eq_false_iff.mpr (Nat.findGreatest_is_greatest after (by omega))
  have within {k : Nat} (set : changed held original k = true) : first ≤ k ∧ k < first + 11 := by
    by_contra aside
    exact Bool.false_ne_true ((outside k (by omega)).symm.trans set)
  have left := within (Nat.find_spec some_)
  have right := within greatest
  exact ⟨Nat.find some_, _, Nat.le_findGreatest low_le (Nat.find_spec some_), by omega,
    Nat.lt_succ_of_le (Nat.findGreatest_le 8191), Nat.find_spec some_, greatest,
    fun k before => Bool.eq_false_iff.mpr (Nat.find_min some_ before), behind⟩

theorem located {m : Machine} {b : Block} {inputs : Nat → Input × Seam}
    (alone : ∀ t < 44234, Undisturbed (inputs t) (m.run inputs t) ∧ Leaves b.slot (inputs t)) (f : Fetching b 0 0 m)
    (own : b.check = Packs.PackFile.eccOverWords (listOf original)) (near : Near (bitsOf b.words) (bitsOf original) first 11)
    (differ : bitsOf b.words ≠ bitsOf original) :
    ∃ T ≤ 44234, (∀ t < T, Unmoved b (m.run inputs t)) ∧ (m.run inputs T).c.walk.chState = .accmul ∧
      (m.run inputs T).c.walk.chReq = b.request ∧ (m.run inputs T).c.errors = { b.errors with eccsoft := true } ∧
      ∃ low < 8192, ∃ pattern : BitVec 11,
        (m.run inputs T).c.regs.eccReg = 0#5 ++ pattern ++ BitVec.ofNat 16 (low + 1) ∧
        ∀ k, (bitsOf original).getD k false =
          ((bitsOf b.words).getD k false ^^ (decide (low ≤ k) && pattern.getLsbD (k - low))) := by
  obtain ⟨low, last, upTo, short, inside, set, end_, before, behind⟩ := ends_of_burst near differ
  have syndrome := syndrome_eq b own
  have bits (k : Nat) := @differences_changed b.words original b.check k
  have length : (differences (bitsOf b.words ++ lowBits b.check 32) (bitsOf original ++ lowBits b.check 32)).length = 8224 := by
    rw [differences_length (by rw [List.length_append, List.length_append, bitsOf_length, bitsOf_length]),
      List.length_append, bitsOf_length, Fire.lowBits_length]
  obtain ⟨caught, none_⟩ := Fire.scan length inside ((bits last).trans end_)
    (fun k early => (bits k).trans (before k (by omega))) (fun k late => (bits k).trans (behind k late))
  rw [← syndrome] at caught none_
  generalize window_ : Fire.window (differences (bitsOf b.words ++ lowBits b.check 32)
    (bitsOf original ++ lowBits b.check 32)) last = w at caught
  have inWindow {j : Nat} (stage : j < 11) : w.getLsbD j = (decide (10 ≤ last + j) && changed b.words original (last + j - 10)) := by
    rw [← window_, Fire.window_getLsbD stage]
    by_cases pad : last + j < 10
    · rw [List.getElem?_append_left (by rwa [List.length_replicate]), List.getElem?_replicate_of_lt pad,
        decide_eq_false (by omega)]
      rfl
    · rw [List.getElem?_append_right (by rw [List.length_replicate]; omega), List.length_replicate, bits,
        decide_eq_true (by omega), Bool.true_and]
  have high : burstHigh (scanned b last) = 10#4 := by
    refine burstHigh_top ((congrArg (·.getLsbD 10) caught).trans ((inWindow (by decide)).trans ?_))
    rw [decide_eq_true (by omega), Nat.add_sub_cancel, end_]
    rfl
  have lowest : burstLow (scanned b last) = BitVec.ofNat 4 (10 - (last - low)) := by
    rw [show scanned b last = w from caught]
    apply burstLow_eq (by omega)
    · rw [inWindow (by omega), show last + (10 - (last - low)) - 10 = low by omega, set, decide_eq_true (by omega)]
      rfl
    · intro j early
      rw [inWindow (by omega)]
      by_cases pad : 10 ≤ last + j
      · rw [before _ (by omega), Bool.and_false]
      · rw [decide_eq_false pad, Bool.false_and]
  have width : burstHigh (scanned b last) - burstLow (scanned b last) = BitVec.ofNat 4 (last - low) := by
    rw [high, lowest]
    have among : last - low < 11 := by omega
    generalize last - low = n at among
    decide +revert
  have bad : Machine.syndrome b ≠ 0#32 := by
    intro none__
    rw [none__, show Fire.code.free^[34753 + last] 0#32 = 0#32 from Feedback.free_iterate_zero _] at caught
    have top := inWindow (j := 10) (by decide)
    rw [← caught, Nat.add_sub_cancel, end_, decide_eq_true (by omega)] at top
    exact nomatch top
  have found : Fire.Low (scanned b last) := by
    rw [show scanned b last = w from caught, ← window_]
    exact Fire.window_low
  have position : (BitVec.ofNat 14 last).setWidth 16 - (BitVec.ofNat 4 (last - low)).setWidth 16 + 1 =
      BitVec.ofNat 16 (low + 1) := by
    have wide : ((BitVec.ofNat 4 (last - low)).setWidth 16).toNat = last - low := by
      rw [BitVec.toNat_setWidth, BitVec.toNat_ofNat]
      omega
    have stepped : ((BitVec.ofNat 14 last).setWidth 16).toNat = last := by
      rw [BitVec.toNat_setWidth, BitVec.toNat_ofNat]
      omega
    apply BitVec.eq_of_toNat_eq
    rw [BitVec.toNat_add, BitVec.toNat_sub_of_le (by rw [BitVec.le_def, wide, stepped]; omega), wide, stepped,
      BitVec.toNat_ofNat, show (1 : BitVec 16).toNat = 1 from rfl]
    omega
  obtain ⟨on, unmoved⟩ := measured alone f bad (Nat.le_refl _) (by omega) found none_
  obtain ⟨state, request, errors, eccReg⟩ := on.located (by
    rw [width, BitVec.le_def, BitVec.toNat_setWidth, BitVec.toNat_ofNat, BitVec.toNat_ofNat]
    omega) (alone _ (by omega)).1
  refine ⟨36041 + last + 1, by omega, fun t early => unmoved t (by omega), state, request, errors, low, by omega,
    (scanned b last).extractLsb' 0 11 >>> (burstLow (scanned b last)).toNat, eccReg.trans ?_, fun k => ?_⟩
  · rw [width, position]
  · have differs : (decide (low ≤ k) && ((scanned b last).extractLsb' 0 11 >>> (burstLow (scanned b last)).toNat).getLsbD (k - low))
        = changed b.words original k := by
      by_cases early : k < low
      · rw [decide_eq_false (by omega), Bool.false_and, before k early]
      · have shift : (burstLow (scanned b last)).toNat = 10 - (last - low) := by
          rw [lowest, BitVec.toNat_ofNat]
          omega
        rw [decide_eq_true (by omega), Bool.true_and, BitVec.getLsbD_ushiftRight, BitVec.getLsbD_extractLsb', shift,
          Nat.zero_add, show scanned b last = w from caught]
        by_cases late : last < k
        · rw [decide_eq_false (by omega), Bool.false_and, behind k late]
        · rw [decide_eq_true (by omega), Bool.true_and, inWindow (by omega), decide_eq_true (by omega), Bool.true_and,
            show last + (10 - (last - low) + (k - low)) - 10 = k by omega]
    rw [differs]
    unfold changed
    generalize (bitsOf original).getD k false = o
    generalize (bitsOf b.words).getD k false = h
    cases o <;> cases h <;> rfl

end Burst

section Visit

variable {d : Machine} {inputs : Nat → Input × Seam} {slot : BitVec 5} {n span : Nat} {through : ChState → Prop}

/-- The walk finds a block in a slot and goes to a clock of it, let alone and the slot left to it. -/
structure Visits (d : Machine) (inputs : Nat → Input × Seam) (slot : BitVec 5) (n span : Nat) (through : ChState → Prop) :
    Prop where
  looks : d.c.walk.chState = .look
  found : d.c.lookup.slotHit = true
  place : d.c.lookup.slotOf = slot
  block : d.c.walk.chTrack = false
  calm : ∀ t < span, Undisturbed (inputs t) (d.run inputs t)
  leaves : ∀ t, 0 < t → t < span → Leaves slot (inputs t)
  between : ∀ t, 0 < t → t < n → through (d.run inputs t).c.walk.chState

/-- A slot's block as the walk has it. -/
def blockAt (slot : BitVec 5) (d : Machine) : Block :=
  ⟨slot, d.words slot, d.s.dck slot, d.c.walk.chRead, d.c.walk.chReq, d.c.errors, d.c.regs.eccReg⟩

theorem Standing.blockAt {b : Block} (on : Standing b d) : Machine.blockAt b.slot d = b := by
  unfold Machine.blockAt
  rw [on.words, on.check, on.read, on.request, on.errors, on.eccReg]

theorem Approaching.state {b : Block} (f : Approaching b d) : atHeader d.c.walk.chState := by
  cases f with
  | hdrc _ _ on => exact .inl on.state
  | hdre on => exact .inr (.inl on.state)
  | hdrck on => exact .inr (.inr (.inl on.state))
  | pf on => exact .inr (.inr (.inr on.state))

theorem Visits.opens (v : Visits d inputs slot n span through) (some_ : 0 < span) :
    Approaching (blockAt slot (d.run inputs 1)) (d.run inputs 1) ∧ (d.run inputs 1).c.walk.chRead = d.c.walk.chRead := by
  have calm : Undisturbed (inputs 0) d := v.calm 0 some_
  have made : stated (inputs 0) d = d.c.lookStep (inputs 0).2 (d.c.flow (inputs 0).1 d.s) := by
    rw [stated_of_ne (by rw [v.looks]; decide)]
    unfold Controller.stateStep
    rw [v.looks]
  unfold Controller.lookStep at made
  rw [v.found, if_pos rfl] at made
  have walk := calm.alike.walk
  have parser := calm.alike.parser
  rw [made] at walk parser
  refine ⟨.hdrc 0 (by decide) ⟨?_, congrArg Walk.chState walk, congrArg Walk.chI walk, congrArg Walk.chRa walk⟩
    (congrArg Walk.chPh walk) (fun _ => ⟨fun later => absurd later (by decide), fun later => absurd later (by decide)⟩),
    (congrArg Walk.chRead walk :)⟩
  exact ⟨(congrArg Walk.chSlot walk).trans v.place, rfl, (congrArg Walk.chTrack walk).trans v.block,
    congrArg Walk.chDckWe walk, ⟨congrArg Parser.psWr parser, congrArg Parser.trkMetaWe parser⟩, rfl, rfl, rfl, rfl, rfl⟩

theorem Visits.approached (v : Visits d inputs slot n span through) {t : Nat} (some_ : 0 < t) (within : t < span)
    (header : ∀ u, 0 < u → u ≤ t → atHeader (d.run inputs u).c.walk.chState) :
    Approached (blockAt slot (d.run inputs 1)) (d.run inputs (t + 1)) := by
  suffices Approaching (blockAt slot (d.run inputs 1)) (d.run inputs t) from
    this.next (v.calm t within) (v.leaves t some_ within)
  induction t, some_ using Nat.le_induction with
  | base => exact (v.opens (by omega)).1
  | succ t some_ ih =>
    have here := header (t + 1) (Nat.succ_pos t) (Nat.le_refl _)
    cases (ih (by omega) fun u after upTo => header u after (by omega)).next (v.calm t (by omega))
      (v.leaves t some_ (by omega)) with
    | header there => exact there
    | data there =>
      have state : (d.run inputs (t + 1)).c.walk.chState = _ := there.on.state
      rw [state] at here
      revert here
      unfold atHeader
      cases (blockAt slot (d.run inputs 1)).read <;> exact fun header => absurd header (by decide)
    | left off =>
      have off : (d.run inputs (t + 1)).c.walk.chState = .accmul ∨ (d.run inputs (t + 1)).c.walk.chState = .look := off
      rcases off with off | off <;> rw [off] at here <;> exact absurd here (by unfold atHeader; decide)

theorem Visits.arrived (v : Visits d inputs slot n span through) (within : n ≤ span) {place : ChState}
    (apart : ¬ (atHeader place ∨ place = .look ∨ place = .accmul)) (data : (d.run inputs n).c.walk.chState = place)
    (header : ∀ u, 0 < u → u < n → atHeader (d.run inputs u).c.walk.chState) :
    Arrived (blockAt slot (d.run inputs 1)) (d.run inputs n) := by
  match n, data with
  | 0, data => exact absurd (.inr (.inl (data.symm.trans v.looks))) apart
  | 1, data => exact absurd (.inl (data ▸ (v.opens (by omega)).1.state)) apart
  | t + 2, data =>
    cases v.approached (t := t + 1) (by omega) (by omega) fun u after upTo => header u after (by omega) with
    | data there => exact there
    | header there => exact absurd (.inl (data ▸ there.state)) apart
    | left off =>
      exact absurd (off.elim (fun off => .inr (.inr (data.symm.trans off))) fun off => .inr (.inl (data.symm.trans off)))
        apart

theorem Visits.fetching (v : Visits d inputs slot n span atHeader) (within : n ≤ span) (reads : d.c.walk.chRead = true)
    (data : (d.run inputs n).c.walk.chState = .data) :
    blockAt slot (d.run inputs n) = blockAt slot (d.run inputs 1) ∧
      Fetching (blockAt slot (d.run inputs n)) 0 0 (d.run inputs n) := by
  have some_ : 0 < n := by
    refine Nat.pos_of_ne_zero fun none_ => ?_
    subst none_
    exact absurd (v.looks.symm.trans data) (by decide)
  have f : Fetching (blockAt slot (d.run inputs 1)) 0 0 (d.run inputs n) :=
    (v.arrived within (by unfold atHeader; decide) data v.between).fetching ((v.opens (by omega)).2.trans reads)
  have same : blockAt slot (d.run inputs n) = blockAt slot (d.run inputs 1) := f.on.blockAt
  rw [same]
  exact ⟨rfl, f⟩

theorem Visits.stored (v : Visits d inputs slot n span fun state => atHeader state ∨ state = .move) (within : n < span)
    (writes : d.c.walk.chRead = false) (made : (d.run inputs n).c.walk.chState = .wend) :
    Stored slot (d.run inputs n) := by
  have opens := v.opens (by omega)
  have away (t : Nat) (some_ : 0 < t) (upTo : t ≤ n) : (d.run inputs t).c.walk.chState ≠ .accmul ∧
      (d.run inputs t).c.walk.chState ≠ .look ∧ (t < n → (d.run inputs t).c.walk.chState ≠ .wend) := by
    by_cases last : t = n
    · subst last
      rw [made]
      exact ⟨by decide, by decide, fun before => absurd before (Nat.lt_irrefl _)⟩
    · rcases v.between t some_ (by omega) with (is | is | is | is) | is <;> rw [is] <;>
        exact ⟨by decide, by decide, fun _ => by decide⟩
  have among (t : Nat) (some_ : 0 < t) (upTo : t ≤ n) :
      (∀ u, 0 < u → u ≤ t → atHeader (d.run inputs u).c.walk.chState) ∨ (∃ k p, Storing slot k p (d.run inputs t)) ∨
        Stored slot (d.run inputs t) := by
    induction t, some_ using Nat.le_induction with
    | base =>
      refine .inl fun u after upTo => ?_
      obtain rfl : u = 1 := by omega
      exact opens.1.state
    | succ t some_ ih =>
      obtain ⟨moves, again, -⟩ := away (t + 1) (Nat.succ_pos t) upTo
      rcases ih (by omega) with header | ⟨k, p, storing⟩ | stored
      · cases v.approached (t := t) some_ (by omega) header with
        | header there =>
          refine .inl fun u after upTo => ?_
          by_cases before : u ≤ t
          · exact header u after before
          · obtain rfl : u = t + 1 := by omega
            exact there.state
        | data there => exact .inr (.inl ⟨0, 0, there.storing (opens.2.trans writes)⟩)
        | left off => exact absurd off (not_or.mpr ⟨moves, again⟩)
      · exact .inr (storing.next (v.calm t (by omega)) (v.leaves t some_ (by omega)) moves)
      · exact absurd stored.state ((away t some_ (by omega)).2.2 (by omega))
  have some_ : 0 < n := by
    refine Nat.pos_of_ne_zero fun none_ => ?_
    subst none_
    exact absurd (v.looks.symm.trans made) (by decide)
  rcases among n some_ (Nat.le_refl n) with header | ⟨k, p, storing⟩ | stored
  · rcases header n some_ (Nat.le_refl n) with is | is | is | is <;> exact absurd (is.symm.trans made) (by decide)
  · exact absurd (storing.state.symm.trans made) (by decide)
  · exact stored

/-- What a walk has found of the code. -/
def found (c : Controller) : Bool × Bool := (c.errors.eccsoft, c.errors.ecchard)

theorem found_move (c y : Controller) (i : Input) (s : Store) :
    found (if c.walk.chRead then c.moveRead i s y else c.moveWrite i y) = found y := by
  have kept (z : Controller) (same : found z = found y) :
      found (if c.walk.chILast then { z with walk.chState := .next }
        else { z with walk.chI := c.walk.chI + 1, walk.chPh := 2 }) = found y := Controller.read_of_ite same same
  apply Controller.read_of_ite
  · unfold Controller.moveRead
    apply Controller.read_of_ite rfl
    apply Controller.read_of_ite rfl
    apply Controller.read_of_ite rfl
    apply Controller.read_of_ite rfl
    apply Controller.read_of_ite _ rfl
    apply Controller.read_of_ite rfl
    exact kept _ (Controller.read_of_ite rfl rfl)
  · unfold Controller.moveWrite
    apply Controller.read_of_ite rfl
    apply Controller.read_of_ite
    · apply Controller.read_of_ite _ rfl
      exact Controller.read_of_ite rfl rfl
    apply Controller.read_of_ite rfl
    exact Controller.read_of_ite rfl rfl

theorem move_errors {x : Input × Seam} (calm : Undisturbed x d) (moves : d.c.walk.chState = .move) :
    (d.next x).c.errors.eccsoft = d.c.errors.eccsoft ∧ (d.next x).c.errors.ecchard = d.c.errors.ecchard := by
  rw [calm.alike.errors, stated_of_ne (by rw [moves]; decide)]
  unfold Controller.stateStep
  rw [moves]
  exact Prod.mk.inj (found_move d.c (d.c.flow x.1 d.s) x.1 d.s)

end Visit

/-- A Write leaves its block's checkword, made of the words it stored. A block that checks is read with no ECC
error. Of one whose words came back with a burst of eleven bits, none is moved, and the ECC register has the bits
to change and where, the first bit being 1; and a burst of thirty-two, of words and checkword, is an ECC error. -/
theorem trap_corrects (d : Machine) (inputs : Nat → Input × Seam) (slot : BitVec 5) (n : Nat) :
    (Visits d inputs slot n (n + 1) (fun state => atHeader state ∨ state = .move) → d.c.walk.chRead = false →
      (d.run inputs n).c.walk.chState = .wend →
      (d.run inputs (n + 1)).c.walk.chDckWe = true ∧ (d.run inputs (n + 1)).c.walk.chDckSlot = slot ∧
        (d.run inputs (n + 1)).c.walk.chDckVal =
          Packs.PackFile.eccOverWords (listOf ((d.run inputs (n + 1)).words slot))) ∧
    (d.c.walk.chRead = true → (d.run inputs n).c.walk.chState = .data →
      let b := blockAt slot (d.run inputs n)
      (Visits d inputs slot n (n + 1286) atHeader → b.check = Packs.PackFile.eccOverWords (listOf b.words) →
        (∀ t ≤ 1286, Standing b (d.run inputs (n + t))) ∧ (d.run inputs (n + 1286)).c.walk.chState = .move ∧
        ∀ u, (∀ t < u, Undisturbed (inputs (n + 1286 + t)) (d.run inputs (n + 1286 + t)) ∧
            (d.run inputs (n + 1286 + t)).c.walk.chState = .move) →
          (d.run inputs (n + 1286 + u)).c.errors.eccsoft = b.errors.eccsoft ∧
            (d.run inputs (n + 1286 + u)).c.errors.ecchard = b.errors.ecchard) ∧
      (Visits d inputs slot n (n + 44234) atHeader →
        (∀ original first, b.check = Packs.PackFile.eccOverWords (listOf original) →
          Near (bitsOf b.words) (bitsOf original) first 11 → bitsOf b.words ≠ bitsOf original →
          ∃ T ≤ 44234, (∀ t < T, Unmoved b (d.run inputs (n + t))) ∧
            (d.run inputs (n + T)).c.walk.chState = .accmul ∧ (d.run inputs (n + T)).c.walk.chReq = b.request ∧
            (d.run inputs (n + T)).c.errors = { b.errors with eccsoft := true } ∧
            ∃ low < 8192, ∃ pattern : BitVec 11,
              (d.run inputs (n + T)).c.regs.eccReg = 0#5 ++ pattern ++ BitVec.ofNat 16 (low + 1) ∧
              ∀ k, (bitsOf original).getD k false =
                ((bitsOf b.words).getD k false ^^ (decide (low ≤ k) && pattern.getLsbD (k - low)))) ∧
        ∀ original first, Near (bitsOf b.words ++ lowBits b.check 32)
            (bitsOf original ++ lowBits (Packs.PackFile.eccOverWords (listOf original)) 32) first 32 →
          bitsOf b.words ++ lowBits b.check 32 ≠
            bitsOf original ++ lowBits (Packs.PackFile.eccOverWords (listOf original)) 32 →
          ∃ T ≤ 44234, (∀ t < T, Unmoved b (d.run inputs (n + t))) ∧
            (d.run inputs (n + T)).c.walk.chState = .accmul ∧
            ((d.run inputs (n + T)).c.errors.eccsoft = true ∨ (d.run inputs (n + T)).c.errors.ecchard = true))) := by
  have alone {span : Nat} (v : Visits d inputs slot n (n + span) atHeader) (some_ : 0 < n) (t : Nat) (before : t < span) :
      Undisturbed (inputs (n + t)) ((d.run inputs n).run (fun k => inputs (n + k)) t) ∧ Leaves slot (inputs (n + t)) := by
    rw [← run_add]
    exact ⟨v.calm _ (by omega), v.leaves _ (by omega) (by omega)⟩
  refine ⟨fun v writes made => ?_, fun reads data => ?_⟩
  · have stored := v.stored (Nat.lt_succ_self n) writes made
    have some_ : 0 < n := by
      refine Nat.pos_of_ne_zero fun none_ => ?_
      subst none_
      exact absurd (v.looks.symm.trans made) (by decide)
    exact stored.next (v.calm n (Nat.lt_succ_self n)) (v.leaves n some_ (Nat.lt_succ_self n))
  intro b
  have some_ {span : Nat} (v : Visits d inputs slot n (n + span) atHeader) : 0 < n := by
    refine Nat.pos_of_ne_zero fun none_ => ?_
    subst none_
    exact absurd (v.looks.symm.trans data) (by decide)
  simp only [run_add]
  refine ⟨fun v own => ?_, fun v => ⟨fun original first own near differ => ?_, fun original first near differ => ?_⟩⟩
  · have f : Fetching b 0 0 (d.run inputs n) := (v.fetching (by omega) reads data).2
    have good : syndrome b = 0#32 := by
      unfold syndrome
      rw [own]
      exact checked b.words
    obtain ⟨asked, unmoved⟩ := questioned (alone v (some_ v)) f (Nat.le_refl _)
    obtain ⟨calm, leaves⟩ := alone v (some_ v) 1285 (by decide)
    obtain ⟨on, moves⟩ := asked.move good calm leaves
    refine ⟨fun t upTo => ?_, moves, fun u going => ?_⟩
    · by_cases last : t = 1286
      · subst last
        exact on
      · exact (unmoved t (by omega)).1
    · induction u with
      | zero => exact ⟨congrArg Errors.eccsoft on.errors, congrArg Errors.ecchard on.errors⟩
      | succ u ih =>
        have before := ih fun t earlier => going t (by omega)
        have step := move_errors (going u (Nat.lt_succ_self u)).1 (going u (Nat.lt_succ_self u)).2
        exact ⟨step.1.trans before.1, step.2.trans before.2⟩
  · exact located (alone v (some_ v)) (v.fetching (by omega) reads data).2 own near differ
  · refine raised (alone v (some_ v)) (v.fetching (by omega) reads data).2 (fun none_ => ?_) (Nat.le_refl _)
    exact near.seen Fire.code (by decide) (by decide) differ (none_.trans (checked original).symm)

/-- A Read at its lookup, of a block in slot 0 whose words are 0 and whose checkword is this. -/
def atLookup (check : BitVec 32) : Machine where
  c := { (default : Controller) with
    walk.chState := .look, walk.chRead := true, lookup.slotHit := true, request.slotOkQ := true, walk.hdrEqQ := true }
  s := { (default : Store) with dck := fun _ => check, valid := fun _ => true }

/-- Nothing comes in. -/
def quiet : Input × Seam :=
  (⟨false, false, false, false, false, 0, 0, 0, 0, true, false, false, 0⟩, ⟨false, 0, 0, 0, false, false, 0⟩)

theorem quiet_next {d : Machine} (calm : d.c.rstQ = false ∧ d.c.face.storeQ = false ∧ d.c.face.stGo = false) :
    (d.next quiet).c.rstQ = false ∧ (d.next quiet).c.face.storeQ = false ∧ (d.next quiet).c.face.stGo = false := by
  obtain ⟨running, unstored, idle⟩ := calm
  have face : (d.c.stateStep quiet.1 quiet.2 d.s (d.c.streamStep (d.c.flow quiet.1 d.s))).face = d.c.decodes quiet.1 :=
    congrArg Prod.snd ((d.c.stateStep_aside _ _ _ _).trans (d.c.streamStep_aside _))
  have unasked : d.c.storeNow quiet.1 = false := by
    unfold Controller.storeNow Controller.asked
    rw [show quiet.1.devRq = false from rfl, Bool.and_false, Bool.false_and, Bool.false_and]
  have made : (d.next quiet).c.face.storeQ = d.c.storeNow quiet.1 ∧ (d.next quiet).c.face.stGo = d.c.face.storeQ := by
    show (if d.c.rstQ then _ else _ : Controller).face.storeQ = _ ∧ (if d.c.rstQ then _ else _ : Controller).face.stGo = _
    rw [running, if_neg Bool.false_ne_true]
    unfold Controller.runs Controller.goStep
    rw [idle, if_neg Bool.false_ne_true]
    rw [show ∀ y, Controller.initStep quiet.1 y = y from fun _ => rfl]
    unfold Controller.takenStep
    split_ifs <;> rw [face] <;> exact ⟨rfl, rfl⟩
  exact ⟨rfl, made.1.trans unasked, made.2.trans unstored⟩

theorem quiet_run (check : BitVec 32) (t : Nat) : Undisturbed quiet ((atLookup check).run (fun _ => quiet) t) := by
  have still (t : Nat) : ((atLookup check).run (fun _ => quiet) t).c.rstQ = false ∧
      ((atLookup check).run (fun _ => quiet) t).c.face.storeQ = false ∧
      ((atLookup check).run (fun _ => quiet) t).c.face.stGo = false := by
    induction t with
    | zero => exact ⟨rfl, rfl, rfl⟩
    | succ t ih => exact quiet_next ih
  exact ⟨(still t).1, rfl, fun go => absurd ((still t).2.2.symm.trans go) Bool.false_ne_true⟩

/-- All zeros but the lowest bit of the last word. -/
def lastBit : BitVec 8 → BitVec 32 := Function.update (fun _ => 0) 255 1

theorem near_lastBit : Near (bitsOf fun _ => 0) (bitsOf lastBit) 8160 11 ∧ bitsOf (fun _ => 0) ≠ bitsOf lastBit := by
  have parts (words : BitVec 8 → BitVec 32) : bitsOf words = bitsBefore words 255 ++ lowBits (words 255#8) 32 :=
    bitsBefore_succ 255
  have before : bitsBefore lastBit 255 = bitsBefore (fun _ => 0) 255 := bitsBefore_update (k := 255) _ (by decide) 1
  have length : (bitsBefore (fun _ => 0) 255).length = 8160 := bitsBefore_length 255
  have last : lastBit 255#8 = 1#32 := rfl
  rw [parts, parts, before, last]
  refine ⟨⟨by rw [List.length_append, List.length_append, Fire.lowBits_length, Fire.lowBits_length], fun n beside => ?_⟩, fun same => ?_⟩
  · rcases beside with early | late
    · rw [List.getElem?_append_left (by omega), List.getElem?_append_left (by omega)]
    · rw [List.getElem?_append_right (by omega), List.getElem?_append_right (by omega), length]
      by_cases inside : n - 8160 < 32
      · have apart : ∀ j < 32, 11 ≤ j → (lowBits 0#32 32)[j]? = (lowBits 1#32 32)[j]? := by decide
        exact apart _ inside (by omega)
      · rw [List.getElem?_eq_none (by rw [Fire.lowBits_length]; omega),
          List.getElem?_eq_none (by rw [Fire.lowBits_length]; omega)]
  · exact absurd (List.append_cancel_left same) (by decide)

theorem lastBit_states : ((atLookup (Packs.PackFile.eccOverWords (listOf lastBit))).run (fun _ => quiet) 10).c.walk.chState =
      .data ∧ ∀ t < 10, 0 < t → ((atLookup (Packs.PackFile.eccOverWords (listOf lastBit))).run (fun _ => quiet)
        t).c.walk.chState ∈ [ChState.hdrc, .hdre, .hdrck, .pf] := by decide

/-- Zeros read back for a block whose last word is 1: the trap finds the bit. -/
theorem trap_corrects_lastBit : ∃ T ≤ 44234, ((atLookup (Packs.PackFile.eccOverWords (listOf lastBit))).run
    (fun _ => quiet) (10 + T)).c.errors.eccsoft = true := by
  have states := lastBit_states
  obtain ⟨check, own⟩ : ∃ check, check = Packs.PackFile.eccOverWords (listOf lastBit) := ⟨_, rfl⟩
  rw [← own] at states ⊢
  have visits : Visits (atLookup check) (fun _ => quiet) 0#5 10 (10 + 44234) atHeader := by
    refine ⟨rfl, rfl, rfl, rfl, fun t _ => quiet_run _ t, fun _ _ _ => ?_, fun t some_ before => ?_⟩
    · exact fun written => absurd written (by decide)
    · have header := states.2 t before some_
      simp only [List.mem_cons, List.not_mem_nil, or_false] at header
      exact header
  have same := (visits.fetching (by decide) rfl states.1).1
  have words : (blockAt 0#5 ((atLookup check).run (fun _ => quiet) 10)).words = fun _ => 0 := congrArg Block.words same
  have found : ((atLookup check).next quiet).s.dck 0#5 = check :=
    dck_next (d := atLookup check) (fun written => absurd written (by decide)) rfl rfl
  have kept : (blockAt 0#5 ((atLookup check).run (fun _ => quiet) 10)).check = check :=
    (congrArg Block.check same).trans found
  obtain ⟨T, inTime, -, -, -, errors, -⟩ := (((trap_corrects (atLookup check) (fun _ => quiet) 0#5 10).2 rfl states.1).2
    visits).1 lastBit 8160 (kept.trans own) (words.symm ▸ near_lastBit.1) (words.symm ▸ near_lastBit.2)
  exact ⟨T, inTime, congrArg Errors.eccsoft errors⟩

end Machine

end MuirFpga.Disk
