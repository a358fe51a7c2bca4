import Mathlib.Data.BitVec
import Mathlib.Logic.Function.Iterate

/-!
# A shift register with feedback

The register of a cyclic check: each bit that comes in meets the bit shifted out, and where they differ
the taps are put in. What it does is linear in exclusive or, so an error is seen through the register as
if it came alone; and a register that nothing comes into loses nothing, so an error no longer than the
register is seen however far it is shifted on.
-/

namespace MuirFpga.Arith

/-- A register of a width: its shift, the bit that goes out of it, and its taps, of which one is where
nothing is shifted to. -/
structure Feedback (width : Nat) where
  shift : BitVec width → BitVec width
  out : BitVec width → Bool
  taps : BitVec width
  shift_xor : ∀ r s, shift (r ^^^ s) = shift r ^^^ shift s
  out_xor : ∀ r s, out (r ^^^ s) = (out r ^^ out s)
  kernel : ∀ r, shift r = BitVec.ofNat width 0 → out r = false → r = BitVec.ofNat width 0
  entry : ∀ j < width, ∀ r, shift^[j] taps ≠ shift^[j + 1] r

/-- The bits in which two lists differ. -/
def differences (a b : List Bool) : List Bool := List.zipWith (fun x y => x ^^ y) a b

namespace Feedback

variable {width : Nat} (F : Feedback width)

/-- What a bit puts into the register. -/
def fed (bit : Bool) : BitVec width := if bit then F.taps else BitVec.ofNat width 0

/-- A bit into the register. -/
def step (r : BitVec width) (bit : Bool) : BitVec width := F.shift r ^^^ F.fed (bit ^^ F.out r)

/-- The bits of a list into it, the first first. -/
def run (r : BitVec width) (bits : List Bool) : BitVec width := bits.foldl F.step r

/-- A shift that nothing comes in at. -/
def free (r : BitVec width) : BitVec width := F.step r false

variable {F}

theorem shift_zero : F.shift (BitVec.ofNat width 0) = BitVec.ofNat width 0 := by
  have twice := F.shift_xor (BitVec.ofNat width 0) (BitVec.ofNat width 0)
  rw [BitVec.xor_self, BitVec.xor_self] at twice
  exact twice

theorem out_zero : F.out (BitVec.ofNat width 0) = false := by
  have twice := F.out_xor (BitVec.ofNat width 0) (BitVec.ofNat width 0)
  rw [BitVec.xor_self, Bool.xor_self] at twice
  exact twice

theorem fed_xor (a b : Bool) : F.fed (a ^^ b) = F.fed a ^^^ F.fed b := by
  cases a <;> cases b
  · exact (BitVec.xor_self (x := BitVec.ofNat width 0)).symm
  · exact (BitVec.zero_xor (x := F.taps)).symm
  · exact (BitVec.xor_zero (x := F.taps)).symm
  · exact (BitVec.xor_self (x := F.taps)).symm

theorem step_xor (r s : BitVec width) (a b : Bool) :
    F.step (r ^^^ s) (a ^^ b) = F.step r a ^^^ F.step s b := by
  have apart : (a ^^ b ^^ (F.out r ^^ F.out s)) = ((a ^^ F.out r) ^^ (b ^^ F.out s)) := by
    cases a <;> cases b <;> cases F.out r <;> cases F.out s <;> rfl
  unfold step
  rw [F.out_xor, F.shift_xor, apart, fed_xor]
  ac_rfl

theorem step_zero : F.step (BitVec.ofNat width 0) false = BitVec.ofNat width 0 := by
  unfold step
  rw [out_zero, shift_zero]
  exact BitVec.xor_zero

theorem run_append (r : BitVec width) (a b : List Bool) : F.run r (a ++ b) = F.run (F.run r a) b :=
  List.foldl_append

theorem run_xor {a b : List Bool} (same : a.length = b.length) (r s : BitVec width) :
    F.run (r ^^^ s) (differences a b) = F.run r a ^^^ F.run s b := by
  induction a generalizing b r s with
  | nil =>
    obtain rfl := List.length_eq_zero_iff.mp same.symm
    rfl
  | cons x a ih =>
    cases b with
    | nil => exact absurd same (Nat.succ_ne_zero _)
    | cons y b =>
      show F.run (F.step (r ^^^ s) (x ^^ y)) (differences a b) = F.run (F.step r x) a ^^^ F.run (F.step s y) b
      rw [step_xor]
      exact ih (Nat.succ.inj same) _ _

theorem run_false {bits : List Bool} (clear : ∀ bit ∈ bits, bit = false) (r : BitVec width) :
    F.run r bits = F.free^[bits.length] r := by
  induction bits generalizing r with
  | nil => rfl
  | cons bit bits ih =>
    obtain rfl := clear bit List.mem_cons_self
    show F.run (F.free r) bits = _
    rw [ih fun later among => clear later (List.mem_cons_of_mem _ among), List.length_cons,
      Function.iterate_succ_apply]

theorem free_iterate_zero (n : Nat) : F.free^[n] (BitVec.ofNat width 0) = BitVec.ofNat width 0 :=
  Function.iterate_fixed step_zero n

theorem iterate_shift_xor (n : Nat) (r s : BitVec width) :
    F.shift^[n] (r ^^^ s) = F.shift^[n] r ^^^ F.shift^[n] s := by
  induction n generalizing r s with
  | zero => rfl
  | succ n ih =>
    rw [Function.iterate_succ_apply, Function.iterate_succ_apply, Function.iterate_succ_apply, F.shift_xor, ih]

theorem shifted_fed {j : Nat} (inside : j < width) {r : BitVec width} {bit : Bool}
    (none_ : F.shift^[j] (F.shift r ^^^ F.fed bit) = BitVec.ofNat width 0) :
    bit = false ∧ F.shift^[j + 1] r = BitVec.ofNat width 0 := by
  rw [iterate_shift_xor, ← Function.iterate_succ_apply] at none_
  cases bit with
  | true => exact absurd (BitVec.xor_eq_zero_iff.mp none_).symm (F.entry j inside r)
  | false =>
    have zero : F.shift^[j] (F.fed false) = BitVec.ofNat width 0 := Function.iterate_fixed shift_zero j
    rw [zero, BitVec.xor_zero] at none_
    exact ⟨rfl, none_⟩

theorem run_eq_zero {bits : List Bool} {j : Nat} (short : bits.length + j ≤ width)
    (none_ : F.shift^[j] (F.run (BitVec.ofNat width 0) bits) = BitVec.ofNat width 0) : ∀ bit ∈ bits, bit = false := by
  induction bits using List.reverseRecOn generalizing j with
  | nil => exact nofun
  | append_singleton bits bit ih =>
    rw [List.length_append, List.length_singleton] at short
    rw [run_append] at none_
    obtain ⟨unfed, before⟩ := shifted_fed (by omega) none_
    have clear := ih (by omega) before
    have zero : F.run (BitVec.ofNat width 0) bits = BitVec.ofNat width 0 :=
      (run_false clear _).trans (free_iterate_zero _)
    rw [zero, out_zero, Bool.xor_false] at unfed
    intro other among
    rcases List.mem_append.mp among with earlier | last
    · exact clear other earlier
    · rw [List.mem_singleton.mp last]
      exact unfed

theorem free_eq_zero {r : BitVec width} (wide : 0 < width) (none_ : F.free r = BitVec.ofNat width 0) :
    r = BitVec.ofNat width 0 := by
  obtain ⟨unfed, shifted⟩ := shifted_fed wide (show F.shift^[0] (F.free r) = BitVec.ofNat width 0 from none_)
  rw [Bool.false_xor] at unfed
  exact F.kernel r shifted unfed

theorem free_iterate_eq_zero (wide : 0 < width) {n : Nat} {r : BitVec width}
    (none_ : F.free^[n] r = BitVec.ofNat width 0) : r = BitVec.ofNat width 0 := by
  induction n generalizing r with
  | zero => exact none_
  | succ n ih => exact free_eq_zero wide (ih none_)

theorem free_xor (r s : BitVec width) : F.free (r ^^^ s) = F.free r ^^^ F.free s := step_xor r s false false

theorem free_iterate_xor (n : Nat) (r s : BitVec width) :
    F.free^[n] (r ^^^ s) = F.free^[n] r ^^^ F.free^[n] s := by
  induction n generalizing r s with
  | zero => rfl
  | succ n ih =>
    rw [Function.iterate_succ_apply, Function.iterate_succ_apply, Function.iterate_succ_apply, free_xor, ih]

theorem run_apart (r : BitVec width) (bits : List Bool) :
    F.run r bits = F.free^[bits.length] r ^^^ F.run (BitVec.ofNat width 0) bits := by
  induction bits using List.reverseRecOn with
  | nil => exact BitVec.xor_zero.symm
  | append_singleton bits bit ih =>
    have one (s : BitVec width) : F.run s (bits ++ [bit]) = F.step (F.run s bits) bit := run_append s bits [bit]
    rw [one, one, ih, List.length_append, List.length_singleton, Function.iterate_succ_apply']
    conv_lhs => rw [← Bool.false_xor bit]
    exact step_xor _ _ false bit

theorem free_iterate_inj (wide : 0 < width) {n : Nat} {r s : BitVec width} (same : F.free^[n] r = F.free^[n] s) :
    r = s := by
  apply BitVec.xor_eq_zero_iff.mp
  apply free_iterate_eq_zero (F := F) (n := n) wide
  rw [free_iterate_xor, same, BitVec.xor_self]

theorem run_agree {f g : BitVec width → BitVec width} (xorF : ∀ r s, f (r ^^^ s) = f r ^^^ f s)
    (xorG : ∀ r s, g (r ^^^ s) = g r ^^^ g s) (freeF : ∀ r, f (F.free r) = F.free (f r))
    (freeG : ∀ r, g (F.free r) = F.free (g r)) (taps : f F.taps = g F.taps) (bits : List Bool) :
    f (F.run (BitVec.ofNat width 0) bits) = g (F.run (BitVec.ofNat width 0) bits) := by
  have zero {h : BitVec width → BitVec width} (xorH : ∀ r s, h (r ^^^ s) = h r ^^^ h s) :
      h (BitVec.ofNat width 0) = BitVec.ofNat width 0 := by
    have twice := xorH (BitVec.ofNat width 0) (BitVec.ofNat width 0)
    rw [BitVec.xor_self, BitVec.xor_self] at twice
    exact twice
  induction bits using List.reverseRecOn with
  | nil => exact (zero xorF).trans (zero xorG).symm
  | append_singleton bits bit ih =>
    have one : F.run (BitVec.ofNat width 0) (bits ++ [bit])
        = F.free (F.run (BitVec.ofNat width 0) bits) ^^^ F.fed bit := by
      rw [run_append]
      show F.step (F.run (BitVec.ofNat width 0) bits) bit = _
      unfold free step
      rw [Bool.false_xor, fed_xor, BitVec.xor_assoc, BitVec.xor_comm (F.fed bit)]
    have last : f (F.fed bit) = g (F.fed bit) := by
      cases bit with
      | true => exact taps
      | false => exact (zero xorF).trans (zero xorG).symm
    rw [one, xorF, xorG, freeF, freeG, ih, last]

end Feedback

section Burst

variable {bits changed : List Bool} {first span : Nat}

theorem differences_length (same : changed.length = bits.length) :
    (differences changed bits).length = bits.length := by
  unfold differences
  rw [List.length_zipWith, same, Nat.min_self]

theorem differences_getElem (same : changed.length = bits.length) {n : Nat}
    (inside : n < (differences changed bits).length) :
    (differences changed bits)[n] = ((changed[n]?).getD false ^^ (bits[n]?).getD false) := by
  have both : n < changed.length ∧ n < bits.length := by
    rw [differences_length same] at inside
    exact ⟨same ▸ inside, inside⟩
  rw [List.getElem?_eq_getElem both.1, List.getElem?_eq_getElem both.2]
  simp only [differences, List.getElem_zipWith, Option.getD_some]

theorem eq_of_differences (same : changed.length = bits.length)
    (clear : ∀ bit ∈ differences changed bits, bit = false) : changed = bits := by
  apply List.ext_getElem same
  intro n left right
  have inside : n < (differences changed bits).length := by
    rw [differences_length same]
    exact right
  have none_ := clear _ (List.getElem_mem inside)
  rw [differences_getElem same inside, List.getElem?_eq_getElem left, List.getElem?_eq_getElem right] at none_
  exact bne_eq_false_iff_eq.mp none_

/-- The same bits but for a stretch. -/
def Near (changed bits : List Bool) (first span : Nat) : Prop :=
  changed.length = bits.length ∧ ∀ n, n < first ∨ first + span ≤ n → changed[n]? = bits[n]?

theorem Near.clear (near : Near changed bits first span) :
    (∀ bit ∈ (differences changed bits).take first, bit = false) ∧
      ∀ bit ∈ (differences changed bits).drop (first + span), bit = false := by
  have outside {n : Nat} (inside : n < (differences changed bits).length) (beside : n < first ∨ first + span ≤ n) :
      (differences changed bits)[n] = false := by
    rw [differences_getElem near.1 inside, near.2 n beside, Bool.xor_self]
  constructor
  · intro bit among
    obtain ⟨n, inside, rfl⟩ := List.getElem_of_mem among
    rw [List.getElem_take]
    rw [List.length_take] at inside
    exact outside _ (.inl (by omega))
  · intro bit among
    obtain ⟨n, inside, rfl⟩ := List.getElem_of_mem among
    rw [List.getElem_drop]
    exact outside _ (.inr (by omega))

theorem Near.run_differences {width : Nat} (F : Feedback width) (near : Near changed bits first span) :
    F.run (BitVec.ofNat width 0) (differences changed bits) =
      F.free^[bits.length - (first + span)]
        (F.run (BitVec.ofNat width 0) (((differences changed bits).drop first).take span)) := by
  obtain ⟨before, behind⟩ := near.clear
  have length := differences_length near.1
  have parts : differences changed bits = (differences changed bits).take first ++
      (((differences changed bits).drop first).take span ++ (differences changed bits).drop (first + span)) := by
    rw [← List.drop_drop, List.take_append_drop, List.take_append_drop]
  conv_lhs => rw [parts]
  rw [Feedback.run_append, Feedback.run_append, Feedback.run_false before, Feedback.free_iterate_zero,
    Feedback.run_false behind, List.length_drop, length]

theorem Near.seen {width : Nat} (F : Feedback width) (wide : 0 < width) (short : span ≤ width)
    (near : Near changed bits first span) (differ : changed ≠ bits) :
    F.run (BitVec.ofNat width 0) changed ≠ F.run (BitVec.ofNat width 0) bits := by
  intro alike
  have together := Feedback.run_xor (F := F) near.1 (BitVec.ofNat width 0) (BitVec.ofNat width 0)
  rw [BitVec.xor_self, alike, BitVec.xor_self, near.run_differences F] at together
  have burst := Feedback.free_iterate_eq_zero wide together
  have clear := Feedback.run_eq_zero (j := 0) (by rw [List.length_take]; omega) burst
  obtain ⟨before, behind⟩ := near.clear
  apply differ
  apply eq_of_differences near.1
  intro bit among
  rw [← List.take_append_drop first (differences changed bits)] at among
  rcases List.mem_append.mp among with left | right
  · exact before bit left
  · rw [← List.take_append_drop span ((differences changed bits).drop first), List.drop_drop] at right
    rcases List.mem_append.mp right with inside | after
    · exact clear bit inside
    · exact behind bit after

end Burst

section Directions

variable {width : Nat}

/-- A register that shifts down, its lowest bit out. -/
def Feedback.down (taps : BitVec width) (top : taps.getLsbD (width - 1) = true) : Feedback width where
  shift r := r >>> 1
  out r := r.getLsbD 0
  taps := taps
  shift_xor r s := BitVec.ushiftRight_xor_distrib r s 1
  out_xor r s := BitVec.getLsbD_xor
  kernel r shifted out := by
    apply BitVec.eq_of_getLsbD_eq
    intro n inside
    cases n with
    | zero => exact out.trans BitVec.getLsbD_zero.symm
    | succ n =>
      have bit := congrArg (fun word => word.getLsbD n) shifted
      simp only [BitVec.getLsbD_ushiftRight, BitVec.getLsbD_zero] at bit
      rw [Nat.add_comm n 1, bit]
      exact BitVec.getLsbD_zero.symm
  entry j inside r := by
    have shifts (n : Nat) (word : BitVec width) : (fun r : BitVec width => r >>> 1)^[n] word = word >>> n := by
      induction n generalizing word with
      | zero => rfl
      | succ n ih => rw [Function.iterate_succ_apply, ih, ← BitVec.shiftRight_add, Nat.add_comm]
    rw [shifts, shifts]
    intro same
    have bit := congrArg (fun word => word.getLsbD (width - 1 - j)) same
    simp only [BitVec.getLsbD_ushiftRight] at bit
    rw [show j + (width - 1 - j) = width - 1 by omega, top, BitVec.getLsbD_of_ge _ _ (by omega)] at bit
    exact Bool.false_ne_true bit.symm

/-- The lowest bits of a word, the lowest first. -/
def lowBits (r : BitVec width) (n : Nat) : List Bool := (List.range n).map r.getLsbD

section Down

variable {taps : BitVec width} {top : taps.getLsbD (width - 1) = true}

theorem Feedback.down_run_own (r : BitVec width) (n : Nat) : (Feedback.down taps top).run r (lowBits r n) = r >>> n := by
  induction n with
  | zero => rfl
  | succ n ih =>
    have out : (r.getLsbD n ^^ (r >>> n).getLsbD 0) = false := by
      rw [BitVec.getLsbD_ushiftRight, Nat.add_zero, Bool.xor_self]
    unfold lowBits at ih ⊢
    rw [List.range_succ, List.map_append, run_append, ih]
    show (r >>> n) >>> 1 ^^^ (Feedback.down taps top).fed (r.getLsbD n ^^ (r >>> n).getLsbD 0) = _
    rw [out, ← BitVec.shiftRight_add]
    exact BitVec.xor_zero

theorem Feedback.down_free_iterate (r : BitVec width) (n : Nat) :
    (Feedback.down taps top).free^[n] r
      = r >>> n ^^^ (Feedback.down taps top).run (BitVec.ofNat width 0) (lowBits r n) := by
  have own := @Feedback.down_run_own width taps top r n
  rw [run_apart, lowBits, List.length_map, List.length_range] at own
  rw [← own, BitVec.xor_assoc]
  exact (BitVec.xor_zero.symm.trans (congrArg _ BitVec.xor_self.symm))

theorem Feedback.down_agree (wide : 0 < width) {f g : BitVec width → BitVec width}
    (xorF : ∀ r s, f (r ^^^ s) = f r ^^^ f s) (xorG : ∀ r s, g (r ^^^ s) = g r ^^^ g s)
    (freeF : ∀ r, f ((Feedback.down taps top).free r) = (Feedback.down taps top).free (f r))
    (freeG : ∀ r, g ((Feedback.down taps top).free r) = (Feedback.down taps top).free (g r)) (same : f taps = g taps)
    (r : BitVec width) : f r = g r := by
  have iterate {h : BitVec width → BitVec width}
      (freeH : ∀ r, h ((Feedback.down taps top).free r) = (Feedback.down taps top).free (h r)) (n : Nat) :
      h ((Feedback.down taps top).free^[n] r) = (Feedback.down taps top).free^[n] (h r) := by
    induction n with
    | zero => rfl
    | succ n ih => rw [Function.iterate_succ_apply', Function.iterate_succ_apply', freeH, ih]
  have gone : r >>> width = BitVec.ofNat width 0 := by
    apply BitVec.eq_of_getLsbD_eq
    intro k _
    rw [BitVec.getLsbD_ushiftRight, BitVec.getLsbD_of_ge _ _ (Nat.le_add_right _ _)]
    exact BitVec.getLsbD_zero.symm
  have all := Feedback.run_agree (F := Feedback.down taps top) xorF xorG freeF freeG same (lowBits r width)
  have run := @Feedback.down_free_iterate width taps top r width
  rw [gone, show BitVec.ofNat width 0 ^^^ _ = _ from BitVec.zero_xor] at run
  rw [← run, iterate freeF, iterate freeG] at all
  exact Feedback.free_iterate_inj wide all

end Down

/-- A register that shifts up, its highest bit out. -/
def Feedback.up (taps : BitVec width) (low : taps.getLsbD 0 = true) : Feedback width where
  shift r := r <<< 1
  out r := r.getLsbD (width - 1)
  taps := taps
  shift_xor r s := BitVec.shiftLeft_xor_distrib r s 1
  out_xor r s := BitVec.getLsbD_xor
  kernel r shifted out := by
    apply BitVec.eq_of_getLsbD_eq
    intro n inside
    by_cases last : n = width - 1
    · rw [last, out]
      exact BitVec.getLsbD_zero.symm
    · have bit := congrArg (fun word => word.getLsbD (n + 1)) shifted
      simp only [BitVec.getLsbD_shiftLeft, BitVec.getLsbD_zero] at bit
      rw [decide_eq_true (show n + 1 < width by omega), decide_eq_false (show ¬ n + 1 < 1 by omega)] at bit
      exact bit.trans BitVec.getLsbD_zero.symm
  entry j inside r := by
    have shifts (n : Nat) (word : BitVec width) : (fun r : BitVec width => r <<< 1)^[n] word = word <<< n := by
      induction n generalizing word with
      | zero => exact (BitVec.shiftLeft_zero word).symm
      | succ n ih => rw [Function.iterate_succ_apply, ih, ← BitVec.shiftLeft_add, Nat.add_comm]
    rw [shifts, shifts]
    intro same
    have bit := congrArg (fun word => word.getLsbD j) same
    simp only [BitVec.getLsbD_shiftLeft] at bit
    rw [decide_eq_true inside, decide_eq_false (Nat.lt_irrefl j), Nat.sub_self, low,
      decide_eq_true (Nat.lt_succ_self j)] at bit
    exact Bool.false_ne_true bit.symm

end Directions

end MuirFpga.Arith
