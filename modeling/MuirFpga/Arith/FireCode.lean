import MuirFpga.Arith.Feedback
import Mathlib.Dynamics.PeriodicPts.Defs
import Mathlib.NumberTheory.Divisors

/-!
# A burst-correcting cyclic code

The register of 32 stages whose polynomial is that of a ring of 21 stages times one of degree 11. A register shifted
is so in the ring, where a burst of eleven bits is seen wherever it stands, and in the register of eleven stages,
whose period is 2,047. Between them a register comes back after 42,987 shifts, and a burst at the low end of it
comes to be at the low end again only so.
-/

namespace MuirFpga.Arith

namespace Fire

/-- The register, and the one of eleven stages. -/
def code : Feedback 32 := .down 0xA0100500#32 (by decide)
def factor : Feedback 11 := .down 0x500#11 (by decide)

section Factor

theorem factor_xor (n : Nat) (r s : BitVec 11) :
    (factor.free^[n] (r ^^^ s) ^^^ (r ^^^ s)) = (factor.free^[n] r ^^^ r) ^^^ (factor.free^[n] s ^^^ s) := by
  rw [Feedback.free_iterate_xor]
  ac_rfl

theorem factor_back (v : BitVec 11) : factor.free^[2047] v = v := by
  have taps : factor.free^[2047] 0x500#11 = 0x500#11 := by decide +kernel
  exact Feedback.down_agree (g := id) (by decide) (Feedback.free_iterate_xor 2047) (fun _ _ => rfl)
    (fun r => (Function.Commute.iterate_self factor.free 2047 r)) (fun _ => rfl) taps v

theorem factor_still {n other : Nat} (taps : factor.free^[n] 0x500#11 ^^^ 0x500#11 = factor.free^[other] 0x500#11)
    {v : BitVec 11} (back : factor.free^[n] v = v) : v = 0#11 := by
  have freed (r : BitVec 11) : factor.free^[n] (factor.free r) ^^^ factor.free r
      = factor.free (factor.free^[n] r ^^^ r) := by
    rw [Function.Commute.iterate_self factor.free n r, ← Feedback.free_xor]
  have all := Feedback.down_agree (f := fun v => factor.free^[n] v ^^^ v) (by decide) (factor_xor n)
    (Feedback.free_iterate_xor other) freed (fun r => Function.Commute.iterate_self factor.free other r) taps v
  rw [back, BitVec.xor_self] at all
  exact Feedback.free_iterate_eq_zero (F := factor) (by decide) all.symm

theorem factor_period {v : BitVec 11} {n : Nat} (back : factor.free^[n] v = v) (some_ : v ≠ 0#11) : 2047 ∣ n := by
  have whole : Function.IsPeriodicPt factor.free 2047 v := factor_back v
  have period := whole.minimalPeriod_dvd
  have least := Function.isPeriodicPt_minimalPeriod factor.free v
  have among : Function.minimalPeriod factor.free v ∈ Nat.divisors 2047 := Nat.mem_divisors.mpr ⟨period, by decide⟩
  have divisors : Nat.divisors 2047 = {1, 23, 89, 2047} := by decide +kernel
  rw [divisors] at among
  simp only [Finset.mem_insert, Finset.mem_singleton] at among
  have none23 : ¬Function.minimalPeriod factor.free v ∣ 23 := fun divides =>
    some_ (@factor_still 23 1543 (by decide +kernel) v (least.trans_dvd divides))
  have none89 : ¬Function.minimalPeriod factor.free v ∣ 89 := fun divides =>
    some_ (@factor_still 89 777 (by decide +kernel) v (least.trans_dvd divides))
  have here : Function.minimalPeriod factor.free v = 2047 := by
    rcases among with one | some23 | some89 | all
    · exact absurd (one ▸ Nat.one_dvd 23) none23
    · exact absurd (some23 ▸ Nat.dvd_refl 23) none23
    · exact absurd (some89 ▸ Nat.dvd_refl 89) none89
    · exact all
  rw [← here]
  exact Function.IsPeriodicPt.minimalPeriod_dvd back

end Factor

section Ring

/-- A stage of the ring: what the register holds at it and 21 further up. -/
def ring (r : BitVec 32) (k : Nat) : Bool := r.getLsbD (k % 21) ^^ r.getLsbD (k % 21 + 21)

theorem ring_free (r : BitVec 32) (k : Nat) : ring (code.free r) k = ring r (k + 1) := by
  have bit (j : Nat) : (code.free r).getLsbD j = (r.getLsbD (j + 1) ^^ ((0xA0100500#32).getLsbD j && r.getLsbD 0)) := by
    show ((r >>> 1) ^^^ code.fed (false ^^ r.getLsbD 0)).getLsbD j = _
    rw [BitVec.getLsbD_xor, BitVec.getLsbD_ushiftRight, Bool.false_xor, Nat.add_comm 1 j]
    refine congrArg (fun b => r.getLsbD (j + 1) ^^ b) ?_
    cases r.getLsbD 0 with
    | true => exact (Bool.and_true _).symm
    | false => exact BitVec.getLsbD_zero.trans (Bool.and_false _).symm
  have below := Nat.mod_lt k (show 0 < 21 by decide)
  unfold ring
  rw [bit, bit]
  by_cases last : k % 21 = 20
  · have next : (k + 1) % 21 = 0 := by omega
    rw [last, next, BitVec.getLsbD_of_ge r (20 + 21 + 1) (by decide)]
    have high : (0xA0100500#32).getLsbD 20 = true ∧ (0xA0100500#32).getLsbD (20 + 21) = false := by decide
    rw [high.1, high.2, Bool.true_and, Bool.false_and, Bool.xor_false, Bool.xor_false, Bool.xor_comm]
  · have next : (k + 1) % 21 = k % 21 + 1 := by omega
    have same : ∀ j < 20, (0xA0100500#32).getLsbD j = (0xA0100500#32).getLsbD (j + 21) := by decide
    rw [next, same (k % 21) (by omega), show k % 21 + 1 + 21 = k % 21 + 21 + 1 by omega]
    generalize r.getLsbD (k % 21 + 1) = a
    generalize r.getLsbD (k % 21 + 21 + 1) = b
    generalize ((0xA0100500#32).getLsbD (k % 21 + 21) && r.getLsbD 0) = c
    cases a <;> cases b <;> cases c <;> rfl

theorem ring_iterate (r : BitVec 32) (n k : Nat) : ring (code.free^[n] r) k = ring r (k + n) := by
  induction n generalizing k with
  | zero => rfl
  | succ n ih => rw [Function.iterate_succ_apply', ring_free, ih, Nat.add_assoc, Nat.add_comm 1 n]

end Ring

section Small

/-- The register as the one of eleven stages sees it: its bits run into that. -/
def small (r : BitVec 32) : BitVec 11 := factor.run (BitVec.ofNat 11 0) (lowBits r 32)

theorem lowBits_xor {width : Nat} (r s : BitVec width) (n : Nat) :
    lowBits (r ^^^ s) n = differences (lowBits r n) (lowBits s n) := by
  unfold lowBits differences
  rw [List.zipWith_map, List.zipWith_self]
  exact List.map_congr_left fun k _ => BitVec.getLsbD_xor

theorem small_xor (r s : BitVec 32) : small (r ^^^ s) = small r ^^^ small s := by
  unfold small
  rw [lowBits_xor]
  have same : (lowBits r 32).length = (lowBits s 32).length := rfl
  have run := Feedback.run_xor (F := factor) same (BitVec.ofNat 11 0) (BitVec.ofNat 11 0)
  rwa [BitVec.xor_self] at run

theorem lowBits_length {width : Nat} (r : BitVec width) (n : Nat) : (lowBits r n).length = n := by
  unfold lowBits
  rw [List.length_map, List.length_range]

theorem lowBits_add {width : Nat} (r : BitVec width) (a b : Nat) :
    lowBits r (a + b) = lowBits r a ++ lowBits (r >>> a) b := by
  unfold lowBits
  rw [List.range_add, List.map_append, List.map_map]
  refine congrArg (_ ++ ·) (List.map_congr_left fun k _ => ?_)
  rw [Function.comp_apply, BitVec.getLsbD_ushiftRight]

theorem small_free (r : BitVec 32) : small (code.free r) = factor.free (small r) := by
  have shifted : small (r >>> 1) = factor.free (factor.run (BitVec.ofNat 11 0) (lowBits (r >>> 1) 31)) := by
    have last : lowBits (r >>> 1) 32 = lowBits (r >>> 1) 31 ++ [false] := by
      rw [lowBits_add (r >>> 1) 31 1]
      show _ ++ [((r >>> 1) >>> 31).getLsbD 0] = _
      rw [BitVec.getLsbD_ushiftRight, BitVec.getLsbD_ushiftRight, BitVec.getLsbD_of_ge _ _ (by decide)]
    unfold small
    rw [last, Feedback.run_append]
    rfl
  have taken : small r
      = factor.free^[31] (factor.fed (r.getLsbD 0)) ^^^ factor.run (BitVec.ofNat 11 0) (lowBits (r >>> 1) 31) := by
    have first : factor.step (BitVec.ofNat 11 0) (r.getLsbD 0) = factor.fed (r.getLsbD 0) := by
      unfold Feedback.step
      rw [Feedback.out_zero, Feedback.shift_zero, Bool.xor_false]
      exact BitVec.zero_xor
    unfold small
    rw [lowBits_add r 1 31]
    show factor.run (factor.step (BitVec.ofNat 11 0) (r.getLsbD 0)) (lowBits (r >>> 1) 31) = _
    rw [first, Feedback.run_apart, lowBits_length]
  have taps : small (code.fed (r.getLsbD 0)) = factor.free^[32] (factor.fed (r.getLsbD 0)) := by
    cases r.getLsbD 0 <;> decide
  have one : code.free r = r >>> 1 ^^^ code.fed (r.getLsbD 0) := by
    unfold Feedback.free Feedback.step
    rw [Bool.false_xor]
    rfl
  rw [one, small_xor, shifted, taps, taken, Feedback.free_xor, ← Function.iterate_succ_apply' factor.free 31,
    BitVec.xor_comm]

theorem small_iterate (r : BitVec 32) (n : Nat) : small (code.free^[n] r) = factor.free^[n] (small r) := by
  induction n with
  | zero => rfl
  | succ n ih => rw [Function.iterate_succ_apply', Function.iterate_succ_apply', small_free, ih]

theorem small_low {r : BitVec 32} (low : r >>> 11 = 0#32) (some_ : r ≠ 0#32) : small r ≠ 0#11 := by
  intro none_
  have parts : lowBits r 32 = lowBits r 11 ++ lowBits (0#32) 21 := by
    rw [lowBits_add r 11 21, low]
  have unset : ∀ bit ∈ lowBits (0#32) 21, bit = false := by decide
  unfold small at none_
  rw [parts, Feedback.run_append, Feedback.run_false unset] at none_
  have burst := Feedback.free_iterate_eq_zero (F := factor) (by decide) none_
  have clear := Feedback.run_eq_zero (F := factor) (j := 0) (by rw [lowBits_length]) burst
  apply some_
  apply BitVec.eq_of_getLsbD_eq
  intro k _
  rw [BitVec.getLsbD_zero]
  by_cases first : k < 11
  · exact clear _ (List.mem_map.mpr ⟨k, List.mem_range.mpr first, rfl⟩)
  · have bit := congrArg (·.getLsbD (k - 11)) low
    simp only [BitVec.getLsbD_ushiftRight, BitVec.getLsbD_zero] at bit
    rwa [Nat.add_sub_cancel' (Nat.le_of_not_lt first)] at bit

end Small

section Cycle

/-- Low means nothing at the 21 stages a zero test reads. -/
def Low (r : BitVec 32) : Prop := r >>> 11 = 0#32

theorem Low.getLsbD {r : BitVec 32} (low : Low r) {k : Nat} (high : 11 ≤ k) : r.getLsbD k = false := by
  have bit := congrArg (·.getLsbD (k - 11)) low
  simp only [BitVec.getLsbD_ushiftRight, BitVec.getLsbD_zero] at bit
  rwa [Nat.add_sub_cancel' high] at bit

theorem Low.ring {r : BitVec 32} (low : Low r) {k : Nat} (below : k < 21) : Fire.ring r k = r.getLsbD k := by
  unfold Fire.ring
  rw [Nat.mod_eq_of_lt below, low.getLsbD (Nat.le_add_left _ _ |>.trans (Nat.add_le_add_left (by decide) k)),
    Bool.xor_false]

theorem ring_mod (r : BitVec 32) (k : Nat) : ring r (k % 21) = ring r k := by
  unfold ring
  rw [Nat.mod_mod]

theorem eq_zero {r : BitVec 32} (rings : ∀ k, ring r k = false) (smalls : small r = 0#11) : r = 0#32 := by
  have twice {k : Nat} (below : k < 21) : r.getLsbD k = r.getLsbD (k + 21) := by
    have here := rings k
    unfold ring at here
    rw [Nat.mod_eq_of_lt below] at here
    exact bne_eq_false_iff_eq.mp here
  have middle {k : Nat} (high : 11 ≤ k) (below : k < 21) : r.getLsbD k = false := by
    rw [twice below]
    exact BitVec.getLsbD_of_ge _ _ (Nat.add_le_add_right high 21)
  have upper : lowBits (r >>> 21) 11 = lowBits r 11 := by
    apply List.map_congr_left
    intro k among
    have inside := List.mem_range.mp among
    rw [BitVec.getLsbD_ushiftRight, Nat.add_comm, ← twice (Nat.lt_trans inside (by decide))]
  have between : ∀ bit ∈ lowBits (r >>> 11) 10, bit = false := by
    intro bit among
    obtain ⟨k, inRange, rfl⟩ := List.mem_map.mp among
    have inside := List.mem_range.mp inRange
    rw [BitVec.getLsbD_ushiftRight]
    exact middle (Nat.le_add_right 11 k) (Nat.add_lt_add_left inside 11)
  have parts : lowBits r 32 = lowBits r 11 ++ lowBits (r >>> 11) 10 ++ lowBits r 11 := by
    rw [← lowBits_add, lowBits_add r 21 11, upper]
  unfold small at smalls
  rw [parts, Feedback.run_append, Feedback.run_append, Feedback.run_false between, lowBits_length,
    Feedback.run_apart, lowBits_length, ← Function.iterate_add_apply] at smalls
  have back := BitVec.xor_eq_zero_iff.mp smalls
  have burst : factor.run (BitVec.ofNat 11 0) (lowBits r 11) = 0#11 := by
    by_contra some_
    exact absurd (factor_period back some_) (by decide)
  have clear := Feedback.run_eq_zero (F := factor) (j := 0) (by rw [lowBits_length]) burst
  have lower {k : Nat} (first : k < 11) : r.getLsbD k = false :=
    clear _ (List.mem_map.mpr ⟨k, List.mem_range.mpr first, rfl⟩)
  apply BitVec.eq_of_getLsbD_eq
  intro k inside
  rw [BitVec.getLsbD_zero]
  rcases Nat.lt_or_ge k 11 with first | high
  · exact lower first
  · rcases Nat.lt_or_ge k 21 with below | above
    · exact middle high below
    · obtain ⟨j, rfl⟩ := Nat.exists_eq_add_of_le' above
      rw [← twice (by omega), lower (by omega)]

theorem code_back (r : BitVec 32) : code.free^[42987] r = r := by
  apply BitVec.xor_eq_zero_iff.mp
  apply eq_zero
  · intro k
    have turned : ring (code.free^[42987] r) k = ring r k := by
      rw [ring_iterate, ← ring_mod r (k + 42987), ← ring_mod r k]
      congr 1
      omega
    have xor (a b : BitVec 32) : ring (a ^^^ b) k = (ring a k ^^ ring b k) := by
      unfold ring
      rw [BitVec.getLsbD_xor, BitVec.getLsbD_xor]
      generalize a.getLsbD (k % 21) = a, a.getLsbD (k % 21 + 21) = a'
      generalize b.getLsbD (k % 21) = b, b.getLsbD (k % 21 + 21) = b'
      cases a <;> cases a' <;> cases b <;> cases b' <;> rfl
    rw [xor, turned, Bool.xor_self]
  · have same : factor.free^[42987] (small r) = small r := by
      rw [show 42987 = 2047 * 21 from rfl, Function.iterate_mul]
      exact Function.iterate_fixed (factor_back _) 21
    rw [small_xor, small_iterate, same, BitVec.xor_self]

/-- Two low registers, the one the other so many shifts on, with the top one of the low stages set in the other: it
is not within the scan of a block. -/
theorem low_apart {u v : BitVec 32} (lowU : Low u) (lowV : Low v) (top : v.getLsbD 10 = true) {d : Nat}
    (shifted : code.free^[d] u = v) (some_ : 0 < d) (short : d ≤ 8191) : False := by
  have turned (k : Nat) : ring u (k + d) = ring v k := by rw [← shifted, ring_iterate]
  have nonzero : v ≠ 0#32 := by
    rintro rfl
    rw [BitVec.getLsbD_zero] at top
    exact nomatch top
  have period {n : Nat} (back : code.free^[n] v = v) : 2047 ∣ n :=
    factor_period (by rw [← small_iterate, back]) (small_low lowV nonzero)
  by_cases whole : d % 21 = 0
  · have same : u = v := by
      apply BitVec.eq_of_getLsbD_eq
      intro k _
      by_cases below : k < 11
      · have at_ := turned k
        rw [← ring_mod u, show (k + d) % 21 = k by omega, lowU.ring (by omega), lowV.ring (by omega)] at at_
        exact at_
      · rw [lowU.getLsbD (by omega), lowV.getLsbD (by omega)]
    rw [same] at shifted
    obtain ⟨a, rfl⟩ := period shifted
    omega
  · -- The top bit was at the stage it was turned from, which is a low one: the register has gone round the ring
    -- but for some shifts, and so many more bring it back to itself.
    have from_ := turned 10
    rw [← ring_mod u, lowU.ring (Nat.mod_lt _ (by decide)), lowV.ring (by decide), top] at from_
    have among : (10 + d) % 21 ≤ 10 := by
      by_contra above
      rw [lowU.getLsbD (by omega)] at from_
      exact nomatch from_
    have less : 21 - d % 21 ≤ 10 := by omega
    have clear : ∀ bit ∈ lowBits v (21 - d % 21), bit = false := by
      intro bit inBits
      obtain ⟨k, inRange, rfl⟩ := List.mem_map.mp inBits
      have inside := List.mem_range.mp inRange
      have here := turned k
      rw [← ring_mod u, lowU.ring (Nat.mod_lt _ (by decide)), lowV.ring (by omega), lowU.getLsbD (by omega)] at here
      exact here.symm
    have behind : code.free^[21 - d % 21] v = v >>> (21 - d % 21) := by
      refine (Feedback.down_free_iterate v _).trans ?_
      rw [Feedback.run_false clear, Feedback.free_iterate_zero]
      exact BitVec.xor_zero
    have on : code.free^[21 - d % 21] v = u := by
      rw [behind]
      apply BitVec.eq_of_getLsbD_eq
      intro k _
      rw [BitVec.getLsbD_ushiftRight]
      by_cases below : k < 11
      · have here := turned (21 - d % 21 + k)
        by_cases inside : 21 - d % 21 + k < 21
        · rw [← ring_mod u, show (21 - d % 21 + k + d) % 21 = k by omega, lowU.ring (by omega),
            lowV.ring inside] at here
          exact here.symm
        · omega
      · rw [lowU.getLsbD (by omega), lowV.getLsbD (by omega)]
    have whole_ : code.free^[d + (21 - d % 21)] v = v := by
      rw [Function.iterate_add_apply, on, shifted]
    obtain ⟨a, multiple⟩ := period whole_
    omega

end Cycle

section Window

variable {d : List Bool} {last : Nat}

/-- The eleven bits of a list that end at a place, as they lie at the low end of a register. -/
def window (d : List Bool) (last : Nat) : BitVec 32 :=
  (BitVec.ofBoolListLE (((List.replicate 10 false ++ d).drop last).take 11)).setWidth 32

theorem window_getLsbD {k : Nat} (first : k < 11) :
    (window d last).getLsbD k = ((List.replicate 10 false ++ d)[last + k]?).getD false := by
  unfold window
  rw [BitVec.getLsbD_setWidth, BitVec.getLsbD_ofBoolListLE, decide_eq_true (show k < 32 by omega), Bool.true_and,
    List.getD_eq_getElem?_getD, List.getElem?_take, if_pos first, List.getElem?_drop]

theorem window_low : Low (window d last) := by
  apply BitVec.eq_of_getLsbD_eq
  intro k _
  have short : (((List.replicate 10 false ++ d).drop last).take 11).length ≤ 11 + k := by
    rw [List.length_take]
    omega
  unfold window
  rw [BitVec.getLsbD_ushiftRight, BitVec.getLsbD_setWidth, BitVec.getLsbD_ofBoolListLE,
    List.getD_eq_getElem?_getD, List.getElem?_eq_none short, BitVec.getLsbD_zero]
  exact Bool.and_false _

theorem window_top : (window d last).getLsbD 10 = (d[last]?).getD false := by
  rw [window_getLsbD (by decide), List.getElem?_append_right (by rw [List.length_replicate]; omega),
    List.length_replicate, Nat.add_sub_cancel]

theorem run_window (inside : last < d.length) (before : ∀ k, k + 10 < last → (d[k]?).getD false = false)
    (behind : ∀ k, last < k → (d[k]?).getD false = false) :
    code.run (BitVec.ofNat 32 0) d = code.free^[d.length + 10 - last] (window d last) := by
  have padded : code.run (BitVec.ofNat 32 0) d = code.run (BitVec.ofNat 32 0) (List.replicate 10 false ++ d) := by
    rw [Feedback.run_append, Feedback.run_false fun bit among => (List.mem_replicate.mp among).2,
      Feedback.free_iterate_zero]
  have length : (List.replicate 10 false ++ d).length = d.length + 10 := by
    rw [List.length_append, List.length_replicate, Nat.add_comm]
  have earlier : ∀ bit ∈ (List.replicate 10 false ++ d).take last, bit = false := by
    intro bit among
    obtain ⟨k, below, rfl⟩ := List.getElem_of_mem among
    rw [List.length_take] at below
    rw [List.getElem_take]
    by_cases pad : k < 10
    · rw [List.getElem_append_left (by rw [List.length_replicate]; exact pad), List.getElem_replicate]
    · have unset := before (k - 10) (by omega)
      rw [List.getElem_append_right (by rw [List.length_replicate]; omega)]
      simp only [List.length_replicate]
      rwa [List.getElem?_eq_getElem (by omega), Option.getD_some] at unset
  have later : ∀ bit ∈ (List.replicate 10 false ++ d).drop (last + 11), bit = false := by
    intro bit among
    obtain ⟨k, below, rfl⟩ := List.getElem_of_mem among
    rw [List.length_drop, length] at below
    have unset := behind (last + 11 + k - 10) (by omega)
    rw [List.getElem_drop, List.getElem_append_right (by rw [List.length_replicate]; omega)]
    simp only [List.length_replicate]
    rwa [List.getElem?_eq_getElem (by omega), Option.getD_some] at unset
  have middle : ((List.replicate 10 false ++ d).drop last).take 11 = lowBits (window d last) 11 := by
    apply List.ext_getElem
    · rw [lowBits_length, List.length_take, List.length_drop, length]
      omega
    · intro k left right
      rw [lowBits_length] at right
      simp only [lowBits, List.getElem_map, List.getElem_range]
      rw [window_getLsbD right, List.getElem_take, List.getElem_drop, List.getElem?_eq_getElem (by omega),
        Option.getD_some]
  have own : code.run (BitVec.ofNat 32 0) (lowBits (window d last) 11) = code.free^[11] (window d last) := by
    refine Eq.trans ?_ (Feedback.down_free_iterate (window d last) 11).symm
    rw [show window d last >>> 11 = 0#32 from window_low]
    exact BitVec.zero_xor.symm
  have parts : List.replicate 10 false ++ d = (List.replicate 10 false ++ d).take last ++
      (lowBits (window d last) 11 ++ (List.replicate 10 false ++ d).drop (last + 11)) := by
    rw [← middle, ← List.drop_drop, List.take_append_drop, List.take_append_drop]
  rw [padded, parts, Feedback.run_append, Feedback.run_append, Feedback.run_false earlier,
    Feedback.free_iterate_zero, own, Feedback.run_false later, ← Function.iterate_add_apply, List.length_drop, length]
  congr 2
  omega

/-- What is left of a block of 8,224 bits run on to the end of the code's cycle and then through it: the burst
comes to the low end at the step of its last bit, and nothing comes to be there before. -/
theorem scan (length : d.length = 8224) (inside : last < 8192) (set : (d[last]?).getD false = true)
    (before : ∀ k, k + 10 < last → (d[k]?).getD false = false)
    (behind : ∀ k, last < k → (d[k]?).getD false = false) :
    code.free^[34753 + last] (code.run (BitVec.ofNat 32 0) d) = window d last ∧
      ∀ step < last, ¬Low (code.free^[34753 + step] (code.run (BitVec.ofNat 32 0) d)) := by
  have run := run_window (by omega) before behind
  have on (step : Nat) : code.free^[34753 + step] (code.run (BitVec.ofNat 32 0) d)
      = code.free^[34753 + step + (8234 - last)] (window d last) := by
    rw [run, ← Function.iterate_add_apply, length]
  refine ⟨?_, fun step earlier low => ?_⟩
  · rw [on, show 34753 + last + (8234 - last) = 42987 by omega, code_back]
  · have shifted : code.free^[last - step] (code.free^[34753 + step] (code.run (BitVec.ofNat 32 0) d))
        = window d last := by
      rw [on, ← Function.iterate_add_apply, show last - step + (34753 + step + (8234 - last)) = 42987 by omega,
        code_back]
    exact low_apart low window_low (window_top.trans set) shifted (by omega) (by omega)

end Window

end Fire

end MuirFpga.Arith
