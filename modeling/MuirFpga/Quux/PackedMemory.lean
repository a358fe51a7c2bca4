import MuirFpga.Quux.AxiMaster
import MuirFpga.Sync.ByteMemory
import MuirFpga.Sync.Trace
import Mathlib.Tactic.SplitIfs

/-!
# Packed storage

`quux15_axi_master` over a memory of bytes: where a word's bytes are, what the bursts of a word write
and of a line read do there, and that no burst leaves its 4 KiB. Main memory's word `w` is five bytes
at `MAIN_BASE + 5w`, the frame buffer's four at `DISPLAY_BASE + 4w`; both bases start a page.
-/

namespace MuirFpga.Quux

open Sync

namespace MasterConfig

/-- Both bases are multiples of 4096. -/
def Aligned (c : MasterConfig) : Prop :=
  c.mainBase.toNat % 4096 = 0 ∧ c.displayBase.toNat % 4096 = 0

instance (c : MasterConfig) : Decidable c.Aligned := inferInstanceAs (Decidable (_ ∧ _))

/-- Where a word is. -/
def place (c : MasterConfig) (bus : BitVec 29) : BitVec 32 :=
  if bus.getLsbD 28 then c.displayBase + BitVec.ofNat 32 (4 * (bus.extractLsb' 0 28).toNat)
  else c.mainBase + BitVec.ofNat 32 (5 * bus.toNat)

/-- How many bytes it is. -/
def size (bus : BitVec 29) : Nat := if bus.getLsbD 28 then 4 else 5

/-- A word written: its own bytes and no other. -/
def store (c : MasterConfig) (mem : Bytes) (bus : BitVec 29) (word : BitVec 40) : Bytes := fun a =>
  if (a - c.place bus).toNat < size bus then word.extractLsb' (8 * (a - c.place bus).toNat) 8 else mem a

/-- A word read: its bytes, and in the window a fixnum's tag. -/
def load (c : MasterConfig) (mem : Bytes) (bus : BitVec 29) : BitVec 40 :=
  let at_ := c.place bus
  let low := mem (at_ + 3) ++ mem (at_ + 2) ++ mem (at_ + 1) ++ mem at_
  (if bus.getLsbD 28 then 5#8 else mem (at_ + 4)) ++ low

variable (c : MasterConfig) {line : BitVec 26} {bus : BitVec 29} {word : BitVec 40} {orig : Bytes}

section Addresses

theorem wordByte_eq (bus : BitVec 29) : c.wordByte bus = c.place bus := by
  have less := bus.isLt
  unfold wordByte place
  apply BitVec.eq_of_toNat_eq
  split
  · rw [BitVec.toNat_add, BitVec.toNat_add, toNat_append_add, toNat_append_add, BitVec.toNat_ofNat,
      toNat_extract]
    simp only [BitVec.toNat_ofNat]
    omega
  · rw [BitVec.toNat_add, BitVec.toNat_add, BitVec.toNat_add, toNat_append_add, toNat_append_add,
      toNat_append_add, BitVec.toNat_ofNat]
    simp only [BitVec.toNat_ofNat]
    omega

theorem lineByte_eq (line : BitVec 26) : c.lineByte line = c.place (line ++ 0#3) := by
  have less := line.isLt
  have top : (line ++ 0#3).getLsbD 28 = line.getLsbD 25 := by
    rw [BitVec.getLsbD_append, if_neg (by decide)]
  unfold lineByte place
  rw [top]
  apply BitVec.eq_of_toNat_eq
  split
  · rw [BitVec.toNat_add, BitVec.toNat_add, toNat_append_add, toNat_append_add, BitVec.toNat_ofNat,
      toNat_extract, toNat_extract, toNat_append_add]
    simp only [BitVec.toNat_ofNat]
    omega
  · rw [BitVec.toNat_add, BitVec.toNat_add, BitVec.toNat_add, toNat_append_add, toNat_append_add,
      toNat_append_add, toNat_append_add, BitVec.toNat_ofNat]
    simp only [BitVec.toNat_ofNat, toNat_append_add]
    omega

theorem off_toNat (bus : BitVec 29) : (c.off bus).toNat = (c.place bus).toNat % 8 := by
  unfold off
  rw [wordByte_eq, toNat_extract]
  omega

theorem beatAddr_toNat (bus : BitVec 29) :
    (c.beatAddr bus).toNat = (c.place bus).toNat - (c.place bus).toNat % 8 := by
  have less := (c.place bus).isLt
  unfold beatAddr
  rw [wordByte_eq, toNat_append_add, toNat_extract]
  simp only [BitVec.toNat_ofNat]
  omega

theorem two_iff (bus : BitVec 29) :
    c.two bus = true ↔ bus.getLsbD 28 = false ∧ 4 ≤ (c.place bus).toNat % 8 := by
  unfold two
  rw [Bool.and_eq_true, Bool.not_eq_true', decide_eq_true_eq, BitVec.le_def, off_toNat]
  rfl

theorem split_iff (bus : BitVec 29) :
    c.split bus = true ↔ c.two bus = true ∧ 4088 ≤ (c.place bus).toNat % 4096 := by
  have less := (c.place bus).isLt
  unfold split
  rw [Bool.and_eq_true, beq_iff_eq, ← BitVec.toNat_inj, toNat_extract, beatAddr_toNat]
  simp only [BitVec.toNat_ofNat]
  constructor
  · rintro ⟨two, last⟩
    exact ⟨two, by omega⟩
  · rintro ⟨two, last⟩
    exact ⟨two, by omega⟩

theorem place_of_window (aligned : c.Aligned) (window : bus.getLsbD 28 = true) :
    (c.place bus).toNat % 4 = 0 := by
  have base := aligned.2
  unfold place
  rw [if_pos window, BitVec.toNat_add, BitVec.toNat_ofNat]
  omega

theorem within_beat (aligned : c.Aligned) (one : c.two bus = false) :
    (c.place bus).toNat % 8 + size bus ≤ 8 := by
  have wide := c.two_iff bus
  rw [one] at wide
  unfold size
  cases window : bus.getLsbD 28 with
  | true =>
    have quarter := c.place_of_window aligned window
    rw [if_pos rfl]
    omega
  | false =>
    have narrow : ¬ 4 ≤ (c.place bus).toNat % 8 := fun far =>
      Bool.false_ne_true (wide.mpr ⟨window, far⟩)
    rw [if_neg Bool.false_ne_true]
    omega

end Addresses

section Pages

theorem firstAw_within (bus : BitVec 29) (slot : BitVec 4) :
    WithinPage (c.firstAw bus slot).addr (c.firstAw bus slot).len := by
  have less := (c.place bus).isLt
  have page := c.split_iff bus
  unfold WithinPage firstAw
  dsimp only
  rw [beatAddr_toNat]
  cases two : c.two bus with
  | false =>
    rw [Bool.false_and, if_neg Bool.false_ne_true]
    simp only [BitVec.toNat_ofNat]
    omega
  | true =>
    cases split : c.split bus with
    | true =>
      rw [Bool.not_true, Bool.and_false, if_neg Bool.false_ne_true]
      simp only [BitVec.toNat_ofNat]
      omega
    | false =>
      have early : ¬ 4088 ≤ (c.place bus).toNat % 4096 := fun late =>
        Bool.false_ne_true (split.symm.trans (page.mpr ⟨two, late⟩))
      rw [Bool.not_false, Bool.and_true, if_pos rfl]
      simp only [BitVec.toNat_ofNat]
      omega

theorem second_within (bus : BitVec 29) : WithinPage (c.beatAddr bus + 8) 0 := by
  have less := (c.place bus).isLt
  unfold WithinPage
  rw [BitVec.toNat_add, beatAddr_toNat]
  simp only [BitVec.ofNat_eq_ofNat, BitVec.toNat_ofNat]
  omega

end Pages

section Words

/-- The places a word's bursts promise. -/
def writePlaces (c : MasterConfig) (bus : BitVec 29) (slot : BitVec 4) : List (Place (BitVec 4)) :=
  burst (c.writeId slot) (c.firstAw bus slot).addr (c.firstAw bus slot).len ++
    if c.split bus then burst (c.writeId slot) (c.beatAddr bus + 8) 0 else []

/-- The beats' data. -/
def firstLanes (c : MasterConfig) (bus : BitVec 29) (word : BitVec 40) : Lanes :=
  ⟨(c.firstW bus word).data, (c.firstW bus word).strb⟩
def secondLanes (c : MasterConfig) (bus : BitVec 29) (word : BitVec 40) : Lanes :=
  ⟨0#24 ++ (c.shifted bus word).extractLsb' 64 40, (c.strobes bus).extractLsb' 8 8⟩
def writeLanes (c : MasterConfig) (bus : BitVec 29) (word : BitVec 40) : List Lanes :=
  c.firstLanes bus word :: if c.two bus then [c.secondLanes bus word] else []

theorem writePlaces_eq (bus : BitVec 29) (slot : BitVec 4) :
    c.writePlaces bus slot =
      if c.two bus then
        [⟨c.beatAddr bus, c.split bus, c.writeId slot⟩, ⟨c.beatAddr bus + 8, true, c.writeId slot⟩]
      else [⟨c.beatAddr bus, true, c.writeId slot⟩] := by
  have less := (c.place bus).isLt
  have base : (c.beatAddr bus).toNat % 8 = 0 := by
    rw [beatAddr_toNat]
    omega
  have next : (c.beatAddr bus + 8).toNat % 8 = 0 := by
    rw [BitVec.toNat_add, beatAddr_toNat]
    simp only [BitVec.ofNat_eq_ofNat, BitVec.toNat_ofNat]
    omega
  have page := c.split_iff bus
  unfold writePlaces firstAw
  cases two : c.two bus with
  | false =>
    have whole : c.split bus = false := by
      rw [← Bool.not_eq_true]
      intro split
      exact Bool.false_ne_true (two.symm.trans (page.mp split).1)
    rw [whole]
    exact (List.append_nil _).trans (burst_one base)
  | true =>
    cases split : c.split bus with
    | true => exact congrArg₂ (· ++ ·) (burst_one base) (burst_one next)
    | false => exact (List.append_nil _).trans (burst_two base)

theorem mask_getLsbD (bus : BitVec 29) {j : Nat} (inside : j < 16) :
    (0#8 ++ (if bus.getLsbD 28 then 0x0F#8 else 0x1F#8)).getLsbD j = decide (j < size bus) := by
  have both : ∀ j : Fin 16, (0#8 ++ 0x0F#8).getLsbD j = decide (j.val < 4) ∧
      (0#8 ++ 0x1F#8).getLsbD j = decide (j.val < 5) := by decide
  unfold size
  split
  · exact (both ⟨j, inside⟩).1
  · exact (both ⟨j, inside⟩).2

theorem strobes_getLsbD (bus : BitVec 29) {d : Nat} (inside : d < 16) :
    (c.strobes bus).getLsbD d =
      decide ((c.place bus).toNat % 8 ≤ d ∧ d < (c.place bus).toNat % 8 + size bus) := by
  unfold strobes
  rw [off_toNat, BitVec.getLsbD_shiftLeft, mask_getLsbD bus (by omega), Bool.eq_iff_iff]
  simp only [Bool.and_eq_true, Bool.not_eq_true', decide_eq_true_eq, decide_eq_false_iff_not]
  omega

theorem shifted_byte (bus : BitVec 29) (word : BitVec 40) {d : Nat}
    (after : (c.place bus).toNat % 8 ≤ d) (before : d < (c.place bus).toNat % 8 + size bus) :
    (c.shifted bus word).extractLsb' (8 * d) 8 =
      word.extractLsb' (8 * (d - (c.place bus).toNat % 8)) 8 := by
  have five : size bus ≤ 5 := by
    unfold size
    split <;> omega
  apply BitVec.eq_of_getLsbD_eq
  intro i inside
  have lower : 8 * (d - (c.place bus).toNat % 8) + i < 40 := by omega
  have field : (if bus.getLsbD 28 then 0#8 ++ word.extractLsb' 0 32 else word).getLsbD
      (8 * (d - (c.place bus).toNat % 8) + i) =
        word.getLsbD (8 * (d - (c.place bus).toNat % 8) + i) := by
    unfold size at before
    cases window : bus.getLsbD 28 with
    | false => rfl
    | true =>
      rw [if_pos window] at before
      have low : 8 * (d - (c.place bus).toNat % 8) + i < 32 := by omega
      rw [if_pos rfl, BitVec.getLsbD_append, if_pos low, BitVec.getLsbD_extractLsb']
      simp [low]
  have back : 8 * d + i - 8 * ((c.place bus).toNat % 8) =
      8 * (d - (c.place bus).toNat % 8) + i := by omega
  unfold shifted
  rw [off_toNat, BitVec.getLsbD_extractLsb', BitVec.getLsbD_extractLsb', BitVec.getLsbD_shiftLeft,
    BitVec.getLsbD_append, back, if_pos lower, field]
  have reach : 8 * d + i < 104 := by omega
  have past : ¬ 8 * d + i < 8 * ((c.place bus).toNat % 8) := by omega
  simp [reach, past]

theorem put_first (bus : BitVec 29) (word : BitVec 40) (a : BitVec 32) :
    orig.put (c.beatAddr bus) (c.firstLanes bus word) a =
      if (a - c.beatAddr bus).toNat < 8 ∧ (c.place bus).toNat % 8 ≤ (a - c.beatAddr bus).toNat ∧
          (a - c.beatAddr bus).toNat < (c.place bus).toNat % 8 + size bus then
        word.extractLsb' (8 * ((a - c.beatAddr bus).toNat - (c.place bus).toNat % 8)) 8
      else orig a := by
  unfold Bytes.put firstLanes firstW
  generalize (a - c.beatAddr bus).toNat = d
  dsimp only
  by_cases near : d < 8
  · have strobe : ((c.strobes bus).extractLsb' 0 8).getLsbD d = (c.strobes bus).getLsbD d := by
      simp [near]
    rw [strobe, strobes_getLsbD c bus (by omega)]
    simp only [near, true_and, decide_eq_true_eq]
    split
    · rename_i inside
      rw [← shifted_byte c bus word inside.1 inside.2]
      apply BitVec.eq_of_getLsbD_eq
      intro i byte
      have reach : 8 * d + i < 64 := by omega
      rw [BitVec.getLsbD_extractLsb', BitVec.getLsbD_extractLsb', BitVec.getLsbD_extractLsb']
      simp [reach]
    · rfl
  · simp only [near, false_and, if_false]

theorem put_second (bus : BitVec 29) (word : BitVec 40) (a : BitVec 32) :
    orig.put (c.beatAddr bus + 8) (c.secondLanes bus word) a =
      if (a - (c.beatAddr bus + 8)).toNat < 8 ∧
          (c.place bus).toNat % 8 ≤ (a - (c.beatAddr bus + 8)).toNat + 8 ∧
          (a - (c.beatAddr bus + 8)).toNat + 8 < (c.place bus).toNat % 8 + size bus then
        word.extractLsb' (8 * ((a - (c.beatAddr bus + 8)).toNat + 8 - (c.place bus).toNat % 8)) 8
      else orig a := by
  have five : size bus ≤ 5 := by
    unfold size
    split <;> omega
  unfold Bytes.put secondLanes
  generalize (a - (c.beatAddr bus + 8)).toNat = d
  dsimp only
  by_cases near : d < 8
  · have strobe : ((c.strobes bus).extractLsb' 8 8).getLsbD d = (c.strobes bus).getLsbD (d + 8) := by
      rw [BitVec.getLsbD_extractLsb', Nat.add_comm]
      simp [near]
    rw [strobe, strobes_getLsbD c bus (by omega)]
    simp only [near, true_and, decide_eq_true_eq]
    split
    · rename_i inside
      rw [← shifted_byte c bus word inside.1 inside.2]
      apply BitVec.eq_of_getLsbD_eq
      intro i byte
      have reach : 8 * d + i < 40 := by omega
      have up : 64 + (8 * d + i) = 8 * (d + 8) + i := by omega
      rw [BitVec.getLsbD_extractLsb', BitVec.getLsbD_extractLsb', BitVec.getLsbD_append, if_pos reach,
        BitVec.getLsbD_extractLsb', up]
      simp [reach]
    · rfl
  · simp only [near, false_and, if_false]

theorem offsets (bus : BitVec 29) (a : BitVec 32) :
    (a - c.beatAddr bus).toNat = ((a - c.place bus).toNat + (c.place bus).toNat % 8) % 2 ^ 32 ∧
      (a - (c.beatAddr bus + 8)).toNat =
        ((a - c.place bus).toNat + (c.place bus).toNat % 8 + (2 ^ 32 - 8)) % 2 ^ 32 := by
  have less := (c.place bus).isLt
  have beat := c.beatAddr_toNat bus
  have lessA := a.isLt
  rw [BitVec.toNat_sub a (c.place bus), BitVec.toNat_sub a (c.beatAddr bus),
    BitVec.toNat_sub a (c.beatAddr bus + 8), BitVec.toNat_add]
  have eight : (8 : BitVec 32).toNat = 8 := rfl
  rw [eight]
  exact ⟨by omega, by omega⟩

theorem wrote_word (aligned : c.Aligned) (bus : BitVec 29) (word : BitVec 40) (slot : BitVec 4) :
    wrote orig ((c.writePlaces bus slot).zip (c.writeLanes bus word)) = c.store orig bus word := by
  have five : size bus ≤ 5 := by
    unfold size
    split <;> omega
  funext a
  have less := (a - c.place bus).isLt
  obtain ⟨fromBeat, fromNext⟩ := c.offsets bus a
  rw [writePlaces_eq]
  unfold writeLanes store
  cases two : c.two bus with
  | false =>
    clear fromNext
    have within := c.within_beat aligned two
    show orig.put (c.beatAddr bus) (c.firstLanes bus word) a = _
    rw [put_first]
    by_cases inside : (a - c.place bus).toNat < size bus
    · have same : (a - c.beatAddr bus).toNat - (c.place bus).toNat % 8 = (a - c.place bus).toNat := by omega
      rw [if_pos inside, if_pos (by omega), same]
    · rw [if_neg inside, if_neg (by omega)]
  | true =>
    show (orig.put (c.beatAddr bus) (c.firstLanes bus word)).put (c.beatAddr bus + 8)
      (c.secondLanes bus word) a = _
    rw [put_second, put_first]
    by_cases inside : (a - c.place bus).toNat < size bus
    · rw [if_pos inside]
      by_cases near : (a - c.beatAddr bus).toNat < 8
      · have same : (a - c.beatAddr bus).toNat - (c.place bus).toNat % 8 = (a - c.place bus).toNat := by
          omega
        rw [if_neg (by omega), if_pos (by omega), same]
      · have same : (a - (c.beatAddr bus + 8)).toNat + 8 - (c.place bus).toNat % 8 =
            (a - c.place bus).toNat := by omega
        rw [if_pos (by omega), same]
    · rw [if_neg inside, if_neg (by omega), if_neg (by omega)]

theorem put_outside (bus : BitVec 29) (word : BitVec 40) {a : BitVec 32}
    (outside : size bus ≤ (a - c.place bus).toNat) :
    orig.put (c.beatAddr bus) (c.firstLanes bus word) a = orig a ∧
      orig.put (c.beatAddr bus + 8) (c.secondLanes bus word) a = orig a := by
  have less := (a - c.place bus).isLt
  obtain ⟨fromBeat, fromNext⟩ := c.offsets bus a
  have five : size bus ≤ 5 := by
    unfold size
    split <;> omega
  rw [put_first, put_second]
  exact ⟨if_neg (by omega), if_neg (by omega)⟩

theorem wrote_outside (bus : BitVec 29) (word : BitVec 40) (slot : BitVec 4) (n : Nat) {a : BitVec 32}
    (outside : size bus ≤ (a - c.place bus).toNat) :
    wrote orig (((c.writePlaces bus slot).zip (c.writeLanes bus word)).take n) a = orig a := by
  rw [writePlaces_eq]
  unfold writeLanes
  cases c.two bus with
  | false =>
    match n with
    | 0 => rfl
    | n + 1 =>
      rw [List.take_of_length_le (Nat.succ_le_succ (Nat.zero_le n))]
      exact (c.put_outside bus word outside).1
  | true =>
    match n with
    | 0 => rfl
    | 1 => exact (c.put_outside bus word outside).1
    | n + 2 =>
      rw [List.take_of_length_le (Nat.succ_le_succ (Nat.succ_le_succ (Nat.zero_le n)))]
      exact (c.put_outside bus word outside).2.trans (c.put_outside bus word outside).1

end Words

section Lines

/-- A line's second burst, at the next page. -/
def secondAr (c : MasterConfig) (line : BitVec 26) : ArBeat where
  addr := ((c.lineByte line).extractLsb' 12 20 + 1) ++ 0#12
  len := 0#5 ++ (4#3 - c.firstBeats line)

/-- The beats a line's bursts read. -/
def lineReads (c : MasterConfig) (line : BitVec 26) : List (BitVec 32) :=
  beatsFrom (c.lineAr line).addr (c.lineAr line).len ++
    if c.lineSplit line then beatsFrom (c.secondAr line).addr (c.secondAr line).len else []

/-- How many they are. -/
def lineBeats (line : BitVec 26) : Nat := if line.getLsbD 25 then 4 else 5

theorem lineByte_start (aligned : c.Aligned) (line : BitVec 26) :
    (c.lineByte line).toNat % 8 = 0 ∧
      (line.getLsbD 25 = true → (c.lineByte line).toNat % 32 = 0) := by
  have main := aligned.1
  have display := aligned.2
  unfold lineByte
  cases window : line.getLsbD 25 with
  | true =>
    rw [if_pos rfl, BitVec.toNat_add, toNat_append_add, toNat_append_add]
    simp only [BitVec.toNat_ofNat]
    omega
  | false =>
    rw [if_neg Bool.false_ne_true, BitVec.toNat_add, BitVec.toNat_add, toNat_append_add, toNat_append_add,
      toNat_append_add, toNat_append_add]
    simp only [BitVec.toNat_ofNat]
    exact ⟨by omega, fun window => nomatch window⟩

theorem lineSplit_iff (line : BitVec 26) :
    c.lineSplit line = true ↔ line.getLsbD 25 = false ∧ 4056 < (c.lineByte line).toNat % 4096 := by
  unfold lineSplit
  rw [Bool.and_eq_true, Bool.not_eq_true', decide_eq_true_eq, BitVec.lt_def, toNat_extract,
    Nat.pow_zero, Nat.div_one]
  rfl

theorem firstBeats_toNat (split : 4056 < (c.lineByte line).toNat % 4096) :
    (c.firstBeats line).toNat = (4096 - (c.lineByte line).toNat % 4096) / 8 := by
  unfold firstBeats
  rw [toNat_extract, BitVec.toNat_ushiftRight, BitVec.toNat_sub, toNat_append_add, toNat_extract,
    Nat.shiftRight_eq_div_pow]
  simp only [BitVec.toNat_ofNat]
  omega

theorem split_lengths (aligned : c.Aligned) (split : c.lineSplit line = true) :
    (c.lineAr line).len.toNat + 1 = (c.firstBeats line).toNat ∧
      (c.secondAr line).len.toNat + (c.firstBeats line).toNat = 4 ∧
      (c.secondAr line).addr = c.lineByte line + BitVec.ofNat 32 (8 * (c.firstBeats line).toNat) ∧
      (c.secondAr line).addr.toNat % 4096 = 0 := by
  have start := (c.lineByte_start aligned line).1
  have less := (c.lineByte line).isLt
  obtain ⟨main, late⟩ := (c.lineSplit_iff line).mp split
  have beats := c.firstBeats_toNat late
  refine ⟨?_, ?_, ?_, ?_⟩
  · unfold lineAr
    dsimp only
    rw [main, split, if_neg Bool.false_ne_true, if_pos rfl, toNat_append_add, BitVec.toNat_sub]
    simp only [BitVec.ofNat_eq_ofNat, BitVec.toNat_ofNat]
    omega
  · unfold secondAr
    dsimp only
    rw [toNat_append_add, BitVec.toNat_sub]
    simp only [BitVec.toNat_ofNat]
    omega
  · unfold secondAr
    dsimp only
    apply BitVec.eq_of_toNat_eq
    rw [toNat_append_add, BitVec.toNat_add, BitVec.toNat_add, toNat_extract, beats]
    simp only [BitVec.ofNat_eq_ofNat, BitVec.toNat_ofNat]
    omega
  · unfold secondAr
    dsimp only
    rw [toNat_append_add]
    simp only [BitVec.toNat_ofNat]
    omega

theorem lineAr_within (aligned : c.Aligned) (line : BitVec 26) :
    WithinPage (c.lineAr line).addr (c.lineAr line).len := by
  have start := c.lineByte_start aligned line
  unfold WithinPage
  cases split : c.lineSplit line with
  | true =>
    obtain ⟨main, late⟩ := (c.lineSplit_iff line).mp split
    have beats := c.firstBeats_toNat late
    rw [(c.split_lengths aligned split).1, beats]
    show (c.lineByte line).toNat % 4096 + _ ≤ _
    omega
  | false =>
    have early := mt (c.lineSplit_iff line).mpr (by rw [split]; exact Bool.false_ne_true)
    unfold lineAr
    dsimp only
    cases window : line.getLsbD 25 with
    | true =>
      have wide := start.2 window
      rw [if_pos rfl]
      simp only [BitVec.toNat_ofNat]
      omega
    | false =>
      rw [split, if_neg Bool.false_ne_true, if_neg Bool.false_ne_true]
      simp only [BitVec.toNat_ofNat]
      simp only [window, true_and] at early
      omega

theorem secondAr_within (line : BitVec 26) : WithinPage (c.secondAr line).addr (c.secondAr line).len := by
  unfold WithinPage secondAr
  dsimp only
  rw [toNat_append_add, toNat_append_add]
  simp only [BitVec.toNat_ofNat]
  omega

theorem lineReads_eq (aligned : c.Aligned) (line : BitVec 26) :
    c.lineReads line =
      (List.range (lineBeats line)).map fun i => c.lineByte line + BitVec.ofNat 32 (8 * i) := by
  have start := (c.lineByte_start aligned line).1
  have first : (c.lineAr line).addr.extractLsb' 3 29 ++ 0#3 = c.lineByte line := beat_start start
  unfold lineReads beatsFrom
  rw [first]
  cases split : c.lineSplit line with
  | true =>
    obtain ⟨lengths, rest, address, page⟩ := c.split_lengths aligned split
    have main := ((c.lineSplit_iff line).mp split).1
    have second : (c.secondAr line).addr.extractLsb' 3 29 ++ 0#3 = (c.secondAr line).addr :=
      beat_start (by omega)
    have count : lineBeats line = (c.firstBeats line).toNat + ((c.secondAr line).len.toNat + 1) := by
      unfold lineBeats
      rw [main, if_neg Bool.false_ne_true]
      omega
    rw [if_pos rfl, second, lengths, count, address]
    generalize (c.secondAr line).len.toNat + 1 = others
    rw [List.range_add, List.map_append, List.map_map]
    congr 1
    apply List.map_congr_left
    intro i _
    show _ = c.lineByte line + BitVec.ofNat 32 (8 * ((c.firstBeats line).toNat + i))
    rw [Nat.mul_add, BitVec.ofNat_add, BitVec.add_assoc]
  | false =>
    have count : (c.lineAr line).len.toNat + 1 = lineBeats line := by
      unfold lineAr lineBeats
      rw [split]
      cases line.getLsbD 25 <;> rfl
    rw [if_neg Bool.false_ne_true, List.append_nil, count]

theorem place_of_lane (line : BitVec 26) {k : Nat} (inside : k < 8) :
    c.place (line ++ BitVec.ofNat 3 k) =
      c.lineByte line + BitVec.ofNat 32 ((if line.getLsbD 25 then 4 else 5) * k) := by
  have less := line.isLt
  have top (low : BitVec 3) : (line ++ low).getLsbD 28 = line.getLsbD 25 := by
    rw [BitVec.getLsbD_append, if_neg (by decide)]
  rw [lineByte_eq]
  unfold place
  rw [top, top]
  apply BitVec.eq_of_toNat_eq
  cases line.getLsbD 25 with
  | true =>
    simp only [if_true]
    rw [BitVec.toNat_add, BitVec.toNat_add, BitVec.toNat_add, toNat_extract, toNat_extract,
      toNat_append_add, toNat_append_add]
    simp only [BitVec.toNat_ofNat]
    omega
  | false =>
    simp only [Bool.false_eq_true, if_false]
    rw [BitVec.toNat_add, BitVec.toNat_add, BitVec.toNat_add, toNat_append_add, toNat_append_add]
    simp only [BitVec.toNat_ofNat, Nat.mod_eq_of_lt (show k < 2 ^ 3 from inside)]
    omega

theorem load_getLsbD (mem : Bytes) (bus : BitVec 29) {k : Nat} (inside : k < 40) :
    (c.load mem bus).getLsbD k =
      if bus.getLsbD 28 = true ∧ 32 ≤ k then (5#8).getLsbD (k - 32)
      else (mem (c.place bus + BitVec.ofNat 32 (k / 8))).getLsbD (k % 8) := by
  have near (j : Nat) (here : k / 8 = j) : k - 8 * j = k % 8 := by omega
  unfold load
  simp only [BitVec.getLsbD_append]
  by_cases upper : k < 32
  · have field : ¬ (bus.getLsbD 28 = true ∧ 32 ≤ k) := fun tag => by omega
    rw [if_pos upper, if_neg field]
    split_ifs
    · rw [show k / 8 = 0 by omega, show k % 8 = k by omega]
      simp
    · rw [show k / 8 = 1 by omega, ← near 1 (by omega)]
      rfl
    · rw [show k / 8 = 2 by omega, ← near 2 (by omega), Nat.sub_sub]
      rfl
    · rw [show k / 8 = 3 by omega, ← near 3 (by omega), Nat.sub_sub, Nat.sub_sub]
      rfl
  · rw [if_neg upper]
    cases bus.getLsbD 28 with
    | true => rw [if_pos rfl, if_pos ⟨rfl, by omega⟩]
    | false =>
      rw [if_neg Bool.false_ne_true, if_neg (fun window => Bool.false_ne_true window.1),
        show k / 8 = 4 by omega, ← near 4 (by omega)]
      rfl

theorem beats_getLsbD (mem : Bytes) (addr : BitVec 32) {n : Nat} (inside : n < 320) :
    (mem.beat (addr + 32) ++ mem.beat (addr + 24) ++ mem.beat (addr + 16) ++ mem.beat (addr + 8) ++
        mem.beat addr).getLsbD n =
      (mem (addr + BitVec.ofNat 32 (n / 8))).getLsbD (n % 8) := by
  have beat (j : Nat) (above : 64 * j ≤ n) (below : n < 64 * j + 64) :
      (mem.beat (addr + BitVec.ofNat 32 (8 * j))).getLsbD (n - 64 * j) =
        (mem (addr + BitVec.ofNat 32 (n / 8))).getLsbD (n % 8) := by
    rw [Bytes.getLsbD_beat mem _ (by omega), BitVec.add_assoc, ← BitVec.ofNat_add,
      show 8 * j + (n - 64 * j) / 8 = n / 8 by omega, show (n - 64 * j) % 8 = n % 8 by omega]
  simp only [BitVec.getLsbD_append]
  split_ifs
  · simpa using beat 0 (by omega) (by omega)
  · exact beat 1 (by omega) (by omega)
  · rw [Nat.sub_sub]
    exact beat 2 (by omega) (by omega)
  · rw [Nat.sub_sub, Nat.sub_sub]
    exact beat 3 (by omega) (by omega)
  · rw [Nat.sub_sub, Nat.sub_sub, Nat.sub_sub]
    exact beat 4 (by omega) (by omega)

theorem lanes_extract (w : Nat → BitVec 40) {k : Nat} (inside : k < 8) :
    (w 7 ++ w 6 ++ w 5 ++ w 4 ++ w 3 ++ w 2 ++ w 1 ++ w 0).extractLsb' (40 * k) 40 = w k := by
  apply BitVec.eq_of_getLsbD_eq
  intro m small
  have lane (j : Nat) (here : k = j) : (w j).getLsbD (40 * k + m - 40 * j) = (w k).getLsbD m := by
    rw [← here, Nat.add_sub_cancel_left]
  rw [BitVec.getLsbD_extractLsb']
  simp only [BitVec.getLsbD_append, small, decide_true, Bool.true_and]
  split_ifs
  · exact lane 0 (by omega)
  · exact lane 1 (by omega)
  · rw [Nat.sub_sub]
    exact lane 2 (by omega)
  · rw [Nat.sub_sub, Nat.sub_sub]
    exact lane 3 (by omega)
  · rw [Nat.sub_sub, Nat.sub_sub, Nat.sub_sub]
    exact lane 4 (by omega)
  · rw [Nat.sub_sub, Nat.sub_sub, Nat.sub_sub, Nat.sub_sub]
    exact lane 5 (by omega)
  · rw [Nat.sub_sub, Nat.sub_sub, Nat.sub_sub, Nat.sub_sub, Nat.sub_sub]
    exact lane 6 (by omega)
  · rw [Nat.sub_sub, Nat.sub_sub, Nat.sub_sub, Nat.sub_sub, Nat.sub_sub, Nat.sub_sub]
    exact lane 7 (by omega)

theorem main_lane (mem : Bytes) (main : line.getLsbD 25 = false) {k : Nat} (inside : k < 8) :
    (mem.beat (c.lineByte line + 32) ++ mem.beat (c.lineByte line + 24) ++
        mem.beat (c.lineByte line + 16) ++ mem.beat (c.lineByte line + 8) ++
        mem.beat (c.lineByte line)).extractLsb' (40 * k) 40 =
      c.load mem (line ++ BitVec.ofNat 3 k) := by
  have top : (line ++ BitVec.ofNat 3 k).getLsbD 28 = false := by
    rw [BitVec.getLsbD_append, if_neg (by decide)]
    exact main
  apply BitVec.eq_of_getLsbD_eq
  intro m small
  have plain : ¬ ((line ++ BitVec.ofNat 3 k).getLsbD 28 = true ∧ 32 ≤ m) := fun window =>
    Bool.false_ne_true (top.symm.trans window.1)
  rw [BitVec.getLsbD_extractLsb', beats_getLsbD mem _ (by omega), load_getLsbD c mem _ small,
    if_neg plain, place_of_lane c line inside, main, if_neg Bool.false_ne_true, BitVec.add_assoc,
    ← BitVec.ofNat_add, show 5 * k + m / 8 = (40 * k + m) / 8 by omega,
    show (40 * k + m) % 8 = m % 8 by omega]
  simp [small]

theorem window_lane (mem : Bytes) (window : line.getLsbD 25 = true) {k : Nat} (inside : k < 8) :
    5#8 ++ (if k % 2 = 1 then (mem.beat (c.lineByte line + BitVec.ofNat 32 (8 * (k / 2)))).extractLsb' 32 32
        else (mem.beat (c.lineByte line + BitVec.ofNat 32 (8 * (k / 2)))).extractLsb' 0 32) =
      c.load mem (line ++ BitVec.ofNat 3 k) := by
  have top : (line ++ BitVec.ofNat 3 k).getLsbD 28 = true := by
    rw [BitVec.getLsbD_append, if_neg (by decide)]
    exact window
  have half (m : Nat) (small : m < 32) :
      (if k % 2 = 1 then (mem.beat (c.lineByte line + BitVec.ofNat 32 (8 * (k / 2)))).extractLsb' 32 32
        else (mem.beat (c.lineByte line + BitVec.ofNat 32 (8 * (k / 2)))).extractLsb' 0 32).getLsbD m =
      (mem.beat (c.lineByte line + BitVec.ofNat 32 (8 * (k / 2)))).getLsbD (32 * (k % 2) + m) := by
    split
    · rename_i odd
      rw [BitVec.getLsbD_extractLsb', odd]
      simp [small]
    · rename_i even
      rw [BitVec.getLsbD_extractLsb', show k % 2 = 0 by omega]
      simp [small]
  apply BitVec.eq_of_getLsbD_eq
  intro m small
  rw [load_getLsbD c mem _ small, BitVec.getLsbD_append]
  by_cases tag : 32 ≤ m
  · rw [if_neg (by omega), if_pos ⟨top, tag⟩]
  · have field : ¬ ((line ++ BitVec.ofNat 3 k).getLsbD 28 = true ∧ 32 ≤ m) := fun both => tag both.2
    rw [if_pos (by omega), if_neg field, half m (by omega), Bytes.getLsbD_beat mem _ (by omega),
      place_of_lane c line inside, window, if_pos rfl, BitVec.add_assoc, BitVec.add_assoc,
      ← BitVec.ofNat_add, ← BitVec.ofNat_add,
      show 8 * (k / 2) + (32 * (k % 2) + m) / 8 = 4 * k + m / 8 by omega,
      show (32 * (k % 2) + m) % 8 = m % 8 by omega]

end Lines

end MasterConfig

end MuirFpga.Quux
