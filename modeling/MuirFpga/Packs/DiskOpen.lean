import MuirFpga.Packs.QuuxDisk
import Mathlib.Data.List.Basic

/-!
# What makes a file a QUUX disk

A file's format, size and layout depend on its length and on the bytes of its footers, its dynamic
header and its table alone. The rules here open a file from those, so that a file is opened again
as the same disk when a write has left them.
-/

namespace MuirFpga.Packs.QuuxDisk

open Files

variable {b b' : Nat → Byte} {n field : Nat} {f g : Image} {d : Disk} {v : Found}

theorem be_congr (same : ∀ i, i < n → b i = b' i) : be b n = be b' n := by
  unfold be
  apply List.foldl_ext
  intro value i member
  rw [same i (List.mem_range.mp member)]

theorem spells_congr {cookie : List Byte} (same : ∀ i, i < 8 → b i = b' i) :
    spells cookie b = spells cookie b' := by
  unfold spells
  rw [Bool.eq_iff_iff, List.all_eq_true, List.all_eq_true]
  constructor
  · intro all i member
    rw [← same i (List.mem_range.mp member)]
    exact all i member
  · intro all i member
    rw [same i (List.mem_range.mp member)]
    exact all i member

theorem checksum_congr (same : ∀ i, i < n → b i = b' i) :
    checksum b n field = checksum b' n field := by
  unfold checksum
  congr 3
  apply List.map_congr_left
  intro i member
  rw [same i (List.mem_range.mp (List.mem_filter.mp member).1)]

theorem footer_congr (same : ∀ i, i < 512 → b i = b' i) : footer b = footer b' := by
  have low (off many : Nat) (inside : off + many ≤ 512) :
      be (shift b off) many = be (shift b' off) many :=
    be_congr fun i less => same (off + i) (by omega)
  unfold footer
  rw [spells_congr fun i less => same i (by omega), checksum_congr same, low 64 4 (by omega),
    low 60 4 (by omega), low 48 8 (by omega)]

theorem be_putBe32 {entry : Nat} (small : entry < 2 ^ 32) : be (putBe32 entry) 4 = entry := by
  have four : be (putBe32 entry) 4 = (((0 * 256 + entry / 256 ^ 3 % 256) * 256 +
      entry / 256 ^ 2 % 256) * 256 + entry / 256 ^ 1 % 256) * 256 + entry / 256 ^ 0 % 256 := by
    simp [be, putBe32, List.range_succ]
  rw [four]
  omega

/-- The dynamic header a footer points to. -/
def headed (f : Image) (v : Found) : Nat → Byte := shift f.byte (headerOffset v.bytes)

/-- The header's table offset, its entries and its blocks' bytes. -/
def tableOf (h : Nat → Byte) : Nat := be (shift h 16) 8

/-- The header's count of table entries. -/
def fullOf (h : Nat → Byte) : Nat := be (shift h 28) 4

/-- The header's bytes a block. -/
def unitOf (h : Nat → Byte) : Nat := be (shift h 32) 4

/-- The dynamic header of a VHD checks. -/
structure Headed (f : Image) (v : Found) : Prop where
  before : headerOffset v.bytes + 1024 ≤ v.finish
  within : headerOffset v.bytes + 1024 ≤ f.len
  cookie : spells cxsparse (headed f v) = true
  sum : BitVec.ofNat 32 (be (shift (headed f v) 36) 4) = checksum (headed f v) 1024 36
  positive : 0 < unitOf (headed f v)
  sectors : unitOf (headed f v) % 512 = 0
  covers : v.size ≤ fullOf (headed f v) * unitOf (headed f v)
  table : tableOf (headed f v) + 4 * fullOf (headed f v) ≤ v.finish

/-- The disk a VHD's footer and header say it is. -/
def built (f : Image) (v : Found) : Disk where
  format := .dynamicVhd
  size := v.size
  blocks := v.size / 1024
  table := entryAt f (tableOf (headed f v))
  entries := (v.size + unitOf (headed f v) - 1) / unitOf (headed f v)
  tableOffset := tableOf (headed f v)
  blockBytes := unitOf (headed f v)
  bitmapBytes := roundUp ((unitOf (headed f v) / 512 + 7) / 8)
  finish := roundUp v.finish
  footer := v.bytes

/-- A file is a dynamic VHD: its footers give it, its header checks, and no entry of its table runs
past the data. -/
structure Dynamic (f : Image) (v : Found) : Prop where
  plain : (decide (8 ≤ f.len) && spells vhdxfile (first f)) = false
  footers : footers f = .ok (some v)
  type : v.type = 3
  few : v.size / 1024 ≤ maxBlocks
  headed : Headed f v
  read : (built f v).tableOffset + 4 * (built f v).entries ≤ f.len
  entries : ∀ k, k < (built f v).entries → (built f v).runsPast ((built f v).table k) = false

theorem header_of (checks : Headed f v) :
    header f ⟨.dynamicVhd, v.size, v.size / 1024, fun _ => 0, 0, 0, 0, 0, v.finish, v.bytes⟩ =
      .ok { built f v with table := fun _ => 0 } := by
  have before := checks.before
  have within := checks.within
  have cookie := checks.cookie
  have sum := checks.sum
  have positive := checks.positive
  have sectors := checks.sectors
  have covers := checks.covers
  have table := checks.table
  unfold headed at *
  unfold unitOf fullOf tableOf at *
  unfold header
  dsimp only
  rw [if_neg, if_neg, if_neg, if_neg, if_neg]
  · rfl
  · simp only [Bool.or_eq_true, decide_eq_true_eq]
    omega
  · omega
  · simp only [Bool.or_eq_true, decide_eq_true_eq, bne_iff_ne]
    omega
  · simp [sum]
  · simp only [cookie, Bool.or_eq_true, decide_eq_true_eq, Bool.not_true]
    simp
    omega

theorem Dynamic.opens (dynamic : Dynamic f v) : quuxDiskOpen true f = .ok (built f v) := by
  have probe : quuxDiskProbe f = .ok { built f v with table := fun _ => 0 } := by
    unfold quuxDiskProbe
    rw [if_neg (by simp [dynamic.plain]), dynamic.footers]
    dsimp only
    have shaped : shape f (some v) =
        .ok ⟨.dynamicVhd, v.size, v.size / 1024, fun _ => 0, 0, 0, 0, 0, v.finish, v.bytes⟩ := by
      have few := dynamic.few
      unfold shape sized
      simp [dynamic.type, Nat.not_lt.mpr few]
    rw [shaped]
    dsimp only
    rw [if_pos rfl]
    exact header_of dynamic.headed
  have read := dynamic.read
  have entries := dynamic.entries
  unfold quuxDiskOpen
  rw [probe]
  dsimp only
  rw [if_neg (by simp [built]), if_neg (by simp), if_neg (by omega)]
  have clear : (List.range (built f v).entries).find?
      (fun k => (built f v).runsPast (entryAt f (built f v).tableOffset k)) = none := by
    rw [List.find?_eq_none]
    intro k member
    rw [Bool.not_eq_true]
    exact entries k (List.mem_range.mp member)
  have same : (List.range (built f v).entries).find?
      (fun k => { built f v with table := fun _ => 0 }.runsPast
        (entryAt f (built f v).tableOffset k)) = none := clear
  rw [same]
  rfl

theorem headed_of (checks : header f ⟨.dynamicVhd, v.size, v.size / 1024, fun _ => 0, 0, 0, 0, 0,
    v.finish, v.bytes⟩ = .ok d) : Headed f v ∧ d = { built f v with table := fun _ => 0 } := by
  unfold header at checks
  dsimp only at checks
  split_ifs at checks with place sum unit short past
  simp only [Bool.or_eq_true, decide_eq_true_eq, not_or, Bool.not_eq_true', Bool.not_eq_false,
    bne_iff_ne, ne_eq, not_not, Nat.not_lt] at place sum unit short past
  obtain ⟨⟨⟨before, room⟩, within⟩, cookie⟩ := place
  have table : tableOf (headed f v) + 4 * fullOf (headed f v) ≤ v.finish := by
    have first := past.1
    have second := past.2
    unfold tableOf fullOf headed
    omega
  refine ⟨⟨by omega, within, cookie, sum, Nat.pos_of_ne_zero unit.1, unit.2, short, table⟩, ?_⟩
  injection checks with same
  rw [← same]
  rfl

theorem sized_eq {format : Format} {size finish : Nat} (ok : sized format size finish b = .ok d) :
    size / 1024 ≤ maxBlocks ∧
      d = ⟨format, size, size / 1024, fun _ => 0, 0, 0, 0, 0, finish, b⟩ := by
  unfold sized at ok
  split_ifs at ok with many
  injection ok with same
  exact ⟨Nat.not_lt.mp many, same.symm⟩

theorem probe_cases (probe : quuxDiskProbe f = .ok d) :
    (decide (8 ≤ f.len) && spells vhdxfile (first f)) = false ∧
      ((footers f = .ok none ∧ sized .raw f.len 0 (fun _ => 0) = .ok d) ∨
        (∃ v, footers f = .ok (some v) ∧ v.type = 2 ∧ v.size ≤ v.finish ∧
          sized .fixedVhd v.size v.finish v.bytes = .ok d) ∨
        ∃ v, footers f = .ok (some v) ∧ v.type = 3 ∧ v.size / 1024 ≤ maxBlocks ∧ Headed f v ∧
          d = { built f v with table := fun _ => 0 }) := by
  unfold quuxDiskProbe at probe
  split_ifs at probe with plain
  refine ⟨by simpa using plain, ?_⟩
  cases found : footers f with
  | error why => simp [found] at probe
  | ok some =>
    rw [found] at probe
    dsimp only at probe
    cases shaped : shape f some with
    | error why => simp [shaped] at probe
    | ok p =>
      rw [shaped] at probe
      dsimp only at probe
      cases some with
      | none =>
        left
        have raw := sized_eq shaped
        rw [raw.2] at probe
        simp only [reduceCtorEq, if_false] at probe
        refine ⟨rfl, ?_⟩
        change sized .raw f.len 0 (fun _ => 0) = .ok p at shaped
        rw [shaped, raw.2]
        exact probe
      | some v =>
        right
        unfold shape at shaped
        dsimp only at shaped
        split_ifs at shaped with fixed short dynamic
        · left
          have disk := sized_eq shaped
          rw [disk.2] at probe
          simp only [reduceCtorEq, if_false] at probe
          refine ⟨v, rfl, fixed, Nat.not_lt.mp short, ?_⟩
          rw [shaped, disk.2]
          exact probe
        · right
          have disk := sized_eq shaped
          rw [disk.2] at probe
          simp only [if_true] at probe
          obtain ⟨headed, same⟩ := headed_of probe
          exact ⟨v, rfl, dynamic, disk.1, headed, same⟩

theorem dynamic_of {memory : Bool} (opened : quuxDiskOpen memory f = .ok d)
    (format : d.format = .dynamicVhd) : ∃ v, Dynamic f v ∧ d = built f v := by
  unfold quuxDiskOpen at opened
  cases probe : quuxDiskProbe f with
  | error why => simp [probe] at opened
  | ok p =>
    rw [probe] at opened
    dsimp only at opened
    have dynamic : p.format = .dynamicVhd := by
      by_contra other
      rw [if_pos other] at opened
      injection opened with same
      exact other (same ▸ format)
    rw [if_neg (by simp [dynamic])] at opened
    obtain ⟨plain, ⟨-, raw⟩ | ⟨v, -, -, -, fixed⟩ | ⟨v, found, type, few, headed, same⟩⟩ :=
      probe_cases probe
    · rw [(sized_eq raw).2] at dynamic
      exact absurd dynamic (by simp)
    · rw [(sized_eq fixed).2] at dynamic
      exact absurd dynamic (by simp)
    · subst same
      split_ifs at opened with full short
      dsimp only at opened
      cases run : (List.range (built f v).entries).find?
          (fun k => (built f v).runsPast (entryAt f (built f v).tableOffset k)) with
      | some k =>
        have same : (List.range (built f v).entries).find?
            (fun k => { built f v with table := fun _ => 0 }.runsPast
              (entryAt f (built f v).tableOffset k)) = some k := run
        rw [same] at opened
        simp at opened
      | none =>
        have same : (List.range (built f v).entries).find?
            (fun k => { built f v with table := fun _ => 0 }.runsPast
              (entryAt f (built f v).tableOffset k)) = none := run
        rw [same] at opened
        injection opened with disk
        refine ⟨v, ⟨plain, found, type, few, headed, Nat.not_lt.mp short, ?_⟩, disk.symm⟩
        intro k inside
        rw [List.find?_eq_none] at run
        have clear := run k (List.mem_range.mpr inside)
        rw [Bool.not_eq_true] at clear
        exact clear

end MuirFpga.Packs.QuuxDisk
