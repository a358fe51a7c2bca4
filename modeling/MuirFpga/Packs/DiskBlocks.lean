import MuirFpga.Packs.DiskOpen
import Mathlib.Tactic.SplitIfs

/-!
# The blocks of a dynamic VHD

A dynamic VHD this program holds open is a flat array of bytes as long as its allocated blocks lie
apart from each other and from the table: a sector reads the bytes last written to it, whatever
blocks were allocated between. What a sector's write leaves in the file is said for every way its
operations can come out.
-/

namespace MuirFpga.Packs.QuuxDisk

open Files

variable {x x' : Side} {o : Outcome} {n place : Nat} {sector : Nat → Byte}

/-- The bytes the table's blocks hold. -/
def Disk.span (d : Disk) : Nat := d.entries * d.blockBytes

/-- A block of the disk is allocated. -/
def Disk.Allocated (d : Disk) (k : Nat) : Prop := k < d.entries ∧ d.table k ≠ unallocated

/-- Two stretches of the file do not meet. -/
def Apart (a n b m : Nat) : Prop := a + n ≤ b ∨ b + m ≤ a

/-- The blocks of a disk lie in the file, apart from each other and from the table. -/
structure Laid (x : Side) : Prop where
  format : x.disk.format = .dynamicVhd
  positive : 0 < x.disk.blockBytes
  sectors : x.disk.blockBytes % 512 = 0
  bitmap : 512 ≤ x.disk.bitmapBytes
  bits : x.disk.blockBytes / 512 ≤ 8 * x.disk.bitmapBytes
  whole : x.disk.bitmapBytes % 512 = 0
  reach : 1024 * x.disk.blocks ≤ x.disk.span
  finish : x.disk.finish % 512 = 0
  table : x.disk.tableOffset + 4 * x.disk.entries ≤ x.disk.finish
  tableIn : x.disk.tableOffset + 4 * x.disk.entries ≤ x.file.len
  heldIn : ∀ k, x.disk.Allocated k → 512 * x.disk.table k + x.disk.extent ≤ x.file.len
  held : ∀ k, x.disk.Allocated k → 512 * x.disk.table k + x.disk.extent ≤ x.disk.finish
  apart : ∀ j k, x.disk.Allocated j → x.disk.Allocated k → j ≠ k →
    Apart (512 * x.disk.table j) x.disk.extent (512 * x.disk.table k) x.disk.extent
  clear : ∀ k, x.disk.Allocated k →
    Apart (512 * x.disk.table k) x.disk.extent x.disk.tableOffset (4 * x.disk.entries)

/-- The disk's byte at a place: a block not allocated reads as zeros. -/
def Side.peek (x : Side) (a : Nat) : Byte :=
  if x.disk.table (a / x.disk.blockBytes) = unallocated then 0
  else x.file.byte (512 * x.disk.table (a / x.disk.blockBytes) + x.disk.bitmapBytes +
    a % x.disk.blockBytes)

theorem sector_in_block {unit i : Nat} (positive : 0 < unit) (sectors : unit % 512 = 0)
    (whole : place % 512 = 0) (inside : i < 512) :
    (place + i) / unit = place / unit ∧ (place + i) % unit = place % unit + i ∧
      place % unit + 512 ≤ unit ∧ place % unit % 512 = 0 := by
  have div := Nat.div_add_mod place unit
  have less := Nat.mod_lt place positive
  have rest : place % unit % 512 = 0 := by
    rw [Nat.mod_mod_of_dvd place (Nat.dvd_of_mod_eq_zero sectors)]
    exact whole
  have room : place % unit + 512 ≤ unit := by omega
  have split : place + i = unit * (place / unit) + (place % unit + i) := by omega
  refine ⟨?_, ?_, room, rest⟩
  · have small : (place % unit + i) / unit = 0 := Nat.div_eq_of_lt (by omega)
    rw [split, Nat.mul_add_div positive, small, Nat.add_zero]
  · rw [split, Nat.mul_add_mod, Nat.mod_eq_of_lt (by omega)]

theorem Laid.block_lt (laid : Laid x) {a : Nat}
    (inside : a < x.disk.span) :
    a / x.disk.blockBytes < x.disk.entries := by
  rw [Nat.div_lt_iff_lt_mul laid.positive]
  exact inside

theorem Laid.readSector (laid : Laid x) (n place : Nat) (whole : place % 512 = 0)
    (inside : place + 512 ≤ x.disk.span) :
    ∃ b, QuuxDisk.readSector x.file x.disk n place = .ok b ∧
      ∀ i, i < 512 → b i = x.peek (place + i) := by
  have reach := laid.block_lt (show place < _ by omega)
  unfold QuuxDisk.readSector Disk.locate
  dsimp only
  by_cases none : x.disk.table (place / x.disk.blockBytes) = unallocated
  · rw [if_pos none, if_pos rfl]
    refine ⟨_, rfl, ?_⟩
    intro i less
    obtain ⟨div, -⟩ := sector_in_block laid.positive laid.sectors whole less
    unfold Side.peek
    rw [div, if_pos none]
  · have held := laid.heldIn _ ⟨reach, none⟩
    have bitmap := laid.bitmap
    obtain ⟨-, -, room, -⟩ := sector_in_block laid.positive laid.sectors whole (show 0 < 512 by omega)
    unfold Disk.extent at held
    rw [if_neg none, if_neg (by omega), if_neg (by omega)]
    refine ⟨_, rfl, ?_⟩
    intro i less
    obtain ⟨div, mod, -⟩ := sector_in_block laid.positive laid.sectors whole less
    unfold Side.peek shift
    rw [div, mod, if_neg none, Nat.add_assoc]

theorem Laid.read (laid : Laid x) (less : n < x.disk.blocks) :
    ∃ b, quuxDiskRead x.file x.disk n = .ok b ∧ ∀ i, i < 1024 → b i = x.peek (1024 * n + i) := by
  have reach := laid.reach
  have many : 1024 * n + 1024 ≤ 1024 * x.disk.blocks := by omega
  obtain ⟨low, readLow, lowBytes⟩ := laid.readSector n (1024 * n) (by omega) (by omega)
  obtain ⟨high, readHigh, highBytes⟩ := laid.readSector n (1024 * n + 512) (by omega)
    (by omega)
  unfold quuxDiskRead
  rw [if_neg (by omega), if_neg (by simp [laid.format]), readLow, readHigh]
  refine ⟨_, rfl, ?_⟩
  intro i inside
  split_ifs with first
  · exact lowBytes i first
  · have same : 1024 * n + 512 + (i - 512) = 1024 * n + i := by omega
    rw [highBytes (i - 512) (by omega), same]

/-- A sector written into an allocated block, whatever of it lands: the bitmap may change, and the
sector's first bytes are the new ones. -/
theorem Laid.overwrite (laid : Laid x) (o : Outcome) (n : Nat) (sector : Nat → Byte)
    (whole : place % 512 = 0) {k off : Nat}
    (offset : off = 512 * x.disk.table k + x.disk.bitmapBytes + place % x.disk.blockBytes)
    (taken : x.disk.Allocated k) :
    (overwrite o n k off place sector x).1.disk = x.disk ∧
      (overwrite o n k off place sector x).1.file.len = x.file.len ∧
      (∀ q, q < x.file.len → (q < 512 * x.disk.table k ∨
        512 * x.disk.table k + x.disk.bitmapBytes ≤ q) →
        (overwrite o n k off place sector x).1.file.byte q =
          if off ≤ q ∧ q < off + min 512 o.sector then sector (q - off) else x.file.byte q) ∧
      ((overwrite o n k off place sector x).2 = none → 512 ≤ o.sector) := by
  have held := laid.heldIn k taken
  have bits := laid.bits
  obtain ⟨-, -, room, rest⟩ := sector_in_block laid.positive laid.sectors whole
    (show 0 < 512 by omega)
  unfold Disk.extent at held
  have few : min 512 o.sector ≤ 512 := Nat.min_le_left _ _
  have bitAt : place % x.disk.blockBytes / 512 / 8 < x.disk.bitmapBytes := by omega
  obtain ⟨f, file⟩ : ∃ f, f = writeAt off 512 sector o.sector x.file := ⟨_, rfl⟩
  have one : f.len = x.file.len := by
    rw [file]
    exact Image.len_land_inside (by omega)
  have two (q : Nat) (less : q < x.file.len) : f.byte q =
      if off ≤ q ∧ q < off + min 512 o.sector then sector (q - off) else x.file.byte q := by
    rw [file]
    split_ifs with now
    · exact Image.byte_land now.1 now.2
    · exact Image.byte_land_beside less (by omega)
  have last (data : Nat → Byte) (some q : Nat) (less : q < x.file.len)
      (beside : q < 512 * x.disk.table k ∨ 512 * x.disk.table k + x.disk.bitmapBytes ≤ q) :
      (writeAt (512 * x.disk.table k + place % x.disk.blockBytes / 512 / 8) 1 data some f).byte q =
        f.byte q := by
    have low : min 1 some ≤ 1 := Nat.min_le_left _ _
    exact Image.byte_land_beside (by omega) (by omega)
  have still (data : Nat → Byte) (some : Nat) :
      (writeAt (512 * x.disk.table k + place % x.disk.blockBytes / 512 / 8) 1 data some f).len =
        x.file.len := by
    have low : min 1 some ≤ 1 := Nat.min_le_left _ _
    rw [← one]
    exact Image.len_land_inside (by omega)
  unfold QuuxDisk.overwrite
  dsimp only
  rw [← file]
  split_ifs with short unread clearBit noBit
  · exact ⟨rfl, one, fun q less _ => two q less, fun none => absurd none (by simp)⟩
  · exact ⟨rfl, one, fun q less _ => two q less, fun _ => by omega⟩
  · refine ⟨rfl, still _ _, fun q less beside => ?_, fun _ => by omega⟩
    rw [← two q less]
    dsimp only
    exact last _ _ q less beside
  · refine ⟨rfl, still _ _, fun q less beside => ?_, fun _ => by omega⟩
    rw [← two q less]
    dsimp only
    exact last _ _ q less beside
  · exact ⟨rfl, one, fun q less _ => two q less, fun _ => by omega⟩

/-- A block allocated, whatever lands of it: the bytes before the data's end stay but for its table
entry's, and a block that was allocated has its bytes, the footer after it and its entry. -/
theorem Laid.allocate (laid : Laid x) (o : Outcome) (sector : Nat → Byte) (inBlock : Nat) {k : Nat}
    (inside : k < x.disk.entries) :
    (∀ q, q < x.file.len → q < x.disk.finish → (q < x.disk.tableOffset + 4 * k ∨
        x.disk.tableOffset + 4 * k + 4 ≤ q) →
        (allocate o k inBlock sector x).1.file.byte q = x.file.byte q) ∧
      x.file.len ≤ (allocate o k inBlock sector x).1.file.len ∧
      (allocate o k inBlock sector x).1.file.len ≤
        max x.file.len (x.disk.finish + x.disk.extent + 512) ∧
      ((allocate o k inBlock sector x).2 ≠ none →
        (allocate o k inBlock sector x).1.disk = x.disk) ∧
      ((allocate o k inBlock sector x).2 = none →
        x.disk.finish / 512 < unallocated ∧
        (allocate o k inBlock sector x).1.disk =
          { x.disk with
            table := Function.update x.disk.table k (x.disk.finish / 512)
            finish := x.disk.finish + x.disk.extent } ∧
        (allocate o k inBlock sector x).1.file.len =
          max x.file.len (x.disk.finish + x.disk.extent + 512) ∧
        (∀ i, i < x.disk.extent → (allocate o k inBlock sector x).1.file.byte (x.disk.finish + i) =
          newBlock x.disk inBlock sector i) ∧
        (∀ i, i < 512 → (allocate o k inBlock sector x).1.file.byte
          (x.disk.finish + x.disk.extent + i) = x.disk.footer i) ∧
        ∀ i, i < 4 → (allocate o k inBlock sector x).1.file.byte
          (x.disk.tableOffset + 4 * k + i) = putBe32 (x.disk.finish / 512) i) := by
  have table := laid.table
  have tableIn := laid.tableIn
  have small : 0 < x.disk.extent := by
    have bitmap := laid.bitmap
    unfold Disk.extent
    omega
  obtain ⟨f, block⟩ : ∃ f, f = writeAt x.disk.finish x.disk.extent (newBlock x.disk inBlock sector)
    o.block x.file := ⟨_, rfl⟩
  obtain ⟨g, after⟩ : ∃ g, g = writeAt (x.disk.finish + x.disk.extent) 512 x.disk.footer o.footer f :=
    ⟨_, rfl⟩
  obtain ⟨h, entry⟩ : ∃ h, h = writeAt (x.disk.tableOffset + 4 * k) 4 (putBe32 (x.disk.finish / 512))
    o.entry g := ⟨_, rfl⟩
  have blockMost : min x.disk.extent o.block ≤ x.disk.extent := Nat.min_le_left _ _
  have footerMost : min 512 o.footer ≤ 512 := Nat.min_le_left _ _
  have entryMost : min 4 o.entry ≤ 4 := Nat.min_le_left _ _
  have fLen : x.file.len ≤ f.len ∧ f.len ≤ max x.file.len (x.disk.finish + x.disk.extent) := by
    rw [block]
    refine ⟨Image.le_len_land, ?_⟩
    unfold writeAt Image.land
    dsimp only
    split_ifs <;> omega
  have gLen : f.len ≤ g.len ∧ g.len ≤ max f.len (x.disk.finish + x.disk.extent + 512) := by
    rw [after]
    refine ⟨Image.le_len_land, ?_⟩
    unfold writeAt Image.land
    dsimp only
    split_ifs <;> omega
  have hLen : h.len = g.len := by
    rw [entry]
    exact Image.len_land_inside (by omega)
  have fKeeps (q : Nat) (less : q < x.file.len) (before : q < x.disk.finish) :
      f.byte q = x.file.byte q := by
    rw [block]
    exact Image.byte_land_beside less (by omega)
  have gKeeps (q : Nat) (less : q < f.len) (before : q < x.disk.finish + x.disk.extent) :
      g.byte q = f.byte q := by
    rw [after]
    exact Image.byte_land_beside less (by omega)
  have hKeeps (q : Nat) (less : q < g.len) (beside : q < x.disk.tableOffset + 4 * k ∨
      x.disk.tableOffset + 4 * k + 4 ≤ q) : h.byte q = g.byte q := by
    rw [entry]
    exact Image.byte_land_beside less (by omega)
  unfold QuuxDisk.allocate
  dsimp only
  rw [← block, ← after, ← entry]
  split_ifs with full starved short torn stuck
  · exact ⟨fun _ _ _ _ => rfl, Nat.le_refl _, Nat.le_max_left _ _, fun _ => rfl,
      fun none => absurd none (by simp)⟩
  · exact ⟨fun _ _ _ _ => rfl, Nat.le_refl _, Nat.le_max_left _ _, fun _ => rfl,
      fun none => absurd none (by simp)⟩
  · refine ⟨fun q less before _ => fKeeps q less before, fLen.1, ?_, fun _ => rfl,
      fun none => absurd none (by simp)⟩
    change f.len ≤ _
    omega
  · refine ⟨fun q less before _ => ?_, ?_, ?_, fun _ => rfl, fun none => absurd none (by simp)⟩
    · exact (gKeeps q (by omega) (by omega)).trans (fKeeps q less before)
    · change _ ≤ g.len
      omega
    · change g.len ≤ _
      omega
  · refine ⟨fun q less before beside => ?_, ?_, ?_, fun _ => rfl, fun none => absurd none (by simp)⟩
    · exact (hKeeps q (by omega) beside).trans
        ((gKeeps q (by omega) (by omega)).trans (fKeeps q less before))
    · change _ ≤ h.len
      omega
    · change h.len ≤ _
      omega
  · have wholeBlock : min x.disk.extent o.block = x.disk.extent := by omega
    have wholeFooter : min 512 o.footer = 512 := by
      simp only [Bool.or_eq_true, decide_eq_true_eq, not_or] at torn
      omega
    have wholeEntry : min 4 o.entry = 4 := by omega
    have fWhole : f.len = max x.file.len (x.disk.finish + x.disk.extent) := by
      rw [block]
      unfold writeAt
      rw [wholeBlock, Image.len_land small]
    have gWhole : g.len = max x.file.len (x.disk.finish + x.disk.extent + 512) := by
      rw [after]
      unfold writeAt
      rw [wholeFooter, Image.len_land (by omega), fWhole]
      omega
    refine ⟨fun q less before beside => ?_, ?_, ?_, fun some => absurd rfl some, fun _ =>
      ⟨Nat.not_le.mp full, rfl, ?_, ?_, ?_, ?_⟩⟩
    · exact (hKeeps q (by omega) beside).trans
        ((gKeeps q (by omega) (by omega)).trans (fKeeps q less before))
    · change _ ≤ h.len
      omega
    · change h.len ≤ _
      omega
    · change h.len = _
      omega
    · intro i less
      change h.byte _ = _
      rw [hKeeps _ (by omega) (by omega), gKeeps _ (by omega) (by omega), block]
      unfold writeAt
      rw [wholeBlock, Image.byte_land (by omega) (by omega), Nat.add_sub_cancel_left]
    · intro i less
      change h.byte _ = _
      rw [hKeeps _ (by omega) (by omega), after]
      unfold writeAt
      rw [wholeFooter, Image.byte_land (by omega) (by omega), Nat.add_sub_cancel_left]
    · intro i less
      change h.byte _ = _
      rw [entry]
      unfold writeAt
      rw [wholeEntry, Image.byte_land (by omega) (by omega), Nat.add_sub_cancel_left]

/-- A disk laid out as another, but for its table and where its data ends. -/
structure Alike (d d' : Disk) : Prop where
  format : d'.format = d.format
  size : d'.size = d.size
  blocks : d'.blocks = d.blocks
  entries : d'.entries = d.entries
  tableOffset : d'.tableOffset = d.tableOffset
  blockBytes : d'.blockBytes = d.blockBytes
  bitmapBytes : d'.bitmapBytes = d.bitmapBytes
  footer : ∀ i, i < 512 → d'.footer i = d.footer i

theorem Alike.refl (d : Disk) : Alike d d := ⟨rfl, rfl, rfl, rfl, rfl, rfl, rfl, fun _ _ => rfl⟩

theorem Alike.trans {d d' d'' : Disk} (first : Alike d d') (second : Alike d' d'') : Alike d d'' :=
  ⟨second.format.trans first.format, second.size.trans first.size,
    second.blocks.trans first.blocks, second.entries.trans first.entries,
    second.tableOffset.trans first.tableOffset, second.blockBytes.trans first.blockBytes,
    second.bitmapBytes.trans first.bitmapBytes,
    fun i less => (second.footer i less).trans (first.footer i less)⟩

theorem Alike.symm {d d' : Disk} (alike : Alike d d') : Alike d' d :=
  ⟨alike.format.symm, alike.size.symm, alike.blocks.symm, alike.entries.symm,
    alike.tableOffset.symm, alike.blockBytes.symm, alike.bitmapBytes.symm,
    fun i less => (alike.footer i less).symm⟩

theorem Laid.keep (laid : Laid x) (disk : x'.disk = x.disk) (len : x.file.len ≤ x'.file.len) :
    Laid x' := by
  have tableIn := laid.tableIn
  refine ⟨?_, ?_, ?_, ?_, ?_, ?_, ?_, ?_, ?_, ?_, ?_, ?_, ?_, ?_⟩ <;> rw [disk]
  · exact laid.format
  · exact laid.positive
  · exact laid.sectors
  · exact laid.bitmap
  · exact laid.bits
  · exact laid.whole
  · exact laid.reach
  · exact laid.finish
  · exact laid.table
  · omega
  · intro k alloc
    have heldIn := laid.heldIn k alloc
    omega
  · exact laid.held
  · exact laid.apart
  · exact laid.clear

theorem Laid.grow (laid : Laid x) {k : Nat} (inside : k < x.disk.entries)
    (disk : x'.disk = { x.disk with
      table := Function.update x.disk.table k (x.disk.finish / 512)
      finish := x.disk.finish + x.disk.extent })
    (len : x.disk.finish + x.disk.extent ≤ x'.file.len) : Laid x' := by
  have table := laid.table
  have finish := laid.finish
  have same : x'.disk.extent = x.disk.extent := by
    rw [disk]
    rfl
  have place : 512 * (x.disk.finish / 512) = x.disk.finish := by omega
  have extent : x.disk.extent % 512 = 0 := by
    have whole := laid.whole
    have sectors := laid.sectors
    unfold Disk.extent
    omega
  have old (j : Nat) (other : j ≠ k) (alloc : x'.disk.Allocated j) :
      x.disk.Allocated j ∧ x'.disk.table j = x.disk.table j := by
    unfold Disk.Allocated at alloc ⊢
    rw [disk] at alloc ⊢
    simp only [Function.update_of_ne other] at alloc ⊢
    exact ⟨alloc, trivial⟩
  have new : x'.disk.table k = x.disk.finish / 512 := by
    rw [disk]
    simp
  have entries : x'.disk.entries = x.disk.entries := by rw [disk]
  have offset : x'.disk.tableOffset = x.disk.tableOffset := by rw [disk]
  have ends : x'.disk.finish = x.disk.finish + x.disk.extent := by rw [disk]
  have heldNow (j : Nat) (alloc : x'.disk.Allocated j) :
      512 * x'.disk.table j + x'.disk.extent ≤ x.disk.finish + x.disk.extent := by
    rw [same]
    by_cases mine : j = k
    · subst mine
      rw [new, place]
    · obtain ⟨before, entry⟩ := old j mine alloc
      have held := laid.held j before
      rw [entry]
      omega
  refine ⟨?_, ?_, ?_, ?_, ?_, ?_, ?_, ?_, ?_, ?_, ?_, ?_, ?_, ?_⟩
  · rw [disk]
    exact laid.format
  · rw [disk]
    exact laid.positive
  · rw [disk]
    exact laid.sectors
  · rw [disk]
    exact laid.bitmap
  · rw [disk]
    exact laid.bits
  · rw [disk]
    exact laid.whole
  · rw [disk]
    exact laid.reach
  · rw [ends]
    omega
  · rw [offset, entries, ends]
    omega
  · rw [offset, entries]
    omega
  · intro j alloc
    exact Nat.le_trans (heldNow j alloc) len
  · intro j alloc
    rw [ends]
    exact heldNow j alloc
  · intro i j iAlloc jAlloc other
    rw [same]
    unfold Apart
    by_cases iMine : i = k
    · have jOther : j ≠ k := by
        intro jMine
        exact other (iMine.trans jMine.symm)
      obtain ⟨before, entry⟩ := old j jOther jAlloc
      have held := laid.held j before
      rw [iMine, new, entry, place]
      omega
    · obtain ⟨before, entry⟩ := old i iMine iAlloc
      have held := laid.held i before
      rw [entry]
      by_cases jMine : j = k
      · rw [jMine, new, place]
        omega
      · obtain ⟨jBefore, jEntry⟩ := old j jMine jAlloc
        rw [jEntry]
        exact laid.apart i j before jBefore other
  · intro j alloc
    rw [same, offset, entries]
    by_cases mine : j = k
    · unfold Apart
      rw [mine, new, place]
      omega
    · obtain ⟨before, entry⟩ := old j mine alloc
      rw [entry]
      exact laid.clear j before

/-- A block has been allocated at the data's end, with its entry and the footer after it. -/
structure Grown (x : Side) (k : Nat) (y : Side) : Prop where
  small : x.disk.finish / 512 < unallocated
  disk : y.disk = { x.disk with
    table := Function.update x.disk.table k (x.disk.finish / 512)
    finish := x.disk.finish + x.disk.extent }
  len : y.file.len = max x.file.len (x.disk.finish + x.disk.extent + 512)
  footer : ∀ i, i < 512 → y.file.byte (x.disk.finish + x.disk.extent + i) = x.disk.footer i
  entry : ∀ i, i < 4 → y.file.byte (x.disk.tableOffset + 4 * k + i) =
    putBe32 (x.disk.finish / 512) i

/-- What a sector's write comes to, whatever of it lands: the blocks stay laid, the sector's first
bytes are the new ones and all of them if it succeeded, and the file keeps its bytes but for an
allocated block's own, or before the data's end but for the table entry of a block not allocated. -/
structure Wrote (x : Side) (place : Nat) (sector : Nat → Byte) (r : Side × Option Refusal) :
    Prop where
  laid : Laid r.1
  alike : Alike x.disk r.1.disk
  len : x.file.len ≤ r.1.file.len
  bytes : ∃ many, many ≤ 512 ∧ (r.2 = none → many = 512) ∧
    (¬ x.disk.Allocated (place / x.disk.blockBytes) → many = 0 ∨ many = 512) ∧
    ∀ a, a < x.disk.span →
      r.1.peek a = if place ≤ a ∧ a < place + many then sector (a - place) else x.peek a
  frame : ∀ q, q < x.file.len →
    (¬ x.disk.Allocated (place / x.disk.blockBytes) → q < x.disk.finish ∧
      Apart q 1 (x.disk.tableOffset + 4 * (place / x.disk.blockBytes)) 4) →
    (x.disk.Allocated (place / x.disk.blockBytes) →
      Apart q 1 (512 * x.disk.table (place / x.disk.blockBytes)) x.disk.extent) →
    r.1.file.byte q = x.file.byte q
  kept : x.disk.Allocated (place / x.disk.blockBytes) →
    r.1.disk = x.disk ∧ r.1.file.len = x.file.len
  grown : ¬ x.disk.Allocated (place / x.disk.blockBytes) → r.2 = none →
    Grown x (place / x.disk.blockBytes) r.1
  failed : ¬ x.disk.Allocated (place / x.disk.blockBytes) → r.2 ≠ none → r.1.disk = x.disk

theorem in_sector_iff {unit a many : Nat} (positive : 0 < unit) (sectors : unit % 512 = 0)
    (whole : place % 512 = 0) (few : many ≤ 512) :
    (place ≤ a ∧ a < place + many) ↔
      (a / unit = place / unit ∧ place % unit ≤ a % unit ∧ a % unit < place % unit + many) := by
  have aDiv := Nat.div_add_mod a unit
  have pDiv := Nat.div_add_mod place unit
  constructor
  · rintro ⟨after, before⟩
    obtain ⟨div, mod, -, -⟩ := sector_in_block positive sectors whole
      (show a - place < 512 by omega)
    rw [Nat.add_sub_cancel' after] at div mod
    refine ⟨div, ?_, ?_⟩ <;> omega
  · rintro ⟨div, after, before⟩
    rw [div] at aDiv
    omega

theorem Laid.byte_place (laid : Laid x) {a : Nat} (alloc : x.disk.Allocated (a / x.disk.blockBytes)) :
    (512 * x.disk.table (a / x.disk.blockBytes) + x.disk.bitmapBytes + a % x.disk.blockBytes <
        x.disk.finish ∧
      512 * x.disk.table (a / x.disk.blockBytes) + x.disk.bitmapBytes + a % x.disk.blockBytes <
        x.file.len) ∧
      (∀ k, x.disk.Allocated k → k ≠ a / x.disk.blockBytes →
        Apart (512 * x.disk.table (a / x.disk.blockBytes) + x.disk.bitmapBytes +
          a % x.disk.blockBytes) 1 (512 * x.disk.table k) x.disk.extent) ∧
      Apart (512 * x.disk.table (a / x.disk.blockBytes) + x.disk.bitmapBytes +
          a % x.disk.blockBytes) 1 x.disk.tableOffset (4 * x.disk.entries) := by
  have held := laid.held _ alloc
  have heldIn := laid.heldIn _ alloc
  have less := Nat.mod_lt a laid.positive
  have clear := laid.clear _ alloc
  unfold Apart Disk.extent at *
  refine ⟨⟨by omega, by omega⟩, ?_, by omega⟩
  intro k other different
  have apart := laid.apart k _ other alloc different
  unfold Apart Disk.extent at apart
  omega

theorem Laid.wrote_overwrite (laid : Laid x) (o : Outcome) (n : Nat) (sector : Nat → Byte)
    (whole : place % 512 = 0) (inside : place + 512 ≤ x.disk.span)
    (taken : x.disk.table (place / x.disk.blockBytes) ≠ unallocated) :
    Wrote x place sector (QuuxDisk.overwrite o n (place / x.disk.blockBytes)
      (512 * x.disk.table (place / x.disk.blockBytes) + x.disk.bitmapBytes +
        place % x.disk.blockBytes) place sector x) := by
  have reach := laid.block_lt (show place < _ by omega)
  have few : min 512 o.sector ≤ 512 := Nat.min_le_left _ _
  have alloc : x.disk.Allocated (place / x.disk.blockBytes) := ⟨reach, taken⟩
  obtain ⟨-, -, room, -⟩ := sector_in_block laid.positive laid.sectors whole
    (show 0 < 512 by omega)
  obtain ⟨disk, len, bytes, done⟩ := laid.overwrite o n sector whole rfl alloc
  refine ⟨laid.keep disk (Nat.le_of_eq len.symm), by rw [disk]; exact Alike.refl _,
    Nat.le_of_eq len.symm, ⟨min 512 o.sector, few, fun ok => ?_, fun free => absurd alloc free, ?_⟩,
    ?_, fun _ => ⟨disk, len⟩, fun free => absurd alloc free, fun free => absurd alloc free⟩
  · have all := done ok
    omega
  · intro a less
    unfold Side.peek
    rw [disk]
    simp only [in_sector_iff laid.positive laid.sectors whole few]
    by_cases none : x.disk.table (a / x.disk.blockBytes) = unallocated
    · have other : ¬ a / x.disk.blockBytes = place / x.disk.blockBytes := by
        intro same
        rw [same] at none
        exact taken none
      rw [if_pos none, if_neg (fun all => other all.1)]
      rw [if_pos none]
    · obtain ⟨⟨-, before⟩, apart, -⟩ := laid.byte_place ⟨laid.block_lt less, none⟩
      rw [if_neg none, if_neg none]
      by_cases same : a / x.disk.blockBytes = place / x.disk.blockBytes
      · rw [bytes _ (by omega) (by rw [same]; omega), same]
        simp only [true_and]
        have now : (512 * x.disk.table (place / x.disk.blockBytes) + x.disk.bitmapBytes +
            place % x.disk.blockBytes ≤ 512 * x.disk.table (place / x.disk.blockBytes) +
              x.disk.bitmapBytes + a % x.disk.blockBytes ∧
            512 * x.disk.table (place / x.disk.blockBytes) + x.disk.bitmapBytes +
              a % x.disk.blockBytes < 512 * x.disk.table (place / x.disk.blockBytes) +
                x.disk.bitmapBytes + place % x.disk.blockBytes + min 512 o.sector) ↔
            (place % x.disk.blockBytes ≤ a % x.disk.blockBytes ∧
              a % x.disk.blockBytes < place % x.disk.blockBytes + min 512 o.sector) := by
          omega
        have aDiv := Nat.div_add_mod a x.disk.blockBytes
        have pDiv := Nat.div_add_mod place x.disk.blockBytes
        rw [same] at aDiv
        split_ifs with here there there
        · congr 1
          omega
        · exact absurd (now.mp here) there
        · exact absurd (now.mpr there) here
        · rfl
      · have beside := apart _ alloc (Ne.symm same)
        unfold Apart Disk.extent at beside
        rw [bytes _ (by omega) (by omega), if_neg (by omega)]
        exact (if_neg (fun all => same all.1)).symm
  · intro q less _ beside
    have away := beside alloc
    unfold Apart Disk.extent at away
    rw [bytes q less (by omega), if_neg (by omega)]

theorem Laid.wrote_allocate (laid : Laid x) (o : Outcome) (sector : Nat → Byte)
    (whole : place % 512 = 0) (inside : place + 512 ≤ x.disk.span)
    (free : x.disk.table (place / x.disk.blockBytes) = unallocated) :
    Wrote x place sector (QuuxDisk.allocate o (place / x.disk.blockBytes)
      (place % x.disk.blockBytes) sector x) := by
  have reach := laid.block_lt (show place < _ by omega)
  have finish := laid.finish
  have table := laid.table
  have absent : ¬ x.disk.Allocated (place / x.disk.blockBytes) := fun alloc => alloc.2 free
  obtain ⟨-, -, room, -⟩ := sector_in_block laid.positive laid.sectors whole
    (show 0 < 512 by omega)
  obtain ⟨keeps, len, -, failed, done⟩ := laid.allocate o sector (place % x.disk.blockBytes) reach
  obtain ⟨r, run⟩ : ∃ r, r = QuuxDisk.allocate o (place / x.disk.blockBytes)
    (place % x.disk.blockBytes) sector x := ⟨_, rfl⟩
  rw [← run] at keeps len failed done ⊢
  -- The bytes of another block stay as they were.
  have others (a : Nat) (less : a < x.disk.span)
      (alloc : x.disk.table (a / x.disk.blockBytes) ≠ unallocated) :
      r.1.file.byte (512 * x.disk.table (a / x.disk.blockBytes) + x.disk.bitmapBytes +
        a % x.disk.blockBytes) = x.file.byte (512 * x.disk.table (a / x.disk.blockBytes) +
          x.disk.bitmapBytes + a % x.disk.blockBytes) := by
    obtain ⟨⟨before, within⟩, -, clear⟩ := laid.byte_place ⟨laid.block_lt less, alloc⟩
    unfold Apart at clear
    exact keeps _ within before (by omega)
  have frame : ∀ q, q < x.file.len →
      (¬ x.disk.Allocated (place / x.disk.blockBytes) → q < x.disk.finish ∧
        Apart q 1 (x.disk.tableOffset + 4 * (place / x.disk.blockBytes)) 4) →
      (x.disk.Allocated (place / x.disk.blockBytes) →
        Apart q 1 (512 * x.disk.table (place / x.disk.blockBytes)) x.disk.extent) →
      r.1.file.byte q = x.file.byte q := by
    intro q less beside _
    obtain ⟨before, apart⟩ := beside absent
    unfold Apart at apart
    exact keeps q less before (by omega)
  cases result : r.2 with
  | some why =>
    have disk := failed (by simp [result])
    refine ⟨laid.keep disk len, by rw [disk]; exact Alike.refl _, len,
      ⟨0, Nat.zero_le _, fun none => by simp [result] at none, fun _ => Or.inl rfl, ?_⟩, frame,
      fun alloc => absurd alloc absent, fun _ none => by simp [result] at none, fun _ _ => disk⟩
    intro a less
    rw [if_neg (by omega)]
    unfold Side.peek
    rw [disk]
    split_ifs with none
    · rfl
    · exact others a less none
  | none =>
    obtain ⟨small, disk, whole', block, footer, entry⟩ := done result
    have unit : r.1.disk.blockBytes = x.disk.blockBytes := by rw [disk]
    have bits : r.1.disk.bitmapBytes = x.disk.bitmapBytes := by rw [disk]
    refine ⟨laid.grow reach disk (by omega), by rw [disk]; exact ⟨rfl, rfl, rfl, rfl, rfl, rfl, rfl,
      fun _ _ => rfl⟩, len, ⟨512, Nat.le_refl _, fun _ => rfl, fun _ => Or.inr rfl, ?_⟩, frame,
      fun alloc => absurd alloc absent, fun _ _ => ⟨small, disk, whole', footer, entry⟩,
      fun _ other => absurd result other⟩
    intro a less
    have bound := Nat.mod_lt a laid.positive
    simp only [in_sector_iff laid.positive laid.sectors whole (Nat.le_refl 512)]
    unfold Side.peek
    rw [unit, bits]
    by_cases same : a / x.disk.blockBytes = place / x.disk.blockBytes
    · have entry : r.1.disk.table (a / x.disk.blockBytes) = x.disk.finish / 512 := by
        rw [disk, same]
        simp
      have old : x.disk.table (a / x.disk.blockBytes) = unallocated := by rw [same, free]
      have aDiv := Nat.div_add_mod a x.disk.blockBytes
      have pDiv := Nat.div_add_mod place x.disk.blockBytes
      rw [same] at aDiv
      rw [entry, if_neg (by omega), if_pos old]
      have position : 512 * (x.disk.finish / 512) + x.disk.bitmapBytes + a % x.disk.blockBytes =
          x.disk.finish + (x.disk.bitmapBytes + a % x.disk.blockBytes) := by omega
      rw [position, block _ (by unfold Disk.extent; omega)]
      unfold newBlock
      rw [if_neg (by omega)]
      split_ifs with here there there
      · congr 1
        omega
      · exact absurd ⟨same, by omega, by omega⟩ there
      · exact absurd ⟨by omega, by omega⟩ here
      · rfl
    · have entry : r.1.disk.table (a / x.disk.blockBytes) =
          x.disk.table (a / x.disk.blockBytes) := by
        rw [disk]
        exact Function.update_of_ne same _ _
      rw [entry]
      by_cases none : x.disk.table (a / x.disk.blockBytes) = unallocated
      · rw [if_pos none, if_pos none]
        exact (if_neg (fun all => same all.1)).symm
      · rw [if_neg none, if_neg none, others a less none]
        exact (if_neg (fun all => same all.1)).symm

theorem Laid.wrote (laid : Laid x) (o : Outcome) (n : Nat) (sector : Nat → Byte)
    (whole : place % 512 = 0) (inside : place + 512 ≤ x.disk.span) :
    Wrote x place sector (writeSector o n place sector x) := by
  have bitmap := laid.bitmap
  unfold writeSector Disk.locate
  dsimp only
  by_cases free : x.disk.table (place / x.disk.blockBytes) = unallocated
  · rw [if_pos free, if_pos rfl]
    exact laid.wrote_allocate o sector whole inside free
  · rw [if_neg free, if_neg (by omega)]
    exact laid.wrote_overwrite o n sector whole inside free

theorem write_cases (o : Nat → Outcome) (n : Nat) (buf : Nat → Byte)
    (format : x.disk.format = .dynamicVhd) (less : n < x.disk.blocks) :
    ((writeSector (o 0) n (1024 * n) buf x).2 ≠ none ∧
      quuxDiskWrite o n buf x = writeSector (o 0) n (1024 * n) buf x) ∨
    (∃ y, writeSector (o 0) n (1024 * n) buf x = (y, none) ∧
      quuxDiskWrite o n buf x = writeSector (o 1) n (1024 * n + 512) (shift buf 512) y) := by
  unfold quuxDiskWrite
  rw [if_neg (by omega), if_neg (by simp [format])]
  obtain ⟨y, result⟩ := writeSector (o 0) n (1024 * n) buf x
  cases result with
  | some why =>
    left
    exact ⟨by simp, rfl⟩
  | none =>
    right
    exact ⟨y, rfl, rfl⟩

end MuirFpga.Packs.QuuxDisk
