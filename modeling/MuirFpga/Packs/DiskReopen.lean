import MuirFpga.Packs.DiskBlocks
import Mathlib.Data.List.Induction

/-!
# A dynamic VHD opened again

What a run of successful writes leaves: the footer copy, the header and the entries of other blocks
as they were, the table on the file the one in memory, and a footer at the end. From these the file
opens again as the same disk.
-/

namespace MuirFpga.Packs.QuuxDisk

open Files

variable {f g : Image} {v w : Found} {x y z : Side} {o : Outcome} {n place : Nat}
  {sector : Nat → Byte}

/-- Where a VHD's data ends: where the footer at its end begins, or with the file. -/
def dataEnd (f : Image) : Nat := if footer (last f) = .none then f.len else f.len - 512

theorem footers_found (found : footers f = .ok (some v)) :
    512 ≤ f.len ∧ v.finish = dataEnd f ∧ footer v.bytes = .found v.type v.size ∧
      (footer (last f) = .found v.type v.size ∧ v.bytes = last f ∨
        footer (last f) = .none ∧ v.type = 3 ∧ v.bytes = first f) := by
  unfold footers at found
  by_cases short : f.len < 512
  · simp [short] at found
  rw [if_neg short] at found
  unfold dataEnd
  cases atEnd : footer (last f) with
  | bad want got => simp [atEnd] at found
  | found type size =>
    rw [atEnd] at found
    simp only [Except.ok.injEq, Option.some.injEq] at found
    subst found
    exact ⟨Nat.not_lt.mp short, by simp, atEnd, Or.inl ⟨rfl, rfl⟩⟩
  | none =>
    rw [atEnd] at found
    dsimp only at found
    cases copy : footer (first f) with
    | bad want got => simp [copy] at found
    | none => simp [copy] at found
    | found type size =>
      rw [copy] at found
      dsimp only at found
      by_cases dynamic : type = 3
      · rw [if_pos dynamic] at found
        simp only [Except.ok.injEq, Option.some.injEq] at found
        subst found
        exact ⟨Nat.not_lt.mp short, by simp, copy, Or.inr ⟨rfl, dynamic, rfl⟩⟩
      · simp [dynamic] at found

theorem footers_end {b : Nat → Byte} {type size : Nat} (long : 512 ≤ g.len)
    (same : ∀ i, i < 512 → last g i = b i) (found : footer b = .found type size) :
    footers g = .ok (some ⟨type, size, g.len - 512, last g⟩) := by
  unfold footers
  rw [if_neg (by omega), footer_congr same, found]

theorem footers_copy {b : Nat → Byte} {size : Nat} (long : 512 ≤ g.len)
    (lost : spells conectix (last g) = false) (same : ∀ i, i < 512 → first g i = b i)
    (found : footer b = .found 3 size) :
    footers g = .ok (some ⟨3, size, g.len, first g⟩) := by
  have missing : footer (last g) = .none := by
    unfold footer
    simp [lost]
  unfold footers
  rw [if_neg (by omega), missing, footer_congr same, found]
  rfl

theorem Headed.entries_le (headed : Headed f v) :
    (built f v).entries ≤ fullOf (QuuxDisk.headed f v) ∧
      1024 * (built f v).blocks ≤ (built f v).span := by
  have covers := headed.covers
  have positive := headed.positive
  have up := Nat.lt_mul_div_succ (v.size + unitOf (QuuxDisk.headed f v) - 1) positive
  have reach : v.size ≤ (v.size + unitOf (QuuxDisk.headed f v) - 1) /
      unitOf (QuuxDisk.headed f v) * unitOf (QuuxDisk.headed f v) := by
    rw [Nat.mul_add, Nat.mul_comm] at up
    omega
  constructor
  · unfold built
    dsimp only
    rw [Nat.div_le_iff_le_mul_add_pred positive, Nat.mul_comm]
    omega
  · unfold built Disk.span
    dsimp only
    omega

theorem Dynamic.again (dynamic : Dynamic f v) (found : QuuxDisk.footers g = .ok (some w))
    (type : w.type = 3) (size : w.size = v.size)
    (bytes : ∀ i, i < 512 → w.bytes i = v.bytes i) (start : ∀ i, i < 8 → g.byte i = f.byte i)
    (header : ∀ i, i < 1024 →
      g.byte (headerOffset v.bytes + i) = f.byte (headerOffset v.bytes + i))
    (finish : v.finish ≤ w.finish) (within : w.finish ≤ g.len)
    (entries : ∀ k, k < (built f v).entries →
      entryAt g (built f v).tableOffset k ≠ unallocated →
      512 * entryAt g (built f v).tableOffset k + (built f v).extent ≤ roundUp w.finish) :
    Dynamic g w ∧ Alike (built f v) (built g w) ∧
      (built g w).table = entryAt g (built f v).tableOffset ∧
      (built g w).finish = roundUp w.finish := by
  obtain ⟨plain, foundV, -, few, headedV, read, -⟩ := dynamic
  obtain ⟨longF, -, -, -⟩ := footers_found foundV
  obtain ⟨longG, -, -, -⟩ := footers_found found
  have off : headerOffset w.bytes = headerOffset v.bytes :=
    be_congr fun i less => bytes (16 + i) (by omega)
  have same (i : Nat) (less : i < 1024) : QuuxDisk.headed g w i = QuuxDisk.headed f v i := by
    unfold QuuxDisk.headed shift
    rw [off]
    exact header i less
  have field (at' many : Nat) (inside : at' + many ≤ 1024) :
      be (shift (QuuxDisk.headed g w) at') many = be (shift (QuuxDisk.headed f v) at') many :=
    be_congr fun i less => same (at' + i) (by omega)
  have table : tableOf (QuuxDisk.headed g w) = tableOf (QuuxDisk.headed f v) := field 16 8 (by omega)
  have full : fullOf (QuuxDisk.headed g w) = fullOf (QuuxDisk.headed f v) := field 28 4 (by omega)
  have unit : unitOf (QuuxDisk.headed g w) = unitOf (QuuxDisk.headed f v) := field 32 4 (by omega)
  have headedG : Headed g w := by
    obtain ⟨before, inside, cookie, sum, positive, sectors, covers, tableEnd⟩ := headedV
    refine ⟨by omega, by omega, ?_, ?_, ?_, ?_, ?_, ?_⟩
    · rw [spells_congr fun i less => same i (by omega)]
      exact cookie
    · rw [field 36 4 (by omega), checksum_congr same]
      exact sum
    · rw [unit]
      exact positive
    · rw [unit]
      exact sectors
    · rw [full, unit, size]
      exact covers
    · rw [table, full]
      omega
  have alike : Alike (built f v) (built g w) := by
    refine ⟨rfl, size, ?_, ?_, table, unit, ?_, bytes⟩ <;> unfold built <;> dsimp only
    · rw [size]
    · rw [size, unit]
    · rw [unit]
  have tables : (built g w).table = entryAt g (built f v).tableOffset := by
    unfold built
    dsimp only
    rw [table]
  have extent : (built g w).extent = (built f v).extent := by
    unfold Disk.extent
    rw [alike.bitmapBytes, alike.blockBytes]
  refine ⟨⟨?_, found, type, by rw [size]; exact few, headedG, ?_, ?_⟩, alike, tables, rfl⟩
  · have letters : spells vhdxfile (QuuxDisk.first g) = spells vhdxfile (QuuxDisk.first f) := by
      apply spells_congr
      intro i less
      unfold QuuxDisk.first
      rw [if_pos (by omega), if_pos (by omega)]
      exact start i less
    have eight : (8 ≤ g.len) = (8 ≤ f.len) := by
      apply propext
      constructor <;> intro _ <;> omega
    rw [letters]
    simp only [eight]
    exact plain
  · have inside := headedG.table
    have reach := headedG.entries_le.1
    change tableOf (QuuxDisk.headed g w) + 4 * _ ≤ _
    omega
  · intro k less
    have past := entries k (alike.entries ▸ less)
    unfold Disk.runsPast
    rw [extent, tables]
    change (entryAt g (built f v).tableOffset k != unallocated && (decide (roundUp w.finish <
      512 * entryAt g (built f v).tableOffset k) || decide (roundUp w.finish -
        512 * entryAt g (built f v).tableOffset k < (built f v).extent))) = false
    by_cases none : entryAt g (built f v).tableOffset k = unallocated
    · simp [none]
    · have fits := past none
      simp only [Bool.and_eq_false_iff, Bool.or_eq_false_iff, decide_eq_false_iff_not]
      right
      omega

/-- The allocated blocks of a dynamic VHD lie apart from each other, from the footer copy, from the
header and from the table. -/
structure Separate (d : Disk) : Prop where
  apart : ∀ j k, d.Allocated j → d.Allocated k → j ≠ k →
    Apart (512 * d.table j) d.extent (512 * d.table k) d.extent
  copy : ∀ k, d.Allocated k → Apart (512 * d.table k) d.extent 0 512
  header : ∀ k, d.Allocated k → Apart (512 * d.table k) d.extent (headerOffset d.footer) 1024
  table : ∀ k, d.Allocated k → Apart (512 * d.table k) d.extent d.tableOffset (4 * d.entries)

/-- A dynamic VHD's parts lie apart: its blocks also from the footer at the end and inside the file,
and its table from the footer copy and the header. -/
structure Proper (f : Image) (d : Disk) : Prop extends Separate d where
  inside : ∀ k, d.Allocated k → 512 * d.table k + d.extent ≤ dataEnd f
  tableCopy : Apart d.tableOffset (4 * d.entries) 0 512
  tableHeader : Apart d.tableOffset (4 * d.entries) (headerOffset d.footer) 1024

theorem le_roundUp (n : Nat) : n ≤ roundUp n ∧ roundUp n < n + 512 ∧ roundUp n % 512 = 0 := by
  unfold roundUp
  omega

/-- What successful writes keep of the file a disk was opened on. -/
structure Kept (f : Image) (v : Found) (x : Side) : Prop where
  alike : Alike (built f v) x.disk
  laid : Laid x
  separate : Separate x.disk
  start : ∀ q, q < 512 → x.file.byte q = f.byte q
  header : ∀ i, i < 1024 →
    x.file.byte (headerOffset v.bytes + i) = f.byte (headerOffset v.bytes + i)
  stored : ∀ k, k < x.disk.entries → entryAt x.file x.disk.tableOffset k = x.disk.table k
  len : f.len ≤ x.file.len
  tail : (x.file.len = f.len ∧ x.disk.finish = roundUp v.finish ∧
      (∀ k, x.disk.Allocated k → 512 * x.disk.table k + x.disk.extent ≤ v.finish) ∧
      ∀ q, v.finish ≤ q → q < f.len → x.file.byte q = f.byte q) ∨
    (f.len < x.file.len ∧ x.file.len = x.disk.finish + 512 ∧ v.finish ≤ x.disk.finish ∧
      ∀ i, i < 512 → x.file.byte (x.disk.finish + i) = v.bytes i)

/-- The allocated blocks of a dynamic VHD lie inside the file, apart from each other and from the
table. -/
structure Parted (f : Image) (d : Disk) : Prop where
  inside : ∀ k, d.Allocated k → 512 * d.table k + d.extent ≤ f.len
  apart : ∀ j k, d.Allocated j → d.Allocated k → j ≠ k →
    Apart (512 * d.table j) d.extent (512 * d.table k) d.extent
  table : ∀ k, d.Allocated k → Apart (512 * d.table k) d.extent d.tableOffset (4 * d.entries)

theorem Proper.parted {d : Disk} (proper : Proper f d) : Parted f d := by
  refine ⟨fun k alloc => Nat.le_trans (proper.inside k alloc) ?_, proper.apart, proper.table⟩
  unfold dataEnd
  split_ifs <;> omega

theorem Dynamic.laid (dynamic : Dynamic f v) (parted : Parted f (built f v)) :
    Laid ⟨f, built f v⟩ := by
  obtain ⟨plain, found, type, few, headed, read, entries⟩ := dynamic
  obtain ⟨reach, span⟩ := headed.entries_le
  have up := le_roundUp v.finish
  have bits := le_roundUp ((unitOf (QuuxDisk.headed f v) / 512 + 7) / 8)
  have positive := headed.positive
  have sectors := headed.sectors
  have table := headed.table
  refine ⟨rfl, positive, sectors, ?_, ?_, bits.2.2, span, up.2.2, ?_, read, parted.inside, ?_,
    parted.apart, parted.table⟩
  · change 512 ≤ roundUp _
    omega
  · change unitOf _ / 512 ≤ 8 * roundUp _
    omega
  · change tableOf _ + 4 * (built f v).entries ≤ roundUp v.finish
    omega
  · intro k alloc
    have within := entries k alloc.1
    have taken : (built f v).table k ≠ unallocated := alloc.2
    unfold Disk.runsPast at within
    simp only [Bool.and_eq_false_iff, bne_eq_false_iff_eq, taken, Bool.or_eq_false_iff,
      decide_eq_false_iff_not, false_or] at within
    dsimp only
    omega

theorem Dynamic.kept (dynamic : Dynamic f v) (proper : Proper f (built f v)) :
    Kept f v ⟨f, built f v⟩ := by
  have finish := (footers_found dynamic.footers).2.1
  refine ⟨Alike.refl _, dynamic.laid proper.parted, proper.toSeparate, fun _ _ => rfl,
    fun _ _ => rfl, fun _ _ => rfl, Nat.le_refl _, Or.inl ⟨rfl, rfl, ?_, fun _ _ _ => rfl⟩⟩
  intro k alloc
  rw [finish]
  exact proper.inside k alloc

theorem Kept.bounds (kept : Kept f v x) (dynamic : Dynamic f v) :
    512 ≤ f.len ∧ f.len ≤ v.finish + 512 ∧ v.finish ≤ f.len ∧ v.finish ≤ x.disk.finish ∧
      x.file.len ≤ x.disk.finish + 512 ∧ headerOffset v.bytes + 1024 ≤ v.finish := by
  obtain ⟨long, finish, -, -⟩ := footers_found dynamic.footers
  have before := dynamic.headed.before
  have up := le_roundUp v.finish
  have data : f.len ≤ dataEnd f + 512 ∧ dataEnd f ≤ f.len := by
    unfold dataEnd
    split_ifs <;> omega
  rcases kept.tail with ⟨len, ends, -, -⟩ | ⟨-, len, past, -⟩
  · omega
  · omega

theorem Kept.headerOffset (kept : Kept f v x) :
    QuuxDisk.headerOffset x.disk.footer = QuuxDisk.headerOffset v.bytes :=
  be_congr fun i less => kept.alike.footer (16 + i) (by omega)

theorem entryAt_congr {off k : Nat}
    (same : ∀ q, off + 4 * k ≤ q → q < off + 4 * k + 4 → g.byte q = f.byte q) :
    entryAt g off k = entryAt f off k :=
  be_congr fun i less => same _ (Nat.le_add_right _ _) (by omega)

theorem Kept.inPlace (kept : Kept f v x) (dynamic : Dynamic f v) {k : Nat} (laid : Laid y)
    (alloc : x.disk.Allocated k) (disk : y.disk = x.disk) (len : y.file.len = x.file.len)
    (frame : ∀ q, q < x.file.len → Apart q 1 (512 * x.disk.table k) x.disk.extent →
      y.file.byte q = x.file.byte q) : Kept f v y := by
  obtain ⟨long, short, data, finish, -, header⟩ := kept.bounds dynamic
  have grew := kept.len
  have copyApart := kept.separate.copy k alloc
  have headerApart := kept.separate.header k alloc
  have tableApart := kept.separate.table k alloc
  have tableIn := kept.laid.tableIn
  have held := kept.laid.held k alloc
  rw [kept.headerOffset] at headerApart
  unfold Apart at *
  refine ⟨by rw [disk]; exact kept.alike, laid, by rw [disk]; exact kept.separate, ?_, ?_, ?_,
    by omega, ?_⟩
  · intro q less
    rw [frame q (by omega) (by omega)]
    exact kept.start q less
  · intro i less
    rw [frame _ (by omega) (by omega)]
    exact kept.header i less
  · intro j less
    rw [disk] at less ⊢
    rw [← kept.stored j less]
    apply entryAt_congr
    intro q after before
    exact frame q (by omega) (by omega)
  · rw [disk, len]
    rcases kept.tail with ⟨same, ends, blocks, bytes⟩ | ⟨more, same, past, bytes⟩
    · refine Or.inl ⟨same, ends, blocks, ?_⟩
      intro q after before
      have inside := blocks k alloc
      rw [frame q (by omega) (by omega)]
      exact bytes q after before
    · refine Or.inr ⟨more, same, past, ?_⟩
      intro i less
      rw [frame _ (by omega) (by omega)]
      exact bytes i less

theorem Kept.grown (kept : Kept f v x) (dynamic : Dynamic f v) (proper : Proper f (built f v))
    {k : Nat} (laid : Laid y) (inside : k < x.disk.entries) (grown : Grown x k y)
    (frame : ∀ q, q < x.file.len → q < x.disk.finish →
      Apart q 1 (x.disk.tableOffset + 4 * k) 4 → y.file.byte q = x.file.byte q) : Kept f v y := by
  obtain ⟨long, short, data, finish, cap, header⟩ := kept.bounds dynamic
  obtain ⟨small, disk, len, footer, entry⟩ := grown
  have grew := kept.len
  have tableCopy := proper.tableCopy
  have tableHeader := proper.tableHeader
  have alike := kept.alike
  have bitmap := kept.laid.bitmap
  have tableEnd := kept.laid.table
  have tableIn := kept.laid.tableIn
  have sectors := kept.laid.finish
  have hoff : QuuxDisk.headerOffset (built f v).footer = QuuxDisk.headerOffset v.bytes := rfl
  rw [← alike.tableOffset, ← alike.entries] at tableCopy tableHeader
  rw [hoff] at tableHeader
  have extent : 512 ≤ x.disk.extent := by
    unfold Disk.extent
    omega
  have footerSame : y.disk.footer = x.disk.footer := by rw [disk]
  have entriesSame : y.disk.entries = x.disk.entries := by rw [disk]
  have offsetSame : y.disk.tableOffset = x.disk.tableOffset := by rw [disk]
  have extentSame : y.disk.extent = x.disk.extent := by
    rw [disk]
    rfl
  have mine : y.disk.table k = x.disk.finish / 512 := by
    rw [disk]
    simp
  have other (j : Nat) (different : j ≠ k) : y.disk.table j = x.disk.table j := by
    rw [disk]
    exact Function.update_of_ne different _ _
  -- A block is the new one, or one that was allocated before.
  have blocks (j : Nat) (alloc : y.disk.Allocated j) :
      512 * y.disk.table j = x.disk.finish ∨
        x.disk.Allocated j ∧ 512 * y.disk.table j = 512 * x.disk.table j := by
    by_cases same : j = k
    · left
      rw [same, mine]
      omega
    · right
      obtain ⟨less, taken⟩ := alloc
      rw [entriesSame] at less
      rw [other j same] at taken ⊢
      exact ⟨⟨less, taken⟩, rfl⟩
  unfold Apart at *
  refine ⟨alike.trans (by rw [disk]; exact ⟨rfl, rfl, rfl, rfl, rfl, rfl, rfl, fun _ _ => rfl⟩),
    laid, ⟨laid.apart, ?_, ?_, laid.clear⟩, ?_, ?_, ?_, by omega, Or.inr ⟨by omega, ?_, ?_, ?_⟩⟩
  · intro j alloc
    unfold Apart
    rcases blocks j alloc with here | ⟨before, there⟩
    · omega
    · have apart := kept.separate.copy j before
      unfold Apart at apart
      omega
  · intro j alloc
    unfold Apart
    rw [footerSame, kept.headerOffset]
    rcases blocks j alloc with here | ⟨before, there⟩
    · omega
    · have apart := kept.separate.header j before
      rw [kept.headerOffset] at apart
      unfold Apart at apart
      omega
  · intro q less
    rw [frame q (by omega) (by omega) (by omega)]
    exact kept.start q less
  · intro i less
    rw [frame _ (by omega) (by omega) (by omega)]
    exact kept.header i less
  · intro j less
    rw [entriesSame] at less
    rw [offsetSame]
    by_cases same : j = k
    · rw [same, mine]
      have read : entryAt y.file x.disk.tableOffset k = be (putBe32 (x.disk.finish / 512)) 4 :=
        be_congr entry
      rw [read]
      apply be_putBe32
      unfold unallocated at small
      omega
    · rw [other j same, ← kept.stored j less]
      apply entryAt_congr
      intro q after before
      exact frame q (by omega) (by omega) (by omega)
  · rw [disk]
    change y.file.len = x.disk.finish + x.disk.extent + 512
    omega
  · rw [disk]
    change v.finish ≤ x.disk.finish + x.disk.extent
    omega
  · rw [disk]
    intro i less
    change y.file.byte (x.disk.finish + x.disk.extent + i) = v.bytes i
    rw [footer i less]
    exact alike.footer i less

theorem Kept.writeSector (kept : Kept f v x) (dynamic : Dynamic f v) (proper : Proper f (built f v))
    (whole : place % 512 = 0) (inside : place + 512 ≤ x.disk.span)
    (done : QuuxDisk.writeSector o n place sector x = (y, none)) : Kept f v y := by
  have wrote := kept.laid.wrote o n sector whole inside
  rw [done] at wrote
  obtain ⟨laid, -, -, -, frame, inPlace, grown, -⟩ := wrote
  by_cases alloc : x.disk.Allocated (place / x.disk.blockBytes)
  · obtain ⟨disk, len⟩ := inPlace alloc
    apply kept.inPlace dynamic laid alloc disk len
    intro q less apart
    exact frame q less (fun free => absurd alloc free) fun _ => apart
  · apply kept.grown dynamic proper laid (kept.laid.block_lt (by omega)) (grown alloc rfl)
    intro q less before apart
    exact frame q less (fun _ => ⟨before, apart⟩) fun taken => absurd taken alloc

/-- A block the machine writes. -/
structure Put where
  block : Nat
  data : Nat → Byte

/-- The disk's bytes with a block put. -/
def Put.over (p : Put) (bytes : Nat → Byte) : Nat → Byte := fun a =>
  if 1024 * p.block ≤ a ∧ a < 1024 * p.block + 1024 then p.data (a - 1024 * p.block) else bytes a

/-- A run of successful writes. -/
inductive Writes : Side → List Put → Side → Prop
  | nil (x : Side) : Writes x [] x
  | cons {x y z : Side} {p : Put} {rest : List Put} (o : Nat → Outcome)
      (done : quuxDiskWrite o p.block p.data x = (y, none)) (more : Writes y rest z) :
      Writes x (p :: rest) z

/-- What was last written to a block. -/
def lastPut (puts : List Put) (m : Nat) : Option (Nat → Byte) :=
  puts.foldl (fun found p => if p.block = m then some p.data else found) none

theorem block_of_write {o : Nat → Outcome} {p : Put}
    (done : quuxDiskWrite o p.block p.data x = (y, none)) : p.block < x.disk.blocks := by
  unfold quuxDiskWrite at done
  by_contra past
  rw [if_pos (by omega)] at done
  simp at done

theorem write_sectors {o : Nat → Outcome} {p : Put} (format : x.disk.format = .dynamicVhd)
    (done : quuxDiskWrite o p.block p.data x = (y, none)) :
    ∃ m, QuuxDisk.writeSector (o 0) p.block (1024 * p.block) p.data x = (m, none) ∧
      QuuxDisk.writeSector (o 1) p.block (1024 * p.block + 512) (shift p.data 512) m = (y, none) := by
  rcases write_cases o p.block p.data format (block_of_write done) with ⟨failed, same⟩ | ⟨m, low, high⟩
  · rw [← same, done] at failed
    exact absurd rfl failed
  · exact ⟨m, low, high ▸ done⟩

theorem Kept.write (kept : Kept f v x) (dynamic : Dynamic f v) (proper : Proper f (built f v))
    {o : Nat → Outcome} {p : Put} (done : quuxDiskWrite o p.block p.data x = (y, none)) :
    Kept f v y := by
  have less := block_of_write done
  have reach := kept.laid.reach
  obtain ⟨m, low, high⟩ := write_sectors kept.laid.format done
  have first := kept.writeSector dynamic proper (by omega) (by omega) low
  have alike := first.alike
  have span : m.disk.span = x.disk.span := by
    unfold Disk.span
    rw [alike.entries, alike.blockBytes, kept.alike.entries, kept.alike.blockBytes]
  exact first.writeSector dynamic proper (by omega) (by rw [span]; omega) high

theorem Laid.write (laid : Laid x) {o : Nat → Outcome} {p : Put}
    (done : quuxDiskWrite o p.block p.data x = (y, none)) :
    Laid y ∧ Alike x.disk y.disk ∧ ∀ a, a < x.disk.span → y.peek a = p.over x.peek a := by
  have less := block_of_write done
  have reach := laid.reach
  obtain ⟨m, low, high⟩ := write_sectors laid.format done
  have first := laid.wrote (o 0) p.block p.data (show 1024 * p.block % 512 = 0 by omega) (by omega)
  rw [low] at first
  have span : m.disk.span = x.disk.span := by
    unfold Disk.span
    rw [first.alike.entries, first.alike.blockBytes]
  have second := first.laid.wrote (o 1) p.block (shift p.data 512)
    (show (1024 * p.block + 512) % 512 = 0 by omega) (by rw [span]; omega)
  rw [high] at second
  obtain ⟨lowMany, -, lowAll, -, lowBytes⟩ := first.bytes
  obtain ⟨highMany, -, highAll, -, highBytes⟩ := second.bytes
  refine ⟨second.laid, first.alike.trans second.alike, ?_⟩
  intro a inside
  rw [highBytes a (by rw [span]; exact inside), lowBytes a inside, lowAll rfl, highAll rfl]
  clear first second low high done lowBytes highBytes
  unfold Put.over shift
  by_cases upper : 1024 * p.block + 512 ≤ a ∧ a < 1024 * p.block + 512 + 512
  · have place : 512 + (a - (1024 * p.block + 512)) = a - 1024 * p.block := by omega
    rw [if_pos upper, if_pos (by omega), place]
  · rw [if_neg upper]
    by_cases lower : 1024 * p.block ≤ a ∧ a < 1024 * p.block + 512
    · rw [if_pos lower, if_pos (by omega)]
    · rw [if_neg lower, if_neg (by omega)]

/-- The disk's bytes with blocks put one after another. -/
def flat (puts : List Put) (bytes : Nat → Byte) : Nat → Byte :=
  puts.foldl (fun bytes p => p.over bytes) bytes

theorem flat_congr {puts : List Put} {b b' : Nat → Byte} {a : Nat} (same : b a = b' a) :
    flat puts b a = flat puts b' a := by
  induction puts generalizing b b' with
  | nil => exact same
  | cons p rest ih =>
    apply ih
    change p.over b a = p.over b' a
    unfold Put.over
    rw [same]

theorem flat_eq (puts : List Put) (b : Nat → Byte) {m i : Nat} (less : i < 1024) :
    flat puts b (1024 * m + i) = match lastPut puts m with
      | some data => data i
      | none => b (1024 * m + i) := by
  induction puts using List.reverseRecOn with
  | nil => rfl
  | append_singleton rest p ih =>
    have step : flat (rest ++ [p]) b = p.over (flat rest b) := by
      unfold flat
      rw [List.foldl_append]
      rfl
    have found : lastPut (rest ++ [p]) m = if p.block = m then some p.data else lastPut rest m := by
      unfold lastPut
      rw [List.foldl_append]
      rfl
    rw [step, found]
    unfold Put.over
    by_cases here : p.block = m
    · have offset : 1024 * m + i - 1024 * p.block = i := by omega
      rw [if_pos here, if_pos (by omega), offset]
    · rw [if_neg here, if_neg (by omega), ih]

theorem Kept.writes (kept : Kept f v x) (dynamic : Dynamic f v) (proper : Proper f (built f v))
    {puts : List Put} (run : Writes x puts y) :
    Kept f v y ∧ ∀ a, a < x.disk.span → y.peek a = flat puts x.peek a := by
  induction run with
  | nil x => exact ⟨kept, fun _ _ => rfl⟩
  | @cons x y z p rest o done more ih =>
    have next := kept.write dynamic proper done
    obtain ⟨-, alike, bytes⟩ := kept.laid.write done
    obtain ⟨last, all⟩ := ih next
    refine ⟨last, ?_⟩
    intro a inside
    have span : y.disk.span = x.disk.span := by
      unfold Disk.span
      rw [alike.entries, alike.blockBytes]
    rw [all a (by rw [span]; exact inside)]
    exact flat_congr (bytes a inside)

theorem Laid.retable (laid : Laid x) {d : Disk} (alike : Alike x.disk d)
    (table : ∀ k, k < x.disk.entries → d.table k = x.disk.table k) (sectors : d.finish % 512 = 0)
    (tableEnd : x.disk.tableOffset + 4 * x.disk.entries ≤ d.finish)
    (held : ∀ k, x.disk.Allocated k → 512 * x.disk.table k + x.disk.extent ≤ d.finish) :
    Laid ⟨x.file, d⟩ ∧ ∀ a, a < x.disk.span → Side.peek ⟨x.file, d⟩ a = x.peek a := by
  obtain ⟨format, -, blocks, entries, offset, unit, bitmap, -⟩ := alike
  have extent : d.extent = x.disk.extent := by
    unfold Disk.extent
    rw [unit, bitmap]
  have span : d.span = x.disk.span := by
    unfold Disk.span
    rw [entries, unit]
  have alloc (k : Nat) (taken : d.Allocated k) :
      x.disk.Allocated k ∧ d.table k = x.disk.table k := by
    obtain ⟨less, taken⟩ := taken
    rw [entries] at less
    rw [table k less] at taken
    exact ⟨⟨less, taken⟩, table k less⟩
  refine ⟨⟨format.trans laid.format, ?_, ?_, ?_, ?_, ?_, ?_, sectors, ?_, ?_, ?_, ?_, ?_, ?_⟩, ?_⟩
  · rw [unit]
    exact laid.positive
  · rw [unit]
    exact laid.sectors
  · rw [bitmap]
    exact laid.bitmap
  · rw [unit, bitmap]
    exact laid.bits
  · rw [bitmap]
    exact laid.whole
  · rw [blocks, span]
    exact laid.reach
  · rw [offset, entries]
    exact tableEnd
  · rw [offset, entries]
    exact laid.tableIn
  · intro k taken
    obtain ⟨before, same⟩ := alloc k taken
    rw [same, extent]
    exact laid.heldIn k before
  · intro k taken
    obtain ⟨before, same⟩ := alloc k taken
    rw [same, extent]
    exact held k before
  · intro j k jTaken kTaken other
    obtain ⟨jBefore, jSame⟩ := alloc j jTaken
    obtain ⟨kBefore, kSame⟩ := alloc k kTaken
    rw [jSame, kSame, extent]
    exact laid.apart j k jBefore kBefore other
  · intro k taken
    obtain ⟨before, same⟩ := alloc k taken
    rw [same, extent, offset, entries]
    exact laid.clear k before
  · intro a inside
    unfold Side.peek
    rw [unit, bitmap, table _ (laid.block_lt inside)]

/-- A file that keeps what it was opened by opens as the same disk, unless its last sector is the
machine's data and begins as a footer does. -/
theorem Kept.reopens (kept : Kept f v x) (dynamic : Dynamic f v)
    (tail : x.file.len = f.len → footer (last f) = .none → spells conectix (last x.file) = false) :
    ∃ d, quuxDiskOpen true x.file = .ok d ∧ Alike x.disk d ∧ Laid ⟨x.file, d⟩ ∧
      ∀ a, a < x.disk.span → Side.peek ⟨x.file, d⟩ a = x.peek a := by
  obtain ⟨long, short, data, finish, cap, header⟩ := kept.bounds dynamic
  obtain ⟨-, ends, valid, origin⟩ := footers_found dynamic.footers
  have type := dynamic.type
  have grew := kept.len
  rw [type] at valid
  have sectors := kept.laid.finish
  -- The footers give the same VHD, its data ending where the disk's does.
  obtain ⟨w, found, wType, wSize, bytes, wFinish, past, within⟩ : ∃ w : Found,
      footers x.file = .ok (some w) ∧ w.type = 3 ∧ w.size = v.size ∧
      (∀ i, i < 512 → w.bytes i = v.bytes i) ∧ roundUp w.finish = x.disk.finish ∧
      v.finish ≤ w.finish ∧ w.finish ≤ x.file.len := by
    rcases kept.tail with ⟨len, same, -, keeps⟩ | ⟨more, len, beyond, footerBytes⟩
    · rcases origin with ⟨there, isLast⟩ | ⟨lost, -, isFirst⟩
      · have atEnd : v.finish = f.len - 512 := by
          rw [ends]
          unfold dataEnd
          rw [there, if_neg (by simp)]
        have agree (i : Nat) (less : i < 512) : last x.file i = v.bytes i := by
          rw [isLast]
          unfold last shift
          rw [len]
          exact keeps _ (by omega) (by omega)
        refine ⟨_, footers_end (by omega) agree valid, rfl, rfl, agree, ?_, ?_, ?_⟩
        · rw [same, atEnd, len]
        · change _ ≤ x.file.len - 512
          omega
        · exact Nat.sub_le _ _
      · have atEnd : v.finish = f.len := by
          rw [ends]
          unfold dataEnd
          rw [if_pos lost]
        have agree (i : Nat) (less : i < 512) : first x.file i = v.bytes i := by
          rw [isFirst]
          unfold first
          rw [if_pos (by omega), if_pos (by omega)]
          exact kept.start i less
        refine ⟨_, footers_copy (by omega) (tail len lost) agree valid, rfl, rfl, agree, ?_, ?_, ?_⟩
        · rw [same, atEnd, len]
        · change _ ≤ x.file.len
          omega
        · exact Nat.le_refl _
    · have agree (i : Nat) (less : i < 512) : last x.file i = v.bytes i := by
        unfold last shift
        rw [len, Nat.add_sub_cancel]
        exact footerBytes i less
      refine ⟨_, footers_end (by omega) agree valid, rfl, rfl, agree, ?_, ?_, ?_⟩
      · change roundUp (x.file.len - 512) = _
        unfold roundUp
        omega
      · change _ ≤ x.file.len - 512
        omega
      · exact Nat.sub_le _ _
  have alike := kept.alike
  have extent : (built f v).extent = x.disk.extent := by
    unfold Disk.extent
    rw [alike.bitmapBytes, alike.blockBytes]
  have entries (k : Nat) (less : k < (built f v).entries) :
      entryAt x.file (built f v).tableOffset k = x.disk.table k := by
    rw [← alike.tableOffset]
    rw [← alike.entries] at less
    exact kept.stored k less
  obtain ⟨again, same, table, ending⟩ := dynamic.again found wType wSize bytes
    (fun i less => kept.start i (by omega)) kept.header past within (by
      intro k less taken
      rw [entries k less] at taken ⊢
      rw [extent, wFinish]
      exact kept.laid.held k ⟨alike.entries ▸ less, taken⟩)
  have likewise : Alike x.disk (built x.file w) := alike.symm.trans same
  refine ⟨built x.file w, again.opens, likewise, ?_⟩
  apply kept.laid.retable likewise
  · intro k less
    rw [table]
    exact entries k (alike.entries ▸ less)
  · rw [ending, wFinish]
    exact sectors
  · rw [ending, wFinish]
    exact kept.laid.table
  · intro k taken
    rw [ending, wFinish]
    exact kept.laid.held k taken

/-- A block lies in one of a dynamic VHD's blocks, or in two. -/
def Put.Reaches (p : Put) (d : Disk) (k : Nat) : Prop :=
  k = 1024 * p.block / d.blockBytes ∨ k = (1024 * p.block + 512) / d.blockBytes

theorem Laid.entry_kept (laid : Laid x) (whole : place % 512 = 0)
    (inside : place + 512 ≤ x.disk.span) (done : QuuxDisk.writeSector o n place sector x = (y, none))
    {k i : Nat} (entry : k < x.disk.entries) (less : i < 4)
    (spared : x.disk.Allocated k ∨ k ≠ place / x.disk.blockBytes) :
    y.file.byte (x.disk.tableOffset + 4 * k + i) = x.file.byte (x.disk.tableOffset + 4 * k + i) ∧
      (x.disk.Allocated k → y.disk.Allocated k) := by
  have wrote := laid.wrote o n sector whole inside
  rw [done] at wrote
  have table := laid.table
  have tableIn := laid.tableIn
  constructor
  · apply wrote.frame _ (by omega)
    · intro free
      have other : k ≠ place / x.disk.blockBytes := by
        rcases spared with taken | other
        · intro same
          exact free (same ▸ taken)
        · exact other
      unfold Apart
      omega
    · intro taken
      have clear := laid.clear _ taken
      unfold Apart at *
      omega
  · intro taken
    by_cases alloc : x.disk.Allocated (place / x.disk.blockBytes)
    · rw [(wrote.kept alloc).1]
      exact taken
    · have disk := (wrote.grown alloc rfl).disk
      have other : k ≠ place / x.disk.blockBytes := fun same => alloc (same ▸ taken)
      unfold Disk.Allocated at *
      rw [disk]
      simp only [Function.update_of_ne other]
      exact taken

theorem Laid.entries_kept (laid : Laid x) {o : Nat → Outcome} {p : Put}
    (done : quuxDiskWrite o p.block p.data x = (y, none)) {k i : Nat} (entry : k < x.disk.entries)
    (less : i < 4) (spared : x.disk.Allocated k ∨ ¬ p.Reaches x.disk k) :
    y.file.byte (x.disk.tableOffset + 4 * k + i) =
      x.file.byte (x.disk.tableOffset + 4 * k + i) := by
  have block := block_of_write done
  have reach := laid.reach
  obtain ⟨m, low, high⟩ := write_sectors laid.format done
  have first := laid.wrote (o 0) p.block p.data (show 1024 * p.block % 512 = 0 by omega) (by omega)
  rw [low] at first
  have alike := first.alike
  have span : m.disk.span = x.disk.span := by
    unfold Disk.span
    rw [alike.entries, alike.blockBytes]
  unfold Put.Reaches at spared
  have here := laid.entry_kept (by omega) (by omega) low entry less
    (spared.imp_right fun other => fun same => other (Or.inl same))
  have next : m.disk.Allocated k ∨ k ≠ (1024 * p.block + 512) / m.disk.blockBytes := by
    rcases spared with taken | other
    · exact Or.inl (here.2 taken)
    · rw [alike.blockBytes]
      exact Or.inr fun same => other (Or.inr same)
  have there := first.laid.entry_kept (by omega) (by rw [span]; omega) high
    (by rw [alike.entries]; exact entry) less next
  rw [alike.tableOffset] at there
  rw [there.1, here.1]

/-- A dynamic VHD whose parts lie apart is a flat array of blocks under every run of successful
writes: a block reads as last written, or as it was; the blocks stay apart; a write leaves the header
and the entries of blocks it does not allocate; and the file opens again as the same disk, where its
last sector is not the machine's data spelling a footer's cookie. -/
theorem dynamic_refines_flat {memory : Bool} {d : Disk} (opened : quuxDiskOpen memory f = .ok d)
    (format : d.format = .dynamicVhd) (proper : Proper f d) {puts : List Put}
    (run : Writes ⟨f, d⟩ puts y) :
    (∀ m, m < d.blocks → ∃ b was, quuxDiskRead y.file y.disk m = .ok b ∧
      quuxDiskRead f d m = .ok was ∧ ∀ i, i < 1024 →
        (b i = match lastPut puts m with
          | some data => data i
          | none => was i) ∧
        (d.table ((1024 * m + i) / d.blockBytes) = unallocated → was i = 0)) ∧
    Separate y.disk ∧
    (∀ (o : Nat → Outcome) (p : Put) z, quuxDiskWrite o p.block p.data y = (z, none) →
      (∀ i, i < 1024 → z.file.byte (headerOffset d.footer + i) =
        y.file.byte (headerOffset d.footer + i)) ∧
      ∀ k, k < d.entries → (y.disk.Allocated k ∨ ¬ p.Reaches d k) → ∀ i, i < 4 →
        z.file.byte (d.tableOffset + 4 * k + i) = y.file.byte (d.tableOffset + 4 * k + i)) ∧
    ((y.file.len = f.len → footer (last f) = .none → spells conectix (last y.file) = false) →
      ∃ d', quuxDiskOpen true y.file = .ok d' ∧ d'.format = d.format ∧ d'.size = d.size ∧
        d'.blocks = d.blocks ∧ ∀ m, m < d.blocks → ∃ b b', quuxDiskRead y.file y.disk m = .ok b ∧
          quuxDiskRead y.file d' m = .ok b' ∧ ∀ i, i < 1024 → b' i = b i) := by
  obtain ⟨v, dynamic, rfl⟩ := dynamic_of opened format
  have start := dynamic.kept proper
  obtain ⟨kept, bytes⟩ := start.writes dynamic proper run
  have alike := kept.alike
  have span : y.disk.span = (built f v).span := by
    unfold Disk.span
    rw [alike.entries, alike.blockBytes]
  have reach := start.laid.reach
  dsimp only at reach
  refine ⟨?_, kept.separate, ?_, ?_⟩
  · intro m less
    obtain ⟨b, read, now⟩ := kept.laid.read (show m < y.disk.blocks by rw [alike.blocks]; exact less)
    obtain ⟨was, readWas, before⟩ := start.laid.read (show m < (built f v).blocks from less)
    refine ⟨b, was, read, readWas, ?_⟩
    intro i inside
    refine ⟨?_, ?_⟩
    · rw [now i inside, bytes _ (show _ < (built f v).span by omega), flat_eq puts _ inside]
      cases lastPut puts m with
      | some data => rfl
      | none => exact (before i inside).symm
    · intro free
      rw [before i inside]
      unfold Side.peek
      exact if_pos free
  · intro o p z done
    have next := kept.write dynamic proper done
    refine ⟨?_, ?_⟩
    · intro i less
      exact (next.header i less).trans (kept.header i less).symm
    · intro k entry spared i less
      have same := kept.laid.entries_kept done (show k < y.disk.entries by
        rw [alike.entries]; exact entry) less (by
        unfold Put.Reaches at *
        rw [alike.blockBytes]
        exact spared)
      rw [alike.tableOffset] at same
      exact same
  · intro tail
    obtain ⟨d', again, same, laid, peeks⟩ := kept.reopens dynamic tail
    refine ⟨d', again, same.format.trans alike.format, same.size.trans alike.size,
      same.blocks.trans alike.blocks, ?_⟩
    intro m less
    obtain ⟨b, read, now⟩ := kept.laid.read (show m < y.disk.blocks by rw [alike.blocks]; exact less)
    obtain ⟨b', read', now'⟩ := laid.read (show m < d'.blocks by
      rw [same.blocks, alike.blocks]; exact less)
    refine ⟨b, b', read, read', ?_⟩
    intro i inside
    rw [now i inside, now' i inside]
    exact peeks _ (by rw [span]; omega)

/-- The footer of a dynamic VHD of one block, its header at 512. -/
def oneFooter (i : Nat) : Byte :=
  if i < 68 then (conectix ++ [0, 0, 0, 0, 0, 0, 0, 0, 0, 0, 0, 0, 0, 0, 2, 0, 0, 0, 0, 0, 0, 0, 0, 0,
    0, 0, 0, 0, 0, 0, 0, 0, 0, 0, 0, 0, 0, 0, 0, 0, 0, 0, 0, 0, 0, 0, 4, 0, 0, 0, 0, 0, 0, 0, 0, 3, 0xFF,
    0xFF, 0xFC, 0x99]).getD i 0 else 0

/-- The header of a dynamic VHD of one block of 1,024 bytes: where its table is, what stands in its
unused bytes and its checksum. -/
def oneHeader (table unused : Byte) (sum : List Byte) (i : Nat) : Byte :=
  if i < 40 then (cxsparse ++ [0, 0, 0, 0, 0, 0, 0, 0, 0, 0, 0, 0, 0, 0, table, 0, 0, 0, 0, 0, 0, 0, 0,
    1, 0, 0, 4, 0] ++ sum).getD i 0 else if 768 ≤ i ∧ i < 772 then unused else 0

/-- A dynamic VHD of one block, not allocated. -/
def oneBlock : Image where
  len := 2560
  byte i := if i < 512 then oneFooter i
    else if i < 1536 then oneHeader 6 0 [0xFF, 0xFF, 0xFC, 0x8B] (i - 512)
    else if i < 1540 then 0xFF
    else if i < 2048 then 0
    else oneFooter (i - 2048)

/-- A dynamic VHD of one block whose table is in the unused bytes of its header. -/
def tableInHeader : Image where
  len := 2048
  byte i := if i < 512 then oneFooter i
    else if i < 1536 then oneHeader 5 0xFF [0xFF, 0xFF, 0xF8, 0x90] (i - 512)
    else oneFooter (i - 1536)

/-- A dynamic VHD of one block, allocated at the file's end, with no footer but the copy at 0. -/
def footerLost (len : Nat) : Image where
  len := len
  byte i := if i < 512 then oneFooter i
    else if i < 1536 then oneHeader 6 0 [0xFF, 0xFF, 0xFC, 0x8B] (i - 512)
    else if i = 1539 then 4
    else 0

/-- Every file operation succeeds. -/
def allDone : Nat → Outcome := fun _ => ⟨true, 2048, 512, true, 4, 1024, true, 1⟩

theorem Writes.one (x : Side) (o : Nat → Outcome) (p : Put)
    (done : (quuxDiskWrite o p.block p.data x).2 = none) :
    Writes x [p] (quuxDiskWrite o p.block p.data x).1 :=
  .cons o (Prod.ext rfl done) (.nil _)

theorem dynamic_of_parts (plain : (decide (8 ≤ f.len) && spells vhdxfile (first f)) = false)
    (found : footers f = .ok (some v)) (type : v.type = 3) (few : v.size / 1024 ≤ maxBlocks)
    (headed : Headed f v) (within : v.finish ≤ f.len)
    (entries : ∀ k, k < (built f v).entries → (built f v).runsPast ((built f v).table k) = false) :
    Dynamic f v := by
  refine ⟨plain, found, type, few, headed, ?_, entries⟩
  have table := headed.table
  have reach := headed.entries_le.1
  change tableOf _ + 4 * _ ≤ f.len
  omega

/-- A footer at a file's end, as it is found. -/
def foundAtEnd (f : Image) : Found := ⟨3, 1024, f.len - 512, last f⟩

/-- A footer by its copy at 0, as it is found. -/
def foundAtStart (f : Image) : Found := ⟨3, 1024, f.len, first f⟩

/-- The checksum of a header stands in it. -/
def Sums (h : Nat → Byte) : Prop := BitVec.ofNat 32 (be (shift h 36) 4) = checksum h 1024 36

theorem one_sums : footer oneFooter = .found 3 1024 ∧ Sums (oneHeader 6 0 [0xFF, 0xFF, 0xFC, 0x8B]) ∧
    Sums (oneHeader 5 0xFF [0xFF, 0xFF, 0xF8, 0x90]) := by
  unfold Sums
  decide +kernel

theorem footer_of_copy (copy : ∀ i, i < 512 → b i = oneFooter i) : footer b = .found 3 1024 :=
  (footer_congr copy).trans one_sums.1

theorem sums_of_copy {h : Nat → Byte} (place : headerOffset v.bytes = 512)
    (copy : ∀ i, i < 1024 → f.byte (512 + i) = h i) (sums : Sums h) : Sums (headed f v) := by
  have same (i : Nat) (less : i < 1024) : headed f v i = h i := by
    show f.byte (headerOffset v.bytes + i) = h i
    rw [place]
    exact copy i less
  have field : be (shift (headed f v) 36) 4 = be (shift h 36) 4 := be_congr fun i less => same (36 + i) (by omega)
  unfold Sums
  rw [field, checksum_congr same]
  exact sums

theorem oneBlock_dynamic : Dynamic oneBlock (foundAtEnd oneBlock) := by
  have found : footer (last oneBlock) = .found 3 1024 := by
    apply footer_of_copy
    intro i less
    show oneBlock.byte (2048 + i) = oneFooter i
    unfold oneBlock
    dsimp only
    rw [if_neg (by omega), if_neg (by omega), if_neg (by omega), if_neg (by omega), Nat.add_sub_cancel_left]
  apply dynamic_of_parts (by decide) (footers_end (by decide) (fun _ _ => rfl) found) rfl (by decide) _ (by decide)
  · decide
  · refine ⟨by decide, by decide, by decide, ?_, by decide, by decide, by decide, by decide⟩
    apply sums_of_copy (by decide) _ one_sums.2.1
    intro i less
    unfold oneBlock
    dsimp only
    rw [if_neg (by omega), if_pos (by omega), Nat.add_sub_cancel_left]

theorem tableInHeader_dynamic : Dynamic tableInHeader (foundAtEnd tableInHeader) := by
  have found : footer (last tableInHeader) = .found 3 1024 := by
    apply footer_of_copy
    intro i less
    show tableInHeader.byte (1536 + i) = oneFooter i
    unfold tableInHeader
    dsimp only
    rw [if_neg (by omega), if_neg (by omega), Nat.add_sub_cancel_left]
  apply dynamic_of_parts (by decide) (footers_end (by decide) (fun _ _ => rfl) found) rfl (by decide) _ (by decide)
  · decide
  · refine ⟨by decide, by decide, by decide, ?_, by decide, by decide, by decide, by decide⟩
    apply sums_of_copy (by decide) _ one_sums.2.2
    intro i less
    unfold tableInHeader
    dsimp only
    rw [if_neg (by omega), if_pos (by omega), Nat.add_sub_cancel_left]

theorem footerLost_dynamic {len : Nat} (long : len = 3583 ∨ len = 3584) :
    Dynamic (footerLost len) (foundAtStart (footerLost len)) := by
  have found : footer (first (footerLost len)) = .found 3 1024 := by
    apply footer_of_copy
    intro i less
    unfold first footerLost
    dsimp only
    rw [if_pos (by omega), if_pos less]
  change Dynamic (footerLost len) ⟨3, 1024, (footerLost len).len, first (footerLost len)⟩
  apply dynamic_of_parts _ (footers_copy _ _ (fun _ _ => rfl) found) rfl
  · exact (by decide : 1024 / 1024 ≤ maxBlocks)
  · rcases long with rfl | rfl
    all_goals
      refine ⟨by decide, by decide, by decide, ?_, by decide, by decide, by decide, by decide⟩
      apply sums_of_copy (by decide) _ one_sums.2.1
      intro i less
      unfold footerLost
      dsimp only
      rw [if_neg (by omega), if_pos (by omega), Nat.add_sub_cancel_left]
  · exact Nat.le_refl _
  all_goals rcases long with rfl | rfl <;> decide

theorem Separate.of_none {d : Disk} (free : ∀ k, ¬ d.Allocated k) : Separate d :=
  ⟨fun j _ taken => absurd taken (free j), fun k taken => absurd taken (free k),
    fun k taken => absurd taken (free k), fun k taken => absurd taken (free k)⟩

theorem none_allocated (d : Disk) (one : d.entries = 1) (free : d.table 0 = unallocated) (k : Nat) :
    ¬ d.Allocated k := by
  rintro ⟨less, taken⟩
  have zero : k = 0 := by omega
  exact taken (zero ▸ free)

theorem oneBlock_proper : Proper oneBlock (built oneBlock (foundAtEnd oneBlock)) := by
  have free := none_allocated (built oneBlock (foundAtEnd oneBlock)) (by decide) (by decide)
  exact ⟨Separate.of_none free, fun k taken => absurd taken (free k), Or.inr (by decide), Or.inr (by decide)⟩

/-- A file of one block with its parts apart opens, takes a write and reads it back. -/
theorem oneBlock_refines_flat : ∃ y b, Writes ⟨oneBlock, built oneBlock (foundAtEnd oneBlock)⟩
      [⟨0, fun _ => 7⟩] y ∧ quuxDiskRead y.file y.disk 0 = .ok b ∧ ∀ i, i < 1024 → b i = 7 := by
  have run := Writes.one ⟨oneBlock, built oneBlock (foundAtEnd oneBlock)⟩ allDone
    ⟨0, fun _ => 7⟩ (by decide)
  have flat := dynamic_refines_flat oneBlock_dynamic.opens rfl oneBlock_proper run
  obtain ⟨b, was, read, -, bytes⟩ := flat.1 0 (by decide)
  exact ⟨_, b, run, read, fun i less => (bytes i less).1⟩

theorem footerLost_separate {len : Nat} (long : len = 3583 ∨ len = 3584) :
    Separate (built (footerLost len) (foundAtStart (footerLost len))) ∧
      ∀ k, (built (footerLost len) (foundAtStart (footerLost len))).Allocated k → k = 0 := by
  have only (k : Nat) (taken : (built (footerLost len) (foundAtStart (footerLost len))).Allocated k) :
      k = 0 := by
    have one : (built (footerLost len) (foundAtStart (footerLost len))).entries = 1 := by
      rcases long with rfl | rfl <;> decide
    have less := taken.1
    omega
  refine ⟨⟨?_, ?_, ?_, ?_⟩, only⟩
  · intro j k jTaken kTaken other
    exact absurd ((only j jTaken).trans (only k kTaken).symm) other
  · intro k taken
    rw [only k taken]
    right
    rcases long with rfl | rfl <;> decide
  · intro k taken
    rw [only k taken]
    right
    rcases long with rfl | rfl <;> decide
  · intro k taken
    rw [only k taken]
    right
    rcases long with rfl | rfl <;> decide

theorem tableInHeader_refused : ∃ f d puts y, quuxDiskOpen true f = .ok d ∧
    d.format = .dynamicVhd ∧ Separate d ∧ Writes ⟨f, d⟩ puts y ∧
    (quuxDiskOpen true y.file).isOk = false := by
  have free := none_allocated (built tableInHeader (foundAtEnd tableInHeader))
    (by decide) (by decide)
  have run := Writes.one ⟨tableInHeader, built tableInHeader (foundAtEnd tableInHeader)⟩ allDone
    ⟨0, fun _ => 7⟩ (by decide)
  exact ⟨_, _, _, _, tableInHeader_dynamic.opens, rfl, Separate.of_none free, run,
    by decide +kernel⟩

theorem footerLost_refused : ∃ f d puts y, quuxDiskOpen true f = .ok d ∧ d.format = .dynamicVhd ∧
    Proper f d ∧ Writes ⟨f, d⟩ puts y ∧ (quuxDiskOpen true y.file).isOk = false := by
  obtain ⟨separate, only⟩ := footerLost_separate (Or.inr rfl : 3584 = 3583 ∨ 3584 = 3584)
  have run := Writes.one
    ⟨footerLost 3584, built (footerLost 3584) (foundAtStart (footerLost 3584))⟩ allDone
    ⟨0, fun i => conectix.getD (i - 512) 0⟩ (by decide)
  refine ⟨_, _, _, _, (footerLost_dynamic (Or.inr rfl)).opens, rfl, ⟨separate, ?_,
    Or.inr (by decide), Or.inr (by decide)⟩, run, ?_⟩
  · intro k taken
    rw [only k taken]
    decide
  · decide +kernel

/-- Blocks that lie apart are not enough: an entry written into a table in the header breaks the
header; a block may run past the end of a file that is not whole sectors and does not read; and data
in the last sector of a file opened by its copy may spell a footer's cookie. -/
theorem dynamic_not_flat :
    (∃ f d puts y, quuxDiskOpen true f = .ok d ∧ d.format = .dynamicVhd ∧ Separate d ∧
      Writes ⟨f, d⟩ puts y ∧ (quuxDiskOpen true y.file).isOk = false) ∧
    (∃ f d, quuxDiskOpen true f = .ok d ∧ d.format = .dynamicVhd ∧ Separate d ∧
      Apart d.tableOffset (4 * d.entries) 0 512 ∧
      Apart d.tableOffset (4 * d.entries) (headerOffset d.footer) 1024 ∧
      0 < d.blocks ∧ (quuxDiskRead f d 0).isOk = false) ∧
    ∃ f d puts y, quuxDiskOpen true f = .ok d ∧ d.format = .dynamicVhd ∧ Proper f d ∧
      Writes ⟨f, d⟩ puts y ∧ (quuxDiskOpen true y.file).isOk = false := by
  refine ⟨tableInHeader_refused, ?_, footerLost_refused⟩
  have separate := (footerLost_separate (Or.inl rfl : 3583 = 3583 ∨ 3583 = 3584)).1
  exact ⟨_, _, (footerLost_dynamic (Or.inl rfl)).opens, rfl, separate, Or.inr (by decide),
    Or.inr (by decide), by decide, by decide⟩

end MuirFpga.Packs.QuuxDisk
