import MuirFpga.Packs.DiskReopen

/-!
# What a disk's writes make of its format

A raw file and a fixed VHD are written where the machine's blocks lie, and the format is told by the
first and the last sector. What must hold of the file the writes leave for it to be opened as the
same disk, for each of the three formats.
-/

namespace MuirFpga.Packs.QuuxDisk

open Files

variable {f : Image} {d : Disk} {v : Found} {x y : Side}

theorem straight_write (format : x.disk.format ≠ .dynamicVhd)
    (room : 1024 * x.disk.blocks ≤ x.file.len) {o : Nat → Outcome} {p : Put}
    (done : quuxDiskWrite o p.block p.data x = (y, none)) :
    y.disk = x.disk ∧ y.file.len = x.file.len ∧
      ∀ q, q < x.file.len → y.file.byte q = p.over x.file.byte q := by
  have less := block_of_write done
  unfold quuxDiskWrite at done
  rw [if_neg (by omega), if_pos format] at done
  injection done with side result
  split_ifs at result with short
  have whole : min 1024 (o 0).sector = 1024 := by omega
  unfold writeAt at side
  rw [whole] at side
  subst side
  refine ⟨rfl, Image.len_land_inside (by omega), ?_⟩
  intro q inside
  unfold Put.over
  by_cases here : 1024 * p.block ≤ q ∧ q < 1024 * p.block + 1024
  · rw [if_pos here]
    exact Image.byte_land here.1 here.2
  · rw [if_neg here]
    exact Image.byte_land_beside inside (by omega)

theorem straight_writes (format : x.disk.format ≠ .dynamicVhd)
    (room : 1024 * x.disk.blocks ≤ x.file.len) {puts : List Put} (run : Writes x puts y) :
    y.disk = x.disk ∧ y.file.len = x.file.len ∧
      (∀ q, q < x.file.len → y.file.byte q = flat puts x.file.byte q) ∧
      ∀ q, 1024 * x.disk.blocks ≤ q → q < x.file.len → y.file.byte q = x.file.byte q := by
  induction run with
  | nil x => exact ⟨rfl, rfl, fun _ _ => rfl, fun _ _ _ => rfl⟩
  | @cons x m y p rest o done more ih =>
    have less := block_of_write done
    obtain ⟨disk, len, bytes⟩ := straight_write format room done
    obtain ⟨disk', len', bytes', past⟩ := ih (disk ▸ format) (by rw [disk, len]; exact room)
    refine ⟨disk'.trans disk, len'.trans len, ?_, ?_⟩
    · intro q inside
      rw [bytes' q (by omega)]
      exact flat_congr (bytes q inside)
    · intro q after inside
      rw [past q (by rw [disk]; exact after) (by omega), bytes q inside]
      unfold Put.over
      exact if_neg (by omega)

theorem straight_read {m : Nat} (format : d.format ≠ .dynamicVhd) (less : m < d.blocks)
    (room : 1024 * d.blocks ≤ f.len) : quuxDiskRead f d m = .ok (shift f.byte (1024 * m)) := by
  unfold quuxDiskRead
  rw [if_neg (by omega), if_pos format, if_neg (by omega)]

theorem opens_of_probe (probe : quuxDiskProbe f = .ok d) (format : d.format ≠ .dynamicVhd)
    (memory : Bool) : quuxDiskOpen memory f = .ok d := by
  unfold quuxDiskOpen
  rw [probe]
  exact if_pos format

theorem probe_of_opens {memory : Bool} (opened : quuxDiskOpen memory f = .ok d)
    (format : d.format ≠ .dynamicVhd) : quuxDiskProbe f = .ok d := by
  unfold quuxDiskOpen at opened
  cases probe : quuxDiskProbe f with
  | error why => simp [probe] at opened
  | ok p =>
    rw [probe] at opened
    dsimp only at opened
    split_ifs at opened with other starved short
    · exact congrArg Except.ok (by injection opened)
    · cases run : (List.range p.entries).find? fun k => p.runsPast (entryAt f p.tableOffset k) with
      | some k => simp [run] at opened
      | none =>
        simp only [run, Except.ok.injEq] at opened
        rw [← opened] at format
        exact absurd format other

/-- The file writes leave is told as the disk it was: a raw file does not come to begin or end as a
VHD does, a fixed VHD does not come to begin as a VHDX, and a dynamic VHD has its parts apart and no
data that spells a footer at its end. -/
def ToldAs (f : Image) (d : Disk) (g : Image) : Prop :=
  match d.format with
  | .raw => spells vhdxfile (first g) = false ∧
      (512 ≤ g.len → spells conectix (last g) = false) ∧
      (spells conectix (first g) = true → ∀ i, i < 512 → g.byte i = f.byte i)
  | .fixedVhd => spells vhdxfile (first g) = false
  | .dynamicVhd => Proper f d ∧
      (g.len = f.len → footer (last f) = .none → spells conectix (last g) = false)

theorem footer_none {b : Nat → Byte} (plain : spells conectix b = false) : footer b = .none := by
  unfold footer
  rw [if_neg (by simp [plain])]

theorem footers_raw (none : footers f = .ok none) (long : 512 ≤ f.len) :
    footer (last f) = .none ∧ ∀ type size, footer (first f) = .found type size → type ≠ 3 := by
  unfold footers at none
  rw [if_neg (by omega)] at none
  cases atEnd : footer (last f) with
  | bad want got => simp [atEnd] at none
  | found type size => simp [atEnd] at none
  | none =>
    refine ⟨rfl, ?_⟩
    intro type size found dynamic
    simp [atEnd, found, dynamic] at none

theorem footers_raw_kept {g : Image} (none : footers f = .ok none) (len : g.len = f.len)
    (atEnd : 512 ≤ g.len → spells conectix (last g) = false)
    (start : spells conectix (first g) = true → ∀ i, i < 512 → g.byte i = f.byte i) :
    footers g = .ok Option.none := by
  by_cases short : g.len < 512
  · unfold footers
    exact if_pos short
  have raw := footers_raw none (by omega)
  cases begins : spells conectix (first g) with
  | false =>
    unfold footers
    rw [if_neg short, footer_none (atEnd (by omega)), footer_none begins]
  | true =>
    have same : footer (first g) = footer (first f) := by
      apply footer_congr
      intro i less
      unfold first
      rw [if_pos (by omega), if_pos (by omega)]
      exact start begins i less
    unfold footers at none ⊢
    rw [if_neg short, footer_none (atEnd (by omega)), same]
    rw [if_neg (by omega), raw.1] at none
    cases copy : footer (first f) with
    | bad want got => simp [copy] at none
    | none => rfl
    | found type size => exact if_neg (raw.2 type size copy)

theorem raw_reopens {g : Image} (probe : quuxDiskProbe f = .ok d) (raw : d.format = .raw)
    (len : g.len = f.len) (told : ToldAs f d g) : quuxDiskProbe g = .ok d := by
  unfold ToldAs at told
  rw [raw] at told
  obtain ⟨plain, atEnd, start⟩ := told
  obtain ⟨-, ⟨none, shaped⟩ | ⟨v, -, -, -, fixed⟩ | ⟨v, -, -, -, -, same⟩⟩ := probe_cases probe
  · have again : shape g Option.none = .ok d := by
      unfold shape
      rw [len]
      exact shaped
    unfold quuxDiskProbe
    rw [if_neg (by simp [plain]), footers_raw_kept none len atEnd start]
    dsimp only
    rw [again]
    exact if_neg (by simp [raw])
  · rw [(sized_eq fixed).2] at raw
    exact absurd raw (by simp)
  · rw [same] at raw
    exact absurd raw (by simp [built])

theorem raw_room (probe : quuxDiskProbe f = .ok d) (raw : d.format = .raw) :
    1024 * d.blocks ≤ f.len := by
  obtain ⟨-, ⟨-, shaped⟩ | ⟨v, -, -, -, shaped⟩ | ⟨v, -, -, -, -, same⟩⟩ := probe_cases probe
  · rw [(sized_eq shaped).2]
    change 1024 * (f.len / 1024) ≤ f.len
    omega
  · rw [(sized_eq shaped).2] at raw
    exact absurd raw (by simp)
  · rw [same] at raw
    exact absurd raw (by simp [built])

theorem fixed_parts (probe : quuxDiskProbe f = .ok d) (fixed : d.format = .fixedVhd) :
    512 ≤ f.len ∧ 1024 * d.blocks ≤ f.len - 512 ∧ d.size ≤ f.len - 512 ∧
      d.size / 1024 ≤ maxBlocks ∧ d.blocks = d.size / 1024 ∧
      footer (last f) = .found 2 d.size := by
  obtain ⟨-, ⟨-, shaped⟩ | ⟨v, found, type, short, shaped⟩ | ⟨v, -, -, -, -, same⟩⟩ :=
    probe_cases probe
  · rw [(sized_eq shaped).2] at fixed
    exact absurd fixed (by simp)
  · obtain ⟨few, rfl⟩ := sized_eq shaped
    obtain ⟨long, finish, -, origin⟩ := footers_found found
    rcases origin with ⟨there, -⟩ | ⟨-, dynamic, -⟩
    · unfold dataEnd at finish
      rw [there, if_neg (by simp)] at finish
      rw [type] at there
      refine ⟨long, ?_, ?_, few, rfl, there⟩
      · change 1024 * (v.size / 1024) ≤ _
        omega
      · change v.size ≤ _
        omega
    · rw [type] at dynamic
      exact absurd dynamic (by simp)
  · rw [same] at fixed
    exact absurd fixed (by simp [built])

theorem fixed_reopens {g : Image} (probe : quuxDiskProbe f = .ok d) (fixed : d.format = .fixedVhd)
    (len : g.len = f.len) (past : ∀ q, 1024 * d.blocks ≤ q → q < f.len → g.byte q = f.byte q)
    (told : ToldAs f d g) :
    ∃ d', quuxDiskProbe g = .ok d' ∧ d'.format = .fixedVhd ∧ d'.size = d.size ∧
      d'.blocks = d.blocks := by
  unfold ToldAs at told
  rw [fixed] at told
  obtain ⟨long, before, inside, few, blocks, there⟩ := fixed_parts probe fixed
  have same (i : Nat) (less : i < 512) : last g i = last f i := by
    unfold last shift
    rw [len]
    exact past _ (by omega) (by omega)
  refine ⟨⟨.fixedVhd, d.size, d.size / 1024, fun _ => 0, 0, 0, 0, 0, g.len - 512, last g⟩, ?_, rfl, rfl,
    blocks.symm⟩
  unfold quuxDiskProbe
  rw [if_neg (by simp [told]), footers_end (by omega) same there]
  unfold shape sized
  dsimp only
  rw [if_pos rfl, if_neg (by omega), if_neg (by omega)]
  exact if_neg (by simp)

theorem straight_reads {puts : List Put} (format : d.format ≠ .dynamicVhd)
    (room : 1024 * d.blocks ≤ f.len) (run : Writes ⟨f, d⟩ puts y) {d' : Disk}
    (format' : d'.format ≠ .dynamicVhd) (blocks : d'.blocks = d.blocks) {m : Nat}
    (less : m < d.blocks) :
    ∃ b was, quuxDiskRead y.file d' m = .ok b ∧ quuxDiskRead f d m = .ok was ∧
      ∀ i, i < 1024 → b i = match lastPut puts m with
        | some data => data i
        | none => was i := by
  obtain ⟨-, len, bytes, -⟩ := straight_writes (x := ⟨f, d⟩) format room run
  dsimp only at len bytes
  refine ⟨_, _, straight_read format' (by omega) (by rw [blocks, len]; exact room),
    straight_read format less room, ?_⟩
  intro i inside
  have place : 1024 * m + i < f.len := by omega
  change y.file.byte (1024 * m + i) = _
  rw [bytes _ place]
  exact flat_eq puts f.byte inside

/-- A disk whose file its writes leave told as it was opens again as the same disk, and every block
reads as last written. -/
theorem reopened_as_written {memory : Bool} (opened : quuxDiskOpen memory f = .ok d)
    {puts : List Put} (run : Writes ⟨f, d⟩ puts y) (told : ToldAs f d y.file) :
    ∃ d', quuxDiskOpen true y.file = .ok d' ∧ d'.format = d.format ∧ d'.size = d.size ∧
      d'.blocks = d.blocks ∧ ∀ m, m < d.blocks → ∃ b was, quuxDiskRead y.file d' m = .ok b ∧
        quuxDiskRead f d m = .ok was ∧ ∀ i, i < 1024 → b i = match lastPut puts m with
          | some data => data i
          | none => was i := by
  cases format : d.format with
  | raw =>
    have other : d.format ≠ .dynamicVhd := by simp [format]
    have probe := probe_of_opens opened other
    have len : ∀ room : 1024 * d.blocks ≤ f.len, y.file.len = f.len := fun room =>
      (straight_writes (x := ⟨f, d⟩) other room run).2.1
    have room := raw_room probe format
    have again := raw_reopens probe format (len room) told
    exact ⟨d, opens_of_probe again other true, format, rfl, rfl, fun m less =>
      straight_reads other room run other rfl less⟩
  | fixedVhd =>
    have other : d.format ≠ .dynamicVhd := by simp [format]
    have probe := probe_of_opens opened other
    obtain ⟨-, before, -⟩ := fixed_parts probe format
    have room : 1024 * d.blocks ≤ f.len := by omega
    obtain ⟨-, len, -, past⟩ := straight_writes (x := ⟨f, d⟩) other room run
    obtain ⟨d', again, format', size, blocks⟩ := fixed_reopens probe format len past told
    have other' : d'.format ≠ .dynamicVhd := by simp [format']
    exact ⟨d', opens_of_probe again other' true, format', size, blocks, fun m less =>
      straight_reads other room run other' blocks less⟩
  | dynamicVhd =>
    unfold ToldAs at told
    rw [format] at told
    obtain ⟨proper, tail⟩ := told
    obtain ⟨v, dynamic, rfl⟩ := dynamic_of opened format
    have start := dynamic.kept proper
    obtain ⟨kept, bytes⟩ := start.writes dynamic proper run
    obtain ⟨d', again, same, laid, peeks⟩ := kept.reopens dynamic tail
    have alike := kept.alike.trans same
    have span : y.disk.span = (built f v).span := by
      unfold Disk.span
      rw [kept.alike.entries, kept.alike.blockBytes]
    have reach : 1024 * (built f v).blocks ≤ (built f v).span := start.laid.reach
    refine ⟨d', again, alike.format, alike.size, alike.blocks, ?_⟩
    intro m less
    obtain ⟨b, read, now⟩ := laid.read (show m < d'.blocks by rw [alike.blocks]; exact less)
    obtain ⟨was, readWas, before⟩ := start.laid.read (show m < (built f v).blocks from less)
    refine ⟨b, was, read, readWas, ?_⟩
    intro i inside
    have place : 1024 * m + i < (built f v).span := by omega
    rw [now i inside, peeks _ (by rw [span]; exact place), bytes _ place, flat_eq puts _ inside]
    cases lastPut puts m with
    | some data => rfl
    | none => exact (before i inside).symm

/-- A raw file of two blocks, and its disk. -/
def rawZeros : Image := ⟨2048, fun _ => 0⟩
def rawDisk : Disk := ⟨.raw, 2048, 2, fun _ => 0, 0, 0, 0, 0, 0, fun _ => 0⟩

/-- The footer of a fixed VHD of one block. -/
def fixedFooter (i : Nat) : Byte :=
  if i < 8 then conectix.getD i 0
  else if i = 54 then 4
  else if i = 63 then 2
  else if i = 64 ∨ i = 65 then 0xFF
  else if i = 66 then 0xFC
  else if i = 67 then 0x9C
  else 0

/-- A fixed VHD of one block, and its disk. -/
def fixedOne : Image := ⟨1536, fun i => if i < 1024 then 0 else fixedFooter (i - 1024)⟩
def fixedDisk : Disk := ⟨.fixedVhd, 1024, 1, fun _ => 0, 0, 0, 0, 0, 1024, last fixedOne⟩

theorem rawZeros_opens : quuxDiskOpen true rawZeros = .ok rawDisk := by
  have none : footers rawZeros = .ok none := by
    unfold footers
    rw [if_neg (by decide), footer_none (by decide), footer_none (by decide)]
  apply opens_of_probe _ (by decide)
  unfold quuxDiskProbe
  rw [if_neg (by decide), none]
  rfl

theorem fixedOne_opens : quuxDiskOpen true fixedOne = .ok fixedDisk := by
  have found : footer (last fixedOne) = .found 2 1024 := by decide +kernel
  apply opens_of_probe _ (by decide)
  unfold quuxDiskProbe
  rw [if_neg (by decide), footers_end (by decide) (fun _ _ => rfl) found]
  unfold shape sized
  dsimp only
  rw [if_pos rfl, if_neg (by decide), if_neg (by decide)]
  exact if_neg (by simp)

/-- A block of sevens written to a disk is there when its file is opened again. -/
inductive Reopens (f : Image) (d : Disk) : Prop
  | again {y : Side} {d' : Disk} {b : Nat → Byte} (run : Writes ⟨f, d⟩ [⟨0, fun _ => 7⟩] y)
    (opened : quuxDiskOpen true y.file = .ok d') (format : d'.format = d.format)
    (read : quuxDiskRead y.file d' 0 = .ok b) (sevens : ∀ i, i < 1024 → b i = 7)

/-- A raw file, a fixed VHD and a dynamic one, whose block the write allocates. -/
theorem reopened_each : Reopens rawZeros rawDisk ∧ Reopens fixedOne fixedDisk ∧
    Reopens oneBlock (built oneBlock (foundAtEnd oneBlock)) := by
  have each {f : Image} {d : Disk} (opened : quuxDiskOpen true f = .ok d) (some_ : 0 < d.blocks)
      (done : (quuxDiskWrite allDone 0 (fun _ => 7) ⟨f, d⟩).2 = none)
      (told : ToldAs f d (quuxDiskWrite allDone 0 (fun _ => 7) ⟨f, d⟩).1.file) : Reopens f d := by
    have run := Writes.one ⟨f, d⟩ allDone ⟨0, fun _ => 7⟩ done
    obtain ⟨d', again, format, -, -, reads⟩ := reopened_as_written opened run told
    obtain ⟨b, _, read, _, bytes⟩ := reads 0 some_
    exact .again run again format read bytes
  refine ⟨each rawZeros_opens (by decide) (by decide) ⟨by decide, fun _ => by decide, ?_⟩,
    each fixedOne_opens (by decide) (by decide) (show spells vhdxfile (first _) = false by decide),
    each oneBlock_dynamic.opens (by decide) (by decide) ⟨oneBlock_proper, fun _ none => ?_⟩⟩
  · exact fun spelled => absurd spelled (by decide)
  · exact absurd none (by decide +kernel)

/-- Data can make a raw file a fixed VHD, or a file no disk at all: by its last sector, by its first,
and in a fixed VHD by the first; and a dynamic VHD may have its table in its header. -/
theorem written_not_told :
    (∃ f d puts y, quuxDiskOpen true f = .ok d ∧ d.format = .raw ∧ Writes ⟨f, d⟩ puts y ∧
      (quuxDiskOpen true y.file).toOption.map Disk.format = some .fixedVhd) ∧
    (∃ f d puts y, quuxDiskOpen true f = .ok d ∧ d.format = .raw ∧ Writes ⟨f, d⟩ puts y ∧
      spells conectix (first y.file) = true ∧ (quuxDiskOpen true y.file).isOk = false) ∧
    (∃ f d puts y, quuxDiskOpen true f = .ok d ∧ d.format = .fixedVhd ∧ Writes ⟨f, d⟩ puts y ∧
      spells vhdxfile (first y.file) = true ∧ (quuxDiskOpen true y.file).isOk = false) ∧
    ∃ f d puts y, quuxDiskOpen true f = .ok d ∧ d.format = .dynamicVhd ∧ Separate d ∧
      Writes ⟨f, d⟩ puts y ∧ (quuxDiskOpen true y.file).isOk = false := by
  refine ⟨?_, ?_, ?_, tableInHeader_refused⟩
  · exact ⟨_, _, _, _, rawZeros_opens, rfl, Writes.one _ allDone
      ⟨1, fun i => fixedFooter (i - 512)⟩ (by decide), by decide +kernel⟩
  · exact ⟨_, _, _, _, rawZeros_opens, rfl, Writes.one _ allDone
      ⟨0, fun i => conectix.getD i 0⟩ (by decide), by decide +kernel, by decide +kernel⟩
  · exact ⟨_, _, _, _, fixedOne_opens, rfl, Writes.one _ allDone
      ⟨0, fun i => vhdxfile.getD i 0⟩ (by decide), by decide, by decide⟩

end MuirFpga.Packs.QuuxDisk
