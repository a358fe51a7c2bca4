import MuirFpga.Packs.DiskFormats
import MuirFpga.Packs.Feeder
import MuirFpga.Sync.Keyed

/-!
# The pack file

`pack_file.c`: a T-80's or a T-300's pack as its file of 1,024-byte blocks and the two tables
beside it, and QUUX's disk through its format. A record is a block's 256 words, its header, the
header's checkword and the data's. A read of bytes the file has comes back; a write-back's file
operations and its memory come out as its outcome says. What became of a block's record is said of
every run of successful calls.
-/

namespace MuirFpga.Packs.PackFile

open Files QuuxDisk Sync

/-- `PACK_T80` and `PACK_T300`. -/
def packT80 : Geometry := ⟨815, 5, 17⟩
def packT300 : Geometry := ⟨815, 19, 17⟩

/-- `pack_size_of`. -/
def packSizeOf (g : Geometry) : Nat := g.cylinders * g.heads * g.blocksPerTrack * 1024

/-- `pack_geometry_of_size`. -/
def packGeometryOfSize (bytes : Nat) : Option Geometry :=
  if bytes = packSizeOf packT300 then some packT300
  else if bytes = packSizeOf packT80 then some packT80
  else none

/-- `struct pack_header_entry`. -/
structure HeaderEntry where
  lba : Nat
  word : BitVec 32
  checkword : BitVec 32

/-- `struct pack_dck_entry`. -/
structure DckEntry where
  lba : Nat
  checkword : BitVec 32

/-- `struct pack`, with the file its descriptor is on. -/
structure Opened where
  quux : Bool
  writable : Bool
  g : Geometry
  blocks : Nat
  headers : List HeaderEntry
  dcks : List DckEntry
  q : Disk
  file : Image

/-- Why a pack is not opened, or a record not read or written. -/
inductive Refusal
  | size (bytes : Nat)
  | disk (why : QuuxDisk.Refusal)
  | off (lba blocks : Nat)
  | readOnly
  | reading (lba : Nat)
  | writing (lba : Nat)
  | headerMemory
  | dckMemory
  | after (lba : Nat)
  | syncing (quux : Bool)

/-- The console's words for a refusal, without the file's name before a colon or the system's own
after one. -/
def Refusal.text : Refusal → String
  | size bytes => toString bytes ++ " bytes, which is neither a T-300 (" ++
      toString (packSizeOf packT300) ++ ") nor a T-80 (" ++ toString (packSizeOf packT80) ++ ")"
  | disk why => why.text
  | off lba blocks => "block " ++ toString lba ++ " is off a pack of " ++ toString blocks
  | readOnly => "the pack is open read-only"
  | reading lba => "reading block " ++ toString lba ++ " of the pack"
  | writing lba => "writing block " ++ toString lba ++ " of the pack"
  | headerMemory => "out of memory for the header table"
  | dckMemory => "out of memory for the checkword table"
  | after lba => "the disk after block " ++ toString lba
  | syncing quux => if quux then "syncing the disk" else "syncing the pack"

/-- The disk of a pack that is none of QUUX's. -/
def noDisk : Disk := ⟨.raw, 0, 0, fun _ => 0, 0, 0, 0, 0, 0, fun _ => 0⟩

/-- `pack_open`. -/
def packOpen (writable : Bool) (f : Image) : Except Refusal Opened :=
  match packGeometryOfSize f.len with
  | none => .error (.size f.len)
  | some g =>
    .ok
      { quux := false, writable := writable, g := g,
        blocks := g.cylinders * g.heads * g.blocksPerTrack, headers := [], dcks := [],
        q := noDisk, file := f }

/-- `pack_open_quux`. -/
def packOpenQuux (memory writable : Bool) (f : Image) : Except Refusal Opened :=
  match quuxDiskOpen memory f with
  | .error why => .error (.disk why)
  | .ok d =>
    .ok
      { quux := true, writable := writable, g := ⟨0, 0, 0⟩, blocks := d.blocks, headers := [],
        dcks := [], q := d, file := f }

/-- `pack_chb`. -/
def packChb (g : Geometry) (lba : Nat) : Nat × Nat × Nat :=
  let perCyl := g.heads * g.blocksPerTrack
  (lba / perCyl, lba % perCyl / g.blocksPerTrack, lba % g.blocksPerTrack)

/-- `next_block_code`. -/
def nextBlockCode (g : Geometry) (c h b : Nat) : BitVec 32 :=
  if b + 1 < g.blocksPerTrack then 0#32
  else if h + 1 < g.heads then 1#32
  else if c + 1 < g.cylinders then 2#32
  else 3#32

/-- `pack_header_of`. -/
def packHeaderOf (g : Geometry) (c h b : Nat) : BitVec 32 :=
  nextBlockCode g c h b <<< 30 ||| (BitVec.ofNat 32 c &&& 0xFFF#32) <<< 16 |||
    (BitVec.ofNat 32 h &&& 0xFF#32) <<< 8 ||| (BitVec.ofNat 32 b &&& 0xFF#32)

/-- `ecc_shift`. -/
def eccShift (r : BitVec 32) (data : Bool) : BitVec 32 :=
  let input := data ^^ r.getLsbD 0
  if input then r >>> 1 ^^^ 0xA0100500#32 else r >>> 1

/-- `ecc_over_words`. -/
def eccOverWords (words : List (BitVec 32)) : BitVec 32 :=
  words.foldl (fun r w => (List.range 32).foldl (fun r k => eccShift r (w.getLsbD k)) r) 0#32

/-- A word of a block's bytes, low byte first. -/
def wordOf (bytes : Nat → Byte) (i : Nat) : BitVec 32 :=
  (bytes (4 * i)).setWidth 32 ||| (bytes (4 * i + 1)).setWidth 32 <<< 8 |||
    (bytes (4 * i + 2)).setWidth 32 <<< 16 ||| (bytes (4 * i + 3)).setWidth 32 <<< 24

/-- The bytes of a record's 256 words. -/
def bytesOf (words : Record) (j : Nat) : Byte :=
  if less : j / 4 < 259 then (words ⟨j / 4, less⟩ >>> (8 * (j % 4))).setWidth 8 else 0

/-- The 256 words of a record. -/
def dataOf (words : Record) : List (BitVec 32) :=
  (List.finRange 256).map fun i => words ⟨i.val, by omega⟩

/-- A record from its data and the three words after them. -/
def recordOf (data : Nat → BitVec 32) (header checkword dck : BitVec 32) : Record := fun i =>
  if i.val < 256 then data i.val else if i.val = 256 then header
  else if i.val = 257 then checkword else dck

/-- The format's own header of a block, and the checkword over it. -/
def ownHeader (g : Geometry) (lba : Nat) : BitVec 32 × BitVec 32 :=
  let (c, h, b) := packChb g lba
  (packHeaderOf g c h b, eccOverWords [packHeaderOf g c h b])

/-- `header_find`, `dck_find`. -/
def headerFind (p : Opened) (lba : Nat) : Option HeaderEntry :=
  Table.find HeaderEntry.lba p.headers lba
def dckFind (p : Opened) (lba : Nat) : Option DckEntry := Table.find DckEntry.lba p.dcks lba

/-- `pack_record`. -/
def packRecord (p : Opened) (lba : Nat) : Except Refusal Record :=
  if p.blocks ≤ lba then .error (.off lba p.blocks)
  else if p.quux then
    match quuxDiskRead p.file p.q lba with
    | .error why => .error (.disk why)
    | .ok bytes => .ok (recordOf (wordOf bytes) 0#32 0#32 0#32)
  else if p.file.len < 1024 * lba + 1024 then .error (.reading lba)
  else
    let data := wordOf (shift p.file.byte (1024 * lba))
    let header := match headerFind p lba with
      | some e => (e.word, e.checkword)
      | none => ownHeader p.g lba
    let dck := match dckFind p lba with
      | some e => e.checkword
      | none => eccOverWords ((List.range 256).map data)
    .ok (recordOf data header.1 header.2 dck)

/-- How a write-back's operations come out: those of QUUX's disk, the bytes its write lands, the
memory for each table to grow, and the look at the file and the sync after it. -/
structure Comes where
  disk : Nat → QuuxDisk.Outcome
  landed : Nat
  headerMemory : Bool
  dckMemory : Bool
  looked : Bool
  synced : Bool

/-- The header into its table, unless it is the format's own. -/
def putHeader (o : Comes) (lba : Nat) (words : Record) (p : Opened) : Opened × Option Refusal :=
  let own := ownHeader p.g lba
  if words 256 = own.1 ∧ words 257 = own.2 then
    ({ p with headers := Table.remove HeaderEntry.lba p.headers lba }, none)
  else if (headerFind p lba).isNone && !o.headerMemory then (p, some .headerMemory)
  else
    ({ p with headers := Table.insert HeaderEntry.lba p.headers ⟨lba, words 256, words 257⟩ }, none)

/-- The data's checkword into its table, unless it is the one over the data. -/
def putDck (o : Comes) (lba : Nat) (words : Record) (p : Opened) : Opened × Option Refusal :=
  if words 258 = eccOverWords (dataOf words) then
    ({ p with dcks := Table.remove DckEntry.lba p.dcks lba }, none)
  else if (dckFind p lba).isNone && !o.dckMemory then (p, some .dckMemory)
  else ({ p with dcks := Table.insert DckEntry.lba p.dcks ⟨lba, words 258⟩ }, none)

/-- A block into QUUX's disk. -/
def writebackQuux (o : Comes) (lba : Nat) (words : Record) (p : Opened) : Opened × Option Refusal :=
  match quuxDiskWrite o.disk lba (bytesOf words) ⟨p.file, p.q⟩ with
  | (side, some why) => ({ p with file := side.file, q := side.disk }, some (.disk why))
  | (side, none) =>
    ({ p with file := side.file, q := side.disk },
      if !o.looked then some (.after lba) else if !o.synced then some (.syncing true) else none)

/-- A block into a pack. -/
def writebackPack (o : Comes) (lba : Nat) (words : Record) (p : Opened) : Opened × Option Refusal :=
  let p := { p with file := writeAt (1024 * lba) 1024 (bytesOf words) o.landed p.file }
  if o.landed < 1024 then (p, some (.writing lba))
  else
    match putHeader o lba words p with
    | (p, some why) => (p, some why)
    | (p, none) =>
      match putDck o lba words p with
      | (p, some why) => (p, some why)
      | (p, none) => (p, if !o.synced then some (.syncing false) else none)

/-- `pack_writeback`. -/
def packWriteback (o : Comes) (lba : Nat) (words : Record) (p : Opened) : Opened × Option Refusal :=
  if p.blocks ≤ lba then (p, some (.off lba p.blocks))
  else if !p.writable then (p, some .readOnly)
  else if p.quux then writebackQuux o lba words p
  else writebackPack o lba words p

theorem word_bytes (w : BitVec 32) :
    ((w >>> 0).setWidth 8).setWidth 32 ||| ((w >>> 8).setWidth 8).setWidth 32 <<< 8 |||
      ((w >>> 16).setWidth 8).setWidth 32 <<< 16 ||| ((w >>> 24).setWidth 8).setWidth 32 <<< 24 =
        w := by
  apply BitVec.eq_of_getLsbD_eq
  intro k inside
  -- A bit comes of the byte it is in, and of no other.
  have own (off : Nat) (after : off ≤ k) : off + (k - off) = k := by omega
  simp only [BitVec.getLsbD_or, BitVec.getLsbD_shiftLeft, BitVec.getLsbD_setWidth,
    BitVec.getLsbD_ushiftRight, inside, Nat.zero_add, decide_true, Bool.true_and,
    show k - 8 < 32 by omega, show k - 16 < 32 by omega, show k - 24 < 32 by omega]
  have lane : k < 8 ∨ (8 ≤ k ∧ k < 16) ∨ (16 ≤ k ∧ k < 24) ∨ 24 ≤ k := by omega
  obtain low | ⟨after, before⟩ | ⟨after, before⟩ | after := lane
  · simp [low, show k < 16 by omega, show k < 24 by omega]
  · simp [show ¬ k < 8 by omega, before, show k - 8 < 8 by omega, show k < 24 by omega, own 8 after]
  · simp [show ¬ k < 8 by omega, show ¬ k < 16 by omega, before, show ¬ k - 8 < 8 by omega,
      show k - 16 < 8 by omega, own 16 after]
  · simp [show ¬ k < 8 by omega, show ¬ k < 16 by omega, show ¬ k < 24 by omega,
      show ¬ k - 8 < 8 by omega, show ¬ k - 16 < 8 by omega, show k - 24 < 8 by omega, own 24 after]

theorem wordOf_bytesOf (words : Record) {i : Nat} (less : i < 256) :
    wordOf (bytesOf words) i = words ⟨i, by omega⟩ := by
  have byte (k : Nat) (small : k < 4) :
      bytesOf words (4 * i + k) = (words ⟨i, by omega⟩ >>> (8 * k)).setWidth 8 := by
    have place : (4 * i + k) / 4 = i := by omega
    have lane : (4 * i + k) % 4 = k := by omega
    unfold bytesOf
    simp only [place, lane]
    exact dif_pos (by omega)
  unfold wordOf
  rw [show bytesOf words (4 * i) = _ from byte 0 (by omega), byte 1 (by omega), byte 2 (by omega),
    byte 3 (by omega)]
  exact word_bytes _

theorem wordOf_congr {b b' : Nat → Byte} (same : ∀ j, j < 1024 → b j = b' j) {i : Nat}
    (less : i < 256) : wordOf b i = wordOf b' i := by
  unfold wordOf
  rw [same (4 * i) (by omega), same (4 * i + 1) (by omega), same (4 * i + 2) (by omega),
    same (4 * i + 3) (by omega)]

theorem recordOf_congr {data data' : Nat → BitVec 32} (same : ∀ i, i < 256 → data i = data' i)
    (header checkword dck : BitVec 32) :
    recordOf data header checkword dck = recordOf data' header checkword dck := by
  funext i
  unfold recordOf
  split_ifs with less
  · exact same i less
  · rfl
  · rfl
  · rfl

theorem recordOf_data (data : Nat → BitVec 32) (header checkword dck : BitVec 32) {i : Nat}
    (less : i < 256) : recordOf data header checkword dck ⟨i, by omega⟩ = data i := if_pos less

theorem recordOf_self (words : Record) {data : Nat → BitVec 32}
    (laid : ∀ i (less : i < 256), data i = words ⟨i, by omega⟩) :
    recordOf data (words 256) (words 257) (words 258) = words := by
  funext i
  unfold recordOf
  split_ifs with less header checkword
  · exact laid i less
  · exact congrArg words (Fin.ext header.symm)
  · exact congrArg words (Fin.ext checkword.symm)
  · exact congrArg words (Fin.ext (by omega))

theorem data_congr {data data' : Nat → BitVec 32} (same : ∀ i, i < 256 → data i = data' i) :
    (List.range 256).map data = (List.range 256).map data' :=
  List.map_congr_left fun i member => same i (List.mem_range.1 member)

theorem dataOf_eq (words : Record) {data : Nat → BitVec 32}
    (laid : ∀ i (less : i < 256), data i = words ⟨i, by omega⟩) :
    (List.range 256).map data = dataOf words := by
  unfold dataOf
  rw [← List.map_coe_finRange_eq_range, List.map_map]
  exact List.map_congr_left fun i _ => laid i i.isLt

/-- The data of a block, as the file has it. -/
def dataAt (p : Opened) (lba : Nat) : Nat → BitVec 32 := wordOf (shift p.file.byte (1024 * lba))

/-- A pack of the same kind and shape. -/
structure Alike (p z : Opened) : Prop where
  quux : z.quux = p.quux
  g : z.g = p.g
  blocks : z.blocks = p.blocks

/-- What a pack's file and tables keep: the file has every block, no block has two entries in a
table, and an entry is of a block whose words are not those that would be derived. -/
structure Sane (p : Opened) : Prop where
  quux : p.quux = false
  len : 1024 * p.blocks ≤ p.file.len
  headers : Table.Keyed HeaderEntry.lba p.headers
  dcks : Table.Keyed DckEntry.lba p.dcks
  header_apart : ∀ e ∈ p.headers, e.lba < p.blocks ∧ (e.word, e.checkword) ≠ ownHeader p.g e.lba
  dck_apart : ∀ e ∈ p.dcks, e.lba < p.blocks ∧
    e.checkword ≠ eccOverWords ((List.range 256).map (dataAt p e.lba))

section

variable {p z : Opened} {o : Comes} {lba m : Nat} {words : Record}

/-- The header table after a write-back. -/
def headersAfter (p : Opened) (lba : Nat) (words : Record) : List HeaderEntry :=
  if (words 256, words 257) = ownHeader p.g lba then Table.remove HeaderEntry.lba p.headers lba
  else Table.insert HeaderEntry.lba p.headers ⟨lba, words 256, words 257⟩

/-- The checkword table after a write-back. -/
def dcksAfter (p : Opened) (lba : Nat) (words : Record) : List DckEntry :=
  if words 258 = eccOverWords (dataOf words) then Table.remove DckEntry.lba p.dcks lba
  else Table.insert DckEntry.lba p.dcks ⟨lba, words 258⟩

theorem putHeader_done (done : putHeader o lba words p = (z, none)) :
    z = { p with headers := headersAfter p lba words } := by
  unfold putHeader at done
  unfold headersAfter
  have same : (words 256 = (ownHeader p.g lba).1 ∧ words 257 = (ownHeader p.g lba).2) ↔
      (words 256, words 257) = ownHeader p.g lba := by
    rw [Prod.ext_iff]
  simp only [same] at done
  split_ifs at done ⊢ with own full
  · exact (congrArg Prod.fst done).symm
  · exact absurd (congrArg Prod.snd done) (by simp)
  · exact (congrArg Prod.fst done).symm

theorem putDck_done (done : putDck o lba words p = (z, none)) :
    z = { p with dcks := dcksAfter p lba words } := by
  unfold putDck at done
  unfold dcksAfter
  split_ifs at done ⊢ with own full
  · exact (congrArg Prod.fst done).symm
  · exact absurd (congrArg Prod.snd done) (by simp)
  · exact (congrArg Prod.fst done).symm

theorem writebackPack_done (done : writebackPack o lba words p = (z, none)) :
    z = { p with
      file := p.file.land (1024 * lba) 1024 (bytesOf words)
      headers := headersAfter p lba words
      dcks := dcksAfter p lba words } := by
  unfold writebackPack at done
  dsimp only at done
  by_cases short : o.landed < 1024
  · rw [if_pos short] at done
    exact absurd (congrArg Prod.snd done) (by simp)
  · rw [if_neg short] at done
    have whole : min 1024 o.landed = 1024 := by omega
    cases header : putHeader o lba words
        { p with file := writeAt (1024 * lba) 1024 (bytesOf words) o.landed p.file } with
    | mk first why =>
      rw [header] at done
      cases why with
      | some why => exact absurd (congrArg Prod.snd done) (by simp)
      | none =>
        dsimp only at done
        cases dck : putDck o lba words first with
        | mk second why =>
          rw [dck] at done
          cases why with
          | some why => exact absurd (congrArg Prod.snd done) (by simp)
          | none =>
            have last := congrArg Prod.fst done
            dsimp only at last
            rw [← last, putDck_done dck, putHeader_done header]
            unfold writeAt
            rw [whole]
            rfl

theorem dataAt_land (inside : m < p.blocks) (len : 1024 * p.blocks ≤ p.file.len) (other : m ≠ lba)
    {i : Nat} (less : i < 256) :
    dataAt { p with file := p.file.land (1024 * lba) 1024 (bytesOf words) } m i = dataAt p m i := by
  refine wordOf_congr (fun j small => ?_) less
  exact Image.byte_land_beside (by omega) (by omega)

theorem dataAt_land_self {i : Nat} (less : i < 256) :
    dataAt { p with file := p.file.land (1024 * lba) 1024 (bytesOf words) } lba i =
      words ⟨i, by omega⟩ := by
  rw [← wordOf_bytesOf words less]
  refine wordOf_congr (fun j small => ?_) less
  have place : 1024 * lba + j - 1024 * lba = j := by omega
  change (p.file.land (1024 * lba) 1024 (bytesOf words)).byte (1024 * lba + j) = _
  rw [Image.byte_land (by omega) (by omega), place]

theorem find_headersAfter (keyed : Table.Keyed HeaderEntry.lba p.headers) :
    Table.find HeaderEntry.lba (headersAfter p lba words) m =
      if m = lba then
        if (words 256, words 257) = ownHeader p.g lba then none
        else some ⟨lba, words 256, words 257⟩
      else headerFind p m := by
  unfold headersAfter headerFind
  by_cases own : (words 256, words 257) = ownHeader p.g lba
  · simp only [own, if_true]
    exact Table.find_remove keyed m lba
  · simp only [own, if_false]
    exact Table.find_insert keyed ⟨lba, words 256, words 257⟩ m

theorem find_dcksAfter (keyed : Table.Keyed DckEntry.lba p.dcks) :
    Table.find DckEntry.lba (dcksAfter p lba words) m =
      if m = lba then
        if words 258 = eccOverWords (dataOf words) then none else some ⟨lba, words 258⟩
      else dckFind p m := by
  unfold dcksAfter dckFind
  by_cases own : words 258 = eccOverWords (dataOf words)
  · simp only [own, if_true]
    exact Table.find_remove keyed m lba
  · simp only [own, if_false]
    exact Table.find_insert keyed ⟨lba, words 258⟩ m

theorem keyed_headersAfter (keyed : Table.Keyed HeaderEntry.lba p.headers) :
    Table.Keyed HeaderEntry.lba (headersAfter p lba words) := by
  unfold headersAfter
  split_ifs
  · exact keyed.remove lba
  · exact keyed.insert _

theorem keyed_dcksAfter (keyed : Table.Keyed DckEntry.lba p.dcks) :
    Table.Keyed DckEntry.lba (dcksAfter p lba words) := by
  unfold dcksAfter
  split_ifs
  · exact keyed.remove lba
  · exact keyed.insert _

/-- An entry of the header table is the one put there, and then its words are not the format's own,
or another block's. -/
theorem mem_headersAfter (keyed : Table.Keyed HeaderEntry.lba p.headers) {e : HeaderEntry}
    (member : e ∈ headersAfter p lba words) :
    (e = ⟨lba, words 256, words 257⟩ ∧ (words 256, words 257) ≠ ownHeader p.g lba) ∨
      (e ∈ p.headers ∧ e.lba ≠ lba) := by
  unfold headersAfter at member
  split_ifs at member with own
  · exact .inr ((Table.mem_remove keyed).1 member)
  · obtain same | old := (Table.mem_insert keyed).1 member
    · exact .inl ⟨same, own⟩
    · exact .inr old

theorem mem_dcksAfter (keyed : Table.Keyed DckEntry.lba p.dcks) {e : DckEntry}
    (member : e ∈ dcksAfter p lba words) :
    (e = ⟨lba, words 258⟩ ∧ words 258 ≠ eccOverWords (dataOf words)) ∨
      (e ∈ p.dcks ∧ e.lba ≠ lba) := by
  unfold dcksAfter at member
  split_ifs at member with own
  · exact .inr ((Table.mem_remove keyed).1 member)
  · obtain same | old := (Table.mem_insert keyed).1 member
    · exact .inl ⟨same, own⟩
    · exact .inr old

theorem packRecord_pack (quux : p.quux = false) (inside : m < p.blocks)
    (len : 1024 * p.blocks ≤ p.file.len) :
    packRecord p m = .ok (recordOf (dataAt p m)
      (match headerFind p m with
        | some e => (e.word, e.checkword)
        | none => ownHeader p.g m).1
      (match headerFind p m with
        | some e => (e.word, e.checkword)
        | none => ownHeader p.g m).2
      (match dckFind p m with
        | some e => e.checkword
        | none => eccOverWords ((List.range 256).map (dataAt p m)))) := by
  unfold packRecord
  rw [if_neg (by omega), if_neg (by simp [quux]), if_neg (by omega)]
  rfl

/-- A write-back into a pack: its record is the words written, the other records are as they
were, and the tables stay small. -/
theorem Sane.writeback (sane : Sane p) (inside : lba < p.blocks)
    (done : writebackPack o lba words p = (z, none)) :
    Sane z ∧ Alike p z ∧ packRecord z lba = .ok words ∧
      ∀ m, m < p.blocks → m ≠ lba → packRecord z m = packRecord p m := by
  have after := writebackPack_done done
  have dcks : z.dcks = dcksAfter p lba words := by rw [after]
  have own : ∀ i (less : i < 256), dataAt z lba i = words ⟨i, by omega⟩ := by
    intro i less
    rw [after]
    exact dataAt_land_self less
  have other : ∀ m, m < p.blocks → m ≠ lba → ∀ i, i < 256 → dataAt z m i = dataAt p m i := by
    intro m less ne i small
    rw [after]
    exact dataAt_land less sane.len ne small
  have header : ∀ m, headerFind z m = if m = lba then
      if (words 256, words 257) = ownHeader p.g lba then none
      else some ⟨lba, words 256, words 257⟩ else headerFind p m := by
    intro m
    rw [after]
    exact find_headersAfter sane.headers
  have dck : ∀ m, dckFind z m = if m = lba then
      if words 258 = eccOverWords (dataOf words) then none else some ⟨lba, words 258⟩
      else dckFind p m := by
    intro m
    unfold dckFind
    rw [dcks]
    exact find_dcksAfter sane.dcks
  have shape : Alike p z := by
    rw [after]
    exact ⟨rfl, rfl, rfl⟩
  have quux : z.quux = false := shape.quux.trans sane.quux
  have len : 1024 * z.blocks ≤ z.file.len := by
    rw [shape.blocks, after]
    exact Nat.le_trans sane.len Image.le_len_land
  refine ⟨⟨quux, len, ?_, ?_, ?_, ?_⟩, shape, ?_, ?_⟩
  · rw [after]
    exact keyed_headersAfter sane.headers
  · rw [dcks]
    exact keyed_dcksAfter sane.dcks
  · intro e member
    rw [after] at member
    rw [shape.g, shape.blocks]
    obtain ⟨rfl, apart⟩ | ⟨member, -⟩ := mem_headersAfter sane.headers member
    · exact ⟨inside, apart⟩
    · exact sane.header_apart e member
  · intro e member
    rw [after] at member
    rw [shape.blocks]
    obtain ⟨rfl, apart⟩ | ⟨member, ne⟩ := mem_dcksAfter sane.dcks member
    · rw [dataOf_eq words own]
      exact ⟨inside, apart⟩
    · obtain ⟨less, apart⟩ := sane.dck_apart e member
      rw [data_congr (other e.lba less ne)]
      exact ⟨less, apart⟩
  · rw [packRecord_pack quux (by rw [shape.blocks]; exact inside) len, header, dck, if_pos rfl, if_pos rfl,
      shape.g, dataOf_eq words own]
    have top : (match (if (words 256, words 257) = ownHeader p.g lba then none
        else some (⟨lba, words 256, words 257⟩ : HeaderEntry)) with
      | some e => (e.word, e.checkword)
      | none => ownHeader p.g lba) = (words 256, words 257) := by
      split_ifs with same
      · exact same.symm
      · rfl
    have last : (match (if words 258 = eccOverWords (dataOf words) then none
        else some (⟨lba, words 258⟩ : DckEntry)) with
      | some e => e.checkword
      | none => eccOverWords (dataOf words)) = words 258 := by
      split_ifs with same
      · exact same.symm
      · rfl
    rw [top, last]
    exact congrArg Except.ok (recordOf_self words own)
  · intro m less ne
    rw [packRecord_pack quux (by rw [shape.blocks]; exact less) len,
      packRecord_pack sane.quux less sane.len, header, dck, if_neg ne, if_neg ne, shape.g,
      data_congr (other m less ne)]
    exact congrArg Except.ok (recordOf_congr (other m less ne) _ _ _)

end

/-- A disk that reads and writes as bytes in a row: a dynamic VHD whose blocks lie apart, or another
with room for its blocks. -/
def Whole (x : Side) : Prop :=
  if x.disk.format = .dynamicVhd then QuuxDisk.Laid x else 1024 * x.disk.blocks ≤ x.file.len

/-- Those bytes. -/
def byteAt (x : Side) : Nat → Byte :=
  if x.disk.format = .dynamicVhd then x.peek else x.file.byte

theorem Whole.read {x : Side} (whole : Whole x) {n : Nat} (less : n < x.disk.blocks) :
    ∃ b, quuxDiskRead x.file x.disk n = .ok b ∧
      ∀ i, i < 1024 → b i = byteAt x (1024 * n + i) := by
  unfold Whole at whole
  unfold byteAt
  split_ifs at whole ⊢ with dynamic
  · exact whole.read less
  · exact ⟨_, straight_read dynamic less whole, fun i _ => rfl⟩

theorem Whole.write {x y : Side} (whole : Whole x) {o : Nat → QuuxDisk.Outcome} {p : Put}
    (done : quuxDiskWrite o p.block p.data x = (y, none)) :
    Whole y ∧ y.disk.blocks = x.disk.blocks ∧
      ∀ a, a < 1024 * x.disk.blocks → byteAt y a = p.over (byteAt x) a := by
  unfold Whole at *
  unfold byteAt
  by_cases dynamic : x.disk.format = .dynamicVhd
  · rw [if_pos dynamic] at whole ⊢
    obtain ⟨laid, alike, bytes⟩ := whole.write done
    have again : y.disk.format = .dynamicVhd := alike.format.trans dynamic
    rw [if_pos again, if_pos again]
    exact ⟨laid, alike.blocks, fun a inside => bytes a (Nat.lt_of_lt_of_le inside whole.reach)⟩
  · rw [if_neg dynamic] at whole ⊢
    obtain ⟨disk, len, bytes⟩ := straight_write dynamic whole done
    rw [disk, if_neg dynamic, if_neg dynamic, len]
    exact ⟨whole, rfl, fun a inside => bytes a (Nat.lt_of_lt_of_le inside whole)⟩

/-- What QUUX's disk keeps: it reads and writes as bytes in a row, and it has no tables. -/
structure SaneQuux (p : Opened) : Prop where
  quux : p.quux = true
  blocks : p.blocks = p.q.blocks
  whole : Whole ⟨p.file, p.q⟩
  headers : p.headers = []
  dcks : p.dcks = []

section

variable {p y z : Opened} {o : Comes} {lba m : Nat} {words : Record}

theorem SaneQuux.packRecord (sane : SaneQuux p) (inside : m < p.blocks) :
    packRecord p m =
      .ok (recordOf (wordOf (shift (byteAt ⟨p.file, p.q⟩) (1024 * m))) 0#32 0#32 0#32) := by
  obtain ⟨b, read, bytes⟩ := sane.whole.read (n := m) (by rw [← sane.blocks]; exact inside)
  unfold PackFile.packRecord
  rw [if_neg (by omega), if_pos sane.quux]
  dsimp only at read
  rw [read]
  refine congrArg Except.ok (recordOf_congr (fun i less => ?_) _ _ _)
  exact wordOf_congr (fun j small => bytes j small) less

/-- A write-back into QUUX's disk: its record is the words written with zeros after them, and the
other records are as they were. -/
theorem SaneQuux.writeback (sane : SaneQuux p) (inside : lba < p.blocks)
    (done : writebackQuux o lba words p = (z, none)) :
    SaneQuux z ∧ Alike p z ∧ PackFile.packRecord z lba = .ok (keep true words) ∧
      ∀ m, m < p.blocks → m ≠ lba → PackFile.packRecord z m = PackFile.packRecord p m := by
  unfold writebackQuux at done
  cases wrote : quuxDiskWrite o.disk lba (bytesOf words) ⟨p.file, p.q⟩ with
  | mk side why =>
    rw [wrote] at done
    cases why with
    | some why => exact absurd (congrArg Prod.snd done) (by simp)
    | none =>
      have after : { p with file := side.file, q := side.disk } = z := congrArg Prod.fst done
      obtain ⟨whole, blocks, bytes⟩ := sane.whole.write (p := ⟨lba, bytesOf words⟩) wrote
      have kept : SaneQuux z := by
        rw [← after]
        exact ⟨sane.quux, sane.blocks.trans blocks.symm, whole, sane.headers, sane.dcks⟩
      have same : Alike p z := by
        rw [← after]
        exact ⟨rfl, rfl, rfl⟩
      have side_eq : (⟨z.file, z.q⟩ : Side) = side := by rw [← after]
      have reach : 1024 * p.blocks = 1024 * p.q.blocks := by rw [sane.blocks]
      refine ⟨kept, same, ?_, fun m less ne => ?_⟩
      · rw [kept.packRecord (by rw [same.blocks]; exact inside), side_eq]
        refine congrArg Except.ok ?_
        funext i
        unfold recordOf keep
        by_cases data : i.val < 256
        · have place : ¬ 256 ≤ i.val := by omega
          rw [if_pos data, if_neg (by simp [data])]
          rw [← wordOf_bytesOf words data]
          refine wordOf_congr (fun j small => ?_) data
          change byteAt side (1024 * lba + j) = _
          rw [bytes _ (by dsimp only; omega)]
          unfold Put.over
          dsimp only
          rw [if_pos (by omega), Nat.add_sub_cancel_left]
        · have past : 256 ≤ i.val := by omega
          have zero : (if (true && decide (256 ≤ i.val)) = true then 0#32 else words i) = 0#32 :=
            if_pos (by simp [past])
          rw [if_neg data, zero]
          split_ifs <;> rfl
      · rw [kept.packRecord (by rw [same.blocks]; exact less), side_eq, sane.packRecord less]
        refine congrArg Except.ok (recordOf_congr (fun i small => ?_) _ _ _)
        refine wordOf_congr (fun j tiny => ?_) small
        change byteAt side (1024 * m + j) = _
        rw [bytes _ (by dsimp only; omega)]
        unfold Put.over
        dsimp only
        exact if_neg (by omega)

/-- What a pack of either kind keeps. -/
def Good (p : Opened) : Prop := Sane p ∨ SaneQuux p

theorem Good.record (good : Good p) (inside : m < p.blocks) :
    ∃ r, packRecord p m = .ok r := by
  obtain sane | sane := good
  · exact ⟨_, packRecord_pack sane.quux inside sane.len⟩
  · exact ⟨_, sane.packRecord inside⟩

theorem keep_pack (words : Record) : keep false words = words := rfl

/-- A successful write-back: its record is the words written, as far as the disk keeps them, and the
other records are as they were. -/
theorem Good.writeback (good : Good p) (done : packWriteback o lba words p = (z, none)) :
    Good z ∧ Alike p z ∧ lba < p.blocks ∧
      packRecord z lba = .ok (keep p.quux words) ∧
      ∀ m, m < p.blocks → m ≠ lba → packRecord z m = packRecord p m := by
  unfold packWriteback at done
  by_cases off : p.blocks ≤ lba
  · rw [if_pos off] at done
    exact absurd (congrArg Prod.snd done) (by simp)
  · rw [if_neg off] at done
    have inside : lba < p.blocks := by omega
    by_cases locked : (!p.writable) = true
    · rw [if_pos locked] at done
      exact absurd (congrArg Prod.snd done) (by simp)
    · rw [if_neg locked] at done
      obtain sane | sane := good
      · rw [if_neg (by simp [sane.quux])] at done
        obtain ⟨after, alike, own, other⟩ := sane.writeback inside done
        rw [sane.quux, keep_pack]
        exact ⟨.inl after, alike, inside, own, other⟩
      · rw [if_pos sane.quux] at done
        obtain ⟨after, alike, own, other⟩ := sane.writeback inside done
        rw [sane.quux]
        exact ⟨.inr after, alike, inside, own, other⟩

/-- A run of successful calls, with what was written. -/
inductive Calls : Opened → List (Nat × Record) → Opened → Prop
  | nil (p : Opened) : Calls p [] p
  | write {p z y : Opened} {lba : Nat} {words : Record} {puts : List (Nat × Record)} (o : Comes)
      (done : packWriteback o lba words p = (z, none)) (more : Calls z puts y) :
      Calls p ((lba, words) :: puts) y
  | read {p y : Opened} {lba : Nat} {words : Record} {puts : List (Nat × Record)}
      (done : packRecord p lba = .ok words) (more : Calls p puts y) : Calls p puts y

/-- What was last written to a block. -/
def lastWritten (puts : List (Nat × Record)) (m : Nat) : Option Record :=
  (puts.reverse.find? fun put => decide (put.1 = m)).map Prod.snd

theorem lastWritten_cons (lba : Nat) (words : Record) (puts : List (Nat × Record)) (m : Nat) :
    lastWritten ((lba, words) :: puts) m =
      (lastWritten puts m).or (if lba = m then some words else none) := by
  unfold lastWritten
  rw [List.reverse_cons, List.find?_append, Option.map_or]
  congr 1
  by_cases here : lba = m
  · simp [here]
  · simp [here]

theorem Good.calls {puts : List (Nat × Record)} (good : Good p) (run : Calls p puts y) :
    Good y ∧ Alike p y ∧ ∀ m, m < p.blocks →
      packRecord y m = match lastWritten puts m with
        | some words => .ok (keep p.quux words)
        | none => packRecord p m := by
  induction run with
  | nil p => exact ⟨good, ⟨rfl, rfl, rfl⟩, fun m less => rfl⟩
  | read done more ih => exact ih good
  | @write p z y lba words puts o done more ih =>
    obtain ⟨after, alike, inside, own, other⟩ := good.writeback done
    obtain ⟨last, alike', records⟩ := ih after
    refine ⟨last, ⟨alike'.quux.trans alike.quux, alike'.g.trans alike.g,
      alike'.blocks.trans alike.blocks⟩, fun m less => ?_⟩
    rw [records m (by rw [alike.blocks]; exact less), lastWritten_cons, alike.quux]
    cases lastWritten puts m with
    | some words => rfl
    | none =>
      by_cases here : lba = m
      · rw [if_pos here, ← here]
        exact own
      · rw [if_neg here]
        exact other m less fun same => here same.symm

end

theorem sane_packOpen {writable : Bool} {f : Image} {p : Opened}
    (opened : packOpen writable f = .ok p) :
    Sane p ∧ p.file = f ∧ p.headers = [] ∧ p.dcks = [] := by
  unfold packOpen at opened
  cases shape : packGeometryOfSize f.len with
  | none => simp [shape] at opened
  | some g =>
    rw [shape] at opened
    obtain rfl := Except.ok.inj opened
    have size : f.len = packSizeOf g := by
      unfold packGeometryOfSize at shape
      split_ifs at shape with large small
      · rw [large, Option.some.inj shape]
      · rw [small, Option.some.inj shape]
    refine ⟨⟨rfl, ?_, List.nodup_nil, List.nodup_nil, (fun _ member => nomatch member),
      (fun _ member => nomatch member)⟩, rfl, rfl, rfl⟩
    change 1024 * (g.cylinders * g.heads * g.blocksPerTrack) ≤ f.len
    rw [size, packSizeOf, Nat.mul_comm]

theorem sane_packOpenQuux {memory writable : Bool} {f : Image} {p : Opened}
    (opened : packOpenQuux memory writable f = .ok p)
    (parted : p.q.format = .dynamicVhd → Parted f p.q) : SaneQuux p ∧ p.file = f := by
  unfold packOpenQuux at opened
  cases disk : quuxDiskOpen memory f with
  | error why => simp [disk] at opened
  | ok d =>
    rw [disk] at opened
    obtain rfl := Except.ok.inj opened
    dsimp only at parted
    refine ⟨⟨rfl, rfl, ?_, rfl, rfl⟩, rfl⟩
    change Whole ⟨f, d⟩
    unfold Whole
    dsimp only
    by_cases dynamic : d.format = .dynamicVhd
    · rw [if_pos dynamic]
      obtain ⟨v, parts, rfl⟩ := dynamic_of disk dynamic
      exact parts.laid (parted dynamic)
    · rw [if_neg dynamic]
      have probe := probe_of_opens disk dynamic
      cases format : d.format with
      | dynamicVhd => exact absurd format dynamic
      | fixedVhd =>
        have before := (fixed_parts probe format).2.1
        omega
      | raw => exact raw_room probe format

/-- The record of a block that was never written: its file data, and for a pack the format's own
header, its checkword and the checkword over the data. -/
def freshRecord (f : Image) (p : Opened) (m : Nat) : Except Refusal Record :=
  if p.quux then
    match quuxDiskRead f p.q m with
    | .error why => .error (.disk why)
    | .ok bytes => .ok (recordOf (wordOf bytes) 0#32 0#32 0#32)
  else
    let data := wordOf (shift f.byte (1024 * m))
    .ok (recordOf data (ownHeader p.g m).1 (ownHeader p.g m).2
      (eccOverWords ((List.range 256).map data)))

/-- Every pack as it is opened, and every run of successful calls: a block's record is the one last
written, as far as the disk keeps it, or the fresh one of its file data; a write leaves the other
records; and the tables have one entry for a block at most, and only for one whose words are not
those that would be derived. QUUX's dynamic VHD is one whose allocated blocks lie apart. -/
theorem pack_round_trip (memory : Bool) {f : Image} {p y : Opened} {puts : List (Nat × Record)}
    (opened : packOpen true f = .ok p ∨ (packOpenQuux memory true f = .ok p ∧
      (p.q.format = .dynamicVhd → Parted f p.q))) (run : Calls p puts y) :
    (∀ m, m < p.blocks → ∃ r, packRecord y m = .ok r ∧ match lastWritten puts m with
      | some words => r = keep p.quux words
      | none => freshRecord f p m = .ok r) ∧
    (∀ o lba words z, packWriteback o lba words y = (z, none) → ∀ m, m < p.blocks → m ≠ lba →
      packRecord z m = packRecord y m) ∧
    Table.Keyed HeaderEntry.lba y.headers ∧ Table.Keyed DckEntry.lba y.dcks ∧
    (∀ e ∈ y.headers, e.lba < p.blocks ∧ (e.word, e.checkword) ≠ ownHeader p.g e.lba) ∧
    ∀ e ∈ y.dcks, e.lba < p.blocks ∧ ∀ r, packRecord y e.lba = .ok r →
      e.checkword ≠ eccOverWords (dataOf r) := by
  have start : Good p ∧ ∀ m, m < p.blocks → packRecord p m = freshRecord f p m := by
    obtain opened | ⟨opened, parted⟩ := opened
    · obtain ⟨sane, rfl, headers, dcks⟩ := sane_packOpen opened
      refine ⟨.inl sane, fun m less => ?_⟩
      rw [packRecord_pack sane.quux less sane.len]
      unfold headerFind dckFind freshRecord
      rw [headers, dcks, if_neg (by simp [sane.quux])]
      rfl
    · obtain ⟨sane, rfl⟩ := sane_packOpenQuux opened parted
      refine ⟨.inr sane, fun m less => ?_⟩
      unfold packRecord freshRecord
      rw [if_neg (by omega), if_pos sane.quux, if_pos sane.quux]
  obtain ⟨good, alike, records⟩ := start.1.calls run
  refine ⟨fun m less => ?_, fun o lba words z done m less ne => ?_, ?_⟩
  · obtain ⟨r, read⟩ := good.record (m := m) (by rw [alike.blocks]; exact less)
    refine ⟨r, read, ?_⟩
    have whose := records m less
    rw [read] at whose
    cases last : lastWritten puts m with
    | some words =>
      rw [last] at whose
      exact Except.ok.inj whose
    | none =>
      rw [last] at whose
      rw [← start.2 m less]
      exact whose.symm
  · exact (good.writeback done).2.2.2.2 m (by rw [alike.blocks]; exact less) ne
  · obtain sane | sane := good
    · refine ⟨sane.headers, sane.dcks, fun e member => ?_, fun e member => ?_⟩
      · rw [← alike.blocks, ← alike.g]
        exact sane.header_apart e member
      · obtain ⟨inside, apart⟩ := sane.dck_apart e member
        refine ⟨by rw [← alike.blocks]; exact inside, fun r read => ?_⟩
        rw [packRecord_pack sane.quux inside sane.len] at read
        rw [← Except.ok.inj read, ← dataOf_eq _ fun i less => (recordOf_data _ _ _ _ less).symm]
        exact apart
    · rw [sane.headers, sane.dcks]
      exact ⟨List.nodup_nil, List.nodup_nil, (fun _ member => nomatch member),
        (fun _ member => nomatch member)⟩

/-- Every operation of a write-back succeeds. -/
def allWell : Comes := ⟨allDone, 1024, true, true, true, true⟩

theorem Calls.one (p : Opened) (o : Comes) (lba : Nat) (words : Record)
    (done : (packWriteback o lba words p).2.isNone = true) :
    Calls p [(lba, words)] (packWriteback o lba words p).1 :=
  .write o (Prod.ext rfl (Option.isNone_iff_eq_none.1 done)) (.nil _)

/-- A T-80's pack of zeros. -/
def zeroPack : Image := ⟨packSizeOf packT80, fun _ => 0⟩

/-- A record whose header and checkwords are none of its block's. -/
def oddRecord : Record := fun i => if i.val < 256 then 1#32 else 0x5A5A#32

theorem writeback_allWell {p : Opened} (quux : p.quux = false) (writable : p.writable = true)
    {lba : Nat} (inside : lba < p.blocks) (words : Record) :
    (packWriteback allWell lba words p).2.isNone = true := by
  have header (q : Opened) : (putHeader allWell lba words q).2 = none := by
    have room : ¬ ((headerFind q lba).isNone && !allWell.headerMemory) = true := by simp [allWell]
    unfold putHeader
    rw [if_neg room]
    dsimp only
    split_ifs <;> rfl
  have dck (q : Opened) : (putDck allWell lba words q).2 = none := by
    have room : ¬ ((dckFind q lba).isNone && !allWell.dckMemory) = true := by simp [allWell]
    unfold putDck
    rw [if_neg room]
    split_ifs <;> rfl
  unfold packWriteback writebackPack
  rw [if_neg (by omega), if_neg (by simp [writable]), if_neg (by simp [quux])]
  dsimp only
  rw [if_neg (by simp [allWell])]
  generalize placed : putHeader allWell lba words
    { p with file := writeAt (1024 * lba) 1024 (bytesOf words) allWell.landed p.file } = first
  have fine : first.2 = none := placed ▸ header _
  obtain ⟨first, why⟩ := first
  obtain rfl : why = none := fine
  dsimp only
  generalize checked : putDck allWell lba words first = second
  have fine : second.2 = none := checked ▸ dck _
  obtain ⟨second, why⟩ := second
  obtain rfl : why = none := fine
  rfl

/-- A block of a T-80 laid with a header and checkwords that are not its own reads so again. -/
theorem zeroPack_round_trip : ∃ p y, packOpen true zeroPack = .ok p ∧ Calls p [(3, oddRecord)] y ∧
    packRecord y 3 = .ok oddRecord := by
  have opened : packOpen true zeroPack = .ok
      { quux := false, writable := true, g := packT80, blocks := 69275, headers := [], dcks := [],
        q := noDisk, file := zeroPack } := rfl
  have run := Calls.one
      { quux := false, writable := true, g := packT80, blocks := 69275, headers := [], dcks := [],
        q := noDisk, file := zeroPack } allWell 3 oddRecord
      (writeback_allWell rfl rfl (by decide) oddRecord)
  obtain ⟨records, -⟩ := pack_round_trip true (.inl opened) run
  obtain ⟨r, read, same⟩ := records 3 (by decide)
  have whole : r = oddRecord := same
  exact ⟨_, _, opened, run, by rw [read, whole]⟩

/-- A dynamic VHD of two blocks of 1,024 bytes, by its table and where its data ends. -/
def twoBlocks (table : List Byte) (finish : Nat) : Image where
  len := finish + 512
  byte i :=
    let footer := fun i => if i = 54 then 8 else if i = 67 then 0x95 else oneFooter i
    if i < 512 then footer i
    else if i < 1536 then if i = 543 then 2 else oneHeader 6 0 [0xFF, 0xFF, 0xFC, 0x8A] (i - 512)
    else if i < 1544 then table.getD (i - 1536) 0
    else if i < finish then 0
    else footer (i - finish)

/-- Both blocks at one place. -/
def doubled : Image := twoBlocks [0, 0, 0, 4, 0, 0, 0, 4] 3584

/-- The first over the table, the second not allocated. -/
def overTable : Image := twoBlocks [0, 0, 0, 2, 0xFF, 0xFF, 0xFF, 0xFF] 2560

/-- QUUX's disk of a file, open to be written. -/
def writableDisk (f : Image) (d : Disk) : Opened :=
  { quux := true, writable := true, g := ⟨0, 0, 0⟩, blocks := d.blocks, headers := [], dcks := [],
    q := d, file := f }

theorem writableDisk_opens {f : Image} {d : Disk} (opened : quuxDiskOpen true f = .ok d) :
    packOpenQuux true true f = .ok (writableDisk f d) := by
  unfold packOpenQuux
  rw [opened]
  rfl

/-- The two files' disks. -/
def doubledDisk : Disk := built doubled ⟨3, 2048, 3584, last doubled⟩
def overTableDisk : Disk := built overTable ⟨3, 2048, 2560, last overTable⟩

theorem doubled_opens : quuxDiskOpen true doubled = .ok doubledDisk := by
  have found : footer (last doubled) = .found 3 2048 := by decide +kernel
  have parts : Dynamic doubled ⟨3, 2048, 3584, last doubled⟩ := by
    apply dynamic_of_parts (by decide) (footers_end (by decide) (fun _ _ => rfl) found) rfl
      (by decide) (by constructor <;> decide +kernel) (by decide)
    decide
  exact parts.opens

theorem overTable_opens : quuxDiskOpen true overTable = .ok overTableDisk := by
  have found : footer (last overTable) = .found 3 2048 := by decide +kernel
  have parts : Dynamic overTable ⟨3, 2048, 2560, last overTable⟩ := by
    apply dynamic_of_parts (by decide) (footers_end (by decide) (fun _ _ => rfl) found) rfl
      (by decide) (by constructor <;> decide +kernel) (by decide)
    decide
  exact parts.opens

theorem ok_of_toOption {x : Except Refusal Record} {r : Record} (found : x.toOption = some r) :
    x = .ok r := by
  cases x with
  | error why => exact nomatch found
  | ok r' => exact congrArg Except.ok (Option.some.inj found)

theorem changed {p : Opened} {lba m : Nat} {words : Record} {k : Fin 259} {v v' : BitVec 32}
    (done : (packWriteback allWell lba words p).2.isNone = true)
    (before : (packRecord p m).toOption.map (fun r => r k) = some v)
    (after : (packRecord (packWriteback allWell lba words p).1 m).toOption.map (fun r => r k) =
      some v') (other : v ≠ v') :
    ∃ y r r', Calls p [(lba, words)] y ∧ packRecord p m = .ok r ∧ packRecord y m = .ok r' ∧
      r k ≠ r' k := by
  obtain ⟨r, there, first⟩ := Option.map_eq_some_iff.1 before
  obtain ⟨r', there', second⟩ := Option.map_eq_some_iff.1 after
  refine ⟨_, r, r', Calls.one p allWell lba words done, ok_of_toOption there,
    ok_of_toOption there', ?_⟩
  rw [first, second]
  exact other

/-- A dynamic VHD whose blocks do not lie apart, or lie over the table, is opened, and a block
written changes another; and one whose block runs past a file of broken sectors is opened and its
block is not read. -/
theorem overlapping_changes :
    (∃ f p y r r', packOpenQuux true true f = .ok p ∧ Calls p [(0, oddRecord)] y ∧ 1 < p.blocks ∧
      packRecord p 1 = .ok r ∧ packRecord y 1 = .ok r' ∧ r 0 ≠ r' 0) ∧
    (∃ f p y r r', packOpenQuux true true f = .ok p ∧ Calls p [(1, oddRecord)] y ∧ 0 < p.blocks ∧
      packRecord p 0 = .ok r ∧ packRecord y 0 = .ok r' ∧ r 1 ≠ r' 1) ∧
    ∃ f p, packOpenQuux true true f = .ok p ∧ 0 < p.blocks ∧ (packRecord p 0).isOk = false := by
  refine ⟨?_, ?_, ?_⟩
  · obtain ⟨y, r, r', run, read, read', other⟩ := changed
      (show (packWriteback allWell 0 oddRecord (writableDisk doubled doubledDisk)).2.isNone = true by
        decide)
      (show (packRecord (writableDisk doubled doubledDisk) 1).toOption.map (fun r => r 0) =
        some 0#32 by decide)
      (show (packRecord (packWriteback allWell 0 oddRecord (writableDisk doubled doubledDisk)).1
        1).toOption.map (fun r => r 0) = some 1#32 by decide) (by decide)
    exact ⟨_, _, y, r, r', writableDisk_opens doubled_opens, run, by decide, read, read',
      other⟩
  · obtain ⟨y, r, r', run, read, read', other⟩ := changed
      (show (packWriteback allWell 1 oddRecord (writableDisk overTable overTableDisk)).2.isNone =
        true by decide)
      (show (packRecord (writableDisk overTable overTableDisk) 0).toOption.map (fun r => r 1) =
        some 0xFFFFFFFF#32 by decide)
      (show (packRecord (packWriteback allWell 1 oddRecord (writableDisk overTable
        overTableDisk)).1 0).toOption.map (fun r => r 1) = some 0x05000000#32 by decide)
      (by decide)
    exact ⟨_, _, y, r, r', writableDisk_opens overTable_opens, run, by decide, read, read',
      other⟩
  · exact ⟨_, _, writableDisk_opens (footerLost_dynamic (Or.inl rfl)).opens, by decide,
      by decide⟩

end MuirFpga.Packs.PackFile
