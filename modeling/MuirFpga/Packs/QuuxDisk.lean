import MuirFpga.Files.Image
import Mathlib.Data.BitVec
import Mathlib.Logic.Function.Basic

/-!
# QUUX's disk file

`quux_disk.c`: a raw file, a fixed VHD or a dynamic VHD, told by its footers, and read and written as
blocks of 1,024 bytes. A read of bytes the file has comes back; a write lands the bytes its outcome
says, and fails unless all of them landed. The offsets are below `2 ^ 63` as a file's are, so that
the sums of the source do not wrap.
-/

namespace MuirFpga.Packs.QuuxDisk

open Files

/-- `QUUX_MAX_BLOCKS`. -/
def maxBlocks : Nat := 2 ^ 28

/-- `UNALLOCATED`. -/
def unallocated : Nat := 0xFFFFFFFF

/-- `be`. -/
def be (b : Nat → Byte) (n : Nat) : Nat :=
  (List.range n).foldl (fun v i => v * 256 + (b i).toNat) 0

/-- `put_be32`. -/
def putBe32 (v : Nat) (i : Nat) : Byte := BitVec.ofNat 8 (v / 256 ^ (3 - i))

/-- `checksum`: the one's complement of the bytes' sum, the field at `field` counted as zero. -/
def checksum (b : Nat → Byte) (n field : Nat) : BitVec 32 :=
  ~~~ BitVec.ofNat 32
    (((List.range n).filter fun i => i < field || field + 4 ≤ i).map fun i => (b i).toNat).sum

/-- `conectix`. -/
def conectix : List Byte := [99, 111, 110, 101, 99, 116, 105, 120]

/-- `cxsparse`. -/
def cxsparse : List Byte := [99, 120, 115, 112, 97, 114, 115, 101]

/-- `vhdxfile`. -/
def vhdxfile : List Byte := [118, 104, 100, 120, 102, 105, 108, 101]

/-- The first eight bytes are a cookie. -/
def spells (cookie : List Byte) (b : Nat → Byte) : Bool :=
  (List.range 8).all fun i => b i == cookie.getD i 0

/-- Bytes from a place on. -/
def shift (b : Nat → Byte) (off : Nat) : Nat → Byte := fun i => b (off + i)

/-- The three formats. -/
inductive Format
  | raw
  | fixedVhd
  | dynamicVhd
  deriving DecidableEq

/-- `quux_format_name`. -/
def Format.name : Format → String
  | .raw => "raw"
  | .fixedVhd => "a fixed VHD"
  | .dynamicVhd => "a dynamic VHD"

/-- Why a file is not a QUUX disk, or a block is not read or written. -/
inductive Refusal
  | vhdx
  | footer (want got : BitVec 32)
  | fixedShort (size len : Nat)
  | differencing
  | type (number : Nat)
  | blocks (count : Nat)
  | noHeader (off : Nat)
  | header (want got : BitVec 32)
  | blockBytes (bytes : Nat)
  | tableShort (entries bytes size : Nat)
  | tablePast (entries off : Nat)
  | memory (entries : Nat)
  | readTable
  | entryPast (k entry finish : Nat)
  | past (n count : Nat)
  | read (n : Nat)
  | readBlock (n k : Nat)
  | write (n : Nat)
  | entryFull (finish : Nat)
  | blockMemory (bytes : Nat)
  | allocating (k finish : Nat)
  | writeBlock (n k : Nat)
  | readBitmap (k : Nat)
  | writeBitmap (k : Nat)

/-- A word as `%08x` prints it. -/
def hex8 (w : BitVec 32) : String :=
  String.ofList ((List.range 8).map fun i => Nat.digitChar (w.toNat / 16 ^ (7 - i) % 16))

/-- The console's words for a refusal, without the system's own after a colon. -/
def Refusal.text : Refusal → String
  | vhdx => "a VHDX, which is not a VHD: QUUX's disk is raw, a fixed VHD or a dynamic VHD"
  | footer want got => "a VHD footer whose checksum does not check: " ++ hex8 want ++
      ", the bytes sum to " ++ hex8 got
  | fixedShort size len => "a fixed VHD of " ++ toString size ++ " bytes in a file of " ++
      toString len ++ ", its footer included"
  | differencing => "a differencing VHD, which needs its parent: QUUX's disk is raw, a fixed VHD " ++
      "or a dynamic VHD"
  | type number => "a VHD of disk type " ++ toString number ++ ", which is none QUUX's disk is"
  | blocks count => toString count ++ " blocks, and block-disk's address reaches " ++
      toString maxBlocks
  | noHeader off => "no dynamic header at " ++ toString off ++ ": a dynamic VHD has one"
  | header want got => "a dynamic header whose checksum does not check: " ++ hex8 want ++
      ", the bytes sum to " ++ hex8 got
  | blockBytes bytes => "a dynamic VHD's blocks of " ++ toString bytes ++ " bytes, not whole sectors"
  | tableShort entries bytes size => "a dynamic VHD's table of " ++ toString entries ++
      " blocks of " ++ toString bytes ++ " bytes, short of the disk's " ++ toString size
  | tablePast entries off => "a dynamic VHD's table of " ++ toString entries ++ " entries at " ++
      toString off ++ ", past the end of the file"
  | memory entries => "out of memory for a table of " ++ toString entries ++ " entries"
  | readTable => "reading the dynamic VHD's table"
  | entryPast k entry finish => "the dynamic VHD's table puts block " ++ toString k ++
      " at sector " ++ toString entry ++ ", which runs past the data into byte " ++ toString finish
  | past n count => "block " ++ toString n ++ " is past the end of a disk of " ++ toString count
  | read n => "reading block " ++ toString n
  | readBlock n k => "reading block " ++ toString n ++ " from the dynamic VHD's block " ++ toString k
  | write n => "writing block " ++ toString n
  | entryFull finish => "a block at byte " ++ toString finish ++ ", past what a table entry holds"
  | blockMemory bytes => "out of memory for a block of " ++ toString bytes ++ " bytes"
  | allocating k finish => "allocating the dynamic VHD's block " ++ toString k ++ " at byte " ++
      toString finish
  | writeBlock n k => "writing block " ++ toString n ++ " into the dynamic VHD's block " ++ toString k
  | readBitmap k => "reading the bitmap of the dynamic VHD's block " ++ toString k
  | writeBitmap k => "writing the bitmap of the dynamic VHD's block " ++ toString k

/-- `struct quux_disk`; `finish` is its `end`. -/
structure Disk where
  format : Format
  size : Nat
  blocks : Nat
  table : Nat → Nat
  entries : Nat
  tableOffset : Nat
  blockBytes : Nat
  bitmapBytes : Nat
  finish : Nat
  footer : Nat → Byte

/-- What 512 bytes are as a footer. -/
inductive Footer
  | none
  | bad (want got : BitVec 32)
  | found (type size : Nat)
  deriving DecidableEq

/-- `footer`. -/
def footer (b : Nat → Byte) : Footer :=
  if spells conectix b then
    let want := BitVec.ofNat 32 (be (shift b 64) 4)
    let got := checksum b 512 64
    if want ≠ got then .bad want got else .found (be (shift b 60) 4) (be (shift b 48) 8)
  else .none

/-- A VHD as its footer gives it, with where its data ends. -/
structure Found where
  type : Nat
  size : Nat
  finish : Nat
  bytes : Nat → Byte

/-- The file's first sector, zeros past a shorter file's end. -/
def first (f : Image) : Nat → Byte := fun i => if 8 ≤ f.len ∧ i < f.len then f.byte i else 0

/-- The file's last sector. -/
def last (f : Image) : Nat → Byte := shift f.byte (f.len - 512)

/-- The VHD the file's footers say it is: the one at its end, or a dynamic VHD's copy at 0. -/
def footers (f : Image) : Except Refusal (Option Found) :=
  if f.len < 512 then .ok none
  else match footer (last f) with
    | .bad want got => .error (.footer want got)
    | .found type size => .ok (some ⟨type, size, f.len - 512, last f⟩)
    | .none => match footer (first f) with
      | .bad want got => .error (.footer want got)
      | .found type size =>
        if type = 3 then .ok (some ⟨type, size, f.len, first f⟩) else .ok none
      | .none => .ok none

/-- A disk of a format and a size, of whole blocks. -/
def sized (format : Format) (size finish : Nat) (bytes : Nat → Byte) : Except Refusal Disk :=
  if maxBlocks < size / 1024 then .error (.blocks (size / 1024))
  else .ok ⟨format, size, size / 1024, fun _ => 0, 0, 0, 0, 0, finish, bytes⟩

/-- The format and the size. -/
def shape (f : Image) : Option Found → Except Refusal Disk
  | none => sized .raw f.len 0 fun _ => 0
  | some v =>
    if v.type = 2 then
      if v.finish < v.size then .error (.fixedShort v.size f.len)
      else sized .fixedVhd v.size v.finish v.bytes
    else if v.type = 3 then sized .dynamicVhd v.size v.finish v.bytes
    else if v.type = 4 then .error .differencing
    else .error (.type v.type)

/-- Up to a whole sector. -/
def roundUp (n : Nat) : Nat := 512 * ((n + 511) / 512)

/-- The dynamic header's offset, by the footer. -/
def headerOffset (footer : Nat → Byte) : Nat := be (shift footer 16) 8

/-- The dynamic header, and what it says of the table and the blocks. -/
def header (f : Image) (d : Disk) : Except Refusal Disk :=
  let off := headerOffset d.footer
  let h := shift f.byte off
  if d.finish < off || d.finish - off < 1024 || f.len < off + 1024 || !spells cxsparse h then
    .error (.noHeader off)
  else
    let want := BitVec.ofNat 32 (be (shift h 36) 4)
    let got := checksum h 1024 36
    if want ≠ got then .error (.header want got)
    else
      let tableOffset := be (shift h 16) 8
      let entries := be (shift h 28) 4
      let blockBytes := be (shift h 32) 4
      if blockBytes = 0 || blockBytes % 512 != 0 then .error (.blockBytes blockBytes)
      else if entries * blockBytes < d.size then .error (.tableShort entries blockBytes d.size)
      else if d.finish < tableOffset || (d.finish - tableOffset) / 4 < entries then
        .error (.tablePast entries tableOffset)
      else
        .ok { d with
          tableOffset := tableOffset
          blockBytes := blockBytes
          entries := (d.size + blockBytes - 1) / blockBytes
          bitmapBytes := roundUp ((blockBytes / 512 + 7) / 8)
          finish := roundUp d.finish }

/-- `quux_disk_probe`. -/
def quuxDiskProbe (f : Image) : Except Refusal Disk :=
  if 8 ≤ f.len && spells vhdxfile (first f) then .error .vhdx
  else match footers f with
    | .error why => .error why
    | .ok found => match shape f found with
      | .error why => .error why
      | .ok d => if d.format = .dynamicVhd then header f d else .ok d

/-- The bytes an allocated block takes: its bitmap and its data. -/
def Disk.extent (d : Disk) : Nat := d.bitmapBytes + d.blockBytes

/-- An entry of the file's table. -/
def entryAt (f : Image) (tableOffset k : Nat) : Nat := be (shift f.byte (tableOffset + 4 * k)) 4

/-- An allocated block runs past the data. -/
def Disk.runsPast (d : Disk) (entry : Nat) : Bool :=
  entry != unallocated && (d.finish < 512 * entry || d.finish - 512 * entry < d.extent)

/-- `quux_disk_open`, with memory for the table or none. -/
def quuxDiskOpen (memory : Bool) (f : Image) : Except Refusal Disk :=
  match quuxDiskProbe f with
  | .error why => .error why
  | .ok d =>
    if d.format ≠ .dynamicVhd then .ok d
    else if !memory then .error (.memory d.entries)
    else if f.len < d.tableOffset + 4 * d.entries then .error .readTable
    else
      let table := entryAt f d.tableOffset
      match (List.range d.entries).find? fun k => d.runsPast (table k) with
      | some k => .error (.entryPast k (table k) d.finish)
      | none => .ok { d with table := table }

/-- `locate`. -/
def Disk.locate (d : Disk) (place : Nat) : Nat × Nat :=
  let k := place / d.blockBytes
  let entry := d.table k
  (if entry = unallocated then 0 else 512 * entry + d.bitmapBytes + place % d.blockBytes, k)

/-- A sector of a dynamic VHD. -/
def readSector (f : Image) (d : Disk) (n place : Nat) : Except Refusal (Nat → Byte) :=
  let (off, k) := d.locate place
  if off = 0 then .ok fun _ => 0
  else if f.len < off + 512 then .error (.readBlock n k)
  else .ok (shift f.byte off)

/-- `quux_disk_read`. -/
def quuxDiskRead (f : Image) (d : Disk) (n : Nat) : Except Refusal (Nat → Byte) :=
  if d.blocks ≤ n then .error (.past n d.blocks)
  else if d.format ≠ .dynamicVhd then
    if f.len < 1024 * n + 1024 then .error (.read n) else .ok (shift f.byte (1024 * n))
  else match readSector f d n (1024 * n) with
    | .error why => .error why
    | .ok low => match readSector f d n (1024 * n + 512) with
      | .error why => .error why
      | .ok high => .ok fun i => if i < 512 then low i else high (i - 512)

/-- How a sector's file operations come out: whether there is memory, how many bytes of each write
land, whether the sync and the bitmap's read succeed. -/
structure Outcome where
  memory : Bool
  block : Nat
  footer : Nat
  synced : Bool
  entry : Nat
  sector : Nat
  bitmap : Bool
  bit : Nat

/-- The file and the disk this program holds open on it. -/
structure Side where
  file : Image
  disk : Disk

/-- `write_at`, of which no more than `some` bytes land. -/
def writeAt (off n : Nat) (data : Nat → Byte) (some : Nat) (f : Image) : Image :=
  f.land off (min n some) data

/-- A block as it is allocated: its bitmap all ones, its data zeros but for one sector. -/
def newBlock (d : Disk) (inBlock : Nat) (sector : Nat → Byte) : Nat → Byte := fun i =>
  if i < d.bitmapBytes then 0xFF
  else if d.bitmapBytes + inBlock ≤ i ∧ i < d.bitmapBytes + inBlock + 512 then
    sector (i - (d.bitmapBytes + inBlock))
  else 0

/-- `allocate`. -/
def allocate (o : Outcome) (k inBlock : Nat) (sector : Nat → Byte) (x : Side) :
    Side × Option Refusal :=
  let d := x.disk
  if unallocated ≤ d.finish / 512 then (x, some (.entryFull d.finish))
  else if !o.memory then (x, some (.blockMemory d.extent))
  else
    let entry := d.finish / 512
    let finish := d.finish + d.extent
    let f := writeAt d.finish d.extent (newBlock d inBlock sector) o.block x.file
    if o.block < d.extent then (⟨f, d⟩, some (.allocating k d.finish))
    else
      let f := writeAt finish 512 d.footer o.footer f
      if o.footer < 512 || !o.synced then (⟨f, d⟩, some (.allocating k d.finish))
      else
        let f := writeAt (d.tableOffset + 4 * k) 4 (putBe32 entry) o.entry f
        if o.entry < 4 then (⟨f, d⟩, some (.allocating k d.finish))
        else (⟨f, { d with table := Function.update d.table k entry, finish := finish }⟩, none)

/-- A sector written into a block that is allocated, and its bit. -/
def overwrite (o : Outcome) (n k off place : Nat) (sector : Nat → Byte) (x : Side) :
    Side × Option Refusal :=
  let d := x.disk
  let f := writeAt off 512 sector o.sector x.file
  if o.sector < 512 then (⟨f, d⟩, some (.writeBlock n k))
  else
    let inBlock := place % d.blockBytes / 512
    let byteAt := 512 * d.table k + inBlock / 8
    let bit : Byte := 0x80#8 >>> (inBlock % 8)
    if !o.bitmap || f.len ≤ byteAt then (⟨f, d⟩, some (.readBitmap k))
    else if f.byte byteAt &&& bit = 0 then
      let f' := writeAt byteAt 1 (fun _ => f.byte byteAt ||| bit) o.bit f
      if o.bit < 1 then (⟨f', d⟩, some (.writeBitmap k)) else (⟨f', d⟩, none)
    else (⟨f, d⟩, none)

/-- A sector of a dynamic VHD written. -/
def writeSector (o : Outcome) (n place : Nat) (sector : Nat → Byte) (x : Side) :
    Side × Option Refusal :=
  let (off, k) := x.disk.locate place
  if off = 0 then allocate o k (place % x.disk.blockBytes) sector x
  else overwrite o n k off place sector x

/-- `quux_disk_write`, the outcomes those of its two sectors. -/
def quuxDiskWrite (o : Nat → Outcome) (n : Nat) (buf : Nat → Byte) (x : Side) :
    Side × Option Refusal :=
  if x.disk.blocks ≤ n then (x, some (.past n x.disk.blocks))
  else if x.disk.format ≠ .dynamicVhd then
    (⟨writeAt (1024 * n) 1024 buf (o 0).sector x.file, x.disk⟩,
      if (o 0).sector < 1024 then some (.write n) else none)
  else
    match writeSector (o 0) n (1024 * n) buf x with
    | (x, some why) => (x, some why)
    | (x, none) => writeSector (o 1) n (1024 * n + 512) (shift buf 512) x

end MuirFpga.Packs.QuuxDisk
