import MuirFpga.Disk.Registers

/-!
# The block store, the lookup and the request path

What a clock leaves of the 24 slots under the pack side's seam and the walk's own port, of the
lookup three registers deep, and of the request for a block the walk lacks.
-/

namespace MuirFpga.Disk

open Quux (Seam)

namespace Store

/-- `seam_meta`. -/
def seamMeta (s : Store) (m : Seam) : BitVec 32 :=
  if m.addr.extractLsb' 0 2 = 0#2 then s.header m.slot
  else if m.addr.extractLsb' 0 2 = 1#2 then s.hck m.slot
  else if m.addr.extractLsb' 0 2 = 2#2 then s.dck m.slot
  else 0#1 ++ s.tag m.slot

/-- `seam_word`. -/
def seamWord (m : Seam) : BitVec 13 := m.slot ++ m.addr.extractLsb' 0 8

/-- The data words: the seam's port and the walk's. -/
def ramNext (m : Seam) (c : Controller) (ram : BitVec 13 → BitVec 32) : BitVec 13 → BitVec 32 :=
  let seam := if m.data then Function.update ram (seamWord m) m.wdata else ram
  if c.chbWe then Function.update seam c.chbA c.chbD else seam

/-- A place past the data words: the seam's write, else a checkword's, else a laid sector's. -/
def besideNext (m : Seam) (place : BitVec 2) (c : Controller) (laid : BitVec 32)
    (fresh : Bool) (words : BitVec 5 → BitVec 32) : BitVec 5 → BitVec 32 :=
  if m.beside then
    if m.addr.extractLsb' 0 2 = place then Function.update words m.slot m.wdata else words
  else if c.walk.chDckWe then
    if fresh then Function.update words c.walk.chDckSlot c.walk.chDckVal else words
  else if c.parser.trkMetaWe then Function.update words c.walk.chSlot laid
  else words

/-- The valid bits: taken away, or tagged; none is valid out of a reset. -/
def validNext (rstQ : Bool) (m : Seam) (valid : BitVec 5 → Bool) : BitVec 5 → Bool :=
  if rstQ then fun _ => false
  else if m.tagWrite true then Function.update valid m.slot false
  else if m.tagWrite false then Function.update valid m.slot true
  else valid

/-- The tags. -/
def tagNext (m : Seam) (tag : BitVec 5 → BitVec 31) : BitVec 5 → BitVec 31 :=
  if m.tagWrite false then Function.update tag m.slot (m.wdata.extractLsb' 0 31) else tag

/-- The store's clock. -/
def next (m : Seam) (c : Controller) (s : Store) : Store where
  ram := ramNext m c s.ram
  header := besideNext m 0#2 c c.parser.psHdr false s.header
  hck := besideNext m 1#2 c c.parser.psHck false s.hck
  dck := besideNext m 2#2 c c.parser.psDck true s.dck
  tag := tagNext m s.tag
  valid := validNext c.rstQ m s.valid
  seamQ := s.ram (seamWord m)
  seamMetaQ := s.seamMeta m
  seamMetaSel := !decide (m.addr < 256#9)
  rdata := if s.seamMetaSel then s.seamMetaQ else s.seamQ
  chbQ := s.ram c.chbA
  chbQ2 := s.chbQ
  hdrQ := s.header c.walk.chSlot
  hckQ := s.hck c.walk.chSlot
  dckQ := s.dck c.walk.chSlot

end Store

namespace Lookup

/-- `slot_of_c`, when a compare hit: the last of the slots that did. -/
def hit (l : Lookup) : Option (BitVec 5) :=
  ((List.range slots).map (BitVec.ofNat 5)).reverse.find? l.hitQ

/-- The lookup's clock: the key, the compares, the encoder. -/
def next (s : Store) (c : Controller) (l : Lookup) : Lookup where
  wantTagQ := c.wantTag
  hitQ := fun slot => s.valid slot && s.tag slot == l.wantTagQ
  slotHit := l.hit.isSome
  slotOf := l.hit.getD 0

end Lookup

namespace Request

/-- The request's own registers: cleared, posted, or answered. -/
def asks (m : Seam) (c : Controller) (r x : Request) : Request :=
  if c.rstQ || r.reqClearQ then { x with reqValid := false, reqPost := false, reqTag := 0 }
  else if c.post m then { x with reqValid := true, reqPost := true, reqTag := c.lookup.wantTagQ }
  else
    { x with
      reqPost := false,
      reqValid := if m.deny || (r.tagWriteQ && r.tagMatchQ) then false else r.reqValid }

/-- The request path's clock. -/
def next (i : Input) (m : Seam) (s : Store) (c : Controller) (r : Request) : Request :=
  { r.asks m c r with
    tagWriteQ := m.we && m.addr == 259#9 && !m.wdata.getLsbD 31
    tagMatchQ := m.wdata.extractLsb' 0 31 == r.reqTag
    slotOkQ := s.valid c.walk.chSlot && !(m.busy && m.busySlot == c.walk.chSlot)
    chHitQ := c.slotTaken
    reqClearQ := i.xbusInit || c.cmdReset i }

end Request

namespace Ahead

/-- `nb_c_c`, `nb_h_c`, `nb_b_c`: the following block, on the next track or the next cylinder. -/
def following (a : Ahead) : BitVec 12 × BitVec 8 × BitVec 8 :=
  if bpt ≤ a.hdBlkQ + 1 then
    if heads ≤ a.hdHeadQ + 1 then (a.hdCylQ + 1, 0, 0) else (a.hdCylQ, a.hdHeadQ + 1, 0)
  else (a.hdCylQ, a.hdHeadQ, a.hdBlkQ + 1)

/-- The next block's clock. -/
def next (c : Controller) (a : Ahead) : Ahead where
  hdCylQ := c.drives.uCyl c.walk.chUnit
  hdHeadQ := c.drives.uHead c.walk.chUnit
  hdBlkQ := c.drives.uBlk c.walk.chUnit
  nbC := a.following.1
  nbH := a.following.2.1
  nbB := a.following.2.2
  nbOffPack := decide (cylinders ≤ a.following.1)
  nbMoveQ := c.walk.chMore && !c.walk.chTrack && !a.nbOffPack

end Ahead

end MuirFpga.Disk
