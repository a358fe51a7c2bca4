import Mathlib.Data.BitVec
import Mathlib.Tactic.SplitIfs

/-!
# The block-disk walk and its block store

`quux15_block_walk`: the store of 24 slots, its seam to the pack side and the walk that moves a
START's pages between main memory and the slots. Registers have the source's names; a clock's
assignments are made in the source's order on the registers as the clock found them, so a later
one replaces an earlier one. The lemmas say what a clock leaves of a walk that chooses a slot,
that is on one, and of any other.
-/

namespace MuirFpga.Quux

/-- `SLOTS`, which the store and the pack side share. -/
def slots : Nat := 24

/-- `walk_e`. -/
inductive WalkState
  | idle
  | ccw
  | glook
  | gwait
  | look
  | wait
  | read
  | write
  | ended
  deriving DecidableEq

/-- The lines of the block store's seam that the pack side drives. -/
structure Seam where
  we : Bool
  slot : BitVec 5
  addr : BitVec 9
  wdata : BitVec 32
  deny : Bool
  busy : Bool
  busySlot : BitVec 5

namespace Seam

/-- The seam writes a data word. -/
def data (m : Seam) : Bool := m.we && decide (m.addr < 256#9)

/-- The seam writes a place past the data words. -/
def beside (m : Seam) : Bool := m.we && !decide (m.addr < 256#9)

/-- The seam writes a tag's place with the tag's bit 31 as named. -/
def tagWrite (m : Seam) (away : Bool) : Bool :=
  m.beside && m.addr.extractLsb' 0 2 == 3#2 && m.wdata.getLsbD 31 == away

end Seam

/-- The block store: the data words, the places beside them and the registers behind its two
ports. -/
structure BlockStore where
  ram : BitVec 13 → BitVec 32
  header : BitVec 5 → BitVec 32
  hck : BitVec 5 → BitVec 32
  dck : BitVec 5 → BitVec 32
  tag : BitVec 5 → BitVec 31
  valid : BitVec 5 → Bool
  seamQ : BitVec 32
  seamMetaQ : BitVec 32
  seamMetaSel : Bool
  rdata : BitVec 32
  chbQ : BitVec 32

/-- The walk's registers. -/
structure Walk where
  v : WalkState
  dReq : Bool
  dWrite : Bool
  dAddr : BitVec 28
  dWdata : BitVec 40
  chbWe : Bool
  chbD : BitVec 32
  chbA : BitVec 13
  chSlot : BitVec 5
  chW : BitVec 8
  reqValid : Bool
  reqPost : Bool
  chWrote : Bool
  chHit : Bool
  storeMiss : Bool
  charge : Bool
  fin : Bool
  writing : Bool
  four : Bool
  n : BitVec 16
  lba : BitVec 28
  clp : BitVec 28
  lma : BitVec 28
  pastEnd : Bool
  nxm : Bool
  page : BitVec 18
  base : BitVec 29
  k : BitVec 3
  mw : BitVec 10
  sb : BitVec 64
  sn : BitVec 4
  drained : Bool
  more : Bool
  rdValid : Bool
  lookAge : BitVec 2
  hitQ : BitVec 5 → Bool

/-- The store and the walk with every register clear. -/
def BlockStore.blank : BlockStore :=
  ⟨fun _ => 0, fun _ => 0, fun _ => 0, fun _ => 0, fun _ => 0, fun _ => false, 0, 0, false, 0, 0⟩
def Walk.blank : Walk :=
  ⟨.idle, false, false, 0, 0, false, 0, 0, 0, 0, false, false, false, false, false, false, false, false,
    false, 0, 0, 0, 0, false, false, 0, 0, 0, 0, 0, 0, false, false, false, 0, fun _ => false⟩

/-- What a clock brings the walk besides the seam: its reset, a START with the registers it reads,
the pack on unit 0 and main memory's answer. -/
structure WalkInput where
  rst : Bool
  start : Bool
  stCmd : BitVec 32
  stClp : BitVec 28
  stDa : BitVec 28
  drivePresent : Bool
  dDone : Bool
  dRdata : BitVec 40

namespace Walk

/-- The lowest slot whose lookup hit: `any_hit` and `hit_slot`. -/
def hit (w : Walk) : Option (BitVec 5) :=
  ((List.range slots).map (BitVec.ofNat 5)).find? w.hitQ

/-- `per_page`. -/
def perPage (w : Walk) : BitVec 3 := if w.four then 4#3 else 5#3

/-- `cur`: the page's block. -/
def cur (w : Walk) : BitVec 29 := w.base + w.k.setWidth 29

/-- `cur<27:0>`. -/
def block (w : Walk) : BitVec 28 := w.cur.extractLsb' 0 28

/-- The tag of the block looked up. -/
def reqTag (w : Walk) : BitVec 31 := 0#3 ++ w.lba

/-- `ccw_addr`: only the low sixteen bits of the pointer count. -/
def ccwAddr (w : Walk) : BitVec 28 :=
  w.clp.extractLsb' 16 12 ++ (w.clp.extractLsb' 0 16 + w.n)

/-- `ch_word`. -/
def chWord (w : Walk) : BitVec 13 := w.chSlot ++ w.chW

/-- `chb_port`. -/
def chbPort (w : Walk) : BitVec 13 := if w.chbWe then w.chbA else w.chWord

/-- `ch_active`. -/
def active (w : Walk) : Bool := w.v != .idle && w.v != .ended

/-- `ch_waiting`. -/
def waiting (w : Walk) : Bool := w.v == .wait || w.v == .gwait

/-- The lookup is good and of the page's block. -/
def looked (w : Walk) : Bool := w.lookAge == 2#2 && w.lba == w.block

/-- The tag of the block waited for lands. -/
def arrives (w : Walk) (m : Seam) : Bool :=
  m.we && m.addr == 259#9 && !m.wdata.getLsbD 31 && m.wdata.extractLsb' 0 31 == w.reqTag

/-- The registers at `rst`. -/
def reset (w : Walk) : Walk :=
  { w with
    v := .idle, dReq := false, dWrite := false, dAddr := 0, dWdata := 0, chbWe := false,
    chbD := 0, chbA := 0, chSlot := 0, chW := 0, reqValid := false, reqPost := false,
    chWrote := false, chHit := false, storeMiss := false, charge := false, fin := false,
    writing := false, four := false, n := 0, lba := 0, clp := 0, lma := 0, pastEnd := false,
    nxm := false, page := 0, base := 0, k := 0, mw := 0, sb := 0, sn := 0, drained := false,
    more := false, rdValid := false, lookAge := 0 }

/-- The pulses fall and the lookup ages. -/
def pulses (w : Walk) : Walk :=
  { w with
    reqPost := false, chWrote := false, chHit := false, chbWe := false, charge := false,
    fin := false, lookAge := if w.lookAge != 2#2 then w.lookAge + 1 else w.lookAge }

/-- START, taken idle with a pack on unit 0. -/
def started (w : Walk) (i : WalkInput) (x : Walk) : Walk :=
  if i.start && w.v == .idle && i.drivePresent then
    { x with
      writing := i.stCmd.extractLsb' 0 4 == 9#4, four := i.stCmd.getLsbD 12, n := 0,
      clp := i.stClp, base := 0#1 ++ i.stDa, k := 0, pastEnd := false, nxm := false,
      lookAge := 0, v := .ccw }
  else x

/-- `V_CCW`: the entry asked for and taken; one past main memory is NXM. -/
def ccwStep (mainWords : Nat) (w : Walk) (i : WalkInput) (x : Walk) : Walk :=
  if !w.dReq then
    let x := { x with lma := w.ccwAddr }
    if mainWords ≤ w.ccwAddr.toNat then { x with nxm := true, v := .ended }
    else { x with dReq := true, dWrite := false, dAddr := w.ccwAddr }
  else if i.dDone then
    let x := { x with
      dReq := false, page := i.dRdata.extractLsb' 10 18, more := i.dRdata.getLsbD 0, k := 0,
      mw := 0, sb := 0, sn := 0, lookAge := 0 }
    if mainWords ≤ (i.dRdata.extractLsb' 10 18 ++ 0#10).toNat then
      { x with nxm := true, v := .ended }
    else { x with v := if w.writing then .look else .glook }
  else x

/-- `V_GLOOK`: every block of a read's page found before a word moves. -/
def glookStep (w : Walk) (x : Walk) : Walk :=
  if w.cur.getLsbD 28 then { x with pastEnd := true, v := .ended }
  else if w.looked then
    if w.hit.isSome then
      let x := { x with charge := true, lookAge := 0 }
      if w.k == w.perPage - 1 then { x with k := 0, v := .look } else { x with k := w.k + 1 }
    else { x with reqValid := true, reqPost := true, v := .gwait }
  else x

/-- `V_GWAIT` and `V_WAIT`: denied, or the block's tag written. -/
def waitStep (back : WalkState) (w : Walk) (m : Seam) (x : Walk) : Walk :=
  if m.deny then { x with pastEnd := true, reqValid := false, v := .ended }
  else if w.arrives m then { x with reqValid := false, lookAge := 0, v := back }
  else x

/-- The slot `V_LOOK` takes this clock. -/
def chooses (w : Walk) (m : Seam) : Option (BitVec 5) :=
  if w.v = .look ∧ w.cur.getLsbD 28 = false ∧ w.looked = true then
    w.hit.filter fun slot => !(m.busy && m.busySlot == slot)
  else none

/-- `V_LOOK`: the block's slot, to move its words. -/
def lookStep (w : Walk) (m : Seam) (x : Walk) : Walk :=
  if w.cur.getLsbD 28 then { x with pastEnd := true, v := .ended }
  else if w.looked then
    match w.hit with
    | some slot =>
      if m.busy && m.busySlot == slot then x
      else { x with
        chSlot := slot, chHit := true, chW := 0, rdValid := false, drained := false,
        v := if w.writing then .write else .read }
    | none => { x with reqValid := true, reqPost := true, v := .wait }
  else x

/-- `V_READ`: the slot's words through the queue into memory. -/
def readStep (w : Walk) (s : BlockStore) (i : WalkInput) (x : Walk) : Walk :=
  if !w.dReq then
    if w.perPage.setWidth 4 ≤ w.sn then
      { x with
        dReq := true, dWrite := true, dAddr := w.page ++ w.mw,
        dWdata := if w.four then 5#8 ++ w.sb.extractLsb' 0 32 else w.sb.extractLsb' 0 40,
        sb := if w.four then w.sb >>> 32 else w.sb >>> 40, sn := w.sn - w.perPage.setWidth 4 }
    else if w.drained then { x with k := w.k + 1, lookAge := 0, v := .look }
    else if w.rdValid then
      let x := { x with
        sb := w.sb ||| (s.chbQ.setWidth 64 <<< (w.sn ++ 0#3)), sn := w.sn + 4, rdValid := false }
      if w.chW == 255#8 then { x with drained := true } else { x with chW := w.chW + 1 }
    else { x with rdValid := true }
  else if i.dDone then
    let x := { x with dReq := false, mw := w.mw + 1 }
    if w.mw == 1023#10 then { x with v := .ended } else x
  else x

/-- A write's block goes on or is done: the page's last block ends it. -/
def wroteBlock (w : Walk) (x : Walk) : Walk :=
  let x := { x with chWrote := true, charge := true }
  if w.k == w.perPage - 1 then { x with v := .ended }
  else { x with k := w.k + 1, lookAge := 0, v := .look }

/-- `V_WRITE`: memory's words through the queue into the slot. -/
def writeStep (w : Walk) (i : WalkInput) (x : Walk) : Walk :=
  if decide (4#4 ≤ w.sn) && !w.dReq then
    let x := { x with
      chbWe := true, chbD := w.sb.extractLsb' 0 32, chbA := w.chWord, sb := w.sb >>> 32,
      sn := w.sn - 4 }
    if w.chW == 255#8 then w.wroteBlock x else { x with chW := w.chW + 1 }
  else if !w.dReq then { x with dReq := true, dWrite := false, dAddr := w.page ++ w.mw }
  else if i.dDone then
    { x with
      dReq := false,
      sb := w.sb ||| ((if w.four then (i.dRdata.extractLsb' 0 32).setWidth 64
        else i.dRdata.setWidth 64) <<< (w.sn ++ 0#3)),
      sn := w.sn + w.perPage.setWidth 4, mw := w.mw + 1 }
  else x

/-- The state's own clock. -/
def stateStep (mainWords : Nat) (w : Walk) (s : BlockStore) (i : WalkInput) (m : Seam)
    (x : Walk) : Walk :=
  match w.v with
  | .idle => x
  | .ccw => w.ccwStep mainWords i x
  | .glook => w.glookStep x
  | .gwait => w.waitStep .glook m x
  | .look => w.lookStep m x
  | .wait => w.waitStep .look m x
  | .read => w.readStep s i x
  | .write => w.writeStep i x
  | .ended => { x with fin := true, v := .idle }

/-- A page is moved whole this clock. -/
def pageDone (w : Walk) (i : WalkInput) : Bool :=
  (w.v == .read && w.dReq && i.dDone && w.mw == 1023#10) ||
    (w.v == .write && decide (4#4 ≤ w.sn) && !w.dReq && w.chW == 255#8 && w.k == w.perPage - 1)

/-- A page moved whole: its last word the last memory address, and the next entry. -/
def pageStep (w : Walk) (i : WalkInput) (x : Walk) : Walk :=
  if w.pageDone i then
    let x := { x with lma := w.page ++ 1023#10 }
    if w.more then
      { x with n := w.n + 1, base := w.base + w.perPage.setWidth 29, k := 0, lookAge := 0,
               v := .ccw }
    else x
  else x

/-- The lookup follows the block: `lba` is `cur` a clock later. -/
def followStep (w : Walk) (x : Walk) : Walk :=
  if w.lba != w.block then { x with lba := w.block, lookAge := 0 } else x

/-- The walk's clock: its registers, then the lookup's. -/
def next (mainWords : Nat) (i : WalkInput) (m : Seam) (s : BlockStore) (w : Walk) : Walk :=
  let x := if i.rst then w.reset
    else w.followStep (w.pageStep i (w.stateStep mainWords s i m (w.started i w.pulses)))
  { x with hitQ := fun slot => s.valid slot && s.tag slot == w.reqTag }

end Walk

namespace BlockStore

/-- `seam_meta`. -/
def seamMeta (s : BlockStore) (m : Seam) : BitVec 32 :=
  if m.addr.extractLsb' 0 2 = 0#2 then s.header m.slot
  else if m.addr.extractLsb' 0 2 = 1#2 then s.hck m.slot
  else if m.addr.extractLsb' 0 2 = 2#2 then s.dck m.slot
  else 0#1 ++ s.tag m.slot

/-- The seam's word address. -/
def seamWord (m : Seam) : BitVec 13 := m.slot ++ m.addr.extractLsb' 0 8

/-- The seam's places past the data words. -/
def placeWrite (m : Seam) (place : BitVec 2) (held : BitVec 5 → BitVec 32) :
    BitVec 5 → BitVec 32 :=
  if m.beside && m.addr.extractLsb' 0 2 == place then Function.update held m.slot m.wdata else held

/-- The store's clock, with the walk's port: the seam's write and the walk's, and the registers
behind the two reads. -/
def next (rst : Bool) (m : Seam) (w : Walk) (s : BlockStore) : BlockStore where
  ram :=
    let laid := if m.data then Function.update s.ram (seamWord m) m.wdata else s.ram
    if w.chbWe then Function.update laid w.chbPort w.chbD else laid
  header := placeWrite m 0#2 s.header
  hck := placeWrite m 1#2 s.hck
  dck := placeWrite m 2#2 s.dck
  tag := if m.tagWrite false then Function.update s.tag m.slot (m.wdata.extractLsb' 0 31)
    else s.tag
  valid :=
    if rst then fun _ => false
    else if m.tagWrite true then Function.update s.valid m.slot false
    else if m.tagWrite false then Function.update s.valid m.slot true
    else s.valid
  seamQ := s.ram (seamWord m)
  seamMetaQ := s.seamMeta m
  seamMetaSel := !decide (m.addr < 256#9)
  rdata := if s.seamMetaSel then s.seamMetaQ else s.seamQ
  chbQ := s.ram w.chbPort

end BlockStore

namespace Walk

variable {mainWords : Nat} {i : WalkInput} {m : Seam} {s : BlockStore} {w : Walk}

/-- The walk moves a slot's words. -/
def moves (w : Walk) : Prop := w.v = .read ∨ w.v = .write

/-- The registers a clock out of reset makes, before the lookup's. -/
def made (mainWords : Nat) (i : WalkInput) (m : Seam) (s : BlockStore) (w : Walk) : Walk :=
  w.pageStep i (w.stateStep mainWords s i m (w.started i w.pulses))

theorem next_reset (rst : i.rst = true) : (w.next mainWords i m s).v = .idle ∧
    (w.next mainWords i m s).chbWe = false ∧ (w.next mainWords i m s).lookAge = 0#2 := by
  unfold next
  rw [rst]
  exact ⟨rfl, rfl, rfl⟩

theorem started_pulses (busy : w.v ≠ .idle) : w.started i w.pulses = w.pulses := by
  unfold started
  simp [busy]

section Parts

variable {x : Walk}

theorem pageStep_lba : (w.pageStep i x).lba = x.lba := by
  unfold pageStep
  split_ifs <;> rfl

theorem started_lba : (w.started i x).lba = x.lba := by
  unfold started
  split_ifs <;> rfl

theorem ccwStep_lba : (w.ccwStep mainWords i x).lba = x.lba := by
  unfold ccwStep
  split_ifs <;> rfl

theorem glookStep_lba : (w.glookStep x).lba = x.lba := by
  unfold glookStep
  split_ifs <;> rfl

theorem waitStep_lba {back : WalkState} : (w.waitStep back m x).lba = x.lba := by
  unfold waitStep
  split_ifs <;> rfl

theorem lookStep_lba : (w.lookStep m x).lba = x.lba := by
  unfold lookStep
  cases w.hit <;> dsimp only <;> split_ifs <;> rfl

theorem readStep_lba : (w.readStep s i x).lba = x.lba := by
  unfold readStep
  split_ifs <;> rfl

theorem writeStep_lba : (w.writeStep i x).lba = x.lba := by
  unfold writeStep wroteBlock
  split_ifs <;> rfl

end Parts

theorem made_lba : (w.made mainWords i m s).lba = w.lba := by
  unfold made stateStep
  rw [pageStep_lba]
  cases place : w.v <;>
    simp only [ccwStep_lba, glookStep_lba, waitStep_lba, lookStep_lba, readStep_lba,
      writeStep_lba, started_lba, pulses]

theorem next_running (rst : i.rst = false) : w.next mainWords i m s =
    { w.made mainWords i m s with
      lba := w.block
      lookAge := if w.lba != w.block then 0 else (w.made mainWords i m s).lookAge
      hitQ := fun slot => s.valid slot && s.tag slot == w.reqTag } := by
  have kept : (w.made mainWords i m s).lba = w.lba := made_lba
  unfold next followStep
  rw [rst]
  change Walk.mk .. = _
  dsimp only [Bool.false_eq_true, if_false]
  rw [show w.pageStep i (w.stateStep mainWords s i m (w.started i w.pulses)) =
    w.made mainWords i m s from rfl]
  by_cases same : w.lba = w.block
  · rw [same] at kept
    simp [same, kept]
  · simp [same]

theorem pageStep_aside {x : Walk} (aside : ¬ w.moves) : w.pageStep i x = x := by
  unfold moves at aside
  push Not at aside
  unfold pageStep pageDone
  simp [aside]

/-- What a clock leaves of a walk that was on no slot and chose none. -/
structure Aside (y : Walk) : Prop where
  off : ¬ y.moves
  port : y.chbWe = false

theorem made_aside (off : ¬ w.moves) (other : w.v ≠ .look) : Aside (w.made mainWords i m s) := by
  unfold made
  rw [pageStep_aside off]
  unfold moves at off
  unfold stateStep
  cases place : w.v with
  | look => exact absurd place other
  | read => exact absurd (Or.inl place) off
  | write => exact absurd (Or.inr place) off
  | idle =>
    unfold started
    split_ifs
    · exact ⟨by simp [moves], rfl⟩
    · exact ⟨by simp [moves, pulses, place], rfl⟩
  | ended => exact ⟨by simp [moves], by rw [started_pulses (by simp [place])]; rfl⟩
  | ccw =>
    rw [started_pulses (by simp [place])]
    dsimp only
    unfold ccwStep
    split_ifs <;> exact ⟨by simp [moves, pulses, place] , rfl⟩
  | glook =>
    rw [started_pulses (by simp [place])]
    dsimp only
    unfold glookStep
    split_ifs <;> exact ⟨by simp [moves, pulses, place], rfl⟩
  | gwait =>
    rw [started_pulses (by simp [place])]
    dsimp only
    unfold waitStep
    split_ifs <;> exact ⟨by simp [moves, pulses, place], rfl⟩
  | wait =>
    rw [started_pulses (by simp [place])]
    dsimp only
    unfold waitStep
    split_ifs <;> exact ⟨by simp [moves, pulses, place], rfl⟩

/-- What choosing a slot leaves. -/
structure Chosen (w y : Walk) (slot : BitVec 5) : Prop where
  port : y.chbWe = false
  slot : y.chSlot = slot
  unread : y.rdValid = false
  block : y.block = w.block

theorem made_look (place : w.v = .look) :
    (∃ slot, w.chooses m = some slot ∧ Chosen w (w.made mainWords i m s) slot) ∨
      w.chooses m = none ∧ Aside (w.made mainWords i m s) := by
  have off : ¬ w.moves := by simp [moves, place]
  unfold made
  rw [pageStep_aside off, started_pulses (by simp [place])]
  simp only [stateStep, place]
  unfold lookStep chooses
  cases found : w.hit with
  | none =>
    right
    constructor
    · simp
    · split_ifs <;> exact ⟨by simp [moves, pulses, place], rfl⟩
  | some slot =>
    by_cases past : w.cur.getLsbD 28 = true
    · rw [if_pos past, if_neg (by simp [past])]
      exact Or.inr ⟨rfl, by simp [moves], rfl⟩
    rw [if_neg past]
    rw [Bool.not_eq_true] at past
    by_cases looked : w.looked = true
    · rw [if_pos looked, if_pos ⟨place, past, looked⟩]
      dsimp only
      by_cases held : (m.busy && m.busySlot == slot) = true
      · rw [if_pos held]
        exact Or.inr ⟨by simp [Option.filter, held], by simp [moves, pulses, place], rfl⟩
      · rw [if_neg held]
        exact Or.inl ⟨slot, by simp [Option.filter, held], rfl, rfl, rfl, rfl⟩
    · rw [if_neg looked, if_neg (by simp [looked])]
      exact Or.inr ⟨rfl, by simp [moves, pulses, place], rfl⟩

/-- What a clock leaves of a walk on a slot: still on it with the same block, or away from it. -/
structure Stayed (w y : Walk) : Prop where
  slot : y.chSlot = w.chSlot
  block : y.moves → y.block = w.block
  same : y.moves → y.v = w.v
  fresh : y.v = .read → y.rdValid = true → y.chW = w.chW
  port : y.chbWe = true → y.v ≠ .read ∧ y.chbA = w.chWord

theorem pageStep_stayed {x : Walk} (stayed : Stayed w x) : Stayed w (w.pageStep i x) := by
  unfold pageStep
  split_ifs
  · exact ⟨stayed.slot, by simp [moves], by simp [moves], by simp,
      fun up => ⟨by simp, (stayed.port up).2⟩⟩
  · exact ⟨stayed.slot, stayed.block, stayed.same, stayed.fresh, stayed.port⟩
  · exact stayed

theorem made_read (place : w.v = .read) : Stayed w (w.made mainWords i m s) := by
  unfold made
  apply pageStep_stayed
  rw [started_pulses (by simp [place])]
  simp only [stateStep, place]
  unfold readStep
  split_ifs <;> constructor <;> simp_all [moves, pulses, block, cur]

theorem made_write (place : w.v = .write) : Stayed w (w.made mainWords i m s) := by
  unfold made
  apply pageStep_stayed
  rw [started_pulses (by simp [place])]
  simp only [stateStep, place]
  unfold writeStep wroteBlock
  split_ifs <;> constructor <;> simp_all [moves, pulses, block, cur]

theorem next_visit (visit : (w.next mainWords i m s).moves ∨
    (w.next mainWords i m s).chbWe = true) :
    i.rst = false ∧
      ((∃ slot, w.chooses m = some slot ∧ Chosen w (w.next mainWords i m s) slot) ∨
        w.moves ∧ Stayed w (w.next mainWords i m s)) := by
  cases rst : i.rst with
  | true =>
    obtain ⟨place, port, -⟩ : (w.next mainWords i m s).v = .idle ∧
      (w.next mainWords i m s).chbWe = false ∧ _ := next_reset rst
    simp [moves, place, port] at visit
  | false =>
    refine ⟨rfl, ?_⟩
    rw [next_running rst] at visit ⊢
    by_cases on : w.moves
    · have stayed : Stayed w (w.made mainWords i m s) := by
        rcases on with place | place
        · exact made_read place
        · exact made_write place
      exact Or.inr ⟨on, stayed.slot, stayed.block, stayed.same, stayed.fresh, stayed.port⟩
    · have away : ¬ Aside (w.made mainWords i m s) := by
        intro aside
        rcases visit with moves | port
        · exact aside.off moves
        · simp [aside.port] at port
      by_cases place : w.v = .look
      · have look : (∃ slot, w.chooses m = some slot ∧ Chosen w (w.made mainWords i m s) slot) ∨
            w.chooses m = none ∧ Aside (w.made mainWords i m s) := made_look place
        rcases look with ⟨slot, chooses, chosen⟩ | ⟨-, aside⟩
        · exact Or.inl ⟨slot, chooses, chosen.port, chosen.slot, chosen.unread, chosen.block⟩
        · exact absurd aside away
      · exact absurd (made_aside on place) away

theorem next_looked (looked : (w.next mainWords i m s).looked = true) :
    i.rst = false ∧ w.lba = w.block ∧ (w.next mainWords i m s).lba = w.lba := by
  unfold Walk.looked at looked
  simp only [Bool.and_eq_true, beq_iff_eq] at looked
  cases rst : i.rst with
  | true =>
    obtain ⟨-, -, young⟩ : _ ∧ _ ∧ (w.next mainWords i m s).lookAge = 0#2 := next_reset rst
    simp [young] at looked
  | false =>
    rw [next_running rst] at looked ⊢
    by_cases same : w.lba = w.block
    · exact ⟨rfl, same, same.symm⟩
    · simp [same] at looked

theorem chooses_spec {slot : BitVec 5} (chooses : w.chooses m = some slot) :
    w.v = .look ∧ w.looked = true ∧ w.hitQ slot = true ∧
      ¬ (m.busy = true ∧ m.busySlot = slot) := by
  unfold Walk.chooses at chooses
  split_ifs at chooses with place
  · rw [Option.filter_eq_some_iff] at chooses
    refine ⟨place.1, place.2.2, List.find?_some chooses.1, ?_⟩
    rintro ⟨busy, same⟩
    simp [busy, same] at chooses

end Walk

end MuirFpga.Quux
