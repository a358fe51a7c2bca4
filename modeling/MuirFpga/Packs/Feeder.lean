import MuirFpga.Packs.Face

/-!
# The disk pack program

`pack_feeder.c` over the face and the bay, function by function: a block served into a slot, a
slot written back onto its pack, the pass over the face, the flushes, and the look at the bay.
Every answer of the face and of the filesystem is a beat of the environment, and the walk's
writes ride on the beats. Beside the program's own state the model keeps what the machine wrote
to each block last, which blocks a loss was counted for, a log of the moves the face took, the
block of each slot's last fetch, and the write-backs asked for; nothing the program does reads
them. The console's lines, the tallies nothing reads and the
drive seam are left out.
-/

namespace MuirFpga.Packs

/-- `struct pack_geometry`. -/
structure Geometry where
  cylinders : Nat
  heads : Nat
  blocksPerTrack : Nat

/-- A pack in the bay: which opening it is, which file, and its shape. -/
structure Pack where
  id : Nat
  dev : Nat
  ino : Nat
  size : Nat
  geometry : Geometry
  blocks : Nat
  writable : Bool

/-- A drive of the bay. -/
structure Drive where
  pack : Pack
  readOnly : Bool

/-- `bay_look`: what a name of the bay is. -/
structure Look where
  there : Bool
  isPack : Bool
  readOnly : Bool
  dev : Nat
  ino : Nat
  size : Nat

/-- What the file makes of a block written to it: the write and its sync are done, or one of
them is not, and then the block on the medium is anything. -/
inductive FileOp
  | done
  | failed (left : Record)

/-- What the environment answers in one access: the walk's writes before it and after a move,
the face's reply, the word a register reads as, what the write-back area holds where the slot's
words are not there, the word after it, and what the filesystem does. -/
structure Beat where
  before : List (Slot × Record)
  after : List (Slot × Record)
  reply : Reply
  word : BitVec 32
  area : Record
  pad : BitVec 32
  file : FileOp
  readable : Bool
  look : Look
  alive : Bool
  opens : Option (Geometry × Nat)
  reopens : Bool

/-- A move the face took, as it found things: a write-back with all that decides whether the
block reaches its pack, or a fetch or take-away with whether the slot still owed its words. -/
inductive Event
  | writeBack (reply : Reply) (moved pad inRange writable : Bool) (file : FileOp)
  | drops (owed : Bool)

/-- A write-back asked for: the block whose tag the slot had, the block of the slot's last fetch,
and the block its words are put on. -/
structure Placing where
  tagged : Option Block
  fetched : Option Block
  onto : Block

/-- The program, the store, the bay and the files. -/
structure World where
  face : Face
  linear : Bool
  table : Slot → Option (Fin 8 × Nat)
  hand : Slot
  haveLast : Bool
  lastAnswered : BitVec 31
  repeatServes : Nat
  drives : Fin 8 → Option Drive
  opened : Nat
  media : Block → Record
  failures : Nat
  flushed : Nat
  lostAtStart : Nat
  lostEvents : Nat
  lostBlocks : Nat
  last : Block → Option Record
  counted : List Block
  log : List Event
  fetched : Slot → Option Block
  placed : List Placing
  clock : Nat

/-- `feeder_fetch_addr` and `feeder_wb_addr`: a slot's two record areas. -/
def feederFetchAddr (slot : Slot) : BitVec 32 := 0x1C100000#32 + BitVec.ofNat 32 (slot * 0x800)
def feederWbAddr (slot : Slot) : BitVec 32 := 0x1C110000#32 + BitVec.ofNat 32 (slot * 0x800)

/-- `feeder_poison`. -/
def feederPoison (addr : BitVec 32) (i : Nat) : BitVec 32 :=
  let a := addr >>> 7
  let k := BitVec.ofNat 32 i
  let v := a * 0x9E3779B1#32 ^^^ k * 0x85EBCA6B#32 ^^^ (a ^^^ k) * 0xC2B2AE35#32 ^^^ 0x5A5AA5A5#32
  if v = 0#32 then 1#32 else if v = 0xFFFFFFFF#32 then 0xFFFFFFFE#32 else v

/-- Every word of the record is the poison it was given before the move. -/
def allPoison (addr : BitVec 32) (record : Record) : Bool :=
  (List.finRange 259).all fun i => record i == feederPoison addr i

/-- `ps_tag_split`. -/
def psTagSplit (tag : BitVec 31) : Fin 8 × Nat × Nat × Nat :=
  ((tag.extractLsb' 28 3).toFin, (tag.extractLsb' 16 12).toNat, (tag.extractLsb' 8 8).toNat,
    (tag.extractLsb' 0 8).toNat)

/-- `pack_lba`: a block's number from the start of the pack, or nothing off it. -/
def packLba (g : Geometry) (c h b : Nat) : Option Nat :=
  if c ≥ g.cylinders ∨ h ≥ g.heads ∨ b ≥ g.blocksPerTrack then none
  else some (c * g.heads * g.blocksPerTrack + h * g.blocksPerTrack + b)

/-- What a disk keeps of a record: a pack all of it, QUUX's disk its words and not the three
after them. -/
def keep (linear : Bool) (record : Record) : Record := fun i =>
  if linear && decide (256 ≤ i.val) then 0#32 else record i

namespace World

/-- `bay_pack`. -/
def bayPack (w : World) (unit : Fin 8) : Option Pack := (w.drives unit).map Drive.pack

/-- The walk writes a slot: only one that has a block's tag, and its DIRTY bit rises. -/
def walkWrite (w : World) (write : Slot × Record) : World :=
  match w.face.owner write.1 with
  | none => w
  | some block =>
    { w with
      face :=
        { w.face with
          dirty := Function.update w.face.dirty write.1 true
          content := Function.update w.face.content write.1 write.2 }
      last := Function.update w.last block (some write.2) }

/-- The walk between two accesses. -/
def walk (w : World) (writes : List (Slot × Record)) : World := writes.foldl walkWrite w

/-- The slot still has words of the machine's that no loss was counted for. -/
def owed (w : World) (slot : Slot) : Bool :=
  w.face.dirty slot && match w.face.owner slot with
    | none => false
    | some block => !w.counted.contains block

/-- A loss counted for a slot's block. -/
def count (w : World) (block : Option Block) : World :=
  { w with counted := block.toList ++ w.counted }

/-- A move the face took, or did not: the store after it, and the log. -/
def moved (w : World) (reply : Reply) (event : Event) (face : Face) : World :=
  { w with log := if reply.taken then event :: w.log else w.log, face := face }

/-- A record on the medium. -/
def put (w : World) (block : Block) (record : Record) : World :=
  { w with media := Function.update w.media block record }

/-- The table forgets a slot. -/
def forget (w : World) (slot : Slot) : World :=
  { w with table := Function.update w.table slot none }

end World

/-- A part of the program. -/
abbrev Run := StateM World

/-- What the moves return: done, the walk's slot, or a failure. -/
inductive Result
  | ok
  | walk
  | failed
  deriving DecidableEq

section

variable (env : Nat → Beat)

/-- One access: the walk's writes before it, and what it is answered. -/
def access : Run Beat := fun w =>
  (env w.clock, { w.walk (env w.clock).before with clock := w.clock + 1 })

/-- `ps_dirty`. -/
def psDirty : Run (Slot → Bool) := do
  let _ ← access env
  return (← get).face.dirty

/-- A register read as the environment has it: `ps_irq`, `ps_req`, `ps_ref`, `ps_status`. -/
def psRead : Run (BitVec 32) := do
  let beat ← access env
  return beat.word

/-- A failure counted. -/
def fail : Run Result := do
  modify fun w => { w with failures := w.failures + 1 }
  return .failed

/-- The table with a slot's block in it, and the block's stale claims dropped. -/
def World.claim (w : World) (slot : Slot) (entry : Fin 8 × Nat) : World :=
  { w with
    table := fun s => if s = slot then some entry else if w.table s = some entry then none
      else w.table s }

/-- The table as a fetch's answer leaves it. -/
def fetchAnswered (unit : Fin 8) (pk : Pack) (lba : Nat) (slot : Slot) (beat : Beat) :
    Run Result := do
  modify fun w => w.moved beat.reply (.drops (w.owed slot))
    (w.face.request .fetch slot ⟨pk.id, lba⟩ (w.media ⟨pk.id, lba⟩) beat.reply)
  modify fun w => w.walk beat.after
  match psRequest .fetch (feederFetchAddr slot) beat.reply with
  | (.walkSlot, _) => return .walk
  | (.ok, _) =>
    modify fun w => w.claim slot (unit, lba)
    return .ok
  | (_, st) =>
    -- A refused request moved nothing; one that was not has taken the slot's block away.
    if st.getLsbD 3 then fail
    else
      modify fun w => w.forget slot
      fail

/-- A fetch with the face's answer in hand. -/
def fetchMoved (unit : Fin 8) (pk : Pack) (lba : Nat) (slot : Slot) (beat : Beat) :
    Run Result := do
  modify fun w =>
    { w with
      fetched := if beat.reply.taken then Function.update w.fetched slot (some ⟨pk.id, lba⟩)
        else w.fetched }
  fetchAnswered unit pk lba slot beat

/-- `serve_record`: a block's record fetched into a slot. -/
def serveRecord (unit : Fin 8) (pk : Pack) (lba : Nat) (slot : Slot) : Run Result := do
  let beat ← access env
  if lba ≥ pk.blocks ∨ beat.readable = false then fail
  else fetchMoved unit pk lba slot beat

/-- `feeder_serve`. -/
def feederServe (unit : Fin 8) (c h b : Nat) (slot : Slot) : Run Result := do
  match (← get).bayPack unit with
  | none => fail
  | some pk =>
    match packLba pk.geometry c h b with
    | none => fail
    | some lba => serveRecord env unit pk lba slot

/-- The drives are eight. -/
local instance driveCount : NeZero 8 := ⟨by decide⟩

/-- `feeder_serve_lba`. -/
def feederServeLba (lba : Nat) (slot : Slot) : Run Result := do
  match (← get).bayPack 0 with
  | none => fail
  | some pk => if lba ≥ pk.blocks then fail else serveRecord env 0 pk lba slot

/-- `pack_writeback`: the record onto the pack, and synced. -/
def packWriteback (pk : Pack) (lba : Nat) (record : Record) (file : FileOp) : Run Bool := do
  if lba ≥ pk.blocks ∨ pk.writable = false then return false
  else
    match file with
    | .done =>
      modify fun w => w.put ⟨pk.id, lba⟩ (keep w.linear record)
      return true
    | .failed left =>
      modify fun w => w.put ⟨pk.id, lba⟩ left
      return false

/-- The record in a slot's write-back area after a move: the slot's words, unless they did not
land or the walk wrote the slot while they moved. -/
def areaRecord (beat : Beat) (slot : Slot) (words : Record) : Record :=
  if beat.reply.landed && !beat.after.any (fun write => write.1 == slot) then words else beat.area

/-- A write-back's record, checked to have moved, and put on the pack. -/
def writebackAnswered (slot : Slot) (pk : Pack) (lba : Nat) (beat : Beat) : Run Result := do
  let addr := feederWbAddr slot
  let record := areaRecord beat slot ((← get).face.content slot)
  modify fun w => w.moved beat.reply
    (.writeBack beat.reply (!allPoison addr record) (beat.pad == feederPoison addr 259)
      (decide (lba < pk.blocks)) pk.writable beat.file)
    (w.face.request .write slot ⟨pk.id, lba⟩ record beat.reply)
  modify fun w => w.walk beat.after
  match psRequest .write addr beat.reply with
  | (.walkSlot, _) => return .walk
  | (.ok, _) =>
    if allPoison addr record then fail
    else if beat.pad ≠ feederPoison addr 259 then fail
    else if ← packWriteback pk lba record beat.file then return .ok
    else fail
  | _ => fail

/-- A write-back with the face's answer in hand. -/
def writebackMoved (slot : Slot) (pk : Pack) (lba : Nat) (beat : Beat) : Run Result := do
  modify fun w =>
    { w with placed := ⟨w.face.owner slot, w.fetched slot, ⟨pk.id, lba⟩⟩ :: w.placed }
  writebackAnswered slot pk lba beat

/-- `feeder_writeback`: a slot's words moved to its area and put on the pack of its block. -/
def feederWriteback (slot : Slot) : Run Result := do
  match (← get).table slot with
  | none => fail
  | some (unit, lba) =>
    match (← get).bayPack unit with
    | none => fail
    | some pk =>
      let beat ← access env
      writebackMoved slot pk lba beat

/-- `ps_take` on a slot, and the table without it. -/
def takeSlot (slot : Slot) : Run Result := do
  let beat ← access env
  modify fun w => w.moved beat.reply (.drops (w.owed slot))
    (w.face.request .take slot ⟨0, 0⟩ (w.face.content slot) beat.reply)
  modify fun w => w.walk beat.after
  match psRequest .take 0#32 beat.reply with
  | (.walkSlot, _) => return .walk
  | (.ok, _) =>
    modify fun w => w.forget slot
    return .ok
  | _ => return .failed

/-- `feeder_take`: a slot's block taken away. -/
def feederTake (slot : Slot) : Run Result := do
  let taken ← takeSlot env slot
  if taken = .failed then fail else return taken

/-- `next_victim`: second chance from the hand. -/
def nextVictim (skip : List Slot) : (tries : Nat) → (ref : Slot → Bool) → Run (Option Slot)
  | 0, _ => return none
  | tries + 1, ref => do
    let s := (← get).hand
    modify fun w => { w with hand := s + 1 }
    if s ∈ skip then nextVictim skip tries ref
    else if ref s then nextVictim skip tries (Function.update ref s false)
    else return some s

/-- `deny`: the request standing is denied. -/
def deny : Run Unit := do
  let _ ← access env

/-- The victim's words, written back where it still has them. -/
def clearVictim (dirty : Slot → Bool) (v : Slot) : Run Result :=
  if dirty v then feederWriteback env v else return .ok

/-- The block into the victim. -/
def serveSlot (unit : Fin 8) (c h b lba : Nat) (v : Slot) : Run Result := do
  if (← get).linear then feederServeLba env lba v else feederServe env unit c h b v

/-- A block served into the first slot that takes it, a dirty one written back first. -/
def serveInto (unit : Fin 8) (c h b lba : Nat) (tag : BitVec 31) :
    (tries : Nat) → (skip : List Slot) → Run Result
  | 0, _ => fail
  | tries + 1, skip => do
    let ref ← psRead env
    match ← nextVictim skip 49 (fun s => ref.getLsbD s) with
    | none => fail
    | some v =>
      let dirty ← psDirty env
      match ← clearVictim env dirty v with
      | .walk => serveInto unit c h b lba tag tries (v :: skip)
      | .failed => return .failed
      | .ok =>
        match ← serveSlot env unit c h b lba v with
        | .walk => serveInto unit c h b lba tag tries (v :: skip)
        | .failed =>
          deny env
          return .failed
        | .ok =>
          modify fun w =>
            { w with
              repeatServes := if w.haveLast && w.lastAnswered == tag then w.repeatServes + 1 else 1
              haveLast := true
              lastAnswered := tag }
          return .ok

/-- The block a request asks for, or nothing off its pack. -/
def askedLba (linear : Bool) (pk : Pack) (tag : BitVec 31) : Option Nat :=
  if linear then
    if tag.extractLsb' 28 3 ≠ 0#3 ∨ (tag.extractLsb' 0 28).toNat ≥ pk.blocks then none
    else some (tag.extractLsb' 0 28).toNat
  else packLba pk.geometry (psTagSplit tag).2.1 (psTagSplit tag).2.2.1 (psTagSplit tag).2.2.2

/-- `answer`: one request served or denied. -/
def answer (tag : BitVec 31) : Run Result := do
  let split := psTagSplit tag
  let unit := if (← get).linear then 0 else split.1
  match (← get).bayPack unit with
  | none =>
    deny env
    return .ok
  | some pk =>
    match askedLba (← get).linear pk tag with
    | none =>
      deny env
      return .ok
    | some lba =>
      if (← get).haveLast && (← get).lastAnswered == tag then
        modify fun w => { w with repeatServes := w.repeatServes + 1 }
        if (← get).repeatServes ≥ 3 then
          modify fun w => { w with repeatServes := 0 }
          deny env
          let _ ← fail
          return .ok
        else serveInto env unit split.2.1 split.2.2.1 split.2.2.2 lba tag 24 []
      else serveInto env unit split.2.1 split.2.2.1 split.2.2.2 lba tag 24 []

/-- The dirty slots of a pass, at leisure: a slot the walk is on is left for the next, one whose
block the program does not know is left, and a failure ends the pass. -/
def passDirty (dirty : Slot → Bool) : List Slot → Run Result
  | [] => return .ok
  | s :: rest => do
    if dirty s then
      match (← get).table s with
      | none =>
        let _ ← fail
        passDirty dirty rest
      | some _ =>
        match ← feederWriteback env s with
        | .failed => return .failed
        | _ => passDirty dirty rest
    else passDirty dirty rest

/-- The request that stands, if one does. -/
def answerStanding (req : BitVec 32) : Run Result :=
  if req.getLsbD 31 then answer env (req.extractLsb' 0 31) else return .ok

/-- `feeder_pass`, `feeder_poll`: the events, the request, the dirty slots. -/
def feederPoll : Run Result := do
  let _ ← psRead env
  let req ← psRead env
  if (← answerStanding env req) = .failed then return .failed
  else passDirty env (← psDirty env) (List.finRange 24)

/-- `feeder_flush`: passes until no slot is dirty; how many still are. -/
def feederFlush : (passes : Nat) → Run Nat
  | 0 => do
    let dirty ← psDirty env
    return (List.finRange 24).countP dirty
  | passes + 1 => do
    let dirty ← psDirty env
    if (List.finRange 24).countP dirty = 0 then return 0
    else if (← feederPoll env) = .failed then return 24
    else feederFlush passes

/-- One pass of a unit's flush: how many of its slots are still dirty, how many were written,
and whether one was the walk's. -/
def flushPass (unit : Fin 8) (dirty : Slot → Bool) : List Slot → Run (Nat × Nat × Bool)
  | [] => return (0, 0, false)
  | s :: rest => do
    if dirty s && (((← get).table s).map Prod.fst == some unit) then
      let r ← feederWriteback env s
      let (still, done, deferred) ← flushPass unit dirty rest
      match r with
      | .walk => return (still + 1, done, true)
      | .ok => return (still, done + 1, deferred)
      | .failed => return (still + 1, done, deferred)
    else flushPass unit dirty rest

/-- `feeder_flush_unit`: how many of the unit's slots are still owed, and how many were
written. -/
def feederFlushUnit (unit : Fin 8) : (passes still done : Nat) → Run (Nat × Nat)
  | 0, still, done => return (still, done)
  | passes + 1, _, done => do
    let dirty ← psDirty env
    let (still, wrote, deferred) ← flushPass env unit dirty (List.finRange 24)
    if still = 0 || !deferred then return (still, done + wrote)
    else feederFlushUnit unit passes still (done + wrote)

/-- One pass over a unit's slots that takes them away. -/
def takePass (unit : Fin 8) : List Slot → Run (Nat × Bool)
  | [] => return (0, false)
  | s :: rest => do
    if ((← get).table s).map Prod.fst == some unit then
      let r ← feederTake env s
      let (n, deferred) ← takePass unit rest
      match r with
      | .walk => return (n, true)
      | .ok => return (n + 1, deferred)
      | .failed => return (n, deferred)
    else takePass unit rest

/-- The passes of it, and how many slots went. -/
def takePasses (unit : Fin 8) : (passes n : Nat) → Run Nat
  | 0, n => return n
  | passes + 1, n => do
    let (took, deferred) ← takePass env unit (List.finRange 24)
    if !deferred then return n + took else takePasses unit passes (n + took)

/-- `feeder_take_unit`: a unit's slots taken away, and what is left of them forgotten. -/
def feederTakeUnit (unit : Fin 8) : Run Nat := do
  let n ← takePasses env unit 8 0
  modify fun w =>
    { w with table := fun s => if (w.table s).map Prod.fst = some unit then none else w.table s }
  return n

/-- `owed_blocks`: the unit's slots that are still dirty, each counted. -/
def owedBlocks (unit : Fin 8) : Run Nat := do
  let dirty ← psDirty env
  let w ← get
  let owed := (List.finRange 24).filter fun s =>
    dirty s && ((w.table s).map Prod.fst == some unit)
  modify fun w => owed.foldl (fun w s => w.count (match w.table s, w.bayPack unit with
    | some (_, lba), some pk => some ⟨pk.id, lba⟩
    | _, _ => none)) w
  return owed.length

/-- A unit's flush, its count kept. -/
def flushUnit (unit : Fin 8) : Run Unit := do
  let (_, wrote) ← feederFlushUnit env unit 8 0 0
  modify fun w => { w with flushed := w.flushed + wrote }

/-- The flush of a pack that leaves, where its file can still take it. -/
def bayFlush (unit : Fin 8) (mayFlush : Bool) : Run Unit := do
  let beat ← access env
  if mayFlush && ((← get).bayPack unit).isSome && beat.alive then flushUnit env unit

/-- `bay_remove`: a pack leaves the bay; the blocks it could not be given are counted. -/
def bayRemove (unit : Fin 8) (mayFlush : Bool) : Run Nat := do
  bayFlush env unit mayFlush
  let lost ← owedBlocks env unit
  modify fun w =>
    { w with
      lostEvents := if lost = 0 then w.lostEvents else w.lostEvents + 1
      lostBlocks := w.lostBlocks + lost }
  let _ ← feederTakeUnit env unit
  modify fun w => { w with drives := Function.update w.drives unit none }
  return lost

/-- `bay_add`: a pack opened, under a count of its own. -/
def bayAdd (unit : Fin 8) (look : Look) (opens : Option (Geometry × Nat)) : Run Unit :=
  match opens with
  | none => return
  | some (geometry, blocks) =>
    modify fun w =>
      { w with
        opened := w.opened + 1
        drives := Function.update w.drives unit (some
          { pack :=
              { id := w.opened, dev := look.dev, ino := look.ino, size := look.size,
                geometry := geometry, blocks := blocks, writable := !look.readOnly }
            readOnly := look.readOnly }) }

/-- The pack under a name, if the look found one. -/
def addLooked (unit : Fin 8) (beat : Beat) : Run Unit :=
  if beat.look.there && beat.look.isPack then bayAdd unit beat.look beat.opens else return

/-- The flush before a pack is protected. -/
def flushProtected (unit : Fin 8) (readOnly : Bool) : Run Unit :=
  if readOnly then flushUnit env unit else return

/-- `bay_reopen`: the pack's file opened again, writable or not. -/
def bayReopen (unit : Fin 8) (readOnly reopens : Bool) : Run Bool := do
  if reopens then
    modify fun w =>
      { w with
        drives := Function.update w.drives unit ((w.drives unit).map fun d =>
          { pack := { d.pack with writable := !readOnly }, readOnly := readOnly }) }
    return true
  else return false

/-- One name of the bay: gone, replaced, written over, protected or not any more, or new. -/
def scanUnit (unit : Fin 8) : Run Bool := do
  let beat ← access env
  match (← get).drives unit with
  | none =>
    addLooked unit beat
    return true
  | some drive =>
    let sameFile :=
      beat.look.there && beat.look.dev == drive.pack.dev && beat.look.ino == drive.pack.ino
    if !(sameFile && beat.look.isPack && beat.look.size == drive.pack.size) then
      let _ ← bayRemove env unit (!sameFile)
      addLooked unit beat
      return true
    else if beat.look.readOnly != drive.readOnly then
      flushProtected env unit beat.look.readOnly
      bayReopen unit beat.look.readOnly beat.reopens
    else return true

/-- The names in turn, and whether each went well. -/
def scanUnits : List (Fin 8) → Run Bool
  | [] => return true
  | unit :: rest => do
    let here ← scanUnit env unit
    let others ← scanUnits rest
    return here && others

/-- `feeder_bay_scan`: nothing while the channel walks or the bay cannot be read, else every
name. -/
def feederBayScan : Run (Option Bool) := do
  let status ← psRead env
  if status.getLsbD 4 then return none
  else
    let beat ← access env
    if !beat.readable then return some true
    else return some (← scanUnits env (List.finRange 8))

/-- A slot that was dirty before the program started, its block unknown to it. -/
def countAtStart (dirty : Bool) (s : Slot) : Run Unit :=
  if dirty then
    modify fun w => { w.count (w.face.owner s) with lostAtStart := w.lostAtStart + 1 }
  else return

/-- The start's take-aways. -/
def startTakes (dirty : Slot → Bool) : List Slot → Run Bool
  | [] => return true
  | s :: rest => do
    countAtStart (dirty s) s
    if (← takeSlot env s) = .ok then startTakes dirty rest else return false

/-- The tries of the start's first look at the bay. -/
def startScans : (tries : Nat) → Run Bool
  | 0 => return true
  | tries + 1 => do
    match ← feederBayScan env with
    | some done => return done
    | none => startScans tries

/-- `feeder_start`: every slot taken away, and the bay as it already stands. -/
def feederStart : Run Bool := do
  modify fun w => { w with hand := 0 }
  let dirty ← psDirty env
  if ← startTakes env dirty (List.finRange 24) then startScans env 64 else return false

end

/-- What the program calls once it has started. -/
inductive Op
  | poll
  | flush (passes : Nat)
  | flushUnit (unit : Fin 8) (passes : Nat)
  | takeUnit (unit : Fin 8)
  | bayScan

/-- A call. -/
def Op.run (env : Nat → Beat) (op : Op) (w : World) : World :=
  match op with
  | .poll => (feederPoll env w).2
  | .flush passes => (feederFlush env passes w).2
  | .flushUnit unit passes => (feederFlushUnit env unit passes 0 0 w).2
  | .takeUnit unit => (feederTakeUnit env unit w).2
  | .bayScan => (feederBayScan env w).2

end MuirFpga.Packs
