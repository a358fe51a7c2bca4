import MuirFpga.Packs.Books
import MuirFpga.Disk.Store
import MuirFpga.Sync.Trace

/-!
# A move between the memory and the block store

The pack side with the block store behind its seam and the memory port's side of the handshakes,
and a record of what the move in progress, or the last one, has done: the bursts it asked for, the
beats it took and sent, the words it had of the store and what it wrote there. The record begins
at an accepted go.
-/

namespace MuirFpga.Packs.DiskPack

open Quux (Seam)

/-- What a go asks for. -/
inductive Errand
  | fetch
  | back
  | away
  deriving DecidableEq

/-- A burst as its address channel offers it: the address, and the beats less one. -/
structure Burst where
  addr : BitVec 32
  len : BitVec 4

/-- A beat the memory sent. -/
structure ReadBeat where
  data : BitVec 64
  resp : BitVec 2
  last : Bool

/-- A beat the memory was sent. -/
structure WriteBeat where
  data : BitVec 64
  strb : BitVec 8
  last : Bool

/-- A write at the block store's port. -/
structure Deposit where
  slot : BitVec 5
  place : BitVec 9
  word : BitVec 32
  deriving DecidableEq

/-- What a move has done since its go. -/
structure Move where
  errand : Errand
  base : BitVec 32
  slot : BitVec 5
  tag : BitVec 31
  dropped : Bool
  reads : List Burst
  beats : List ReadBeat
  deposits : List Deposit
  writes : List Burst
  seen : List (BitVec 32)
  sends : List WriteBeat
  answers : Nat

/-- The memory port's side of the handshakes: the read beats it owes, a write address taken and a
burst's last beat taken, with the response still to come. -/
structure Owed where
  beats : Nat
  addressed : Bool
  ended : Bool

/-- The pack side, the block store, the memory port and the move's record. -/
structure Transfer (c : Config) where
  pack : State c
  store : Disk.Store
  port : Owed
  move : Move

/-- What a clock brings: the pack side's inputs, the walk's side and the controller's. -/
structure Clock (c : Config) where
  input : Input c
  channel : Channel
  controller : Disk.Controller

variable {c : Config}

/-- The word at a place of a slot, as the seam's port reads it. -/
def wordAt (store : Disk.Store) (slot : BitVec 5) (place : BitVec 9) : BitVec 32 :=
  let seam : Seam := ⟨false, slot, place, 0, false, false, 0⟩
  if place < 256#9 then store.ram (Disk.Store.seamWord seam) else store.seamMeta seam

/-- The port's side of a clock. -/
def Owed.next (i : Input c) (m : Mover) (p : Owed) : Owed where
  beats :=
    if m.arvalid && i.mArready then p.beats + m.len.toNat + 1
    else if i.mRvalid && m.rready then p.beats - 1
    else p.beats
  addressed := if i.mBvalid && m.bready then false else p.addressed || (m.awOn && i.mAwready)
  ended := if i.mBvalid && m.bready then false
    else p.ended || (m.wvalid && i.mWready && m.lastBeat)

namespace Move

/-- The record of a move at its go. -/
def begun (g : Regs) (dropped : Bool) : Move where
  errand := if g.goQ.getLsbD 1 then .back else if g.goQ.getLsbD 2 then .away else .fetch
  base := g.addr
  slot := g.slot
  tag := g.tag
  dropped := dropped
  reads := []
  beats := []
  deposits := []
  writes := []
  seen := []
  sends := []
  answers := 0

/-- The fabric's reset finds the move before its tag. -/
def drops (i : Input c) (m : Mover) : Bool :=
  i.fabricRst && m.pst != .idle && m.pst != .tag

/-- What a clock adds to the record; `n` is the master after it, and the store's port is read in
`P_W1` and `P_W2`. -/
def next (i : Input c) (store : Disk.Store) (m n : Mover) (d : Move) : Move :=
  { d with
    dropped := d.dropped || drops i m
    reads := if m.arvalid && i.mArready then d.reads ++ [⟨m.burstAddr, m.len⟩] else d.reads
    beats := if i.mRvalid && m.rready then d.beats ++ [⟨i.mRdata, i.mRresp, i.mRlast⟩] else d.beats
    deposits := if n.storeWe then d.deposits ++ [⟨n.storeSlot, n.storeAddr, n.storeWdata⟩]
      else d.deposits
    writes := if m.awOn && i.mAwready then d.writes ++ [⟨m.burstAddr, m.len⟩] else d.writes
    seen := if m.pst == .w1 || m.pst == .w2 then
        d.seen ++ [wordAt store d.slot (BitVec.ofNat 9 d.seen.length)]
      else d.seen
    sends := if m.wvalid && i.mWready then d.sends ++ [⟨m.wdata, m.wstrb, m.lastBeat⟩] else d.sends
    answers := if i.mBvalid && m.bready then d.answers + 1 else d.answers }

end Move

namespace Transfer

/-- The seam as the pack side drives it. -/
def seam (s : Transfer c) : Seam where
  we := s.pack.mover.storeWe
  slot := s.pack.mover.storeSlot
  addr := s.pack.mover.storeAddr
  wdata := s.pack.mover.storeWdata
  deny := s.pack.regs.goQ.getLsbD 3
  busy := s.pack.mover.moving
  busySlot := s.pack.mover.pSlot

/-- A clock of the pack side and what stands about it. -/
def next (e : Clock c) (s : Transfer c) : Transfer c :=
  let pack := s.pack.next e.input { e.channel with rdata := s.store.rdata }
  { pack := pack
    store := s.store.next s.seam e.controller
    port := s.port.next e.input s.pack.mover
    move :=
      if s.pack.accepts then .begun s.pack.regs e.input.fabricRst
      else s.move.next e.input s.store s.pack.mover pack.mover }

/-- A memory port of its protocol, out of the port's own reset: no beat that is not owed, and no
response before the address and the last beat are taken. -/
structure Lawful (e : Clock c) (s : Transfer c) : Prop where
  live : e.input.rst = false
  beats : e.input.mRvalid = true → s.pack.mover.rready = true → 0 < s.port.beats
  answers : e.input.mBvalid = true → s.pack.mover.bready = true →
    s.port.ended = true ∧
      (s.port.addressed = true ∨ s.pack.mover.awOn = true ∧ e.input.mAwready = true)

/-- The fabric's reset does not come in the tick that stores the record's last word, and no go is
accepted while a drained move's end is still to be taken. -/
structure Timely (e : Clock c) (s : Transfer c) : Prop where
  apart : e.input.fabricRst = true → s.pack.mover.pst = .r → s.pack.mover.rbValid = true →
    s.pack.mover.padBeat = true → s.pack.mover.pDrop = true
  free : s.pack.accepts = true → s.pack.mover.pDrop = false

end Transfer
end MuirFpga.Packs.DiskPack
