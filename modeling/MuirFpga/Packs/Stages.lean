import MuirFpga.Packs.Transfer
import Mathlib.Data.List.GetD
import Mathlib.Tactic.SplitIfs

/-!
# Where a move stands

What a record of 259 words is on the memory's side and on the store's, and what each state of the
master says of the move: how many of its bursts have been asked for, how many of its beats have
come or gone, and how many of its words are laid or read.
-/

namespace MuirFpga.Packs.DiskPack

variable {c : Config}

/-- The beats of a record's first bursts: eight of sixteen, and one of two. -/
def beatsOf (bursts : Nat) : Nat := if bursts ≤ 8 then 16 * bursts else 130

/-- A burst of a record. -/
def burstOf (base : BitVec 32) (burst : Nat) : Burst :=
  ⟨base + BitVec.ofNat 32 (128 * burst), if burst = 8 then 1#4 else 15#4⟩

/-- The first bursts of a record. -/
def burstsOf (base : BitVec 32) (bursts : Nat) : List Burst :=
  (List.range bursts).map (burstOf base)

/-- A beat of the record is its burst's last. -/
def closes (beat : Nat) : Bool := (beat % 16 == 15 && decide (beat < 128)) || beat == 129

/-- A word of the record, of the beats that have come. -/
def wordOf (beats : List ReadBeat) (word : Nat) : BitVec 32 :=
  (beats.getD (word / 2) ⟨0, 0, false⟩).data.extractLsb' (32 * (word % 2)) 32

/-- The slot taken away. -/
def takenAway (slot : BitVec 5) : Deposit := ⟨slot, 259#9, 1#1 ++ 0#31⟩

/-- The slot tagged. -/
def tagged (slot : BitVec 5) (tag : BitVec 31) : Deposit := ⟨slot, 259#9, 0#1 ++ tag⟩

/-- A slot taken away and the record's first words laid in it, each at its own place. -/
def filling (slot : BitVec 5) (beats : List ReadBeat) (words : Nat) : List Deposit :=
  takenAway slot :: (List.range words).map fun word =>
    ⟨slot, BitVec.ofNat 9 word, wordOf beats word⟩

/-- A beat had SLVERR or DECERR, or RLAST was not where the length says. -/
def flawed (beats : List ReadBeat) : Bool :=
  beats.zipIdx.any fun beat => beat.1.resp.getLsbD 1 || beat.1.last != closes beat.2

/-- A beat of the record as it is sent: two words of the store, the pad not strobed. -/
def sending (seen : List (BitVec 32)) (beat : Nat) : WriteBeat :=
  ⟨seen.getD (2 * beat + 1) 0 ++ seen.getD (2 * beat) 0,
    if beat = 129 then 0x0F#8 else 0xFF#8, closes beat⟩

/-- The record's first beats as they are sent. -/
def sendings (seen : List (BitVec 32)) (beats : Nat) : List WriteBeat :=
  (List.range beats).map (sending seen)

theorem burstsOf_succ (base : BitVec 32) (bursts : Nat) :
    burstsOf base (bursts + 1) = burstsOf base bursts ++ [burstOf base bursts] := by
  simp [burstsOf, List.range_succ]

theorem filling_succ (slot : BitVec 5) (beats : List ReadBeat) (words : Nat) :
    filling slot beats (words + 1) =
      filling slot beats words ++ [⟨slot, BitVec.ofNat 9 words, wordOf beats words⟩] := by
  simp [filling, List.range_succ]

theorem sendings_succ (seen : List (BitVec 32)) (beats : Nat) :
    sendings seen (beats + 1) = sendings seen beats ++ [sending seen beats] := by
  simp [sendings, List.range_succ]

theorem filling_append {slot : BitVec 5} {beats : List ReadBeat} {words : Nat}
    (came : words ≤ 2 * beats.length) (beat : ReadBeat) :
    filling slot (beats ++ [beat]) words = filling slot beats words := by
  unfold filling
  congr 1
  apply List.map_congr_left
  intro word inside
  have less : word < words := List.mem_range.1 inside
  unfold wordOf
  rw [List.getD_append _ _ _ _ (by omega)]

theorem sendings_append {seen : List (BitVec 32)} {beats : Nat} (read : 2 * beats ≤ seen.length)
    (word : BitVec 32) : sendings (seen ++ [word]) beats = sendings seen beats := by
  unfold sendings
  apply List.map_congr_left
  intro beat inside
  have less : beat < beats := List.mem_range.1 inside
  unfold sending
  rw [List.getD_append _ _ _ _ (by omega), List.getD_append _ _ _ _ (by omega)]

theorem flawed_append (beats : List ReadBeat) (beat : ReadBeat) :
    flawed (beats ++ [beat]) =
      (flawed beats || beat.resp.getLsbD 1 || beat.last != closes beats.length) := by
  simp [flawed, List.zipIdx_append, Bool.or_assoc]

namespace Mover

variable {m : Mover}

/-- The record's beat the master is at. -/
def index (m : Mover) : Nat := 16 * m.pBurst.toNat + m.pBeat.toNat

/-- The master's counters are a burst's of the record, with its address. -/
structure Placed (m : Mover) : Prop where
  burst : m.pBurst.toNat ≤ 8
  addr : m.burstAddr = addrOf m.pBase m.pBurst

/-- The beat is one of the burst's. -/
def Inside (m : Mover) : Prop := m.last = true → m.pBeat.toNat ≤ 1

theorem addrOf_eq {base : BitVec 32} {burst : BitVec 4} (few : burst.toNat ≤ 8) :
    addrOf base burst = base + BitVec.ofNat 32 (128 * burst.toNat) := by
  have data : ∀ burst : BitVec 4, burst.toNat ≤ 8 → (burst == 8#4) = false →
      (0#22 ++ burst.extractLsb' 0 3 ++ 0#7 : BitVec 32) = BitVec.ofNat 32 (128 * burst.toNat) := by
    decide
  unfold addrOf
  cases last : burst == 8#4 with
  | true =>
    rw [beq_iff_eq] at last
    subst last
    rfl
  | false =>
    rw [← data burst few last]
    rfl

theorem Placed.offer (placed : m.Placed) :
    (⟨m.burstAddr, m.len⟩ : Burst) = burstOf m.pBase m.pBurst.toNat := by
  have length : ∀ burst : BitVec 4, (if burst == 8#4 then 1#4 else 15#4 : BitVec 4) =
      if burst.toNat = 8 then 1#4 else 15#4 := by decide
  unfold burstOf len last
  rw [placed.addr, addrOf_eq placed.burst, length]

theorem Placed.len (placed : m.Placed) :
    beatsOf m.pBurst.toNat + m.len.toNat + 1 = beatsOf (m.pBurst.toNat + 1) := by
  have all : ∀ burst : BitVec 4, burst.toNat ≤ 8 →
      beatsOf burst.toNat + (if burst == 8#4 then 1#4 else 15#4 : BitVec 4).toNat + 1 =
        beatsOf (burst.toNat + 1) := by decide
  exact all m.pBurst placed.burst

theorem Placed.bumped (placed : m.Placed) : (m.pBurst + 1).toNat = m.pBurst.toNat + 1 := by
  have few := placed.burst
  rw [BitVec.toNat_add]
  simp
  omega

theorem Placed.before (placed : m.Placed) : beatsOf m.pBurst.toNat = 16 * m.pBurst.toNat := by
  unfold beatsOf
  rw [if_pos placed.burst]

theorem wordLo_index (placed : m.Placed) (inside : m.Inside) :
    m.wordLo = BitVec.ofNat 9 (2 * m.index) ∧
      m.wordLo ||| 1#9 = BitVec.ofNat 9 (2 * m.index + 1) := by
  have all : ∀ burst beat : BitVec 4, burst.toNat ≤ 8 → ((burst == 8#4) = true → beat.toNat ≤ 1) →
      let lo := if burst == 8#4 then 256#9 + (0#7 ++ beat.extractLsb' 0 1 ++ 0#1)
        else 0#1 ++ burst.extractLsb' 0 3 ++ beat ++ 0#1
      lo = BitVec.ofNat 9 (2 * (16 * burst.toNat + beat.toNat)) ∧
        lo ||| 1#9 = BitVec.ofNat 9 (2 * (16 * burst.toNat + beat.toNat) + 1) := by decide
  exact all m.pBurst m.pBeat placed.burst inside

theorem index_facts (placed : m.Placed) (inside : m.Inside) :
    m.lastBeat = closes m.index ∧ (m.padBeat = true ↔ m.index = 129) ∧
      (m.lastBeat = true → m.index + 1 = beatsOf (m.pBurst.toNat + 1)) ∧
      (m.lastBeat = false → m.index + 1 < beatsOf (m.pBurst.toNat + 1) ∧
        (m.pBeat + 1).toNat = m.pBeat.toNat + 1 ∧
        ((m.pBurst == 8#4) = true → (m.pBeat + 1).toNat ≤ 1)) := by
  have all : ∀ burst beat : BitVec 4, burst.toNat ≤ 8 → ((burst == 8#4) = true → beat.toNat ≤ 1) →
      let index := 16 * burst.toNat + beat.toNat
      let final := if burst == 8#4 then beat == 1#4 else beat == 15#4
      final = closes index ∧ ((burst == 8#4 && beat.getLsbD 0) = true ↔ index = 129) ∧
        (final = true → index + 1 = beatsOf (burst.toNat + 1)) ∧
        (final = false → index + 1 < beatsOf (burst.toNat + 1) ∧
          (beat + 1).toNat = beat.toNat + 1 ∧ ((burst == 8#4) = true → (beat + 1).toNat ≤ 1)) := by
    decide
  exact all m.pBurst m.pBeat placed.burst inside

end Mover

theorem beatsOf_le (bursts : Nat) : beatsOf bursts ≤ 130 := by
  unfold beatsOf
  split_ifs <;> omega

theorem Mover.index_le {m : Mover} (placed : m.Placed) (inside : m.Inside) : m.index ≤ 129 := by
  have facts := index_facts placed inside
  have most := beatsOf_le (m.pBurst.toNat + 1)
  cases final : m.lastBeat with
  | true =>
    have length := facts.2.2.1 final
    omega
  | false =>
    have length := (facts.2.2.2 final).1
    omega

/-- The store's word on its way to the seam's register. -/
def onItsWay (t : Disk.Store) : BitVec 32 := if t.seamMetaSel then t.seamMetaQ else t.seamQ

/-- A move in progress is the record's move, and the master is busy with it. -/
structure Named (m : Mover) (d : Move) : Prop where
  busy : m.busy = true
  undone : m.done = false
  slot : d.slot = m.pSlot
  base : d.base = m.pBase
  tag : d.tag = m.pTag

/-- A fetch: the bursts asked for, the beats that have come of them and the words laid. -/
structure Fetching (m : Mover) (p : Owed) (d : Move) (bursts words : Nat) : Prop where
  errand : d.errand = .fetch
  reads : d.reads = burstsOf d.base bursts
  count : d.beats.length + p.beats = beatsOf bursts
  deposits : d.deposits = filling d.slot d.beats words
  error : d.dropped = false → m.error = flawed d.beats
  address : m.awOn = false ∧ p.addressed = false ∧ p.ended = false
  aside : d.writes = [] ∧ d.sends = []

/-- A write-back: the beats gone, the words read, and the bursts answered; the address of the one
in flight is out or taken. -/
structure Returning (m : Mover) (p : Owed) (d : Move) (bursts sends seen : Nat) : Prop where
  errand : d.errand = .back
  writes : d.writes = burstsOf d.base (bursts + p.addressed.toNat)
  sends : d.sends = sendings d.seen sends
  seen : d.seen.length = seen
  answers : d.answers = bursts
  aside : p.beats = 0 ∧ d.reads = [] ∧ d.beats = [] ∧ d.deposits = []

/-- `P_TAKE`: nothing has been asked for. -/
structure InTake (m : Mover) (p : Owed) (d : Move) : Prop where
  placed : m.Placed
  first : m.pBurst = 0#4
  errand : d.errand ≠ .back
  bare : m.takeOnly = decide (d.errand = .away)
  standing : m.pDrop = false ∧ d.dropped = false ∧ m.error = false
  low : m.hiPending = false ∧ m.rbValid = false
  port : m.awOn = false ∧ p.beats = 0 ∧ p.addressed = false ∧ p.ended = false
  blank : d.reads = [] ∧ d.beats = [] ∧ d.deposits = [] ∧ d.writes = [] ∧ d.sends = []

/-- `P_AR`: the bursts before this one have come, and their words are laid. -/
structure InAr (m : Mover) (p : Owed) (d : Move) : Prop where
  placed : m.Placed
  low : m.hiPending = false ∧ m.rbValid = false
  fetching : Fetching m p d m.pBurst.toNat (32 * m.pBurst.toNat)
  whole : p.beats = 0

/-- `P_R`: the beats before the master's have come, and their words are laid; the one it is at
waits to be laid, or its high word does. -/
structure InR (m : Mover) (p : Owed) (d : Move) : Prop where
  placed : m.Placed
  inside : m.Inside
  fetching : Fetching m p d (m.pBurst.toNat + 1) (2 * m.index + m.hiPending.toNat)
  came : d.beats.length = m.index + (m.hiPending || m.rbValid).toNat
  high : m.hiPending = true → m.rbValid = false ∧ m.index ≠ 129 ∧
    m.hiWord = wordOf d.beats (2 * m.index + 1)
  low : m.rbValid = true → m.rbData = (d.beats.getD m.index ⟨0, 0, false⟩).data

/-- `P_TAG`: the whole record has come and is laid. -/
structure InTag (m : Mover) (p : Owed) (d : Move) : Prop where
  fetching : Fetching m p d 9 259
  whole : p.beats = 0
  standing : m.pDrop = false ∧ d.dropped = false

/-- `P_AW`: the bursts before this one are answered. -/
structure InAw (m : Mover) (p : Owed) (d : Move) : Prop where
  placed : m.Placed
  returning : Returning m p d m.pBurst.toNat (16 * m.pBurst.toNat) (32 * m.pBurst.toNat)
  address : m.awOn = false ∧ p.addressed = false ∧ p.ended = false

/-- `P_W0` to `P_W5`: the beats before the master's have gone, and of its own so many words are
read. -/
structure InWords (m : Mover) (p : Owed) (d : Move) (read : Nat) : Prop where
  placed : m.Placed
  inside : m.Inside
  returning : Returning m p d m.pBurst.toNat m.index (2 * m.index + read)
  address : m.awOn = !p.addressed
  open_ : p.ended = false

/-- What each of those states has of the beat's two words: asked for, on the way, or held. -/
def Words (m : Mover) (t : Disk.Store) (p : Owed) (d : Move) : Prop :=
  let low := d.seen.getD (2 * m.index) 0
  let high := d.seen.getD (2 * m.index + 1) 0
  match m.pst with
  | .w0 => InWords m p d 0
  | .w1 => InWords m p d 0 ∧ m.storeSlot = m.pSlot ∧ m.storeAddr = BitVec.ofNat 9 (2 * m.index)
  | .w2 => InWords m p d 1 ∧ m.storeSlot = m.pSlot ∧
      m.storeAddr = BitVec.ofNat 9 (2 * m.index + 1) ∧ onItsWay t = low
  | .w3 => InWords m p d 2 ∧ t.rdata = low ∧ onItsWay t = high
  | .w4 => InWords m p d 2 ∧ m.wlo = low ∧ t.rdata = high
  | _ => InWords m p d 2 ∧ m.wlo = low ∧ m.whi = high

/-- `P_B`: the burst's beats have gone. -/
structure InB (m : Mover) (p : Owed) (d : Move) : Prop where
  placed : m.Placed
  returning : Returning m p d m.pBurst.toNat (beatsOf (m.pBurst.toNat + 1))
    (2 * beatsOf (m.pBurst.toNat + 1))
  address : m.awOn = !p.addressed
  ended : p.ended = true

/-- A fetch's writes of the store: none, the slot taken away and the first words, or the whole
record and its tag. -/
def Filled (d : Move) : Prop :=
  d.deposits = [] ∨
    (∃ words, words ≤ 259 ∧ words ≤ 2 * d.beats.length ∧
      d.deposits = filling d.slot d.beats words) ∨
    d.dropped = false ∧ flawed d.beats = false ∧ d.beats.length = 130 ∧
      d.deposits = filling d.slot d.beats 259 ++ [tagged d.slot d.tag]

/-- A fetch that is over: its bursts are whole, and one not dropped has laid the record and tagged
it unless a beat was flawed. -/
structure Fetched (m : Mover) (d : Move) : Prop where
  reads : d.reads = burstsOf d.base d.reads.length
  few : d.reads.length ≤ 9
  whole : d.beats.length = beatsOf d.reads.length
  filled : Filled d
  aside : d.writes = [] ∧ d.sends = []
  complete : d.dropped = false → d.reads.length = 9 ∧
    d.deposits = filling d.slot d.beats 259 ++
      if flawed d.beats then [] else [tagged d.slot d.tag]
  judged : m.done = true → m.error = flawed d.beats

/-- A write-back that is over: its bursts are whole and answered, nine of them if it was not
dropped. -/
structure Returned (d : Move) : Prop where
  writes : d.writes = burstsOf d.base d.writes.length
  few : d.writes.length ≤ 9
  sends : d.sends = sendings d.seen (beatsOf d.writes.length)
  read : 2 * beatsOf d.writes.length ≤ d.seen.length
  answered : d.answers = d.writes.length
  aside : d.reads = [] ∧ d.beats = [] ∧ d.deposits = []
  complete : d.dropped = false → d.writes.length = 9

/-- A take-away that is over. -/
structure Emptied (d : Move) : Prop where
  deposits : d.deposits = [] ∨ d.deposits = [takenAway d.slot]
  aside : d.reads = [] ∧ d.beats = [] ∧ d.writes = [] ∧ d.sends = []
  complete : d.dropped = false → d.deposits = [takenAway d.slot]

/-- `P_IDLE`: nothing is owed on the port, and the last move is over. -/
structure InIdle (m : Mover) (p : Owed) (d : Move) : Prop where
  port : m.awOn = false ∧ p.beats = 0 ∧ p.addressed = false ∧ p.ended = false
  fetched : d.errand = .fetch → Fetched m d
  returned : d.errand = .back → Returned d
  emptied : d.errand = .away → Emptied d

/-- What the master's state says of the move. -/
def Stage (m : Mover) (t : Disk.Store) (p : Owed) (d : Move) : Prop :=
  match m.pst with
  | .idle => InIdle m p d
  | .take => InTake m p d
  | .ar => InAr m p d
  | .r => InR m p d
  | .tag => InTag m p d
  | .aw => InAw m p d
  | .b => InB m p d
  | _ => Words m t p d

/-- What every clock keeps: a running move is the record's, a dropped one ends undone, the state
says where the move stands, and a record has the address that was judged. -/
structure Standing (s : Transfer c) : Prop where
  judged : s.pack.regs.goAny = true → s.pack.regs.badAlignQ = false →
    s.pack.regs.addr.toNat % 128 = 0
  aligned : s.move.errand ≠ .away → s.move.base.toNat % 128 = 0
  named : s.pack.mover.pst ≠ .idle → Named s.pack.mover s.move
  dropped : s.move.dropped = true → s.pack.mover.done = false ∧
    (s.pack.mover.pst = .idle ∨ s.pack.mover.pDrop = true)
  drained : s.pack.mover.pst ≠ .idle → s.pack.mover.pDrop = true → s.move.dropped = true
  stage : Stage s.pack.mover s.store s.port s.move

end MuirFpga.Packs.DiskPack
