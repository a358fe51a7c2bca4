import MuirFpga.Arith.FireCode
import MuirFpga.Disk.Machine
import MuirFpga.Packs.PackFile

/-!
# The error trap

A block's words go through the code with the checkword beside them, and what is left in the register says whether
they are what was written; where they are not, the register run on to the end of the code's cycle and through the
block again finds the burst.
-/

namespace MuirFpga.Disk

open Arith
open Quux (Seam)

section Code

theorem eccBit_eq (r : BitVec 32) (b : Bool) : eccBit r b true = Fire.code.step r b := by
  unfold eccBit
  rw [Bool.true_and]
  rfl

theorem lowBits_extract {width : Nat} (word : BitVec width) {n len : Nat} (within : n ≤ len) :
    lowBits (word.extractLsb' 0 len) n = lowBits word n := by
  apply List.map_congr_left
  intro k among
  have inside := List.mem_range.mp among
  rw [BitVec.getLsbD_extractLsb', decide_eq_true (Nat.lt_of_lt_of_le inside within), Bool.true_and, Nat.zero_add]

theorem eccByte_eq (r : BitVec 32) (b : BitVec 8) : eccByte r b = Fire.code.run r (lowBits b 8) := by
  unfold eccByte Feedback.run lowBits
  rw [List.foldl_map]
  exact congrArg (fun f => List.foldl f r (List.range 8)) (funext fun t => funext fun k => eccBit_eq t _)

theorem eccByte_shifted (r : BitVec 32) (word : BitVec 32) (n : Nat) :
    eccByte (Fire.code.run r (lowBits word n)) ((word >>> n).extractLsb' 0 8) =
      Fire.code.run r (lowBits word (n + 8)) := by
  rw [eccByte_eq, lowBits_extract _ (Nat.le_refl 8), Fire.lowBits_add, Feedback.run_append]

/-- The bits of the first words of a block. -/
def bitsBefore (words : BitVec 8 → BitVec 32) (n : Nat) : List Bool :=
  (List.range n).flatMap fun k => lowBits (words (BitVec.ofNat 8 k)) 32

/-- The bits of a block, in the order the code takes them. -/
def bitsOf (words : BitVec 8 → BitVec 32) : List Bool := bitsBefore words 256

/-- The words of a block. -/
def listOf (words : BitVec 8 → BitVec 32) : List (BitVec 32) := (List.range 256).map fun k => words (BitVec.ofNat 8 k)

variable {words : BitVec 8 → BitVec 32}

theorem bitsBefore_succ (n : Nat) :
    bitsBefore words (n + 1) = bitsBefore words n ++ lowBits (words (BitVec.ofNat 8 n)) 32 := by
  unfold bitsBefore
  rw [List.range_succ, List.flatMap_append, List.flatMap_singleton]

theorem bitsBefore_length (n : Nat) : (bitsBefore words n).length = 32 * n := by
  induction n with
  | zero => rfl
  | succ n ih => rw [bitsBefore_succ, List.length_append, ih, Fire.lowBits_length, Nat.mul_succ]

theorem bitsBefore_congr {other : BitVec 8 → BitVec 32} {n : Nat}
    (same : ∀ k < n, other (BitVec.ofNat 8 k) = words (BitVec.ofNat 8 k)) : bitsBefore other n = bitsBefore words n := by
  unfold bitsBefore
  exact List.flatMap_congr fun k among => congrArg (lowBits · 32) (same k (List.mem_range.mp among))

theorem eccOverWords_eq : Packs.PackFile.eccOverWords (listOf words) = Fire.code.run (BitVec.ofNat 32 0) (bitsOf words) := by
  have bit (r : BitVec 32) (b : Bool) : Packs.PackFile.eccShift r b = Fire.code.step r b := by
    unfold Packs.PackFile.eccShift
    show (if b ^^ r.getLsbD 0 then r >>> 1 ^^^ 0xA0100500#32 else r >>> 1) =
      r >>> 1 ^^^ Fire.code.fed (b ^^ r.getLsbD 0)
    cases b ^^ r.getLsbD 0 with
    | true => rfl
    | false => exact BitVec.xor_zero.symm
  unfold Packs.PackFile.eccOverWords bitsOf bitsBefore listOf Feedback.run lowBits
  rw [List.foldl_map, List.foldl_flatMap]
  refine congrArg (fun f => List.foldl f 0#32 (List.range 256)) (funext fun r => funext fun k => ?_)
  rw [List.foldl_map]
  exact congrArg (fun f => List.foldl f r (List.range 32)) (funext fun t => funext fun j => bit t _)

theorem checked (words : BitVec 8 → BitVec 32) :
    Fire.code.run (BitVec.ofNat 32 0) (bitsOf words ++ lowBits (Packs.PackFile.eccOverWords (listOf words)) 32) = 0#32 := by
  rw [Feedback.run_append, eccOverWords_eq]
  refine (Feedback.down_run_own _ 32).trans ?_
  exact BitVec.ushiftRight_eq_zero (Nat.le_refl 32)

end Code

namespace Machine

variable {x : Input × Seam} {d : Machine}

/-- A block under the walk: its slot, what is in it, and what of the walk a clock of it leaves alone. -/
structure Block where
  slot : BitVec 5
  words : BitVec 8 → BitVec 32
  check : BitVec 32
  read : Bool
  request : Bool
  errors : Errors
  eccReg : BitVec 32

/-- The walk stands on the block. -/
structure Standing (b : Block) (d : Machine) : Prop where
  slot : d.c.walk.chSlot = b.slot
  read : d.c.walk.chRead = b.read
  block : d.c.walk.chTrack = false
  unfresh : d.c.walk.chDckWe = false
  unlaid : d.c.parser.psWr = false ∧ d.c.parser.trkMetaWe = false
  request : d.c.walk.chReq = b.request
  words : d.words b.slot = b.words
  check : d.s.dck b.slot = b.check
  errors : d.c.errors = b.errors
  eccReg : d.c.regs.eccReg = b.eccReg

/-- What a clock made leaves of what it found. -/
structure Keeps (y z : Controller) : Prop where
  slot : y.walk.chSlot = z.walk.chSlot
  read : y.walk.chRead = z.walk.chRead
  block : y.walk.chTrack = z.walk.chTrack
  unfresh : y.walk.chDckWe = z.walk.chDckWe
  request : y.walk.chReq = z.walk.chReq
  parser : y.parser = z.parser
  errors : y.errors = z.errors
  eccReg : y.regs.eccReg = z.regs.eccReg

variable {b : Block}

theorem Standing.step (st : Standing b d) (calm : Undisturbed x d) (leaves : Leaves b.slot x)
    (away : d.c.walk.chState ≠ .move) {y : Controller} (made : stated x d = y) (keeps : Keeps y (d.c.flow x.1 d.s)) :
    Standing b (d.next x) ∧ (d.next x).c.walk = y.walk := by
  subst made
  have still : d.c.chbWe = false := by
    unfold Controller.chbWe
    rw [st.unlaid.1, Bool.or_false, beq_eq_false_iff_ne.mpr away, Bool.false_and, Bool.false_and]
  exact ⟨{
    slot := (congrArg Walk.chSlot calm.alike.walk).trans (keeps.slot.trans st.slot)
    read := (congrArg Walk.chRead calm.alike.walk).trans (keeps.read.trans st.read)
    block := (congrArg Walk.chTrack calm.alike.walk).trans (keeps.block.trans st.block)
    unfresh := (congrArg Walk.chDckWe calm.alike.walk).trans keeps.unfresh
    unlaid := by
      rw [calm.alike.parser, keeps.parser]
      exact ⟨rfl, rfl⟩
    request := (congrArg Walk.chReq calm.alike.walk).trans (keeps.request.trans st.request)
    words := (words_next leaves still).trans st.words
    check := (dck_next leaves st.unfresh st.unlaid.2).trans st.check
    errors := calm.alike.errors.trans (keeps.errors.trans st.errors)
    eccReg := calm.alike.eccReg.trans (keeps.eccReg.trans st.eccReg) }, calm.alike.walk⟩

theorem Standing.chbQ (st : Standing b d) (reads : b.read = true) :
    (d.next x).s.chbQ = b.words (d.c.walk.chRa.extractLsb' 0 8) := by
  rw [← st.words, ← st.slot]
  show d.s.ram d.c.chbA = _
  unfold Controller.chbA
  rw [st.read, reads, Bool.true_or]
  rfl

theorem Standing.dckQ (st : Standing b d) : (d.next x).s.dckQ = b.check := by
  rw [← st.check, ← st.slot]
  rfl

theorem Standing.flow_chRa (st : Standing b d) (x : Input × Seam) : (d.c.flow x.1 d.s).walk.chRa = d.c.walk.chRa := by
  show (if d.c.parser.psWr then _ else _) = _
  rw [st.unlaid.1, if_neg Bool.false_ne_true]

section Data

variable {k p : Nat}

/-- The walk in `C_DATA`, at a phase of a word. -/
structure Fetching (b : Block) (k p : Nat) (d : Machine) : Prop where
  on : Standing b d
  reads : b.read = true
  state : d.c.walk.chState = .data
  phase : d.c.walk.chPh = BitVec.ofNat 3 p
  word : d.c.walk.chI = BitVec.ofNat 9 k
  address : d.c.walk.chRa = BitVec.ofNat 9 (if p = 0 then k else k + 1)
  ecc : d.c.walk.eccR = Fire.code.run (BitVec.ofNat 32 0)
    (bitsBefore b.words k ++ lowBits (b.words (BitVec.ofNat 8 k)) (8 * (p - 1)))
  left : p ≠ 0 → d.c.walk.blkW = b.words (BitVec.ofNat 8 k) >>> (8 * (p - 1))
  last : p ≠ 0 → d.c.walk.chILast = decide (k = 255)
  dckQ : p ≠ 0 → d.s.dckQ = b.check
  ahead : p ≠ 1 → d.s.chbQ = b.words (BitVec.ofNat 8 (if p = 0 then k else k + 1))
  ahead2 : p = 0 ∨ 3 ≤ p → d.s.chbQ2 = b.words (BitVec.ofNat 8 (if p = 0 then k else k + 1))

theorem Fetching.stated (f : Fetching b k p d) : stated x d = d.c.dataStep d.s (d.c.flow x.1 d.s) := by
  rw [stated_of_ne (by rw [f.state]; decide)]
  unfold Controller.stateStep
  rw [f.state]

theorem Fetching.step (f : Fetching b k p d) (calm : Undisturbed x d) (leaves : Leaves b.slot x)
    {y : Controller} (made : Machine.stated x d = y) (keeps : Keeps y (d.c.flow x.1 d.s)) :
    Standing b (d.next x) ∧ (d.next x).c.walk = y.walk :=
  f.on.step calm leaves (by rw [f.state]; decide) made keeps

theorem low_address (n : Nat) : (BitVec.ofNat 9 n).extractLsb' 0 8 = BitVec.ofNat 8 n := by
  apply BitVec.eq_of_toNat_eq
  rw [BitVec.extractLsb'_toNat, BitVec.toNat_ofNat, BitVec.toNat_ofNat, Nat.shiftRight_zero]
  omega

theorem last_word (inside : k < 256) : (BitVec.ofNat 9 k == 255#9) = decide (k = 255) := by
  rw [Bool.eq_iff_iff, beq_iff_eq, decide_eq_true_iff]
  constructor
  · intro same
    have number := congrArg BitVec.toNat same
    rw [BitVec.toNat_ofNat, show (255#9).toNat = 255 from rfl] at number
    omega
  · rintro rfl
    rfl

theorem Fetching.take (f : Fetching b k 0 d) (inside : k < 256) (calm : Undisturbed x d)
    (leaves : Leaves b.slot x) : Fetching b k 1 (d.next x) := by
  obtain ⟨on, walk⟩ := f.step calm leaves (y := { d.c.flow x.1 d.s with
      walk := { (d.c.flow x.1 d.s).walk with blkW := d.s.chbQ2, chRa := d.c.walk.chRa + 1, chPh := 1 } })
    (by rw [f.stated]; unfold Controller.dataStep; rw [if_pos f.phase]) ⟨rfl, rfl, rfl, rfl, rfl, rfl, rfl, rfl⟩
  constructor
  case on => exact on
  case reads => exact f.reads
  case state => exact (congrArg Walk.chState walk).trans f.state
  case phase => exact congrArg Walk.chPh walk
  case word => exact (congrArg Walk.chI walk).trans f.word
  case address =>
    refine (congrArg Walk.chRa walk).trans ((congrArg (· + 1) f.address).trans ?_)
    exact (BitVec.ofNat_add _ _).symm
  case ecc => exact (congrArg Walk.eccR walk).trans f.ecc
  case left => exact fun _ => (congrArg Walk.blkW walk).trans (f.ahead2 (.inl rfl))
  case last => exact fun _ => (congrArg Walk.chILast walk).trans ((congrArg (· == 255#9) f.word).trans (last_word inside))
  case dckQ => exact fun _ => f.on.dckQ
  case ahead => exact fun apart => absurd rfl apart
  case ahead2 => exact fun beside => by omega

theorem byte_next (words : BitVec 8 → BitVec 32) (k p : Nat) (byte : p ≠ 0) :
    eccByte (Fire.code.run (BitVec.ofNat 32 0)
        (bitsBefore words k ++ lowBits (words (BitVec.ofNat 8 k)) (8 * (p - 1))))
      ((words (BitVec.ofNat 8 k) >>> (8 * (p - 1))).extractLsb' 0 8) =
    Fire.code.run (BitVec.ofNat 32 0) (bitsBefore words k ++ lowBits (words (BitVec.ofNat 8 k)) (8 * p)) := by
  rw [Feedback.run_append, eccByte_shifted, Feedback.run_append, show 8 * (p - 1) + 8 = 8 * p by omega]

theorem Fetching.byte (f : Fetching b k p d) (byte : p ≠ 0) :
    eccByte d.c.walk.eccR (d.c.walk.blkW.extractLsb' 0 8) = Fire.code.run (BitVec.ofNat 32 0)
      (bitsBefore b.words k ++ lowBits (b.words (BitVec.ofNat 8 k)) (8 * p)) := by
  rw [f.ecc, f.left byte, byte_next _ _ _ byte]

theorem Fetching.shift (f : Fetching b k p d) (byte : p ≠ 0) (more : p < 4) (inside : k < 256)
    (calm : Undisturbed x d) (leaves : Leaves b.slot x) : Fetching b k (p + 1) (d.next x) := by
  have phase : d.c.walk.chPh ≠ 0#3 ∧ d.c.walk.chPh ≠ 4#3 ∧ d.c.walk.chPh + 1 = BitVec.ofNat 3 (p + 1) := by
    rw [f.phase]
    have among : p = 1 ∨ p = 2 ∨ p = 3 := by omega
    rcases among with rfl | rfl | rfl <;> decide
  obtain ⟨on, walk⟩ := f.step calm leaves (y := { d.c.flow x.1 d.s with
      walk := { (d.c.flow x.1 d.s).walk with
        eccR := eccByte d.c.walk.eccR (d.c.walk.blkW.extractLsb' 0 8), blkW := d.c.walk.blkW >>> 8,
        chPh := d.c.walk.chPh + 1 } })
    (by rw [f.stated]; unfold Controller.dataStep; dsimp only; rw [if_neg phase.1, if_neg phase.2.1]; rfl)
    ⟨rfl, rfl, rfl, rfl, rfl, rfl, rfl, rfl⟩
  have next : d.c.walk.chRa = BitVec.ofNat 9 (k + 1) := f.address.trans (by rw [if_neg byte])
  constructor
  case on => exact on
  case reads => exact f.reads
  case state => exact (congrArg Walk.chState walk).trans f.state
  case phase => exact (congrArg Walk.chPh walk).trans phase.2.2
  case word => exact (congrArg Walk.chI walk).trans f.word
  case address => exact (congrArg Walk.chRa walk).trans ((f.on.flow_chRa x).trans next)
  case ecc => exact (congrArg Walk.eccR walk).trans (f.byte byte)
  case left =>
    intro _
    refine (congrArg Walk.blkW walk).trans ?_
    show d.c.walk.blkW >>> 8 = _
    rw [f.left byte, ← BitVec.shiftRight_add, show 8 * (p - 1) + 8 = 8 * (p + 1 - 1) by omega]
  case last => exact fun _ => (congrArg Walk.chILast walk).trans ((congrArg (· == 255#9) f.word).trans (last_word inside))
  case dckQ => exact fun _ => f.on.dckQ
  case ahead => exact fun _ => by rw [f.on.chbQ f.reads, next, low_address, if_neg (Nat.succ_ne_zero p)]
  case ahead2 => exact fun beside => (f.ahead (by omega)).trans (by rw [if_neg byte, if_neg (Nat.succ_ne_zero p)])

theorem Fetching.word_next (f : Fetching b k 4 d) (more : k < 255) (calm : Undisturbed x d)
    (leaves : Leaves b.slot x) : Fetching b (k + 1) 0 (d.next x) := by
  have last : d.c.walk.chILast = false := (f.last (by decide)).trans (decide_eq_false (Nat.ne_of_lt more))
  obtain ⟨on, walk⟩ := f.step calm leaves (y := { d.c.flow x.1 d.s with
      walk := { (d.c.flow x.1 d.s).walk with
        eccR := eccByte d.c.walk.eccR (d.c.walk.blkW.extractLsb' 0 8), blkW := d.c.walk.blkW >>> 8,
        chPh := 0, chI := d.c.walk.chI + 1 } })
    (by rw [f.stated]; unfold Controller.dataStep; rw [f.phase, last]; rfl) ⟨rfl, rfl, rfl, rfl, rfl, rfl, rfl, rfl⟩
  constructor
  case on => exact on
  case reads => exact f.reads
  case state => exact (congrArg Walk.chState walk).trans f.state
  case phase => exact congrArg Walk.chPh walk
  case word =>
    refine (congrArg Walk.chI walk).trans ((congrArg (· + 1) f.word).trans ?_)
    exact (BitVec.ofNat_add _ _).symm
  case address => exact (congrArg Walk.chRa walk).trans ((f.on.flow_chRa x).trans f.address)
  case ecc =>
    refine (congrArg Walk.eccR walk).trans ((f.byte (by decide)).trans ?_)
    rw [bitsBefore_succ]
    exact congrArg _ (List.append_nil _).symm
  case ahead => exact fun _ => by rw [f.on.chbQ f.reads, f.address, low_address]; rfl
  case ahead2 => exact fun _ => f.ahead (by decide)
  all_goals exact fun later => absurd rfl later

end Data

section Check

/-- What is left of a block under the code. -/
def syndrome (b : Block) : BitVec 32 := Fire.code.run (BitVec.ofNat 32 0) (bitsOf b.words ++ lowBits b.check 32)

/-- The walk in `C_DCK`, at a byte of the checkword. -/
structure Checking (b : Block) (p : Nat) (d : Machine) : Prop where
  on : Standing b d
  state : d.c.walk.chState = .dck
  phase : d.c.walk.chPh = BitVec.ofNat 3 p
  ecc : d.c.walk.eccR = Fire.code.run (BitVec.ofNat 32 0) (bitsOf b.words ++ lowBits b.check (8 * p))
  left : d.c.walk.blkW = b.check >>> (8 * p)

/-- The walk in `C_ECCQ`. -/
structure Questioned (b : Block) (p : Nat) (d : Machine) : Prop where
  on : Standing b d
  state : d.c.walk.chState = .eccq
  phase : d.c.walk.chPh = BitVec.ofNat 3 p
  ecc : d.c.walk.eccR = syndrome b
  zero : p ≠ 0 → d.c.walk.eccZeroQ = (syndrome b == 0#32)

theorem Fetching.check (f : Fetching b 255 4 d) (calm : Undisturbed x d) (leaves : Leaves b.slot x) :
    Checking b 0 (d.next x) := by
  have last : d.c.walk.chILast = true := f.last (by decide)
  obtain ⟨on, walk⟩ := f.step calm leaves (y := { d.c.flow x.1 d.s with
      walk := { (d.c.flow x.1 d.s).walk with
        eccR := eccByte d.c.walk.eccR (d.c.walk.blkW.extractLsb' 0 8), blkW := d.s.dckQ,
        chPh := 0, chState := .dck } })
    (by rw [f.stated]; unfold Controller.dataStep; rw [f.phase, last]; rfl) ⟨rfl, rfl, rfl, rfl, rfl, rfl, rfl, rfl⟩
  refine ⟨on, congrArg Walk.chState walk, congrArg Walk.chPh walk, (congrArg Walk.eccR walk).trans ?_,
    (congrArg Walk.blkW walk).trans (f.dckQ (by decide))⟩
  have all : bitsOf b.words = bitsBefore b.words 255 ++ lowBits (b.words (BitVec.ofNat 8 255)) (8 * 4) :=
    bitsBefore_succ 255
  have none_ : lowBits b.check (8 * 0) = [] := rfl
  refine (f.byte (by decide)).trans ?_
  rw [none_, List.append_nil, all]

variable {p : Nat}

theorem Checking.stated (f : Checking b p d) : stated x d = d.c.dckStep (d.c.flow x.1 d.s) := by
  rw [stated_of_ne (by rw [f.state]; decide)]
  unfold Controller.stateStep
  rw [f.state]

theorem Checking.byte (f : Checking b p d) : eccByte d.c.walk.eccR (d.c.walk.blkW.extractLsb' 0 8) =
    Fire.code.run (BitVec.ofNat 32 0) (bitsOf b.words ++ lowBits b.check (8 * (p + 1))) := by
  rw [f.ecc, f.left, Feedback.run_append, eccByte_shifted, Feedback.run_append, Nat.mul_succ]

theorem Checking.shift (f : Checking b p d) (more : p < 3) (calm : Undisturbed x d) (leaves : Leaves b.slot x) :
    Checking b (p + 1) (d.next x) := by
  have phase : d.c.walk.chPh ≠ 3#3 ∧ d.c.walk.chPh + 1 = BitVec.ofNat 3 (p + 1) := by
    rw [f.phase]
    have among : p = 0 ∨ p = 1 ∨ p = 2 := by omega
    rcases among with rfl | rfl | rfl <;> decide
  obtain ⟨on, walk⟩ := f.on.step calm leaves (by rw [f.state]; decide) (y := { d.c.flow x.1 d.s with
      walk := { (d.c.flow x.1 d.s).walk with
        eccR := eccByte d.c.walk.eccR (d.c.walk.blkW.extractLsb' 0 8), blkW := d.c.walk.blkW >>> 8,
        chPh := d.c.walk.chPh + 1 } })
    (by rw [f.stated]; unfold Controller.dckStep; dsimp only; rw [if_neg phase.1]; rfl)
    ⟨rfl, rfl, rfl, rfl, rfl, rfl, rfl, rfl⟩
  refine ⟨on, (congrArg Walk.chState walk).trans f.state, (congrArg Walk.chPh walk).trans phase.2,
    (congrArg Walk.eccR walk).trans f.byte, (congrArg Walk.blkW walk).trans ?_⟩
  show d.c.walk.blkW >>> 8 = _
  rw [f.left, ← BitVec.shiftRight_add, Nat.mul_succ]

theorem Checking.done (f : Checking b 3 d) (calm : Undisturbed x d) (leaves : Leaves b.slot x) :
    Questioned b 0 (d.next x) := by
  obtain ⟨on, walk⟩ := f.on.step calm leaves (by rw [f.state]; decide) (y := { d.c.flow x.1 d.s with
      walk := { (d.c.flow x.1 d.s).walk with
        eccR := eccByte d.c.walk.eccR (d.c.walk.blkW.extractLsb' 0 8), blkW := d.c.walk.blkW >>> 8,
        chPh := 0, chState := .eccq } })
    (by rw [f.stated]; unfold Controller.dckStep; rw [f.phase]; rfl) ⟨rfl, rfl, rfl, rfl, rfl, rfl, rfl, rfl⟩
  exact ⟨on, congrArg Walk.chState walk, congrArg Walk.chPh walk, (congrArg Walk.eccR walk).trans f.byte,
    fun later => absurd rfl later⟩

theorem Questioned.stated (f : Questioned b p d) : stated x d = d.c.eccqStep (d.c.flow x.1 d.s) := by
  rw [stated_of_ne (by rw [f.state]; decide)]
  unfold Controller.stateStep
  rw [f.state]

theorem Questioned.wait (f : Questioned b 0 d) (calm : Undisturbed x d) (leaves : Leaves b.slot x) :
    Questioned b 1 (d.next x) := by
  obtain ⟨on, walk⟩ := f.on.step calm leaves (by rw [f.state]; decide) (y := { d.c.flow x.1 d.s with
      walk := { (d.c.flow x.1 d.s).walk with chI := 0, chRa := 0, chPh := 1 } })
    (by rw [f.stated]; unfold Controller.eccqStep; dsimp only; rw [if_pos f.phase])
    ⟨rfl, rfl, rfl, rfl, rfl, rfl, rfl, rfl⟩
  exact ⟨on, (congrArg Walk.chState walk).trans f.state, congrArg Walk.chPh walk,
    (congrArg Walk.eccR walk).trans f.ecc,
    fun _ => (congrArg Walk.eccZeroQ walk).trans (congrArg (· == 0#32) f.ecc)⟩

theorem Questioned.move (f : Questioned b 1 d) (good : syndrome b = 0#32) (calm : Undisturbed x d)
    (leaves : Leaves b.slot x) : Standing b (d.next x) ∧ (d.next x).c.walk.chState = .move := by
  have zero : d.c.walk.eccZeroQ = true := (f.zero (by decide)).trans (beq_iff_eq.mpr good)
  obtain ⟨on, walk⟩ := f.on.step calm leaves (by rw [f.state]; decide) (y := { d.c.flow x.1 d.s with
      walk := { (d.c.flow x.1 d.s).walk with chI := 0, chRa := 0, chPh := 0, chState := .move } })
    (by rw [f.stated]; unfold Controller.eccqStep; rw [f.phase, zero]; rfl)
    ⟨rfl, rfl, rfl, rfl, rfl, rfl, rfl, rfl⟩
  exact ⟨on, congrArg Walk.chState walk⟩

end Check

section Trap

/-- The walk in `C_TSPIN`, so many shifts on. -/
structure Spinning (b : Block) (t : Nat) (d : Machine) : Prop where
  on : Standing b d
  state : d.c.walk.chState = .tspin
  count : d.c.walk.trapN = BitVec.ofNat 17 (34753 - t)
  ecc : d.c.walk.eccR = Fire.code.free^[t] (syndrome b)

/-- The register at a step of the scan. -/
def scanned (b : Block) (step : Nat) : BitVec 32 := Fire.code.free^[34753 + step] (syndrome b)

/-- The walk at a step of the scan, in `C_TSCAN` or as `C_TSOFT` finds it. -/
structure Scanning (b : Block) (place : ChState) (step : Nat) (d : Machine) : Prop where
  on : Standing b d
  state : d.c.walk.chState = place
  count : d.c.walk.trapStep = BitVec.ofNat 14 step
  ecc : d.c.walk.eccR = scanned b step
  zero : place = .tscan → (d.c.walk.eccHiZeroQ = true ↔ Fire.Low (scanned b step))

/-- The walk in `C_TSOFT2`. -/
structure Measured (b : Block) (step : Nat) (d : Machine) : Prop where
  on : Standing b d
  state : d.c.walk.chState = .tsoft2
  count : d.c.walk.trapStep = BitVec.ofNat 14 step
  width : d.c.walk.burstWidthQ = burstHigh (scanned b step) - burstLow (scanned b step)
  pattern : d.c.walk.burstPatternQ = (scanned b step).extractLsb' 0 11 >>> (burstLow (scanned b step)).toNat

variable {t : Nat}

theorem zero_test (r : BitVec 32) : ((eccBit r false true).extractLsb' 11 21 == 0#21) = true ↔ Fire.Low (Fire.code.free r) := by
  have free : eccBit r false true = Fire.code.free r := eccBit_eq r false
  rw [beq_iff_eq, free]
  constructor
  · intro none_
    apply BitVec.eq_of_getLsbD_eq
    intro k _
    rw [BitVec.getLsbD_ushiftRight, BitVec.getLsbD_zero]
    by_cases inside : k < 21
    · have bit := congrArg (·.getLsbD k) none_
      simp only [BitVec.getLsbD_extractLsb', BitVec.getLsbD_zero, decide_eq_true inside, Bool.true_and] at bit
      exact bit
    · exact BitVec.getLsbD_of_ge _ _ (by omega)
  · intro low
    apply BitVec.eq_of_getLsbD_eq
    intro k _
    rw [BitVec.getLsbD_extractLsb', low.getLsbD (Nat.le_add_right 11 k), Bool.and_false, BitVec.getLsbD_zero]

theorem free_scanned (step : Nat) : Fire.code.free (scanned b step) = scanned b (step + 1) :=
  (Function.iterate_succ_apply' Fire.code.free (34753 + step) (syndrome b)).symm

theorem Questioned.spin (f : Questioned b 1 d) (bad : syndrome b ≠ 0#32) (calm : Undisturbed x d)
    (leaves : Leaves b.slot x) : Spinning b 0 (d.next x) := by
  have zero : d.c.walk.eccZeroQ = false := (f.zero (by decide)).trans (beq_eq_false_iff_ne.mpr bad)
  obtain ⟨on, walk⟩ := f.on.step calm leaves (by rw [f.state]; decide) (y := { d.c.flow x.1 d.s with
      walk := { (d.c.flow x.1 d.s).walk with
        chI := 0, chRa := 0, chPh := 0, trapN := eccSpin, chState := .tspin } })
    (by rw [f.stated]; unfold Controller.eccqStep; rw [f.phase, zero]; rfl) ⟨rfl, rfl, rfl, rfl, rfl, rfl, rfl, rfl⟩
  exact ⟨on, congrArg Walk.chState walk, congrArg Walk.trapN walk, (congrArg Walk.eccR walk).trans f.ecc⟩

theorem Spinning.stated (f : Spinning b t d) : stated x d = d.c.tspinStep (d.c.flow x.1 d.s) := by
  rw [stated_of_ne (by rw [f.state]; decide)]
  unfold Controller.stateStep
  rw [f.state]

theorem Spinning.shift (f : Spinning b t d) (more : t + 1 < 34753) (calm : Undisturbed x d)
    (leaves : Leaves b.slot x) : Spinning b (t + 1) (d.next x) := by
  have number : d.c.walk.trapN.toNat = 34753 - t := by
    rw [f.count, BitVec.toNat_ofNat]
    omega
  have one : (1#17).toNat = 1 := rfl
  have apart : d.c.walk.trapN ≠ 1#17 := fun same => by
    have equal := congrArg BitVec.toNat same
    omega
  have counts : d.c.walk.trapN - 1 = BitVec.ofNat 17 (34753 - (t + 1)) := by
    apply BitVec.eq_of_toNat_eq
    rw [BitVec.toNat_sub_of_le (by rw [BitVec.le_def, number]; show 1 ≤ _; omega), number, BitVec.toNat_ofNat]
    show _ - 1 = _
    omega
  obtain ⟨on, walk⟩ := f.on.step calm leaves (by rw [f.state]; decide) (y := { d.c.flow x.1 d.s with
      walk := { (d.c.flow x.1 d.s).walk with
        eccR := eccBit d.c.walk.eccR false true, trapN := d.c.walk.trapN - 1 } })
    (by rw [f.stated]; unfold Controller.tspinStep; dsimp only; rw [if_neg apart])
    ⟨rfl, rfl, rfl, rfl, rfl, rfl, rfl, rfl⟩
  refine ⟨on, (congrArg Walk.chState walk).trans f.state, (congrArg Walk.trapN walk).trans counts,
    (congrArg Walk.eccR walk).trans ((eccBit_eq _ false).trans ?_)⟩
  rw [f.ecc]
  exact (Function.iterate_succ_apply' Fire.code.free t (syndrome b)).symm

theorem Spinning.scan (f : Spinning b 34752 d) (calm : Undisturbed x d) (leaves : Leaves b.slot x) :
    Scanning b .tscan 0 (d.next x) := by
  obtain ⟨on, walk⟩ := f.on.step calm leaves (by rw [f.state]; decide) (y := { d.c.flow x.1 d.s with
      walk := { (d.c.flow x.1 d.s).walk with
        eccR := eccBit d.c.walk.eccR false true, trapStep := 0, chState := .tscan } })
    (by rw [f.stated]; unfold Controller.tspinStep; dsimp only; rw [if_pos f.count])
    ⟨rfl, rfl, rfl, rfl, rfl, rfl, rfl, rfl⟩
  have last : scanned b 0 = Fire.code.free d.c.walk.eccR := by
    rw [f.ecc]
    exact Function.iterate_succ_apply' _ _ _
  refine ⟨on, congrArg Walk.chState walk, congrArg Walk.trapStep walk,
    (congrArg Walk.eccR walk).trans ((eccBit_eq _ false).trans last.symm), fun _ => ?_⟩
  rw [last, walk]
  exact zero_test d.c.walk.eccR

theorem Scanning.stated (f : Scanning b .tscan t d) : stated x d = d.c.tscanStep (d.c.flow x.1 d.s) := by
  rw [stated_of_ne (by rw [f.state]; decide)]
  unfold Controller.stateStep
  rw [f.state]

theorem Scanning.shift (f : Scanning b .tscan t d) (more : t < 8192) (high : ¬Fire.Low (scanned b t))
    (calm : Undisturbed x d) (leaves : Leaves b.slot x) : Scanning b .tscan (t + 1) (d.next x) := by
  have apart : d.c.walk.trapStep ≠ eccBits := by
    intro same
    have equal := congrArg BitVec.toNat same
    rw [f.count, BitVec.toNat_ofNat, show eccBits.toNat = 8192 from rfl] at equal
    omega
  obtain ⟨on, walk⟩ := f.on.step calm leaves (by rw [f.state]; decide) (y := { d.c.flow x.1 d.s with
      walk := { (d.c.flow x.1 d.s).walk with
        eccR := eccBit d.c.walk.eccR false true, trapStep := d.c.walk.trapStep + 1 } })
    (by rw [f.stated]; unfold Controller.tscanStep; rw [if_neg fun found => high ((f.zero rfl).mp found), if_neg apart])
    ⟨rfl, rfl, rfl, rfl, rfl, rfl, rfl, rfl⟩
  have next : scanned b (t + 1) = Fire.code.free d.c.walk.eccR := by rw [f.ecc, free_scanned]
  refine ⟨on, (congrArg Walk.chState walk).trans f.state, ?_,
    (congrArg Walk.eccR walk).trans ((eccBit_eq _ false).trans next.symm), fun _ => ?_⟩
  · refine (congrArg Walk.trapStep walk).trans ((congrArg (· + 1) f.count).trans ?_)
    exact (BitVec.ofNat_add _ _).symm
  · rw [next, walk]
    exact zero_test d.c.walk.eccR

theorem Scanning.catch_ (f : Scanning b .tscan t d) (low : Fire.Low (scanned b t)) (calm : Undisturbed x d)
    (leaves : Leaves b.slot x) : Scanning b .tsoft t (d.next x) := by
  obtain ⟨on, walk⟩ := f.on.step calm leaves (by rw [f.state]; decide) (y := { d.c.flow x.1 d.s with
      walk := { (d.c.flow x.1 d.s).walk with chState := .tsoft } })
    (by rw [f.stated]; unfold Controller.tscanStep; rw [if_pos ((f.zero rfl).mpr low)])
    ⟨rfl, rfl, rfl, rfl, rfl, rfl, rfl, rfl⟩
  exact ⟨on, congrArg Walk.chState walk, (congrArg Walk.trapStep walk).trans f.count,
    (congrArg Walk.eccR walk).trans f.ecc, nofun⟩

theorem Scanning.hard (f : Scanning b .tscan 8192 d) (high : ¬Fire.Low (scanned b 8192)) (calm : Undisturbed x d) :
    (d.next x).c.walk.chState = .accmul ∧ (d.next x).c.errors.ecchard = true := by
  rw [calm.alike.walk, calm.alike.errors, f.stated]
  unfold Controller.tscanStep
  rw [if_neg fun found => high ((f.zero rfl).mp found), if_pos (show d.c.walk.trapStep = eccBits from f.count)]
  exact ⟨rfl, rfl⟩

theorem Scanning.measure (f : Scanning b .tsoft t d) (calm : Undisturbed x d) (leaves : Leaves b.slot x) :
    Measured b t (d.next x) := by
  obtain ⟨on, walk⟩ := f.on.step calm leaves (by rw [f.state]; decide) (y := { d.c.flow x.1 d.s with
      walk := { (d.c.flow x.1 d.s).walk with
        burstWidthQ := burstHigh d.c.walk.eccR - burstLow d.c.walk.eccR,
        burstPatternQ := d.c.walk.eccR.extractLsb' 0 11 >>> (burstLow d.c.walk.eccR).toNat,
        chState := .tsoft2 } })
    (by rw [stated_of_ne (by rw [f.state]; decide)]; unfold Controller.stateStep; rw [f.state]; rfl)
    ⟨rfl, rfl, rfl, rfl, rfl, rfl, rfl, rfl⟩
  rw [f.ecc] at walk
  exact ⟨on, congrArg Walk.chState walk, (congrArg Walk.trapStep walk).trans f.count,
    congrArg Walk.burstWidthQ walk, congrArg Walk.burstPatternQ walk⟩

theorem Measured.stated (f : Measured b t d) : stated x d = d.c.tsoft2Step (d.c.flow x.1 d.s) := by
  rw [stated_of_ne (by rw [f.state]; decide)]
  unfold Controller.stateStep
  rw [f.state]

theorem Measured.ends (f : Measured b t d) (calm : Undisturbed x d) :
    (d.next x).c.walk.chState = .accmul ∧
      ((d.next x).c.errors.eccsoft = true ∨ (d.next x).c.errors.ecchard = true) := by
  rw [calm.alike.walk, calm.alike.errors, f.stated]
  unfold Controller.tsoft2Step
  split
  · exact ⟨rfl, .inl rfl⟩
  · exact ⟨rfl, .inr rfl⟩

theorem Measured.located (f : Measured b t d)
    (within : (burstHigh (scanned b t) - burstLow (scanned b t)).setWidth 14 ≤ BitVec.ofNat 14 t)
    (calm : Undisturbed x d) :
    (d.next x).c.walk.chState = .accmul ∧ (d.next x).c.walk.chReq = b.request ∧
      (d.next x).c.errors = { b.errors with eccsoft := true } ∧
      (d.next x).c.regs.eccReg = 0#5 ++ (scanned b t).extractLsb' 0 11 >>> (burstLow (scanned b t)).toNat ++
        ((BitVec.ofNat 14 t).setWidth 16 - (burstHigh (scanned b t) - burstLow (scanned b t)).setWidth 16 + 1) := by
  rw [calm.alike.walk, calm.alike.errors, calm.alike.eccReg, f.stated]
  unfold Controller.tsoft2Step
  rw [if_pos (by rw [f.width, f.count]; exact within), ← f.count, ← f.width, ← f.pattern, ← f.on.errors]
  exact ⟨rfl, f.on.request, rfl, rfl⟩

end Trap

end Machine

end MuirFpga.Disk
