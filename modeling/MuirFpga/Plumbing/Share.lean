import MuirFpga.Sync.Bursts
import MuirFpga.Sync.Trace
import Mathlib.Data.BitVec
import Mathlib.Data.Nat.Log
import Mathlib.Tactic.SplitIfs

/-!
# One FPGA-to-SDRAM port, shared by burst

`cadr_f2sdram_share`: the masters' addresses granted one at a time on each channel, the write's data
put with its address, the beats of reads and the writes in flight counted for each master, and the
responses routed by the transaction ID, which is the port's number. The data words and the fixed
sideband, which pass through, are left out.
-/

namespace MuirFpga.Plumbing

open Sync

/-- The module's parameters. -/
structure ShareConfig where
  n : Nat
  mWrites : Nat
  holdWrites : Bool
  holdBound : Nat
  ports : 0 < n
  writes : 0 < mWrites

/-- A transaction's address, length, beat size and burst. -/
structure Request where
  addr : BitVec 32
  len : BitVec 4
  size : BitVec 2
  burst : BitVec 2

/-- A beat of write data. -/
structure WriteBeat where
  data : BitVec 64
  strb : BitVec 8
  last : Bool

/-- What a master drives. -/
structure ShareMaster where
  awvalid : Bool
  aw : Request
  wvalid : Bool
  w : WriteBeat
  bready : Bool
  arvalid : Bool
  ar : Request
  rready : Bool

/-- What a clock brings: the gate's hold, the masters, and what the bridge drives. -/
structure ShareInput (n : Nat) where
  rst : Bool
  hold : Bool
  master : Fin n → ShareMaster
  mAwready : Bool
  mWready : Bool
  mBid : BitVec 5
  mBvalid : Bool
  mArready : Bool
  mRid : BitVec 5
  mRvalid : Bool

namespace ShareConfig

variable (c : ShareConfig)

/-- The machine's port. -/
def machine : Fin c.n := ⟨0, c.ports⟩

/-- The widths of the writes' counts and of the bound's. -/
def wn : Nat := Nat.clog 2 (c.mWrites + 1)
def bw : Nat := Nat.clog 2 (c.holdBound + 1)

/-- The most beats of reads one master may have in flight: one full burst. -/
def cap : Nat := 16

/-- The writes a master may have in flight. -/
def writesOf (i : Fin c.n) : Nat := if i = c.machine then c.mWrites else 1

/-- The first port asking, lowest first. -/
def first (asking : Fin c.n → Bool) : Fin c.n :=
  (List.finRange c.n).foldr (fun i found => if asking i then i else found) c.machine

end ShareConfig

/-- A port's transaction ID. -/
def shareId {n : Nat} (i : Fin n) : BitVec 5 := BitVec.ofNat 5 i.val

/-- The registers. -/
structure Share (c : ShareConfig) where
  arOn : Bool
  arWho : Fin c.n
  rdBeats : Fin c.n → BitVec 5
  wOn : Bool
  wWho : Fin c.n
  awDone : Bool
  wDone : Bool
  wrN : Fin c.n → BitVec c.wn
  waitN : BitVec c.bw

namespace Share

variable {c : ShareConfig} (s : Share c) (i : ShareInput c.n)

def rdOut (p : Fin c.n) : Bool := s.rdBeats p != 0#5
def arFits (p : Fin c.n) : Bool :=
  decide ((s.rdBeats p).setWidth 6 + (i.master p).ar.len.setWidth 6 + 1#6 ≤ BitVec.ofNat 6 ShareConfig.cap)
def wrOut (p : Fin c.n) : Bool := s.wrN p != 0#c.wn
def wrFull (p : Fin c.n) : Bool := s.wrN p == BitVec.ofNat c.wn (c.writesOf p)

/-- Who may be granted: the machine while it is asking or waiting, and everybody while it is not; at
the bound only the others. -/
def machineBusy : Bool :=
  (i.master c.machine).arvalid || (i.master c.machine).awvalid || (s.wOn && s.wWho == c.machine) ||
    s.rdOut c.machine || s.wrOut c.machine
def holding : Bool :=
  if c.holdWrites then s.machineBusy i
  else (i.master c.machine).arvalid || s.rdOut c.machine
def yield : Bool := c.holdBound != 0 && s.waitN == BitVec.ofNat c.bw c.holdBound
def eligible (p : Fin c.n) : Bool :=
  if s.yield then p != c.machine else if s.holding i then p == c.machine else true

def arCan (p : Fin c.n) : Bool := (i.master p).arvalid && s.arFits i p && s.eligible i p
def awCan (p : Fin c.n) : Bool := (i.master p).awvalid && !s.wrFull p && s.eligible i p
def anyAr : Bool := (List.finRange c.n).any (s.arCan i)
def anyAw : Bool := (List.finRange c.n).any (s.awCan i)

/-- The bound: another master asks for what it may be granted, and one of them is granted. -/
def otherWaits : Bool :=
  (List.finRange c.n).any fun p => p != c.machine &&
    (((i.master p).arvalid && s.arFits i p) || ((i.master p).awvalid && !s.wrFull p))
def otherGranted : Bool :=
  !i.hold && ((!s.arOn && s.anyAr i && c.first (s.arCan i) != c.machine) ||
    (!s.wOn && s.anyAw i && c.first (s.awCan i) != c.machine))

/-- The bridge's side. -/
def mArvalid : Bool := s.arOn
def mAr : Request := (i.master s.arWho).ar
def mAwvalid : Bool := s.wOn && !s.awDone
def mAw : Request := (i.master s.wWho).aw
def mWvalid : Bool := s.wOn && !s.wDone && (i.master s.wWho).wvalid
def mW : WriteBeat := (i.master s.wWho).w
def awTake : Bool := s.mAwvalid && i.mAwready
def wTake : Bool := s.mWvalid i && i.mWready && (s.mW i).last

/-- The write let go: its address and its last data beat both taken. -/
def wLetGo : Bool := s.wOn && (s.awDone || s.awTake i) && (s.wDone || s.wTake i)

/-- The masters' side. -/
def sArready (p : Fin c.n) : Bool := s.arOn && s.arWho == p && i.mArready
def sAwready (p : Fin c.n) : Bool := s.wOn && !s.awDone && s.wWho == p && i.mAwready

end Share

namespace ShareInput

variable {n : Nat} (i : ShareInput n)

def bMine (p : Fin n) : Bool := i.mBid == shareId p
def rMine (p : Fin n) : Bool := i.mRid == shareId p
def mBready : Bool := (List.finRange n).any fun p => (i.master p).bready && i.bMine p
def mRready : Bool := (List.finRange n).any fun p => (i.master p).rready && i.rMine p

end ShareInput

namespace Share

variable {c : ShareConfig} (s : Share c) (i : ShareInput c.n)

/-- Nothing granted and nothing outstanding. -/
def idle : Bool :=
  !s.arOn && !s.wOn && (List.finRange c.n).all (fun p => !s.rdOut p) &&
    (List.finRange c.n).all (fun p => !s.wrOut p)

/-- The registers in reset. -/
def reset (c : ShareConfig) : Share c where
  arOn := false
  arWho := c.machine
  rdBeats _ := 0#5
  wOn := false
  wWho := c.machine
  awDone := false
  wDone := false
  wrN _ := 0#c.wn
  waitN := 0#c.bw

/-- The beats of a master's reads after a clock. -/
def rdBeatsN (p : Fin c.n) : BitVec 5 :=
  s.rdBeats p + (if s.arOn && i.mArready && s.arWho == p then (i.master p).ar.len.setWidth 5 + 1#5 else 0#5) -
    (if i.mRvalid && i.mRready && i.rMine p then 1#5 else 0#5)

/-- A master's writes in flight after a clock. -/
def wrNN (p : Fin c.n) : BitVec c.wn :=
  s.wrN p + (if s.wLetGo i && s.wWho == p then BitVec.ofNat c.wn 1 else 0#c.wn) -
    (if i.mBvalid && i.mBready && i.bMine p then BitVec.ofNat c.wn 1 else 0#c.wn)

/-- The count of the clocks another master waits. -/
def waitNN : BitVec c.bw :=
  if !s.otherWaits i || s.otherGranted i then 0#c.bw
  else if !i.hold && s.waitN != BitVec.ofNat c.bw c.holdBound then s.waitN + BitVec.ofNat c.bw 1
  else s.waitN

/-- One clock. -/
def next : Share c :=
  if i.rst then reset c
  else
    { arOn := if !s.arOn then !i.hold && s.anyAr i else !i.mArready
      arWho := if !s.arOn && !i.hold && s.anyAr i then c.first (s.arCan i) else s.arWho
      rdBeats := s.rdBeatsN i
      wOn := if !s.wOn then !i.hold && s.anyAw i else !s.wLetGo i
      wWho := if !s.wOn && !i.hold && s.anyAw i then c.first (s.awCan i) else s.wWho
      awDone :=
        if !s.wOn then if !i.hold && s.anyAw i then false else s.awDone
        else if s.awTake i then true else s.awDone
      wDone :=
        if !s.wOn then if !i.hold && s.anyAw i then false else s.wDone
        else if s.wTake i then true else s.wDone
      wrN := s.wrNN i
      waitN := s.waitNN i }

end Share

/-- What the bridge took and what it gave since the last reset, in order: the addresses and the data
with the master each was from, the beats and the responses with the ID they came under. -/
structure Seen (n : Nat) where
  ars : List (Fin n × Request)
  rs : List (BitVec 5)
  aws : List (Fin n × Request)
  ws : List (Fin n × WriteBeat)
  bs : List (BitVec 5)

namespace Seen

variable {n : Nat} (seen : Seen n)

def nothing (n : Nat) : Seen n := ⟨[], [], [], [], []⟩

/-- The beats of the reads taken from some of the masters. -/
def beatsOf (mine : Fin n → Bool) : Nat :=
  ((seen.ars.filter fun read => mine read.1).map fun read => read.2.len.toNat + 1).sum

/-- The writes whose address and whose last data beat were both taken. -/
def letGo : List (Fin n × Request) := seen.aws.take (seen.ws.countP fun beat => beat.2.last)

/-- The number of those from some of the masters. -/
def writesOf (mine : Fin n → Bool) : Nat := seen.letGo.countP fun write => mine write.1

end Seen

/-- A clock's transfers at the bridge. -/
def Share.see {c : ShareConfig} (s : Share c) (i : ShareInput c.n) (seen : Seen c.n) : Seen c.n :=
  if i.rst then Seen.nothing c.n
  else
    { ars := if s.mArvalid && i.mArready then seen.ars ++ [(s.arWho, s.mAr i)] else seen.ars
      rs := if i.mRvalid && i.mRready then seen.rs ++ [i.mRid] else seen.rs
      aws := if s.awTake i then seen.aws ++ [(s.wWho, s.mAw i)] else seen.aws
      ws := if s.mWvalid i && i.mWready then seen.ws ++ [(s.wWho, s.mW i)] else seen.ws
      bs := if i.mBvalid && i.mBready then seen.bs ++ [i.mBid] else seen.bs }

variable {c : ShareConfig}

/-- A run from reset, with what the bridge saw. -/
def shareTrace (inputs : Nat → ShareInput c.n) : Nat → Share c × Seen c.n :=
  trace (fun i state => (state.1.next i, state.1.see i state.2)) (Share.reset c, Seen.nothing c.n) inputs

def shareRun (inputs : Nat → ShareInput c.n) (clock : Nat) : Share c := (shareTrace inputs clock).1
def shareSeen (inputs : Nat → ShareInput c.n) (clock : Nat) : Seen c.n := (shareTrace inputs clock).2

/-- A request that is not taken is there at the next clock, with its address, unless a reset comes. -/
structure MastersConform (inputs : Nat → ShareInput c.n) : Prop where
  ar : ∀ clock p, (inputs clock).rst = false → (inputs (clock + 1)).rst = false →
    ((inputs clock).master p).arvalid = true →
    (shareRun inputs clock).sArready (inputs clock) p = false →
    ((inputs (clock + 1)).master p).arvalid = true ∧
      ((inputs (clock + 1)).master p).ar = ((inputs clock).master p).ar
  aw : ∀ clock p, (inputs clock).rst = false → (inputs (clock + 1)).rst = false →
    ((inputs clock).master p).awvalid = true →
    (shareRun inputs clock).sAwready (inputs clock) p = false →
    ((inputs (clock + 1)).master p).awvalid = true ∧
      ((inputs (clock + 1)).master p).aw = ((inputs clock).master p).aw

/-- The bridge gives no more beats under an ID than the reads it took under it have, and no more
responses than the writes it took whole. -/
structure BridgeConforms (inputs : Nat → ShareInput c.n) : Prop where
  r : ∀ clock, (inputs clock).rst = false → (inputs clock).mRvalid = true →
    (shareSeen inputs clock).rs.count (inputs clock).mRid <
      (shareSeen inputs clock).beatsOf fun p => shareId p == (inputs clock).mRid
  b : ∀ clock, (inputs clock).rst = false → (inputs clock).mBvalid = true →
    (shareSeen inputs clock).bs.count (inputs clock).mBid <
      (shareSeen inputs clock).writesOf fun p => shareId p == (inputs clock).mBid

theorem shareId_beq (ids : c.n ≤ 32) (p : Fin c.n) : (fun q => shareId q == shareId p) = (· == p) := by
  funext q
  have low := p.isLt
  have lowQ := q.isLt
  rw [Bool.eq_iff_iff, beq_iff_eq, beq_iff_eq, Fin.ext_iff]
  unfold shareId
  constructor
  · intro same
    have values := congrArg BitVec.toNat same
    rw [BitVec.toNat_ofNat, BitVec.toNat_ofNat, Nat.mod_eq_of_lt (by omega),
      Nat.mod_eq_of_lt (by omega)] at values
    exact values
  · intro same
    rw [same]

theorem first_asks {asking : Fin c.n → Bool} (some : (List.finRange c.n).any asking = true) :
    asking (c.first asking) = true := by
  unfold ShareConfig.first
  generalize List.finRange c.n = ports at some ⊢
  induction ports with
  | nil => simp at some
  | cons p ports ih =>
    rw [List.foldr_cons]
    by_cases asks : asking p = true
    · rw [if_pos asks]
      exact asks
    · rw [if_neg asks]
      apply ih
      simpa [asks] using some

theorem arFits_iff {s : Share c} {i : ShareInput c.n} {p : Fin c.n} :
    s.arFits i p = true ↔ (s.rdBeats p).toNat + (i.master p).ar.len.toNat + 1 ≤ 16 := by
  have beats := (s.rdBeats p).isLt
  have len := (i.master p).ar.len.isLt
  unfold Share.arFits ShareConfig.cap
  rw [decide_eq_true_iff, BitVec.le_def]
  simp only [BitVec.toNat_add, BitVec.toNat_setWidth, BitVec.toNat_ofNat]
  omega

theorem writesOf_lt (p : Fin c.n) : c.writesOf p < 2 ^ c.wn := by
  have most : c.mWrites + 1 ≤ 2 ^ c.wn := Nat.le_pow_clog (by decide) _
  have one := c.writes
  unfold ShareConfig.writesOf
  split_ifs <;> omega

theorem wrFull_iff {s : Share c} {p : Fin c.n} (most : (s.wrN p).toNat ≤ c.writesOf p) :
    s.wrFull p = false ↔ (s.wrN p).toNat < c.writesOf p := by
  have fits := writesOf_lt p
  have value : (BitVec.ofNat c.wn (c.writesOf p)).toNat = c.writesOf p := by
    rw [BitVec.toNat_ofNat]
    exact Nat.mod_eq_of_lt fits
  unfold Share.wrFull
  rw [beq_eq_false_iff_ne, ne_eq, ← BitVec.toNat_inj, value]
  omega

/-- The reads' side of the count: the beats still to come are those of the reads taken less those that
came, no more than the cap, and the read being put to the bridge is one its master asks for and fits. -/
structure ReadsKept (s : Share c) (seen : Seen c.n) (i : ShareInput c.n) : Prop where
  exact : ∀ p, (s.rdBeats p).toNat + seen.rs.count (shareId p) = seen.beatsOf (· == p)
  few : ∀ p, (s.rdBeats p).toNat ≤ 16
  asks : i.rst = false → s.arOn = true → (i.master s.arWho).arvalid = true
  fits : i.rst = false → s.arOn = true →
    (s.rdBeats s.arWho).toNat + (i.master s.arWho).ar.len.toNat + 1 ≤ 16

theorem toNat_rdBeatsN {s : Share c} {i : ShareInput c.n} {p : Fin c.n}
    (few : (s.rdBeats p).toNat ≤ 16)
    (fits : (s.arOn && i.mArready && s.arWho == p) = true →
      (s.rdBeats p).toNat + (i.master p).ar.len.toNat + 1 ≤ 16)
    (owed : (i.mRvalid && i.mRready && i.rMine p) = true → 0 < (s.rdBeats p).toNat) :
    (s.rdBeatsN i p).toNat + (if i.mRvalid && i.mRready && i.rMine p then 1 else 0) =
      (s.rdBeats p).toNat +
        if s.arOn && i.mArready && s.arWho == p then (i.master p).ar.len.toNat + 1 else 0 := by
  have len := (i.master p).ar.len.isLt
  unfold Share.rdBeatsN
  by_cases took : (s.arOn && i.mArready && s.arWho == p) = true <;>
    by_cases came : (i.mRvalid && i.mRready && i.rMine p) = true
  all_goals
    simp only [took, came, if_true, if_false, true_implies, Bool.false_eq_true] at fits owed ⊢
    simp only [BitVec.toNat_sub, BitVec.toNat_add, BitVec.toNat_setWidth, BitVec.toNat_ofNat]
    omega

theorem beatsOf_see {s : Share c} {i : ShareInput c.n} {seen : Seen c.n} (rst : i.rst = false)
    (mine : Fin c.n → Bool) :
    (s.see i seen).beatsOf mine = seen.beatsOf mine +
      if s.arOn && i.mArready && mine s.arWho then (s.mAr i).len.toNat + 1 else 0 := by
  unfold Seen.beatsOf Share.see Share.mArvalid
  rw [if_neg (by simp [rst])]
  by_cases took : (s.arOn && i.mArready) = true
  · by_cases his : mine s.arWho = true <;> simp [took, his]
  · simp [took]

theorem count_rs_see {s : Share c} {i : ShareInput c.n} {seen : Seen c.n} (rst : i.rst = false)
    (p : Fin c.n) :
    (s.see i seen).rs.count (shareId p) = seen.rs.count (shareId p) +
      if i.mRvalid && i.mRready && i.rMine p then 1 else 0 := by
  unfold Share.see ShareInput.rMine
  rw [if_neg (by simp [rst])]
  by_cases came : (i.mRvalid && i.mRready) = true
  · simp [came, List.count_singleton]
  · simp [came]

theorem readsKept_next {s : Share c} {i j : ShareInput c.n} {seen : Seen c.n} (ids : c.n ≤ 32)
    (kept : ReadsKept s seen i)
    (masters : ∀ p, i.rst = false → j.rst = false → (i.master p).arvalid = true →
      s.sArready i p = false → (j.master p).arvalid = true ∧ (j.master p).ar = (i.master p).ar)
    (bridge : i.rst = false → i.mRvalid = true →
      seen.rs.count i.mRid < seen.beatsOf fun p => shareId p == i.mRid) :
    ReadsKept (s.next i) (s.see i seen) j := by
  cases rst : i.rst with
  | true =>
    have reset : s.next i = Share.reset c := if_pos rst
    have nothing : s.see i seen = Seen.nothing c.n := if_pos rst
    rw [reset, nothing]
    exact ⟨fun p => rfl, fun p => Nat.zero_le _, nofun, nofun⟩
  | false =>
    have beats : (s.next i).rdBeats = s.rdBeatsN i := by
      unfold Share.next
      rw [if_neg (by simp [rst])]
    have on : (s.next i).arOn = if !s.arOn then !i.hold && s.anyAr i else !i.mArready := by
      unfold Share.next
      rw [if_neg (by simp [rst])]
    have who : (s.next i).arWho =
        if !s.arOn && !i.hold && s.anyAr i then c.first (s.arCan i) else s.arWho := by
      unfold Share.next
      rw [if_neg (by simp [rst])]
    have taken : ∀ p, (s.arOn && i.mArready && s.arWho == p) = true →
        (s.rdBeats p).toNat + (i.master p).ar.len.toNat + 1 ≤ 16 := by
      intro p took
      rw [Bool.and_eq_true, Bool.and_eq_true, beq_iff_eq] at took
      obtain ⟨⟨put, _⟩, rfl⟩ := took
      exact kept.fits rst put
    have owed : ∀ p, (i.mRvalid && i.mRready && i.rMine p) = true → 0 < (s.rdBeats p).toNat := by
      intro p came
      rw [Bool.and_eq_true, Bool.and_eq_true] at came
      obtain ⟨⟨valid, _⟩, mine⟩ := came
      have id : i.mRid = shareId p := beq_iff_eq.mp mine
      have more := bridge rst valid
      rw [id, shareId_beq ids p, ← kept.exact p] at more
      omega
    have after := fun p => toNat_rdBeatsN (kept.few p) (taken p) (owed p)
    have most : ∀ p, (s.rdBeatsN i p).toNat ≤ 16 := by
      intro p
      have count := after p
      by_cases took : (s.arOn && i.mArready && s.arWho == p) = true
      · have fits := taken p took
        rw [took] at count
        simp only [if_true] at count
        omega
      · have few := kept.few p
        rw [if_neg took] at count
        omega
    -- The master whose read is put to the bridge asked for it at this clock, and it is not taken yet.
    have put : (s.next i).arOn = true →
        (i.master (s.next i).arWho).arvalid = true ∧
          s.sArready i (s.next i).arWho = false ∧
          (s.rdBeatsN i (s.next i).arWho).toNat +
            (i.master (s.next i).arWho).ar.len.toNat + 1 ≤ 16 := by
      intro now
      rw [on] at now
      cases was : s.arOn with
      | false =>
        rw [was] at now
        simp only [Bool.not_false, if_true, Bool.and_eq_true] at now
        rw [who, was, now.1, now.2]
        simp only [Bool.not_false, Bool.and_true, if_true]
        have can : s.arCan i (c.first (s.arCan i)) = true := first_asks now.2
        generalize c.first (s.arCan i) = p at can ⊢
        have count := after p
        rw [was] at count
        unfold Share.arCan at can
        rw [Bool.and_eq_true, Bool.and_eq_true, arFits_iff] at can
        refine ⟨can.1.1, ?_, ?_⟩
        · unfold Share.sArready
          rw [was]
          rfl
        · simp only [Bool.false_and, Bool.false_eq_true, if_false] at count
          omega
      | true =>
        rw [was] at now
        simp only [Bool.not_true, Bool.false_eq_true, if_false, Bool.not_eq_true'] at now
        rw [who, was]
        simp only [Bool.not_true, Bool.false_and, Bool.false_eq_true, if_false]
        have count := after s.arWho
        have fits := kept.fits rst was
        rw [was, now] at count
        refine ⟨kept.asks rst was, ?_, ?_⟩
        · unfold Share.sArready
          rw [now, Bool.and_false]
        · simp only [Bool.and_false, Bool.false_and, Bool.false_eq_true, if_false] at count
          omega
    refine ⟨fun p => ?_, fun p => ?_, fun clear now => ?_, fun clear now => ?_⟩
    · have count := after p
      have exact := kept.exact p
      rw [beats, count_rs_see rst, beatsOf_see rst]
      by_cases his : s.arWho = p
      · subst his
        simp only [beq_self_eq_true, Bool.and_true, Share.mAr] at count ⊢
        omega
      · have other : (s.arWho == p) = false := beq_eq_false_iff_ne.mpr his
        rw [other] at count ⊢
        simp only [Bool.and_false, Bool.false_eq_true, if_false] at count ⊢
        omega
    · rw [beats]
      exact most p
    · obtain ⟨valid, unready, _⟩ := put now
      exact (masters _ rst clear valid unready).1
    · obtain ⟨valid, unready, fits⟩ := put now
      rw [beats, (masters _ rst clear valid unready).2]
      exact fits

/-- The write's data is in the order of the addresses, the one being put among them; an address taken
is the last, and its write has data to come while it is put. -/
structure InOrder (s : Share c) (seen : Seen c.n) : Prop where
  data : Carried WriteBeat.last
    (seen.aws.map Prod.fst ++ if s.mAwvalid then [s.wWho] else []) seen.ws
    (if s.wOn && !s.wDone then [s.wWho] else [])
  address : s.wOn = true → s.awDone = true → ∃ front request, seen.aws = front ++ [(s.wWho, request)]
  part : s.wOn = true → s.awDone = true → s.wDone = false

/-- The writes' side of the count: the writes in flight are those let go less those answered, within
what a master may have, and the write being put is one its master asks for. -/
structure WritesKept (s : Share c) (seen : Seen c.n) (i : ShareInput c.n) : Prop where
  exact : ∀ p, (s.wrN p).toNat + seen.bs.count (shareId p) = seen.writesOf (· == p)
  most : ∀ p, (s.wrN p).toNat ≤ c.writesOf p
  room : s.wOn = true → (s.wrN s.wWho).toNat < c.writesOf s.wWho
  asks : i.rst = false → s.mAwvalid = true → (i.master s.wWho).awvalid = true
  order : InOrder s seen

theorem letGo_eq {s : Share c} {seen : Seen c.n} (order : InOrder s seen) :
    seen.letGo = if s.wOn && s.awDone then seen.aws.dropLast else seen.aws := by
  have lasts := order.data.lasts_add
  unfold Seen.letGo
  cases on : s.wOn with
  | false =>
    simp only [Share.mAwvalid, on, Bool.false_and, Bool.false_eq_true, if_false, List.append_nil,
      List.length_map, List.length_nil, Nat.add_zero] at lasts ⊢
    rw [lasts, List.take_length]
  | true =>
    cases done : s.awDone with
    | false =>
      simp only [Share.mAwvalid, on, done, Bool.true_and, Bool.not_false, if_true,
        List.length_append, List.length_map, List.length_singleton] at lasts ⊢
      rw [if_neg (by decide)]
      apply List.take_of_length_le
      have one : (if (!s.wDone) = true then [s.wWho] else []).length ≤ 1 := by
        split_ifs <;> simp
      omega
    | true =>
      have more := order.part on done
      simp only [Share.mAwvalid, on, done, more, Bool.true_and, Bool.not_true, Bool.not_false,
        Bool.false_eq_true, if_false, if_true, List.append_nil, List.length_map,
        List.length_singleton] at lasts ⊢
      rw [List.dropLast_eq_take, ← lasts, Nat.add_sub_cancel]

theorem toNat_wrNN {s : Share c} {i : ShareInput c.n} {p : Fin c.n}
    (room : (s.wLetGo i && s.wWho == p) = true → (s.wrN p).toNat < c.writesOf p)
    (owed : (i.mBvalid && i.mBready && i.bMine p) = true → 0 < (s.wrN p).toNat) :
    (s.wrNN i p).toNat + (if i.mBvalid && i.mBready && i.bMine p then 1 else 0) =
      (s.wrN p).toNat + if s.wLetGo i && s.wWho == p then 1 else 0 := by
  have fits := writesOf_lt p
  have one : (BitVec.ofNat c.wn 1).toNat = 1 := by
    rw [BitVec.toNat_ofNat]
    apply Nat.mod_eq_of_lt
    have least : 1 ≤ c.writesOf p := by
      have positive := c.writes
      unfold ShareConfig.writesOf
      split_ifs <;> omega
    omega
  unfold Share.wrNN
  by_cases went : (s.wLetGo i && s.wWho == p) = true <;>
    by_cases came : (i.mBvalid && i.mBready && i.bMine p) = true
  · simp [went, came]
  · rw [if_pos went, if_neg came, if_neg came, if_pos went]
    rw [BitVec.sub_zero, BitVec.toNat_add_of_lt (by have := room went; omega), one]
  · rw [if_neg went, if_pos came, if_pos came, if_neg went]
    rw [BitVec.add_zero, BitVec.toNat_sub_of_le (by rw [BitVec.le_def, one]; exact owed came), one]
    have := owed came
    omega
  · rw [if_neg went, if_neg came, if_neg came, if_neg went]
    simp

section Clock

variable {s : Share c} {i : ShareInput c.n} {seen : Seen c.n}

section

variable (rst : i.rst = false)

include rst

theorem wOn_next :
    (s.next i).wOn = if !s.wOn then !i.hold && s.anyAw i else !s.wLetGo i := by
  unfold Share.next
  rw [if_neg (by simp [rst])]

theorem wWho_next : (s.next i).wWho =
    if !s.wOn && !i.hold && s.anyAw i then c.first (s.awCan i) else s.wWho := by
  unfold Share.next
  rw [if_neg (by simp [rst])]

theorem awDone_next : (s.next i).awDone = if !s.wOn then if !i.hold && s.anyAw i then false else s.awDone
    else if s.awTake i then true else s.awDone := by
  unfold Share.next
  rw [if_neg (by simp [rst])]

theorem wDone_next : (s.next i).wDone = if !s.wOn then if !i.hold && s.anyAw i then false else s.wDone
    else if s.wTake i then true else s.wDone := by
  unfold Share.next
  rw [if_neg (by simp [rst])]

theorem aws_see : (s.see i seen).aws =
    if s.awTake i then seen.aws ++ [(s.wWho, s.mAw i)] else seen.aws := by
  unfold Share.see
  rw [if_neg (by simp [rst])]

theorem ws_see : (s.see i seen).ws =
    if s.mWvalid i && i.mWready then seen.ws ++ [(s.wWho, s.mW i)] else seen.ws := by
  unfold Share.see
  rw [if_neg (by simp [rst])]

theorem idle_next (off : s.wOn = false) :
    (s.see i seen).aws = seen.aws ∧ (s.see i seen).ws = seen.ws ∧
      ((s.next i).wOn = false ∨
        (s.next i).wOn = true ∧ (s.next i).awDone = false ∧ (s.next i).wDone = false ∧
          s.awCan i (s.next i).wWho = true) := by
  rw [aws_see rst, ws_see rst, wOn_next rst, awDone_next rst, wDone_next rst, wWho_next rst]
  simp only [Share.awTake, Share.mAwvalid, Share.mWvalid, off, Bool.false_and, Bool.not_false,
    Bool.true_and, Bool.false_eq_true, if_false, if_true, true_and]
  by_cases granted : (!i.hold && s.anyAw i) = true
  · rw [if_pos granted, if_pos granted, if_pos granted]
    rw [Bool.and_eq_true] at granted
    exact Or.inr ⟨by simp [granted], rfl, rfl, first_asks granted.2⟩
  · exact Or.inl (by simpa using granted)

theorem put_next (on : s.wOn = true) :
    (s.next i).wOn = !s.wLetGo i ∧ (s.next i).wWho = s.wWho ∧
      (s.next i).awDone = (s.awDone || s.awTake i) ∧ (s.next i).wDone = (s.wDone || s.wTake i) := by
  rw [wOn_next rst, awDone_next rst, wDone_next rst, wWho_next rst]
  simp only [on, Bool.not_true, Bool.false_and, Bool.false_eq_true, if_false, true_and]
  constructor
  · cases s.awTake i <;> simp
  · cases s.wTake i <;> simp

end

theorem wLetGo_eq (on : s.wOn = true) :
    s.wLetGo i = ((s.awDone || s.awTake i) && (s.wDone || s.wTake i)) := by
  unfold Share.wLetGo
  rw [on, Bool.true_and]

theorem owners_next (rst : i.rst = false) (on : s.wOn = true) :
    ((s.see i seen).aws.map Prod.fst ++ if (s.next i).mAwvalid then [(s.next i).wWho] else []) =
      seen.aws.map Prod.fst ++ if s.mAwvalid then [s.wWho] else [] := by
  obtain ⟨onN, whoN, awN, wN⟩ := put_next (i := i) rst on
  have valid : (s.next i).mAwvalid = (!(s.awDone || s.awTake i)) := by
    unfold Share.mAwvalid
    rw [onN, awN, wLetGo_eq on]
    cases (s.awDone || s.awTake i) <;> simp
  rw [aws_see rst, valid, whoN]
  unfold Share.awTake Share.mAwvalid
  rw [on]
  cases s.awDone <;> cases i.mAwready <;> simp

theorem data_next (order : InOrder s seen) (rst : i.rst = false) :
    Carried WriteBeat.last
      ((s.see i seen).aws.map Prod.fst ++ if (s.next i).mAwvalid then [(s.next i).wWho] else [])
      (s.see i seen).ws (if (s.next i).wOn && !(s.next i).wDone then [(s.next i).wWho] else []) := by
  have carried := order.data
  cases on : s.wOn with
  | false =>
    obtain ⟨addresses, data, granted⟩ := @idle_next c s i seen rst on
    rw [addresses, data]
    have before : Carried WriteBeat.last (seen.aws.map Prod.fst) seen.ws [] := by
      simpa [Share.mAwvalid, on] using carried
    rcases granted with none | ⟨onN, awN, wN, _⟩
    · simpa [Share.mAwvalid, none] using before
    · have more := before.snoc (s.next i).wWho
      simpa [Share.mAwvalid, onN, awN, wN] using more
  | true =>
    rw [owners_next rst on]
    obtain ⟨onN, whoN, awN, wN⟩ := put_next (i := i) rst on
    -- What is left of the data after the clock.
    have left : ((s.next i).wOn && !(s.next i).wDone) = !(s.wDone || s.wTake i) := by
      rw [onN, wN, wLetGo_eq on]
      cases (s.wDone || s.wTake i) <;> simp
    rw [left, whoN, ws_see rst]
    rw [on, Bool.true_and] at carried
    by_cases moved : (s.mWvalid i && i.mWready) = true
    · rw [if_pos moved]
      rw [Bool.and_eq_true] at moved
      have more : s.wDone = false := by
        have valid := moved.1
        unfold Share.mWvalid at valid
        cases done : s.wDone with
        | false => rfl
        | true => simp [done] at valid
      have take : s.wTake i = (s.mW i).last := by
        unfold Share.wTake
        rw [moved.1, moved.2, Bool.true_and, Bool.true_and]
      rw [more, Bool.not_false, if_pos rfl] at carried
      rw [more, take, Bool.false_or]
      cases last : (s.mW i).last with
      | false => exact Carried.beat carried last
      | true => exact Carried.last carried last
    · have take : s.wTake i = false := by
        unfold Share.wTake
        rw [Bool.not_eq_true] at moved
        rw [moved, Bool.false_and]
      rw [if_neg moved, take, Bool.or_false]
      exact carried

theorem inOrder_next (order : InOrder s seen) (rst : i.rst = false) :
    InOrder (s.next i) (s.see i seen) := by
  refine ⟨data_next order rst, fun onN doneN => ?_, fun onN doneN => ?_⟩
  all_goals
    cases on : s.wOn with
    | false =>
      obtain ⟨_, _, none | ⟨_, awN, _⟩⟩ := @idle_next c s i seen rst on
      · rw [none] at onN
        exact absurd onN (by decide)
      · rw [awN] at doneN
        exact absurd doneN (by decide)
    | true => ?_
  · obtain ⟨_, whoN, awN, _⟩ := put_next (i := i) rst on
    rw [whoN, aws_see rst]
    by_cases take : s.awTake i = true
    · rw [if_pos take]
      exact ⟨seen.aws, s.mAw i, rfl⟩
    · rw [if_neg take]
      rw [Bool.not_eq_true] at take
      rw [awN, take, Bool.or_false] at doneN
      exact order.address on doneN
  · obtain ⟨goes, _, awN, wN⟩ := put_next (i := i) rst on
    rw [goes, wLetGo_eq on, ← awN, ← wN, doneN, Bool.true_and, Bool.not_eq_true'] at onN
    exact onN

theorem writesOf_see (order : InOrder s seen) (rst : i.rst = false) (mine : Fin c.n → Bool) :
    (s.see i seen).writesOf mine = seen.writesOf mine +
      if s.wLetGo i && mine s.wWho then 1 else 0 := by
  unfold Seen.writesOf
  rw [letGo_eq (inOrder_next order rst), letGo_eq order]
  cases on : s.wOn with
  | false =>
    obtain ⟨addresses, _, granted⟩ := @idle_next c s i seen rst on
    have still : ((s.next i).wOn && (s.next i).awDone) = false := by
      rcases granted with none | ⟨_, awN, _⟩
      · rw [none, Bool.false_and]
      · rw [awN, Bool.and_false]
    rw [still, addresses]
    simp [Share.wLetGo, on]
  | true =>
    obtain ⟨onN, _, awN, _⟩ := put_next (i := i) rst on
    rw [onN, awN, aws_see rst]
    cases done : s.awDone with
    | false =>
      have address : s.wLetGo i = true → s.awTake i = true := by
        rw [wLetGo_eq on, done, Bool.false_or, Bool.and_eq_true]
        exact And.left
      cases took : s.awTake i with
      | false =>
        have stays : s.wLetGo i = false := by
          cases goes : s.wLetGo i with
          | false => rfl
          | true => exact absurd (address goes) (by simp [took])
        simp [stays]
      | true => cases goes : s.wLetGo i <;> cases his : mine s.wWho <;> simp [his]
    | true =>
      have untaken : s.awTake i = false := by
        unfold Share.awTake Share.mAwvalid
        rw [done, Bool.not_true, Bool.and_false, Bool.false_and]
      obtain ⟨front, request, addresses⟩ := order.address on done
      rw [untaken, addresses]
      cases goes : s.wLetGo i <;> cases his : mine s.wWho <;> simp [his]

theorem count_bs_see (rst : i.rst = false) (p : Fin c.n) :
    (s.see i seen).bs.count (shareId p) = seen.bs.count (shareId p) +
      if i.mBvalid && i.mBready && i.bMine p then 1 else 0 := by
  unfold Share.see ShareInput.bMine
  rw [if_neg (by simp [rst])]
  by_cases came : (i.mBvalid && i.mBready) = true
  · simp [came, List.count_singleton]
  · simp [came]

theorem writesKept_next {j : ShareInput c.n} (ids : c.n ≤ 32) (kept : WritesKept s seen i)
    (masters : ∀ p, i.rst = false → j.rst = false → (i.master p).awvalid = true →
      s.sAwready i p = false → (j.master p).awvalid = true ∧ (j.master p).aw = (i.master p).aw)
    (bridge : i.rst = false → i.mBvalid = true →
      seen.bs.count i.mBid < seen.writesOf fun p => shareId p == i.mBid) :
    WritesKept (s.next i) (s.see i seen) j := by
  cases rst : i.rst with
  | true =>
    have reset : s.next i = Share.reset c := if_pos rst
    have nothing : s.see i seen = Seen.nothing c.n := if_pos rst
    rw [reset, nothing]
    exact ⟨fun p => by simp [Share.reset, Seen.nothing, Seen.writesOf, Seen.letGo],
      fun p => by simp [Share.reset], nofun, nofun, ⟨Carried.nothing, nofun, nofun⟩⟩
  | false =>
    have counts : (s.next i).wrN = s.wrNN i := by
      unfold Share.next
      rw [if_neg (by simp [rst])]
    have room : ∀ p, (s.wLetGo i && s.wWho == p) = true → (s.wrN p).toNat < c.writesOf p := by
      intro p went
      rw [Bool.and_eq_true, beq_iff_eq] at went
      obtain ⟨goes, rfl⟩ := went
      unfold Share.wLetGo at goes
      rw [Bool.and_eq_true, Bool.and_eq_true] at goes
      exact kept.room goes.1.1
    have owed : ∀ p, (i.mBvalid && i.mBready && i.bMine p) = true → 0 < (s.wrN p).toNat := by
      intro p came
      rw [Bool.and_eq_true, Bool.and_eq_true] at came
      obtain ⟨⟨valid, _⟩, mine⟩ := came
      have id : i.mBid = shareId p := beq_iff_eq.mp mine
      have more := bridge rst valid
      rw [id, shareId_beq ids p, ← kept.exact p] at more
      omega
    have after := fun p => toNat_wrNN (room p) (owed p)
    refine ⟨fun p => ?_, fun p => ?_, fun now => ?_, fun clear now => ?_,
      inOrder_next kept.order rst⟩
    · have count := after p
      have exact := kept.exact p
      rw [counts, count_bs_see rst, writesOf_see kept.order rst]
      omega
    · have count := after p
      rw [counts]
      by_cases went : (s.wLetGo i && s.wWho == p) = true
      · have less := room p went
        rw [if_pos went] at count
        omega
      · have most := kept.most p
        rw [if_neg went] at count
        omega
    · rw [counts]
      have count := after (s.next i).wWho
      cases on : s.wOn with
      | false =>
        obtain ⟨_, _, none | ⟨_, _, _, can⟩⟩ := @idle_next c s i seen rst on
        · rw [none] at now
          exact absurd now (by decide)
        · unfold Share.awCan at can
          rw [Bool.and_eq_true, Bool.and_eq_true, Bool.not_eq_true',
            wrFull_iff (kept.most _)] at can
          have stays : s.wLetGo i = false := by
            unfold Share.wLetGo
            rw [on, Bool.false_and, Bool.false_and]
          simp only [stays, Bool.false_and, Bool.false_eq_true, if_false] at count
          omega
      | true =>
        obtain ⟨goes, whoN, _⟩ := put_next (i := i) rst on
        rw [goes, Bool.not_eq_true'] at now
        simp only [now, Bool.false_and, Bool.false_eq_true, if_false] at count
        rw [whoN] at count ⊢
        have less := kept.room on
        omega
    · cases on : s.wOn with
      | false =>
        obtain ⟨_, _, none | ⟨_, _, _, can⟩⟩ := @idle_next c s i seen rst on
        · unfold Share.mAwvalid at now
          rw [none, Bool.false_and] at now
          exact absurd now (by decide)
        · unfold Share.awCan at can
          rw [Bool.and_eq_true, Bool.and_eq_true] at can
          apply (masters _ rst clear can.1.1 _).1
          unfold Share.sAwready
          rw [on, Bool.false_and, Bool.false_and, Bool.false_and]
      | true =>
        obtain ⟨_, whoN, awN, _⟩ := put_next (i := i) rst on
        unfold Share.mAwvalid at now
        rw [awN, Bool.and_eq_true, Bool.not_eq_true', Bool.or_eq_false_iff] at now
        obtain ⟨_, undone, untaken⟩ := now
        have put : s.mAwvalid = true := by
          unfold Share.mAwvalid
          rw [on, undone]
          rfl
        rw [whoN]
        apply (masters _ rst clear (kept.asks rst put) _).1
        unfold Share.awTake at untaken
        rw [put, Bool.true_and] at untaken
        unfold Share.sAwready
        rw [untaken, Bool.and_false]

end Clock

/-- The books are kept in every run. -/
theorem share_kept {inputs : Nat → ShareInput c.n} (ids : c.n ≤ 32)
    (masters : MastersConform inputs) (bridge : BridgeConforms inputs) (clock : Nat) :
    ReadsKept (shareRun inputs clock) (shareSeen inputs clock) (inputs clock) ∧
      WritesKept (shareRun inputs clock) (shareSeen inputs clock) (inputs clock) := by
  induction clock with
  | zero =>
    exact ⟨⟨fun p => rfl, fun p => Nat.zero_le _, nofun, nofun⟩,
      ⟨fun p => by simp [shareRun, shareSeen, shareTrace, trace, Share.reset, Seen.nothing,
          Seen.writesOf, Seen.letGo],
        fun p => by simp [shareRun, shareTrace, trace, Share.reset], nofun, nofun,
        ⟨Carried.nothing, nofun, nofun⟩⟩⟩
  | succ clock ih =>
    exact ⟨readsKept_next ids ih.1 (masters.ar clock) (bridge.r clock),
      writesKept_next ids ih.2 (masters.aw clock) (bridge.b clock)⟩

/-- Idle is nothing granted and nothing owed. -/
theorem idle_iff {s : Share c} : s.idle = true ↔ s.arOn = false ∧ s.wOn = false ∧
    ∀ p, (s.rdBeats p).toNat = 0 ∧ (s.wrN p).toNat = 0 := by
  have zero : ∀ {w : Nat} (x : BitVec w), x = 0#w ↔ x.toNat = 0 := by
    intro w x
    rw [← BitVec.toNat_inj, BitVec.toNat_ofNat, Nat.zero_mod]
  simp [Share.idle, Share.rdOut, Share.wrOut, zero, and_assoc, forall_and]

/-- The bookkeeping of the shared port, with at most thirty-two masters that hold their requests until
they are taken and a bridge that gives no more than it owes: for every master the beats counted are
those of its reads taken less those that came, at most sixteen, and the writes counted are those let go
less those answered, at most one or the machine's `M_WRITES`; the data reaches the bridge in the order
of the addresses, each write's whole; an address put to the bridge stays, with the master's address,
until it is taken; and the port is idle exactly when nothing is granted and nothing is to come. -/
theorem share_bookkeeping (c : ShareConfig) (ids : c.n ≤ 32) (inputs : Nat → ShareInput c.n)
    (masters : MastersConform inputs) (bridge : BridgeConforms inputs) (clock : Nat) :
    (∀ p, ((shareRun inputs clock).rdBeats p).toNat +
          (shareSeen inputs clock).rs.count (shareId p) =
        (shareSeen inputs clock).beatsOf (· == p) ∧
      ((shareRun inputs clock).rdBeats p).toNat ≤ 16) ∧
    (∀ p, ((shareRun inputs clock).wrN p).toNat +
          (shareSeen inputs clock).bs.count (shareId p) =
        (shareSeen inputs clock).writesOf (· == p) ∧
      ((shareRun inputs clock).wrN p).toNat ≤ if p = c.machine then c.mWrites else 1) ∧
    Carried WriteBeat.last
      ((shareSeen inputs clock).aws.map Prod.fst ++
        if (shareRun inputs clock).mAwvalid then [(shareRun inputs clock).wWho] else [])
      (shareSeen inputs clock).ws
      (if (shareRun inputs clock).wOn && !(shareRun inputs clock).wDone
        then [(shareRun inputs clock).wWho] else []) ∧
    ((inputs clock).rst = false → (shareRun inputs clock).mArvalid = true →
      ((inputs clock).master (shareRun inputs clock).arWho).arvalid = true ∧
      ((inputs clock).mArready = false → (inputs (clock + 1)).rst = false →
        (shareRun inputs (clock + 1)).mArvalid = true ∧
        (shareRun inputs (clock + 1)).arWho = (shareRun inputs clock).arWho ∧
        (shareRun inputs (clock + 1)).mAr (inputs (clock + 1)) =
          (shareRun inputs clock).mAr (inputs clock))) ∧
    ((inputs clock).rst = false → (shareRun inputs clock).mAwvalid = true →
      ((inputs clock).master (shareRun inputs clock).wWho).awvalid = true ∧
      ((inputs clock).mAwready = false → (inputs (clock + 1)).rst = false →
        (shareRun inputs (clock + 1)).mAwvalid = true ∧
        (shareRun inputs (clock + 1)).wWho = (shareRun inputs clock).wWho ∧
        (shareRun inputs (clock + 1)).mAw (inputs (clock + 1)) =
          (shareRun inputs clock).mAw (inputs clock))) ∧
    ((shareRun inputs clock).idle = true ↔
      (shareRun inputs clock).arOn = false ∧ (shareRun inputs clock).wOn = false ∧
      ∀ p, (shareSeen inputs clock).rs.count (shareId p) =
          (shareSeen inputs clock).beatsOf (· == p) ∧
        (shareSeen inputs clock).bs.count (shareId p) =
          (shareSeen inputs clock).writesOf (· == p)) := by
  obtain ⟨reads, writes⟩ := share_kept ids masters bridge clock
  refine ⟨fun p => ⟨reads.exact p, reads.few p⟩, fun p => ⟨writes.exact p, writes.most p⟩,
    writes.order.data, fun rst put => ?_, fun rst put => ?_, ?_⟩
  · have on : (shareRun inputs clock).arOn = true := put
    refine ⟨reads.asks rst on, fun unready clear => ?_⟩
    have next : (shareRun inputs (clock + 1)).arOn = true ∧
        (shareRun inputs (clock + 1)).arWho = (shareRun inputs clock).arWho := by
      change ((shareRun inputs clock).next (inputs clock)).arOn = true ∧
        ((shareRun inputs clock).next (inputs clock)).arWho = _
      unfold Share.next
      rw [if_neg (by simp [rst])]
      simp [on, unready]
    refine ⟨next.1, next.2, ?_⟩
    unfold Share.mAr
    rw [next.2]
    apply (masters.ar clock _ rst clear (reads.asks rst on) _).2
    unfold Share.sArready
    rw [unready, Bool.and_false]
  · refine ⟨writes.asks rst put, fun unready clear => ?_⟩
    have kept := put
    unfold Share.mAwvalid at kept
    rw [Bool.and_eq_true, Bool.not_eq_true'] at kept
    obtain ⟨on, undone⟩ := kept
    have untaken : (shareRun inputs clock).awTake (inputs clock) = false := by
      unfold Share.awTake
      rw [unready, Bool.and_false]
    obtain ⟨goes, whoN, awN, _⟩ := put_next (s := shareRun inputs clock) rst on
    have who : (shareRun inputs (clock + 1)).wWho = (shareRun inputs clock).wWho := whoN
    have valid : (shareRun inputs (clock + 1)).mAwvalid = true := by
      change ((shareRun inputs clock).next (inputs clock)).mAwvalid = true
      unfold Share.mAwvalid
      rw [goes, awN, wLetGo_eq on, undone, untaken]
      rfl
    refine ⟨valid, who, ?_⟩
    unfold Share.mAw
    rw [who]
    apply (masters.aw clock _ rst clear (writes.asks rst put) _).2
    unfold Share.sAwready
    rw [unready, Bool.and_false]
  · rw [idle_iff]
    have counts : (∀ p, ((shareRun inputs clock).rdBeats p).toNat = 0 ∧
        ((shareRun inputs clock).wrN p).toNat = 0) ↔
        ∀ p, (shareSeen inputs clock).rs.count (shareId p) =
            (shareSeen inputs clock).beatsOf (· == p) ∧
          (shareSeen inputs clock).bs.count (shareId p) =
            (shareSeen inputs clock).writesOf (· == p) := by
      apply forall_congr'
      intro p
      have beats := reads.exact p
      have flight := writes.exact p
      omega
    rw [counts]

/-- One master reads one beat: asked for at clock 0, taken at clock 1, and given at clock 2. -/
def oneRead {n : Nat} (port : Fin n) (clock : Nat) : ShareInput n where
  rst := false
  hold := false
  master p :=
    { awvalid := false
      aw := ⟨0#32, 0#4, 3#2, 1#2⟩
      wvalid := false
      w := ⟨0#64, 0#8, false⟩
      bready := true
      arvalid := p == port && decide (clock < 2)
      ar := ⟨0#32, 0#4, 3#2, 1#2⟩
      rready := true }
  mAwready := true
  mWready := true
  mBid := 0#5
  mBvalid := false
  mArready := true
  mRid := shareId port
  mRvalid := clock == 2

theorem oneRead_masters (port : Fin c.n)
    (taken : (shareRun (oneRead port) 1).sArready (oneRead port 1) port = true) :
    MastersConform (c := c) (oneRead port) := by
  refine ⟨fun clock p _ _ asks unready => ?_, fun clock p _ _ asks => ?_⟩
  · simp only [oneRead, Bool.and_eq_true, beq_iff_eq, decide_eq_true_iff] at asks ⊢
    obtain ⟨rfl, early⟩ := asks
    match clock, early with
    | 0, _ => exact ⟨⟨rfl, by decide⟩, trivial⟩
    | 1, _ =>
      rw [taken] at unready
      exact absurd unready (by decide)
  · exact absurd asks (by simp [oneRead])

theorem oneRead_bridge (port : Fin c.n)
    (owed : (shareSeen (oneRead port) 2).rs.count (shareId port) <
      (shareSeen (oneRead port) 2).beatsOf fun p => shareId p == shareId port) :
    BridgeConforms (c := c) (oneRead port) := by
  refine ⟨fun clock _ gives => ?_, fun clock _ gives => ?_⟩
  · have now : clock = 2 := beq_iff_eq.mp gives
    subst now
    exact owed
  · exact absurd gives (by simp [oneRead])

/-- The CADR's share of three ports. -/
def cadrShare : ShareConfig := ⟨3, 1, true, 0, by decide, Nat.one_pos⟩

/-- The display's one beat, taken and not yet given: it is counted, and the port is not idle. -/
theorem share_bookkeeping_oneRead :
    ((shareRun (c := cadrShare) (oneRead ⟨2, by decide⟩) 2).rdBeats ⟨2, by decide⟩).toNat = 1 ∧
      (shareRun (c := cadrShare) (oneRead ⟨2, by decide⟩) 2).idle = false := by
  obtain ⟨reads, _, _, _, _, idle⟩ := share_bookkeeping cadrShare (by decide)
    (oneRead ⟨2, by decide⟩) (oneRead_masters _ (by decide))
    (oneRead_bridge _ (by decide)) 2
  have beats := (reads ⟨2, by decide⟩).1
  have owed : (shareSeen (c := cadrShare) (oneRead ⟨2, by decide⟩) 2).beatsOf
      (· == ⟨2, by decide⟩) = 1 := by decide
  have none : (shareSeen (c := cadrShare) (oneRead ⟨2, by decide⟩) 2).rs.count
      (shareId (⟨2, by decide⟩ : Fin cadrShare.n)) = 0 := by decide
  refine ⟨by omega, ?_⟩
  rw [← Bool.not_eq_true, idle]
  rintro ⟨_, _, all⟩
  have same := (all ⟨2, by decide⟩).1
  omega

/-- A share of thirty-three ports: the last has the machine's ID. -/
def wideShare : ShareConfig := ⟨33, 1, true, 0, by decide, Nat.one_pos⟩

/-- With thirty-three ports the last one's beat is taken off the machine's count too: the machine, which
asked for nothing, is left with thirty-one beats to come. -/
theorem ids_run_out : MastersConform (c := wideShare) (oneRead ⟨32, by decide⟩) ∧
    BridgeConforms (c := wideShare) (oneRead ⟨32, by decide⟩) ∧
    (shareSeen (c := wideShare) (oneRead ⟨32, by decide⟩) 3).beatsOf (· == wideShare.machine) = 0 ∧
    ((shareRun (c := wideShare) (oneRead ⟨32, by decide⟩) 3).rdBeats wideShare.machine).toNat = 31 :=
  ⟨oneRead_masters _ (by decide), oneRead_bridge _ (by decide), by decide,
    by decide⟩

end MuirFpga.Plumbing
