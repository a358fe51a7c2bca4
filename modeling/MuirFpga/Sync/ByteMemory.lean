import Mathlib.Data.BitVec
import Mathlib.Tactic.Ring
import Mathlib.Tactic.SplitIfs

/-!
# A byte memory that performs bursts

A memory of bytes behind a port of 64-bit beats. A burst's address promises its beats; a beat is
performed once its address and its data have both come, in order, whenever the memory likes, and a
burst is answered after its last beat. Reads give their beats in order.
-/

namespace MuirFpga.Sync

/-- What every address holds. -/
abbrev Bytes := BitVec 32 → BitVec 8

/-- A beat an address promises: where, whether it ends its burst, and whose. -/
structure Place (Id : Type) where
  addr : BitVec 32
  last : Bool
  id : Id

/-- A beat's data. -/
structure Lanes where
  data : BitVec 64
  strb : BitVec 8

/-- The addresses of an incrementing burst of 64-bit beats. -/
def beatsFrom (addr : BitVec 32) (len : BitVec 8) : List (BitVec 32) :=
  (List.range (len.toNat + 1)).map fun i => (addr.extractLsb' 3 29 ++ 0#3) + BitVec.ofNat 32 (8 * i)

/-- The places of a burst. -/
def burst {Id : Type} (id : Id) (addr : BitVec 32) (len : BitVec 8) : List (Place Id) :=
  (List.range (len.toNat + 1)).map fun i =>
    ⟨(addr.extractLsb' 3 29 ++ 0#3) + BitVec.ofNat 32 (8 * i), decide (i = len.toNat), id⟩

/-- A burst is within its 4 KiB. -/
def WithinPage (addr : BitVec 32) (len : BitVec 8) : Prop :=
  addr.toNat % 4096 + 8 * (len.toNat + 1) ≤ 4096

namespace Bytes

/-- A beat written. -/
def put (mem : Bytes) (addr : BitVec 32) (l : Lanes) : Bytes := fun a =>
  if (a - addr).toNat < 8 ∧ l.strb.getLsbD (a - addr).toNat then
    l.data.extractLsb' (8 * (a - addr).toNat) 8
  else mem a

/-- A beat read. -/
def beat (mem : Bytes) (addr : BitVec 32) : BitVec 64 :=
  mem (addr + 7) ++ mem (addr + 6) ++ mem (addr + 5) ++ mem (addr + 4) ++ mem (addr + 3) ++
    mem (addr + 2) ++ mem (addr + 1) ++ mem addr

end Bytes

/-- The memory: its bytes, the beats whose addresses have come, those whose data have, the bursts to
answer and the beats to read. -/
structure ByteMemory (Id : Type) where
  bytes : Bytes
  places : List (Place Id)
  lanes : List Lanes
  answers : List Id
  reads : List (BitVec 32)

/-- What the memory does at a clock. -/
structure Pace where
  awready : Bool
  wready : Bool
  arready : Bool
  perform : Bool
  answer : Bool
  give : Bool

/-- What a clock brings the memory: the places of an address taken, a beat's data, the beats to read. -/
structure Taken (Id : Type) where
  places : List (Place Id)
  lanes : List Lanes
  reads : List (BitVec 32)

namespace ByteMemory

variable {Id : Type} (m : ByteMemory Id) (p : Pace)

/-- The beat performed. -/
def performs : Option (Place Id × Lanes) :=
  match p.perform, m.places, m.lanes with
  | true, place :: _, lane :: _ => some (place, lane)
  | _, _, _ => none

/-- The burst answered. -/
def answered : Option Id := if p.answer then m.answers.head? else none

/-- The beat given. -/
def given : Option (BitVec 64) := if p.give then m.reads.head?.map m.bytes.beat else none

/-- A clock. -/
def next (x : Taken Id) : ByteMemory Id where
  bytes := match m.performs p with
    | some (place, lane) => m.bytes.put place.addr lane
    | none => m.bytes
  places := (if (m.performs p).isSome then m.places.tail else m.places) ++ x.places
  lanes := (if (m.performs p).isSome then m.lanes.tail else m.lanes) ++ x.lanes
  answers := (if (m.answered p).isSome then m.answers.tail else m.answers) ++
    match m.performs p with
    | some (place, _) => if place.last then [place.id] else []
    | none => []
  reads := (if (m.given p).isSome then m.reads.tail else m.reads) ++ x.reads

theorem next_lengths (x : Taken Id) :
    (m.next p x).places.length + (m.performs p).toList.length = m.places.length + x.places.length ∧
      (m.next p x).lanes.length + (m.performs p).toList.length = m.lanes.length + x.lanes.length ∧
      (m.next p x).answers.length + (m.answered p).toList.length ≤
        m.answers.length + (m.performs p).toList.length ∧
      (m.next p x).reads.length + (m.given p).toList.length = m.reads.length + x.reads.length := by
  unfold next
  dsimp only
  refine ⟨?_, ?_, ?_, ?_⟩
  · unfold performs
    split
    · rename_i places _
      rw [places]
      simp
      omega
    · simp
  · unfold performs
    split
    · rename_i lanes
      rw [lanes]
      simp
      omega
    · simp
  · have ends : (match m.performs p with
        | some (place, _) => if place.last then [place.id] else []
        | none => []).length ≤ (m.performs p).toList.length := by
      cases m.performs p with
      | none => exact Nat.le_refl 0
      | some both =>
        dsimp only
        split
        · exact Nat.le_refl 1
        · exact Nat.zero_le 1
    rw [List.length_append]
    unfold answered
    split
    · cases m.answers with
      | nil => simpa using ends
      | cons id rest =>
        simp
        omega
    · simpa using ends
  · unfold given
    split
    · cases m.reads with
      | nil => simp
      | cons addr rest =>
        simp
        omega
    · simp

end ByteMemory

section Writes

variable {Id : Type} {orig : Bytes} {wanted : List (Place Id)} {beats : List Lanes} {m : ByteMemory Id}
  {p : Pace} {x : Taken Id} {comingPlaces comingPlaces' : List (Place Id)}
  {comingLanes comingLanes' : List Lanes} {gone : List Id} {n : Nat}

/-- Beats written, in order. -/
def wrote (orig : Bytes) (done : List (Place Id × Lanes)) : Bytes :=
  done.foldl (fun mem b => mem.put b.1.addr b.2) orig

/-- How far the memory is with the beats wanted of it: as many performed, the rest here or still to come,
and the bursts ended answered or to be answered. -/
structure Performed (orig : Bytes) (wanted : List (Place Id)) (beats : List Lanes)
    (comingPlaces : List (Place Id)) (comingLanes : List Lanes) (gone : List Id) (n : Nat)
    (m : ByteMemory Id) : Prop where
  places : m.places ++ comingPlaces = wanted.drop n
  lanes : m.lanes ++ comingLanes = beats.drop n
  bytes : m.bytes = wrote orig ((wanted.zip beats).take n)
  answers : gone ++ m.answers = ((wanted.take n).filter (·.last)).map (·.id)

theorem performs_some {place : Place Id} {lane : Lanes} (now : m.performs p = some (place, lane)) :
    m.places = place :: m.places.tail ∧ m.lanes = lane :: m.lanes.tail := by
  unfold ByteMemory.performs at now
  split at now
  · rename_i places lanes
    simp only [Option.some.injEq, Prod.mk.injEq] at now
    rw [places, lanes, now.1, now.2]
    exact ⟨rfl, rfl⟩
  · cases now

theorem gone_answers : gone ++ (m.answered p).toList ++
    (if (m.answered p).isSome then m.answers.tail else m.answers) = gone ++ m.answers := by
  unfold ByteMemory.answered
  split
  · cases m.answers with
    | nil => simp
    | cons id rest => simp
  · simp

theorem Performed.next (done : Performed orig wanted beats comingPlaces comingLanes gone n m)
    (places : comingPlaces = x.places ++ comingPlaces') (lanes : comingLanes = x.lanes ++ comingLanes') :
    Performed orig wanted beats comingPlaces' comingLanes' (gone ++ (m.answered p).toList)
      (n + (m.performs p).toList.length) (m.next p x) := by
  obtain ⟨heres, heresL, bytes, answers⟩ := done
  rw [places, ← List.append_assoc] at heres
  rw [lanes, ← List.append_assoc] at heresL
  have answered := @gone_answers Id m p gone
  cases now : m.performs p with
  | none =>
    refine ⟨?_, ?_, ?_, ?_⟩
    · simpa [ByteMemory.next, now] using heres
    · simpa [ByteMemory.next, now] using heresL
    · simpa [ByteMemory.next, now] using bytes
    · simp only [ByteMemory.next, now, List.append_nil]
      rw [answered, answers]
      rfl
  | some both =>
    obtain ⟨place, lane⟩ := both
    obtain ⟨first, firstL⟩ := performs_some now
    rw [first] at heres
    rw [firstL] at heresL
    have placeAt : wanted[n]? = some place := by
      rw [← List.head?_drop, ← heres]
      rfl
    have laneAt : beats[n]? = some lane := by
      rw [← List.head?_drop, ← heresL]
      rfl
    refine ⟨?_, ?_, ?_, ?_⟩
    · simp only [ByteMemory.next, now, Option.isSome_some, if_true, Option.toList_some, List.length_singleton]
      rw [← List.tail_drop, ← heres]
      rfl
    · simp only [ByteMemory.next, now, Option.isSome_some, if_true, Option.toList_some, List.length_singleton]
      rw [← List.tail_drop, ← heresL]
      rfl
    · simp only [ByteMemory.next, now, Option.toList_some, List.length_singleton]
      have both : (wanted.zip beats)[n]? = some (place, lane) := by
        rw [List.getElem?_zip_eq_some]
        exact ⟨placeAt, laneAt⟩
      rw [List.take_add_one, both, bytes]
      simp [wrote]
    · simp only [ByteMemory.next, now, Option.toList_some, List.length_singleton]
      rw [← List.append_assoc, answered, answers, List.take_add_one, placeAt]
      cases ends : place.last <;> simp [ends]

end Writes

section Reads

variable {Id : Type} {wanted : List (BitVec 32)} {m : ByteMemory Id} {p : Pace} {x : Taken Id}
  {coming coming' : List (BitVec 32)} {n : Nat}

/-- How far the memory is with the beats to read: as many given, the rest here or still to come. -/
def Gave (wanted coming : List (BitVec 32)) (n : Nat) (m : ByteMemory Id) : Prop :=
  m.reads ++ coming = wanted.drop n

theorem Gave.given {data : BitVec 64} (gave : Gave wanted coming n m) (now : m.given p = some data) :
    ∃ addr, wanted[n]? = some addr ∧ data = m.bytes.beat addr := by
  unfold ByteMemory.given at now
  split at now
  · cases here : m.reads with
    | nil => simp [here] at now
    | cons addr rest =>
      refine ⟨addr, ?_, ?_⟩
      · rw [← List.head?_drop, ← gave, here]
        rfl
      · rw [here] at now
        exact (Option.some.inj now).symm
  · cases now

theorem Gave.next (gave : Gave wanted coming n m) (reads : coming = x.reads ++ coming') :
    Gave wanted coming' (n + (m.given p).toList.length) (m.next p x) := by
  unfold Gave at gave ⊢
  rw [reads, ← List.append_assoc] at gave
  cases now : m.given p with
  | none => simpa [ByteMemory.next, now] using gave
  | some data =>
    simp only [ByteMemory.next, now, Option.isSome_some, if_true, Option.toList_some, List.length_singleton]
    rw [← List.tail_drop, ← gave]
    cases here : m.reads with
    | nil => simp [ByteMemory.given, here] at now
    | cons addr rest => rfl

end Reads

section Bits

theorem toNat_append_add {high low : Nat} (x : BitVec high) (y : BitVec low) :
    (x ++ y).toNat = x.toNat * 2 ^ low + y.toNat := by
  rw [BitVec.toNat_append, ← Nat.shiftLeft_add_eq_or_of_lt y.isLt, Nat.shiftLeft_eq]

theorem toNat_extract {width : Nat} (x : BitVec width) (start count : Nat) :
    (x.extractLsb' start count).toNat = x.toNat / 2 ^ start % 2 ^ count := by
  rw [BitVec.extractLsb'_toNat, Nat.shiftRight_eq_div_pow]

theorem Bytes.getLsbD_beat (mem : Bytes) (addr : BitVec 32) {k : Nat} (inside : k < 64) :
    (mem.beat addr).getLsbD k = (mem (addr + BitVec.ofNat 32 (k / 8))).getLsbD (k % 8) := by
  unfold beat
  simp only [BitVec.getLsbD_append]
  split_ifs with at0 at1 at2 at3 at4 at5 at6
  all_goals try simp only [Nat.sub_sub, Nat.reduceAdd]
  · rw [show k / 8 = 0 by omega, show k % 8 = k by omega]
    simp
  · rw [show k / 8 = 1 by omega, show k % 8 = k - 8 by omega]
    rfl
  · rw [show k / 8 = 2 by omega, show k % 8 = k - 16 by omega]
    rfl
  · rw [show k / 8 = 3 by omega, show k % 8 = k - 24 by omega]
    rfl
  · rw [show k / 8 = 4 by omega, show k % 8 = k - 32 by omega]
    rfl
  · rw [show k / 8 = 5 by omega, show k % 8 = k - 40 by omega]
    rfl
  · rw [show k / 8 = 6 by omega, show k % 8 = k - 48 by omega]
    rfl
  · rw [show k / 8 = 7 by omega, show k % 8 = k - 56 by omega]
    rfl

theorem beat_start {addr : BitVec 32} (start : addr.toNat % 8 = 0) :
    addr.extractLsb' 3 29 ++ 0#3 = addr := by
  apply BitVec.eq_of_toNat_eq
  rw [toNat_append_add, toNat_extract]
  simp only [BitVec.toNat_ofNat]
  omega

theorem burst_one {Id : Type} {id : Id} {addr : BitVec 32} (start : addr.toNat % 8 = 0) :
    burst id addr 0 = [⟨addr, true, id⟩] := by
  unfold burst
  rw [beat_start start]
  simp

theorem burst_two {Id : Type} {id : Id} {addr : BitVec 32} (start : addr.toNat % 8 = 0) :
    burst id addr 1 = [⟨addr, false, id⟩, ⟨addr + 8, true, id⟩] := by
  unfold burst
  rw [beat_start start]
  simp [List.range_succ]

end Bits

end MuirFpga.Sync
