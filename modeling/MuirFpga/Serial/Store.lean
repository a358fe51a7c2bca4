import MuirFpga.Sync.Circular
import MuirFpga.Sync.Trace
import Mathlib.Data.Nat.Log

/-!
# The serial line's store

What the machine transmitted waits behind `RDATA`: the oldest character at `RDATA`, one on its way up to it,
and the rest in a block RAM whose read is a tick behind its address. The three together are one queue.
-/

namespace MuirFpga.Serial

open MuirFpga.Sync

abbrev Char8 := BitVec 8

/-- What the store is given in a tick: a character the machine has transmitted, a read of `RDATA`, and a write
of `DEEPEST`. -/
structure StoreInput where
  strobe : Bool
  data : Char8
  readsRdata : Bool
  restart : Bool

structure Store where
  store : Nat → Char8
  storeQ : Char8
  rptr : Nat
  wptr : Nat
  count : Nat
  fetched : Bool
  rxChar : Char8
  rxValid : Bool
  dropped : Nat
  deepest : Nat
  rdataHold : Bool × Char8

/-- The reset. -/
def Store.reset (store : Nat → Char8) (storeQ : Char8) : Store where
  store
  storeQ
  rptr := 0
  wptr := 0
  count := 0
  fetched := false
  rxChar := 0
  rxValid := false
  dropped := 0
  deepest := 0
  rdataHold := (false, 0)

section Step

variable (depth : Nat) (i : StoreInput) (s : Store)

/-- The width of `count`, and of `waiting`. -/
def cntW : Nat := Nat.clog 2 (depth + 1)

def waitW : Nat := Nat.clog 2 (depth + 3)

/-- A read of `RDATA` takes the character at it. -/
def taking : Bool := i.readsRdata && s.rxValid

def nothingWaiting : Bool := !s.rxValid && !s.fetched && s.count == 0

def full : Bool := s.count == depth

def straight : Bool := i.strobe && nothingWaiting s

def toStore : Bool := i.strobe && !nothingWaiting s && !full depth s

/-- A character is fetched where `RDATA` is free or is being taken, and none is on its way. -/
def fetch : Bool := s.count != 0 && !s.fetched && (!s.rxValid || taking i s)

def waiting : Nat := (s.count + s.rxValid.toNat + s.fetched.toNat) % 2 ^ waitW depth

def next (ptr : Nat) : Nat := if ptr = depth - 1 then 0 else ptr + 1

def mostDropped : Nat := 0xFFFFFFFF

def storeStep : Store where
  store := if toStore depth i s then Function.update s.store s.wptr i.data else s.store
  storeQ := s.store s.rptr
  rptr := if fetch i s then next depth s.rptr else s.rptr
  wptr := if toStore depth i s then next depth s.wptr else s.wptr
  count := (s.count + (toStore depth i s).toNat - (fetch i s).toNat) % 2 ^ cntW depth
  fetched := fetch i s
  rxChar := if s.fetched then s.storeQ else if straight i s then i.data else s.rxChar
  rxValid := if s.fetched then true else if straight i s then true else if taking i s then false else s.rxValid
  dropped := if i.strobe && full depth s && s.dropped != mostDropped then s.dropped + 1 else s.dropped
  deepest := if i.restart then 0 else max s.deepest (waiting depth s)
  rdataHold := if i.readsRdata then (s.rxValid, s.rxChar) else s.rdataHold

end Step

section Queue

variable {depth : Nat} {i : StoreInput} {s : Store}

/-- The characters waiting, the oldest first. -/
def Store.queue (depth : Nat) (s : Store) : List Char8 :=
  (if s.rxValid then [s.rxChar] else []) ++ (if s.fetched then [s.storeQ] else []) ++
    heldIn s.store depth s.rptr s.count

/-- A character strobed, one the store takes, one that finds it full, and one a read of `RDATA` takes. -/
def strobed (i : StoreInput) : List Char8 := if i.strobe then [i.data] else []

def accepted (depth : Nat) (i : StoreInput) (s : Store) : List Char8 := if full depth s then [] else strobed i

def lost (depth : Nat) (i : StoreInput) (s : Store) : List Char8 := if full depth s then strobed i else []

def taken (i : StoreInput) (s : Store) : List Char8 := if taking i s then [s.rxChar] else []

/-- What every tick keeps. -/
structure Store.Kept (depth : Nat) (s : Store) : Prop where
  inside : s.rptr < depth
  most : s.count ≤ depth
  tail : s.wptr = (s.rptr + s.count) % depth
  free : s.fetched = true → s.rxValid = false

theorem next_eq {ptr : Nat} (inside : ptr < depth) : next depth ptr = (ptr + 1) % depth := by
  unfold next
  split
  · next last => rw [show ptr + 1 = depth by omega, Nat.mod_self]
  · exact (Nat.mod_eq_of_lt (by omega)).symm

theorem fetch_count (fetches : fetch i s = true) : 0 < s.count := by
  simp only [fetch, Bool.and_eq_true, bne_iff_ne] at fetches
  exact Nat.pos_of_ne_zero fetches.1.1

theorem toStore_room (kept : s.Kept depth) (stores : toStore depth i s = true) : s.count < depth := by
  simp only [toStore, full, Bool.and_eq_true, Bool.not_eq_true', beq_eq_false_iff_ne] at stores
  exact Nat.lt_of_le_of_ne kept.most stores.2

theorem Store.Kept.count_step (kept : s.Kept depth) :
    (storeStep depth i s).count = s.count + (toStore depth i s).toNat - (fetch i s).toNat ∧
      (storeStep depth i s).count ≤ depth := by
  have most : s.count + (toStore depth i s).toNat - (fetch i s).toNat ≤ depth := by
    have := kept.most
    cases stores : toStore depth i s with
    | false => exact Nat.le_trans (Nat.sub_le _ _) this
    | true => exact Nat.le_trans (Nat.sub_le _ _) (toStore_room kept stores)
  have wide : depth < 2 ^ cntW depth := Nat.lt_of_succ_le (Nat.le_pow_clog (by decide) (depth + 1))
  have same : (storeStep depth i s).count = s.count + (toStore depth i s).toNat - (fetch i s).toNat :=
    Nat.mod_eq_of_lt (most.trans_lt wide)
  exact ⟨same, same ▸ most⟩

theorem Store.Kept.held_step (kept : s.Kept depth) :
    heldIn s.store depth s.rptr s.count ++ (if toStore depth i s then [i.data] else [])
      = (if fetch i s then [s.store s.rptr] else []) ++
        heldIn (storeStep depth i s).store depth (storeStep depth i s).rptr (storeStep depth i s).count := by
  have pushed : heldIn s.store depth s.rptr s.count ++ (if toStore depth i s then [i.data] else [])
      = heldIn (storeStep depth i s).store depth s.rptr (s.count + (toStore depth i s).toNat) := by
    cases stores : toStore depth i s with
    | false => simp [storeStep, stores]
    | true =>
      have pushed : heldIn (Function.update s.store ((s.rptr + s.count) % depth) i.data) depth s.rptr (s.count + 1)
          = heldIn s.store depth s.rptr s.count ++ [i.data] := heldIn_push (toStore_room kept stores)
      rw [← kept.tail] at pushed
      simpa [storeStep, stores] using pushed.symm
  rw [pushed, kept.count_step.1]
  cases fetches : fetch i s with
  | false => simp [storeStep, fetches]
  | true =>
    have some_ := fetch_count fetches
    -- the character fetched is not the one written in the tick
    have old : (storeStep depth i s).store s.rptr = s.store s.rptr := by
      cases stores : toStore depth i s with
      | false => simp [storeStep, stores]
      | true =>
        have other : s.rptr ≠ s.wptr := by
          have ne : (s.rptr + 0) % depth ≠ (s.rptr + s.count) % depth := slot_ne some_ (toStore_room kept stores)
          rwa [Nat.add_zero, Nat.mod_eq_of_lt kept.inside, ← kept.tail] at ne
        simp [storeStep, stores, Function.update_of_ne other]
    obtain ⟨rest, more⟩ : ∃ rest, s.count + (toStore depth i s).toNat = rest + 1 :=
      Nat.exists_eq_add_one_of_ne_zero (by omega)
    have head : (storeStep depth i s).rptr = (s.rptr + 1) % depth := by
      simp [storeStep, fetches, next_eq kept.inside]
    rw [more, heldIn_cons kept.inside, old, head]
    rfl

theorem fetch_frees (fetches : fetch i s = true) : (storeStep depth i s).rxValid = false := by
  have some_ := fetch_count fetches
  simp only [fetch, Bool.and_eq_true, Bool.or_eq_true, Bool.not_eq_true'] at fetches
  obtain ⟨⟨-, none⟩, frees⟩ := fetches
  have waits : straight i s = false := by
    simp [straight, nothingWaiting, Nat.ne_of_gt some_]
  rcases frees with empty | takes
  · have takes : taking i s = false := by simp [taking, empty]
    simp [storeStep, none, waits, takes, empty]
  · simp [storeStep, none, waits, takes]

theorem Store.Kept.step (kept : s.Kept depth) : (storeStep depth i s).Kept depth where
  inside := by
    show (if fetch i s then next depth s.rptr else s.rptr) < depth
    split
    · rw [next_eq kept.inside]
      exact Nat.mod_lt _ (Nat.lt_of_le_of_lt (Nat.zero_le _) kept.inside)
    · exact kept.inside
  most := kept.count_step.2
  tail := by
    have depth_pos : 0 < depth := Nat.lt_of_le_of_lt (Nat.zero_le _) kept.inside
    have tail_inside : s.wptr < depth := kept.tail ▸ Nat.mod_lt _ depth_pos
    have wptr : (storeStep depth i s).wptr = (s.rptr + s.count + (toStore depth i s).toNat) % depth := by
      cases stores : toStore depth i s with
      | false => simp [storeStep, stores, kept.tail]
      | true =>
        simp only [storeStep, stores, if_true, next_eq tail_inside]
        rw [kept.tail, Nat.mod_add_mod]
        rfl
    rw [wptr, kept.count_step.1]
    cases fetches : fetch i s with
    | false => simp [storeStep, fetches, Nat.add_assoc]
    | true =>
      have some_ := fetch_count fetches
      simp only [storeStep, fetches, if_true, next_eq kept.inside, Bool.toNat_true]
      rw [Nat.mod_add_mod]
      congr 1
      omega
  free := fetch_frees

theorem accepted_ite : accepted depth i s = if i.strobe ∧ full depth s = false then [i.data] else [] := by
  unfold accepted strobed
  cases full depth s <;> cases i.strobe <;> rfl

theorem Store.Kept.queue_step (kept : s.Kept depth) :
    s.queue depth ++ accepted depth i s = taken i s ++ (storeStep depth i s).queue depth := by
  have held := kept.held_step (i := i)
  have depth_pos : 0 < depth := Nat.lt_of_le_of_lt (Nat.zero_le _) kept.inside
  unfold Store.queue
  generalize heldIn (storeStep depth i s).store depth (storeStep depth i s).rptr (storeStep depth i s).count = after
    at held ⊢
  cases fetched : s.fetched with
  | true =>
    have empty := kept.free fetched
    simpa [storeStep, accepted_ite, taken, taking, fetch, toStore, nothingWaiting, fetched, empty] using held
  | false =>
    cases valid : s.rxValid with
    | true =>
      cases reads : i.readsRdata with
      | false =>
        simpa [storeStep, accepted_ite, taken, taking, fetch, toStore, straight, nothingWaiting, fetched, valid, reads]
          using held
      | true =>
        have took : fetch i s = (s.count != 0) := by simp [fetch, fetched, taking, valid, reads]
        rw [took] at held
        simpa [storeStep, accepted_ite, taken, taking, took, toStore, straight, nothingWaiting, fetched, valid, reads]
          using held
    | false =>
      by_cases empty : s.count = 0
      · have none : after = [] := by
          simpa [toStore, nothingWaiting, fetch, fetched, valid, empty] using held.symm
        have room : full depth s = false := by
          simp [full, empty, Nat.ne_of_lt depth_pos]
        cases strobe : i.strobe <;>
          simp [storeStep, accepted_ite, taken, taking, fetch, straight, nothingWaiting, fetched, valid, strobe, empty,
            none, room]
      · simpa [storeStep, accepted_ite, taken, taking, fetch, toStore, straight, nothingWaiting, fetched, valid, empty]
          using held

theorem length_queue (kept : s.Kept depth) : (s.queue depth).length = waiting depth s := by
  have wide : depth + 2 < 2 ^ waitW depth := Nat.lt_of_succ_le (Nat.le_pow_clog (by decide) (depth + 3))
  have most := kept.most
  have small : s.count + s.rxValid.toNat + s.fetched.toNat < 2 ^ waitW depth := by
    have := Bool.toNat_le s.rxValid
    have := Bool.toNat_le s.fetched
    omega
  rw [waiting, Nat.mod_eq_of_lt small, Store.queue]
  cases s.rxValid <;> cases s.fetched <;> simp +arith

theorem dropped_step : (storeStep depth i s).dropped
    = if s.dropped = mostDropped then s.dropped else s.dropped + (lost depth i s).length := by
  unfold lost strobed
  cases strobe : i.strobe <;> cases fills : full depth s <;> simp [storeStep, strobe, fills]

end Queue

section Run

variable (depth : Nat) (ram : Nat → Char8) (ramQ : Char8) (inputs : Nat → StoreInput)

/-- The store at a tick of a run from its reset, whatever the RAM held. -/
def storeAt (tick : Nat) : Store := trace (storeStep depth) (Store.reset ram ramQ) inputs tick

/-- The characters strobed before a tick, those of them taken into the store, and those that found it full. -/
def strobedTo (tick : Nat) : List Char8 := (List.range tick).flatMap fun k => strobed (inputs k)

def acceptedTo (tick : Nat) : List Char8 :=
  (List.range tick).flatMap fun k => accepted depth (inputs k) (storeAt depth ram ramQ inputs k)

def lostTo (tick : Nat) : List Char8 :=
  (List.range tick).flatMap fun k => lost depth (inputs k) (storeAt depth ram ramQ inputs k)

/-- What a read of `RDATA` answers, a tick after it. -/
def answer (tick : Nat) : List Char8 :=
  let hold := (storeAt depth ram ramQ inputs (tick + 1)).rdataHold
  if (inputs tick).readsRdata && hold.1 then [hold.2] else []

/-- The valid reads before a tick. -/
def readTo (tick : Nat) : List Char8 := (List.range tick).flatMap (answer depth ram ramQ inputs)

variable {depth} {ram : Nat → Char8} {ramQ : Char8} {inputs : Nat → StoreInput}

theorem flatMap_range_succ {α : Type} (f : Nat → List α) (n : Nat) :
    (List.range (n + 1)).flatMap f = (List.range n).flatMap f ++ f n := by
  rw [List.range_succ, List.flatMap_append, List.flatMap_singleton]

theorem storeAt_kept (pos : 0 < depth) (tick : Nat) : (storeAt depth ram ramQ inputs tick).Kept depth := by
  have meets : Meets (fun _ _ => True) (storeStep depth) (Store.reset ram ramQ) inputs := fun _ => trivial
  refine trace_invariant ?_ (fun _ _ _ kept => kept.step) meets tick
  exact ⟨pos, Nat.zero_le _, (Nat.mod_eq_of_lt pos).symm, nofun⟩

theorem answer_eq (tick : Nat) :
    answer depth ram ramQ inputs tick = taken (inputs tick) (storeAt depth ram ramQ inputs tick) := by
  unfold answer taken taking
  rw [storeAt, trace_succ]
  cases reads : (inputs tick).readsRdata <;> simp [storeStep, reads, storeAt]

theorem accepted_eq (pos : 0 < depth) (tick : Nat) : acceptedTo depth ram ramQ inputs tick
    = readTo depth ram ramQ inputs tick ++ (storeAt depth ram ramQ inputs tick).queue depth := by
  induction tick with
  | zero => rfl
  | succ tick ih =>
    rw [acceptedTo, readTo, flatMap_range_succ, flatMap_range_succ, ← acceptedTo, ← readTo, ih, answer_eq,
      List.append_assoc, (storeAt_kept pos tick).queue_step, ← List.append_assoc]
    rfl

theorem dropped_eq (tick : Nat) : (storeAt depth ram ramQ inputs tick).dropped
    = min mostDropped (lostTo depth ram ramQ inputs tick).length := by
  induction tick with
  | zero => rfl
  | succ tick ih =>
    have one : (lost depth (inputs tick) (storeAt depth ram ramQ inputs tick)).length ≤ 1 := by
      unfold lost strobed
      split <;> [split; skip] <;> simp
    rw [lostTo, flatMap_range_succ, ← lostTo, List.length_append, storeAt, trace_succ, dropped_step]
    rw [← storeAt, ih]
    split <;> omega

theorem strobed_length (depth : Nat) (ram : Nat → Char8) (ramQ : Char8) (tick : Nat) : (strobedTo inputs tick).length
    = (acceptedTo depth ram ramQ inputs tick).length + (lostTo depth ram ramQ inputs tick).length := by
  induction tick with
  | zero => rfl
  | succ tick ih =>
    have split : (strobed (inputs tick)).length
        = (accepted depth (inputs tick) (storeAt depth ram ramQ inputs tick)).length
          + (lost depth (inputs tick) (storeAt depth ram ramQ inputs tick)).length := by
      unfold accepted lost
      split <;> simp
    rw [strobedTo, acceptedTo, lostTo]
    repeat rw [flatMap_range_succ, List.length_append]
    rw [← strobedTo, ← acceptedTo, ← lostTo, ih, split]
    omega

/-- What is read is what was accepted, and what is lost is counted. -/
theorem store_keeps (pos : 0 < depth) (tick : Nat) :
    readTo depth ram ramQ inputs tick <+: acceptedTo depth ram ramQ inputs tick ∧
      (storeAt depth ram ramQ inputs tick).dropped = min mostDropped (lostTo depth ram ramQ inputs tick).length ∧
      waiting depth (storeAt depth ram ramQ inputs tick) + (lostTo depth ram ramQ inputs tick).length
        + (readTo depth ram ramQ inputs tick).length = (strobedTo inputs tick).length := by
  have all : acceptedTo depth ram ramQ inputs tick = _ := accepted_eq pos tick
  refine ⟨all ▸ List.prefix_append _ _, dropped_eq tick, ?_⟩
  have lengths := congrArg List.length all
  rw [List.length_append, length_queue (storeAt_kept pos tick)] at lengths
  rw [strobed_length depth ram ramQ]
  omega

end Run

end MuirFpga.Serial
