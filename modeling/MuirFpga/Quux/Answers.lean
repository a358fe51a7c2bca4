import MuirFpga.Quux.Posted
import MuirFpga.Sync.Trace
import Mathlib.Algebra.BigOperators.Group.Finset.Piecewise
import Mathlib.Algebra.Order.BigOperators.Group.Finset
import Mathlib.Data.List.TakeWhile

/-!
# The answers of the posted writes

A write is owed one B a burst. What each has had so far is read from its slot, the answers of an ID
are those its writes have had, and a B goes to the oldest write of its ID that is owed one: with
one ID for all by the pointer, with an ID a slot by the slot itself.
-/

namespace MuirFpga.Quux.Traced

open Sync

variable {c : PortConfig} {i : PortInput} {x : Traced c} {k : Nat}

/-- The ID a write's bursts carry, by its number. -/
def ident (c : PortConfig) (k : Nat) : BitVec 4 := c.master.writeId (BitVec.ofNat 4 k)

/-- The answers a write is owed. -/
def owed (x : Traced c) (k : Nat) : Nat :=
  (x.accepted[k]?.map fun a => (c.master.bursts a).length).getD 0

/-- A write that was answered, by its slot. -/
def Done (x : Traced c) (k : Nat) : Prop :=
  k < x.landed.length ∨ x.port.fArr (BitVec.ofNat 4 k) = true

instance (x : Traced c) (k : Nat) : Decidable (x.Done k) := by
  unfold Done
  infer_instance

/-- The answers a write has had. -/
def got (x : Traced c) (k : Nat) : Nat :=
  if x.Done k then x.owed k
  else (x.port.master.firstBQ (BitVec.ofNat 4 k)).toNat

/-- The answers' registers and the history agree. -/
structure Heard (x : Traced c) : Prop where
  split : ∀ k, x.landed.length ≤ k → k < x.accepted.length →
    x.owed k = 1 + (x.port.master.splitQ (BitVec.ofNat 4 k)).toNat
  first : ∀ k, x.landed.length ≤ k → k < x.accepted.length →
    x.port.master.firstBQ (BitVec.ofNat 4 k) = true →
      x.port.master.splitQ (BitVec.ofNat 4 k) = true
  total : ∀ id, x.answers.count id =
    ∑ k ∈ Finset.range x.accepted.length, if ident c k = id then x.got k else 0
  order : ∀ j k, j < k → k < x.accepted.length → ident c j = ident c k → x.got j < x.owed j →
    x.got k = 0
  pointer : c.master.oneWriteId = true → ∃ u, u ≤ x.accepted.length ∧
    x.port.master.ansPtr = BitVec.ofNat 4 u ∧
      ∀ k, k < x.accepted.length → (k < u ↔ x.got k = x.owed k)

/-- A B's write: the oldest of its ID that is owed an answer. -/
structure Target (i : PortInput) (x : Traced c) (k : Nat) : Prop where
  inside : k < x.accepted.length
  slot : x.port.master.bSlot c.master i.axi = BitVec.ofNat 4 k
  short : x.got k < x.owed k
  ident : ident c k = i.axi.bid
  before : ∀ j, j < k → Traced.ident c j = i.axi.bid → x.got j = x.owed j
  after : ∀ j, k < j → j < x.accepted.length → Traced.ident c j = i.axi.bid → x.got j = 0

theorem owed_pos (inside : k < x.accepted.length) : 0 < x.owed k := by
  unfold owed
  rw [List.getElem?_eq_getElem inside]
  simp [MasterConfig.bursts]

theorem got_le (inside : k < x.accepted.length) : x.got k ≤ x.owed k := by
  have positive := owed_pos inside
  have one := Bool.toNat_le (x.port.master.firstBQ (BitVec.ofNat 4 k))
  unfold got
  split_ifs <;> omega

theorem Heard.got_eq_iff (heard : Heard x) (inside : k < x.accepted.length) :
    x.got k = x.owed k ↔ x.Done k := by
  constructor
  · intro all
    by_contra undone
    have flies : x.landed.length ≤ k := by
      unfold Done at undone
      omega
    unfold got at all
    rw [if_neg undone, heard.split k flies inside] at all
    cases first : x.port.master.firstBQ (BitVec.ofNat 4 k) with
    | false => simp [first] at all; omega
    | true => simp [first, heard.first k flies inside first] at all
  · intro done
    unfold got
    rw [if_pos done]

theorem Listed.slot (listed : Listed x) {a : Write × BitVec 4} (write : x.accepted[k]? = some a) :
    a.2 = BitVec.ofNat 4 k := by
  have slots := congrArg (fun l => l[k]?) listed.slotted
  obtain ⟨inside, -⟩ := List.getElem?_eq_some_iff.mp write
  simp only [List.getElem?_map, write, Option.map_some] at slots
  rw [List.getElem?_eq_getElem (by simpa using inside), getElem_places] at slots
  simpa using slots

theorem count_bursts (c : MasterConfig) (id : BitVec 4) (list : List (Write × BitVec 4)) :
    ((list.flatMap c.bursts).map AwBeat.id).count id =
      ∑ k ∈ Finset.range list.length,
        (list[k]?.map fun a => if c.writeId a.2 = id then (c.bursts a).length else 0).getD 0 := by
  induction list using List.reverseRecOn with
  | nil => rfl
  | append_singleton list a ih =>
    have one : ((c.bursts a).map AwBeat.id).count id =
        if c.writeId a.2 = id then (c.bursts a).length else 0 := by
      unfold MasterConfig.bursts
      by_cases same : c.writeId a.2 = id <;> cases c.split a.1.bus <;>
        simp [MasterConfig.firstAw, MasterConfig.secondAw, same]
    rw [List.flatMap_append, List.map_append, List.count_append, ih, List.length_append,
      List.length_singleton, Finset.sum_range_succ]
    congr 1
    · apply Finset.sum_congr rfl
      intro k member
      rw [List.getElem?_append_left (Finset.mem_range.mp member)]
    · rw [List.getElem?_append_right (Nat.le_refl _)]
      simp [one]

theorem Listed.count_bursts (listed : Listed x) (id : BitVec 4) {count : Nat}
    (few : count ≤ x.accepted.length) :
    (((x.accepted.take count).flatMap c.master.bursts).map AwBeat.id).count id =
      ∑ k ∈ Finset.range count, if ident c k = id then x.owed k else 0 := by
  rw [Traced.count_bursts, List.length_take, Nat.min_eq_left few]
  apply Finset.sum_congr rfl
  intro k member
  rw [Finset.mem_range] at member
  have inside : k < x.accepted.length := by omega
  rw [List.getElem?_take_of_lt member]
  unfold owed ident
  rw [List.getElem?_eq_getElem inside, ← listed.slot (List.getElem?_eq_getElem inside)]
  rfl

theorem countP_wordBeats (c : MasterConfig) (a : Write × BitVec 4) :
    (c.wordBeats a).countP WBeat.last = (c.bursts a).length := by
  unfold MasterConfig.wordBeats MasterConfig.bursts MasterConfig.firstW MasterConfig.secondW
  have splits : c.split a.1.bus = true → c.two a.1.bus = true := by
    intro split
    unfold MasterConfig.split at split
    simp only [Bool.and_eq_true] at split
    exact split.1
  cases split : c.split a.1.bus <;> cases two : c.two a.1.bus <;> simp_all

theorem countP_beats (c : MasterConfig) (list : List (Write × BitVec 4)) :
    (list.flatMap c.wordBeats).countP WBeat.last = (list.flatMap c.bursts).length := by
  induction list with
  | nil => rfl
  | cons a rest ih =>
    rw [List.flatMap_cons, List.flatMap_cons, List.countP_append, List.length_append, ih,
      countP_wordBeats]

theorem Channelled.whole (held : Channelled x) :
    x.aws.take (x.beats.countP WBeat.last) <+: x.accepted.flatMap c.master.bursts := by
  have aws := held.aws
  have beats := congrArg (List.countP WBeat.last) held.beats
  rw [List.countP_append, List.countP_append, countP_beats] at beats
  cases done : x.port.master.hdAwDone with
  | false =>
    have prefixed : x.aws <+: x.accepted.flatMap c.master.bursts := by
      refine ⟨x.port.master.restAw c.master, ?_⟩
      rw [aws]
      simp [Master.heldAw, done]
    exact (List.take_prefix _ _).trans prefixed
  | true =>
    -- Its address is taken and its beat is not, so its burst is not whole.
    have waits : x.port.master.hdWDone = false := by
      have short := held.tidy.short
      rw [done, Bool.true_and] at short
      exact short
    have few : x.beats.countP WBeat.last ≤ (x.accepted.flatMap c.master.bursts).length := by
      simp only [Master.heldW, waits, Bool.false_eq_true, if_false, List.countP_nil] at beats
      omega
    have prefixed : x.aws <+: x.accepted.flatMap c.master.bursts ++
        x.port.master.heldAw c.master x.port.request := ⟨_, aws⟩
    exact List.prefix_of_prefix_length_le ((List.take_prefix _ _).trans prefixed)
      (List.prefix_append _ _) (le_trans (List.length_take_le _ _) few)

/-- A write is answered just when accepted and done. -/
theorem Heard.answered_iff (heard : Heard x) (listed : Listed x) :
    x.Answered k ↔ k < x.accepted.length ∧ x.Done k := by
  have sum (inside : k < x.accepted.length) :
      (x.Answered k ↔ (∑ j ∈ Finset.range (k + 1), if ident c j = ident c k then x.owed j else 0) ≤
        ∑ j ∈ Finset.range x.accepted.length, if ident c j = ident c k then x.got j else 0) := by
    have write := List.getElem?_eq_getElem inside
    have slot := listed.slot write
    have id : c.master.writeId (x.accepted[k].2) = ident c k := by rw [slot]; rfl
    rw [← heard.total, ← listed.count_bursts _ inside]
    unfold Answered
    constructor
    · rintro ⟨a, same, answered⟩
      rw [write, Option.some.injEq] at same
      rw [← same, id] at answered
      exact answered
    · intro answered
      refine ⟨_, write, ?_⟩
      rw [id]
      exact answered
  by_cases inside : k < x.accepted.length
  · rw [sum inside, ← heard.got_eq_iff inside]
    simp only [inside, true_and]
    have upTo : Finset.range (k + 1) ⊆ Finset.range x.accepted.length :=
      Finset.range_subset_range.mpr inside
    constructor
    · intro enough
      by_contra unheard
      have short : x.got k < x.owed k := lt_of_le_of_ne (got_le inside) unheard
      -- Nothing after it has had an answer, and those up to it have had fewer than they are owed.
      have none : (∑ j ∈ Finset.range (k + 1), if ident c j = ident c k then x.got j else 0) =
          ∑ j ∈ Finset.range x.accepted.length, if ident c j = ident c k then x.got j else 0 := by
        apply Finset.sum_subset upTo
        intro j member outside
        rw [Finset.mem_range] at member outside
        by_cases same : ident c j = ident c k
        · rw [if_pos same]
          exact heard.order k j (by omega) member same.symm short
        · rw [if_neg same]
      rw [← none] at enough
      have fewer := Finset.sum_lt_sum (s := Finset.range (k + 1))
        (f := fun j => if ident c j = ident c k then x.got j else 0)
        (g := fun j => if ident c j = ident c k then x.owed j else 0)
        (fun j member => by
          rw [Finset.mem_range] at member
          have most : x.got j ≤ x.owed j := got_le (by omega)
          split_ifs
          · exact most
          · exact Nat.le_refl 0)
        ⟨k, Finset.mem_range.mpr (Nat.lt_succ_self k), by simpa using short⟩
      exact absurd enough (Nat.not_le_of_lt fewer)
    · intro all
      have positive := owed_pos inside
      have heardAll : (∑ j ∈ Finset.range (k + 1), if ident c j = ident c k then x.owed j else 0) =
          ∑ j ∈ Finset.range (k + 1), if ident c j = ident c k then x.got j else 0 := by
        apply Finset.sum_congr rfl
        intro j member
        rw [Finset.mem_range] at member
        by_cases same : ident c j = ident c k
        · rw [if_pos same, if_pos same]
          by_contra unheard
          have short : x.got j < x.owed j :=
            lt_of_le_of_ne (got_le (by omega)) (Ne.symm unheard)
          obtain rfl | before : j = k ∨ j < k := by omega
          · exact unheard all.symm
          · have zero := heard.order j k before inside same short
            omega
        · rw [if_neg same, if_neg same]
      rw [heardAll]
      exact Finset.sum_le_sum_of_subset upTo
  · constructor
    · rintro ⟨a, write, -⟩
      exact absurd (List.getElem?_eq_some_iff.mp write).1 inside
    · rintro ⟨inside', -⟩
      exact absurd inside' inside

theorem Heard.target (heard : Heard x) (listed : Listed x) (held : Channelled x)
    (answers : x.answers.count i.axi.bid <
      ((x.aws.take (x.beats.countP WBeat.last)).map AwBeat.id).count i.axi.bid) :
    ∃ k, Target i x k := by
  have owes : x.answers.count i.axi.bid <
      ∑ k ∈ Finset.range x.accepted.length, if ident c k = i.axi.bid then x.owed k else 0 := by
    rw [← listed.count_bursts _ (Nat.le_refl _), List.take_length]
    refine lt_of_lt_of_le answers ?_
    exact (held.whole.map AwBeat.id).sublist.count_le i.axi.bid
  rw [heard.total] at owes
  have owing : ∃ k, k < x.accepted.length ∧ ident c k = i.axi.bid ∧ x.got k < x.owed k := by
    obtain ⟨k, member, less⟩ := Finset.exists_lt_of_sum_lt owes
    rw [Finset.mem_range] at member
    by_cases same : ident c k = i.axi.bid
    · rw [if_pos same, if_pos same] at less
      exact ⟨k, member, same, less⟩
    · rw [if_neg same, if_neg same] at less
      exact absurd less (Nat.lt_irrefl 0)
  obtain ⟨k, ⟨inside, id, short⟩, least⟩ :
      ∃ k, (k < x.accepted.length ∧ ident c k = i.axi.bid ∧ x.got k < x.owed k) ∧
        ∀ j, j < k → ident c j = i.axi.bid → x.got j = x.owed j := by
    refine ⟨Nat.find owing, Nat.find_spec owing, ?_⟩
    intro j before same
    by_contra unheard
    have within : j < x.accepted.length := lt_trans before (Nat.find_spec owing).1
    exact Nat.find_min owing before ⟨within, same, lt_of_le_of_ne (got_le within) unheard⟩
  refine ⟨k, inside, ?_, short, id, least, ?_⟩
  · unfold Master.bSlot
    cases one : c.master.oneWriteId with
    | false =>
      rw [if_neg Bool.false_ne_true, ← id]
      simp [ident, MasterConfig.writeId, one]
    | true =>
      rw [if_pos rfl]
      obtain ⟨u, most, pointer, heardTo⟩ := heard.pointer one
      rw [pointer]
      have all (j l : Nat) : ident c j = ident c l := by simp [ident, MasterConfig.writeId, one]
      have notBefore : ¬ k < u := by
        intro before
        have heardAll := (heardTo _ inside).mp before
        omega
      have notAfter : ¬ u < k := by
        intro before
        have heardAll := least u before ((all _ _).trans id)
        have past := (heardTo u (by omega)).mpr heardAll
        omega
      have same : u = k := by omega
      rw [same]
  · intro j after within same
    exact heard.order _ j after within (id.trans same.symm) short

theorem Listed.lands (listed : Listed x) (flies : x.landed.length ≤ k)
    (before : k < x.landed.length + x.port.landing.length) :
    x.port.fArr (BitVec.ofNat 4 k) = true := by
  have few := Port.landing_le listed.room
  have member : BitVec.ofNat 4 k ∈ x.port.landing := by
    rw [Port.landing_take, Port.slots_eq listed.room, take_places few]
    unfold places
    rw [List.mem_map]
    refine ⟨k - x.landed.length, List.mem_range.mpr (by omega), ?_⟩
    rw [listed.head, ← BitVec.ofNat_add, Nat.add_sub_cancel' flies]
  exact List.mem_takeWhile_imp member

theorem Listed.stays (listed : Listed x)
    (after : x.landed.length + x.port.landing.length ≤ k) (inside : k < x.accepted.length) :
    BitVec.ofNat 4 k ∈ x.port.slots.drop x.port.landing.length := by
  have few := Port.landing_le listed.room
  have count := listed.count
  rw [Port.slots_eq listed.room, drop_places few]
  unfold places
  rw [List.mem_map]
  refine ⟨k - (x.landed.length + x.port.landing.length), List.mem_range.mpr (by omega), ?_⟩
  rw [listed.head, ← BitVec.ofNat_add, ← BitVec.ofNat_add, Nat.add_sub_cancel' after]

theorem Listed.slot_inj (listed : Listed x) {j : Nat} (jFlies : x.landed.length ≤ j)
    (jInside : j < x.accepted.length) (kFlies : x.landed.length ≤ k)
    (kInside : k < x.accepted.length) (same : BitVec.ofNat 4 j = BitVec.ofNat 4 k) : j = k := by
  have values := congrArg BitVec.toNat same
  have count := listed.count
  have room := listed.room
  rw [BitVec.toNat_ofNat, BitVec.toNat_ofNat] at values
  omega

theorem fArr_next {s : Port c} (off : i.rst = false) {slot : BitVec 4}
    (stays : slot ∈ s.slots.drop s.landing.length)
    (other : s.mwTaken i = true → slot ≠ s.fTail) :
    (s.next i).fArr slot = (s.fArr slot ||
      (s.master.bDone c.master i.axi && s.master.bSlot c.master i.axi == slot)) := by
  have all := (Port.lists_next (s := s) off).2
  simp only [Port.flying, Prod.mk.injEq] at all
  have staying : s.staying slot = true := by
    unfold Port.staying
    rw [Port.staying_drop]
    exact List.contains_iff_mem.mpr stays
  have kept : (if s.mwTaken i then Function.update (fun slot => s.staying slot && s.fArr slot)
      s.fTail false else fun slot => s.staying slot && s.fArr slot) slot = s.fArr slot := by
    cases taken : s.mwTaken i with
    | false => simp [staying]
    | true => simp [Function.update_of_ne (other taken), staying]
  rw [all.1]
  unfold Port.listNext
  dsimp only
  cases done : s.master.bDone c.master i.axi with
  | false =>
    rw [if_neg Bool.false_ne_true, kept]
    simp
  | true =>
    rw [if_pos rfl]
    by_cases here : slot = s.master.bSlot c.master i.axi
    · simp [here]
    · rw [Function.update_of_ne here, kept]
      simp [Ne.symm here]

theorem fArr_accepted {s : Port c} (off : i.rst = false) (taken : s.mwTaken i = true)
    (other : s.master.bDone c.master i.axi = true → s.master.bSlot c.master i.axi ≠ s.fTail) :
    (s.next i).fArr s.fTail = false := by
  have all := (Port.lists_next (s := s) off).2
  simp only [Port.flying, Prod.mk.injEq] at all
  rw [all.1]
  unfold Port.listNext
  dsimp only
  rw [if_pos taken]
  cases done : s.master.bDone c.master i.axi with
  | false => simp
  | true => simp [Function.update_of_ne (other done).symm]

section Step

variable {j : Nat}

theorem Listed.after_landing (listed : Listed x) (undone : ¬ x.Done k) :
    x.landed.length + x.port.landing.length ≤ k := by
  by_contra before
  unfold Done at undone
  have flies : x.landed.length ≤ k := by omega
  exact undone (Or.inr (listed.lands flies (by omega)))

theorem Target.stays (target : Target i x k) (listed : Listed x) :
    x.landed.length + x.port.landing.length ≤ k := by
  apply listed.after_landing
  intro done
  have short := target.short
  unfold got at short
  rw [if_pos done] at short
  exact Nat.lt_irrefl _ short

theorem Listed.ne_tail (listed : Listed x) (req : x.port.mwReq = true)
    (after : x.landed.length + x.port.landing.length ≤ k) (inside : k < x.accepted.length) :
    BitVec.ofNat 4 k ≠ x.port.fTail := by
  intro same
  have stays := listed.stays after inside
  rw [same] at stays
  exact Port.fTail_notMem listed.room (Port.room_of_mwReq listed.room req) stays

theorem owed_next (off : i.rst = false) (inside : j < x.accepted.length) :
    (x.next i).owed j = x.owed j := by
  unfold owed next
  rw [off]
  simp only [Bool.false_eq_true, if_false]
  rw [List.getElem?_append_left inside]

theorem landed_next (off : i.rst = false) :
    (x.next i).landed.length = x.landed.length + x.port.landing.length := by
  simp [next, off]

theorem accepted_next (off : i.rst = false) :
    (x.next i).accepted.length = x.accepted.length + (x.port.mwTaken i).toNat := by
  unfold next
  rw [off]
  cases x.port.mwTaken i <;> simp

theorem master_next (off : i.rst = false) : (x.next i).port.master =
    x.port.master.next false c.master x.port.request i.axi := by
  have port : (x.next i).port = x.port.next i := by simp [next, off]
  rw [port, ← off]
  rfl

theorem firstBQ_next (off : i.rst = false) {slot : BitVec 4}
    (other : x.port.mwTaken i = true → slot ≠ x.port.fTail) :
    (x.next i).port.master.firstBQ slot =
      ((i.axi.bvalid && x.port.master.firstB c.master i.axi &&
        x.port.master.bSlot c.master i.axi == slot) || x.port.master.firstBQ slot) := by
  have kept : (if x.port.mwTaken i then
      Function.update x.port.master.firstBQ x.port.request.wId false
      else x.port.master.firstBQ) slot = x.port.master.firstBQ slot := by
    cases taken : x.port.mwTaken i with
    | false => rfl
    | true => exact Function.update_of_ne (other taken) _ _
  unfold Port.mwTaken at kept
  rw [master_next off, Master.next_firstBQ]
  cases first : (i.axi.bvalid && x.port.master.firstB c.master i.axi) with
  | false =>
    rw [if_neg Bool.false_ne_true, kept]
    simp
  | true =>
    rw [if_pos rfl]
    by_cases here : slot = x.port.master.bSlot c.master i.axi
    · simp [here]
    · rw [Function.update_of_ne here, kept]
      simp [Ne.symm here]

theorem splitQ_next (off : i.rst = false) (slot : BitVec 4) :
    (x.next i).port.master.splitQ slot = if x.port.mwTaken i = true ∧ slot = x.port.fTail then
      c.master.split (x.port.qBus x.port.qHead) else x.port.master.splitQ slot := by
  have clock : (x.next i).port.master.splitQ = if x.port.mwTaken i then
      Function.update x.port.master.splitQ x.port.fTail
        (c.master.split (x.port.qBus x.port.qHead))
      else x.port.master.splitQ := by
    rw [master_next off, Master.next_splitQ]
    rfl
  rw [clock]
  cases taken : x.port.mwTaken i with
  | false => simp
  | true =>
    by_cases here : slot = x.port.fTail
    · simp [here]
    · simp [here]

theorem Heard.got_next (heard : Heard x) (listed : Listed x) (off : i.rst = false)
    (target : i.axi.bvalid = true → Target i x k) (inside : j < x.accepted.length) :
    (x.next i).got j = x.got j + if i.axi.bvalid = true ∧ j = k then 1 else 0 := by
  have port : (x.next i).port = x.port.next i := by simp [next, off]
  have tail (after : x.landed.length + x.port.landing.length ≤ j) (taken : x.port.mwTaken i = true) :
      BitVec.ofNat 4 j ≠ x.port.fTail :=
    listed.ne_tail (Port.queued_of_taken taken) after inside
  by_cases done : x.Done j
  · have other : ¬ (i.axi.bvalid = true ∧ j = k) := by
      rintro ⟨valid, rfl⟩
      have short := (target valid).short
      unfold got at short
      rw [if_pos done] at short
      exact Nat.lt_irrefl _ short
    have still : (x.next i).Done j := by
      by_cases before : j < x.landed.length + x.port.landing.length
      · left
        rw [landed_next off]
        exact before
      · right
        have after : x.landed.length + x.port.landing.length ≤ j := by omega
        rw [port, fArr_next off (listed.stays after inside) (tail after)]
        have arrived : x.port.fArr (BitVec.ofNat 4 j) = true := by
          rcases done with landed | arrived
          · omega
          · exact arrived
        simp [arrived]
    unfold got
    rw [if_pos done, if_pos still, if_neg other, owed_next off inside]
    rfl
  · have after := listed.after_landing done
    have flies : x.landed.length ≤ j := by omega
    have unarrived : x.port.fArr (BitVec.ofNat 4 j) = false := by
      unfold Done at done
      simp only [not_or, Bool.not_eq_true] at done
      exact done.2
    have arrives : (x.next i).Done j ↔ (x.port.master.bDone c.master i.axi = true ∧
        x.port.master.bSlot c.master i.axi = BitVec.ofNat 4 j) := by
      unfold Done
      rw [landed_next off, port, fArr_next off (listed.stays after inside) (tail after),
        unarrived]
      simp
      omega
    have noted := firstBQ_next off (tail after)
    unfold got
    rw [if_neg done, owed_next off inside]
    cases valid : i.axi.bvalid with
    | false =>
      have none : ¬ (x.next i).Done j := by
        rw [arrives]
        simp [Master.bDone, valid]
      rw [if_neg none, noted]
      simp [valid]
    | true =>
      have slot := (target valid).slot
      by_cases same : j = k
      · subst same
        have first := heard.first j flies inside
        have one : (if true = true ∧ j = j then 1 else 0) = 1 := if_pos ⟨rfl, rfl⟩
        rw [one]
        cases fst : x.port.master.firstB c.master i.axi with
        | true =>
          have none : ¬ (x.next i).Done j := by
            rw [arrives]
            simp [Master.bDone, fst]
          rw [if_neg none, noted]
          simp only [Master.firstB, slot, Bool.and_eq_true, Bool.not_eq_true'] at fst
          simp [valid, slot, Master.firstB, fst]
        | false =>
          rw [if_pos (arrives.mpr ⟨by simp [Master.bDone, valid, fst], slot⟩),
            heard.split j flies inside]
          simp only [Master.firstB, slot] at fst
          cases q : x.port.master.splitQ (BitVec.ofNat 4 j) <;>
            cases b : x.port.master.firstBQ (BitVec.ofNat 4 j) <;> simp_all
      · have apart : x.port.master.bSlot c.master i.axi ≠ BitVec.ofNat 4 j := by
          rw [slot]
          intro equal
          have kAfter := (target valid).stays listed
          exact same (listed.slot_inj (by omega) (target valid).inside flies inside equal).symm
        have none : ¬ (x.next i).Done j := by
          rw [arrives]
          exact fun both => apart both.2
        have miss : (x.port.master.bSlot c.master i.axi == BitVec.ofNat 4 j) = false :=
          beq_false_of_ne apart
        rw [if_neg none, noted, miss]
        simp [same]

theorem got_accepted (listed : Listed x) (off : i.rst = false) (taken : x.port.mwTaken i = true)
    (target : i.axi.bvalid = true → Target i x k) : (x.next i).got x.accepted.length = 0 := by
  have port : (x.next i).port = x.port.next i := by simp [next, off]
  have few := Port.landing_le listed.room
  have count := listed.count
  have other (valid : i.axi.bvalid = true) :
      x.port.master.bSlot c.master i.axi ≠ x.port.fTail := by
    rw [(target valid).slot]
    exact listed.ne_tail (Port.queued_of_taken taken) ((target valid).stays listed)
      (target valid).inside
  have undone : ¬ (x.next i).Done x.accepted.length := by
    unfold Done
    rw [landed_next off, port, ← listed.tail, fArr_accepted off taken]
    · simp
      omega
    · intro done
      apply other
      unfold Master.bDone at done
      simp only [Bool.and_eq_true] at done
      exact done.1
  unfold got
  rw [if_neg undone, master_next off, Master.next_firstBQ, ← listed.tail]
  unfold Port.mwTaken at taken
  rw [if_pos taken]
  cases first : (i.axi.bvalid && x.port.master.firstB c.master i.axi) with
  | false =>
    rw [if_neg Bool.false_ne_true]
    simp [Port.request]
  | true =>
    simp only [Bool.and_eq_true] at first
    rw [if_pos rfl, Function.update_of_ne (other first.1).symm]
    simp [Port.request]

theorem heard_begun {p : Port c} (blank : Blank p) : Heard (begun p) := by
  refine ⟨?_, ?_, ?_, ?_, ?_⟩
  · intro k _ inside
    exact absurd inside (Nat.not_lt_zero k)
  · intro k _ inside
    exact absurd inside (Nat.not_lt_zero k)
  · intro id
    rfl
  · intro j k _ inside
    exact absurd inside (Nat.not_lt_zero k)
  · intro _
    refine ⟨0, Nat.le_refl 0, blank.ansPtr, ?_⟩
    intro k inside
    exact absurd inside (Nat.not_lt_zero k)

theorem Heard.done_iff (heard : Heard x) (listed : Listed x) (valid : i.axi.bvalid = true)
    (target : Target i x k) :
    x.port.master.bDone c.master i.axi = true ↔ x.got k + 1 = x.owed k := by
  have after := target.stays listed
  have undone : ¬ x.Done k := by
    intro done
    have short := target.short
    unfold got at short
    rw [if_pos done] at short
    exact Nat.lt_irrefl _ short
  have first := heard.first k (by omega) target.inside
  rw [heard.split k (by omega) target.inside]
  unfold got Master.bDone Master.firstB
  rw [if_neg undone, target.slot, valid]
  cases q : x.port.master.splitQ (BitVec.ofNat 4 k) <;>
    cases b : x.port.master.firstBQ (BitVec.ofNat 4 k) <;> simp_all

/-- A write accepted is an old one, or taken in this clock. -/
theorem accepted_cases (off : i.rst = false) (inside : j < (x.next i).accepted.length) :
    j < x.accepted.length ∨ (j = x.accepted.length ∧ x.port.mwTaken i = true) := by
  rw [accepted_next off] at inside
  cases taken : x.port.mwTaken i with
  | false =>
    rw [taken, Bool.toNat_false] at inside
    exact Or.inl inside
  | true =>
    rw [taken, Bool.toNat_true] at inside
    simp only [and_true]
    omega

theorem Listed.apart (listed : Listed x) (after : x.landed.length + x.port.landing.length ≤ j)
    (old : j < x.accepted.length) : ¬ (x.port.mwTaken i = true ∧ BitVec.ofNat 4 j = x.port.fTail) := by
  rintro ⟨taken, same⟩
  exact listed.ne_tail (Port.queued_of_taken taken) after old same

section

variable (heard : Heard x) (listed : Listed x) (off : i.rst = false)
  (target : i.axi.bvalid = true → Target i x k)

include heard listed off

theorem Heard.split_next (flies : (x.next i).landed.length ≤ j) (inside : j < (x.next i).accepted.length) :
    (x.next i).owed j = 1 + ((x.next i).port.master.splitQ (BitVec.ofNat 4 j)).toNat := by
  rw [landed_next off] at flies
  rw [splitQ_next off]
  obtain old | ⟨rfl, taken⟩ := accepted_cases off inside
  · rw [owed_next off old, heard.split j (by omega) old, if_neg (listed.apart flies old)]
  · rw [if_pos ⟨taken, listed.tail.symm⟩]
    unfold owed next
    simp only [off, taken, MasterConfig.bursts, Port.entry]
    cases split : c.master.split (x.port.qBus x.port.qHead) <;> simp [split]

include target

theorem Heard.first_next (flies : (x.next i).landed.length ≤ j) (inside : j < (x.next i).accepted.length)
    (noted : (x.next i).port.master.firstBQ (BitVec.ofNat 4 j) = true) :
    (x.next i).port.master.splitQ (BitVec.ofNat 4 j) = true := by
  rw [landed_next off] at flies
  rw [splitQ_next off]
  obtain old | ⟨rfl, taken⟩ := accepted_cases off inside
  · rw [if_neg (listed.apart flies old)]
    rw [firstBQ_next off (fun taken same => listed.apart flies old ⟨taken, same⟩)] at noted
    simp only [Bool.or_eq_true, Bool.and_eq_true, beq_iff_eq] at noted
    obtain ⟨⟨-, first⟩, here⟩ | before := noted
    · unfold Master.firstB at first
      rw [here, Bool.and_eq_true] at first
      exact first.1
    · exact heard.first j (by omega) old before
  · -- What a write just accepted has had is nothing, so its first B is not noted.
    have none := got_accepted listed off taken target
    unfold got at none
    split_ifs at none with done
    · have some := owed_pos inside
      omega
    · rw [noted] at none
      exact absurd none (by decide)

theorem Heard.total_next (id : BitVec 4) :
    (x.next i).answers.count id = ∑ j ∈ Finset.range (x.next i).accepted.length,
      if ident c j = id then (x.next i).got j else 0 := by
  have answers : (x.next i).answers =
      x.answers ++ if i.axi.bvalid then [i.axi.bid] else [] := by
    simp [next, off]
  have accepted : (∑ j ∈ Finset.range (x.next i).accepted.length,
      if ident c j = id then (x.next i).got j else 0) =
        ∑ j ∈ Finset.range x.accepted.length, if ident c j = id then (x.next i).got j else 0 := by
    rw [accepted_next off]
    cases taken : x.port.mwTaken i with
    | false => rfl
    | true =>
      rw [Bool.toNat_true, Finset.sum_range_succ, got_accepted listed off taken target]
      simp
  have adds : (∑ j ∈ Finset.range x.accepted.length,
      if ident c j = id then (x.next i).got j else 0) =
        (∑ j ∈ Finset.range x.accepted.length, if ident c j = id then x.got j else 0) +
          ∑ j ∈ Finset.range x.accepted.length,
            if i.axi.bvalid = true ∧ j = k ∧ ident c k = id then 1 else 0 := by
    rw [← Finset.sum_add_distrib]
    apply Finset.sum_congr rfl
    intro j member
    rw [heard.got_next listed off target (Finset.mem_range.mp member)]
    by_cases here : j = k
    · subst here
      by_cases same : ident c j = id <;> simp [same]
    · by_cases same : ident c j = id <;> simp [same, here]
  rw [accepted, adds, ← heard.total, answers, List.count_append]
  congr 1
  cases valid : i.axi.bvalid with
  | false => simp
  | true =>
    have inside := (target valid).inside
    have own := (target valid).ident
    by_cases same : ident c k = id
    · rw [← own, same]
      simp [inside]
    · have other : i.axi.bid ≠ id := fun equal => same (own.trans equal)
      simp [same, other]

theorem Heard.order_next {l : Nat} (before : j < l) (inside : l < (x.next i).accepted.length)
    (same : ident c j = ident c l) (short : (x.next i).got j < (x.next i).owed j) :
    (x.next i).got l = 0 := by
  obtain old | ⟨rfl, taken⟩ := accepted_cases off inside
  · have jOld : j < x.accepted.length := by omega
    rw [owed_next off jOld, heard.got_next listed off target jOld] at short
    rw [heard.got_next listed off target old, heard.order j l before old same (by omega)]
    rw [if_neg]
    rintro ⟨valid, rfl⟩
    have all := (target valid).before j before (same.trans (target valid).ident)
    omega
  · exact got_accepted listed off taken target

/-- With one write ID the pointer is at the oldest write owed an answer. -/
theorem Heard.pointer_next (one : c.master.oneWriteId = true) : ∃ u, u ≤ (x.next i).accepted.length ∧
    (x.next i).port.master.ansPtr = BitVec.ofNat 4 u ∧
      ∀ j, j < (x.next i).accepted.length → (j < u ↔ (x.next i).got j = (x.next i).owed j) := by
  obtain ⟨u, most, pointer, heardTo⟩ := heard.pointer one
  have all (j l : Nat) : ident c j = ident c l := by simp [ident, MasterConfig.writeId, one]
  -- The pointer's write is the B's, the oldest of all that is owed an answer.
  have here (valid : i.axi.bvalid = true) : u = k := by
    have notBefore : ¬ k < u := by
      intro before
      have heardAll := (heardTo k (target valid).inside).mp before
      have short := (target valid).short
      omega
    have notAfter : ¬ u < k := by
      intro before
      have inside := (target valid).inside
      have heardAll := (target valid).before u before ((all u k).trans (target valid).ident)
      have past := (heardTo u (by omega)).mpr heardAll
      omega
    omega
  have bound : u + (x.port.master.bDone c.master i.axi).toNat ≤ x.accepted.length := by
    cases done : x.port.master.bDone c.master i.axi with
    | false =>
      simp only [Bool.toNat_false]
      omega
    | true =>
      have valid : i.axi.bvalid = true := by
        unfold Master.bDone at done
        simp only [Bool.and_eq_true] at done
        exact done.1
      have inside := (target valid).inside
      have same := here valid
      simp only [Bool.toNat_true]
      omega
  refine ⟨u + (x.port.master.bDone c.master i.axi).toNat, ?_, ?_, ?_⟩
  · rw [accepted_next off]
    omega
  · rw [master_next off, Master.next_ansPtr, pointer]
    cases x.port.master.bDone c.master i.axi with
    | false => simp
    | true =>
      rw [if_pos rfl, Bool.toNat_true, BitVec.ofNat_add]
      rfl
  · intro j inside
    have done := fun valid => heard.done_iff listed valid (target valid)
    obtain old | ⟨rfl, taken⟩ := accepted_cases off inside
    · have was := heardTo j old
      rw [owed_next off old, heard.got_next listed off target old]
      cases valid : i.axi.bvalid with
      | false => simpa [Master.bDone, valid] using was
      | true =>
        have same := here valid
        have own := done valid
        have one := Bool.toNat_le (x.port.master.bDone c.master i.axi)
        by_cases mine : j = k
        · subst mine
          cases bDone : x.port.master.bDone c.master i.axi <;> simp_all
        · simp only [mine, and_false, if_false, Nat.add_zero]
          omega
    · have some := owed_pos inside
      have none := got_accepted listed off taken target
      omega

end

theorem heard_next (heard : Heard x) (listed : Listed x) (held : Channelled x)
    (answers : Answers i x) : Heard (x.next i) := by
  cases off : i.rst with
  | true =>
    unfold next
    rw [if_pos off]
    exact heard_begun (blank_reset off)
  | false =>
    obtain ⟨k, target⟩ : ∃ k, i.axi.bvalid = true → Target i x k := by
      cases valid : i.axi.bvalid with
      | false => exact ⟨0, fun none => absurd none Bool.false_ne_true⟩
      | true =>
        obtain ⟨k, target⟩ := heard.target listed held (answers off valid)
        exact ⟨k, fun _ => target⟩
    exact
      { split := fun _ => heard.split_next listed off
        first := fun _ => heard.first_next listed off target
        total := heard.total_next listed off target
        order := fun _ _ => heard.order_next listed off target
        pointer := heard.pointer_next listed off target }

/-- The lists, the channel and the answers of the port agree with its history. -/
structure Sound (x : Traced c) : Prop where
  listed : Listed x
  channelled : Channelled x
  heard : Heard x

/-- In every run the port's answers are sound. -/
theorem sound_run (p : Port c) {inputs : Nat → PortInput}
    (answers : Meets Answers next (start p) inputs) (clock : Nat) :
    Sound (trace next (start p) inputs clock) := by
  have blank := blank_start p
  have initial : Sound (start p) :=
    ⟨listed_begun blank, channelled_begun blank, heard_begun blank⟩
  have kept (i : PortInput) (x : Traced c) (legal : Answers i x) (sound : Sound x) :
      Sound (x.next i) :=
    ⟨listed_next sound.listed, channelled_next sound.listed sound.channelled,
      heard_next sound.heard sound.listed sound.channelled legal⟩
  exact trace_invariant initial kept answers clock

/-- A write has landed once it and all before it are answered. -/
theorem Sound.mem_landed (sound : Sound x) (off : i.rst = false) :
    k ∈ (x.next i).landed ↔ ∀ j, j ≤ k → x.Answered j := by
  have listed := sound.listed
  have few := Port.landing_le listed.room
  have count := listed.count
  rw [(listed_next listed).landed, landed_next off, List.mem_range]
  constructor
  · intro lands j upTo
    rw [sound.heard.answered_iff listed]
    refine ⟨by omega, ?_⟩
    by_cases landed : j < x.landed.length
    · exact Or.inl landed
    · exact Or.inr (listed.lands (by omega) (by omega))
  · intro answered
    by_contra late
    -- The first that does not land has no answer.
    obtain ⟨inside, done⟩ := (sound.heard.answered_iff listed).mp
      (answered (x.landed.length + x.port.landing.length) (by omega))
    have arrived : x.port.fArr (BitVec.ofNat 4 (x.landed.length + x.port.landing.length)) =
        true := by
      rcases done with landed | arrived
      · omega
      · exact arrived
    obtain ⟨more, left⟩ : ∃ more, x.port.fCount.toNat - x.port.landing.length = more + 1 :=
      ⟨x.port.fCount.toNat - x.port.landing.length - 1, by omega⟩
    have stays : x.port.slots.dropWhile x.port.fArr =
        BitVec.ofNat 4 (x.landed.length + x.port.landing.length) ::
          places (BitVec.ofNat 4 (x.landed.length + x.port.landing.length) +
            BitVec.ofNat 4 1) more := by
      rw [Port.staying_drop, Port.slots_eq listed.room, drop_places few, listed.head,
        ← BitVec.ofNat_add, left, places_cons]
    have first := List.head?_dropWhile_not x.port.fArr x.port.slots
    rw [stays] at first
    exact absurd arrived (by simpa using first)

/-- The writes the port is given are neither lost, doubled nor put in another order: those the
channel has accepted are the first of those pushed and the queue holds the rest, the AXI port has
been sent the accepted ones' bursts and beats, they land once each in order, a write as soon as it and every
one before it is answered, the slot offered is no unanswered write's, and the depths count the
writes that are not the block disk's. -/
theorem posted_writes_in_order (p : Port c) (inputs : Nat → PortInput)
    (answers : Meets Answers next (start p) inputs) (clock : Nat) :
    let x := trace next (start p) inputs clock
    let i := inputs clock
    x.pushed = x.accepted.map Prod.fst ++ x.port.queued ∧
      x.aws ++ x.port.master.restAw c.master =
        x.accepted.flatMap c.master.bursts ++ x.port.master.heldAw c.master x.port.request ∧
      x.beats ++ x.port.master.restW =
        x.accepted.flatMap c.master.wordBeats ++ x.port.master.heldW c.master x.port.request ∧
      x.landed = List.range x.landed.length ∧
      (i.rst = false → ∀ k, k ∈ (x.next i).landed ↔ ∀ j, j ≤ k → x.Answered j) ∧
      (x.port.mwReq = true → ∀ k a, x.accepted[k]? = some a → ¬ x.Answered k →
        x.port.request.wId ≠ a.2) ∧
      x.port.fCount.toNat ≤ 16 ∧ x.port.qCount.toNat ≤ 8 ∧
      (i.rst = false →
        (x.port.queueN i).toNat = (x.next i).port.queued.countP (fun w => !w.dma) ∧
        (x.port.inflightN i).toNat =
          ((x.next i).accepted.drop (x.next i).landed.length).countP fun a => !a.1.dma) := by
  intro x i
  have sound : Sound x := sound_run p answers clock
  have listed := sound.listed
  refine ⟨listed.sent, sound.channelled.aws, sound.channelled.beats, listed.landed,
    fun off k => sound.mem_landed off, ?_, listed.room, listed.few, ?_⟩
  · intro req k a write unanswered
    have inside := (List.getElem?_eq_some_iff.mp write).1
    have undone : ¬ x.Done k := fun done =>
      unanswered ((sound.heard.answered_iff listed).mpr ⟨inside, done⟩)
    rw [listed.slot write]
    exact (listed.ne_tail req (listed.after_landing undone) inside).symm
  · intro off
    have port : (x.next i).port = x.port.next i := by simp [next, off]
    rw [port]
    exact ⟨listed.queueN off, listed.inflightN off⟩

end Step

section Played

/-- A port of 512 sets with one ID for its writes. -/
def small : PortConfig := ⟨9, ⟨0x10000000#32, 0x20000000#32, true⟩, 32⟩

/-- A word posted across a page and a word of the block disk's beside it, and three Bs from the
third clock on. -/
def played (clock : Nat) : PortInput where
  rst := false
  hard := false
  pReq := false
  pBus := 0
  wReq := false
  wBus := 0
  wWord := 0
  postReq := clock == 0
  postBus := 819
  postWord := 0x1234567890
  tStart := false
  tAddr := 0
  dReq := clock == 0
  dWrite := true
  dAddr := 5
  dWdata := 0x55
  dStart := false
  cReq := false
  cLine := 0
  sweepGo := false
  hold := false
  axi := ⟨true, true, 0, 0, 3 ≤ clock && clock ≤ 5, false, 0, false⟩

theorem played_answers : Meets Answers next (start (.cold small)) played := by
  intro clock _ valid
  have now : clock = 3 ∨ clock = 4 ∨ clock = 5 := by
    simp only [played, Bool.and_eq_true, decide_eq_true_eq] at valid
    omega
  obtain rfl | rfl | rfl := now <;> decide +kernel

/-- Both writes land, the posted one first, after two Bs. -/
theorem posted_writes_played :
    (trace next (start (.cold small)) played 6).landed = [0] ∧
      (trace next (start (.cold small)) played 7).landed = [0, 1] := by
  have early := (posted_writes_in_order (.cold small) played played_answers 6).2.2.2.1
  have late := (posted_writes_in_order (.cold small) played played_answers 7).2.2.2.1
  have one : (trace next (start (.cold small)) played 6).landed.length = 1 := by decide +kernel
  have two : (trace next (start (.cold small)) played 7).landed.length = 2 := by decide +kernel
  rw [one] at early
  rw [two] at late
  exact ⟨early, late⟩

end Played

end MuirFpga.Quux.Traced
