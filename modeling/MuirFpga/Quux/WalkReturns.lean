import MuirFpga.Quux.WalkTally

/-!
# Every walk ends

A walk waits for the port, for a block asked of the store or for a move to come off its slot, and
else goes on by itself. Each of these brings it nearer its end: within a page by the words and blocks
left, over the pages by the disk address, which grows to 2^28 however long the command list repeats.
-/

namespace MuirFpga.Quux

open Sync

/-- A slot of the store holds the block. -/
def BlockStore.held (s : BlockStore) (block : BitVec 28) : Bool :=
  ((List.range slots).map (BitVec.ofNat 5)).any fun slot => s.valid slot && s.tag slot == 0#3 ++ block

namespace Walk

/-- The walk looks a block up. -/
def lookingUp (w : Walk) : Bool := w.v == .glook || w.v == .look

/-- The clocks until the lookup is good. -/
def near (w : Walk) : Nat := if w.lba = w.block then (2#2 - w.lookAge).toNat else 3

/-- The page's words of memory that have passed. -/
def passed (w : Walk) : Nat := if w.writing then (4 * w.through + w.sn.toNat) / w.size else w.mw.toNat

/-- What is left of a page's words. -/
def work (w : Walk) : Nat :=
  2 * (1280 - w.through) + 2 * (1024 - w.passed) + (1 - (w.v == .read && w.rdValid).toNat) +
    (1 - w.dReq.toNat)

end Walk

namespace Walking

/-- The store answers a request without its block, or takes away the block looked up. -/
def loses (c : Walking) (i : WalkInput) (m : Seam) : Bool :=
  !(c.store.next i.rst m c.walk).held c.walk.block &&
    (c.walk.lookingUp && c.store.held c.walk.block ||
      c.walk.waiting && !m.deny && c.walk.arrives m)

/-- The block looked up is in a slot, and the lookup finds it. -/
def sure (c : Walking) : Bool := c.store.held c.walk.block && (!c.walk.looked || c.walk.hit.isSome)

/-- How far the walk is from its block. -/
def seek (c : Walking) : Nat :=
  if c.walk.waiting then 5
  else if c.sure then 1 + c.walk.near
  else 6 + c.walk.near + (c.walk.looked && c.walk.hit.isSome).toNat

/-- How far it is from its page's end. -/
def inner (c : Walking) : Nat :=
  match c.walk.v with
  | .ccw => 5999 - c.walk.dReq.toNat
  | .glook | .gwait => 5000 + 30 * (5 - c.walk.k.toNat) + c.seek
  | .look | .wait => 30 * (5 - c.walk.k.toNat) + 10 + c.seek + c.walk.work
  | .read | .write => 30 * (5 - c.walk.k.toNat) + c.walk.work
  | .idle | .ended => 0

/-- How far it is from idle. -/
def rank (c : Walking) : Nat :=
  match c.walk.v with
  | .idle => 0
  | .ended => 1
  | _ => 2 + 6000 * (2 ^ 28 - c.walk.base.toNat) + c.inner

/-- What a walk awaits. -/
inductive Await
  | port
  | block
  | slot
  | clock

/-- What it awaits now. -/
def awaits (c : Walking) : Await :=
  match c.walk.v with
  | .ccw | .read | .write => if c.walk.dReq then .port else .clock
  | .gwait | .wait => .block
  | .look =>
    if !c.walk.cur.getLsbD 28 && c.walk.looked && c.walk.hit.isSome && c.store.held c.walk.block then .slot
    else .clock
  | .idle | .glook | .ended => .clock

/-- It comes. -/
def Comes (c : Walking) (i : WalkInput) (m : Seam) : Await → Prop
  | .port => c.walk.dReq = true → i.dDone = true
  | .block => c.walk.waiting = true → m.deny = true ∨ c.walk.arrives m = true
  | .slot => c.walk.v = .look → ¬ (m.busy = true ∧ c.walk.hit = some m.busySlot)
  | .clock => True

/-- A clock brings the walk nearer idle if what it awaits comes, and else leaves it awaiting that. -/
structure Nearer (mainWords : Nat) (i : WalkInput) (m : Seam) (c : Walking) : Prop where
  comes : c.Comes i m c.awaits → (c.next mainWords i m).rank < c.rank
  waits : ¬ c.Comes i m c.awaits → (c.next mainWords i m).rank ≤ c.rank ∧
    (c.next mainWords i m).awaits = c.awaits

section Ranks

variable {c : Walking} {w : Walk}

theorem near_le (w : Walk) : w.near ≤ 3 := by
  unfold Walk.near
  split <;> omega

theorem seek_le (c : Walking) : 1 ≤ c.seek ∧ c.seek ≤ 9 := by
  have near := near_le c.walk
  unfold seek
  split
  · omega
  split
  · omega
  cases looked : c.walk.looked with
  | false =>
    change 1 ≤ 6 + c.walk.near + 0 ∧ 6 + c.walk.near + 0 ≤ 9
    omega
  | true =>
    -- A lookup that is good is not to be waited for.
    have here : c.walk.near = 0 := by
      unfold Walk.looked at looked
      simp only [Bool.and_eq_true, beq_iff_eq] at looked
      unfold Walk.near
      rw [if_pos looked.2, looked.1]
      rfl
    rw [here]
    cases c.walk.hit.isSome <;> decide

theorem size_le (w : Walk) : w.size ≤ 5 := by
  rcases size_cases w with ⟨-, size, -⟩ | ⟨-, size, -⟩ <;> omega

theorem work_le (w : Walk) : w.work ≤ 4610 := by
  unfold Walk.work
  omega

theorem inner_lt (c : Walking) (block : c.walk.v ≠ .ccw) : c.inner < 5900 := by
  obtain ⟨-, seek⟩ := seek_le c
  have work := work_le c.walk
  unfold inner
  cases place : c.walk.v
  case ccw => exact absurd place block
  all_goals dsimp only
  all_goals omega

theorem rank_paged (busy : c.walk.v ≠ .idle) (open_ : c.walk.v ≠ .ended) :
    c.rank = 2 + 6000 * (2 ^ 28 - c.walk.base.toNat) + c.inner := by
  unfold rank
  cases place : c.walk.v
  case idle => exact absurd place busy
  case ended => exact absurd place open_
  all_goals rfl

theorem rank_ccw (place : c.walk.v = .ccw) :
    c.rank = 2 + 6000 * (2 ^ 28 - c.walk.base.toNat) + (5999 - c.walk.dReq.toNat) := by
  unfold rank inner
  rw [place]

theorem rank_gather (place : c.walk.v = .glook ∨ c.walk.v = .gwait) :
    c.rank = 2 + 6000 * (2 ^ 28 - c.walk.base.toNat) + (5000 + 30 * (5 - c.walk.k.toNat) + c.seek) := by
  unfold rank inner
  rcases place with place | place <;> rw [place]

theorem rank_turn (place : c.walk.v = .look ∨ c.walk.v = .wait) :
    c.rank = 2 + 6000 * (2 ^ 28 - c.walk.base.toNat) +
      (30 * (5 - c.walk.k.toNat) + 10 + c.seek + c.walk.work) := by
  unfold rank inner
  rcases place with place | place <;> rw [place]

theorem rank_move (place : c.walk.v = .read ∨ c.walk.v = .write) :
    c.rank = 2 + 6000 * (2 ^ 28 - c.walk.base.toNat) + (30 * (5 - c.walk.k.toNat) + c.walk.work) := by
  unfold rank inner
  rcases place with place | place <;> rw [place]

theorem rank_ended {d : Walking} (ended : d.walk.v = .ended) (busy : c.walk.v ≠ .idle)
    (open_ : c.walk.v ≠ .ended) : d.rank < c.rank := by
  rw [rank_paged busy open_]
  unfold rank
  rw [ended]
  dsimp only
  omega

theorem rank_entry {d : Walking} (entry : d.walk.v = .ccw) (busy : c.walk.v ≠ .idle)
    (open_ : c.walk.v ≠ .ended) (onward : c.walk.base.toNat < d.walk.base.toNat)
    (room : d.walk.base.toNat ≤ 2 ^ 28) : d.rank < c.rank := by
  rw [rank_paged busy open_, rank_ccw entry]
  omega

end Ranks

section Lookup

variable {mainWords : Nat} {i : WalkInput} {m : Seam} {c : Walking}

theorem next_hit : (c.next mainWords i m).walk.hit.isSome = c.store.held c.walk.lba := by
  unfold Walk.hit BlockStore.held
  rw [List.isSome_find?]
  rfl

/-- A clock in which only the lookup's registers move. -/
structure Stands (c d : Walking) : Prop where
  place : d.walk.v = c.walk.v
  cur : d.walk.cur = c.walk.cur
  numbers : (d.walk.base, d.walk.k, d.walk.dReq, d.walk.work) =
    (c.walk.base, c.walk.k, c.walk.dReq, c.walk.work)
  lba : d.walk.lba = c.walk.block
  age : d.walk.lookAge = if c.walk.lba = c.walk.block then
    (if c.walk.lookAge = 2#2 then 2#2 else c.walk.lookAge + 1#2) else 0#2

theorem next_stands (rst : i.rst = false) (still : c.walk.made mainWords i m c.store = c.walk.pulses) :
    Stands c (c.next mainWords i m) := by
  have same : (c.next mainWords i m).walk =
      { c.walk.pulses with
        lba := c.walk.block
        lookAge := if c.walk.lba != c.walk.block then 0 else c.walk.pulses.lookAge
        hitQ := fun slot => c.store.valid slot && c.store.tag slot == c.walk.reqTag } := by
    change c.walk.next mainWords i m c.store = _
    rw [Walk.next_running rst, still]
  constructor
  · rw [same]
    rfl
  · rw [same]
    rfl
  · rw [same]
    rfl
  · rw [same]
  · rw [same]
    unfold Walk.pulses
    dsimp only
    by_cases here : c.walk.lba = c.walk.block
    · by_cases age : c.walk.lookAge = 2#2 <;> simp [here, age]
    · simp [here]

theorem Stands.block {d : Walking} (stands : Stands c d) : d.walk.block = c.walk.block := by
  unfold Walk.block
  rw [stands.cur]

theorem Stands.near {d : Walking} (stands : Stands c d) (young : c.walk.looked = false) :
    d.walk.near < c.walk.near := by
  unfold Walk.near
  rw [stands.lba, stands.block, if_pos rfl, stands.age]
  by_cases here : c.walk.lba = c.walk.block
  · have age : c.walk.lookAge ≠ 2#2 := by
      intro same
      simp [Walk.looked, here, same] at young
    rw [if_pos here, if_pos here, if_neg age]
    generalize c.walk.lookAge = age at age
    decide +revert
  · rw [if_neg here, if_neg here]
    decide

theorem held_after (looking : c.walk.lookingUp = true) (held : c.store.held c.walk.block = true)
    (kept : c.loses i m = false) : (c.next mainWords i m).store.held c.walk.block = true := by
  unfold loses at kept
  rw [looking, held] at kept
  have stays : (c.store.next i.rst m c.walk).held c.walk.block = true := by simpa using kept
  exact stays

theorem looking_waiting (looking : c.walk.lookingUp = true) : c.walk.waiting = false := by
  unfold Walk.lookingUp at looking
  unfold Walk.waiting
  cases place : c.walk.v <;> simp [place] at looking ⊢

theorem Stands.looking {d : Walking} (stands : Stands c d) : d.walk.lookingUp = c.walk.lookingUp := by
  unfold Walk.lookingUp
  rw [stands.place]

theorem seek_young (stands : Stands c (c.next mainWords i m)) (looking : c.walk.lookingUp = true)
    (young : c.walk.looked = false) (kept : c.loses i m = false) :
    (c.next mainWords i m).seek < c.seek := by
  have nearer := stands.near young
  have looking' : (c.next mainWords i m).walk.lookingUp = true := stands.looking.trans looking
  have later : (c.next mainWords i m).walk.looked = true → c.walk.lba = c.walk.block :=
    fun looked => (Walk.next_looked looked).2.1
  have found : (c.next mainWords i m).walk.looked = true →
      (c.next mainWords i m).walk.hit.isSome = c.store.held c.walk.block := by
    intro looked
    rw [next_hit, later looked]
  unfold seek
  rw [looking_waiting looking, looking_waiting looking']
  simp only [Bool.false_eq_true, if_false]
  cases held : c.store.held c.walk.block with
  | true =>
    have before : c.sure = true := by simp [sure, held, young]
    have after : (c.next mainWords i m).sure = true := by
      unfold sure
      rw [stands.block, held_after looking held kept]
      cases looked : (c.next mainWords i m).walk.looked with
      | false => rfl
      | true => rw [found looked, held]; rfl
    rw [before, after, if_pos rfl, if_pos rfl]
    omega
  | false =>
    have before : c.sure = false := by simp [sure, held]
    have missed : ((c.next mainWords i m).walk.looked && (c.next mainWords i m).walk.hit.isSome) = false := by
      cases looked : (c.next mainWords i m).walk.looked with
      | false => rfl
      | true => rw [found looked, held]; rfl
    rw [before, young, missed]
    simp only [Bool.false_eq_true, if_false, Bool.false_and, Bool.toNat_false]
    split <;> omega

theorem seek_found (stands : Stands c (c.next mainWords i m))
    (looking : c.walk.lookingUp = true) (looked : c.walk.looked = true) (hit : c.walk.hit.isSome = true)
    (kept : c.loses i m = false) :
    (c.next mainWords i m).walk.looked = true ∧
      (c.next mainWords i m).walk.hit.isSome = c.store.held c.walk.block ∧
      if c.store.held c.walk.block = true then (c.next mainWords i m).seek = c.seek
      else (c.next mainWords i m).seek < c.seek := by
  have looking' : (c.next mainWords i m).walk.lookingUp = true := stands.looking.trans looking
  obtain ⟨age, here⟩ : c.walk.lookAge = 2#2 ∧ c.walk.lba = c.walk.block := by
    simpa [Walk.looked] using looked
  have again : (c.next mainWords i m).walk.looked = true := by
    unfold Walk.looked
    rw [stands.lba, stands.block, stands.age, if_pos here, if_pos age]
    simp
  have found : (c.next mainWords i m).walk.hit.isSome = c.store.held c.walk.block := by
    rw [next_hit, here]
  have near : c.walk.near = 0 := by
    unfold Walk.near
    rw [if_pos here, age]
    rfl
  have near' : (c.next mainWords i m).walk.near = 0 := by
    unfold Walk.near
    rw [stands.lba, stands.block, if_pos rfl, stands.age, if_pos here, if_pos age]
    rfl
  refine ⟨again, found, ?_⟩
  unfold seek sure
  rw [looking_waiting looking, looking_waiting looking', again, found, looked, hit, near, near', stands.block]
  cases held : c.store.held c.walk.block with
  | true =>
    rw [held_after looking held kept]
    rfl
  | false => cases (c.next mainWords i m).store.held c.walk.block <;> simp

end Lookup

section States

variable {mainWords : Nat} {i : WalkInput} {m : Seam} {c : Walking}

/-- Where a walk is in its page. -/
structure Spot (x y : Walk) : Prop where
  v : y.v = x.v
  base : y.base = x.base
  k : y.k = x.k
  dReq : y.dReq = x.dReq
  work : y.work = x.work
  writing : y.writing = x.writing
  through : y.through = x.through
  mw : y.mw = x.mw
  rdValid : y.rdValid = x.rdValid
  sn : y.sn = x.sn
  size : y.size = x.size

theorem spot {w x y : Walk} (next : Walk.Follows w x y) : Spot x y := by
  obtain ⟨age, hits, rfl⟩ := next
  exact ⟨rfl, rfl, rfl, rfl, rfl, rfl, rfl, rfl, rfl, rfl, rfl⟩

theorem spot_made (rst : i.rst = false) :
    Spot (c.walk.made mainWords i m c.store) (c.next mainWords i m).walk := by
  have next : (c.next mainWords i m).walk = c.walk.next mainWords i m c.store := rfl
  rw [next, Walk.next_running rst]
  exact ⟨rfl, rfl, rfl, rfl, rfl, rfl, rfl, rfl, rfl, rfl, rfl⟩

theorem Nearer.of_comes (comes : c.Comes i m c.awaits) (falls : (c.next mainWords i m).rank < c.rank) :
    Nearer mainWords i m c :=
  ⟨fun _ => falls, fun no => absurd comes no⟩

theorem Nearer.of_waits (no : ¬ c.Comes i m c.awaits)
    (stays : (c.next mainWords i m).rank ≤ c.rank ∧ (c.next mainWords i m).awaits = c.awaits) :
    Nearer mainWords i m c :=
  ⟨fun comes => absurd comes no, fun _ => stays⟩

theorem nearer_port (place : c.walk.v = .ccw ∨ c.walk.v = .read ∨ c.walk.v = .write)
    (asked : c.walk.dReq = true) (waits : i.dDone = false)
    (next : Walk.Follows c.walk c.walk.pulses (c.next mainWords i m).walk) : Nearer mainWords i m c := by
  obtain ⟨v, base, k, dReq, work, -⟩ := spot next
  have v' : (c.next mainWords i m).walk.v = c.walk.v := v
  have dReq' : (c.next mainWords i m).walk.dReq = true := dReq.trans asked
  have base' : (c.next mainWords i m).walk.base = c.walk.base := base
  have k' : (c.next mainWords i m).walk.k = c.walk.k := k
  have work' : (c.next mainWords i m).walk.work = c.walk.work := work
  have awaits (d : Walking) (there : d.walk.v = c.walk.v) (req : d.walk.dReq = true) : d.awaits = .port := by
    unfold Walking.awaits
    rw [there, req]
    rcases place with place | place | place <;> rw [place] <;> rfl
  apply Nearer.of_waits
  · rw [awaits c rfl asked]
    intro comes
    exact Bool.false_ne_true (waits.symm.trans (comes asked))
  · rw [awaits c rfl asked, awaits _ v' dReq']
    refine ⟨Nat.le_of_eq ?_, rfl⟩
    rcases place with entry | moves
    · rw [rank_ccw entry, rank_ccw (v'.trans entry), base', dReq', asked]
    · rw [rank_move moves, rank_move (by rwa [v']), base', k', work']

theorem nearer_ccw (rst : i.rst = false) (place : c.walk.v = .ccw) : Nearer mainWords i m c := by
  have busy : c.walk.v ≠ .idle := by simp [place]
  have open_ : c.walk.v ≠ .ended := by simp [place]
  have awaits : c.awaits = if c.walk.dReq then .port else .clock := by
    unfold Walking.awaits
    rw [place]
  have enters : Walk.Enters mainWords i c.walk (c.next mainWords i m).walk := Walk.next_ccw rst place
  cases enters with
  | entryPast free _ next =>
    apply Nearer.of_comes
    · rw [awaits, free]
      trivial
    · exact rank_ended (spot next).v busy open_
  | asks free _ next =>
    obtain ⟨v, base, -, dReq, -⟩ := spot next
    apply Nearer.of_comes
    · rw [awaits, free]
      trivial
    · rw [rank_ccw place, rank_ccw (v.trans place), base, dReq, free]
      change 2 + 6000 * (2 ^ 28 - c.walk.base.toNat) + 5998 < 2 + 6000 * (2 ^ 28 - c.walk.base.toNat) + 5999
      omega
  | pagePast asked done _ next =>
    apply Nearer.of_comes
    · rw [awaits, asked]
      exact fun _ => done
    · exact rank_ended (spot next).v busy open_
  | takes asked done _ next =>
    obtain ⟨v, base, -⟩ := spot next
    apply Nearer.of_comes
    · rw [awaits, asked]
      exact fun _ => done
    · have onward : (c.next mainWords i m).walk.v ≠ .ccw ∧ (c.next mainWords i m).walk.v ≠ .idle ∧
          (c.next mainWords i m).walk.v ≠ .ended := by
        rw [v]
        cases c.walk.writing <;> simp
      have less := inner_lt _ onward.1
      rw [rank_paged onward.2.1 onward.2.2, rank_ccw place, base, asked]
      change 2 + 6000 * (2 ^ 28 - c.walk.base.toNat) + _ < 2 + 6000 * (2 ^ 28 - c.walk.base.toNat) + 5998
      omega
  | holds asked waits next => exact nearer_port (Or.inl place) asked waits next

theorem made_looks (place : c.walk.v = .look) :
    c.walk.made mainWords i m c.store = c.walk.lookStep m c.walk.pulses := by
  unfold Walk.made
  rw [Walk.pageStep_aside (by simp [Walk.moves, place]), Walk.started_pulses (by simp [place])]
  simp only [Walk.stateStep, place]

theorem made_glooks (place : c.walk.v = .glook) :
    c.walk.made mainWords i m c.store = c.walk.glookStep c.walk.pulses := by
  unfold Walk.made
  rw [Walk.pageStep_aside (by simp [Walk.moves, place]), Walk.started_pulses (by simp [place])]
  simp only [Walk.stateStep, place]

theorem made_gwaits (place : c.walk.v = .gwait) :
    c.walk.made mainWords i m c.store = c.walk.waitStep .glook m c.walk.pulses := by
  unfold Walk.made
  rw [Walk.pageStep_aside (by simp [Walk.moves, place]), Walk.started_pulses (by simp [place])]
  simp only [Walk.stateStep, place]

theorem made_waits (place : c.walk.v = .wait) :
    c.walk.made mainWords i m c.store = c.walk.waitStep .look m c.walk.pulses := by
  unfold Walk.made
  rw [Walk.pageStep_aside (by simp [Walk.moves, place]), Walk.started_pulses (by simp [place])]
  simp only [Walk.stateStep, place]

theorem seek_missed (looking : c.walk.lookingUp = true) (looked : c.walk.looked = true)
    (missed : c.walk.hit = none) : 6 ≤ c.seek := by
  unfold seek sure
  rw [looking_waiting looking, looked, missed]
  simp

theorem Stands.rank {d : Walking} (stands : Stands c d) (looking : c.walk.lookingUp = true) :
    (d.seek < c.seek → d.rank < c.rank) ∧ (d.seek = c.seek → d.rank = c.rank) := by
  have place := stands.place
  have numbers := stands.numbers
  simp only [Prod.mk.injEq] at numbers
  obtain ⟨base, k, -, work⟩ := numbers
  unfold Walk.lookingUp at looking
  simp only [Bool.or_eq_true, beq_iff_eq] at looking
  rcases looking with gather | turn
  · rw [rank_gather (Or.inl gather), rank_gather (Or.inl (place.trans gather)), base, k]
    constructor <;> omega
  · rw [rank_turn (Or.inl turn), rank_turn (Or.inl (place.trans turn)), base, k, work]
    constructor <;> omega

theorem nearer_glook {da moved : Nat} (tally : Tally c.walk da moved) (rst : i.rst = false)
    (place : c.walk.v = .glook) (kept : c.loses i m = false) : Nearer mainWords i m c := by
  have busy : c.walk.v ≠ .idle := by simp [place]
  have open_ : c.walk.v ≠ .ended := by simp [place]
  have looking : c.walk.lookingUp = true := by simp [Walk.lookingUp, place]
  have awaits : c.awaits = .clock := by
    unfold Walking.awaits
    rw [place]
  have block : c.walk.k.toNat < c.walk.size := by
    cases tally <;> simp_all
  have comes : c.Comes i m c.awaits := by
    rw [awaits]
    trivial
  apply Nearer.of_comes comes
  obtain ⟨v, base, k, -, work, -⟩ := @spot_made mainWords i m c rst
  have made : c.walk.made mainWords i m c.store = c.walk.glookStep c.walk.pulses := made_glooks place
  unfold Walk.glookStep at made
  by_cases past : c.walk.cur.getLsbD 28 = true
  · rw [if_pos past] at made
    rw [made] at v
    exact rank_ended v busy open_
  rw [if_neg past] at made
  by_cases looked : c.walk.looked = true
  · rw [if_pos looked] at made
    cases hit : c.walk.hit with
    | none =>
      have far := seek_missed looking looked hit
      rw [hit] at made
      rw [made] at v base k
      have near : (c.next mainWords i m).seek = 5 := by
        unfold seek Walk.waiting
        rw [v]
        rfl
      rw [rank_gather (Or.inl place), rank_gather (Or.inr v), base, k, near]
      change 2 + 6000 * (2 ^ 28 - c.walk.base.toNat) + (5000 + 30 * (5 - c.walk.k.toNat) + 5) < _
      omega
    | some slot =>
      have far := seek_le (c.next mainWords i m)
      rw [hit, Option.isSome_some, if_pos rfl] at made
      dsimp only at made
      by_cases last : c.walk.k = c.walk.perPage - 1
      · rw [if_pos (beq_iff_eq.mpr last)] at made
        rw [made] at v base k
        have most := work_le (c.next mainWords i m).walk
        rw [rank_gather (Or.inl place), rank_turn (Or.inl v), base, k]
        change 2 + 6000 * (2 ^ 28 - c.walk.base.toNat) + (30 * (5 - 0) + 10 + _ + _) < _
        omega
      · obtain ⟨here, inside⟩ := next_block block last
        have most : c.walk.size ≤ 5 := size_le c.walk
        rw [if_neg (by simpa using last)] at made
        rw [made] at v base k
        rw [rank_gather (Or.inl place), rank_gather (Or.inl (v.trans place)), base, k, here]
        change 2 + 6000 * (2 ^ 28 - c.walk.base.toNat) + _ < _
        omega
  · rw [if_neg looked] at made
    have stands := next_stands rst made
    exact (stands.rank looking).1 (seek_young stands looking (by simpa using looked) kept)

theorem nearer_look (rst : i.rst = false) (place : c.walk.v = .look) (kept : c.loses i m = false) :
    Nearer mainWords i m c := by
  have busy : c.walk.v ≠ .idle := by simp [place]
  have open_ : c.walk.v ≠ .ended := by simp [place]
  have looking : c.walk.lookingUp = true := by simp [Walk.lookingUp, place]
  have awaits (d : Walking) (there : d.walk.v = .look) : d.awaits =
      if !d.walk.cur.getLsbD 28 && d.walk.looked && d.walk.hit.isSome && d.store.held d.walk.block
      then .slot else .clock := by
    unfold Walking.awaits
    rw [there]
  have going (cond : (!c.walk.cur.getLsbD 28 && c.walk.looked && c.walk.hit.isSome &&
      c.store.held c.walk.block) = false) : c.Comes i m c.awaits := by
    rw [awaits c place, cond]
    trivial
  obtain ⟨v, base, k, -, work, -⟩ := @spot_made mainWords i m c rst
  have made : c.walk.made mainWords i m c.store = c.walk.lookStep m c.walk.pulses := made_looks place
  unfold Walk.lookStep at made
  by_cases past : c.walk.cur.getLsbD 28 = true
  · rw [if_pos past] at made
    rw [made] at v
    exact Nearer.of_comes (going (by simp [past])) (rank_ended v busy open_)
  rw [if_neg past] at made
  rw [Bool.not_eq_true] at past
  by_cases looked : c.walk.looked = true
  · rw [if_pos looked] at made
    cases hit : c.walk.hit with
    | none =>
      have far := seek_missed looking looked hit
      rw [hit] at made
      dsimp only at made
      rw [made] at v base k work
      have waits : (c.next mainWords i m).walk.v = .wait := v
      have near : (c.next mainWords i m).seek = 5 := by simp [seek, Walk.waiting, waits]
      have same : (c.next mainWords i m).walk.work = c.walk.work := by
        rw [work]
        simp only [Walk.work, Walk.passed, Walk.through, Walk.size, Walk.pulses, place]
        rfl
      apply Nearer.of_comes (going (by simp [hit]))
      rw [rank_turn (Or.inl place), rank_turn (Or.inr v), base, k, near, same]
      change 2 + 6000 * (2 ^ 28 - c.walk.base.toNat) + (30 * (5 - c.walk.k.toNat) + 10 + 5 + _) < _
      omega
    | some slot =>
      rw [hit] at made
      dsimp only at made
      by_cases held : (m.busy && m.busySlot == slot) = true
      · rw [if_pos held] at made
        have stands := next_stands rst made
        obtain ⟨again, found, nearer⟩ := seek_found stands looking looked (by simp [hit]) kept
        cases there : c.store.held c.walk.block with
        | false =>
          rw [there, if_neg Bool.false_ne_true] at nearer
          exact Nearer.of_comes (going (by simp [there])) ((stands.rank looking).1 nearer)
        | true =>
          rw [there, if_pos rfl] at nearer
          have after : (c.next mainWords i m).store.held c.walk.block = true :=
            held_after looking there kept
          have now : c.awaits = .slot := by
            rw [awaits c place, past, looked, hit, there]
            rfl
          have then_ : (c.next mainWords i m).awaits = .slot := by
            rw [awaits _ (stands.place.trans place), stands.cur, past, again, found, there, stands.block, after]
            rfl
          apply Nearer.of_waits
          · rw [now]
            intro comes
            simp only [Bool.and_eq_true, beq_iff_eq] at held
            exact comes place ⟨held.1, by rw [hit, held.2]⟩
          · exact ⟨Nat.le_of_eq ((stands.rank looking).2 nearer), then_.trans now.symm⟩
      · rw [if_neg held] at made
        have close := (seek_le c).1
        have free : c.Comes i m c.awaits := by
          rw [awaits c place]
          split
          · intro _ blocked
            rw [hit, Option.some.injEq] at blocked
            exact held (by simp [blocked.1, blocked.2])
          · trivial
        apply Nearer.of_comes free
        rw [made] at v base k work
        have moves : (c.next mainWords i m).walk.v = .read ∨ (c.next mainWords i m).walk.v = .write := by
          rw [v]
          cases c.walk.writing <;> simp
        have same : (c.next mainWords i m).walk.work = c.walk.work := by
          rw [work]
          cases writing : c.walk.writing
          all_goals simp only [Walk.work, Walk.passed, Walk.through, Walk.size, Walk.pulses, place, writing]
          all_goals rfl
        rw [rank_turn (Or.inl place), rank_move moves, base, k, same]
        change 2 + 6000 * (2 ^ 28 - c.walk.base.toNat) + (30 * (5 - c.walk.k.toNat) + _) < _
        omega
  · rw [if_neg looked] at made
    have stands := next_stands rst made
    rw [Bool.not_eq_true] at looked
    exact Nearer.of_comes (going (by simp [looked]))
      ((stands.rank looking).1 (seek_young stands looking looked kept))

theorem held_comes (waiting : c.walk.waiting = true) (granted : m.deny = false)
    (arrives : c.walk.arrives m = true) (kept : c.loses i m = false) :
    (c.next mainWords i m).store.held c.walk.block = true := by
  unfold loses at kept
  rw [waiting, granted, arrives] at kept
  have stays : (c.store.next i.rst m c.walk).held c.walk.block = true := by simpa using kept
  exact stays

theorem nearer_waits {back : WalkState} (rst : i.rst = false)
    (there : c.walk.v = .gwait ∧ back = .glook ∨ c.walk.v = .wait ∧ back = .look)
    (made : c.walk.made mainWords i m c.store = c.walk.waitStep back m c.walk.pulses)
    (kept : c.loses i m = false) : Nearer mainWords i m c := by
  have waiting : c.walk.waiting = true := by
    unfold Walk.waiting
    rcases there with ⟨place, -⟩ | ⟨place, -⟩ <;> rw [place] <;> rfl
  have awaits (d : Walking) (same : d.walk.v = c.walk.v) : d.awaits = .block := by
    unfold Walking.awaits
    rw [same]
    rcases there with ⟨place, -⟩ | ⟨place, -⟩ <;> rw [place]
  have far : c.seek = 5 := by
    unfold seek
    rw [waiting, if_pos rfl]
  obtain ⟨v, base, k, -, work, -⟩ := @spot_made mainWords i m c rst
  unfold Walk.waitStep at made
  by_cases deny : m.deny = true
  · rw [if_pos deny] at made
    rw [made] at v
    apply Nearer.of_comes
    · rw [awaits c rfl]
      exact fun _ => Or.inl deny
    · exact rank_ended v (by rcases there with ⟨place, -⟩ | ⟨place, -⟩ <;> simp [place])
        (by rcases there with ⟨place, -⟩ | ⟨place, -⟩ <;> simp [place])
  rw [if_neg deny] at made
  rw [Bool.not_eq_true] at deny
  by_cases arrives : c.walk.arrives m = true
  · rw [if_pos arrives] at made
    apply Nearer.of_comes
    · rw [awaits c rfl]
      exact fun _ => Or.inr arrives
    · have held : (c.next mainWords i m).store.held c.walk.block = true :=
        held_comes waiting deny arrives kept
      have next : (c.next mainWords i m).walk = c.walk.next mainWords i m c.store := rfl
      have young : (c.next mainWords i m).walk.looked = false := by
        have age : (c.next mainWords i m).walk.lookAge = 0#2 := by
          rw [next, Walk.next_running rst, made]
          dsimp only
          split <;> rfl
        simp [Walk.looked, age]
      have here : (c.next mainWords i m).walk.block = c.walk.block := by
        unfold Walk.block Walk.cur
        rw [base, k, made]
        rfl
      rw [made] at v base k work
      have found : (c.next mainWords i m).sure = true := by simp [sure, here, held, young]
      have close := near_le (c.next mainWords i m).walk
      have nearer : (c.next mainWords i m).seek ≤ 4 := by
        unfold seek Walk.waiting
        rw [v, found]
        rcases there with ⟨-, rfl⟩ | ⟨-, rfl⟩
        · change 1 + _ ≤ 4
          omega
        · change 1 + _ ≤ 4
          omega
      rcases there with ⟨place, rfl⟩ | ⟨place, rfl⟩
      · rw [rank_gather (Or.inr place), rank_gather (Or.inl v), base, k, far]
        change 2 + 6000 * (2 ^ 28 - c.walk.base.toNat) + (5000 + 30 * (5 - c.walk.k.toNat) + _) < _
        omega
      · have same : (c.next mainWords i m).walk.work = c.walk.work := by
          rw [work]
          simp only [Walk.work, Walk.passed, Walk.through, Walk.size, Walk.pulses, place]
          rfl
        rw [rank_turn (Or.inr place), rank_turn (Or.inl v), base, k, far, same]
        change 2 + 6000 * (2 ^ 28 - c.walk.base.toNat) + (30 * (5 - c.walk.k.toNat) + 10 + _ + _) < _
        omega
  · rw [if_neg arrives] at made
    have stands := next_stands rst made
    have numbers := stands.numbers
    simp only [Prod.mk.injEq] at numbers
    obtain ⟨base', k', -, work'⟩ := numbers
    have far' : (c.next mainWords i m).seek = 5 := by
      unfold seek Walk.waiting
      rw [stands.place]
      exact if_pos waiting
    apply Nearer.of_waits
    · rw [awaits c rfl]
      intro comes
      rcases comes waiting with denied | comes
      · exact Bool.false_ne_true (deny.symm.trans denied)
      · exact arrives comes
    · refine ⟨Nat.le_of_eq ?_, (awaits _ stands.place).trans (awaits c rfl).symm⟩
      rcases there with ⟨place, -⟩ | ⟨place, -⟩
      · rw [rank_gather (Or.inr place), rank_gather (Or.inr (stands.place.trans place)), base', k', far, far']
      · rw [rank_turn (Or.inr place), rank_turn (Or.inr (stands.place.trans place)), base', k', work', far,
          far']

theorem rank_work {d : Walking} (moves : c.walk.v = .read ∨ c.walk.v = .write) (same : d.walk.v = c.walk.v)
    (base : d.walk.base = c.walk.base) (k : d.walk.k = c.walk.k) (less : d.walk.work < c.walk.work) :
    d.rank < c.rank := by
  rw [rank_move moves, rank_move (by rwa [same]), base, k]
  omega

theorem work_read {w : Walk} (reads : w.writing = false) (place : w.v = .read) :
    w.work = 2 * (1280 - w.through) + 2 * (1024 - w.mw.toNat) + (1 - w.rdValid.toNat) +
      (1 - w.dReq.toNat) := by
  unfold Walk.work Walk.passed
  rw [reads, place]
  rfl

theorem work_write {w : Walk} (writes : w.writing = true) (place : w.v = .write) :
    w.work = 2 * (1280 - w.through) + 2 * (1024 - (4 * w.through + w.sn.toNat) / w.size) + 1 +
      (1 - w.dReq.toNat) := by
  unfold Walk.work Walk.passed
  rw [writes, place]
  rfl

theorem rank_page {x : Walk} (next : Walk.Follows c.walk (c.walk.paged x) (c.next mainWords i m).walk)
    (moves : c.walk.v = .read ∨ c.walk.v = .write) (room : c.walk.base.toNat + c.walk.size ≤ 2 ^ 28) :
    (c.next mainWords i m).rank < c.rank := by
  have busy : c.walk.v ≠ .idle := by rcases moves with place | place <;> simp [place]
  have open_ : c.walk.v ≠ .ended := by rcases moves with place | place <;> simp [place]
  obtain ⟨v, base, -⟩ := spot next
  unfold Walk.paged at v base
  cases more : c.walk.more with
  | false =>
    rw [more] at v
    exact rank_ended v busy open_
  | true =>
    rw [more] at v base
    have onward : (c.next mainWords i m).walk.base.toNat = c.walk.base.toNat + c.walk.size := by
      rw [base]
      exact Tally.page_base room
    have some_ := Tally.size_pos c.walk
    exact rank_entry v busy open_ (by omega) (by omega)

theorem push_clears (rst : i.rst = false) (place : c.walk.v = .read) (free : c.walk.dReq = false)
    (short : c.walk.sn < c.walk.perPage.setWidth 4) (undrained : c.walk.drained = false)
    (valid : c.walk.rdValid = true) : (c.next mainWords i m).walk.rdValid = false := by
  have follows : Walk.Follows c.walk
      (c.walk.pageStep i (c.walk.stateStep mainWords c.store i m c.walk.pulses))
      (c.next mainWords i m).walk := Walk.next_follows rst (by simp [place])
  have goes : c.walk.pageDone i = false := by simp [Walk.pageDone, place, free]
  rw [Walk.pageStep_on goes] at follows
  rw [(spot follows).rdValid]
  simp only [Walk.stateStep, place]
  unfold Walk.readStep
  rw [free, Bool.not_false, if_pos rfl, if_neg (BitVec.not_le.mpr short), undrained,
    if_neg Bool.false_ne_true, valid, if_pos rfl]
  dsimp only
  split <;> rfl

/-- Its port asked nothing of, a walk moving a page awaits a clock, and else the port. -/
theorem comes_moving (moves : c.walk.v = .read ∨ c.walk.v = .write)
    (answers : c.walk.dReq = true → i.dDone = true) : c.Comes i m c.awaits := by
  unfold Walking.awaits
  cases asked : c.walk.dReq
  all_goals
    rcases moves with place | place
    all_goals rw [place]
  · trivial
  · trivial
  · exact fun _ => answers asked
  · exact fun _ => answers asked

theorem nearer_read {da moved : Nat} (tally : Tally c.walk da moved) (rst : i.rst = false)
    (place : c.walk.v = .read) : Nearer mainWords i m c := by
  have moves : c.walk.v = .read ∨ c.walk.v = .write := Or.inl place
  obtain ⟨reads, block, room⟩ : c.walk.writing = false ∧ c.walk.k.toNat < c.walk.size ∧
      c.walk.base.toNat + c.walk.size ≤ 2 ^ 28 := by
    cases tally <;> simp_all
  have few := c.walk.chW.isLt
  have last := c.walk.mw.isLt
  have most := size_le c.walk
  have through : c.walk.through = 256 * c.walk.k.toNat + if c.walk.drained then 256 else c.walk.chW.toNat := by
    simp [Walk.through, place]
  have steps : Walk.Reads c.store i c.walk (c.next mainWords i m).walk := Walk.next_read rst place
  have own := work_read reads place
  cases steps with
  | emits free enough next =>
    have at_ := spot next
    apply Nearer.of_comes (comes_moving moves (by simp [free]))
    apply rank_work moves at_.v at_.base at_.k
    rw [own, at_.work.trans (work_read reads place), free]
    change 2 * (1280 - c.walk.through) + 2 * (1024 - c.walk.mw.toNat) + (1 - c.walk.rdValid.toNat) + 0 <
      2 * (1280 - c.walk.through) + 2 * (1024 - c.walk.mw.toNat) + (1 - c.walk.rdValid.toNat) + 1
    omega
  | blockDone free short drained next =>
    have at_ := spot next
    have place' : (c.next mainWords i m).walk.v = .look := at_.v
    have k' : (c.next mainWords i m).walk.k = c.walk.k + 1 := at_.k
    -- The page is not over.
    have inside : (c.next mainWords i m).walk.k.toNat < (c.next mainWords i m).walk.size := by
      have after : Tally (c.next mainWords i m).walk da _ := tally.read rst place
      cases after <;> simp_all
    have most' := size_le (c.next mainWords i m).walk
    have up : (c.next mainWords i m).walk.k.toNat = c.walk.k.toNat + 1 := by
      rw [k', BitVec.toNat_add]
      change (c.walk.k.toNat + 1) % 8 = _
      omega
    have left : (c.next mainWords i m).walk.work ≤ c.walk.work + 1 := by
      have through' : (c.next mainWords i m).walk.through = c.walk.through := by
        rw [through, drained]
        simp [Walk.through, place', up]
        omega
      have mw' : (c.next mainWords i m).walk.mw = c.walk.mw := at_.mw
      have dReq' : (c.next mainWords i m).walk.dReq = c.walk.dReq := at_.dReq
      rw [own]
      unfold Walk.work Walk.passed
      rw [at_.writing.trans reads, through', mw', dReq']
      simp only [Bool.false_eq_true, if_false]
      omega
    have near := seek_le (c.next mainWords i m)
    have base' : (c.next mainWords i m).walk.base = c.walk.base := at_.base
    apply Nearer.of_comes (comes_moving moves (by simp [free]))
    rw [rank_move moves, rank_turn (Or.inl place'), base', up]
    omega
  | pushes free short undrained valid next =>
    have at_ := spot next
    have rdValid' : (c.next mainWords i m).walk.rdValid = false := at_.rdValid
    have mw' : (c.next mainWords i m).walk.mw = c.walk.mw := at_.mw
    rw [undrained, if_neg Bool.false_ne_true] at through
    have through' : (c.next mainWords i m).walk.through = c.walk.through + 1 := by
      rw [at_.through, through]
      unfold Walk.through
      dsimp only [Walk.pulses]
      rw [place]
      dsimp only
      rw [taken_next undrained]
      rfl
    apply Nearer.of_comes (comes_moving moves (by simp [free]))
    apply rank_work moves at_.v at_.base at_.k
    rw [own, work_read (at_.writing.trans reads) (at_.v.trans place), through', mw', rdValid',
      at_.dReq.trans free, valid, free]
    change 2 * (1280 - (c.walk.through + 1)) + 2 * (1024 - c.walk.mw.toNat) + 1 + 1 <
      2 * (1280 - c.walk.through) + 2 * (1024 - c.walk.mw.toNat) + 0 + 1
    omega
  | latches free short undrained next =>
    have at_ := spot next
    have rdValid' : (c.next mainWords i m).walk.rdValid = true := at_.rdValid
    -- A word that has come is taken, not latched again.
    have empty : c.walk.rdValid = false := by
      rw [← Bool.not_eq_true]
      intro valid
      exact absurd (rdValid'.symm.trans (push_clears rst place free short undrained valid)) (by decide)
    apply Nearer.of_comes (comes_moving moves (by simp [free]))
    apply rank_work moves at_.v at_.base at_.k
    rw [own, at_.work.trans (work_read reads place), empty]
    change 2 * (1280 - c.walk.through) + 2 * (1024 - c.walk.mw.toNat) + 0 + (1 - c.walk.dReq.toNat) <
      2 * (1280 - c.walk.through) + 2 * (1024 - c.walk.mw.toNat) + 1 + (1 - c.walk.dReq.toNat)
    omega
  | lands asked done further next =>
    have at_ := spot next
    have mw' : (c.walk.mw + 1).toNat = c.walk.mw.toNat + 1 := next_mw further
    apply Nearer.of_comes (comes_moving moves fun _ => done)
    apply rank_work moves at_.v at_.base at_.k
    rw [own, at_.work.trans (work_read reads place), asked]
    change 2 * (1280 - c.walk.through) + 2 * (1024 - (c.walk.mw + 1).toNat) + (1 - c.walk.rdValid.toNat) + 1 <
      2 * (1280 - c.walk.through) + 2 * (1024 - c.walk.mw.toNat) + (1 - c.walk.rdValid.toNat) + 0
    omega
  | pageDone asked done last next =>
    exact Nearer.of_comes (comes_moving moves fun _ => done) (rank_page next moves room)
  | holds asked waits next => exact nearer_port (Or.inr (Or.inl place)) asked waits next

theorem nearer_write {da moved : Nat} (tally : Tally c.walk da moved) (rst : i.rst = false)
    (place : c.walk.v = .write) : Nearer mainWords i m c := by
  have moves : c.walk.v = .read ∨ c.walk.v = .write := Or.inr place
  obtain ⟨writes, asked, block, below, got, bytes⟩ : c.walk.writing = true ∧
      (c.walk.dReq = true → c.walk.sn.toNat < 4) ∧ c.walk.k.toNat < c.walk.size ∧
      c.walk.base.toNat + c.walk.k.toNat < 2 ^ 28 ∧
      ∃ got, c.walk.size * got = 4 * c.walk.through + c.walk.sn.toNat := by
    cases tally <;> simp_all
  have few := c.walk.chW.isLt
  have most := size_le c.walk
  have some_ := Tally.size_pos c.walk
  have through : c.walk.through = 256 * c.walk.k.toNat + c.walk.chW.toNat := by
    simp [Walk.through, place]
  -- The words taken are the bytes in over the bytes of a word.
  have words : (4 * c.walk.through + c.walk.sn.toNat) / c.walk.size = got := by
    rw [← bytes, Nat.mul_div_cancel_left _ some_]
  -- A word handed on, they stay the same.
  have handed : 4 ≤ c.walk.sn.toNat →
      (4 * (c.walk.through + 1) + (c.walk.sn.toNat - 4)) / c.walk.size = got := by
    intro least
    rw [← words]
    congr 1
    omega
  have own := work_write writes place
  rw [words] at own
  have steps : Walk.Writes i c.walk (c.next mainWords i m).walk := Walk.next_write rst place
  cases steps with
  | stores free enough further next =>
    have at_ := spot next
    obtain ⟨least, left⟩ := Tally.handed_less enough
    have dReq' : (c.next mainWords i m).walk.dReq = c.walk.dReq := at_.dReq
    have size' : (c.next mainWords i m).walk.size = c.walk.size := at_.size
    have sn' : (c.next mainWords i m).walk.sn.toNat = c.walk.sn.toNat - 4 :=
      (congrArg BitVec.toNat at_.sn).trans left
    have through' : (c.next mainWords i m).walk.through = c.walk.through + 1 := by
      rw [at_.through, through]
      simp only [Walk.through, Walk.handed, Walk.pulses, place]
      rw [next_word further]
      rfl
    apply Nearer.of_comes (comes_moving moves (by simp [free]))
    apply rank_work moves at_.v at_.base at_.k
    rw [own, work_write (at_.writing.trans writes) (at_.v.trans place), through', sn', size', handed least, dReq']
    omega
  | blockDone free enough last further next =>
    have at_ := spot next
    obtain ⟨least, left⟩ := Tally.handed_less enough
    obtain ⟨here, inside⟩ := next_block block further
    have place' : (c.next mainWords i m).walk.v = .look := at_.v
    have up : (c.next mainWords i m).walk.k.toNat = c.walk.k.toNat + 1 :=
      (congrArg BitVec.toNat at_.k).trans here
    have dReq' : (c.next mainWords i m).walk.dReq = c.walk.dReq := at_.dReq
    have size' : (c.next mainWords i m).walk.size = c.walk.size := at_.size
    have base' : (c.next mainWords i m).walk.base = c.walk.base := at_.base
    have sn' : (c.next mainWords i m).walk.sn.toNat = c.walk.sn.toNat - 4 :=
      (congrArg BitVec.toNat at_.sn).trans left
    rw [last] at through
    change c.walk.through = 256 * c.walk.k.toNat + 255 at through
    have through' : (c.next mainWords i m).walk.through = c.walk.through + 1 := by
      simp only [Walk.through, place', up]
      change _ = c.walk.through + 1
      omega
    have left' : (c.next mainWords i m).walk.work ≤ c.walk.work := by
      rw [own]
      unfold Walk.work Walk.passed
      rw [at_.writing.trans writes, through', sn', size', dReq', if_pos rfl, handed least]
      omega
    have near := seek_le (c.next mainWords i m)
    apply Nearer.of_comes (comes_moving moves (by simp [free]))
    rw [rank_move moves, rank_turn (Or.inl place'), base', up]
    omega
  | pageDone free enough last final next =>
    have top := Tally.final_block final
    exact Nearer.of_comes (comes_moving moves (by simp [free])) (rank_page next moves (by omega))
  | asks free short next =>
    have at_ := spot next
    apply Nearer.of_comes (comes_moving moves (by simp [free]))
    apply rank_work moves at_.v at_.base at_.k
    rw [own, at_.work.trans (work_write writes place), free]
    change 2 * (1280 - c.walk.through) +
      2 * (1024 - (4 * c.walk.through + c.walk.sn.toNat) / c.walk.size) + 1 + 0 < _
    rw [words]
    exact Nat.lt_succ_self _
  | takes req done next =>
    have at_ := spot next
    have less := asked req
    have through' : (c.next mainWords i m).walk.through = c.walk.through := at_.through
    have size' : (c.next mainWords i m).walk.size = c.walk.size := at_.size
    have dReq' : (c.next mainWords i m).walk.dReq = false := at_.dReq
    have sn' : (c.next mainWords i m).walk.sn.toNat = c.walk.sn.toNat + c.walk.size := by
      rw [at_.sn]
      change (c.walk.sn + c.walk.perPage.setWidth 4).toNat = _
      rw [BitVec.toNat_add, perPage_wide c.walk]
      omega
    have words' : (4 * c.walk.through + (c.walk.sn.toNat + c.walk.size)) / c.walk.size = got + 1 := by
      rw [← Nat.add_assoc, Nat.add_div_right _ some_, words]
    -- The page has a word left to read.
    have more : got < 1024 := by
      rcases size_cases c.walk with ⟨-, size, -⟩ | ⟨-, size, -⟩ <;> rw [size] at bytes block <;> omega
    apply Nearer.of_comes (comes_moving moves fun _ => done)
    apply rank_work moves at_.v at_.base at_.k
    rw [own, work_write (at_.writing.trans writes) (at_.v.trans place), through', sn', size', words', dReq', req]
    change 2 * (1280 - c.walk.through) + 2 * (1024 - (got + 1)) + 1 + 1 <
      2 * (1280 - c.walk.through) + 2 * (1024 - got) + 1 + 0
    omega
  | holds req waits next => exact nearer_port (Or.inr (Or.inr place)) req waits next

theorem nearer_ended (rst : i.rst = false) (place : c.walk.v = .ended) : Nearer mainWords i m c := by
  have v : (c.next mainWords i m).walk.v = .idle := (spot (Walk.next_ended rst place)).v
  apply Nearer.of_comes
  · unfold Walking.awaits
    rw [place]
    trivial
  · unfold rank
    rw [v, place]
    exact Nat.zero_lt_one

theorem nearer_reset (rst : i.rst = true) (busy : c.walk.v ≠ .idle) :
    (c.next mainWords i m).walk.v = .idle ∧ (c.next mainWords i m).rank < c.rank := by
  have idle : (c.next mainWords i m).walk.v = .idle := (Walk.next_reset rst).1
  refine ⟨idle, ?_⟩
  have zero : (c.next mainWords i m).rank = 0 := by
    unfold rank
    rw [idle]
  rw [zero]
  unfold rank
  cases place : c.walk.v
  case idle => exact absurd place busy
  all_goals dsimp only
  all_goals omega

theorem nearer {da moved : Nat} (tally : Tally c.walk da moved) (rst : i.rst = false)
    (busy : c.walk.v ≠ .idle) (kept : c.loses i m = false) : Nearer mainWords i m c := by
  cases place : c.walk.v with
  | idle => exact absurd place busy
  | ccw => exact nearer_ccw rst place
  | glook => exact nearer_glook tally rst place kept
  | gwait => exact nearer_waits rst (Or.inl ⟨place, rfl⟩) (made_gwaits place) kept
  | look => exact nearer_look rst place kept
  | wait => exact nearer_waits rst (Or.inr ⟨place, rfl⟩) (made_waits place) kept
  | read => exact nearer_read tally rst place
  | write => exact nearer_write tally rst place
  | ended => exact nearer_ended rst place

end States

section Runs

variable {mainWords : Nat} {first : Walking} {i : Nat → WalkInput} {m : Nat → Seam}

/-- Whatever a walk awaits comes, again and again. -/
structure Answered (c : Nat → Walking) (i : Nat → WalkInput) (m : Nat → Seam) : Prop where
  port : ∀ t, ∃ u, t ≤ u ∧ (c u).Comes (i u) (m u) .port
  block : ∀ t, ∃ u, t ≤ u ∧ (c u).Comes (i u) (m u) .block
  slot : ∀ t, ∃ u, t ≤ u ∧ (c u).Comes (i u) (m u) .slot

/-- From every clock on it comes back to idle. -/
theorem returns (answered : Answered (run mainWords first i m) i m) {settled : Nat}
    (kept : ∀ t, settled ≤ t → (run mainWords first i m t).loses (i t) (m t) = false) (a : Nat) :
    ∃ t, a ≤ t ∧ (run mainWords first i m t).walk.v = .idle := by
  let states := run mainWords first i m
  let chosen : Await → Nat → Prop := fun event t => (states t).Comes (i t) (m t) event
  have step (t : Nat) (after : max a settled ≤ t) (busy : (states t).walk.v ≠ .idle) :
      (states (t + 1)).walk.v = .idle ∧ (states (t + 1)).rank < (states t).rank ∨
        Nearer mainWords (i t) (m t) (states t) := by
    cases rst : (i t).rst with
    | true => exact Or.inl (nearer_reset rst busy)
    | false =>
      obtain ⟨da, moved, tally⟩ := tally_busy busy
      exact Or.inr (nearer tally rst busy (kept t (by omega)))
  have reached : ∃ t, max a settled ≤ t ∧ (states t).walk.v = .idle := by
    apply @met_of_fair Await (fun t => (states t).rank) (fun t => (states t).walk.v = .idle)
      (fun event t => (states t).awaits = event) chosen (max a settled)
    · exact fun t _ _ => ⟨_, rfl⟩
    · intro event t after busy later waiting missed
      rcases step t after busy with ⟨idle, -⟩ | ⟨-, waits⟩
      · exact absurd idle later
      · exact (waits (waiting ▸ missed)).2.trans waiting
    · intro t after busy
      rcases step t after busy with ⟨-, less⟩ | ⟨comes, waits⟩
      · exact Nat.le_of_lt less
      · by_cases now : (states t).Comes (i t) (m t) (states t).awaits
        · exact Nat.le_of_lt (comes now)
        · exact (waits now).1
    · intro event t after busy waiting made
      rcases step t after busy with ⟨-, less⟩ | ⟨comes, -⟩
      · exact less
      · exact comes (waiting ▸ made)
    · intro event t
      cases event with
      | port => exact answered.port t
      | block => exact answered.block t
      | slot => exact answered.slot t
      | clock => exact ⟨t, Nat.le_refl t, trivial⟩
  obtain ⟨t, after, idle⟩ := reached
  exact ⟨t, by omega, idle⟩

end Runs

section Losing

/-- The pack side brings the block to slot 0 at a clock in four, and takes it away at the next. -/
def losing (t : Nat) : Seam where
  we := t % 4 = 2 ∨ t % 4 = 3
  slot := 0#5
  addr := 259#9
  wdata := if t % 4 = 3 then 0x80000000#32 else 0#32
  deny := false
  busy := false
  busySlot := 0#5

/-- A walk at block 0 of its disk, in a state. -/
structure AtStart (c : Walking) (v : WalkState) : Prop where
  place : c.walk.v = v
  base : c.walk.base = 0#29
  k : c.walk.k = 0#3
  lba : c.walk.lba = 0#28

variable {mainWords : Nat} {i : WalkInput} {c : Walking} {v : WalkState}

theorem AtStart.block (start : AtStart c v) : c.walk.block = 0#28 ∧ c.walk.cur.getLsbD 28 = false := by
  unfold Walk.block Walk.cur
  rw [start.base, start.k]
  exact ⟨rfl, rfl⟩

theorem held_empty {s : BlockStore} (empty : ∀ slot, s.valid slot = false) (block : BitVec 28) :
    s.held block = false := by
  unfold BlockStore.held
  simp [empty]

theorem losing_brings (rst : i.rst = false) (start : AtStart c .gwait)
    (empty : ∀ slot, c.store.valid slot = false) :
    AtStart (c.next mainWords i (losing 2)) .glook ∧ (c.next mainWords i (losing 2)).walk.lookAge = 0#2 ∧
      ∀ slot, slot ≠ 0#5 → (c.next mainWords i (losing 2)).store.valid slot = false := by
  have arrives : c.walk.arrives (losing 2) = true := by
    unfold Walk.arrives Walk.reqTag
    rw [start.lba]
    rfl
  have made : c.walk.made mainWords i (losing 2) c.store =
      c.walk.waitStep .glook (losing 2) c.walk.pulses := made_gwaits start.place
  unfold Walk.waitStep at made
  rw [if_neg (by decide), if_pos arrives] at made
  have next : (c.next mainWords i (losing 2)).walk = c.walk.next mainWords i (losing 2) c.store := rfl
  rw [Walk.next_running rst, made] at next
  refine ⟨⟨?_, ?_, ?_, ?_⟩, ?_, ?_⟩
  · rw [next]
  · rw [next]
    exact start.base
  · rw [next]
    exact start.k
  · rw [next]
    exact start.block.1
  · rw [next]
    dsimp only
    split <;> rfl
  · intro slot other
    change (if i.rst then _ else if (losing 2).tagWrite true then _
      else if (losing 2).tagWrite false then Function.update c.store.valid 0#5 true else _) slot = false
    rw [rst, if_neg Bool.false_ne_true, if_neg (by decide), if_pos (by decide), Function.update_of_ne other]
    exact empty slot

theorem losing_looks {m : Seam} (rst : i.rst = false) (start : AtStart c .glook)
    (young : c.walk.lookAge ≠ 2#2) : AtStart (c.next mainWords i m) .glook ∧
      (c.next mainWords i m).walk.lookAge = c.walk.lookAge + 1#2 := by
  obtain ⟨block, inside⟩ := start.block
  have made : c.walk.made mainWords i m c.store = c.walk.glookStep c.walk.pulses := made_glooks start.place
  unfold Walk.glookStep at made
  rw [inside, if_neg Bool.false_ne_true, if_neg (by simp [Walk.looked, young])] at made
  have stands := next_stands rst made
  have numbers := stands.numbers
  simp only [Prod.mk.injEq] at numbers
  refine ⟨⟨stands.place.trans start.place, numbers.1.trans start.base, numbers.2.1.trans start.k,
    stands.lba.trans block⟩, ?_⟩
  rw [stands.age, start.lba, block, if_pos rfl, if_neg young]

theorem losing_takes (rst : i.rst = false) (others : ∀ slot, slot ≠ 0#5 → c.store.valid slot = false)
    (slot : BitVec 5) : (c.next mainWords i (losing 3)).store.valid slot = false := by
  change (if i.rst then _ else if (losing 3).tagWrite true then Function.update c.store.valid 0#5 false
    else _) slot = false
  rw [rst, if_neg Bool.false_ne_true, if_pos (by decide)]
  by_cases zero : slot = 0#5
  · rw [zero, Function.update_self]
  · rw [Function.update_of_ne zero]
    exact others slot zero

theorem losing_rests {m : Seam} (rst : i.rst = false) (quiet : m.we = false)
    (empty : ∀ slot, c.store.valid slot = false) (slot : BitVec 5) :
    (c.next mainWords i m).store.valid slot = false := by
  change (if i.rst then _ else if m.tagWrite true then _ else if m.tagWrite false then _
    else c.store.valid) slot = false
  rw [rst, if_neg Bool.false_ne_true, if_neg (by simp [Seam.tagWrite, Seam.beside, quiet]),
    if_neg (by simp [Seam.tagWrite, Seam.beside, quiet])]
  exact empty slot

theorem losing_asks {m : Seam} (rst : i.rst = false) (start : AtStart c .glook) (old : c.walk.lookAge = 2#2)
    (missed : c.walk.hit = none) : AtStart (c.next mainWords i m) .gwait := by
  obtain ⟨block, inside⟩ := start.block
  have made : c.walk.made mainWords i m c.store = c.walk.glookStep c.walk.pulses := made_glooks start.place
  unfold Walk.glookStep at made
  rw [inside, if_neg Bool.false_ne_true, if_pos (by simp [Walk.looked, old, start.lba, block]), missed] at made
  have next : (c.next mainWords i m).walk = c.walk.next mainWords i m c.store := rfl
  rw [Walk.next_running rst, made] at next
  refine ⟨?_, ?_, ?_, ?_⟩
  · rw [next]
    rfl
  · rw [next]
    exact start.base
  · rw [next]
    exact start.k
  · rw [next]
    exact block

/-- A read from such a pack side, the port answering at once. -/
def forever : Nat → Walking :=
  run 2048 ⟨Copying.cold.store, Copying.cold.walk⟩ (fun _ => Copying.reading) losing

theorem losing_mod (n k : Nat) : losing (4 * n + k) = losing k := by
  unfold losing
  rw [Nat.mul_add_mod]

theorem losing_round {n : Nat} (waits : AtStart (forever (4 * n + 6)) .gwait)
    (empty : ∀ slot, (forever (4 * n + 6)).store.valid slot = false) :
    AtStart (forever (4 * n + 7)) .glook ∧ AtStart (forever (4 * n + 8)) .glook ∧
      AtStart (forever (4 * n + 9)) .glook ∧ AtStart (forever (4 * n + 10)) .gwait ∧
      ∀ slot, (forever (4 * n + 10)).store.valid slot = false := by
  have rst : Copying.reading.rst = false := rfl
  have brings : forever (4 * n + 7) = (forever (4 * n + 6)).next 2048 Copying.reading (losing 2) :=
    congrArg (fun m => (forever (4 * n + 6)).next 2048 Copying.reading m) (losing_mod (n + 1) 2)
  have takes : forever (4 * n + 8) = (forever (4 * n + 7)).next 2048 Copying.reading (losing 3) :=
    congrArg (fun m => (forever (4 * n + 7)).next 2048 Copying.reading m) (losing_mod (n + 1) 3)
  have rests : forever (4 * n + 9) = (forever (4 * n + 8)).next 2048 Copying.reading (losing 0) :=
    congrArg (fun m => (forever (4 * n + 8)).next 2048 Copying.reading m) (losing_mod (n + 2) 0)
  have asks : forever (4 * n + 10) = (forever (4 * n + 9)).next 2048 Copying.reading (losing 1) :=
    congrArg (fun m => (forever (4 * n + 9)).next 2048 Copying.reading m) (losing_mod (n + 2) 1)
  obtain ⟨look, young, others⟩ := @losing_brings 2048 Copying.reading _ rst waits empty
  rw [← brings] at look young others
  obtain ⟨look', young'⟩ := @losing_looks 2048 Copying.reading _ (losing 3) rst look (by rw [young]; decide)
  have empty' := @losing_takes 2048 Copying.reading _ rst others
  rw [← takes] at look' young' empty'
  rw [young] at young'
  obtain ⟨look'', old⟩ := @losing_looks 2048 Copying.reading _ (losing 0) rst look' (by rw [young']; decide)
  have empty'' := @losing_rests 2048 Copying.reading _ (losing 0) rst rfl empty'
  have missed : ((forever (4 * n + 8)).next 2048 Copying.reading (losing 0)).walk.hit = none := by
    rw [← Option.not_isSome_iff_eq_none, next_hit, held_empty empty']
    decide
  rw [← rests] at look'' old empty'' missed
  rw [young'] at old
  have waits' := @losing_asks 2048 Copying.reading _ (losing 1) rst look'' old missed
  have still := @losing_rests 2048 Copying.reading _ (losing 1) rst rfl empty''
  rw [← asks] at waits' still
  exact ⟨look, look', look'', waits', still⟩

theorem forever_waits (n : Nat) : AtStart (forever (4 * n + 6)) .gwait ∧
    ∀ slot, (forever (4 * n + 6)).store.valid slot = false := by
  induction n with
  | zero =>
    constructor
    · constructor <;> decide
    · decide
  | succ n ih =>
    obtain ⟨-, -, -, waits, empty⟩ := losing_round ih.1 ih.2
    have same : 4 * (n + 1) + 6 = 4 * n + 10 := by omega
    rw [same]
    exact ⟨waits, empty⟩

theorem forever_busy {t : Nat} (after : 0 < t) : (forever t).walk.v ≠ .idle := by
  by_cases early : t < 6
  · have first : ∀ t < 6, 0 < t → (forever t).walk.v ≠ .idle := by decide
    exact first t early after
  · obtain ⟨waits, empty⟩ := forever_waits ((t - 6) / 4)
    obtain ⟨look, look', look'', -⟩ := losing_round waits empty
    have place : t = 4 * ((t - 6) / 4) + 6 ∨ t = 4 * ((t - 6) / 4) + 7 ∨ t = 4 * ((t - 6) / 4) + 8 ∨
        t = 4 * ((t - 6) / 4) + 9 := by omega
    rcases place with here | here | here | here
    · rw [here, waits.place]
      decide
    · rw [here, look.place]
      decide
    · rw [here, look'.place]
      decide
    · rw [here, look''.place]
      decide

/-- Every request is answered, the walk starts and never ends. -/
theorem walk_never_returns : Answered forever (fun _ => Copying.reading) losing ∧
    (forever 0).starts Copying.reading = true ∧ ∀ t, 0 < t → (forever t).walk.v ≠ .idle := by
  refine ⟨⟨fun t => ⟨t, Nat.le_refl t, fun _ => rfl⟩, fun t => ?_, fun t => ?_⟩, by decide,
    fun t after => forever_busy after⟩
  · obtain ⟨waits, -⟩ := forever_waits t
    refine ⟨4 * t + 6, by omega, fun _ => Or.inr ?_⟩
    have comes : losing (4 * t + 6) = losing 6 := losing_mod t 6
    unfold Walk.arrives Walk.reqTag
    rw [comes, waits.lba]
    rfl
  · exact ⟨t, Nat.le_refl t, fun _ blocked => absurd blocked.1 Bool.false_ne_true⟩

end Losing

end Walking

end MuirFpga.Quux
