import MuirFpga.Packs.Loss

/-!
# What a request is answered with

`answer` with what became of the request kept in place of its result: served into a slot, denied,
denied because the block could not be fetched, or left standing for the next pass. A request for a
block of a pack in the bay is denied just where the repeat counter says it was served and not
taken. The counter goes up twice for each serving after the first, and nothing but another block's
serving takes it back, so the third request for a block in a row is denied, though its slots were
taken away in between.
-/

namespace MuirFpga.Packs

open Sync

/-- What a pass makes of a request. -/
inductive Outcome
  | served (slot : Slot)
  | denied
  | unread
  | unwritten
  | refused
  deriving DecidableEq

/-- What `answer` returns of it. -/
def Outcome.result : Outcome → Result
  | .served _ => .ok
  | .denied => .ok
  | .unread => .failed
  | .unwritten => .failed
  | .refused => .failed

section

variable (env : Nat → Beat)

/-- `serveInto`, with what became of the request. -/
def serveOutcome (unit : Fin 8) (c h b lba : Nat) (tag : BitVec 31) :
    (tries : Nat) → (skip : List Slot) → Run Outcome
  | 0, _ => do
    let _ ← fail
    return .refused
  | tries + 1, skip => do
    let ref ← psRead env
    match ← nextVictim skip 49 (fun s => ref.getLsbD s) with
    | none =>
      let _ ← fail
      return .refused
    | some v =>
      let dirty ← psDirty env
      match ← clearVictim env dirty v with
      | .walk => serveOutcome unit c h b lba tag tries (v :: skip)
      | .failed => return .unwritten
      | .ok =>
        match ← serveSlot env unit c h b lba v with
        | .walk => serveOutcome unit c h b lba tag tries (v :: skip)
        | .failed =>
          deny env
          return .unread
        | .ok =>
          modify fun w =>
            { w with
              repeatServes := if w.haveLast && w.lastAnswered == tag then w.repeatServes + 1 else 1
              haveLast := true
              lastAnswered := tag }
          return .served v

/-- The end of `answer`: a block served unless it was before and was not taken. -/
def repeatOutcome (unit : Fin 8) (lba : Nat) (tag : BitVec 31) : Run Outcome := do
  let split := psTagSplit tag
  if (← get).haveLast && (← get).lastAnswered == tag then
    modify fun w => { w with repeatServes := w.repeatServes + 1 }
    if (← get).repeatServes ≥ 3 then
      modify fun w => { w with repeatServes := 0 }
      deny env
      let _ ← fail
      return .denied
    else serveOutcome env unit split.2.1 split.2.2.1 split.2.2.2 lba tag 24 []
  else serveOutcome env unit split.2.1 split.2.2.1 split.2.2.2 lba tag 24 []

local instance unitCount : NeZero 8 := ⟨by decide⟩

/-- `answer`, with what became of the request. -/
def answerOutcome (tag : BitVec 31) : Run Outcome := do
  let split := psTagSplit tag
  let unit := if (← get).linear then 0 else split.1
  match (← get).bayPack unit with
  | none =>
    deny env
    return .denied
  | some pk =>
    match askedLba (← get).linear pk tag with
    | none =>
      deny env
      return .denied
    | some lba => repeatOutcome env unit lba tag

theorem serveInto_outcome (unit : Fin 8) (c h b lba : Nat) (tag : BitVec 31) (tries : Nat)
    (skip : List Slot) : serveInto env unit c h b lba tag tries skip =
      Outcome.result <$> serveOutcome env unit c h b lba tag tries skip := by
  induction tries generalizing skip with
  | zero => rfl
  | succ tries ih =>
    unfold serveInto serveOutcome
    rw [map_bind]
    congr 1
    funext ref
    rw [map_bind]
    congr 1
    funext victim
    cases victim with
    | none => rfl
    | some v =>
      dsimp only
      rw [map_bind]
      congr 1
      funext dirty
      rw [map_bind]
      congr 1
      funext cleared
      cases cleared with
      | walk => exact ih (v :: skip)
      | failed => rfl
      | ok =>
        dsimp only
        rw [map_bind]
        congr 1
        funext fetched
        cases fetched with
        | walk => exact ih (v :: skip)
        | failed => rfl
        | ok => rfl

theorem answer_outcome (tag : BitVec 31) :
    answer env tag = Outcome.result <$> answerOutcome env tag := by
  unfold answer answerOutcome
  dsimp only
  rw [map_bind]
  congr 1
  funext first
  rw [map_bind]
  congr 1
  funext second
  cases second.bayPack (if first.linear then 0 else (psTagSplit tag).1) with
  | none => rfl
  | some pk =>
    dsimp only
    rw [map_bind]
    congr 1
    funext third
    cases askedLba third.linear pk tag with
    | none => rfl
    | some lba =>
      unfold repeatOutcome
      dsimp only
      rw [map_bind]
      congr 1
      funext fourth
      rw [map_bind]
      congr 1
      funext fifth
      by_cases same : (fourth.haveLast && fifth.lastAnswered == tag) = true
      · rw [if_pos same, if_pos same, map_bind]
        congr 1
        funext _
        rw [map_bind]
        congr 1
        funext sixth
        by_cases many : sixth.repeatServes ≥ 3
        · rw [if_pos many, if_pos many]
          rfl
        · rw [if_neg many, if_neg many]
          exact serveInto_outcome env _ _ _ _ _ _ _ _
      · rw [if_neg same, if_neg same]
        exact serveInto_outcome env _ _ _ _ _ _ _ _

end

/-- The face says that the slot of a move is the walk's. -/
def Reply.Walks (reply : Reply) : Prop :=
  ∃ move addr, (psRequest move addr reply).1 = .walkSlot

/-- The pack is read, and the face puts the block into the slot or says that the slot is the
walk's. -/
def Beat.Gives (beat : Beat) (slot : Slot) : Prop :=
  beat.readable = true ∧ ((psRequest .fetch (feederFetchAddr slot) beat.reply).1 = .ok ∨
    (psRequest .fetch (feederFetchAddr slot) beat.reply).1 = .walkSlot)

/-- The slot has the block of a unit: by the table, by its tag, and by its last fetch. -/
structure World.Serves (w : World) (slot : Slot) (unit : Fin 8) (pk : Pack) (lba : Nat) : Prop where
  table : w.table slot = some (unit, lba)
  owner : w.face.owner slot = some ⟨pk.id, lba⟩
  fetched : w.fetched slot = some ⟨pk.id, lba⟩

/-- What any part of a service leaves: the bay as it was, and later. -/
structure Follows (w v : World) : Prop where
  drives : v.drives = w.drives
  linear : v.linear = w.linear
  later : w.clock ≤ v.clock

namespace Follows

variable {u v w : World}

theorem refl (w : World) : Follows w w := ⟨rfl, rfl, Nat.le_refl _⟩

theorem trans (first : Follows u v) (second : Follows v w) : Follows u w :=
  ⟨second.drives.trans first.drives, second.linear.trans first.linear,
    Nat.le_trans first.later second.later⟩

theorem bayPack (follows : Follows w v) (unit : Fin 8) : v.bayPack unit = w.bayPack unit := by
  simp only [World.bayPack, follows.drives]

end Follows

theorem walk_clock (w : World) (writes : List (Slot × Record)) :
    (w.walk writes).clock = w.clock ∧ (w.walk writes).fetched = w.fetched := by
  induction writes generalizing w with
  | nil => exact ⟨rfl, rfl⟩
  | cons write rest ih =>
    have first : (w.walkWrite write).clock = w.clock ∧ (w.walkWrite write).fetched = w.fetched := by
      unfold World.walkWrite
      split <;> exact ⟨rfl, rfl⟩
    exact ⟨(ih (w.walkWrite write)).1.trans first.1, (ih (w.walkWrite write)).2.trans first.2⟩

theorem walk_follows (w : World) (writes : List (Slot × Record)) : Follows w (w.walk writes) :=
  ⟨(walk_frame w writes).2.1, (walk_frame w writes).2.2.2.2.2.2.1,
    Nat.le_of_eq (walk_clock w writes).1.symm⟩

section

variable (env : Nat → Beat)

theorem access_follows (w : World) :
    Follows w (access env w).2 ∧ (access env w).2.clock = w.clock + 1 :=
  ⟨⟨(walk_follows w _).drives, (walk_follows w _).linear, Nat.le_succ _⟩, rfl⟩

theorem nextVictim_succ (skip : List Slot) (tries : Nat) (ref : Slot → Bool) (w : World) :
    nextVictim skip (tries + 1) ref w = (if w.hand ∈ skip then nextVictim skip tries ref
      else if ref w.hand then nextVictim skip tries (Function.update ref w.hand false)
      else return some w.hand) { w with hand := w.hand + 1 } := rfl

theorem nextVictim_follows (skip : List Slot) (tries : Nat) (ref : Slot → Bool) (w : World) :
    Follows w (nextVictim skip tries ref w).2 ∧
      ∀ v, (nextVictim skip tries ref w).1 = some v → v ∉ skip := by
  induction tries generalizing ref w with
  | zero => exact ⟨Follows.refl w, fun v found => nomatch found⟩
  | succ tries ih =>
    rw [nextVictim_succ]
    have moved : Follows w { w with hand := w.hand + 1 } := ⟨rfl, rfl, Nat.le_refl _⟩
    split_ifs with skipped marked
    · exact ⟨moved.trans (ih _ _).1, (ih _ _).2⟩
    · exact ⟨moved.trans (ih _ _).1, (ih _ _).2⟩
    · refine ⟨moved, fun v found => ?_⟩
      obtain rfl : w.hand = v := Option.some.inj found
      exact skipped

theorem marked_of_nextVictim (skip : List Slot) (tries : Nat) (ref : Slot → Bool) (w : World)
    (found : (nextVictim skip tries ref w).1 = none) (k : Nat) (within : k < tries)
    (free : w.hand + Fin.ofNat 24 k ∉ skip) : ref (w.hand + Fin.ofNat 24 k) = true := by
  induction tries generalizing ref w k with
  | zero => omega
  | succ tries ih =>
    rw [nextVictim_succ] at found
    cases k with
    | zero =>
      have here : w.hand + Fin.ofNat 24 0 = w.hand := by simp
      rw [here] at free ⊢
      rw [if_neg free] at found
      by_contra unmarked
      rw [if_neg unmarked] at found
      exact nomatch found
    | succ k =>
      have next : w.hand + Fin.ofNat 24 (k + 1) = w.hand + 1 + Fin.ofNat 24 k := by
        apply Fin.ext
        simp only [Fin.val_add, Fin.ofNat]
        omega
      rw [next] at free ⊢
      split_ifs at found with skipped marked
      · exact ih _ { w with hand := w.hand + 1 } found k (by omega) free
      · have still := ih _ { w with hand := w.hand + 1 } found k (by omega) free
        by_cases same : w.hand + 1 + Fin.ofNat 24 k = w.hand
        · rw [same]
          exact marked
        · rwa [Function.update_of_ne same] at still
      · exact nomatch found

theorem skipped_of_nextVictim (skip : List Slot) (tries : Nat) (ref : Slot → Bool) (w : World)
    (found : (nextVictim skip tries ref w).1 = none) (k : Nat) (within : k + 24 < tries) :
    w.hand + Fin.ofNat 24 k ∈ skip := by
  induction tries generalizing ref w k with
  | zero => omega
  | succ tries ih =>
    rw [nextVictim_succ] at found
    cases k with
    | zero =>
      have here : w.hand + Fin.ofNat 24 0 = w.hand := by simp
      rw [here]
      by_contra free
      rw [if_neg free] at found
      split_ifs at found with marked
      · -- A turn later its mark is gone.
        have again : w.hand + 1 + Fin.ofNat 24 23 = w.hand := by
          apply Fin.ext
          simp only [Fin.val_add, Fin.ofNat]
          omega
        have still := marked_of_nextVictim skip tries _ { w with hand := w.hand + 1 } found 23
          (by omega) (by simpa only [again] using free)
        rw [show ({ w with hand := w.hand + 1 } : World).hand = w.hand + 1 from rfl, again,
          Function.update_self] at still
        exact Bool.false_ne_true still
      · exact nomatch found
    | succ k =>
      have next : w.hand + Fin.ofNat 24 (k + 1) = w.hand + 1 + Fin.ofNat 24 k := by
        apply Fin.ext
        simp only [Fin.val_add, Fin.ofNat]
        omega
      rw [next]
      split_ifs at found with skipped marked
      · exact ih _ { w with hand := w.hand + 1 } found k (by omega)
      · exact ih _ { w with hand := w.hand + 1 } found k (by omega)
      · exact nomatch found

theorem skipped_of_none (skip : List Slot) (ref : Slot → Bool) (w : World)
    (found : (nextVictim skip 49 ref w).1 = none) (s : Slot) : s ∈ skip := by
  have place : w.hand + Fin.ofNat 24 (s - w.hand).val = s := by
    apply Fin.ext
    simp only [Fin.val_add, Fin.ofNat, Fin.sub_def]
    omega
  rw [← place]
  exact skipped_of_nextVictim skip 49 ref w found _ (by omega)

/-- What a part of a service leaves that has made an access. -/
def Later (w v : World) : Prop := Follows w v ∧ w.clock < v.clock

theorem Later.on {u v w : World} (later : Later w u) (drives : v.drives = u.drives)
    (linear : v.linear = u.linear) (clock : v.clock = u.clock) : Later w v :=
  ⟨later.1.trans ⟨drives, linear, Nat.le_of_eq clock.symm⟩, clock ▸ later.2⟩

theorem Later.walk {u w : World} (later : Later w u) (writes : List (Slot × Record)) :
    Later w (u.walk writes) :=
  later.on (walk_follows u writes).drives (walk_follows u writes).linear (walk_clock u writes).1

/-- What a move that may meet the walk's slot leaves: one that did was told so by the answer to
its access. -/
def Turned (w : World) (result : Result) (v : World) : Prop :=
  Follows w v ∧ (result = .walk → w.clock < v.clock ∧ (env w.clock).reply.Walks)

theorem leaves_fail (w : World) : Leaves (Follows w) fail (Turned env w) := fun _ follows =>
  ⟨⟨follows.drives, follows.linear, follows.later⟩, fun walks => Result.noConfusion walks⟩

theorem turned_of_follows {w v : World} (follows : Follows w v) {result : Result}
    (other : result ≠ .walk) : Turned env w result v := ⟨follows, fun walks => absurd walks other⟩

theorem keeps_packWriteback (w : World) (pk : Pack) (lba : Nat) (record : Record) (file : FileOp) :
    Keeps (Follows w) (packWriteback pk lba record file) := by
  refine keeps_ite (fun _ => keeps_pure _) fun _ => ?_
  cases file with
  | done => exact fun u follows => ⟨follows.drives, follows.linear, follows.later⟩
  | failed left => exact fun u follows => ⟨follows.drives, follows.linear, follows.later⟩

theorem leaves_walk (w : World) (walks : (env w.clock).reply.Walks) :
    Leaves (Later w) (pure .walk) (Turned env w) :=
  leaves_pure fun _ later => ⟨later.1, fun _ => ⟨later.2, walks⟩⟩

theorem leaves_writebackAnswered (w : World) (slot : Slot) (pk : Pack) (lba : Nat) :
    Leaves (Later w) (writebackAnswered slot pk lba (env w.clock)) (Turned env w) := by
  have failed : Leaves (Later w) fail (Turned env w) := fun u later =>
    leaves_fail env w u later.1
  refine leaves_get fun read => ?_
  refine leaves_modify_bind (fun u later => later.on rfl rfl rfl) ?_
  refine leaves_modify_bind (fun u later => later.walk _) ?_
  generalize answered : psRequest .write (feederWbAddr slot) (env w.clock).reply = result
  obtain ⟨result, st⟩ := result
  cases result with
  | walkSlot => exact leaves_walk env w ⟨_, _, congrArg Prod.fst answered⟩
  | ok =>
    refine leaves_ite (fun _ => failed) fun _ => leaves_ite (fun _ => failed) fun _ => ?_
    have put : Leaves (Later w) (packWriteback pk lba (areaRecord (env w.clock) slot
        (read.face.content slot)) (env w.clock).file) fun _ => Follows w :=
      fun u later => keeps_packWriteback w pk lba _ _ u later.1
    refine leaves_bind put fun done => ?_
    refine leaves_ite (fun _ => leaves_pure fun u follows => ?_) fun _ => leaves_fail env w
    exact turned_of_follows env follows (by decide)
  | _ => exact failed

theorem feederWriteback_turned (slot : Slot) (w : World) :
    Turned env w (feederWriteback env slot w).1 (feederWriteback env slot w).2 := by
  cases known : w.table slot with
  | none =>
    rw [feederWriteback_eq, known]
    exact leaves_fail env w w (Follows.refl w)
  | some entry =>
    obtain ⟨unit, lba⟩ := entry
    rw [feederWriteback_known env known]
    cases w.bayPack unit with
    | none => exact leaves_fail env w w (Follows.refl w)
    | some pk =>
      have accessed : Later w (access env w).2 :=
        ⟨(access_follows env w).1, Nat.lt_of_lt_of_eq (Nat.lt_succ_self _)
          (access_follows env w).2.symm⟩
      have moved : Leaves (Later w) (writebackMoved slot pk lba (env w.clock)) (Turned env w) :=
        leaves_modify_bind (fun u later => later.on rfl rfl rfl)
          (leaves_writebackAnswered env w slot pk lba)
      exact moved _ accessed

/-- What a fetch leaves: the block in the slot, the walk's slot met, or an access before that
could not give the block. -/
def Fetched (w : World) (unit : Fin 8) (pk : Pack) (lba : Nat) (slot : Slot) (result : Result)
    (v : World) : Prop :=
  Turned env w result v ∧ (result = .ok → v.Serves slot unit pk lba) ∧
    (result = .failed → ¬ (env (v.clock - 1)).Gives slot)

/-- The access of a fetch is made, and the block noted and put into the slot if the move went to
its end. -/
structure Filled (w : World) (pk : Pack) (lba : Nat) (slot : Slot) (v : World) : Prop where
  later : Later w v
  clock : v.clock = w.clock + 1
  fetched : (env w.clock).reply.completes = true → v.fetched slot = some ⟨pk.id, lba⟩
  owner : (env w.clock).reply.completes = true → v.face.owner slot = some ⟨pk.id, lba⟩

theorem leaves_fetchMoved (w : World) (unit : Fin 8) (pk : Pack) (lba : Nat) (slot : Slot) :
    Leaves (fun v => Later w v ∧ v.clock = w.clock + 1)
      (fetchMoved unit pk lba slot (env w.clock)) (Fetched env w unit pk lba slot) := by
  have done := psRequest_ok_iff .fetch (feederFetchAddr slot) (env w.clock).reply
  have noted : Leaves (fun v => Later w v ∧ v.clock = w.clock + 1)
      (modify fun v : World => { v with
        fetched := if (env w.clock).reply.taken then
          Function.update v.fetched slot (some ⟨pk.id, lba⟩) else v.fetched })
      fun _ v => Later w v ∧ v.clock = w.clock + 1 ∧
        ((env w.clock).reply.completes = true → v.fetched slot = some ⟨pk.id, lba⟩) := by
    rintro v ⟨later, clock⟩
    refine ⟨later.on rfl rfl rfl, clock, fun completes => ?_⟩
    change (if (env w.clock).reply.taken = true then
      Function.update v.fetched slot (some ⟨pk.id, lba⟩) else v.fetched) slot = _
    rw [if_pos (landed_of_completes completes).1, Function.update_self]
  refine leaves_bind noted fun _ => ?_
  have moved : Leaves (fun v => Later w v ∧ v.clock = w.clock + 1 ∧
      ((env w.clock).reply.completes = true → v.fetched slot = some ⟨pk.id, lba⟩))
      (modify fun v : World => v.moved (env w.clock).reply (.drops (v.owed slot))
        (v.face.request .fetch slot ⟨pk.id, lba⟩ (v.media ⟨pk.id, lba⟩) (env w.clock).reply))
      fun _ => Filled env w pk lba slot := by
    rintro v ⟨later, clock, fetched⟩
    refine ⟨later.on rfl rfl rfl, clock, fetched, fun completes => ?_⟩
    obtain ⟨taken, landed⟩ := landed_of_completes completes
    change (v.face.request .fetch slot ⟨pk.id, lba⟩ (v.media ⟨pk.id, lba⟩)
      (env w.clock).reply).owner slot = _
    simp [Face.request, Face.fill, taken, landed]
  refine leaves_bind moved fun _ => ?_
  have walked : ∀ v : World, Filled env w pk lba slot v →
      Filled env w pk lba slot (v.walk (env w.clock).after) := fun v filled =>
    ⟨filled.later.walk _, (walk_clock _ _).1.trans filled.clock,
      fun completes => by rw [(walk_clock _ _).2, filled.fetched completes],
      fun completes => by rw [(walk_frame _ _).2.2.2.2.2.1, filled.owner completes]⟩
  refine leaves_modify_bind walked ?_
  generalize answered : psRequest .fetch (feederFetchAddr slot) (env w.clock).reply = result at done
  obtain ⟨result, st⟩ := result
  have failed : result ≠ .ok → result ≠ .walkSlot → ∀ v : World, Later w v →
      v.clock = w.clock + 1 → Fetched env w unit pk lba slot .failed v := by
    intro unfit unmet v later clock
    refine ⟨turned_of_follows env later.1 (by decide), fun ok => Result.noConfusion ok,
      fun _ gives => ?_⟩
    rw [clock, Nat.add_sub_cancel] at gives
    rw [Beat.Gives, answered] at gives
    exact gives.2.elim unfit unmet
  have refuses : result ≠ .ok → result ≠ .walkSlot →
      Leaves (Filled env w pk lba slot) (if st.getLsbD 3 then fail else do
        modify fun w : World => w.forget slot
        fail) (Fetched env w unit pk lba slot) := by
    intro unfit unmet
    refine leaves_ite (fun _ => ?_) fun _ => ?_
    · exact fun v filled => failed unfit unmet _ (filled.later.on rfl rfl rfl) filled.clock
    · exact fun v filled => failed unfit unmet _ (filled.later.on rfl rfl rfl) filled.clock
  cases result with
  | walkSlot =>
    refine leaves_pure fun v filled => ⟨⟨filled.later.1, fun _ =>
      ⟨filled.later.2, _, _, congrArg Prod.fst answered⟩⟩, fun ok => Result.noConfusion ok,
      fun bad => Result.noConfusion bad⟩
  | ok =>
    intro v filled
    have completes := done.1 rfl
    have claimed : Later w (v.claim slot (unit, lba)) := filled.later.on rfl rfl rfl
    have table : (v.claim slot (unit, lba)).table slot = some (unit, lba) := by simp [World.claim]
    exact ⟨⟨claimed.1, fun walks => Result.noConfusion walks⟩,
      fun _ => ⟨table, filled.owner completes, filled.fetched completes⟩,
      fun bad => Result.noConfusion bad⟩
  | _ => exact refuses (by decide) (by decide)

theorem serveRecord_fetched (unit : Fin 8) (pk : Pack) (lba : Nat) (inside : lba < pk.blocks)
    (slot : Slot) (w : World) :
    Fetched env w unit pk lba slot (serveRecord env unit pk lba slot w).1
      (serveRecord env unit pk lba slot w).2 := by
  have accessed : Later w (access env w).2 ∧ (access env w).2.clock = w.clock + 1 :=
    ⟨⟨(access_follows env w).1, by rw [(access_follows env w).2]; omega⟩, (access_follows env w).2⟩
  have served : Leaves (fun v => Later w v ∧ v.clock = w.clock + 1)
      (if lba ≥ pk.blocks ∨ (env w.clock).readable = false then fail
        else fetchMoved unit pk lba slot (env w.clock)) (Fetched env w unit pk lba slot) := by
    refine leaves_ite (fun bad => ?_) fun _ => leaves_fetchMoved env w unit pk lba slot
    rintro v ⟨later, clock⟩
    refine ⟨leaves_fail env w v later.1, fun ok => Result.noConfusion ok, fun _ gives => ?_⟩
    have unread := bad.resolve_left (by omega)
    have same : (fail v).2.clock - 1 = w.clock := by
      change v.clock - 1 = w.clock
      omega
    rw [same] at gives
    exact Bool.false_ne_true (unread.symm.trans gives.1)
  exact served _ accessed

local instance driveUnits : NeZero 8 := ⟨by decide⟩

/-- A block asked for in the bay's own way: by its number, or by its address on its pack. -/
def Asks (linear : Bool) (unit : Fin 8) (pk : Pack) (c h b lba : Nat) : Prop :=
  lba < pk.blocks ∧ if linear then unit = 0 else packLba pk.geometry c h b = some lba

theorem serveSlot_fetched {unit : Fin 8} {pk : Pack} {c h b lba : Nat} (slot : Slot) {w : World}
    (there : w.bayPack unit = some pk) (asks : Asks w.linear unit pk c h b lba) :
    Fetched env w unit pk lba slot (serveSlot env unit c h b lba slot w).1
      (serveSlot env unit c h b lba slot w).2 := by
  obtain ⟨inside, place⟩ := asks
  have served := serveRecord_fetched env unit pk lba inside slot w
  change Fetched env w unit pk lba slot
    ((if w.linear then feederServeLba env lba slot else feederServe env unit c h b slot) w).1
    ((if w.linear then feederServeLba env lba slot else feederServe env unit c h b slot) w).2
  split_ifs at place ⊢ with linear
  · subst place
    change Fetched env w 0 pk lba slot ((match w.bayPack 0 with
      | none => fail
      | some pk => if lba ≥ pk.blocks then fail else serveRecord env 0 pk lba slot) w).1
      ((match w.bayPack 0 with
      | none => fail
      | some pk => if lba ≥ pk.blocks then fail else serveRecord env 0 pk lba slot) w).2
    have within : ¬ lba ≥ pk.blocks := by omega
    simp only [there, if_neg within]
    exact served
  · change Fetched env w unit pk lba slot ((match w.bayPack unit with
      | none => fail
      | some pk => match packLba pk.geometry c h b with
        | none => fail
        | some lba => serveRecord env unit pk lba slot) w).1
      ((match w.bayPack unit with
      | none => fail
      | some pk => match packLba pk.geometry c h b with
        | none => fail
        | some lba => serveRecord env unit pk lba slot) w).2
    simp only [there, place]
    exact served

/-- What becomes of a request that is served: the block is in the slot; or the last fetch could
not give it; or the victim's write-back failed; or the walk was on every slot in its turn. -/
def Answered (start : Nat) (unit : Fin 8) (pk : Pack) (lba : Nat) (outcome : Outcome)
    (v : World) : Prop :=
  match outcome with
  | .served slot => v.Serves slot unit pk lba
  | .denied => False
  | .unread => ∃ slot, ¬ (env (v.clock - 2)).Gives slot
  | .unwritten => ∃ slot u, feederWriteback env slot u = (.failed, v)
  | .refused => ∃ met : Slot → Nat, Function.Injective met ∧
      ∀ s, start ≤ met s ∧ met s < v.clock ∧ (env (met s)).reply.Walks

/-- A service under way: the bay is as it was, and the slots it is to pass were the walk's, each
at an access of its own. -/
structure Ready (w : World) (skip : List Slot) (v : World) : Prop where
  follows : Follows w v
  apart : skip.Nodup
  met : ∃ met : Slot → Nat, (∀ s ∈ skip, ∀ s' ∈ skip, met s = met s' → s = s') ∧
    ∀ s ∈ skip, w.clock ≤ met s ∧ met s < v.clock ∧ (env (met s)).reply.Walks

variable {env}

theorem ready_start (w : World) : Ready env w [] w :=
  ⟨Follows.refl w, List.nodup_nil, fun _ => 0, by simp, by simp⟩

theorem Ready.on {w u v : World} {skip : List Slot} (ready : Ready env w skip u)
    (follows : Follows u v) : Ready env w skip v := by
  obtain ⟨met, injective, walks⟩ := ready.met
  refine ⟨ready.follows.trans follows, ready.apart, met, injective, fun s skipped => ?_⟩
  obtain ⟨after, before, walk⟩ := walks s skipped
  exact ⟨after, Nat.lt_of_lt_of_le before follows.later, walk⟩

theorem Ready.pass {w u v : World} {skip : List Slot} (ready : Ready env w skip u) {slot : Slot}
    (other : slot ∉ skip) (turned : Turned env u .walk v) : Ready env w (slot :: skip) v := by
  obtain ⟨met, injective, walks⟩ := ready.met
  obtain ⟨later, walk⟩ := turned.2 rfl
  have kept : ∀ s ∈ skip, Function.update met slot u.clock s = met s := fun s skipped =>
    Function.update_of_ne (ne_of_mem_of_not_mem skipped other) _ _
  refine ⟨ready.follows.trans turned.1, List.nodup_cons.2 ⟨other, ready.apart⟩,
    Function.update met slot u.clock, ?_, ?_⟩
  · intro s here s' there same
    obtain rfl | skipped := List.mem_cons.1 here
    · obtain rfl | skipped' := List.mem_cons.1 there
      · rfl
      · rw [Function.update_self, kept s' skipped'] at same
        have before := (walks s' skipped').2.1
        omega
    · obtain rfl | skipped' := List.mem_cons.1 there
      · rw [Function.update_self, kept s skipped] at same
        have before := (walks s skipped).2.1
        omega
      · rw [kept s skipped, kept s' skipped'] at same
        exact injective s skipped s' skipped' same
  · intro s here
    obtain rfl | skipped := List.mem_cons.1 here
    · rw [Function.update_self]
      exact ⟨ready.follows.later, later, walk⟩
    · rw [kept s skipped]
      obtain ⟨after, before, walk⟩ := walks s skipped
      exact ⟨after, Nat.lt_of_lt_of_le before turned.1.later, walk⟩

theorem Ready.refused {w v : World} {skip : List Slot} (ready : Ready env w skip v)
    (all : ∀ s, s ∈ skip) (unit : Fin 8) (pk : Pack) (lba : Nat) :
    Answered env w.clock unit pk lba .refused (fail v).2 := by
  obtain ⟨met, injective, walks⟩ := ready.met
  exact ⟨met, fun s s' same => injective s (all s) s' (all s') same, fun s => walks s (all s)⟩

theorem leaves_clearVictim (w : World) (skip : List Slot) {slot : Slot} (other : slot ∉ skip)
    (dirty : Slot → Bool) :
    Leaves (Ready env w skip) (clearVictim env dirty slot) fun result v =>
      (result = .walk → Ready env w (slot :: skip) v) ∧ (result = .ok → Ready env w skip v) ∧
        (result = .failed → ∃ u, feederWriteback env slot u = (.failed, v)) := by
  refine leaves_ite (fun _ => fun v ready => ?_) fun _ => leaves_pure fun v ready => ?_
  · have turned := feederWriteback_turned env slot v
    refine ⟨fun walks => ready.pass other ?_, fun _ => ready.on turned.1,
      fun failed => ⟨v, Prod.ext failed rfl⟩⟩
    rwa [walks] at turned
  · exact ⟨fun walks => Result.noConfusion walks, fun _ => ready,
      fun failed => Result.noConfusion failed⟩

theorem leaves_serveOutcome {w : World} {unit : Fin 8} {pk : Pack} {c h b lba : Nat}
    (there : w.bayPack unit = some pk) (asks : Asks w.linear unit pk c h b lba) (tag : BitVec 31)
    (tries : Nat) (skip : List Slot) (left : skip.length + tries = 24) :
    Leaves (Ready env w skip) (serveOutcome env unit c h b lba tag tries skip)
      (Answered env w.clock unit pk lba) := by
  induction tries generalizing skip with
  | zero =>
    intro v ready
    refine ready.refused (fun s => ?_) unit pk lba
    have card : skip.toFinset.card = Fintype.card Slot := by
      rw [List.toFinset_card_of_nodup ready.apart, Fintype.card_fin]
      omega
    rw [← List.mem_toFinset, (Finset.card_eq_iff_eq_univ _).1 card]
    exact Finset.mem_univ s
  | succ tries ih =>
    have accessed : Keeps (Ready env w skip) (access env) := fun v ready =>
      ready.on (access_follows env v).1
    refine leaves_bind (keeps_bind accessed fun _ => keeps_pure _).leaves fun ref => ?_
    have searched : Leaves (Ready env w skip) (nextVictim skip 49 fun s => ref.getLsbD s)
        fun victim v => Ready env w skip v ∧ (victim = none → ∀ s, s ∈ skip) ∧
          ∀ s, victim = some s → s ∉ skip := fun v ready =>
      ⟨ready.on (nextVictim_follows skip 49 _ v).1, fun found => skipped_of_none skip _ v found,
        (nextVictim_follows skip 49 _ v).2⟩
    refine leaves_bind searched fun victim => ?_
    cases victim with
    | none => exact fun v ready => ready.1.refused (ready.2.1 rfl) unit pk lba
    | some slot =>
      intro v found
      have other := found.2.2 slot rfl
      have fewer : (slot :: skip).length + tries = 24 := by
        rw [List.length_cons]
        omega
      have served : Leaves (Ready env w skip) (serveSlot env unit c h b lba slot)
          fun result v => (result = .walk → Ready env w (slot :: skip) v) ∧
            (result = .ok → v.Serves slot unit pk lba) ∧
            (result = .failed → ¬ (env (v.clock - 1)).Gives slot) := by
        intro v ready
        have fetched := serveSlot_fetched env slot ((ready.follows.bayPack unit).trans there)
          (by rw [ready.follows.linear]; exact asks)
        refine ⟨fun walks => ready.pass other ?_, fetched.2.1, fetched.2.2⟩
        have turned := fetched.1
        rwa [walks] at turned
      refine leaves_bind (keeps_bind accessed fun _ => keeps_get fun _ held => held).leaves
        (fun dirty => ?_) v found.1
      refine leaves_bind (leaves_clearVictim w skip other dirty) fun cleared => ?_
      cases cleared with
      | walk => exact fun v left => ih _ fewer v (left.1 rfl)
      | failed => exact leaves_pure fun v left => ⟨slot, left.2.2 rfl⟩
      | ok =>
        refine leaves_bind (served.begun fun v left => left.2.1 rfl) fun result => ?_
        cases result with
        | walk => exact fun v left => ih _ fewer v (left.1 rfl)
        | failed => exact fun v left => ⟨slot, left.2.2 rfl⟩
        | ok => exact fun v left => ⟨(left.2.1 rfl).table, (left.2.1 rfl).owner, (left.2.1 rfl).fetched⟩

theorem asks_of_askedLba {w : World} {unit : Fin 8} {pk : Pack} {lba : Nat} {tag : BitVec 31}
    (whose : unit = if w.linear then 0 else (psTagSplit tag).1)
    (asked : askedLba w.linear pk tag = some lba) (inside : lba < pk.blocks) :
    Asks w.linear unit pk (psTagSplit tag).2.1 (psTagSplit tag).2.2.1 (psTagSplit tag).2.2.2 lba := by
  refine ⟨inside, ?_⟩
  unfold askedLba at asked
  split_ifs at whose asked ⊢ with linear
  · exact whose
  · exact asked

/-- The request was served twice in a row, as the counter has it. -/
def World.Repeats (w : World) (tag : BitVec 31) : Prop :=
  w.haveLast = true ∧ w.lastAnswered = tag ∧ 2 ≤ w.repeatServes

theorem repeatOutcome_eq (unit : Fin 8) (lba : Nat) (tag : BitVec 31) (w : World) :
    repeatOutcome env unit lba tag w =
      if (w.haveLast && w.lastAnswered == tag) = true then
        if w.repeatServes + 1 ≥ 3 then
          (.denied, (fail (deny env { w with repeatServes := 0 }).2).2)
        else serveOutcome env unit (psTagSplit tag).2.1 (psTagSplit tag).2.2.1
          (psTagSplit tag).2.2.2 lba tag 24 [] { w with repeatServes := w.repeatServes + 1 }
      else serveOutcome env unit (psTagSplit tag).2.1 (psTagSplit tag).2.2.1
        (psTagSplit tag).2.2.2 lba tag 24 [] w := by
  change (if (w.haveLast && w.lastAnswered == tag) = true then
    modify (fun w : World => { w with repeatServes := w.repeatServes + 1 }) >>= fun _ =>
      get >>= fun w : World => if w.repeatServes ≥ 3 then
        modify (fun w : World => { w with repeatServes := 0 }) >>= fun _ =>
          deny env >>= fun _ => fail >>= fun _ => pure .denied
      else serveOutcome env unit (psTagSplit tag).2.1 (psTagSplit tag).2.2.1
        (psTagSplit tag).2.2.2 lba tag 24 []
    else serveOutcome env unit (psTagSplit tag).2.1 (psTagSplit tag).2.2.1
      (psTagSplit tag).2.2.2 lba tag 24 [] : Run Outcome) w = _
  by_cases same : (w.haveLast && w.lastAnswered == tag) = true
  · rw [if_pos same, if_pos same]
    change (if w.repeatServes + 1 ≥ 3 then
      modify (fun w : World => { w with repeatServes := 0 }) >>= fun _ =>
        deny env >>= fun _ => fail >>= fun _ => pure .denied
      else serveOutcome env unit (psTagSplit tag).2.1 (psTagSplit tag).2.2.1
        (psTagSplit tag).2.2.2 lba tag 24 [] : Run Outcome)
      { w with repeatServes := w.repeatServes + 1 } = _
    split_ifs <;> rfl
  · rw [if_neg same, if_neg same]

theorem answerOutcome_eq {w : World} {unit : Fin 8} {pk : Pack} {lba : Nat} {tag : BitVec 31}
    (whose : unit = if w.linear then 0 else (psTagSplit tag).1)
    (there : w.bayPack unit = some pk) (asked : askedLba w.linear pk tag = some lba) :
    answerOutcome env tag w = repeatOutcome env unit lba tag w := by
  change (match w.bayPack (if w.linear then 0 else (psTagSplit tag).1) with
    | none => deny env >>= fun _ => pure .denied
    | some pk => get >>= fun v : World => match askedLba v.linear pk tag with
      | none => deny env >>= fun _ => pure .denied
      | some lba => repeatOutcome env (if w.linear then 0 else (psTagSplit tag).1) lba tag :
        Run Outcome) w = _
  rw [← whose, there]
  change (match askedLba w.linear pk tag with
    | none => deny env >>= fun _ => pure .denied
    | some lba => repeatOutcome env unit lba tag : Run Outcome) w = _
  rw [asked]

/-- A request for a block that a pack in the bay has: denied where the counter says so, and
otherwise served, or its block cannot be fetched, or it stands. -/
theorem answerOutcome_spec (env : Nat → Beat) {w : World} {unit : Fin 8} {pk : Pack} {lba : Nat} {tag : BitVec 31}
    (whose : unit = if w.linear then 0 else (psTagSplit tag).1)
    (there : w.bayPack unit = some pk) (asked : askedLba w.linear pk tag = some lba)
    (inside : lba < pk.blocks) :
    (w.Repeats tag → (answerOutcome env tag w).1 = .denied) ∧
      (¬ w.Repeats tag → Answered env w.clock unit pk lba (answerOutcome env tag w).1
        (answerOutcome env tag w).2) := by
  have asks := asks_of_askedLba whose asked inside
  rw [answerOutcome_eq whose there asked, repeatOutcome_eq]
  by_cases same : (w.haveLast && w.lastAnswered == tag) = true
  · rw [if_pos same]
    simp only [Bool.and_eq_true, beq_iff_eq] at same
    by_cases many : w.repeatServes + 1 ≥ 3
    · rw [if_pos many]
      exact ⟨fun _ => rfl, fun fresh => absurd ⟨same.1, same.2, by omega⟩ fresh⟩
    · rw [if_neg many]
      refine ⟨fun repeats => absurd repeats.2.2 (by omega), fun _ => ?_⟩
      have counted : ({ w with repeatServes := w.repeatServes + 1 } : World).bayPack unit = some pk :=
        there
      exact leaves_serveOutcome counted asks tag 24 [] rfl _ (ready_start _)
  · rw [if_neg same]
    refine ⟨fun repeats => absurd ?_ same, fun _ => ?_⟩
    · simp [repeats.1, repeats.2.1]
    · exact leaves_serveOutcome there asks tag 24 [] rfl w (ready_start w)

/-- The two reads of a pass before the request is answered, and the request they find. -/
def standing (env : Nat → Beat) : Run (BitVec 32) := do
  let _ ← psRead env
  psRead env

theorem feederPoll_standing (env : Nat → Beat) (w : World) :
    feederPoll env w = (answerStanding env (standing env w).1 >>= fun result =>
      if result = .failed then return .failed
      else psDirty env >>= fun dirty => passDirty env dirty (List.finRange 24))
        (standing env w).2 := rfl

/-- In every run, the request that a pass finds for a block of a pack in the bay is served, or its
last fetch does not give it, or the victim cannot be written back, or the walk is on every slot:
but where the repeat counter says it was served twice already, and there it is denied. -/
theorem answered_iff_not_repeats (env : Nat → Beat) (ops : List Op) (w : World) (req : BitVec 32)
    (v : World) (found : standing env (ran env ops w) = (req, v)) (stands : req.getLsbD 31 = true)
    (unit : Fin 8) (pk : Pack) (lba : Nat)
    (whose : unit = if v.linear then 0 else (psTagSplit (req.extractLsb' 0 31)).1)
    (there : v.bayPack unit = some pk)
    (asked : askedLba v.linear pk (req.extractLsb' 0 31) = some lba) (inside : lba < pk.blocks) :
    ∃ outcome after, answerOutcome env (req.extractLsb' 0 31) v = (outcome, after) ∧
      answerStanding env req v = (outcome.result, after) ∧
      feederPoll env (ran env ops w) = (if outcome.result = .failed then return .failed
        else psDirty env >>= fun dirty => passDirty env dirty (List.finRange 24) : Run Result) after ∧
      (Answered env v.clock unit pk lba outcome after ↔ ¬ v.Repeats (req.extractLsb' 0 31)) ∧
      (outcome = .denied ↔ v.Repeats (req.extractLsb' 0 31)) := by
  obtain ⟨repeated, fresh⟩ := answerOutcome_spec env whose there asked inside
  have answered : answerStanding env req v =
      ((answerOutcome env (req.extractLsb' 0 31) v).1.result,
        (answerOutcome env (req.extractLsb' 0 31) v).2) := by
    unfold answerStanding
    rw [if_pos stands, answer_outcome]
    rfl
  refine ⟨(answerOutcome env (req.extractLsb' 0 31) v).1,
    (answerOutcome env (req.extractLsb' 0 31) v).2, rfl, answered, ?_,
    ⟨fun held repeats => ?_, fresh⟩, fun denied => ?_, repeated⟩
  · rw [feederPoll_standing, found]
    change (fun r : Result × World => (if r.1 = .failed then return .failed
      else psDirty env >>= fun dirty => passDirty env dirty (List.finRange 24) : Run Result) r.2)
        (answerStanding env req v) = _
    rw [answered]
  · rw [repeated repeats] at held
    exact held
  · by_contra new
    have held := fresh new
    rw [denied] at held
    exact held

/-- A pack of one block in drive 0 that is taken out and put back again and again, and its block
asked for each time; the pack is read and the face takes every fetch. -/
def reinserted (clock : Nat) : Beat where
  before := []
  after := []
  reply := .runs 0 false
  word := 0x80000000#32
  area := fun _ => 0#32
  pad := 0#32
  file := .done
  readable := true
  look :=
    { there := decide (clock % 30 = 27), isPack := true, readOnly := false, dev := 0, ino := 0,
      size := 1024 }
  alive := true
  opens := some (⟨1, 1, 1⟩, 1)
  reopens := true

/-- The changes of the pack, with the first two requests. -/
def changes : List Op := [.poll, .bayScan, .bayScan, .poll, .bayScan, .bayScan]

/-- What the second request finds, the pack taken out and put back in since the first. -/
def second : BitVec 32 × World := standing reinserted (ran reinserted (changes.take 3) blank)

/-- The block asked for again is served. -/
theorem answered_again :
    ∃ pk, second.2.bayPack 0 = some pk ∧ second.2.haveLast = true ∧ ∃ outcome after,
      answerStanding reinserted 0x80000000#32 second.2 = (Outcome.result outcome, after) ∧
      Answered reinserted second.2.clock 0 pk 0 outcome after := by
  obtain ⟨pk, there⟩ := Option.isSome_iff_exists.1
    (show (second.2.bayPack 0).isSome = true by decide +kernel)
  have shape : (second.2.bayPack 0).map (fun pk => (askedLba second.2.linear pk 0#31, pk.blocks)) =
      some (some 0, 1) := by decide +kernel
  rw [there] at shape
  obtain ⟨asked, blocks⟩ := Prod.mk.inj (Option.some.inj shape)
  have found : second.1 = 0x80000000#32 := by decide +kernel
  obtain ⟨outcome, after, -, result, -, answered, -⟩ := answered_iff_not_repeats reinserted
    (changes.take 3) blank 0x80000000#32 second.2 (Prod.ext found rfl) (by decide) 0 pk 0
    (by decide +kernel) there asked (by omega)
  have few : second.2.haveLast = true ∧ ¬ 2 ≤ second.2.repeatServes := by decide +kernel
  exact ⟨pk, there, few.1, outcome, after, result, answered.2 fun repeats => few.2 repeats.2.2⟩

/-- Asked for a third time, the pack taken out and put back in between each time, it is denied. -/
theorem denied_after_changes :
    Booted blank ∧ (∀ t slot, (reinserted t).Gives slot) ∧
    (standing reinserted (ran reinserted changes blank)).1 = 0x80000000#32 ∧
    (∃ pk, (standing reinserted (ran reinserted changes blank)).2.bayPack 0 = some pk ∧
      askedLba (standing reinserted (ran reinserted changes blank)).2.linear pk 0#31 = some 0 ∧
      0 < pk.blocks) ∧
    (∀ s, (standing reinserted (ran reinserted changes blank)).2.face.owner s = none) ∧
    (answerOutcome reinserted 0#31 (standing reinserted (ran reinserted changes blank)).2).1 =
      .denied := by
  refine ⟨booted_blank, fun t slot => ⟨rfl, .inl ((psRequest_ok_iff _ _ _).2 rfl)⟩,
    by decide +kernel, ?_, by decide +kernel, by decide +kernel⟩
  obtain ⟨pk, there⟩ := Option.isSome_iff_exists.1 (show
    ((standing reinserted (ran reinserted changes blank)).2.bayPack 0).isSome = true by
      decide +kernel)
  have shape : ((standing reinserted (ran reinserted changes blank)).2.bayPack 0).map (fun pk =>
      (askedLba (standing reinserted (ran reinserted changes blank)).2.linear pk 0#31,
        pk.blocks)) = some (some 0, 1) := by decide +kernel
  rw [there] at shape
  obtain ⟨asked, blocks⟩ := Prod.mk.inj (Option.some.inj shape)
  exact ⟨pk, there, asked, by omega⟩

end

end MuirFpga.Packs
