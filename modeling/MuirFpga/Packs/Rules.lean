import MuirFpga.Packs.Feeder
import MuirFpga.Sync.Keeps

/-!
# What the program keeps if its moves keep it

A property that an access, a write-back, a serving, a unit's take-away and a look at one name of
the bay keep, and that reads none of the program's own bookkeeping, is kept by every call.
-/

namespace MuirFpga.Packs

open Sync

/-- What such a property reads of a world: everything but the hand, the last answer, the tallies
and the clock. -/
def World.shown (w : World) : Face × Bool × (Slot → Option (Fin 8 × Nat)) ×
    (Fin 8 → Option Drive) × Nat × (Block → Record) × (Block → Option Record) × List Block ×
    List Event × (Slot → Option Block) × List Placing :=
  (w.face, w.linear, w.table, w.drives, w.opened, w.media, w.last, w.counted, w.log, w.fetched,
    w.placed)

theorem walk_frame (w : World) (writes : List (Slot × Record)) :
    (w.walk writes).table = w.table ∧ (w.walk writes).drives = w.drives ∧
      (w.walk writes).media = w.media ∧ (w.walk writes).counted = w.counted ∧
      (w.walk writes).log = w.log ∧ (w.walk writes).face.owner = w.face.owner ∧
      (w.walk writes).linear = w.linear ∧ (w.walk writes).opened = w.opened := by
  induction writes generalizing w with
  | nil => exact ⟨rfl, rfl, rfl, rfl, rfl, rfl, rfl, rfl⟩
  | cons write rest ih =>
    have first : (w.walkWrite write).table = w.table ∧ (w.walkWrite write).drives = w.drives ∧
        (w.walkWrite write).media = w.media ∧ (w.walkWrite write).counted = w.counted ∧
        (w.walkWrite write).log = w.log ∧ (w.walkWrite write).face.owner = w.face.owner ∧
        (w.walkWrite write).linear = w.linear ∧ (w.walkWrite write).opened = w.opened := by
      unfold World.walkWrite
      split <;> exact ⟨rfl, rfl, rfl, rfl, rfl, rfl, rfl, rfl⟩
    obtain ⟨table, drives, media, counted, log, owner, linear, opened⟩ := ih (w.walkWrite write)
    rw [first.1] at table
    rw [first.2.1] at drives
    rw [first.2.2.1] at media
    rw [first.2.2.2.1] at counted
    rw [first.2.2.2.2.1] at log
    rw [first.2.2.2.2.2.1] at owner
    rw [first.2.2.2.2.2.2.1] at linear
    rw [first.2.2.2.2.2.2.2] at opened
    exact ⟨table, drives, media, counted, log, owner, linear, opened⟩

/-- What follows a write-back's request, a take's and a fetch's, by the request's answer. -/
theorem writebackAnswered_eq (slot : Slot) (pk : Pack) (lba : Nat) (beat : Beat) (w : World) :
    writebackAnswered slot pk lba beat w = (match psRequest .write (feederWbAddr slot) beat.reply with
      | (.walkSlot, _) => (return .walk : Run Result)
      | (.ok, _) =>
        if allPoison (feederWbAddr slot) (areaRecord beat slot (w.face.content slot)) then fail
        else if beat.pad ≠ feederPoison (feederWbAddr slot) 259 then fail
        else packWriteback pk lba (areaRecord beat slot (w.face.content slot)) beat.file >>=
          fun put => if put then return .ok else fail
      | _ => fail) ((w.moved beat.reply (Event.writeBack beat.reply
        (!allPoison (feederWbAddr slot) (areaRecord beat slot (w.face.content slot)))
        (beat.pad == feederPoison (feederWbAddr slot) 259) (decide (lba < pk.blocks))
        pk.writable beat.file) (w.face.request .write slot ⟨pk.id, lba⟩
          (areaRecord beat slot (w.face.content slot)) beat.reply)).walk beat.after) := rfl

theorem takeSlot_eq (env : Nat → Beat) (slot : Slot) (w : World) :
    takeSlot env slot w = (match psRequest .take 0#32 (env w.clock).reply with
      | (.walkSlot, _) => (return .walk : Run Result)
      | (.ok, _) => do
        modify fun w : World => w.forget slot
        return .ok
      | _ => return .failed) (((access env w).2.moved (env w.clock).reply
        (.drops ((access env w).2.owed slot)) ((access env w).2.face.request .take slot ⟨0, 0⟩
          ((access env w).2.face.content slot) (env w.clock).reply)).walk (env w.clock).after) := rfl

theorem fetchAnswered_eq (unit : Fin 8) (pk : Pack) (lba : Nat) (slot : Slot) (beat : Beat) (w : World) :
    fetchAnswered unit pk lba slot beat w =
      (match psRequest .fetch (feederFetchAddr slot) beat.reply with
      | (.walkSlot, _) => (return .walk : Run Result)
      | (.ok, _) => do
        modify fun w : World => w.claim slot (unit, lba)
        return .ok
      | (_, st) => if st.getLsbD 3 then fail else do
        modify fun w : World => w.forget slot
        fail) ((w.moved beat.reply (.drops (w.owed slot)) (w.face.request .fetch slot
          ⟨pk.id, lba⟩ (w.media ⟨pk.id, lba⟩) beat.reply)).walk beat.after) := rfl

theorem feederWriteback_eq (env : Nat → Beat) (slot : Slot) (w : World) :
    feederWriteback env slot w = (match w.table slot with
      | none => fail
      | some (unit, lba) => get >>= fun (w : World) => match w.bayPack unit with
        | none => fail
        | some pk => access env >>= fun beat => writebackMoved slot pk lba beat) w := rfl

theorem feederWriteback_known (env : Nat → Beat) {slot : Slot} {w : World} {unit : Fin 8} {lba : Nat}
    (known : w.table slot = some (unit, lba)) :
    feederWriteback env slot w = (match w.bayPack unit with
      | none => fail
      | some pk => access env >>= fun beat => writebackMoved slot pk lba beat) w := by
  rw [feederWriteback_eq, known]
  rfl

/-- What a fetch leaves behind: the store as the face leaves it, and a table whose entries are
the old ones, the slot's own gone where the face took the fetch, and the new one where it
landed; none has a double that had none before. -/
theorem fetchAnswered_leaves (unit : Fin 8) (pk : Pack) (lba : Nat) (slot : Slot) (beat : Beat)
    (w : World) :
    ∃ table : Slot → Option (Fin 8 × Nat),
      (fetchAnswered unit pk lba slot beat w).2.shown =
        ({ (w.moved beat.reply (.drops (w.owed slot)) (w.face.request .fetch slot ⟨pk.id, lba⟩
            (w.media ⟨pk.id, lba⟩) beat.reply)).walk beat.after with table := table } :
          World).shown ∧
      (∀ s entry, table s = some entry →
        (s = slot ∧ entry = (unit, lba) ∧ beat.reply.taken = true ∧ beat.reply.landed = true) ∨
        ((s ≠ slot ∨ beat.reply.taken = false) ∧ w.table s = some entry)) ∧
      ((∀ s s' entry, w.table s = some entry → w.table s' = some entry → s = s') →
        ∀ s s' entry, table s = some entry → table s' = some entry → s = s') := by
  have done := psRequest_ok_iff .fetch (feederFetchAddr slot) beat.reply
  have refusal := untaken_of_refused .fetch (feederFetchAddr slot) beat.reply
  generalize moved : (w.moved beat.reply (.drops (w.owed slot))
    (w.face.request .fetch slot ⟨pk.id, lba⟩ (w.media ⟨pk.id, lba⟩) beat.reply)).walk
      beat.after = after
  have tableAfter : after.table = w.table := by
    rw [← moved]
    exact (walk_frame _ _).1
  rw [fetchAnswered_eq, moved]
  revert done refusal
  generalize psRequest .fetch (feederFetchAddr slot) beat.reply = result
  intro done refusal
  obtain ⟨result, st⟩ := result
  have untouched : beat.reply.taken = false → ∀ s entry, w.table s = some entry →
      (s = slot ∧ entry = (unit, lba) ∧ beat.reply.taken = true ∧ beat.reply.landed = true) ∨
      ((s ≠ slot ∨ beat.reply.taken = false) ∧ w.table s = some entry) :=
    fun untaken s entry here => .inr ⟨.inr untaken, here⟩
  have forgets : ∀ s entry, Function.update w.table slot none s = some entry →
      s ≠ slot ∧ w.table s = some entry := by
    intro s entry here
    rw [Function.update_apply] at here
    split at here
    · exact absurd here (by simp)
    · exact ⟨‹_›, here⟩
  -- A failure: the table forgets the slot, unless the face refused.
  have failed : ∃ table : Slot → Option (Fin 8 × Nat),
      ((if st.getLsbD 3 then fail else do
        modify fun w : World => w.forget slot
        fail : Run Result) after).2.shown = ({ after with table := table } : World).shown ∧
      (∀ s entry, table s = some entry →
        (s = slot ∧ entry = (unit, lba) ∧ beat.reply.taken = true ∧ beat.reply.landed = true) ∨
        ((s ≠ slot ∨ beat.reply.taken = false) ∧ w.table s = some entry)) ∧
      ((∀ s s' entry, w.table s = some entry → w.table s' = some entry → s = s') →
        ∀ s s' entry, table s = some entry → table s' = some entry → s = s') := by
    by_cases refused : st.getLsbD 3 = true
    · rw [if_pos refused]
      refine ⟨w.table, ?_, untouched (refusal (.inr refused)), id⟩
      rw [← tableAfter]
      rfl
    · rw [if_neg refused]
      refine ⟨Function.update w.table slot none, ?_, fun s entry here => ?_,
        fun alone s s' entry here there => ?_⟩
      · rw [← tableAfter]
        rfl
      · exact .inr ⟨.inl (forgets s entry here).1, (forgets s entry here).2⟩
      · exact alone s s' entry (forgets s entry here).2 (forgets s' entry there).2
  cases result with
  | walkSlot =>
    refine ⟨w.table, ?_, untouched (refusal (.inl rfl)), id⟩
    rw [← tableAfter]
    rfl
  | ok =>
    obtain ⟨taken, landed⟩ := landed_of_completes (done.1 rfl)
    have claims : ∀ s entry, (after.claim slot (unit, lba)).table s = some entry →
        (s = slot ∧ entry = (unit, lba)) ∨
        (s ≠ slot ∧ w.table s = some entry ∧ entry ≠ (unit, lba)) := by
      intro s entry here
      simp only [World.claim, tableAfter] at here
      split at here
      · exact .inl ⟨‹_›, (Option.some.inj here).symm⟩
      · split at here
        · exact absurd here (by simp)
        · refine .inr ⟨‹_›, here, ?_⟩
          rintro rfl
          exact absurd here ‹_›
    refine ⟨(after.claim slot (unit, lba)).table, rfl, fun s entry here => ?_,
      fun alone s s' entry here there => ?_⟩
    · obtain ⟨rfl, rfl⟩ | ⟨ne, before, -⟩ := claims s entry here
      · exact .inl ⟨rfl, rfl, taken, landed⟩
      · exact .inr ⟨.inl ne, before⟩
    · obtain ⟨rfl, rfl⟩ | ⟨-, before, ne⟩ := claims s entry here
      · obtain ⟨rfl, -⟩ | ⟨-, -, ne⟩ := claims s' _ there
        · rfl
        · exact absurd rfl ne
      · obtain ⟨-, same⟩ | ⟨-, before', -⟩ := claims s' entry there
        · exact absurd same ne
        · exact alone s s' entry before before'
  | _ => exact failed

/-- The property is kept by an access and a write-back. -/
structure Writes (env : Nat → Beat) (holds : World → Prop) : Prop where
  access : Keeps holds (access env)
  quiet : ∀ w w' : World, w'.shown = w.shown → holds w → holds w'
  writeback : ∀ slot, Keeps holds (feederWriteback env slot)

/-- And by every other move of the program. -/
structure Moves (env : Nat → Beat) (holds : World → Prop) : Prop extends Writes env holds where
  serve : ∀ unit c h b slot, Keeps holds (feederServe env unit c h b slot)
  serveLba : ∀ lba slot, Keeps holds (feederServeLba env lba slot)
  takeUnit : ∀ unit, Keeps holds (feederTakeUnit env unit)
  scan : ∀ unit, Keeps holds (scanUnit env unit)

section

variable {env : Nat → Beat} {holds : World → Prop}

section

variable (writes : Writes env holds)

include writes

theorem Writes.psDirty : Keeps holds (psDirty env) :=
  keeps_bind writes.access fun _ => keeps_get fun _ held => held

theorem Writes.psRead : Keeps holds (psRead env) :=
  keeps_bind writes.access fun _ => keeps_pure _

theorem Writes.deny : Keeps holds (deny env) :=
  keeps_bind writes.access fun _ => keeps_pure _

theorem Writes.fail : Keeps holds fail :=
  fun w held => writes.quiet w _ rfl held

theorem Writes.flushPass (unit : Fin 8) (dirty : Slot → Bool)
    (slots : List Slot) : Keeps holds (flushPass env unit dirty slots) := by
  induction slots with
  | nil => exact keeps_pure _
  | cons s rest ih =>
    refine keeps_get fun w held => ?_
    refine keeps_ite (fun _ => ?_) (fun _ => ih) w held
    refine keeps_bind (writes.writeback s) fun r => ?_
    refine keeps_bind ih fun counts => ?_
    cases r <;> exact keeps_pure _

theorem Writes.feederFlushUnit (unit : Fin 8)
    (passes still done : Nat) : Keeps holds (feederFlushUnit env unit passes still done) := by
  induction passes generalizing still done with
  | zero => exact keeps_pure _
  | succ passes ih =>
    refine keeps_bind writes.psDirty fun dirty => ?_
    refine keeps_bind (writes.flushPass unit dirty _) fun counts => ?_
    exact keeps_ite (fun _ => keeps_pure _) fun _ => ih _ _

theorem Writes.flushUnit (unit : Fin 8) :
    Keeps holds (flushUnit env unit) :=
  keeps_bind (writes.feederFlushUnit unit 8 0 0) fun _ =>
    keeps_modify fun w held => writes.quiet w _ rfl held

theorem Writes.bayFlush (unit : Fin 8) (mayFlush : Bool) :
    Keeps holds (bayFlush env unit mayFlush) := by
  refine keeps_bind writes.access fun beat => keeps_get fun w held => ?_
  exact keeps_ite (fun _ => writes.flushUnit unit) (fun _ => keeps_pure _) w held

theorem Writes.flushProtected (unit : Fin 8) (readOnly : Bool) :
    Keeps holds (flushProtected env unit readOnly) :=
  keeps_ite (fun _ => writes.flushUnit unit) fun _ => keeps_pure _

theorem Writes.nextVictim (skip : List Slot) (tries : Nat)
    (ref : Slot → Bool) : Keeps holds (nextVictim skip tries ref) := by
  induction tries generalizing ref with
  | zero => exact keeps_pure _
  | succ tries ih =>
    refine keeps_get fun w held => ?_
    refine keeps_modify_bind ?_ ?_ w held
    · exact fun v held => writes.quiet v _ rfl held
    exact keeps_ite (fun _ => ih _) fun _ => keeps_ite (fun _ => ih _) fun _ => keeps_pure _

end

theorem Moves.serveInto (moves : Moves env holds) (unit : Fin 8) (c h b lba : Nat)
    (tag : BitVec 31) (tries : Nat) (skip : List Slot) :
    Keeps holds (serveInto env unit c h b lba tag tries skip) := by
  have cleared : ∀ dirty v, Keeps holds (clearVictim env dirty v) := fun dirty v =>
    keeps_ite (fun _ => moves.writeback v) fun _ => keeps_pure _
  have served : ∀ v, Keeps holds (serveSlot env unit c h b lba v) := fun v =>
    keeps_get fun w held => keeps_ite (fun _ => moves.serveLba lba v)
      (fun _ => moves.serve unit c h b v) w held
  induction tries generalizing skip with
  | zero => exact moves.fail
  | succ tries ih =>
    refine keeps_bind moves.psRead fun ref => ?_
    refine keeps_bind (moves.nextVictim _ _ _) fun victim => ?_
    cases victim with
    | none => exact moves.fail
    | some v =>
      refine keeps_bind moves.psDirty fun dirty => ?_
      refine keeps_bind (cleared dirty v) fun wrote => ?_
      cases wrote with
      | walk => exact ih _
      | failed => exact keeps_pure _
      | ok =>
        refine keeps_bind (served v) fun r => ?_
        cases r with
        | walk => exact ih _
        | failed => exact keeps_bind moves.deny fun _ => keeps_pure _
        | ok =>
          exact keeps_modify_bind (fun w held => moves.quiet w _ rfl held) (keeps_pure _)

theorem Moves.answer (moves : Moves env holds) (tag : BitVec 31) : Keeps holds (answer env tag) := by
  have denied : Keeps holds (do
      Packs.deny env
      return .ok : Run Result) := keeps_bind moves.deny fun _ => keeps_pure _
  refine keeps_get fun w held => keeps_get (fun w' held' => ?_) w held
  cases w'.bayPack (if w.linear then 0 else (psTagSplit tag).1) with
  | none => exact denied w' held'
  | some pk =>
    refine keeps_get (fun w'' held'' => ?_) w' held'
    cases askedLba w''.linear pk tag with
    | none => exact denied w'' held''
    | some lba =>
      refine keeps_get (fun v held => ?_) w'' held''
      refine keeps_get (fun v' held' => ?_) v held
      refine keeps_ite (fun _ => ?_) (fun _ => moves.serveInto _ _ _ _ _ _ _ _) v' held'
      refine keeps_modify_bind (fun w held => moves.quiet w _ rfl held) ?_
      refine keeps_get fun u held => ?_
      refine keeps_ite (fun _ => ?_) (fun _ => moves.serveInto _ _ _ _ _ _ _ _) u held
      refine keeps_modify_bind (fun w held => moves.quiet w _ rfl held) ?_
      refine keeps_bind moves.deny fun _ => ?_
      exact keeps_bind moves.fail fun _ => keeps_pure _

theorem Writes.passDirty (writes : Writes env holds) (dirty : Slot → Bool) (slots : List Slot) :
    Keeps holds (passDirty env dirty slots) := by
  induction slots with
  | nil => exact keeps_pure _
  | cons s rest ih =>
    refine keeps_ite (fun _ => keeps_get fun w held => ?_) fun _ => ih
    cases w.table s with
    | none => exact keeps_bind writes.fail (fun _ => ih) w held
    | some entry =>
      refine keeps_bind (writes.writeback s) (fun r => ?_) w held
      cases r with
      | failed => exact keeps_pure _
      | ok => exact ih
      | walk => exact ih

theorem Moves.feederPoll (moves : Moves env holds) : Keeps holds (feederPoll env) := by
  refine keeps_bind moves.psRead fun _ => ?_
  refine keeps_bind moves.psRead fun req => ?_
  have answered : Keeps holds (answerStanding env req) :=
    keeps_ite (fun _ => moves.answer _) fun _ => keeps_pure _
  refine keeps_bind answered fun r => ?_
  refine keeps_ite (fun _ => keeps_pure _) fun _ => ?_
  exact keeps_bind moves.psDirty fun dirty => moves.passDirty dirty _

theorem Moves.feederFlush (moves : Moves env holds) (passes : Nat) :
    Keeps holds (feederFlush env passes) := by
  induction passes with
  | zero => exact keeps_bind moves.psDirty fun _ => keeps_pure _
  | succ passes ih =>
    refine keeps_bind moves.psDirty fun dirty => ?_
    refine keeps_ite (fun _ => keeps_pure _) fun _ => ?_
    refine keeps_bind moves.feederPoll fun r => ?_
    exact keeps_ite (fun _ => keeps_pure _) fun _ => ih

theorem Moves.scanUnits (moves : Moves env holds) (units : List (Fin 8)) :
    Keeps holds (scanUnits env units) := by
  induction units with
  | nil => exact keeps_pure _
  | cons unit rest ih =>
    exact keeps_bind (moves.scan unit) fun _ => keeps_bind ih fun _ => keeps_pure _

theorem Moves.feederBayScan (moves : Moves env holds) : Keeps holds (feederBayScan env) := by
  refine keeps_bind moves.psRead fun status => keeps_ite (fun _ => keeps_pure _) fun _ => ?_
  refine keeps_bind moves.access fun beat => keeps_ite (fun _ => keeps_pure _) fun _ => ?_
  exact keeps_bind (moves.scanUnits _) fun _ => keeps_pure _

theorem Moves.startScans (moves : Moves env holds) (tries : Nat) :
    Keeps holds (startScans env tries) := by
  induction tries with
  | zero => exact keeps_pure _
  | succ tries ih =>
    refine keeps_bind moves.feederBayScan fun r => ?_
    cases r with
    | none => exact ih
    | some done => exact keeps_pure _

theorem Moves.call (moves : Moves env holds) {w : World} (held : holds w) (op : Op) :
    holds (op.run env w) := by
  cases op with
  | poll => exact moves.feederPoll w held
  | flush passes => exact moves.feederFlush passes w held
  | flushUnit unit passes => exact moves.feederFlushUnit unit passes 0 0 w held
  | takeUnit unit => exact moves.takeUnit unit w held
  | bayScan => exact moves.feederBayScan w held

end

end MuirFpga.Packs
