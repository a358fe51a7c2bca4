import MuirFpga.Packs.Loss

/-!
# The slot table

The program's table of which block each slot holds, against the tags the face has: whatever the
face refuses, takes or fails, a slot the table knows has that block's tag or none, its last
fetch was of that block, and no block has two slots. So a write-back puts a slot's words on the
block they are of.
-/

namespace MuirFpga.Packs

open Sync

/-- The table tells the truth, and every write-back asked for so far was of its own block. -/
structure Truth (w : World) : Prop where
  alone : ∀ s s' entry, w.table s = some entry → w.table s' = some entry → s = s'
  tagged : ∀ s unit lba, w.table s = some (unit, lba) → ∃ d, w.drives unit = some d ∧
    (w.face.owner s = some ⟨d.pack.id, lba⟩ ∨ w.face.owner s = none) ∧
    w.fetched s = some ⟨d.pack.id, lba⟩
  placed : ∀ p ∈ w.placed, (p.tagged = some p.onto ∨ p.tagged = none) ∧ p.fetched = some p.onto

/-- What it reads of a world. -/
def World.claims (w : World) : (Slot → Option (Fin 8 × Nat)) × (Fin 8 → Option Drive) ×
    (Slot → Option Block) × (Slot → Option Block) × List Placing :=
  (w.table, w.drives, w.face.owner, w.fetched, w.placed)

section

variable {w v : World} (env : Nat → Beat)

theorem Truth.same (truth : Truth w) (claims : v.claims = w.claims) : Truth v := by
  simp only [World.claims, Prod.mk.injEq] at claims
  obtain ⟨table, drives, owner, fetched, placed⟩ := claims
  constructor
  · simpa only [table] using truth.alone
  · simpa only [table, drives, owner, fetched] using truth.tagged
  · simpa only [placed] using truth.placed

theorem claims_of_shown (same : v.shown = w.shown) : v.claims = w.claims := by
  simp only [World.shown, World.claims, Prod.mk.injEq] at *
  obtain ⟨face, -, table, drives, -, -, -, -, -, fetched, placed⟩ := same
  exact ⟨table, drives, by rw [face], fetched, placed⟩

theorem claims_walk (w : World) (writes : List (Slot × Record)) :
    (w.walk writes).claims = w.claims := by
  obtain ⟨table, drives, -, -, -, owner, -⟩ := walk_frame w writes
  have noted : (w.walk writes).fetched = w.fetched ∧ (w.walk writes).placed = w.placed := by
    clear table drives owner
    induction writes generalizing w with
    | nil => exact ⟨rfl, rfl⟩
    | cons write rest ih =>
      have first : (w.walkWrite write).fetched = w.fetched ∧
          (w.walkWrite write).placed = w.placed := by
        unfold World.walkWrite
        split <;> exact ⟨rfl, rfl⟩
      obtain ⟨fetched, placed⟩ := ih (w.walkWrite write)
      exact ⟨fetched.trans first.1, placed.trans first.2⟩
  simp only [World.claims, table, drives, owner, noted.1, noted.2]

theorem Truth.fewer (truth : Truth w) {table : Slot → Option (Fin 8 × Nat)}
    (fewer : ∀ s entry, table s = some entry → w.table s = some entry) :
    Truth { w with table := table } :=
  ⟨fun s s' entry here there => truth.alone s s' entry (fewer s _ here) (fewer s' _ there),
    fun s unit lba here => truth.tagged s unit lba (fewer s _ here), truth.placed⟩

theorem truth_access : Keeps Truth (access env) := by
  intro w truth
  exact (truth.same (claims_walk w (env w.clock).before)).same rfl

theorem claims_packWriteback (pk : Pack) (lba : Nat) (record : Record) (file : FileOp)
    (w : World) : (packWriteback pk lba record file w).2.claims = w.claims := by
  unfold packWriteback
  split
  · rfl
  · cases file <;> rfl

theorem claims_writebackAnswered (slot : Slot) (pk : Pack) (lba : Nat) (beat : Beat) (w : World) :
    (writebackAnswered slot pk lba beat w).2.claims = w.claims := by
  generalize recorded : areaRecord beat slot (w.face.content slot) = record
  generalize logged : Event.writeBack beat.reply (!allPoison (feederWbAddr slot) record)
    (beat.pad == feederPoison (feederWbAddr slot) 259) (decide (lba < pk.blocks))
    pk.writable beat.file = event
  generalize moved : (w.moved beat.reply event
    (w.face.request .write slot ⟨pk.id, lba⟩ record beat.reply)).walk beat.after = after
  have kept : after.claims = w.claims := by
    rw [← moved, claims_walk]
    unfold World.moved Face.request World.claims
    cases beat.reply.taken <;> rfl
  rw [← kept]
  rw [writebackAnswered_eq, recorded, logged, moved]
  generalize psRequest .write (feederWbAddr slot) beat.reply = answered
  obtain ⟨result, st⟩ := answered
  cases result with
  | ok =>
    dsimp only
    split
    · rfl
    · split
      · rfl
      · have put := claims_packWriteback pk lba record beat.file after
        rw [← put]
        change ((if (packWriteback pk lba record beat.file after).1 = true then return .ok
          else fail : Run Result) (packWriteback pk lba record beat.file after).2).2.claims = _
        split <;> rfl
  | _ => rfl

theorem truth_writeback (slot : Slot) : Keeps Truth (feederWriteback env slot) := by
  intro w truth
  cases known : w.table slot with
  | none =>
    rw [feederWriteback_eq, known]
    exact truth.same rfl
  | some entry =>
    obtain ⟨unit, lba⟩ := entry
    rw [feederWriteback_known env known]
    obtain ⟨d, there, -⟩ := truth.tagged slot unit lba known
    rw [show w.bayPack unit = some d.pack by simp [World.bayPack, there]]
    have accessed := truth_access env w truth
    have same : (access env w).2.claims = w.claims := claims_walk w (env w.clock).before
    simp only [World.claims, Prod.mk.injEq] at same
    obtain ⟨table, drives, -⟩ := same
    obtain ⟨d', there', tag, fetched⟩ := accessed.tagged slot unit lba (by rw [table, known])
    obtain rfl : d = d' := by
      rw [drives, there] at there'
      exact Option.some.inj there'
    have noted : Truth
        { (access env w).2 with
          placed := ⟨(access env w).2.face.owner slot, (access env w).2.fetched slot,
            ⟨d.pack.id, lba⟩⟩ :: (access env w).2.placed } := by
      refine ⟨accessed.alone, accessed.tagged, fun p asked => ?_⟩
      obtain rfl | before := List.mem_cons.1 asked
      · exact ⟨tag, fetched⟩
      · exact accessed.placed p before
    exact noted.same (claims_writebackAnswered slot d.pack lba (env w.clock) _)

theorem truth_fetchMoved (truth : Truth w) {unit : Fin 8} {d : Drive}
    (there : w.drives unit = some d) (lba : Nat) (slot : Slot) (beat : Beat) :
    Truth (fetchMoved unit d.pack lba slot beat w).2 := by
  generalize noting : ({ w with
    fetched := if beat.reply.taken then Function.update w.fetched slot (some ⟨d.pack.id, lba⟩)
      else w.fetched } : World) = noted
  have start : (fetchMoved unit d.pack lba slot beat w).2 =
      (fetchAnswered unit d.pack lba slot beat noted).2 := by
    rw [← noting]
    rfl
  obtain ⟨table, same, entries, alone⟩ := fetchAnswered_leaves unit d.pack lba slot beat noted
  rw [start]
  refine Truth.same ?_ (claims_of_shown same)
  have walked := claims_walk (noted.moved beat.reply (.drops (noted.owed slot))
    (noted.face.request .fetch slot ⟨d.pack.id, lba⟩ (noted.media ⟨d.pack.id, lba⟩) beat.reply))
    beat.after
  simp only [World.claims, Prod.mk.injEq] at walked
  obtain ⟨-, drives, owner, fetched, placed⟩ := walked
  have beforeTable : noted.table = w.table := by rw [← noting]
  refine ⟨alone (by rw [beforeTable]; exact truth.alone), fun s u n here => ?_, fun p asked => ?_⟩
  · simp only [drives, owner, fetched]
    -- What the face and the note have of a slot the fetch was not taken on is as before.
    have elsewhere : (s ≠ slot ∨ beat.reply.taken = false) →
        (noted.face.request .fetch slot ⟨d.pack.id, lba⟩ (noted.media ⟨d.pack.id, lba⟩)
          beat.reply).owner s = w.face.owner s ∧ noted.fetched s = w.fetched s := by
      rw [← noting]
      intro untouched
      unfold Face.request
      cases taken : beat.reply.taken with
      | false => exact ⟨rfl, rfl⟩
      | true =>
        have ne : s ≠ slot := untouched.resolve_right (by simp [taken])
        cases beat.reply.landed <;> simp [Face.drop, Face.fill, Face.clear, ne]
    obtain ⟨rfl, entry, taken, landed⟩ | ⟨untouched, before⟩ := entries s (u, n) here
    · obtain ⟨rfl, rfl⟩ := Prod.mk.inj entry
      refine ⟨d, ?_, .inl ?_, ?_⟩
      · rw [← noting]
        exact there
      · simp [World.moved, Face.request, taken, landed, Face.fill]
      · rw [← noting]
        simp [World.moved, taken]
    · rw [beforeTable] at before
      obtain ⟨e, thereE, tag, last⟩ := truth.tagged s u n before
      obtain ⟨ownerS, fetchedS⟩ := elsewhere untouched
      refine ⟨e, ?_, ?_, ?_⟩
      · rw [← noting]
        exact thereE
      · simp only [World.moved]
        rw [ownerS]
        exact tag
      · simp only [World.moved]
        rw [fetchedS]
        exact last
  · simp only [placed] at asked
    refine truth.placed p ?_
    rw [← noting] at asked
    exact asked

theorem truth_serveRecord (truth : Truth w) {unit : Fin 8} {d : Drive}
    (there : w.drives unit = some d) (lba : Nat) (slot : Slot) :
    Truth (serveRecord env unit d.pack lba slot w).2 := by
  have accessed := truth_access env w truth
  have same : (access env w).2.claims = w.claims := claims_walk w (env w.clock).before
  simp only [World.claims, Prod.mk.injEq] at same
  change Truth ((if lba ≥ d.pack.blocks ∨ (env w.clock).readable = false then fail
    else fetchMoved unit d.pack lba slot (env w.clock)) (access env w).2).2
  split
  · exact accessed.same rfl
  · exact truth_fetchMoved accessed (by rw [same.2.1]; exact there) lba slot _

theorem truth_serve (unit : Fin 8) (c h b : Nat) (slot : Slot) :
    Keeps Truth (feederServe env unit c h b slot) := by
  refine keeps_get fun w truth => ?_
  cases there : w.drives unit with
  | none =>
    rw [show w.bayPack unit = none by simp [World.bayPack, there]]
    exact truth.same rfl
  | some d =>
    rw [show w.bayPack unit = some d.pack by simp [World.bayPack, there]]
    cases place : packLba d.pack.geometry c h b with
    | none =>
      simp only [place]
      exact truth.same rfl
    | some lba =>
      simp only [place]
      exact truth_serveRecord env truth there lba slot

theorem truth_serveLba (lba : Nat) (slot : Slot) : Keeps Truth (feederServeLba env lba slot) := by
  refine keeps_get fun w truth => ?_
  cases there : w.drives 0 with
  | none =>
    rw [show w.bayPack 0 = none by simp [World.bayPack, there]]
    exact truth.same rfl
  | some d =>
    rw [show w.bayPack 0 = some d.pack by simp [World.bayPack, there]]
    change Truth ((if lba ≥ d.pack.blocks then fail
      else serveRecord env 0 d.pack lba slot) w).2
    split
    · exact truth.same rfl
    · exact truth_serveRecord env truth there lba slot

theorem truth_takeSlot (slot : Slot) : Keeps Truth (takeSlot env slot) := by
  intro w truth
  have accessed := truth_access env w truth
  generalize was : (access env w).2 = v at accessed
  generalize beatNow : env w.clock = beat
  have taken : Truth (v.moved beat.reply (.drops (v.owed slot))
      (v.face.request .take slot ⟨0, 0⟩ (v.face.content slot) beat.reply)) := by
    refine ⟨accessed.alone, fun s unit lba here => ?_, accessed.placed⟩
    obtain ⟨d, there, tag, fetched⟩ := accessed.tagged s unit lba here
    refine ⟨d, there, ?_, fetched⟩
    simp only [World.moved, Face.request]
    cases beat.reply.taken with
    | false => exact tag
    | true =>
      by_cases same : s = slot
      · right
        simp [Face.drop, same]
      · simpa [Face.drop, same] using tag
  have walked := taken.same (claims_walk _ beat.after)
  rw [takeSlot_eq, was, beatNow]
  generalize (v.moved beat.reply (.drops (v.owed slot)) (v.face.request .take slot ⟨0, 0⟩
    (v.face.content slot) beat.reply)).walk beat.after = after at walked
  generalize psRequest .take 0#32 beat.reply = answered
  obtain ⟨result, st⟩ := answered
  cases result with
  | ok =>
    refine walked.fewer fun s entry here => ?_
    rw [Function.update_apply] at here
    split at here
    · exact absurd here (by simp)
    · exact here
  | _ => exact walked

theorem truth_take (slot : Slot) : Keeps Truth (feederTake env slot) :=
  keeps_bind (truth_takeSlot env slot) fun _ =>
    keeps_ite (fun _ _ truth => truth.same rfl) fun _ => keeps_pure _

theorem truth_takePass (unit : Fin 8) (slots : List Slot) :
    Keeps Truth (takePass env unit slots) := by
  induction slots with
  | nil => exact keeps_pure _
  | cons s rest ih =>
    refine keeps_get fun w truth => ?_
    refine keeps_ite (fun _ => ?_) (fun _ => ih) w truth
    refine keeps_bind (truth_take env s) fun r => keeps_bind ih fun counts => ?_
    cases r <;> exact keeps_pure _

theorem truth_takeUnit (unit : Fin 8) (truth : Truth w) :
    Truth (feederTakeUnit env unit w).2 ∧
      ∀ s lba, (feederTakeUnit env unit w).2.table s ≠ some (unit, lba) := by
  have passes : ∀ passes n, Keeps Truth (takePasses env unit passes n) := by
    intro passes
    induction passes with
    | zero => exact fun n => keeps_pure _
    | succ passes ih =>
      intro n
      refine keeps_bind (truth_takePass env unit _) fun counts => ?_
      exact keeps_ite (fun _ => keeps_pure _) fun _ => ih _
  have kept := passes 8 0 w truth
  refine ⟨kept.fewer fun s entry here => ?_, fun s lba here => (feederTakeUnit_table env here).2 rfl⟩
  change (feederTakeUnit env unit w).2.table s = some entry at here
  exact (feederTakeUnit_table env here).1

theorem truth_writes : Writes env Truth :=
  ⟨truth_access env, fun _ _ same truth => truth.same (claims_of_shown same), truth_writeback env⟩

theorem truth_owedBlocks (unit : Fin 8) : Keeps Truth (owedBlocks env unit) := by
  refine keeps_bind (truth_writes env).psDirty fun dirty => keeps_get fun w truth => ?_
  generalize (List.finRange 24).filter (fun s => dirty s &&
    ((w.table s).map Prod.fst == some unit)) = slots
  have counts : ∀ (block : World → Slot → Option Block) (slots : List Slot) (w : World),
      (slots.foldl (fun w s => w.count (block w s)) w).claims = w.claims := by
    intro block slots
    induction slots with
    | nil => exact fun w => rfl
    | cons s rest ih => exact fun w => ih _
  exact truth.same (counts _ slots w)

theorem truth_bayRemove (truth : Truth w) (unit : Fin 8) (mayFlush : Bool) :
    Truth (bayRemove env unit mayFlush w).2 ∧
      (bayRemove env unit mayFlush w).2.drives unit = none := by
  have counted := truth_owedBlocks env unit _ ((truth_writes env).bayFlush unit mayFlush w truth)
  generalize lost : (owedBlocks env unit (bayFlush env unit mayFlush w).2).2 = v at counted
  generalize number : (owedBlocks env unit (bayFlush env unit mayFlush w).2).1 = n
  generalize tally : ({ v with
    lostEvents := if n = 0 then v.lostEvents else v.lostEvents + 1
    lostBlocks := v.lostBlocks + n } : World) = told
  have toldTruth : Truth told := by
    rw [← tally]
    exact counted.same rfl
  obtain ⟨kept, bare⟩ := truth_takeUnit env unit toldTruth
  have after : (bayRemove env unit mayFlush w).2 = { (feederTakeUnit env unit told).2 with
      drives := Function.update (feederTakeUnit env unit told).2.drives unit none } := by
    rw [← tally, ← lost, ← number]
    rfl
  rw [after]
  refine ⟨⟨kept.alone, fun s u lba here => ?_, kept.placed⟩, Function.update_self ..⟩
  obtain ⟨d, there, tag, fetched⟩ := kept.tagged s u lba here
  have ne : u ≠ unit := by
    rintro rfl
    exact bare s lba here
  exact ⟨d, by simpa only [Function.update_of_ne ne] using there, tag, fetched⟩

theorem truth_addLooked (truth : Truth w) {unit : Fin 8} (empty : w.drives unit = none)
    (beat : Beat) : Truth (addLooked unit beat w).2 := by
  unfold addLooked bayAdd
  split
  · cases beat.opens with
    | none => exact truth
    | some shape =>
      refine ⟨truth.alone, fun s u lba here => ?_, truth.placed⟩
      obtain ⟨d, there, tag, fetched⟩ := truth.tagged s u lba here
      have ne : u ≠ unit := by
        rintro rfl
        exact absurd (there.symm.trans empty) (by simp)
      exact ⟨d, (Function.update_of_ne ne _ _).trans there, tag, fetched⟩
  · exact truth

theorem truth_scan (unit : Fin 8) : Keeps Truth (scanUnit env unit) := by
  refine keeps_bind (truth_access env) fun beat => keeps_get fun w truth => ?_
  cases there : w.drives unit with
  | none => exact truth_addLooked truth there beat
  | some drive =>
    dsimp only
    split
    · obtain ⟨kept, empty⟩ := truth_bayRemove env truth unit (!(beat.look.there &&
        beat.look.dev == drive.pack.dev && beat.look.ino == drive.pack.ino))
      exact truth_addLooked kept empty beat
    · split
      · refine keeps_bind ((truth_writes env).flushProtected unit _) (fun _ => ?_) w truth
        refine keeps_ite (fun _ => keeps_modify_bind (fun v held => ?_) (keeps_pure _))
          fun _ => keeps_pure _
        refine ⟨held.alone, fun s u lba here => ?_, held.placed⟩
        obtain ⟨d, thereD, tag, fetched⟩ := held.tagged s u lba here
        by_cases same : u = unit
        · subst same
          refine ⟨⟨{ d.pack with writable := !beat.look.readOnly }, beat.look.readOnly⟩, ?_, tag,
            fetched⟩
          simp only [Function.update_self, thereD, Option.map_some]
        · exact ⟨d, by simpa only [Function.update_of_ne same] using thereD, tag, fetched⟩
      · exact truth

theorem truth_moves : Moves env Truth :=
  { truth_writes env with
    serve := truth_serve env
    serveLba := truth_serveLba env
    takeUnit := fun unit _ truth => (truth_takeUnit env unit truth).1
    scan := truth_scan env }

theorem truth_start : Keeps Truth (feederStart env) := by
  have takes : ∀ (dirty : Slot → Bool) (slots : List Slot),
      Keeps Truth (startTakes env dirty slots) := by
    intro dirty slots
    induction slots with
    | nil => exact keeps_pure _
    | cons s rest ih =>
      have counted : Keeps Truth (countAtStart (dirty s) s) :=
        keeps_ite (fun _ => keeps_modify fun _ truth => truth.same rfl) fun _ => keeps_pure _
      refine keeps_bind counted fun _ => keeps_bind (truth_takeSlot env s) fun r => ?_
      exact keeps_ite (fun _ => ih) fun _ => keeps_pure _
  refine keeps_modify_bind (fun w truth => truth.same rfl) ?_
  refine keeps_bind (truth_writes env).psDirty fun dirty => ?_
  refine keeps_bind (takes dirty _) fun done => ?_
  exact keeps_ite (fun _ => (truth_moves env).startScans 64) fun _ => keeps_pure _

end

/-- What may be asked of the program, one slot or all of it. -/
inductive Deed
  | serve (unit : Fin 8) (c h b : Nat) (slot : Slot)
  | serveLba (lba : Nat) (slot : Slot)
  | writeback (slot : Slot)
  | take (slot : Slot)
  | call (op : Op)

/-- It done. -/
def Deed.run (env : Nat → Beat) (deed : Deed) (w : World) : World :=
  match deed with
  | .serve unit c h b slot => (feederServe env unit c h b slot w).2
  | .serveLba lba slot => (feederServeLba env lba slot w).2
  | .writeback slot => (feederWriteback env slot w).2
  | .take slot => (feederTake env slot w).2
  | .call op => op.run env w

/-- The program started, and then anything asked of it. -/
def did (env : Nat → Beat) (deeds : List Deed) (w : World) : World :=
  deeds.foldl (fun w deed => deed.run env w) (feederStart env w).2

/-- In every run of the program, whatever the face makes of each move: no two slots claim one
block; a slot the table knows is tagged with that block or with nothing, its last fetch the face
took having been of it; and every write-back asked for was of a slot tagged with the block its
words were to be put on, or with nothing, and last fetched as it. -/
theorem table_tells_truth (env : Nat → Beat) (deeds : List Deed) (w : World)
    (unknown : ∀ s, w.table s = none) (unplaced : w.placed = []) :
    (∀ s s' entry, (did env deeds w).table s = some entry →
      (did env deeds w).table s' = some entry → s = s') ∧
    (∀ s unit lba, (did env deeds w).table s = some (unit, lba) →
      ∃ d, (did env deeds w).drives unit = some d ∧
        ((did env deeds w).face.owner s = some ⟨d.pack.id, lba⟩ ∨
          (did env deeds w).face.owner s = none) ∧
        (did env deeds w).fetched s = some ⟨d.pack.id, lba⟩) ∧
    ∀ p ∈ (did env deeds w).placed,
      (p.tagged = some p.onto ∨ p.tagged = none) ∧ p.fetched = some p.onto := by
  have initial : Truth w := by
    refine ⟨fun s s' entry here => ?_, fun s unit lba here => ?_, fun p asked => ?_⟩
    · exact absurd ((unknown s).symm.trans here) (by simp)
    · exact absurd ((unknown s).symm.trans here) (by simp)
    · rw [unplaced] at asked
      exact absurd asked (by simp)
  have started := truth_start env w initial
  have truth : Truth (did env deeds w) := by
    unfold did
    generalize (feederStart env w).2 = v at started
    induction deeds generalizing v with
    | nil => exact started
    | cons deed rest ih =>
      refine ih _ ?_
      cases deed with
      | serve unit c h b slot => exact truth_serve env unit c h b slot v started
      | serveLba lba slot => exact truth_serveLba env lba slot v started
      | writeback slot => exact truth_writeback env slot v started
      | take slot => exact truth_take env slot v started
      | call op => exact (truth_moves env).call started op
  exact ⟨truth.alone, truth.tagged, truth.placed⟩

/-- A block served into a slot and written back from it. -/
theorem table_tells_truth_served :
    (did (oneBlock (.runs 0 false)) [.call .poll] blank).table 0 = some (0, 0) ∧
    (did (oneBlock (.runs 0 false)) [.call .poll] blank).placed.length = 1 ∧
    (∃ d, (did (oneBlock (.runs 0 false)) [.call .poll] blank).drives 0 = some d ∧
      ((did (oneBlock (.runs 0 false)) [.call .poll] blank).face.owner 0 = some ⟨d.pack.id, 0⟩ ∨
        (did (oneBlock (.runs 0 false)) [.call .poll] blank).face.owner 0 = none) ∧
      (did (oneBlock (.runs 0 false)) [.call .poll] blank).fetched 0 = some ⟨d.pack.id, 0⟩) ∧
    ∀ p ∈ (did (oneBlock (.runs 0 false)) [.call .poll] blank).placed,
      (p.tagged = some p.onto ∨ p.tagged = none) ∧ p.fetched = some p.onto := by
  obtain ⟨-, tagged, placed⟩ := table_tells_truth (oneBlock (.runs 0 false)) [.call .poll] blank
    (fun _ => rfl) rfl
  have known : (did (oneBlock (.runs 0 false)) [.call .poll] blank).table 0 = some (0, 0) := by
    decide +kernel
  exact ⟨known, by decide +kernel, tagged 0 0 0 known, placed⟩

end MuirFpga.Packs
