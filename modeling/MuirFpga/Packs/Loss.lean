import MuirFpga.Packs.Rules

/-!
# What becomes of the machine's writes

A block the machine wrote is on its pack, or in a slot that still has its DIRTY bit, or counted
as lost: as long as every write-back the face takes is carried to its end, and every fetch and
take-away it takes is of a slot that owes nothing. The face clears the bit when it takes the
move, so a write-back that fails later loses its block without a count, and the next flush
says nothing is owed.
-/

namespace MuirFpga.Packs

/-- The move was carried to its end: a write-back has its block on the pack, and a fetch or
take-away dropped nothing the machine is owed. -/
def Event.Sound : Event → Prop
  | .writeBack reply moved pad inRange writable file => reply.completes = true ∧ moved = true ∧
      pad = true ∧ inRange = true ∧ writable = true ∧ file = .done
  | .drops owed => owed = false

/-- Whether the file took the block can be told. -/
instance (file : FileOp) : Decidable (file = .done) :=
  match file with
  | .done => isTrue rfl
  | .failed _ => isFalse FileOp.noConfusion

/-- And so can the rest. -/
instance (e : Event) : Decidable e.Sound :=
  match e with
  | .writeBack reply moved pad inRange writable file =>
    inferInstanceAs (Decidable (reply.completes = true ∧ moved = true ∧ pad = true ∧
      inRange = true ∧ writable = true ∧ file = .done))
  | .drops owed => inferInstanceAs (Decidable (owed = false))

/-- What the program's run rests on, but for the table's entries of a unit that is leaving, and
for where one block's words are: an entry of the table is its slot's block, no block has two;
the words of an entry's slot are the machine's last, or another slot owes those; and a block
the machine wrote is on its pack, in a slot that owes it, or counted. -/
structure Inv (out : Option (Fin 8)) (but : Option Block) (w : World) : Prop where
  table : ∀ s unit lba, w.table s = some (unit, lba) → out ≠ some unit →
    ∃ d, w.drives unit = some d ∧ w.face.owner s = some ⟨d.pack.id, lba⟩
  alone : ∀ s s' entry, w.table s = some entry → w.table s' = some entry → s = s'
  words : ∀ s entry block r, w.table s = some entry → out ≠ some entry.1 →
    w.face.owner s = some block → w.last block = some r → block ∉ w.counted →
    keep w.linear (w.face.content s) = keep w.linear r ∨
      ∃ s', s' ≠ s ∧ w.face.owner s' = some block ∧ w.face.dirty s' = true ∧
        w.face.content s' = r
  safe : ∀ block r, but ≠ some block → w.last block = some r →
    w.media block = keep w.linear r ∨
      (∃ s, w.face.owner s = some block ∧ w.face.dirty s = true ∧ w.face.content s = r) ∨
      block ∈ w.counted
  opened : ∀ unit d, w.drives unit = some d → d.pack.id < w.opened
  distinct : ∀ unit unit' d d', w.drives unit = some d → w.drives unit' = some d' →
    d.pack.id = d'.pack.id → unit = unit'
  owners : ∀ s block, w.face.owner s = some block → block.pack < w.opened
  old : ∀ block ∈ w.counted, block.pack < w.opened
  uncounted : ∀ unit d lba, w.drives unit = some d → out ≠ some unit →
    (⟨d.pack.id, lba⟩ : Block) ∉ w.counted

section

variable {out : Option (Fin 8)} {but : Option Block} {w : World}

theorem inv_walkWrite (inv : Inv out but w) (write : Slot × Record) :
    Inv out but (w.walkWrite write) := by
  obtain ⟨slot, record⟩ := write
  unfold World.walkWrite
  cases owned : w.face.owner slot with
  | none => simpa using inv
  | some block =>
    simp only
    obtain ⟨table, alone, words, safe, opened, distinct, owners, old, uncounted⟩ := inv
    refine ⟨table, alone, ?_, ?_, opened, distinct, owners, old, uncounted⟩
    · intro s entry other r known inside own wrote uncountedOther
      have before := words s entry other r known inside own
      simp only [Function.update_apply] at wrote ⊢
      by_cases same : other = block
      · -- The block written now: its slot owes it.
        rw [if_pos same] at wrote
        by_cases here : s = slot
        · left
          rw [if_pos here, Option.some.inj wrote]
        · right
          exact ⟨slot, fun eq => here eq.symm, by rw [owned, same], by simp,
            by rw [if_pos rfl, Option.some.inj wrote]⟩
      · rw [if_neg same] at wrote
        obtain kept | ⟨s', ne, own', dirty, content⟩ := before wrote uncountedOther
        · left
          rwa [if_neg (by grind)]
        · right
          exact ⟨s', ne, own', by simp [dirty], by rwa [if_neg (by grind)]⟩
    · intro other r apart wrote
      have before := safe other r apart
      simp only [Function.update_apply] at wrote ⊢
      by_cases same : other = block
      · rw [if_pos same] at wrote
        exact .inr (.inl ⟨slot, by rw [owned, same], by simp,
          by rw [if_pos rfl, Option.some.inj wrote]⟩)
      · rw [if_neg same] at wrote
        obtain onPack | ⟨s, own, dirty, content⟩ | counted := before wrote
        · exact .inl onPack
        · exact .inr (.inl ⟨s, own, by simp [dirty], by rwa [if_neg (by grind)]⟩)
        · exact .inr (.inr counted)

theorem inv_walk (inv : Inv out but w) (writes : List (Slot × Record)) :
    Inv out but (w.walk writes) := by
  induction writes generalizing w with
  | nil => exact inv
  | cons write rest ih => exact ih (inv_walkWrite inv write)

/-- What the invariant reads of a world. -/
def World.core (w : World) : Face × Bool × (Slot → Option (Fin 8 × Nat)) ×
    (Fin 8 → Option Drive) × Nat × (Block → Record) × (Block → Option Record) × List Block :=
  (w.face, w.linear, w.table, w.drives, w.opened, w.media, w.last, w.counted)

theorem Inv.same {w' : World} (inv : Inv out but w) (core : w'.core = w.core) :
    Inv out but w' := by
  simp only [World.core, Prod.mk.injEq] at core
  obtain ⟨face, linear, table, drives, opened, media, last, counted⟩ := core
  constructor
  · simpa only [face, table, drives] using inv.table
  · simpa only [table] using inv.alone
  · simpa only [face, linear, table, last, counted] using inv.words
  · simpa only [face, linear, media, last, counted] using inv.safe
  · simpa only [drives, opened] using inv.opened
  · simpa only [drives] using inv.distinct
  · simpa only [face, opened] using inv.owners
  · simpa only [opened, counted] using inv.old
  · simpa only [drives, counted] using inv.uncounted

/-- A slot owes the last words of a block. -/
def World.Held (w : World) (block : Block) : Prop :=
  ∃ s, w.face.owner s = some block ∧ w.face.dirty s = true ∧
    w.last block = some (w.face.content s)

end

/-- What is so as long as every move the face took was sound. -/
def Good (out : Option (Fin 8)) (w : World) : Prop := (∀ e ∈ w.log, e.Sound) → Inv out none w

section

variable {out : Option (Fin 8)} (env : Nat → Beat)

open Sync

theorem Good.same {w w' : World} (good : Good out w) (core : w'.core = w.core)
    (log : w'.log = w.log) : Good out w' := by
  intro sound
  rw [log] at sound
  exact (good sound).same core

theorem Good.walk {w : World} (good : Good out w) (writes : List (Slot × Record)) :
    Good out (w.walk writes) := by
  intro sound
  rw [(walk_frame w writes).2.2.2.2.1] at sound
  exact inv_walk (good sound) writes

/-- What a take-away leaves alone: the drives and the counts; it makes no entry, and no move is
forgotten. -/
structure Framed (w v : World) : Prop where
  drives : v.drives = w.drives
  counted : v.counted = w.counted
  fewer : ∀ s entry, v.table s = some entry → w.table s = some entry
  log : (∀ e ∈ v.log, e.Sound) → ∀ e ∈ w.log, e.Sound

theorem Framed.forget {w v : World} (framed : Framed w v) (slot : Slot) :
    Framed w (v.forget slot) := by
  refine ⟨framed.drives, framed.counted, fun s entry here => framed.fewer s entry ?_, framed.log⟩
  simp only [World.forget, Function.update_apply] at here
  split at here
  · exact absurd here (by simp)
  · exact here

theorem feederTakeUnit_table {unit : Fin 8} {w : World} {s : Slot} {entry : Fin 8 × Nat}
    (here : (feederTakeUnit env unit w).2.table s = some entry) :
    (takePasses env unit 8 0 w).2.table s = some entry ∧ entry.1 ≠ unit := by
  change (if ((takePasses env unit 8 0 w).2.table s).map Prod.fst = some unit then none
    else (takePasses env unit 8 0 w).2.table s) = some entry at here
  split at here
  · exact absurd here (by simp)
  · rename_i other
    rw [here] at other
    exact ⟨here, fun same => other (congrArg some same)⟩

theorem Inv.arrived {w : World} {unit : Fin 8} (inv : Inv (some unit) none w)
    (bare : ∀ s lba, w.table s ≠ some (unit, lba))
    (uncounted : ∀ d lba, w.drives unit = some d → (⟨d.pack.id, lba⟩ : Block) ∉ w.counted) :
    Inv none none w := by
  have apart : ∀ s entry, w.table s = some entry → some unit ≠ some entry.1 := by
    rintro s ⟨u, lba⟩ here same
    obtain rfl := Option.some.inj same
    exact bare s lba here
  refine ⟨fun s u lba here _ => inv.table s u lba here (apart s _ here), inv.alone,
    fun s entry block r here _ => inv.words s entry block r here (apart s entry here), inv.safe,
    inv.opened, inv.distinct, inv.owners, inv.old, fun u d lba there _ => ?_⟩
  by_cases same : unit = u
  · subst same
    exact uncounted d lba there
  · exact inv.uncounted u d lba there (by simpa using same)

theorem Inv.counting {w : World} (inv : Inv none none w) {unit : Fin 8} {more : List Block}
    (mine : ∀ block ∈ more, ∃ d, w.drives unit = some d ∧ block.pack = d.pack.id) :
    Inv (some unit) none { w with counted := more ++ w.counted } := by
  have outside : ∀ block, block ∉ more ++ w.counted → block ∉ w.counted :=
    fun block absent inside => absent (List.mem_append_right more inside)
  refine ⟨fun s u lba entry _ => inv.table s u lba entry (by simp), inv.alone,
    fun s entry block r known _ own wrote absent => inv.words s entry block r known (by simp) own
      wrote (outside block absent), fun block r apart wrote => ?_, inv.opened, inv.distinct,
    inv.owners, fun block inside => ?_, fun u d lba there apart inside => ?_⟩
  · obtain onPack | held | counted := inv.safe block r apart wrote
    · exact .inl onPack
    · exact .inr (.inl held)
    · exact .inr (.inr (List.mem_append_right more counted))
  · obtain new | before := List.mem_append.1 inside
    · obtain ⟨d, there, same⟩ := mine block new
      rw [same]
      exact inv.opened unit d there
    · exact inv.old block before
  · obtain new | before := List.mem_append.1 inside
    · obtain ⟨d', there', same⟩ := mine _ new
      exact apart (congrArg some (inv.distinct unit u d' d there' there same.symm))
    · exact inv.uncounted u d lba there (by simp) before

/-- The program before it starts: no pack in the bay, no slot known, nothing counted, and what
the machine wrote before is on its pack or in a slot that owes it. -/
structure Booted (w : World) : Prop where
  table : ∀ s, w.table s = none
  drives : ∀ unit, w.drives unit = none
  counted : w.counted = []
  log : w.log = []
  owners : ∀ s block, w.face.owner s = some block → block.pack < w.opened
  safe : ∀ block r, w.last block = some r → w.media block = keep w.linear r ∨
    ∃ s, w.face.owner s = some block ∧ w.face.dirty s = true ∧ w.face.content s = r

/-- Nothing is known of the bay yet. -/
def Bare (w : World) : Prop := (∀ s, w.table s = none) ∧ ∀ unit, w.drives unit = none

theorem Booted.good {w : World} (booted : Booted w) : Good none w ∧ Bare w := by
  refine ⟨fun _ => ⟨fun s unit lba here _ => ?_, fun s s' entry here => ?_,
    fun s entry block r here => ?_, fun block r _ wrote => ?_, fun unit d there => ?_,
    fun unit _ d _ there => ?_, booted.owners, fun block inside => ?_, fun unit d lba there => ?_⟩,
    booted.table, booted.drives⟩
  · exact absurd ((booted.table s).symm.trans here) (by simp)
  · exact absurd ((booted.table s).symm.trans here) (by simp)
  · exact absurd ((booted.table s).symm.trans here) (by simp)
  · obtain onPack | held := booted.safe block r wrote
    · exact .inl onPack
    · exact .inr (.inl held)
  · exact absurd ((booted.drives unit).symm.trans there) (by simp)
  · exact absurd ((booted.drives unit).symm.trans there) (by simp)
  · rw [booted.counted] at inside
    exact absurd inside (by simp)
  · exact absurd ((booted.drives unit).symm.trans there) (by simp)

end

/-- The program started, and then any calls. -/
def ran (env : Nat → Beat) (ops : List Op) (w : World) : World :=
  ops.foldl (fun w op => op.run env w) (feederStart env w).2

/-- Every block the machine wrote is on its pack with the machine's last words, or in a slot
whose DIRTY bit is up, or counted in a loss. -/
def World.Accounted (w : World) : Prop :=
  ∀ block r, w.last block = some r → w.media block = keep w.linear r ∨
    (∃ s, w.face.owner s = some block ∧ w.face.dirty s = true ∧ w.face.content s = r) ∨
    block ∈ w.counted

/-- Every block the machine wrote to a unit's pack is on it. -/
def World.OnPack (w : World) (unit : Fin 8) : Prop :=
  ∀ d lba r, w.drives unit = some d → w.last ⟨d.pack.id, lba⟩ = some r →
    w.media ⟨d.pack.id, lba⟩ = keep w.linear r

theorem Inv.onPack {w : World} (inv : Inv none none w) {unit : Fin 8}
    (clean : ∀ s d lba, w.drives unit = some d → w.face.owner s = some ⟨d.pack.id, lba⟩ →
      w.face.dirty s = false) : w.OnPack unit := by
  intro d lba r there wrote
  obtain onPack | ⟨s, own, dirty, -⟩ | counted := inv.safe _ r (by simp) wrote
  · exact onPack
  · exact absurd (dirty.symm.trans (clean s d lba there own)) (by simp)
  · exact absurd counted (inv.uncounted unit d lba there (by simp))

/-- The slots are twenty-four. -/
local instance slotCount : NeZero 24 := ⟨by decide⟩

/-- A program that has not started, over a store nothing was written to. -/
def blank : World where
  face := { dirty := fun _ => false, content := fun _ _ => 0#32, owner := fun _ => none }
  linear := false
  table := fun _ => none
  hand := 0
  haveLast := false
  lastAnswered := 0#31
  repeatServes := 0
  drives := fun _ => none
  opened := 0
  media := fun _ _ => 0#32
  failures := 0
  flushed := 0
  lostAtStart := 0
  lostEvents := 0
  lostBlocks := 0
  last := fun _ => none
  counted := []
  log := []
  fetched := fun _ => none
  placed := []
  clock := 0

theorem booted_blank : Booted blank :=
  ⟨fun _ => rfl, fun _ => rfl, rfl, rfl, fun _ _ own => by simp [blank] at own,
    fun _ _ wrote => by simp [blank] at wrote⟩

/-- A pack of one block in drive 0, which the machine asks for and writes, and what the face
makes of its write-back. -/
def oneBlock (wrote : Reply) (clock : Nat) : Beat where
  before := if clock = 40 then [(0, fun _ => 1#32)] else []
  after := []
  reply := if clock = 41 then wrote else .runs 0 false
  word := if clock = 36 then 0x80000000#32 else 0#32
  area := fun _ => 0#32
  pad := feederPoison (feederWbAddr 0) 259
  file := .done
  readable := true
  look :=
    { there := clock == 27, isPack := true, readOnly := false, dev := 0, ino := 0, size := 1024 }
  alive := true
  opens := some (⟨1, 1, 1⟩, 1)
  reopens := true

end MuirFpga.Packs
