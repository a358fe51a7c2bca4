import MuirFpga.Folders.Commands

/-!
# Inside the mount

What a command does to a path it does inside the folder of the mount its name selects, and what it writes it
writes under a mount that is not read-only.
-/

namespace MuirFpga.Folders

open MuirFpga.Posix

section Calls

variable {h : Host} {p dir : Path} {c : Component} {st : Stat}

theorem call_ok {α : Type} {c : Call} {result : Except Errno α} {x : α} (ok : h.call c result = .ok x) :
    result = .ok x := by
  unfold Host.call at ok
  cases fails : h.fails c with
  | some e => rw [fails] at ok; exact nomatch ok
  | none => rw [fails] at ok; exact ok

theorem statAt_ok (ok : h.statAt p = .ok st) : h.tree.node p = some st.node := by
  unfold Host.statAt at ok
  cases node : h.tree.node p with
  | none => rw [node] at ok; exact nomatch ok
  | some n =>
    rw [node] at ok
    exact Except.ok.inj ok ▸ rfl

theorem lstat_ok (canonical : Canonical h.tree dir) (isDir : h.tree.node dir = some .dir)
    (ok : h.lstat (dir ++ [c]) = .ok st) : h.tree.node (dir ++ [c]) = some st.node := by
  have ok := call_ok ok
  rw [canonical.followParent isDir] at ok
  exact statAt_ok ok

theorem stat_ok (canonical : Canonical h.tree p) (ok : h.stat p = .ok st) : h.tree.node p = some st.node := by
  have ok := call_ok ok
  rw [canonical.follow] at ok
  exact statAt_ok ok

theorem realpath_ok {real : Path} (ok : h.realpath p = .ok real) : Canonical h.tree real :=
  follow_canonical (call_ok ok)

end Calls

section Keeps

variable {h : Host}

/-- An act that touches nothing outside a mount's folder, and writes under none that is read-only. -/
def Keeps (mount : Mount h.tree) (a : Act) : Prop :=
  (∀ p, a.Touches h.tree p → mount.path <+: p) ∧ (a.writes = true → mount.ro = false)

/-- An entry of a folder that is inside the mount's. -/
structure EntryIn (t : Tree) (root p : Path) : Prop where
  entry : ∃ dir c, p = dir ++ [c] ∧ Canonical t dir ∧ t.node dir = some .dir ∧ root <+: dir

variable {t : Tree} {root p q : Path}

theorem EntryIn.reached (placed : EntryIn t root p) (ok : followParent t p = .ok q) : root <+: q := by
  obtain ⟨dir, c, rfl, canonical, isDir, inside⟩ := placed.entry
  rw [canonical.followParent isDir] at ok
  exact Except.ok.inj ok ▸ inside.trans (List.prefix_append dir [c])

theorem EntryIn.sibling (placed : EntryIn t root p) (c : Component) : EntryIn t root (p.dropLast ++ [c]) := by
  obtain ⟨dir, _, rfl, canonical, isDir, inside⟩ := placed.entry
  rw [List.dropLast_concat]
  exact ⟨dir, c, rfl, canonical, isDir, inside⟩

theorem EntryIn.of_canonical (canonical : Canonical t p) (inside : root <+: p) (other : root ≠ p) :
    EntryIn t root p := by
  cases canonical with
  | root => exact absurd (List.prefix_nil.mp inside) other
  | child parent dir =>
    refine ⟨_, _, rfl, parent, dir, ?_⟩
    rcases List.prefix_concat_iff.mp inside with same | inside
    · exact absurd same other
    · exact inside

variable {mount : Mount h.tree}

theorem keeps_openFolder (canonical : Canonical h.tree p) (inside : mount.path <+: p) :
    Keeps mount (.openFolder p) := by
  refine ⟨fun q touched => ?_, nofun⟩
  have same := (List.mem_singleton.mp touched).trans canonical.follow
  exact Except.ok.inj same ▸ inside

theorem keeps_openRead (canonical : Canonical h.tree p) (inside : mount.path <+: p) : Keeps mount (.openRead p) :=
  keeps_openFolder canonical inside

theorem keeps_entry {a : Act} (placed : EntryIn h.tree mount.path p) (writable : mount.ro = false)
    (one : a.reached h.tree = [followParent h.tree p]) : Keeps mount a := by
  refine ⟨fun q touched => ?_, fun _ => writable⟩
  rw [Act.Touches, one] at touched
  exact placed.reached (List.mem_singleton.mp touched).symm

theorem keeps_entries {a : Act} (left : EntryIn h.tree mount.path p) (right : EntryIn h.tree mount.path q)
    (writable : mount.ro = false) (two : a.reached h.tree = [followParent h.tree p, followParent h.tree q]) :
    Keeps mount a := by
  refine ⟨fun r touched => ?_, fun _ => writable⟩
  rw [Act.Touches, two] at touched
  rcases List.mem_pair.mp touched with first | second
  · exact left.reached first.symm
  · exact right.reached second.symm

end Keeps

section Lookup

variable {h : Host} {mount : Mount h.tree} {follow : Bool} {cur here : Path} {c : Component}

theorem within_act {P : Act → Prop} {a : Act} (holds : P a) : Within P (fun _ => True) (h.act a) :=
  (Within.log holds).bind fun _ _ => .pure trivial

theorem exactCase_within (canonical : Canonical h.tree cur) (inside : mount.path <+: cur) :
    Within (Keeps mount) (fun _ => True) (exactCase h cur c) := by
  refine .ite (fun _ => .pure trivial) fun _ => ?_
  refine (within_act (keeps_openFolder canonical inside)).bind fun failed _ => ?_
  cases failed <;> exact .pure trivial

/-- What a component comes to: itself, where it is the last and not followed, else a canonical path inside
the mount's folder. -/
structure Led (mount : Mount h.tree) (follow last : Bool) (here path : Path) (st : Stat) : Prop where
  kept : follow = false → last = true → path = here
  followed : follow = true ∨ last = false →
    Canonical h.tree path ∧ mount.path <+: path ∧ h.tree.node path = some st.node

/-- Where a name looked up is. -/
structure Placed (mount : Mount h.tree) (follow : Bool) (f : Found) : Prop where
  absent : f.held = none → EntryIn h.tree mount.path f.path
  kept : follow = false → EntryIn h.tree mount.path f.path
  followed : follow = true → ∀ st, f.held = some st →
    Canonical h.tree f.path ∧ mount.path <+: f.path ∧ h.tree.node f.path = some st.node

theorem leads_within {P : Act → Prop} {last : Bool} {lm : Stat} (canonical : Canonical h.tree cur)
    (isDir : h.tree.node cur = some .dir) (within : mount.path <+: cur)
    (node : h.tree.node (cur ++ [c]) = some lm.node) :
    Within P (fun o => ∀ path st, o = some (path, st) → Led mount follow last (cur ++ [c]) path st)
      (leads h mount.path follow last (cur ++ [c]) lm) := by
  unfold leads
  refine .ite ?_ ?_
  · rintro ⟨link, onwards⟩
    cases resolved : h.realpath (cur ++ [c]) with
    | ok real =>
      refine .ite (fun _ => .throw _) fun inside => ?_
      have inside : mount.path <+: real := inside_pathText.mp (by simpa using inside)
      have canonical := realpath_ok resolved
      cases stat : h.stat real with
      | error e => exact .throw _
      | ok st =>
        refine .pure ?_
        rintro _ _ ⟨⟩
        refine ⟨fun kept isLast => ?_, fun _ => ⟨canonical, inside, stat_ok canonical stat⟩⟩
        rw [kept, isLast] at onwards
        exact absurd onwards (by decide)
    | error e =>
      have none : Within P (fun o => ∀ path st, o = some (path, st) → Led mount follow last (cur ++ [c]) path st)
          (if last then return none else throw .dnf : Dev (Option (Path × Stat))) :=
        .ite (fun _ => .pure nofun) fun _ => .throw _
      cases e with
      | noEntry => exact none
      | _ => exact .throw _
  · intro stays
    refine .ite (fun _ => .throw _) fun _ => .pure ?_
    rintro _ _ ⟨⟩
    refine ⟨fun _ _ => rfl, fun onwards => ⟨?_, within.trans (List.prefix_append cur [c]), node⟩⟩
    refine .child canonical isDir node ?_
    cases link : lm.node.isLink with
    | false => rfl
    | true => exact absurd ⟨link, by simpa using onwards⟩ stays

theorem entry_within (canonical : Canonical h.tree cur) (isDir : h.tree.node cur = some .dir)
    (within : mount.path <+: cur) :
    Within (Keeps mount) (fun o => ∀ lm, o = some lm → h.tree.node (cur ++ [c]) = some lm.node)
      (entry h cur c) := by
  unfold entry
  cases found : h.lstat (cur ++ [c]) with
  | error e => exact .ite (fun _ => .throw _) fun _ => .pure nofun
  | ok lm =>
    refine (exactCase_within canonical within).bind fun spelled _ => .pure ?_
    intro st same
    cases spelled with
    | false => exact nomatch same
    | true => exact Option.some.inj same ▸ lstat_ok canonical isDir found

theorem lookupFrom_within (rel : List Component) (canonical : Canonical h.tree cur)
    (isDir : h.tree.node cur = some .dir) (within : mount.path <+: cur) :
    Within (Keeps mount) (Placed mount follow) (lookupFrom h mount.path follow cur rel) := by
  induction rel generalizing cur with
  | nil => exact .throw _
  | cons c rest ih =>
    rw [lookupFrom]
    have here : EntryIn h.tree mount.path (cur ++ [c]) := ⟨cur, c, rfl, canonical, isDir, within⟩
    refine (entry_within canonical isDir within).bind fun o node => ?_
    cases o with
    | none =>
      refine .ite (fun _ => .pure ⟨fun _ => here, fun _ => here, nofun⟩) fun _ => .throw _
    | some lm =>
      refine (leads_within canonical isDir within (node lm rfl)).bind fun o led => ?_
      cases o with
      | none => exact .pure ⟨fun _ => here, fun _ => here, nofun⟩
      | some found =>
        obtain ⟨path, st⟩ := found
        have led := led path st rfl
        refine .ite (fun last => .pure ?_) fun more => .ite (fun _ => .throw _) fun isDir => ?_
        · refine ⟨nofun, fun kept => ?_, fun follows st' same => ?_⟩
          · exact led.kept kept last ▸ here
          · exact Option.some.inj same ▸ led.followed (.inl follows)
        · have ⟨canonical, within, node⟩ := led.followed (.inr (by simpa using more))
          have isDir := Node.isDir_iff.mp (by simpa using isDir)
          exact ih canonical (isDir ▸ node) within

theorem lookup_within {key : Key} {rel : List Component} (some_ : follow = true ∨ rel ≠ []) :
    Within (Keeps mount) (Placed mount follow) (lookup h follow (mount.place key rel)) := by
  unfold lookup
  dsimp only [Mount.place]
  cases rel with
  | nil =>
    have follows : follow = true := some_.resolve_right (absurd rfl)
    cases stat : h.stat mount.path with
    | error e => exact .throw _
    | ok st =>
      refine .pure ⟨nofun, fun kept => absurd (kept.symm.trans follows) (by decide), fun _ st' same => ?_⟩
      exact Option.some.inj same ▸ ⟨mount.canonical, List.prefix_refl _, stat_ok mount.canonical stat⟩
  | cons c rest => exact lookupFrom_within (c :: rest) mount.canonical mount.dir (List.prefix_refl _)

end Lookup

section Commands

variable {h : Host} {mount : Mount h.tree} {p : Path} {key : Key} {rel : List Component}

theorem listFolder_within {root : Path} {ro : Bool} (canonical : Canonical h.tree p) (inside : mount.path <+: p) :
    Within (Keeps mount) (fun _ => True) (listFolder h p root ro) := by
  refine (within_act (keeps_openFolder canonical inside)).bind fun failed _ => ?_
  cases failed with
  | some e => exact .throw _
  | none =>
    dsimp only
    cases h.fails (.readdir p) with
    | some e => exact .throw _
    | none => exact .pure trivial

theorem copyTo_within {temp : Path} (canonical : Canonical h.tree p) (inside : mount.path <+: p)
    (placed : EntryIn h.tree mount.path temp) (writable : mount.ro = false) :
    Within (Keeps mount) (fun _ => True) (copyTo h temp p) := by
  refine (within_act (keeps_openRead canonical inside)).bind fun failed _ => ?_
  cases failed.or (h.fails (.copy p)) with
  | none => exact .pure trivial
  | some e => exact (within_act (keeps_entry placed writable rfl)).bind fun _ _ => .throw _

theorem Placed.written {f : Found} {ifExists : Nat} {ifNoneError : Bool} (placed : Placed mount true f)
    (taken : writeRefused f ifExists ifNoneError = none) : EntryIn h.tree mount.path f.path := by
  cases held : f.held with
  | none => exact placed.absent held
  | some st =>
    have ⟨canonical, inside, node⟩ := placed.followed rfl st held
    refine .of_canonical canonical inside fun same => ?_
    have dir : st.node = .dir := Option.some.inj (node.symm.trans (same ▸ mount.dir))
    rw [writeRefused, held] at taken
    dsimp only at taken
    rw [if_pos (Node.isDir_iff.mpr dir)] at taken
    exact nomatch taken

theorem openTemp_within {f : Found} {ifExists : Nat} {ifNoneError : Bool} {k : Fin 64}
    (placed : Placed mount true f) (taken : writeRefused f ifExists ifNoneError = none)
    (writable : mount.ro = false) : Within (Keeps mount) (fun _ => True) (openTemp h f ifExists k) := by
  unfold openTemp
  refine Within.state.bind fun b _ => (Within.update _).bind fun _ _ => ?_
  have temp := (placed.written taken).sibling (tempName h.pid b.temps)
  refine (within_act (keeps_entry temp writable rfl)).bind fun failed _ => ?_
  cases failed with
  | some e => exact .throw _
  | none =>
    refine Within.bind (R := fun _ => True) ?_ fun _ _ => (Within.update _).bind fun _ _ => .pure trivial
    unfold heldAtFirst
    cases held : f.held with
    | none => exact .pure trivial
    | some st =>
      have ⟨canonical, inside, _⟩ := placed.followed rfl st held
      refine .ite (fun _ => ?_) fun _ => .pure trivial
      exact (copyTo_within canonical inside temp writable).bind fun _ _ => .pure trivial

theorem openWrite_within {ifExists : Nat} {ifNoneError : Bool} :
    Within (Keeps mount) (fun _ => True) (openWrite h (mount.place key rel) ifExists ifNoneError) := by
  refine .ite (fun _ => .throw _) fun _ => .ite (fun _ => .throw _) fun writable => ?_
  have writable : mount.ro = false := Bool.eq_false_iff.mpr writable
  refine .ite (fun _ => .throw _) fun _ => (lookup_within (.inl rfl)).bind fun f placed => ?_
  cases taken : writeRefused f ifExists ifNoneError with
  | some s => exact .throw _
  | none =>
    refine Within.state.bind fun b _ => ?_
    cases freeHandle b.handles with
    | none => exact .throw _
    | some k => exact openTemp_within placed taken writable

theorem openFound_within {st : Stat} {ro : Bool} (canonical : Canonical h.tree p) (inside : mount.path <+: p) :
    Within (Keeps mount) (fun _ => True) (openFound h p st ro) := by
  refine .ite (fun _ => .throw _) fun _ => Within.state.bind fun b _ => ?_
  cases freeHandle b.handles with
  | none => exact .throw _
  | some k =>
    refine (within_act (keeps_openRead canonical inside)).bind fun failed _ => ?_
    cases failed with
    | some e => exact .throw _
    | none => exact (Within.update _).bind fun _ _ => .pure trivial

theorem renameNoreplace_within {source target : Path} (left : EntryIn h.tree mount.path source)
    (right : EntryIn h.tree mount.path target) (writable : mount.ro = false) :
    Within (Keeps mount) (fun _ => True) (renameNoreplace h source target) := by
  refine (within_act (keeps_entries left right writable rfl)).bind fun failed _ => ?_
  cases failed with
  | none => exact .pure trivial
  | some e =>
    refine .ite (fun _ => .pure trivial) fun _ => ?_
    cases h.lstat target with
    | ok st => exact .pure trivial
    | error e => exact within_act (keeps_entries left right writable rfl)

end Commands

section Selected

variable {h : Host} {m : Mounts h.tree} {name : Bytes} {components : List Component}

/-- The mount a key is of. -/
def Mounts.keyed (m : Mounts h.tree) : Key → Option (Mount h.tree)
  | .default_ => m.default_
  | .named name => (m.namedMount name).map (·.2)
  | .bare => none

/-- The place of a name is under the mount it selects, which is its key's, or, where it selects none, bare and
read-only. -/
theorem place_cases (parsed : parseName name = .ok components) :
    (∃ mount key rel, m.place components = mount.place key rel ∧ m.select name = some mount ∧
        m.keyed key = some mount) ∨
      m.place components = ⟨.bare, none, true, components⟩ := by
  unfold Mounts.place Mounts.select
  rw [parsed]
  dsimp only
  cases head : components.head?.bind m.namedMount with
  | some found =>
    refine .inl ⟨found.2, .named found.1, components.tail, rfl, rfl, ?_⟩
    have ⟨c, _, named⟩ := Option.bind_eq_some_iff.mp head
    have own : found.1 = c := by simpa using List.find?_some named
    show (m.namedMount found.1).map (·.2) = _
    rw [own, named]
    rfl
  | none =>
    cases default_ : m.default_ with
    | some mount => exact .inl ⟨mount, .default_, components, rfl, rfl, default_⟩
    | none => exact .inr rfl

theorem lookup_bare {P : Act → Prop} {follow : Bool} {key : Key} {ro : Bool} {rel : List Component} :
    Within P (fun f => f.held = none) (lookup h follow ⟨key, none, ro, rel⟩) := by
  unfold lookup
  dsimp only
  match rel with
  | [] => exact .throw _
  | [_] => exact .pure rfl
  | _ :: _ :: _ => exact .throw _

/-- What is kept under the mount each of the names selects. -/
def Selected (m : Mounts h.tree) (names : List Bytes) (a : Act) : Prop :=
  ∃ mount, (∀ name ∈ names, m.select name = some mount) ∧ Keeps mount a

theorem within_selected {α : Type} {mount : Mount h.tree} {names : List Bytes} {run : Dev α}
    (select : ∀ name ∈ names, m.select name = some mount) (within : Within (Keeps mount) (fun _ => True) run) :
    Within (Selected m names) (fun _ => True) run :=
  within.mono (fun _ keeps => ⟨mount, select, keeps⟩) fun _ _ => trivial

theorem within_parsed {α : Type} {P : Act → Prop} {Q : α → Prop} {next : List Component → Dev α}
    (go : ∀ components, parseName name = .ok components → Within P Q (next components)) :
    Within P Q (match parseName name with
      | .error s => throw s
      | .ok components => next components) := by
  cases parsed : parseName name with
  | error s => exact .throw _
  | ok components => exact go components parsed

theorem cmdOpen_within (flags : Nat) : Within (Selected m [name]) (fun _ => True) (cmdOpen h m flags name) := by
  refine .ite (fun _ => .throw _) fun _ => within_parsed fun components parsed => ?_
  dsimp only
  rcases place_cases (m := m) parsed with ⟨mount, key, rel, placed, selects, -⟩ | placed
  all_goals rw [placed]
  · refine within_selected (List.forall_mem_singleton.mpr selects) ?_
    refine .ite (fun _ => openWrite_within) fun _ => .ite (fun _ => ?_) fun _ => ?_
    · exact .ite (fun _ => .throw _) fun _ => .pure trivial
    · refine (lookup_within (.inl rfl)).bind fun f placed => ?_
      cases held : f.held with
      | none => exact .throw _
      | some st =>
        obtain ⟨canonical, inside, _⟩ := placed.followed rfl st held
        refine .ite (fun _ => .throw _) fun _ => .ite (fun _ => ?_) fun _ => .pure trivial
        exact openFound_within canonical inside
  · refine .ite (fun _ => ?_) fun _ => .ite (fun _ => ?_) fun _ => ?_
    · exact .ite (fun _ => .throw _) fun _ => .throw _
    · exact .ite (fun _ => .throw _) fun _ => .pure trivial
    · refine lookup_bare.bind fun f none => ?_
      rw [none]
      exact .throw _

theorem cmdDelete_within : Within (Selected m [name]) (fun _ => True) (cmdDelete h m name) := by
  refine within_parsed fun components parsed => ?_
  dsimp only
  rcases place_cases (m := m) parsed with ⟨mount, key, rel, placed, selects, -⟩ | placed
  all_goals rw [placed]
  · refine within_selected (List.forall_mem_singleton.mpr selects) ?_
    refine .ite (fun _ => .throw _) fun _ => .ite (fun _ => .throw _) fun writable => ?_
    refine .ite (fun _ => .throw _) fun some_ => (lookup_within (.inr some_)).bind fun f placed => ?_
    have writable : mount.ro = false := Bool.eq_false_iff.mpr writable
    cases f.held with
    | none => exact .throw _
    | some st =>
      have act := keeps_entry (a := if st.node.isDir then .rmdir f.path else .unlink f.path)
        (placed.kept rfl) writable (by split <;> rfl)
      refine (within_act act).bind fun failed _ => ?_
      cases failed with
      | some e => exact .throw _
      | none => exact .pure trivial
  · exact .ite (fun _ => .throw _) fun _ => .throw _

theorem cmdCreateDirectory_within :
    Within (Selected m [name]) (fun _ => True) (cmdCreateDirectory h m name) := by
  refine within_parsed fun components parsed => ?_
  dsimp only
  rcases place_cases (m := m) parsed with ⟨mount, key, rel, placed, selects, -⟩ | placed
  all_goals rw [placed]
  · refine within_selected (List.forall_mem_singleton.mpr selects) ?_
    refine .ite (fun _ => .throw _) fun _ => .ite (fun _ => .throw _) fun writable => ?_
    have writable : mount.ro = false := Bool.eq_false_iff.mpr writable
    refine (lookup_within (.inl rfl)).bind fun f placed => ?_
    cases held : f.held with
    | some st => exact .throw _
    | none =>
      refine (within_act (keeps_entry (placed.absent held) writable rfl)).bind fun failed _ => ?_
      cases failed with
      | some e => exact .throw _
      | none => exact .pure trivial
  · exact .ite (fun _ => .throw _) fun _ => .throw _

theorem cmdRename_within {source target : Bytes} :
    Within (Selected m [source, target]) (fun _ => True) (cmdRename h m source target) := by
  unfold cmdRename
  cases left : parseName source with
  | error s => exact .throw _
  | ok fc =>
    cases right : parseName target with
    | error s => exact .throw _
    | ok tc =>
      dsimp only
      rcases place_cases (m := m) left with ⟨mount, key, rel, placed, selects, keyed⟩ | placed
      all_goals
        rw [placed]
        refine .ite (fun _ => .throw _) fun _ => .ite (fun _ => .throw _) fun writable => ?_
      · rcases place_cases (m := m) right with ⟨mount', key', rel', placed', selects', keyed'⟩ | placed'
        all_goals rw [placed'] at writable ⊢
        · refine .ite (fun _ => .throw _) fun some_ => .ite (fun _ => .throw _) fun same => ?_
          have same : sameKey (mount.place key rel) (mount'.place key' rel') = true := by simpa using same
          have same : key = key' := of_decide_eq_true same
          -- one key is one mount
          have mounts : mount = mount' := Option.some.inj (keyed.symm.trans (same ▸ keyed'))
          subst mounts
          have writable : mount.ro = false := (Bool.or_eq_false_iff.mp (Bool.eq_false_iff.mpr writable)).1
          have ⟨some_, some_'⟩ := not_or.mp some_
          refine within_selected (List.forall_mem_cons.mpr ⟨selects, List.forall_mem_singleton.mpr selects'⟩) ?_
          refine (lookup_within (.inr some_)).bind fun f placed => .ite (fun _ => .throw _) fun _ => ?_
          refine (lookup_within (.inr some_')).bind fun t placed' => .ite (fun _ => .throw _) fun _ => ?_
          refine (renameNoreplace_within (placed.kept rfl) (placed'.kept rfl) writable).bind fun failed _ => ?_
          cases failed with
          | some e => exact .throw _
          | none => exact .pure trivial
        · exact absurd (Bool.or_true _) writable
      · exact absurd (Bool.true_or _) writable

theorem list_within (parsed : parseName name = .ok components) :
    Within (Selected m [name]) (fun _ => True) (list h m components) := by
  refine .ite (fun root => ?_) fun _ => ?_
  · have selects : m.select name = m.default_ := by
      unfold Mounts.select
      rw [parsed, root]
      rfl
    unfold listRoot
    cases default_ : m.default_ with
    | none =>
      refine Within.bind (R := fun _ => True) (.pure trivial) fun es _ => ?_
      dsimp only
      split
      · exact .throw _
      · exact .pure trivial
    | some mount =>
      refine Within.bind (R := fun _ => True) ?_ fun es _ => ?_
      · refine within_selected (List.forall_mem_singleton.mpr (selects.trans default_)) ?_
        exact listFolder_within mount.canonical (List.prefix_refl _)
      · dsimp only
        split
        · exact .throw _
        · exact .pure trivial
  · dsimp only
    rcases place_cases (m := m) parsed with ⟨mount, key, rel, placed, selects, -⟩ | placed
    all_goals rw [placed]
    · refine within_selected (List.forall_mem_singleton.mpr selects) ?_
      refine (lookup_within (.inl rfl)).bind fun f placed => ?_
      cases held : f.held with
      | none => exact .throw _
      | some st =>
        obtain ⟨canonical, inside, _⟩ := placed.followed rfl st held
        exact .ite (fun _ => listFolder_within canonical inside) fun _ => .throw _
    · refine lookup_bare.bind fun f none => ?_
      rw [none]
      exact .throw _

theorem cmdDirectory_within {first room : Nat} :
    Within (Selected m [name]) (fun _ => True) (cmdDirectory h m name first room) :=
  .ite (fun _ => .throw _) fun _ => within_parsed fun _ parsed => (list_within parsed).bind fun _ _ => .pure trivial

theorem cmdComplete_within {text : Bytes} {room : Nat} :
    Within (Selected m [(lastSlash text).1]) (fun _ => True) (cmdComplete h m text room) := by
  refine .ite (fun _ => .throw _) fun _ => .ite (fun _ => .throw _) fun _ => ?_
  refine within_parsed fun components parsed => (list_within parsed).bind fun es _ => ?_
  split
  · exact .pure trivial
  · exact .ite (fun _ => .throw _) fun _ => .pure trivial

end Selected

section Commands

/-- A command on names. -/
inductive Command where
  | openFile (flags : Nat) (name : Bytes)
  | delete (name : Bytes)
  | rename (source target : Bytes)
  | createDirectory (name : Bytes)
  | directory (name : Bytes) (first room : Nat)
  | complete (text : Bytes) (room : Nat)

/-- The names of a command: COMPLETE's is its text to the last slash. -/
def Command.names : Command → List Bytes
  | .openFile _ name | .delete name | .createDirectory name | .directory name _ _ => [name]
  | .rename source target => [source, target]
  | .complete text _ => [(lastSlash text).1]

/-- What a command does to the host's files. -/
def Command.acts (h : Host) (m : Mounts h.tree) (b : Books) : Command → List Act
  | .openFile flags name => logged (cmdOpen h m flags name) b
  | .delete name => logged (cmdDelete h m name) b
  | .rename source target => logged (cmdRename h m source target) b
  | .createDirectory name => logged (cmdCreateDirectory h m name) b
  | .directory name first room => logged (cmdDirectory h m name first room) b
  | .complete text room => logged (cmdComplete h m text room) b

def Mounts.all {t : Tree} (m : Mounts t) : List (Mount t) := m.default_.toList ++ m.named.map (·.2)

variable {h : Host} {m : Mounts h.tree}

theorem select_mem {name : Bytes} {mount : Mount h.tree} (selects : m.select name = some mount) : mount ∈ m.all := by
  unfold Mounts.select at selects
  cases parsed : parseName name with
  | error s => rw [parsed] at selects; exact nomatch selects
  | ok components =>
    rw [parsed] at selects
    dsimp only at selects
    cases head : components.head?.bind m.namedMount with
    | none =>
      rw [head] at selects
      exact List.mem_append_left _ (Option.mem_toList.mpr selects)
    | some found =>
      rw [head] at selects
      have ⟨c, _, named⟩ := Option.bind_eq_some_iff.mp head
      exact List.mem_append_right _ (List.mem_map.mpr ⟨found, List.mem_of_find?_eq_some named, Option.some.inj selects⟩)

theorem Command.names_ne_nil (cmd : Command) : cmd.names ≠ [] := by
  cases cmd <;> exact List.cons_ne_nil _ _

/-- What a command does is on a mount that its names select. -/
theorem acts_selected {cmd : Command} {b : Books} {a : Act} (done : a ∈ cmd.acts h m b) :
    Selected m cmd.names a := by
  cases cmd with
  | openFile flags name => exact (cmdOpen_within flags).logged done
  | delete name => exact cmdDelete_within.logged done
  | rename source target => exact cmdRename_within.logged done
  | createDirectory name => exact cmdCreateDirectory_within.logged done
  | directory name first room => exact cmdDirectory_within.logged done
  | complete text room => exact cmdComplete_within.logged done

/-- What a command touches is inside the folder of the one mount that its names select. What it writes it
writes under a mount that is not read-only, and in the folder of a read-only mount only where that one and
the mount selected lie one inside the other. -/
theorem acts_inside (cmd : Command) (b : Books) (a : Act) (done : a ∈ cmd.acts h m b) :
    ∃ mount ∈ m.all, (∀ name ∈ cmd.names, m.select name = some mount) ∧
      (∀ p, a.Touches h.tree p → mount.path <+: p) ∧
      (a.writes = true → mount.ro = false ∧
        ∀ other ∈ m.all, other.ro = true → ∀ p, a.Touches h.tree p → other.path <+: p →
          other.path <+: mount.path ∨ mount.path <+: other.path) := by
  have ⟨mount, selects, touches, writes⟩ := acts_selected done
  refine ⟨mount, ?_, selects, touches, fun write => ⟨writes write, ?_⟩⟩
  · have ⟨name, among⟩ := List.exists_mem_of_ne_nil _ cmd.names_ne_nil
    exact select_mem (selects name among)
  · intro other _ _ p touched inside
    exact List.prefix_or_prefix_of_prefix inside (touches p touched)

/-- A component of one byte. -/
def single (u : UInt8) (plain : u ≠ slash) : Component where
  text := [u]
  some_ := List.cons_ne_nil _ _
  slashless := by simpa using plain.symm

def partA : Component := single 0x61 (by decide)
def partB : Component := single 0x62 (by decide)
def partC : Component := single 0x63 (by decide)
def partL : Component := single 0x6c (by decide)
def partX : Component := single 0x78 (by decide)

/-- Folders one in the other, a link beside the inner one to it, and a file in it. -/
def nestedTree : Tree where
  node p :=
    if p = [] ∨ p = [partA] ∨ p = [partA, partB] then some .dir
    else if p = [partA, partL] then some (.link ⟨false, [.name partB]⟩)
    else if p = [partA, partB, partX] then some (.file 1) else none
  root := rfl

def nestedHost : Host where
  pid := 1
  tree := nestedTree
  mtime _ := 0
  names _ := []
  same _ _ := false
  fails _ := none

/-- The default folder, read-write, and a folder in it mounted again, read-only. -/
def nestedMounts : Mounts nestedHost.tree where
  default_ := some ⟨[partA], .child (p := []) .root nestedTree.root (n := .dir) rfl rfl, rfl, false⟩
  named := [(partC, ⟨[partA, partB], .child (p := [partA])
    (.child (p := []) .root nestedTree.root (n := .dir) rfl rfl) rfl (n := .dir) rfl rfl, rfl, true⟩)]

/-- DELETE of a file by its name under the default folder. -/
def nestedDelete : Command := .delete [slash, 0x62, slash, 0x78]

theorem nested_done :
    Act.unlink [partA, partB, partX] ∈ nestedDelete.acts nestedHost nestedMounts ⟨fun _ => none, 0⟩ := by
  decide

/-- It removes a file of the read-only mount. -/
theorem nested_written : ∃ a ∈ nestedDelete.acts nestedHost nestedMounts ⟨fun _ => none, 0⟩, a.writes = true ∧
    ∃ other ∈ nestedMounts.all, other.ro = true ∧ ∃ p, a.Touches nestedHost.tree p ∧ other.path <+: p :=
  ⟨_, nested_done, rfl, _, List.mem_append_right _ (List.mem_singleton.mpr rfl), rfl, [partA, partB, partX],
    List.mem_singleton.mpr rfl, ⟨[partX], rfl⟩⟩

/-- DELETE of the file through the link. -/
def linkedDelete : Command := .delete [slash, 0x6c, slash, 0x78]

/-- What it removes lies inside the folder its name selects. -/
theorem acts_inside_linked :
    Act.unlink [partA, partB, partX] ∈ linkedDelete.acts nestedHost nestedMounts ⟨fun _ => none, 0⟩ ∧
      ∃ mount ∈ nestedMounts.all, (∀ name ∈ linkedDelete.names, nestedMounts.select name = some mount) ∧
        ∀ p, (Act.unlink [partA, partB, partX]).Touches nestedHost.tree p → mount.path <+: p := by
  have done : Act.unlink [partA, partB, partX] ∈
      linkedDelete.acts nestedHost nestedMounts ⟨fun _ => none, 0⟩ := by decide
  have ⟨mount, among, selects, touches, _⟩ := acts_inside linkedDelete _ _ done
  exact ⟨done, mount, among, selects, touches⟩

end Commands

end MuirFpga.Folders
