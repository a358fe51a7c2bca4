import MuirFpga.Folders.Commands
import MuirFpga.Folders.Grammar
import Mathlib.Data.List.Nodup

/-!
# Completion

What COMPLETE answers for a listing: the longest prefix its matches have in common, how many they are, and
whether that is one of them. Asked again with what it gave, it gives the same.
-/

namespace MuirFpga.Folders

open MuirFpga.Posix

section Fixed

variable {h : Host} {m : Mounts h.tree} {root : Path} {follow : Bool}

theorem act_fixed (a : Act) : Fixed (h.act a) := (Fixed.log a).bind fun _ => .pure _

theorem exactCase_fixed (dir : Path) (name : Component) : Fixed (exactCase h dir name) := by
  apply Fixed.ite (.pure _)
  apply (act_fixed _).bind
  intro failed
  cases failed with
  | some e => exact .pure _
  | none => exact .pure _

theorem entry_fixed (cur : Path) (c : Component) : Fixed (entry h cur c) := by
  unfold entry
  cases h.lstat (cur ++ [c]) with
  | ok lm => exact (exactCase_fixed cur c).bind fun _ => .pure _
  | error e => exact .ite (.throw _) (.pure _)

theorem leads_fixed (last : Bool) (here : Path) (lm : Stat) : Fixed (leads h root follow last here lm) := by
  unfold leads
  apply Fixed.ite
  · cases h.realpath here with
    | ok real =>
      apply Fixed.ite (.throw _)
      cases h.stat real with
      | ok st => exact .pure _
      | error e => exact .throw _
    | error e =>
      cases e <;> first | exact .ite (.pure _) (.throw _) | exact .throw _
  · exact .ite (.throw _) (.pure _)

theorem lookupFrom_fixed (cur : Path) (components : List Component) :
    Fixed (lookupFrom h root follow cur components) := by
  induction components generalizing cur with
  | nil => exact .throw _
  | cons c rest ih =>
    apply (entry_fixed cur c).bind
    intro found
    cases found with
    | none => exact .ite (.pure _) (.throw _)
    | some lm =>
      apply (leads_fixed rest.isEmpty (cur ++ [c]) lm).bind
      intro to_
      cases to_ with
      | none => exact .pure _
      | some at_ => exact .ite (.pure _) (.ite (.throw _) (ih at_.1))

theorem lookup_fixed (p : Place) : Fixed (lookup h follow p) := by
  unfold lookup
  split
  · split
    · exact .throw _
    · exact .pure _
    · exact .throw _
  · split
    · split
      · exact .throw _
      · exact .pure _
    · exact lookupFrom_fixed _ _

theorem listFolder_fixed (dir : Path) (ro : Bool) : Fixed (listFolder h dir root ro) := by
  apply (act_fixed _).bind
  intro failed
  cases failed with
  | some e => exact .throw _
  | none =>
    dsimp only
    cases h.fails (.readdir dir) with
    | some e => exact .throw _
    | none => exact .pure _

/-- A listing changes nothing. -/
theorem list_fixed (components : List Component) : Fixed (list h m components) := by
  unfold list
  apply Fixed.ite
  · unfold listRoot
    cases m.default_ with
    | some mount =>
      refine (listFolder_fixed _ _).bind fun es => ?_
      dsimp only
      split
      · exact .throw _
      · exact .pure _
    | none =>
      refine (Fixed.pure _).bind fun es => ?_
      dsimp only
      split
      · exact .throw _
      · exact .pure _
  · apply (lookup_fixed _).bind
    intro f
    split
    · exact .ite (listFolder_fixed _ _) (.throw _)
    · exact .throw _

end Fixed

section Named

variable {h : Host} {m : Mounts h.tree} {root : Path}

/-- The names of a listing are names. -/
def AllValid (es : List Entry) : Prop := ∀ e ∈ es, validComponent e.name.text = true

theorem listed_valid {dir : Path} {ro : Bool} {name : Bytes} {e : Entry}
    (found : listed h dir root ro name = some e) : validComponent e.name.text = true := by
  unfold listed at found
  by_cases valid : validComponent name = true
  · rw [dif_pos valid] at found
    split at found
    · cases found
    · dsimp only at found
      obtain ⟨st, _, made⟩ := Option.bind_eq_some_iff.mp found
      split at made
      · rw [← Option.some.inj made]
        exact valid
      · cases made
  · rw [dif_neg valid] at found
    cases found

theorem sorted_valid {es : List Entry} (valid : AllValid es) : AllValid (sorted es) :=
  fun e among => valid e (List.mem_mergeSort.mp among)

theorem listFolder_valid (dir : Path) (ro : Bool) :
    Returns AllValid (listFolder h dir root ro) := by
  refine Returns.bind (R := fun _ => True) (fun _ _ _ => trivial) ?_
  intro failed _
  cases failed with
  | some e => exact .throw _
  | none =>
    dsimp only
    cases h.fails (.readdir dir) with
    | some e => exact .throw _
    | none =>
      apply Returns.pure
      apply sorted_valid
      intro e among
      obtain ⟨name, _, found⟩ := List.mem_filterMap.mp among
      exact listed_valid found

theorem mem_of_mapM {α β : Type} {f : α → Except Errno β} {l : List α} {r : List β} (ok : l.mapM f = .ok r) :
    ∀ y ∈ r, ∃ x ∈ l, f x = .ok y := by
  induction l generalizing r with
  | nil =>
    rw [List.mapM_nil] at ok
    cases ok
    exact fun _ among => (nomatch among)
  | cons x l ih =>
    rw [List.mapM_cons] at ok
    cases first : f x with
    | error e =>
      rw [first] at ok
      cases ok
    | ok y =>
      cases rest : l.mapM f with
      | error e =>
        rw [first, rest] at ok
        cases ok
      | ok ys =>
        rw [first, rest] at ok
        cases ok
        intro z among
        cases List.mem_cons.mp among with
        | inl here =>
          rw [here]
          exact ⟨x, List.mem_cons_self, first⟩
        | inr later =>
          obtain ⟨x', inside, gave⟩ := ih rest z later
          exact ⟨x', List.mem_cons_of_mem x inside, gave⟩

/-- The names of the mounts are names, as `qfd_mount_add` takes no other. -/
def MountsValid (m : Mounts h.tree) : Prop := ∀ mount ∈ m.named, validComponent mount.1.text = true

/-- The folder's entries with the mounts' are names if both are. -/
theorem mounted_valid (valid : MountsValid m) {es mounts : List Entry} (named : AllValid es)
    (ok : (m.named.mapM fun mount => (h.stat mount.2.path).map fun st => entryOf mount.1 st mount.2.ro) =
      .ok mounts) :
    AllValid (sorted (es.filter (fun e => (m.namedMount e.name).isNone) ++ mounts)) := by
  apply sorted_valid
  intro e among
  cases List.mem_append.mp among with
  | inl folder => exact named e (List.mem_of_mem_filter folder)
  | inr mounted =>
    obtain ⟨⟨name, mount⟩, inside, gave⟩ := mem_of_mapM ok e mounted
    dsimp only at gave
    cases found : h.stat mount.path with
    | error e' =>
      rw [found] at gave
      cases gave
    | ok st =>
      rw [found] at gave
      cases gave
      exact valid (name, mount) inside

theorem list_valid (valid : MountsValid m) (components : List Component) :
    Returns AllValid (list h m components) := by
  apply Returns.ite
  · unfold listRoot
    cases m.default_ with
    | none =>
      refine Returns.bind (R := AllValid) (.pure fun _ among => absurd among List.not_mem_nil) ?_
      intro es named
      dsimp only
      split
      · exact .throw _
      · next mounts ok => exact .pure (mounted_valid valid named ok)
    | some mount =>
      refine (listFolder_valid _ _).bind fun es named => ?_
      dsimp only
      split
      · exact .throw _
      · next mounts ok => exact .pure (mounted_valid valid named ok)
  · refine Returns.bind (R := fun _ => True) (fun _ _ _ => trivial) ?_
    intro f _
    split
    · exact .ite (listFolder_valid _ _) (.throw _)
    · exact .throw _

end Named

section Text

variable {text name begun c : Bytes}

theorem exists_parts (text : Bytes) :
    ∃ name c, text = name ++ c ∧ (name = [] ∨ name.getLast? = some slash) ∧ slash ∉ c := by
  induction text with
  | nil => exact ⟨[], [], rfl, .inl rfl, List.not_mem_nil⟩
  | cons u text ih =>
    obtain ⟨name, c, rfl, ended, plain⟩ := ih
    cases ended with
    | inr last =>
      refine ⟨u :: name, c, rfl, .inr ?_, plain⟩
      rw [List.getLast?_cons, last]
      rfl
    | inl none_ =>
      subst none_
      by_cases here : u = slash
      · exact ⟨[u], c, rfl, .inr (congrArg some here), plain⟩
      · refine ⟨[], u :: c, rfl, .inl rfl, ?_⟩
        intro among
        exact (List.mem_cons.mp among).elim (fun same => here same.symm) plain

theorem lastSlash_append (ended : name = [] ∨ name.getLast? = some slash) (plain : slash ∉ c) :
    lastSlash (name ++ c) = (name, c) := by
  have all : ∀ u ∈ c.reverse, decide (u ≠ slash) = true := by
    intro u among
    apply decide_eq_true
    rintro rfl
    exact plain (List.mem_reverse.mp among)
  have stops : name.reverse.takeWhile (· ≠ slash) = [] := by
    cases ended with
    | inl none_ =>
      rw [none_]
      rfl
    | inr last =>
      obtain ⟨front, rfl⟩ := List.getLast?_eq_some_iff.mp last
      rw [List.reverse_append]
      rfl
  have after : ((name ++ c).reverse.takeWhile (· ≠ slash)).reverse = c := by
    rw [List.reverse_append, List.takeWhile_append_of_pos all, stops, List.append_nil, List.reverse_reverse]
  unfold lastSlash
  rw [after]
  dsimp only
  rw [List.length_append, Nat.add_sub_cancel, List.take_left]

/-- The text is cut after its last slash. -/
theorem lastSlash_spec (text : Bytes) : (lastSlash text).1 ++ (lastSlash text).2 = text ∧
    ((lastSlash text).1 = [] ∨ (lastSlash text).1.getLast? = some slash) ∧ slash ∉ (lastSlash text).2 := by
  obtain ⟨name, c, rfl, ended, plain⟩ := exists_parts text
  rw [lastSlash_append ended plain]
  exact ⟨rfl, ended, plain⟩

end Text

section Completion

variable {es : List Entry} {begun : Bytes}

theorem mem_matching {e : Entry} : e ∈ matching es begun ↔ e ∈ es ∧ begun <+: e.name.text := by
  unfold matching
  rw [List.mem_filter, List.isPrefixOf_iff_prefix]

/-- What the matches have in common. -/
def InCommon (es : List Entry) (begun common : Bytes) : Prop :=
  ∀ p, p <+: common ↔ ∀ e ∈ matching es begun, p <+: e.name.text

/-- What all matches have in common matches the same. -/
theorem InCommon.matching_eq {common : Bytes} (inCommon : InCommon es begun common) :
    matching es common = matching es begun := by
  have extends_ : begun <+: common := (inCommon begun).mpr fun e among => (mem_matching.mp among).2
  unfold matching
  apply List.filter_congr
  intro e among
  rw [Bool.eq_iff_iff, List.isPrefixOf_iff_prefix, List.isPrefixOf_iff_prefix]
  constructor
  · exact extends_.trans
  · intro begins
    exact (inCommon common).mp (List.prefix_refl _) e (mem_matching.mpr ⟨among, begins⟩)

/-- A completion. -/
structure Completed (es : List Entry) (begun : Bytes) (reply : Reply) (common : Bytes) : Prop where
  inCommon : InCommon es begun common
  extends_ : begun <+: common
  count : reply.count.toNat = common.length
  number : es.length < 2 ^ 32 → reply.word6.toNat = (matching es begun).length
  whole : reply.flags.getLsbD 2 = true ↔ ∃ e ∈ es, e.name.text = common
  dir : ∀ e ∈ es, e.name.text = common → reply.flags.getLsbD 3 = e.dir

theorem flag_whole (dir : Bool) : (4 ||| bit dir 3).getLsbD 2 = true ∧ (4 ||| bit dir 3).getLsbD 3 = dir := by
  cases dir <;> decide

/-- The answer completes what was begun. -/
theorem completed {e : Entry} {rest : List Entry} (matches_ : matching es begun = e :: rest) (valid : AllValid es)
    (distinct : (es.map fun e => e.name.text).Nodup) :
    Completed es begun (answerOf es e rest).1 (answerOf es e rest).2 := by
  have inCommon : InCommon es begun (answerOf es e rest).2 := by
    intro p
    show p <+: rest.foldl (fun c e => shared c e.name.text) e.name.text ↔ _
    rw [matches_, ← List.foldl_map, prefix_foldl_shared, List.forall_mem_cons,
      List.forall_mem_map]
  have among : e ∈ es := (mem_matching.mp (matches_ ▸ List.mem_cons_self)).1
  have begins : (answerOf es e rest).2 <+: e.name.text :=
    (inCommon _).mp (List.prefix_refl _) e (matches_ ▸ List.mem_cons_self)
  refine ⟨inCommon, (inCommon begun).mpr fun e among => (mem_matching.mp among).2, ?_, ?_, ?_, ?_⟩
  · have few := (validComponent_iff.mp (valid e among)).few
    have short := begins.length_le
    show (BitVec.ofNat 32 (answerOf es e rest).2.length).toNat = _
    rw [BitVec.toNat_ofNat]
    exact Nat.mod_eq_of_lt (by omega)
  · intro few
    have length : (matching es begun).length ≤ es.length := List.length_filter_le _ _
    show (BitVec.ofNat 32 (rest.length + 1)).toNat = _
    rw [matches_, List.length_cons] at length ⊢
    rw [BitVec.toNat_ofNat]
    exact Nat.mod_eq_of_lt (by omega)
  · show (flagsOf es (answerOf es e rest).2).getLsbD 2 = true ↔ _
    unfold flagsOf
    cases found : es.find? fun e' => e'.name.text = (answerOf es e rest).2 with
    | none =>
      rw [List.find?_eq_none] at found
      constructor
      · intro none_
        exact absurd none_ (by decide)
      · rintro ⟨e', inside, same⟩
        exact absurd (decide_eq_true same) (found e' inside)
    | some e' =>
      have same : e'.name.text = (answerOf es e rest).2 := by simpa using List.find?_some found
      exact ⟨fun _ => ⟨e', List.mem_of_find?_eq_some found, same⟩, fun _ => (flag_whole e'.dir).1⟩
  · intro e' inside same
    show (flagsOf es (answerOf es e rest).2).getLsbD 3 = e'.dir
    unfold flagsOf
    cases found : es.find? fun e' => e'.name.text = (answerOf es e rest).2 with
    | none =>
      rw [List.find?_eq_none] at found
      exact absurd (decide_eq_true same) (found e' inside)
    | some first =>
      have also : first.name.text = (answerOf es e rest).2 := by simpa using List.find?_some found
      have own : first = e' :=
        List.inj_on_of_nodup_map distinct (List.mem_of_find?_eq_some found) inside (also.trans same.symm)
      rw [← own]
      exact (flag_whole first.dir).2

end Completion

theorem cmdComplete_listed {h : Host} {m : Mounts h.tree} {text : Bytes} {s : Books × List Act}
    {components : List Component} {es : List Entry} {e : Entry} {rest : List Entry} (some_ : (lastSlash text).1 ≠ [])
    (fits : ¬(maxComponent < (lastSlash text).2.length ∨ (!(lastSlash text).2.all validByte) = true))
    (parsed : parseName (lastSlash text).1 = .ok components)
    (listed : ((list h m components).run.run s).1 = .ok es)
    (matches_ : matching es (lastSlash text).2 = e :: rest) (room : Nat) :
    ((cmdComplete h m text room).run.run s).1 =
      if room < (answerOf es e rest).2.length then .error .badArgument else .ok (answerOf es e rest) := by
  unfold cmdComplete
  dsimp only
  rw [if_neg some_, if_neg fits, parsed]
  dsimp only
  rw [run_bind, listed]
  dsimp only
  rw [matches_]
  dsimp only
  split <;> rfl

/-- A COMPLETE answered with matches: the folder listed, its names distinct as a listing's are. -/
structure Completing (h : Host) (m : Mounts h.tree) (text : Bytes) (room : Nat) where
  before : Books × List Act
  components : List Component
  es : List Entry
  reply : Reply
  common : Bytes
  mounts : MountsValid m
  parsed : parseName (lastSlash text).1 = .ok components
  listed : ((list h m components).run.run before).1 = .ok es
  distinct : (es.map fun e => e.name.text).Nodup
  answered : ((cmdComplete h m text room).run.run before).1 = .ok (reply, common)
  some_ : matching es (lastSlash text).2 ≠ []

/-- COMPLETE's answer is the completion, and asked again with it, it answers the same. -/
theorem Completing.completes {h : Host} {m : Mounts h.tree} {text : Bytes} {room : Nat} (c : Completing h m text room) :
    Completed c.es (lastSlash text).2 c.reply c.common ∧
      ∀ s again, c.common.length ≤ again →
        ((cmdComplete h m ((lastSlash text).1 ++ c.common) again).run.run s).1 = .ok (c.reply, c.common) := by
  have valid : AllValid c.es := list_valid c.mounts c.components c.before c.es c.listed
  have answered := c.answered
  have some_ : (lastSlash text).1 ≠ [] := by
    intro none_
    unfold cmdComplete at answered
    dsimp only at answered
    rw [if_pos none_] at answered
    cases answered
  have fits : ¬(maxComponent < (lastSlash text).2.length ∨ (!(lastSlash text).2.all validByte) = true) := by
    intro unfit
    unfold cmdComplete at answered
    dsimp only at answered
    rw [if_neg some_, if_pos unfit] at answered
    cases answered
  obtain ⟨e, rest, matches_⟩ := List.exists_cons_of_ne_nil c.some_
  rw [cmdComplete_listed some_ fits c.parsed c.listed matches_] at answered
  split at answered
  · cases answered
  next room =>
  have answer : answerOf c.es e rest = (c.reply, c.common) := Except.ok.inj answered
  have done := completed matches_ valid c.distinct
  rw [answer] at done
  refine ⟨done, fun s again enough => ?_⟩
  have among : e ∈ matching c.es (lastSlash text).2 := matches_ ▸ List.mem_cons_self
  have begins : c.common <+: e.name.text := (done.inCommon _).mp (List.prefix_refl _) e among
  have named := validComponent_iff.mp (valid e (mem_matching.mp among).1)
  have parts : lastSlash ((lastSlash text).1 ++ c.common) = ((lastSlash text).1, c.common) :=
    lastSlash_append (lastSlash_spec text).2.1 fun inside => named.slashless (begins.subset inside)
  have fitsAgain : ¬(maxComponent < c.common.length ∨ (!c.common.all validByte) = true) := by
    rw [not_or, Bool.not_eq_true', Bool.not_eq_false, List.all_eq_true]
    exact ⟨not_lt.mpr (begins.length_le.trans named.few), fun u inside =>
      decide_eq_true (named.bytes u (begins.subset inside))⟩
  have matchesAgain : matching c.es c.common = e :: rest := done.inCommon.matching_eq.trans matches_
  have listed := (list_fixed c.components s c.before).trans c.listed
  rw [cmdComplete_listed (by rw [parts]; exact some_) (by rw [parts]; exact fitsAgain) (by rw [parts]; exact c.parsed)
    listed (by rw [parts]; exact matchesAgain), answer, if_neg (not_lt.mpr enough)]

section Listing

/-- Sorting gives the one list of the same entries whose names ascend. -/
theorem sorted_eq {es ordered : List Entry} (perm : es.Perm ordered)
    (ascend : ordered.Pairwise fun a b => a.name.text < b.name.text) : sorted es = ordered := by
  have sorts : (sorted es).Pairwise fun a b => a.name.text ≤ b.name.text := by
    refine (List.pairwise_mergeSort ?_ ?_ es).imp of_decide_eq_true
    · intro a b c below above
      exact decide_eq_true (List.le_trans (of_decide_eq_true below) (of_decide_eq_true above))
    · intro a b
      simpa using List.le_total a.name.text b.name.text
  have same : (sorted es).Perm ordered := (List.mergeSort_perm es _).trans perm
  have distinct : (ordered.map fun e => e.name.text).Nodup := by
    refine List.pairwise_map.mpr (ascend.imp fun below equal => ?_)
    rw [equal] at below
    exact List.lt_irrefl _ below
  refine same.eq_of_pairwise (fun a b among inside below above => ?_) sorts (ascend.imp List.le_of_lt)
  exact List.inj_on_of_nodup_map distinct (same.mem_iff.mp among) inside (List.le_antisymm below above)

def nameAb : Component := component [0x61, 0x62] (by decide)
def nameAbc : Component := component [0x61, 0x62, 0x63] (by decide)
def nameAbd : Component := component [0x61, 0x62, 0x64] (by decide)
def nameB : Component := component [0x62] (by decide)

/-- A folder of a folder and two files. -/
def listedTree : Tree where
  node p :=
    if p = [] ∨ p = [nameAb] ∨ p = [nameAb, nameAb] then some .dir
    else if p = [nameAb, nameAbc] ∨ p = [nameAb, nameB] then some (.file 5) else none
  root := rfl

/-- The host gives the folder's names as they come. -/
def listedHost : Host where
  pid := 1
  tree := listedTree
  mtime _ := 7
  names p := if p = [nameAb] then [nameAbc.text, nameB.text, [dot], nameAb.text, [dot, dot]] else []
  same _ _ := true
  fails _ := none

/-- The folder is the default one, and the folder in it is mounted by a name too. -/
def listedMounts : Mounts listedHost.tree where
  default_ := some ⟨[nameAb], .child (p := []) .root listedTree.root (n := .dir) rfl rfl, rfl, false⟩
  named := [(nameAbd, ⟨[nameAb, nameAb], .child (p := [nameAb])
    (.child (p := []) .root listedTree.root (n := .dir) rfl rfl) rfl (n := .dir) rfl rfl, rfl, true⟩)]

def entryAb : Entry := ⟨nameAb, true, false, 0, 7⟩
def entryAbc : Entry := ⟨nameAbc, false, false, 5, 7⟩
def entryAbd : Entry := ⟨nameAbd, true, true, 0, 7⟩
def entryB : Entry := ⟨nameB, false, false, 5, 7⟩

/-- The mount is listed among the folder's entries. -/
theorem listed_entries :
    ((list listedHost listedMounts []).run.run (⟨fun _ => none, 0⟩, [])).1 =
      .ok [entryAb, entryAbc, entryAbd, entryB] := by
  have folder : sorted ((listedHost.names [nameAb]).filterMap (listed listedHost [nameAb] [nameAb] false)) =
      [entryAb, entryAbc, entryB] := by
    refine sorted_eq ?_ (by decide)
    change ([entryAbc, entryB] ++ [entryAb]).Perm ([entryAb] ++ [entryAbc, entryB])
    exact List.perm_append_comm
  have root : sorted ([entryAb, entryAbc, entryB] ++ [entryAbd]) = [entryAb, entryAbc, entryAbd, entryB] := by
    refine sorted_eq ?_ (by decide)
    exact .cons _ (.cons _ (.swap _ _ _))
  change Except.ok (sorted ((sorted ((listedHost.names [nameAb]).filterMap
    (listed listedHost [nameAb] [nameAb] false))).filter (fun e => (listedMounts.namedMount e.name).isNone) ++
      [entryAbd])) = _
  rw [folder]
  exact congrArg Except.ok root

/-- "/a" completed: two of the folder and the mount begin with it, and share the name of a folder. -/
def listedCompleting : Completing listedHost listedMounts [slash, 0x61] 8 where
  before := (⟨fun _ => none, 0⟩, [])
  components := []
  es := [entryAb, entryAbc, entryAbd, entryB]
  reply := { count := 2, word6 := 3, flags := 12 }
  common := [0x61, 0x62]
  mounts := by
    unfold MountsValid
    decide
  parsed := by decide
  listed := listed_entries
  distinct := by decide
  answered := by
    rw [cmdComplete_listed (by decide) (by decide) rfl listed_entries rfl]
    rfl
  some_ := by decide

/-- Its answer is the completion, and asked again with it the device answers the same. -/
theorem completes_listed : Completed listedCompleting.es [0x61] { count := 2, word6 := 3, flags := 12 } [0x61, 0x62] ∧
    ∀ s again, 2 ≤ again → ((cmdComplete listedHost listedMounts [slash, 0x61, 0x62] again).run.run s).1 =
      .ok ({ count := 2, word6 := 3, flags := 12 }, [0x61, 0x62]) :=
  listedCompleting.completes

end Listing

end MuirFpga.Folders
