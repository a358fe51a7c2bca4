import Mathlib.Data.List.Basic

/-!
# Paths and links

Path resolution as POSIX has it, over a tree that does not change: `.`, `..` and symbolic links, absolute or
relative, in the middle of a path or at its end. What it gives is canonical, and a canonical path is what it
gives of itself. One path lies inside another where its text begins with the other's and ends there or goes
on with a slash.
-/

namespace MuirFpga.Posix

abbrev Bytes := List UInt8

def slash : UInt8 := 0x2f

/-- A component of a path: a name of some bytes, with no slash. -/
structure Component where
  text : Bytes
  some_ : text ≠ []
  slashless : slash ∉ text
deriving DecidableEq

/-- A path from the root. -/
abbrev Path := List Component

/-- A step of a path as it is written. -/
inductive Step where
  | self
  | up
  | name (c : Component)

/-- What a symbolic link holds. -/
structure Target where
  absolute : Bool
  steps : List Step

/-- What a path without links is. -/
inductive Node where
  | dir
  | file (size : Nat)
  | link (target : Target)
  | other

def Node.isDir : Node → Bool
  | .dir => true
  | _ => false

def Node.isFile : Node → Bool
  | .file _ => true
  | _ => false

def Node.size : Node → Nat
  | .file size => size
  | _ => 0

def Node.isLink : Node → Bool
  | .link _ => true
  | _ => false

/-- `errno`, as far as a caller tells one from another. -/
inductive Errno where
  | loop
  | noEntry
  | notDir
  | access
  | permission
  | readOnly
  | noSpace
  | quota
  | invalid
  | nameTooLong
  | notEmpty
  | exists_
  | isDir
  | noSystem
  | other
deriving DecidableEq

/-- A tree of files: what stands at each path without links, if anything does. -/
structure Tree where
  node : Path → Option Node
  root : node [] = some .dir

section Resolve

variable (t : Tree)

/-- A step from what is no directory. -/
def blocked (cur : Path) : Option Errno :=
  match t.node cur with
  | none => some .noEntry
  | some n => if n.isDir then none else some .notDir

/-- The steps of a path from a path without links; a link on the way goes on as it is told. -/
def walk (onLink : Path → List Step → Except Errno Path) (cur : Path) : List Step → Except Errno Path
  | [] => .ok cur
  | step :: steps =>
    match blocked t cur with
    | some e => .error e
    | none =>
      match step with
      | .self => walk onLink cur steps
      | .up => walk onLink cur.dropLast steps
      | .name c =>
        match t.node (cur ++ [c]) with
        | none => .error .noEntry
        | some (.link target) => onLink (if target.absolute then [] else cur) (target.steps ++ steps)
        | some _ => walk onLink (cur ++ [c]) steps

/-- The steps of a path, with so many links to follow yet. -/
def resolve : Nat → Path → List Step → Except Errno Path
  | 0 => walk t fun _ _ => .error .loop
  | links + 1 => walk t (resolve links)

/-- How many links a path may have. -/
def maxLinks : Nat := 40

/-- A path, with every link followed: `realpath`. -/
def follow (p : Path) : Except Errno Path := resolve t maxLinks [] (p.map .name)

/-- A path, with every link but its last component followed. -/
def followParent (p : Path) : Except Errno Path :=
  match p.getLast? with
  | none => .ok []
  | some c => do
    let dir ← follow t p.dropLast
    match blocked t dir with
    | some e => .error e
    | none => .ok (dir ++ [c])

/-- A path of directories, without links, to something that is no link. -/
inductive Canonical : Path → Prop where
  | root : Canonical []
  | child {p : Path} {c : Component} {n : Node} (parent : Canonical p) (dir : t.node p = some .dir)
      (node : t.node (p ++ [c]) = some n) (plain : n.isLink = false) : Canonical (p ++ [c])

end Resolve

section Facts

variable {t : Tree} {p q cur : Path}

theorem Node.isDir_iff {n : Node} : n.isDir = true ↔ n = .dir := by
  cases n <;> simp [Node.isDir]

theorem blocked_eq_none : blocked t cur = none ↔ t.node cur = some .dir := by
  unfold blocked
  split
  · next absent => simp [absent]
  · next n node =>
    rw [node, Option.some.injEq, ← Node.isDir_iff]
    cases n.isDir <;> simp

theorem Canonical.dropLast (canonical : Canonical t p) : Canonical t p.dropLast := by
  cases canonical with
  | root => exact .root
  | child parent =>
    rw [List.dropLast_concat]
    exact parent

theorem walk_name {onLink : Path → List Step → Except Errno Path} {c : Component} {steps : List Step} {n : Node}
    (dir : t.node cur = some .dir) (node : t.node (cur ++ [c]) = some n) (plain : n.isLink = false) :
    walk t onLink cur (.name c :: steps) = walk t onLink (cur ++ [c]) steps := by
  rw [walk, blocked_eq_none.mpr dir]
  dsimp only
  rw [node]
  cases n with
  | link => exact nomatch plain
  | dir | file | other => rfl

theorem walk_canonical {onLink : Path → List Step → Except Errno Path}
    (onwards : ∀ cur steps, Canonical t cur → onLink cur steps = .ok q → Canonical t q)
    (steps : List Step) (canonical : Canonical t cur) (walked : walk t onLink cur steps = .ok q) :
    Canonical t q := by
  induction steps generalizing cur with
  | nil => exact Except.ok.inj walked ▸ canonical
  | cons step steps ih =>
    rw [walk.eq_def] at walked
    dsimp only at walked
    cases blocks : blocked t cur with
    | some e => rw [blocks] at walked; exact nomatch walked
    | none =>
      rw [blocks] at walked
      cases step with
      | self => exact ih canonical walked
      | up => exact ih canonical.dropLast walked
      | name c =>
        dsimp only at walked
        cases node : t.node (cur ++ [c]) with
        | none => rw [node] at walked; exact nomatch walked
        | some n =>
          rw [node] at walked
          have child (plain : n.isLink = false) : Canonical t (cur ++ [c]) :=
            .child canonical (blocked_eq_none.mp blocks) node plain
          cases n with
          | link target =>
            refine onwards _ _ ?_ walked
            cases target.absolute
            · exact canonical
            · exact .root
          | dir | file | other => exact ih (child rfl) walked

theorem resolve_canonical {links : Nat} {steps : List Step} (canonical : Canonical t cur)
    (resolved : resolve t links cur steps = .ok q) : Canonical t q := by
  induction links generalizing cur steps with
  | zero =>
    refine walk_canonical ?_ steps canonical resolved
    intro cur steps canonical loop
    exact nomatch loop
  | succ links ih => exact walk_canonical (fun _ _ canonical on => ih canonical on) steps canonical resolved

theorem follow_canonical (followed : follow t p = .ok q) : Canonical t q := resolve_canonical .root followed

theorem Canonical.walk_append {onLink : Path → List Step → Except Errno Path} (canonical : Canonical t p)
    (steps : List Step) : walk t onLink [] (p.map .name ++ steps) = walk t onLink p steps := by
  induction canonical generalizing steps with
  | root => rfl
  | child parent dir node plain ih =>
    rw [List.map_append, List.append_assoc, ih]
    exact walk_name dir node plain

theorem Canonical.resolve_append {links : Nat} (canonical : Canonical t p) (steps : List Step) :
    resolve t links [] (p.map .name ++ steps) = resolve t links p steps := by
  cases links with
  | zero => exact canonical.walk_append steps
  | succ links => exact canonical.walk_append steps

theorem Canonical.follow (canonical : Canonical t p) : follow t p = .ok p := by
  have led : resolve t maxLinks [] (p.map .name ++ []) = resolve t maxLinks p [] := canonical.resolve_append []
  rw [List.append_nil] at led
  exact led

theorem Canonical.followParent {c : Component} (canonical : Canonical t p) (dir : t.node p = some .dir) :
    followParent t (p ++ [c]) = .ok (p ++ [c]) := by
  unfold Posix.followParent
  rw [List.getLast?_concat, List.dropLast_concat]
  dsimp only
  rw [canonical.follow]
  show (match blocked t p with
    | some e => Except.error e
    | none => Except.ok (p ++ [c])) = _
  rw [blocked_eq_none.mpr dir]

end Facts

section Texts

/-- A path as it is written. -/
def Component.written (c : Component) : Bytes := slash :: c.text

def pathText (p : Path) : Bytes := if p = [] then [slash] else p.flatMap Component.written

/-- `path` is `root` or below it, by their texts. -/
def inside (path root : Bytes) : Bool :=
  let n := root.length
  if n = 1 ∧ root.head? = some slash then path.head? = some slash
  else path.take n = root ∧ (path[n]? = some slash ∨ path[n]? = none)

/-- Nothing, or text that begins with a slash. -/
def Ended (s : Bytes) : Prop := s.head? = none ∨ s.head? = some slash

theorem ended_flatMap (p : Path) : Ended (p.flatMap Component.written) := by
  cases p with
  | nil => exact .inl rfl
  | cons c p => exact .inr rfl

theorem name_eq {a b x y : Bytes} (plain : slash ∉ a) (plain' : slash ∉ b) (ended : Ended x) (ended' : Ended y)
    (same : a ++ x = b ++ y) : a = b ∧ x = y := by
  have cut {a x : Bytes} (plain : slash ∉ a) (ended : Ended x) : (a ++ x).takeWhile (· ≠ slash) = a := by
    rw [List.takeWhile_append_of_pos fun u within => by
      simpa using fun equal : u = slash => plain (equal ▸ within)]
    cases x with
    | nil => simp
    | cons u x =>
      have slashed : u = slash := by
        rcases ended with none | some
        · exact nomatch none
        · exact Option.some.inj some
      simp [slashed]
  have left : a = b := by rw [← cut plain ended, same, cut plain' ended']
  exact ⟨left, List.append_cancel_left (left ▸ same)⟩

theorem flatMap_isPrefix {p root : Path} :
    (∃ rest, Ended rest ∧ p.flatMap Component.written = root.flatMap Component.written ++ rest) ↔ root <+: p := by
  constructor
  · intro written
    induction root generalizing p with
    | nil => exact List.nil_prefix
    | cons r root ih =>
      obtain ⟨rest, ended, same⟩ := written
      cases p with
      | nil => exact nomatch same
      | cons c p =>
        have same : c.text ++ p.flatMap Component.written
            = r.text ++ (root.flatMap Component.written ++ rest) := by
          rw [List.flatMap_cons, List.flatMap_cons, List.append_assoc] at same
          exact (List.cons.inj same).2
        have ended : Ended (root.flatMap Component.written ++ rest) := by
          cases root with
          | nil => exact ended
          | cons r root => exact .inr rfl
        have ⟨texts, rests⟩ := name_eq c.slashless r.slashless (ended_flatMap p) ended same
        have component : r = c := by
          cases r
          cases c
          cases texts
          rfl
        rw [component]
        exact List.cons_prefix_cons.mpr ⟨rfl, ih ⟨rest, by assumption, rests⟩⟩
  · rintro ⟨rest, rfl⟩
    exact ⟨_, ended_flatMap rest, List.flatMap_append⟩

theorem cut_iff {s r : Bytes} :
    (s.take r.length = r ∧ (s[r.length]? = some slash ∨ s[r.length]? = none)) ↔ ∃ rest, Ended rest ∧ s = r ++ rest := by
  constructor
  · rintro ⟨begins, ends⟩
    refine ⟨s.drop r.length, ?_, ?_⟩
    · rw [Ended, List.head?_drop]
      exact ends.symm
    · have whole := List.take_append_drop r.length s
      rw [begins] at whole
      exact whole.symm
  · rintro ⟨rest, ended, rfl⟩
    refine ⟨List.take_left, ?_⟩
    rw [List.getElem?_append_right (Nat.le_refl _), Nat.sub_self, ← List.head?_eq_getElem?]
    exact ended.symm

theorem inside_pathText {p root : Path} : inside (pathText p) (pathText root) = true ↔ root <+: p := by
  have start (p : Path) : (pathText p).head? = some slash := by
    unfold pathText
    split
    · rfl
    · cases p with
      | nil => contradiction
      | cons c p => rfl
  unfold inside
  cases root with
  | nil =>
    show (decide _ = true) ↔ _
    rw [decide_eq_true_iff]
    exact iff_of_true (start p) List.nil_prefix
  | cons c root =>
    have text : pathText (c :: root) = (c :: root).flatMap Component.written := rfl
    have long : 1 < ((c :: root).flatMap Component.written).length := by
      have some_ := List.length_pos_of_ne_nil c.some_
      simp only [List.flatMap_cons, Component.written, List.length_append, List.length_cons]
      omega
    rw [text]
    dsimp only
    rw [if_neg fun one => by omega, decide_eq_true_iff, cut_iff, ← flatMap_isPrefix]
    cases p with
    | nil =>
      -- the root's own text is shorter than that of any other path
      refine iff_of_false ?_ ?_
      all_goals
        rintro ⟨rest, -, same⟩
        have lengths := congrArg List.length same
        rw [List.length_append] at lengths
      · exact absurd (show 1 = _ from lengths) (by omega)
      · exact absurd (show 0 = _ from lengths) (by omega)
    | cons d p => rfl

end Texts

end MuirFpga.Posix
