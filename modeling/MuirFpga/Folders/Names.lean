import MuirFpga.Posix.Resolve

/-!
# Names and mounts

A name as the machine gives it, parsed to its components, and the mount it is under: the one its first
component names, else the default folder.
-/

namespace MuirFpga.Folders

open MuirFpga.Posix

/-- A response's status. -/
inductive Status where
  | fnf
  | dnf
  | fae
  | ref
  | acc
  | atf
  | dae
  | dne
  | nmr
  | iod
  | wkf
  | ips
  | ner
  | dat
  | rad
  | badArgument
deriving DecidableEq

def errnoStatus : Errno → Status
  | .loop => .acc
  | .noEntry => .fnf
  | .notDir => .dnf
  | .access | .permission => .acc
  | .readOnly => .atf
  | .noSpace | .quota => .nmr
  | .invalid | .nameTooLong => .ips
  | .notEmpty => .dne
  | .exists_ => .fae
  | .isDir => .iod
  | .noSystem | .other => .dat

def maxName : Nat := 1024

def maxComponent : Nat := 255

def dot : UInt8 := 0x2e

/-- A byte a component may have. -/
def validByte (u : UInt8) : Bool := 0o40 ≤ u ∧ u ≤ 0o176 ∧ u ≠ slash

def validComponent (c : Bytes) : Bool :=
  1 ≤ c.length ∧ c.length ≤ maxComponent ∧ c.all validByte ∧ c ≠ [dot] ∧ c ≠ [dot, dot]

/-- A valid component is one of a path. -/
def component (c : Bytes) (valid : validComponent c = true) : Component where
  text := c
  some_ := by
    rintro rfl
    exact absurd valid (by decide)
  slashless := by
    simp only [validComponent, decide_eq_true_eq] at valid
    intro within
    exact absurd (List.all_eq_true.mp valid.2.2.1 _ within) (by decide)

/-- The components of what is left of a name, with the bytes of the component begun. -/
def parseBody (begun : Bytes) : Bytes → Except Status (List Component)
  | [] => if valid : validComponent begun then .ok [component begun valid] else .error .ips
  | u :: rest =>
    if u = slash then
      if valid : validComponent begun then do
        let components ← parseBody [] rest
        .ok (component begun valid :: components)
      else .error .ips
    else parseBody (begun ++ [u]) rest

def parseName (name : Bytes) : Except Status (List Component) :=
  if name.length = 0 ∨ maxName < name.length ∨ name.head? ≠ some slash then .error .ips
  else
    let body := name.tail
    let body := if body.getLast? = some slash then body.dropLast else body
    if body = [] then .ok [] else parseBody [] body

/-- A host folder served to the machine, its links resolved. -/
structure Mount (t : Tree) where
  path : Path
  canonical : Canonical t path
  dir : t.node path = some .dir
  ro : Bool

/-- What is served: the default folder, the root `/`, if there is one, and the named mounts. -/
structure Mounts (t : Tree) where
  default_ : Option (Mount t)
  named : List (Component × Mount t)

section Place

variable {t : Tree} (m : Mounts t)

def Mounts.namedMount (name : Component) : Option (Component × Mount t) := m.named.find? (·.1 = name)

inductive Key where
  | default_
  | named (name : Component)
  | bare
deriving DecidableEq

structure Place where
  key : Key
  root : Option Path
  ro : Bool
  rel : List Component

/-- The mount's folder and what is below it. -/
def Mount.place (mount : Mount t) (key : Key) (rel : List Component) : Place := ⟨key, some mount.path, mount.ro, rel⟩

/-- Which mount a name is under. -/
def Mounts.place (components : List Component) : Place :=
  match components.head?.bind m.namedMount with
  | some (name, mount) => mount.place (.named name) components.tail
  | none =>
    match m.default_ with
    | some mount => mount.place .default_ components
    | none => ⟨.bare, none, true, components⟩

def sameKey (a b : Place) : Bool := a.key = b.key

/-- The mount a name's first component selects, or the default folder. -/
def Mounts.select (name : Bytes) : Option (Mount t) :=
  match parseName name with
  | .error _ => none
  | .ok components => ((components.head?.bind m.namedMount).map (·.2)).or m.default_

end Place

end MuirFpga.Folders
