import MuirFpga.Folders.Names
import MuirFpga.Posix.Logged

/-!
# Lookup

A name looked up: every directory on the way resolved inside the mount's folder, and the last one followed if
asked. The host is a tree that does not change, what its folders list, which paths are one file, and an error
for any of its calls. What the device opens, lists, makes, renames and removes is logged; what it only looks
at is not.
-/

namespace MuirFpga.Folders

open MuirFpga.Posix

/-- What the device does to a path. -/
inductive Act where
  | openRead (p : Path)
  | openFolder (p : Path)
  | create (p : Path)
  | mkdir (p : Path)
  | rename (source target : Path)
  | renameNoreplace (source target : Path)
  | unlink (p : Path)
  | rmdir (p : Path)
deriving DecidableEq

/-- What an act comes to, with links followed as it follows them. -/
def Act.reached (t : Tree) : Act → List (Except Errno Path)
  | .openRead p | .openFolder p => [follow t p]
  | .create p | .mkdir p | .unlink p | .rmdir p => [followParent t p]
  | .rename a b | .renameNoreplace a b => [followParent t a, followParent t b]

def Act.Touches (t : Tree) (a : Act) (p : Path) : Prop := .ok p ∈ a.reached t

/-- An act that changes what it touches. -/
def Act.writes : Act → Bool
  | .openRead _ | .openFolder _ => false
  | _ => true

/-- A call that may fail with an error of its own. -/
inductive Call where
  | lstat (p : Path)
  | stat (p : Path)
  | realpath (p : Path)
  | readdir (p : Path)
  | copy (p : Path)
  | act (a : Act)

/-- The host's files, and the process on it. -/
structure Host where
  pid : Nat
  tree : Tree
  mtime : Path → Int
  names : Path → List Bytes
  same : Path → Path → Bool
  fails : Call → Option Errno

/-- `struct stat`. -/
structure Stat where
  node : Node
  mtime : Int

/-- A handle of the machine's. -/
inductive Handle where
  | read
  | write (temp target : Path) (noreplace : Bool) (held : Nat)

structure Books where
  handles : Fin 64 → Option Handle
  temps : Nat

abbrev Dev := Logged Status Books Act

section Calls

variable (h : Host)

/-- A call that may fail, or gives what the tree has. -/
def Host.call {α : Type} (c : Call) (result : Except Errno α) : Except Errno α :=
  match h.fails c with
  | some e => .error e
  | none => result

def Host.statAt (p : Path) : Except Errno Stat :=
  match h.tree.node p with
  | some n => .ok ⟨n, h.mtime p⟩
  | none => .error .noEntry

def Host.lstat (p : Path) : Except Errno Stat := h.call (.lstat p) ((followParent h.tree p).bind h.statAt)

def Host.stat (p : Path) : Except Errno Stat := h.call (.stat p) ((follow h.tree p).bind h.statAt)

def Host.realpath (p : Path) : Except Errno Path := h.call (.realpath p) (follow h.tree p)

/-- An act, and the error it fails with. -/
def Host.act (a : Act) : Dev (Option Errno) := do
  log a
  return h.fails (.act a)

end Calls

section Spelling

def letter (u : UInt8) : Bool := (0x61 ≤ u ∧ u ≤ 0x7a) ∨ (0x41 ≤ u ∧ u ≤ 0x5a)

def flipCase (u : UInt8) : UInt8 :=
  if 0x61 ≤ u ∧ u ≤ 0x7a then u - 0x61 + 0x41 else if 0x41 ≤ u ∧ u ≤ 0x5a then u - 0x41 + 0x61 else u

theorem flipCase_slash {u : UInt8} (flipped : flipCase u = slash) : u = slash := by
  have all : ∀ n < 256, flipCase (UInt8.ofNat n) = slash → UInt8.ofNat n = slash := by decide +kernel
  have own := all u.toNat u.toNat_lt
  rw [UInt8.ofNat_toNat] at own
  exact own flipped

def flipped (c : Component) : Component where
  text := c.text.map flipCase
  some_ := by simpa using c.some_
  slashless := by
    intro within
    have ⟨u, held, flipped⟩ := List.mem_map.mp within
    exact c.slashless (flipCase_slash flipped ▸ held)

/-- Whether `name`, found under `dir`, is spelled there as asked. -/
def exactCase (h : Host) (dir : Path) (name : Component) : Dev Bool :=
  let other := dir ++ [flipped name]
  let twin := match h.lstat other with
    | .ok _ => h.same other (dir ++ [name])
    | .error _ => false
  if !name.text.any letter || !twin then return true
  else do
    match ← h.act (.openFolder dir) with
    | some _ => return false
    | none => return decide (name.text ∈ h.names dir)

end Spelling

/-- A name looked up. -/
structure Found where
  path : Path
  held : Option Stat

section Lookup

variable (h : Host) (root : Path) (follow : Bool)

/-- What `realpath` gives lies inside the mount's folder. -/
def realInside (p : Path) : Bool :=
  match h.realpath p with
  | .ok real => inside (pathText real) (pathText root)
  | .error _ => false

/-- A component of `cur`, if it is there. -/
def entry (cur : Path) (c : Component) : Dev (Option Stat) :=
  match h.lstat (cur ++ [c]) with
  | .ok lm => do return if ← exactCase h cur c then some lm else none
  | .error e => if e ≠ .noEntry ∧ e ≠ .notDir then throw (errnoStatus e) else return none

/-- What a component that is there comes to; nothing, where the last one is a link that leads nowhere. -/
def leads (last : Bool) (here : Path) (lm : Stat) : Dev (Option (Path × Stat)) :=
  if lm.node.isLink ∧ (follow ∨ !last) then
    match h.realpath here with
    | .ok real =>
      if !inside (pathText real) (pathText root) then throw .acc
      else match h.stat real with
        | .error e => throw (errnoStatus e)
        | .ok st => return some (real, st)
    | .error .noEntry => if last then return none else throw .dnf
    | .error e => throw (errnoStatus e)
  -- a symlink kept as itself must still stay inside
  else if lm.node.isLink ∧ !realInside h root here then throw .acc
  else return some (here, lm)

/-- The components from `cur` on. -/
def lookupFrom (cur : Path) : List Component → Dev Found
  | [] => throw .dnf
  | c :: rest => do
    let last := rest.isEmpty
    let here := cur ++ [c]
    match ← entry h cur c with
    | none => if last then return ⟨here, none⟩ else throw .dnf
    | some lm =>
      match ← leads h root follow last here lm with
      | none => return ⟨here, none⟩
      | some (path, st) =>
        if last then return ⟨path, some st⟩
        else if !st.node.isDir then throw .dnf
        else lookupFrom path rest

end Lookup

def lookup (h : Host) (follow : Bool) (p : Place) : Dev Found :=
  match p.root with
  | none =>
    match p.rel with
    | [] => throw .iod
    | [_] => return ⟨[], none⟩
    | _ => throw .dnf
  | some root =>
    match p.rel with
    | [] =>
      match h.stat root with
      | .error e => throw (errnoStatus e)
      | .ok st => return ⟨root, some st⟩
    | rel => lookupFrom h root follow root rel

end MuirFpga.Folders
