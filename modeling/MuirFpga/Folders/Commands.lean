import MuirFpga.Folders.Lookup
import MuirFpga.Posix.Prefixes
import Mathlib.Data.BitVec

/-!
# The commands

OPEN, DELETE, RENAME, CREATE-DIRECTORY, DIRECTORY and COMPLETE, from the bytes of their names and the room of
their buffers to what they answer. A write goes to a temporary file in the folder the target is in.
-/

namespace MuirFpga.Folders

open MuirFpga.Posix

abbrev Word := BitVec 32

def most : Nat := 0xFFFFFFFF

/-- The words of a response past word 0. -/
structure Reply where
  count : Word := 0
  handle : Word := 0
  len : Word := 0
  mtime : Word := 0
  flags : Word := 0
  word6 : Word := 0

def saturated (n : Nat) : Word := BitVec.ofNat 32 (min n most)

def Stat.mtimeOf (st : Stat) : Word := saturated st.mtime.toNat

def bit (b : Bool) (at_ : Nat) : Word := BitVec.ofNat 32 (b.toNat * 2 ^ at_)

def entryReply (r : Reply) (st : Stat) (ro : Bool) : Reply :=
  { r with
    len := saturated st.node.size
    mtime := st.mtimeOf
    flags := bit st.node.isDir 0 ||| bit ro 1 }

section Listing

/-- An entry of a listing. -/
structure Entry where
  name : Component
  dir : Bool
  ro : Bool
  len : Nat
  mtime : Word

def entryOf (name : Component) (st : Stat) (ro : Bool) : Entry :=
  ⟨name, st.node.isDir, ro, st.node.size, st.mtimeOf⟩

def sorted (es : List Entry) : List Entry := es.mergeSort fun a b => decide (a.name.text ≤ b.name.text)

def ascii (s : String) : Bytes := s.toList.map fun c => UInt8.ofNat c.toNat

/-- How a write's temporary file's name begins. -/
def tempPrefix : Bytes := ascii ".quux-write-"

variable (h : Host)

/-- The entry a name of a folder has, unless it is a temporary file, a name the rules refuse, a symlink that
leaves `root` or leads nowhere, or no file or directory. -/
def listed (dir root : Path) (ro : Bool) (name : Bytes) : Option Entry :=
  if valid : validComponent name then
    if tempPrefix.isPrefixOf name then none
    else
      let p := dir ++ [component name valid]
      let st := match h.lstat p with
        | .error _ => none
        | .ok lm =>
          if lm.node.isLink then
            if realInside h root p then ((h.realpath p).bind h.stat).toOption else none
          else some lm
      st.bind fun st =>
        if st.node.isFile || st.node.isDir then some (entryOf (component name valid) st ro) else none
  else none

def listFolder (dir root : Path) (ro : Bool) : Dev (List Entry) := do
  match ← h.act (.openFolder dir) with
  | some e => throw (errnoStatus e)
  | none =>
    match h.fails (.readdir dir) with
    | some e => throw (errnoStatus e)
    | none => return sorted ((h.names dir).filterMap (listed h dir root ro))

variable (m : Mounts h.tree)

/-- The entries at `/`: the default folder's and the mounts. -/
def listRoot : Dev (List Entry) := do
  let es ← match m.default_ with
    | some mount => listFolder h mount.path mount.path mount.ro
    | none => pure []
  let mounts := m.named.mapM fun (name, mount) => (h.stat mount.path).map fun st => entryOf name st mount.ro
  match mounts with
  | .error e => throw (errnoStatus e)
  | .ok mounts => return sorted (es.filter (fun e => (m.namedMount e.name).isNone) ++ mounts)

/-- The entries of the directory the components name. -/
def list (components : List Component) : Dev (List Entry) :=
  if components = [] then listRoot h m
  else do
    let p := m.place components
    let f ← lookup h true p
    match f.held, p.root with
    | some st, some root => if st.node.isDir then listFolder h f.path root p.ro else throw .wkf
    | _, _ => throw .dnf

end Listing

section Open

variable (h : Host)

def freeHandle (handles : Fin 64 → Option Handle) : Option (Fin 64) :=
  (List.finRange 64).find? fun k => (handles k).isNone

theorem digit_ne_slash {c : Char} (digit : c.isDigit = true) : UInt8.ofNat c.toNat ≠ slash := by
  have all : ∀ n < 58, 48 ≤ n → UInt8.ofNat n ≠ slash := by decide
  have ⟨least, most⟩ := Char.isDigit_iff_toNat.mp digit
  exact all c.toNat (Nat.lt_succ_of_le most) least

/-- The temporary file's name, of the process's number and the file's. -/
def tempName (pid n : Nat) : Component where
  text := tempPrefix ++ ((Nat.toDigits 10 pid ++ '-' :: Nat.toDigits 10 n).map fun c => UInt8.ofNat c.toNat)
  some_ := by simp [tempPrefix, ascii]
  slashless := by
    intro within
    rcases List.mem_append.mp within with begun | digits
    · exact absurd begun (by decide)
    · have ⟨c, among, same⟩ := List.mem_map.mp digits
      have digit {n : Nat} (among : c ∈ Nat.toDigits 10 n) : c.isDigit = true :=
        Nat.isDigit_of_mem_toDigits (by decide) (by decide) among
      rcases List.mem_append.mp among with pid | number
      · exact digit_ne_slash (digit pid) same
      · rcases List.mem_cons.mp number with dash | number
        · exact absurd (dash ▸ same) (by decide)
        · exact digit_ne_slash (digit number) same

/-- The file's bytes to the temporary file, which goes if they do not. -/
def copyTo (temp source : Path) : Dev Unit := do
  match (← h.act (.openRead source)).or (h.fails (.copy source)) with
  | some e => do
    let _ ← h.act (.unlink temp)
    throw (errnoStatus e)
  | none => return

/-- How much the temporary file holds: an append begins with what the file has. -/
def heldAtFirst (f : Found) (ifExists : Nat) (temp : Path) : Dev Nat :=
  match f.held with
  | some st => if ifExists = 2 then do copyTo h temp f.path; return st.node.size else return 0
  | none => return 0

/-- The temporary file in the folder the target is in, and its handle. -/
def openTemp (f : Found) (ifExists : Nat) (k : Fin 64) : Dev Reply := do
  let number := (← state).temps
  update fun b => { b with temps := number + 1 }
  let temp := f.path.dropLast ++ [tempName h.pid number]
  match ← h.act (.create temp) with
  | some e => throw (errnoStatus e)
  | none => do
    let held ← heldAtFirst h f ifExists temp
    update fun b =>
      { b with handles := Function.update b.handles k (some (.write temp f.path (ifExists = 1) held)) }
    return { handle := BitVec.ofNat 32 (k + 1), len := saturated held }

/-- Why what was found is not written. -/
def writeRefused (f : Found) (ifExists : Nat) (ifNoneError : Bool) : Option Status :=
  match f.held with
  | some st =>
    if st.node.isDir then some .iod
    else if !st.node.isFile then some .wkf
    else if ifExists = 1 then some .fae
    else if ifExists = 2 ∧ most < st.node.size then some .wkf
    else none
  | none => if ifNoneError then some .fnf else none

def openWrite (p : Place) (ifExists : Nat) (ifNoneError : Bool) : Dev Reply :=
  if p.key = .bare ∧ 1 < p.rel.length then throw .dnf
  else if p.ro then throw .atf
  else if p.rel = [] then throw .iod
  else do
    let f ← lookup h true p
    match writeRefused f ifExists ifNoneError with
    | some s => throw s
    | none =>
      match freeHandle (← state).handles with
      | none => throw .ner
      | some k => openTemp h f ifExists k

/-- The file found, opened to be read. -/
def openFound (path : Path) (st : Stat) (ro : Bool) : Dev Reply :=
  if st.node.isDir then throw .iod
  else do
    match freeHandle (← state).handles with
    | none => throw .ner
    | some k =>
      match ← h.act (.openRead path) with
      | some e => throw (errnoStatus e)
      | none =>
        update fun b => { b with handles := Function.update b.handles k (some .read) }
        return entryReply { handle := BitVec.ofNat 32 (k + 1) } st ro

variable (m : Mounts h.tree)

def cmdOpen (flags : Nat) (name : Bytes) : Dev Reply :=
  let mode := flags % 4
  let ifExists := flags / 4 % 4
  let ifNoneError := flags.testBit 4
  if mode = 3 ∨ ifExists = 3 then throw .badArgument
  else
    match parseName name with
    | .error s => throw s
    | .ok components =>
      let p := m.place components
      if mode = 1 then openWrite h p ifExists ifNoneError
      else if p.key = .bare ∧ p.rel = [] then
        if mode = 0 then throw .iod else return { flags := 1 ||| bit p.ro 1 }
      else do
        let f ← lookup h true p
        match f.held with
        | none => throw .fnf
        | some st =>
          if !(st.node.isFile || st.node.isDir) ∨ st.node.isFile ∧ most < st.node.size then throw .wkf
          else if mode = 0 then openFound h f.path st p.ro
          else return entryReply {} st p.ro

end Open

section Names

variable (h : Host) (m : Mounts h.tree)

/-- A file, or an empty directory. -/
def cmdDelete (name : Bytes) : Dev Reply :=
  match parseName name with
  | .error s => throw s
  | .ok components =>
    let p := m.place components
    if p.key = .bare ∧ 1 < p.rel.length then throw .dnf
    else if p.ro then throw .atf
    else if p.rel = [] then throw .acc
    else do
      let f ← lookup h false p
      match f.held with
      | none => throw .fnf
      | some st =>
        match ← h.act (if st.node.isDir then .rmdir f.path else .unlink f.path) with
        | some e => throw (errnoStatus e)
        | none => return {}

/-- `RENAME_NOREPLACE`; where the file system has no such flag, a look and then a rename. -/
def renameNoreplace (source target : Path) : Dev (Option Errno) := do
  match ← h.act (.renameNoreplace source target) with
  | none => return none
  | some e =>
    if e ≠ .invalid ∧ e ≠ .noSystem then return some e
    else match h.lstat target with
      | .ok _ => return some .exists_
      | .error _ => h.act (.rename source target)

/-- Never over an existing name, never across mounts. -/
def cmdRename (source target : Bytes) : Dev Reply :=
  match parseName source, parseName target with
  | .error s, _ => throw s
  | .ok _, .error s => throw s
  | .ok fc, .ok tc =>
    let fp := m.place fc
    let tp := m.place tc
    if (fp.key = .bare ∧ 1 < fp.rel.length) ∨ (tp.key = .bare ∧ 1 < tp.rel.length) then throw .dnf
    else if fp.ro || tp.ro then throw .atf
    else if fp.rel = [] ∨ tp.rel = [] then throw .acc
    else if !sameKey fp tp then throw .rad
    else do
      let f ← lookup h false fp
      if f.held.isNone then throw .fnf
      else
        let t ← lookup h false tp
        if t.held.isSome then throw .ref
        else match ← renameNoreplace h f.path t.path with
          | some e => throw (if e = .exists_ ∨ e = .notEmpty then .ref else errnoStatus e)
          | none => return {}

/-- One level. -/
def cmdCreateDirectory (name : Bytes) : Dev Reply :=
  match parseName name with
  | .error s => throw s
  | .ok components =>
    let p := m.place components
    if p.key = .bare ∧ 1 < p.rel.length then throw .dnf
    else if p.ro then throw .atf
    else do
      let f ← lookup h true p
      match f.held with
      | some st => throw (if st.node.isDir then .dae else .fae)
      | none =>
        match ← h.act (.mkdir f.path) with
        | some e => throw (errnoStatus e)
        | none => return {}

end Names

section Tables

/-- The bytes of a word, the first lowest. -/
def wordOf : Bytes → Word
  | [] => 0
  | u :: rest => BitVec.ofNat 32 u.toNat ||| wordOf rest <<< 8

def wordsOf (s : Bytes) : List Word := (List.range ((s.length + 3) / 4)).map fun k => wordOf ((s.drop (4 * k)).take 4)

/-- A DIRECTORY record. -/
def record (e : Entry) : List Word :=
  let n := e.name.text.length
  let words := 3 + (n + 3) / 4
  let flags := bit e.dir 16 ||| bit e.ro 17 ||| bit (most < e.len) 18
  [BitVec.ofNat 32 (n + words * 2 ^ 8) ||| flags, saturated e.len, e.mtime] ++ wordsOf e.name.text

/-- The records of the entries from `next` on that the room holds, and the next entry. -/
def records (room : Nat) (used : List Word) (next : Nat) : List Entry → List Word × Nat
  | [] => (used, next)
  | e :: es =>
    if room < (used.length + (record e).length) * 4 then (used, next)
    else records room (used ++ record e) (next + 1) es

def minDirectory : Nat := 272

variable (h : Host) (m : Mounts h.tree)

def cmdDirectory (name : Bytes) (first room : Nat) : Dev (Reply × List Word) :=
  if room < minDirectory then throw .badArgument
  else match parseName name with
  | .error s => throw s
  | .ok components => do
    let es ← list h m components
    let (used, next) := records room [] first (es.drop first)
    return ({ count := BitVec.ofNat 32 (4 * used.length),
              word6 := if next < es.length then BitVec.ofNat 32 next else 0 }, used)

/-- Through the last slash of a text, and what is after it. -/
def lastSlash (text : Bytes) : Bytes × Bytes :=
  let after := (text.reverse.takeWhile (· ≠ slash)).reverse
  (text.take (text.length - after.length), after)

/-- The flags of a text that an entry's name may be. -/
def flagsOf (es : List Entry) (common : Bytes) : Word :=
  match es.find? fun e => e.name.text = common with
  | some e => 4 ||| bit e.dir 3
  | none => 0

/-- The answer for a listing whose matches are `e` and `rest`, and the text that completes them. -/
def answerOf (es : List Entry) (e : Entry) (rest : List Entry) : Reply × Bytes :=
  let common := rest.foldl (fun c e => shared c e.name.text) e.name.text
  ({ count := BitVec.ofNat 32 common.length, word6 := BitVec.ofNat 32 (rest.length + 1)
     flags := flagsOf es common }, common)

/-- The entries a text may be completed to. -/
def matching (es : List Entry) (begun : Bytes) : List Entry := es.filter fun e => begun.isPrefixOf e.name.text

def cmdComplete (text : Bytes) (room : Nat) : Dev (Reply × Bytes) :=
  let (name, begun) := lastSlash text
  if name = [] then throw .ips
  else if maxComponent < begun.length ∨ !begun.all validByte then throw .ips
  else match parseName name with
  | .error s => throw s
  | .ok components => do
    let es ← list h m components
    match matching es begun with
    | [] => return ({}, [])
    | e :: rest =>
      if room < (answerOf es e rest).2.length then throw .badArgument else return answerOf es e rest

end Tables

end MuirFpga.Folders
