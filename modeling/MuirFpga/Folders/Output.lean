import MuirFpga.Folders.Memory
import MuirFpga.Posix.Contents

/-!
# Files written

OPEN for output from its lookup on, WRITE and CLOSE, with the bytes of the files. A write goes to a
temporary file, by as many writes of the host as it takes, each of which may move less than it is
given, be interrupted or fail; CLOSE renames the temporary file into place.
-/

namespace MuirFpga.Folders

open MuirFpga.Posix

/-- What a call of the host that moves bytes gives: how many it moved, or why none. -/
inductive Moved where
  | moved (n : Nat)
  | interrupted
  | failed (e : Errno)

/-- The host's files: which file a name is of, and each file's bytes. -/
structure Disk where
  entry : Path → Option Nat
  bytes : Nat → Bytes
  fresh : Nat
  old : ∀ p file, entry p = some file → file < fresh

namespace Disk

variable (d : Disk)

/-- `O_CREAT | O_EXCL`, of a name no file has. -/
def create (p : Path) : Disk where
  entry := Function.update d.entry p (some d.fresh)
  bytes := Function.update d.bytes d.fresh []
  fresh := d.fresh + 1
  old := by
    intro q file named
    by_cases here : q = p
    · subst here
      rw [Function.update_self] at named
      exact Option.some.inj named ▸ Nat.lt_succ_self d.fresh
    · rw [Function.update_of_ne here] at named
      exact Nat.lt_succ_of_lt (d.old q file named)

/-- A file's bytes replaced. -/
def put (file : Nat) (bytes : Bytes) : Disk :=
  { d with bytes := Function.update d.bytes file bytes }

/-- `unlink`. -/
def unlink (p : Path) : Disk where
  entry := Function.update d.entry p none
  bytes := d.bytes
  fresh := d.fresh
  old := by
    intro q file named
    by_cases here : q = p
    · simp [here] at named
    · rw [Function.update_of_ne here] at named
      exact d.old q file named

/-- `rename`: nothing, where both names are of one file. -/
def rename (source target : Path) : Disk :=
  if d.entry source = d.entry target then d
  else { (d.unlink source) with
    entry := Function.update (d.unlink source).entry target (d.entry source)
    old := by
      intro q file named
      by_cases here : q = target
      · subst here
        rw [Function.update_self] at named
        exact d.old source file named
      · rw [Function.update_of_ne here] at named
        exact (d.unlink source).old q file named }

end Disk

/-- A handle opened for output. -/
structure Output where
  fd : Nat
  temp : Path
  target : Path
  noreplace : Bool
  held : Nat

/-- An open handle. -/
inductive Opened where
  | read (fd : Nat)
  | write (o : Output)

/-- The device's handles, its next temporary file's number and the host's files. -/
structure Device where
  handles : Fin 64 → Option Opened
  temps : Nat
  disk : Disk

/-- Why a command is refused. -/
inductive Refusal where
  | status (s : Status)
  | beyond
  | badHandle
  | badBuffer

namespace Device

variable (d : Device)

/-- `handle`. -/
def handle (h : Word) : Option (Fin 64 × Opened) :=
  if inside : 1 ≤ h.toNat ∧ h.toNat ≤ 64 then
    (d.handles ⟨h.toNat - 1, by omega⟩).map fun o => (⟨h.toNat - 1, by omega⟩, o)
  else none

def setHandle (k : Fin 64) (o : Option Opened) : Device :=
  { d with handles := Function.update d.handles k o }

/-- `handle_close`, the temporary file removed if asked and the host lets it go. -/
def closed (k : Fin 64) (temp : Option Path) (unlinks : Bool) : Device :=
  match temp with
  | some p => { d.setHandle k none with disk := if unlinks then d.disk.unlink p else d.disk }
  | none => d.setHandle k none

end Device

section Open

/-- How the host's calls of an OPEN go: the reads of the file appended to, each with the writes of
its bytes; past them each moves all it is given. -/
structure OpenCalls where
  pid : Nat
  create : Option Errno
  source : Option Errno
  copies : List (Moved × List Moved)
  unlinks : Bool

/-- Some bytes put at a place, by as many writes as it takes: why they stop short, if they do, and
the file after. -/
def putAll : List Moved → Nat → Bytes → Bytes → Option Status × Bytes
  | _, _, [], file => (none, file)
  | [], off, data, file => (none, land off data file)
  | .interrupted :: calls, off, data, file => putAll calls off data file
  | .failed e :: _, _, _, file => (some (errnoStatus e), file)
  | .moved n :: calls, off, data, file =>
    if n = 0 then (some .dat, file)
    else putAll calls (off + n) (data.drop n) (land off (data.take n) file)

/-- The bytes a read of the host takes at a time. -/
def chunk : Nat := 65536

/-- What is left of the file appended to, copied behind what the temporary file has, and the bytes
copied. -/
def copyAll : List (Moved × List Moved) → Bytes → Bytes → Nat → Option Status × Bytes × Nat
  | [], rest, file, copied => (none, file ++ rest, copied + rest.length)
  | (.interrupted, _) :: calls, rest, file, copied => copyAll calls rest file copied
  | (.failed e, _) :: _, _, file, copied => (some (errnoStatus e), file, copied)
  | (.moved n, puts) :: calls, rest, file, copied =>
    let read := rest.take (min (max 1 n) chunk)
    if read = [] then (none, file, copied)
    else match putAll puts file.length read file with
      | (some s, file) => (some s, file, copied)
      | (none, file) => copyAll calls (rest.drop read.length) file (copied + read.length)

/-- What the temporary file begins with: for an append what the file has, else nothing. -/
def begun (calls : OpenCalls) (disk : Disk) (f : Found) (ifExists : Nat) :
    Option Status × Bytes × Nat :=
  if f.held.isSome ∧ ifExists = 2 then
    match calls.source.or (if (disk.entry f.path).isNone then some .noEntry else none),
      disk.entry f.path with
    | some e, _ => (some (errnoStatus e), [], 0)
    | none, none => (some .fnf, [], 0)
    | none, some file => copyAll calls.copies (disk.bytes file) [] 0
  else (none, [], 0)

def Device.freeHandle (d : Device) : Option (Fin 64) :=
  (List.finRange 64).find? fun k => (d.handles k).isNone

/-- `open_write`, of what its lookup found. -/
def Device.openOutput (calls : OpenCalls) (f : Found) (ifExists : Nat) (ifNoneError : Bool)
    (d : Device) : Except Refusal Reply × Device :=
  match writeRefused f ifExists ifNoneError with
  | some s => (.error (.status s), d)
  | none =>
    match d.freeHandle with
    | none => (.error (.status .ner), d)
    | some k =>
      let temp := f.path.dropLast ++ [tempName calls.pid d.temps]
      let d := { d with temps := d.temps + 1 }
      match calls.create.or (if (d.disk.entry temp).isSome then some .exists_ else none) with
      | some e => (.error (.status (errnoStatus e)), d)
      | none =>
        let fd := d.disk.fresh
        let disk := d.disk.create temp
        match begun calls disk f ifExists with
        | (some s, file, _) =>
          let disk := disk.put fd file
          (.error (.status s), { d with disk := if calls.unlinks then disk.unlink temp else disk })
        | (none, file, held) =>
          let o : Output := ⟨fd, temp, f.path, ifExists = 1, held⟩
          (.ok { handle := BitVec.ofNat 32 (k + 1), len := saturated held },
            { d with disk := disk.put fd file }.setHandle k (some (.write o)))

end Open

section Write

/-- A WRITE: its flags, buffer A, its offset and the memory it is in, and how the host's writes go;
past those each moves all it is given. -/
structure WriteCommand where
  flags : Nat
  addr : Word
  len : Word
  offset : Word
  memory : Memory
  calls : List Moved

/-- The handle, if it is one opened for output. -/
def Device.output (h : Word) (d : Device) : Option (Fin 64 × Output) :=
  match d.handle h with
  | some (k, .write o) => some (k, o)
  | _ => none

/-- Why a WRITE is refused, or its buffer and its handle. -/
def Device.admit (h : Word) (w : WriteCommand) (d : Device) : Except Refusal (Buf × Fin 64 × Output) :=
  if w.flags ≠ 0 then .error (.status .badArgument)
  else match buffer w.memory w.addr w.len with
  | none => .error .badBuffer
  | some a =>
    match d.output h with
    | none => .error .badHandle
    | some (k, o) =>
      if o.held < w.offset.toNat ∨ most < w.offset.toNat + a.len then .error .beyond
      else .ok (a, k, o)

/-- WRITE. -/
def Device.write (h : Word) (w : WriteCommand) (d : Device) : Except Refusal Reply × Device :=
  match d.admit h w with
  | .error r => (.error r, d)
  | .ok (a, k, o) =>
    match putAll w.calls w.offset.toNat (bytesOf w.memory a) (d.disk.bytes o.fd) with
    | (some s, file) => (.error (.status s), { d with disk := d.disk.put o.fd file })
    | (none, file) =>
      let past := w.offset.toNat + a.len
      let o := { o with held := if o.held < past then past else o.held }
      (.ok { count := BitVec.ofNat 32 a.len },
        { d with disk := d.disk.put o.fd file }.setHandle k (some (.write o)))

end Write

section Close

/-- How the host's calls of a CLOSE go, and the time the file then has. -/
structure CloseCalls where
  times : Word → Option Errno
  noreplace : Option Errno
  look : Option Errno
  rename : Option Errno
  stat : Option Errno
  mtime : Int
  unlinks : Bool

/-- `h_rename`. -/
def Disk.renamed (calls : CloseCalls) (source target : Path) (d : Disk) : Except Errno Disk :=
  match calls.rename.or (if (d.entry source).isNone then some .noEntry else none) with
  | some e => .error e
  | none => .ok (d.rename source target)

/-- `rename_noreplace`. -/
def Disk.renamedNew (calls : CloseCalls) (source target : Path) (d : Disk) : Except Errno Disk :=
  match (calls.noreplace.or (if (d.entry target).isSome then some .exists_ else none)).or
    (if (d.entry source).isNone then some .noEntry else none) with
  | none => .ok (d.rename source target)
  | some e =>
    if e ≠ .invalid ∧ e ≠ .noSystem then .error e
    else if calls.look.isNone ∧ (d.entry target).isSome then .error .exists_
    else d.renamed calls source target

/-- What a file's length and time are told by. -/
def statReply (calls : CloseCalls) (bytes : Bytes) : Except Refusal Reply :=
  match calls.stat with
  | some e => .error (.status (errnoStatus e))
  | none => .ok { len := saturated bytes.length, mtime := saturated calls.mtime.toNat }

/-- CLOSE of a handle opened for output, not aborted. -/
def Device.putInPlace (k : Fin 64) (o : Output) (flags : Nat) (date : Word) (calls : CloseCalls)
    (d : Device) : Except Refusal Reply × Device :=
  let dated := if flags.testBit 1 then calls.times date else none
  let place : Except Errno Disk := match dated with
    | some e => .error e
    | none =>
      if o.noreplace then d.disk.renamedNew calls o.temp o.target
      else d.disk.renamed calls o.temp o.target
  match place with
  | .error e => (.error (.status (errnoStatus e)), d.closed k (some o.temp) calls.unlinks)
  | .ok disk =>
    let d := { d with disk }.setHandle k none
    match disk.entry o.target with
    | none => (.error (.status .fnf), d)
    | some file => (statReply calls (disk.bytes file), d)

/-- CLOSE. -/
def Device.close (h : Word) (flags : Nat) (date : Word) (calls : CloseCalls) (d : Device) :
    Except Refusal Reply × Device :=
  if 3 < flags then (.error (.status .badArgument), d)
  else match d.handle h with
  | none => (.error .badHandle, d)
  | some (k, .read fd) =>
    (if flags.testBit 0 then .ok {} else statReply calls (d.disk.bytes fd), d.closed k none false)
  | some (k, .write o) =>
    if flags.testBit 0 then (.ok {}, d.closed k (some o.temp) calls.unlinks)
    else d.putInPlace k o flags date calls

end Close

end MuirFpga.Folders
