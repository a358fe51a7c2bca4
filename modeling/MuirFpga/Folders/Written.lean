import MuirFpga.Folders.Output

/-!
# What a file written ends with

The WRITEs of a handle opened for output, and the CLOSE after them. A WRITE that fails has left the
temporary file as it was exactly where the bytes put before it stopped were there already; and where
every one of them has, the file put in place is what the WRITEs answered 0 make of what it began
with.
-/

namespace MuirFpga.Folders

open MuirFpga.Posix

section Puts

variable {calls : List Moved} {off : Nat} {data file : Bytes}

/-- The bytes the host takes of so many before its writes stop. -/
def taken : List Moved → Nat → Nat
  | _, 0 => 0
  | [], len => len
  | .interrupted :: calls, len => taken calls len
  | .failed _ :: _, _ => 0
  | .moved n :: calls, len => if n = 0 then 0 else min n len + taken calls (len - n)

@[simp] theorem taken_zero : taken calls 0 = 0 := by
  unfold taken
  rfl

theorem taken_le (calls : List Moved) (len : Nat) : taken calls len ≤ len := by
  induction calls generalizing len with
  | nil => cases len <;> simp [taken]
  | cons call calls ih =>
    cases len with
    | zero => simp
    | succ len =>
      cases call with
      | interrupted => exact ih _
      | failed e => simp [taken]
      | moved n =>
        have rest := ih (len + 1 - n)
        change (if n = 0 then 0 else min n (len + 1) + taken calls (len + 1 - n)) ≤ len + 1
        split_ifs <;> omega

theorem putAll_eq (calls : List Moved) (data : Bytes) (inside : off ≤ file.length) :
    (putAll calls off data file).2 = land off (data.take (taken calls data.length)) file ∧
      ((putAll calls off data file).1 = none ↔ taken calls data.length = data.length) := by
  induction calls generalizing off data file with
  | nil =>
    cases data with
    | nil => simp [putAll]
    | cons byte data => simp [putAll, taken]
  | cons call calls ih =>
    cases data with
    | nil => simp [putAll]
    | cons byte data =>
      cases call with
      | interrupted => exact ih _ inside
      | failed e => simp [putAll, taken]
      | moved n =>
        by_cases zero : n = 0
        · simp [putAll, taken, zero]
        generalize whole : byte :: data = bytes at *
        have step : putAll (.moved n :: calls) off bytes file =
            putAll calls (off + n) (bytes.drop n) (land off (bytes.take n) file) := by
          subst whole
          simp [putAll, zero]
        have counts : taken (.moved n :: calls) bytes.length =
            min n bytes.length + taken calls (bytes.length - n) := by
          subst whole
          simp [taken, zero]
        rw [step, counts]
        by_cases last : bytes.length ≤ n
        · rw [List.drop_of_length_le last, List.take_of_length_le last, Nat.sub_eq_zero_of_le last,
            taken_zero, Nat.min_eq_right last, Nat.add_zero, List.take_length]
          simp [putAll]
        · have some : (bytes.take n).length = n := by
            rw [List.length_take]
            omega
          have grown := length_land (bytes.take n) inside
          rw [some] at grown
          have rest := @ih (off + n) (land off (bytes.take n) file) (bytes.drop n) (by omega)
          have behind := land_land (bytes.take n)
            ((bytes.drop n).take (taken calls (bytes.length - n))) inside
          rw [List.length_drop] at rest
          rw [some, ← List.take_add] at behind
          rw [Nat.min_eq_left (by omega), rest.1, rest.2, behind]
          exact ⟨rfl, by omega⟩

end Puts

section Commands

variable {h : Word} {w : WriteCommand} {d : Device} {a : Buf} {k : Fin 64} {o : Output}

/-- The bytes of a WRITE's buffer. -/
def WriteCommand.data (w : WriteCommand) : Bytes :=
  bytesOf w.memory ⟨memAddress w.addr, w.len.toNat⟩

/-- How many bytes of it the host takes. -/
def WriteCommand.taken (w : WriteCommand) : Nat := Folders.taken w.calls w.len.toNat

theorem WriteCommand.length_data : w.data.length = w.len.toNat := length_bytesOf _ _

theorem Device.admit_ok (admitted : d.admit h w = .ok (a, k, o)) :
    a = ⟨memAddress w.addr, w.len.toNat⟩ ∧ d.output h = some (k, o) ∧
      w.offset.toNat ≤ o.held ∧ w.offset.toNat + w.len.toNat ≤ most := by
  unfold Device.admit buffer at admitted
  dsimp only at admitted
  split_ifs at admitted with flags refused
  dsimp only at admitted
  cases output : d.output h with
  | none => simp [output] at admitted
  | some found =>
    rw [output] at admitted
    dsimp only at admitted
    split_ifs at admitted with beyond
    simp only [Except.ok.injEq, Prod.mk.injEq] at admitted
    obtain ⟨rfl, rfl, rfl⟩ := admitted
    exact ⟨rfl, rfl, by omega, by omega⟩

/-- The device with a WRITE's bytes put, as many as the host took. -/
def Device.landed (w : WriteCommand) (o : Output) (d : Device) : Device :=
  let file := land w.offset.toNat (w.data.take w.taken) (d.disk.bytes o.fd)
  { d with disk := d.disk.put o.fd file }

/-- The handle a WRITE answered 0 leaves. -/
def Output.grown (w : WriteCommand) (o : Output) : Output :=
  { o with held := max o.held (w.offset.toNat + w.len.toNat) }

/-- What a WRITE of a handle does, and what the handle is after it: refused, it does nothing; else
what the host takes of its bytes is put, and it is answered 0 where that is all of them. -/
inductive Wrote (h : Word) (w : WriteCommand) (k : Fin 64) (o : Output) (d : Device) :
    Except Refusal Reply × Device → Output → Prop where
  | refused (r : Refusal) (admitted : d.admit h w = .error r) : Wrote h w k o d (.error r, d) o
  | stopped (a : Buf) (s : Status) (admitted : d.admit h w = .ok (a, k, o))
      (less : w.taken < w.len.toNat) : Wrote h w k o d (.error (.status s), d.landed w o) o
  | whole (a : Buf) (r : Reply) (admitted : d.admit h w = .ok (a, k, o))
      (all : w.taken = w.len.toNat) :
      Wrote h w k o d (.ok r, (d.landed w o).setHandle k (some (.write (o.grown w)))) (o.grown w)

/-- A handle opened for output, its temporary file there and no shorter than it says. -/
structure Ready (h : Word) (k : Fin 64) (o : Output) (d : Device) : Prop where
  open_ : d.output h = some (k, o)
  named : d.disk.entry o.temp = some o.fd
  within : o.held ≤ (d.disk.bytes o.fd).length
  few : (d.disk.bytes o.fd).length ≤ most

theorem handle_lt {h : Word} (inside : 1 ≤ h.toNat ∧ h.toNat ≤ 64) : h.toNat - 1 < 64 := by omega

theorem Device.output_eq_some : d.output h = some (k, o) ↔
    ∃ inside : 1 ≤ h.toNat ∧ h.toNat ≤ 64, k = ⟨h.toNat - 1, handle_lt inside⟩ ∧
      d.handles k = some (.write o) := by
  unfold Device.output Device.handle
  by_cases inside : 1 ≤ h.toNat ∧ h.toNat ≤ 64
  · rw [dif_pos inside]
    cases held : d.handles ⟨h.toNat - 1, by omega⟩ with
    | none =>
      simp only [Option.map_none, reduceCtorEq, false_iff]
      rintro ⟨_, rfl, there⟩
      simp [held] at there
    | some opened =>
      constructor
      · intro found
        cases opened with
        | read fd => simp at found
        | write p =>
          simp only [Option.map_some, Option.some.injEq, Prod.mk.injEq] at found
          obtain ⟨rfl, rfl⟩ := found
          exact ⟨inside, rfl, held⟩
      · rintro ⟨_, rfl, there⟩
        rw [held] at there
        simp only [Option.some.injEq] at there
        subst there
        rfl
  · rw [dif_neg inside]
    simp [inside]

theorem Device.output_setHandle {o' : Output} (open_ : d.output h = some (k, o)) :
    (d.setHandle k (some (.write o'))).output h = some (k, o') := by
  obtain ⟨inside, same, -⟩ := output_eq_some.mp open_
  exact output_eq_some.mpr ⟨inside, same, Function.update_self _ _ _⟩

theorem Ready.wrote (ready : Ready h k o d) : ∃ o', Wrote h w k o d (d.write h w) o' := by
  unfold Device.write
  cases admitted : d.admit h w with
  | error r => exact ⟨o, .refused r admitted⟩
  | ok found =>
    obtain ⟨a, k', o'⟩ := found
    obtain ⟨rfl, open_, inside, -⟩ := Device.admit_ok admitted
    rw [ready.open_] at open_
    simp only [Option.some.injEq, Prod.mk.injEq] at open_
    obtain ⟨rfl, rfl⟩ := open_
    have past : (if o.held < w.offset.toNat + w.len.toNat then w.offset.toNat + w.len.toNat
        else o.held) = max o.held (w.offset.toNat + w.len.toNat) := by
      split_ifs <;> omega
    have put := putAll_eq w.calls w.data (Nat.le_trans inside ready.within)
    rw [WriteCommand.length_data] at put
    unfold WriteCommand.data at put
    dsimp only
    rw [past]
    cases result : putAll w.calls w.offset.toNat (bytesOf w.memory ⟨memAddress w.addr, w.len.toNat⟩)
        (d.disk.bytes o.fd) with
    | mk stopped file =>
      rw [result] at put
      obtain ⟨rfl, all⟩ := put
      cases stopped with
      | none => exact ⟨o.grown w, .whole _ _ admitted (all.mp rfl)⟩
      | some s =>
        have short : w.taken ≠ w.len.toNat := fun same => absurd (all.mpr same) (by simp)
        have most_ := taken_le w.calls w.len.toNat
        exact ⟨o, .stopped _ s admitted (Nat.lt_of_le_of_ne most_ short)⟩

theorem Device.bytes_landed :
    (d.landed w o).disk.bytes o.fd =
      land w.offset.toNat (w.data.take w.taken) (d.disk.bytes o.fd) :=
  Function.update_self _ _ _

theorem Device.length_landed (inside : w.offset.toNat ≤ (d.disk.bytes o.fd).length) :
    ((d.landed w o).disk.bytes o.fd).length =
      max (d.disk.bytes o.fd).length (w.offset.toNat + w.taken) := by
  have few : w.taken ≤ w.len.toNat := taken_le w.calls w.len.toNat
  rw [bytes_landed, length_land _ inside, List.length_take, WriteCommand.length_data,
    Nat.min_eq_left few]

theorem Ready.next {o' : Output} {result : Except Refusal Reply × Device} (ready : Ready h k o d)
    (wrote : Wrote h w k o d result o') : Ready h k o' result.2 := by
  have grows {a : Buf} (admitted : d.admit h w = .ok (a, k, o)) :
      (d.disk.bytes o.fd).length ≤ ((d.landed w o).disk.bytes o.fd).length ∧
        w.offset.toNat + w.taken ≤ ((d.landed w o).disk.bytes o.fd).length ∧
          ((d.landed w o).disk.bytes o.fd).length ≤ most := by
    obtain ⟨-, -, inside, past⟩ := Device.admit_ok admitted
    have few := taken_le w.calls w.len.toNat
    change w.taken ≤ _ at few
    have within := ready.within
    have small := ready.few
    rw [Device.length_landed (by omega)]
    omega
  cases wrote with
  | refused r admitted => exact ready
  | stopped a s admitted less =>
    obtain ⟨more, -, few⟩ := grows admitted
    exact ⟨ready.open_, ready.named, Nat.le_trans ready.within more, few⟩
  | whole a r admitted all =>
    obtain ⟨more, past, few⟩ := grows admitted
    refine ⟨Device.output_setHandle ready.open_, ready.named, ?_, few⟩
    rw [all] at past
    exact Nat.max_le.mpr ⟨Nat.le_trans ready.within more, past⟩

/-- The device after some WRITEs. -/
def Device.writes (h : Word) (ws : List WriteCommand) (d : Device) : Device :=
  ws.foldl (fun d w => (d.write h w).2) d

/-- The bytes of the file a handle writes. -/
def Device.contents (h : Word) (d : Device) : Bytes :=
  match d.output h with
  | some (_, o) => d.disk.bytes o.fd
  | none => []

/-- A WRITE is answered 0. -/
def Device.answers (h : Word) (w : WriteCommand) (d : Device) : Bool := (d.write h w).1.isOk

/-- Something holds of every WRITE of a run and the device it comes to. -/
def Along (P : Device → WriteCommand → Prop) (h : Word) : List WriteCommand → Device → Prop
  | [], _ => True
  | w :: ws, d => P d w ∧ Along P h ws (d.write h w).2

/-- What the WRITEs answered 0 make of some bytes. -/
def applied (h : Word) : List WriteCommand → Device → Bytes → Bytes
  | [], _, file => file
  | w :: ws, d, file =>
    applied h ws (d.write h w).2
      (if d.answers h w then land w.offset.toNat w.data file else file)

/-- The largest of a length and the ends of the WRITEs answered 0. -/
def longest (h : Word) : List WriteCommand → Device → Nat → Nat
  | [], _, n => n
  | w :: ws, d, n =>
    longest h ws (d.write h w).2
      (if d.answers h w then max n (w.offset.toNat + w.len.toNat) else n)

/-- A WRITE answered with an error leaves the contents as they were. -/
def Unchanged (h : Word) (d : Device) (w : WriteCommand) : Prop :=
  d.answers h w = false → (d.write h w).2.contents h = d.contents h

/-- Where the host stops before the WRITE's end, what it took is there already. -/
def There (h : Word) (d : Device) (w : WriteCommand) : Prop :=
  ∀ a k o, d.admit h w = .ok (a, k, o) → w.taken < w.len.toNat →
    w.data.take w.taken <+: (d.contents h).drop w.offset.toNat

theorem Ready.contents (ready : Ready h k o d) : d.contents h = d.disk.bytes o.fd := by
  unfold Device.contents
  rw [ready.open_]

theorem Ready.unchanged_iff (ready : Ready h k o d) : Unchanged h d w ↔ There h d w := by
  obtain ⟨o', wrote⟩ := ready.wrote (w := w)
  have after := ready.next wrote
  unfold Unchanged There Device.answers
  rw [ready.contents, after.contents]
  generalize d.write h w = result at wrote after
  cases wrote with
  | refused r admitted => simp [admitted]
  | whole a r admitted all =>
    constructor
    · intro _ a k o _ less
      omega
    · intro _ failed
      simp [Except.isOk, Except.toBool] at failed
  | stopped a s admitted less =>
    obtain ⟨-, -, inside, -⟩ := Device.admit_ok admitted
    have same := land_eq_iff (w.data.take w.taken) (Nat.le_trans inside ready.within)
    dsimp only
    rw [Device.bytes_landed]
    constructor
    · intro unchanged _ _ _ _ _
      exact same.mp (unchanged rfl)
    · intro there _
      exact same.mpr (there a k o admitted less)

/-- Its writes leave a stream ready, and errors leave it as it was just where what they took was there. -/
theorem Ready.run (ready : Ready h k o d) (ws : List WriteCommand) :
    (∃ o', Ready h k o' (d.writes h ws) ∧ o'.target = o.target) ∧
      (Along (Unchanged h) h ws d ↔ Along (There h) h ws d) := by
  induction ws generalizing d o with
  | nil => exact ⟨⟨o, ready, rfl⟩, Iff.rfl⟩
  | cons w ws ih =>
    obtain ⟨o', wrote⟩ := ready.wrote (w := w)
    have kept : o'.target = o.target := by
      generalize d.write h w = result at wrote
      cases wrote <;> rfl
    obtain ⟨⟨o'', ends, same⟩, iff⟩ := ih (ready.next wrote)
    exact ⟨⟨o'', ends, same.trans kept⟩, and_congr ready.unchanged_iff iff⟩

/-- Where every WRITE that fails leaves the contents as they were, the contents are what the ones
answered 0 make, and as long. -/
theorem Ready.run_contents (ready : Ready h k o d) (ws : List WriteCommand)
    (unchanged : Along (Unchanged h) h ws d) :
    (d.writes h ws).contents h = applied h ws d (d.contents h) ∧
      ((d.writes h ws).contents h).length = longest h ws d (d.contents h).length := by
  induction ws generalizing d o with
  | nil => exact ⟨rfl, rfl⟩
  | cons w ws ih =>
    obtain ⟨o', wrote⟩ := ready.wrote (w := w)
    have after := ready.next wrote
    obtain ⟨here, rest⟩ := unchanged
    have step : (d.write h w).2.contents h =
        if d.answers h w then land w.offset.toNat w.data (d.contents h) else d.contents h := by
      cases answers : d.answers h w with
      | false => exact here answers
      | true =>
        unfold Device.answers at answers
        rw [after.contents, ready.contents]
        generalize d.write h w = result at wrote answers
        cases wrote with
        | refused r admitted => simp [Except.isOk, Except.toBool] at answers
        | stopped a s admitted less => simp [Except.isOk, Except.toBool] at answers
        | whole a r admitted all =>
          change (d.landed w o).disk.bytes o.fd = _
          rw [Device.bytes_landed, all, ← WriteCommand.length_data, List.take_length]
          rfl
    have long : ((d.write h w).2.contents h).length = if d.answers h w then
        max (d.contents h).length (w.offset.toNat + w.len.toNat) else (d.contents h).length := by
      rw [step]
      split_ifs with answers
      · have inside : w.offset.toNat ≤ (d.contents h).length := by
          unfold Device.answers at answers
          rw [ready.contents]
          generalize d.write h w = result at wrote answers
          cases wrote with
          | refused r admitted => simp [Except.isOk, Except.toBool] at answers
          | stopped a s admitted less => simp [Except.isOk, Except.toBool] at answers
          | whole a r admitted all =>
            exact Nat.le_trans (Device.admit_ok admitted).2.2.1 ready.within
        rw [length_land _ inside, WriteCommand.length_data]
      · rfl
    have ends := ih after rest
    rw [long, step] at ends
    exact ends

theorem Disk.entry_rename {disk : Disk} {source target : Path} {file : Nat}
    (named : disk.entry source = some file) :
    (disk.rename source target).entry target = some file ∧
      (disk.rename source target).bytes = disk.bytes := by
  unfold Disk.rename
  split_ifs with same
  · exact ⟨same ▸ named, rfl⟩
  · exact ⟨(Function.update_self _ _ _).trans named, rfl⟩

theorem Disk.renamed_ok {calls : CloseCalls} {disk after : Disk} {source target : Path} :
    (disk.renamed calls source target = .ok after → after = disk.rename source target) ∧
      (disk.renamedNew calls source target = .ok after → after = disk.rename source target) := by
  have plain (renamed : disk.renamed calls source target = .ok after) :
      after = disk.rename source target := by
    unfold Disk.renamed at renamed
    split at renamed
    · exact nomatch renamed
    · exact (Except.ok.inj renamed).symm
  refine ⟨plain, fun renamed => ?_⟩
  unfold Disk.renamedNew at renamed
  split at renamed
  · exact (Except.ok.inj renamed).symm
  · split_ifs at renamed
    exact plain renamed

/-- A close leaves the contents under the name. -/
theorem Ready.close (ready : Ready h k o d) {flags : Nat} {date : Word} {calls : CloseCalls}
    {reply : Reply} {after : Device} (keeps : flags.testBit 0 = false)
    (closed : d.close h flags date calls = (.ok reply, after)) :
    ∃ file, after.disk.entry o.target = some file ∧ after.disk.bytes file = d.contents h ∧
      reply.len.toNat = (d.contents h).length := by
  have found : d.handle h = some (k, .write o) := by
    have open_ := ready.open_
    unfold Device.output at open_
    split at open_
    · next k' o' handle =>
      simp only [Option.some.injEq, Prod.mk.injEq] at open_
      rw [handle, open_.1, open_.2]
    · exact nomatch open_
  have few := ready.few
  rw [ready.contents]
  unfold Device.close at closed
  by_cases past : 3 < flags
  · simp [past] at closed
  rw [if_neg past, found] at closed
  dsimp only at closed
  rw [keeps, if_neg Bool.false_ne_true] at closed
  unfold Device.putInPlace at closed
  dsimp only at closed
  split at closed
  · simp at closed
  · next disk place =>
    have moved : disk = d.disk.rename o.temp o.target := by
      split at place
      · exact nomatch place
      · split_ifs at place with new
        · exact Disk.renamed_ok.2 place
        · exact Disk.renamed_ok.1 place
    obtain ⟨named, bytes⟩ := @Disk.entry_rename _ _ o.target _ ready.named
    rw [moved, named] at closed
    dsimp only at closed
    rw [Prod.mk.injEq] at closed
    obtain ⟨told, rfl⟩ := closed
    refine ⟨o.fd, named, congrFun bytes o.fd, ?_⟩
    unfold statReply at told
    split at told
    · exact nomatch told
    · rw [← Except.ok.inj told, bytes]
      unfold saturated
      rw [BitVec.toNat_ofNat, Nat.min_eq_left few]
      exact Nat.mod_eq_of_lt (Nat.lt_succ_of_le few)

end Commands

section Begun

variable {calls : List (Moved × List Moved)} {rest file file' : Bytes} {copied copied' : Nat}

theorem take_append_drop_take (n : Nat) (bytes : Bytes) :
    bytes.take n ++ bytes.drop (bytes.take n).length = bytes := by
  rcases Nat.le_total n bytes.length with less | past
  · rw [List.length_take, Nat.min_eq_left less, List.take_append_drop]
  · rw [List.take_of_length_le past, List.drop_length, List.append_nil]

theorem copyAll_none (all : copyAll calls rest file copied = (none, file', copied')) :
    file' = file ++ rest ∧ copied' = copied + rest.length := by
  induction calls generalizing rest file copied with
  | nil =>
    simp only [copyAll, Prod.mk.injEq, true_and] at all
    exact ⟨all.1.symm, all.2.symm⟩
  | cons call calls ih =>
    obtain ⟨call, puts⟩ := call
    cases call with
    | interrupted => exact ih all
    | failed e => simp [copyAll] at all
    | moved n =>
      have some : 0 < min (max 1 n) chunk := by
        unfold chunk
        omega
      unfold copyAll at all
      dsimp only at all
      split_ifs at all with none
      · have empty : rest = [] := by
          rw [List.take_eq_nil_iff] at none
          exact none.resolve_left (Nat.ne_of_gt some)
        simp only [Prod.mk.injEq, true_and] at all
        simp [empty, ← all.1, ← all.2]
      · have put := putAll_eq puts (rest.take (min (max 1 n) chunk)) (Nat.le_refl file.length)
        cases result : putAll puts file.length (rest.take (min (max 1 n) chunk)) file with
        | mk stopped landed =>
          rw [result] at put all
          cases stopped with
          | some s => simp at all
          | none =>
            have whole := put.1
            rw [put.2.mp rfl, List.take_length] at whole
            dsimp only at whole all
            obtain ⟨grown, counted⟩ := ih all
            subst whole
            have behind : land file.length (rest.take (min (max 1 n) chunk)) file =
                file ++ rest.take (min (max 1 n) chunk) := by
              unfold land
              rw [List.take_length, List.drop_of_length_le (Nat.le_add_right _ _), List.append_nil]
            have parts := take_append_drop_take (min (max 1 n) chunk) rest
            rw [behind, List.append_assoc, parts] at grown
            have lengths := congrArg List.length parts
            rw [List.length_append] at lengths
            exact ⟨grown, by omega⟩

/-- What lookup found of a file is what the disk has. -/
def Found.Agrees (disk : Disk) (f : Found) : Prop :=
  ∀ st size, f.held = some st → st.node = .file size →
    ∃ file, disk.entry f.path = some file ∧ (disk.bytes file).length = size

/-- What an OPEN for output starts with: for an append what the file has, else nothing. -/
def startOf (disk : Disk) (f : Found) (ifExists : Nat) : Bytes :=
  match f.held, disk.entry f.path with
  | some _, some file => if ifExists = 2 then disk.bytes file else []
  | _, _ => []

theorem append_file {f : Found} {st : Stat} {ifNoneError : Bool} (held : f.held = some st)
    (allowed : writeRefused f 2 ifNoneError = none) :
    ∃ size, st.node = .file size ∧ size ≤ most := by
  unfold writeRefused at allowed
  rw [held] at allowed
  dsimp only at allowed
  split_ifs at allowed with dir plain _ large
  cases node : st.node with
  | file size =>
    rw [node] at large
    exact ⟨size, rfl, by simpa [Node.size] using large⟩
  | dir => simp [node, Node.isDir] at dir
  | link target => simp [node, Node.isFile] at plain
  | other => simp [node, Node.isFile] at plain

theorem begun_start {disk : Disk} {host : OpenCalls} {f : Found} {ifExists : Nat}
    {ifNoneError : Bool} {temp : Path} {file : Bytes} {held : Nat} (agrees : f.Agrees disk)
    (allowed : writeRefused f ifExists ifNoneError = none) (free : disk.entry temp = none)
    (begins : begun host (disk.create temp) f ifExists = (none, file, held)) :
    file = startOf disk f ifExists ∧ held = file.length ∧ file.length ≤ most := by
  unfold begun at begins
  by_cases append : f.held.isSome ∧ ifExists = 2
  · rw [if_pos append] at begins
    obtain ⟨there, rfl⟩ := append
    obtain ⟨st, stat⟩ := Option.isSome_iff_exists.mp there
    obtain ⟨size, node, small⟩ := append_file stat allowed
    obtain ⟨source, named, long⟩ := agrees st size stat node
    have apart : f.path ≠ temp := by
      intro same
      rw [same, free] at named
      cases named
    have still : (disk.create temp).entry f.path = some source :=
      (Function.update_of_ne apart _ _).trans named
    have bytes : (disk.create temp).bytes source = disk.bytes source :=
      Function.update_of_ne (Nat.ne_of_lt (disk.old _ _ named)) _ _
    rw [still] at begins
    have start : startOf disk f 2 = disk.bytes source := by
      unfold startOf
      rw [stat, named]
      rfl
    split at begins
    · simp at begins
    · next none_ => cases none_
    · next other same =>
      obtain rfl := Option.some.inj same
      rw [bytes] at begins
      obtain ⟨copied, counted⟩ := copyAll_none begins
      rw [List.nil_append] at copied
      rw [start, copied, counted, Nat.zero_add, long]
      exact ⟨rfl, rfl, small⟩
  · rw [if_neg append] at begins
    simp only [Prod.mk.injEq, true_and] at begins
    obtain ⟨rfl, rfl⟩ := begins
    have start : startOf disk f ifExists = [] := by
      unfold startOf
      split
      · next stat _ =>
        rw [stat] at append
        exact if_neg (by simpa using append)
      · rfl
    rw [start]
    exact ⟨rfl, rfl, Nat.zero_le _⟩

/-- An open for output is ready. -/
theorem Device.openOutput_ready {d after : Device} {host : OpenCalls} {f : Found} {ifExists : Nat}
    {ifNoneError : Bool} {reply : Reply} (agrees : f.Agrees d.disk)
    (opened : d.openOutput host f ifExists ifNoneError = (.ok reply, after)) :
    ∃ k o, Ready reply.handle k o after ∧ o.target = f.path ∧
      after.contents reply.handle = startOf d.disk f ifExists := by
  unfold Device.openOutput at opened
  split at opened
  · simp at opened
  · next allowed =>
    split at opened
    · simp at opened
    · next k free =>
      dsimp only at opened
      split at opened
      · simp at opened
      · next create =>
        have absent : d.disk.entry (f.path.dropLast ++ [tempName host.pid d.temps]) = none := by
          cases named : d.disk.entry (f.path.dropLast ++ [tempName host.pid d.temps]) with
          | none => rfl
          | some file => cases host.create <;> simp [named] at create
        split at opened
        · simp at opened
        · next file held begins =>
          obtain ⟨start, rfl, small⟩ := begun_start agrees allowed absent begins
          rw [Prod.mk.injEq] at opened
          obtain ⟨told, rfl⟩ := opened
          rw [← Except.ok.inj told]
          have number : (BitVec.ofNat 32 (k.val + 1)).toNat = k.val + 1 := by
            rw [BitVec.toNat_ofNat]
            exact Nat.mod_eq_of_lt (by omega)
          generalize whole : Device.setHandle _ k _ = after
          have ready : Ready (BitVec.ofNat 32 (k.val + 1)) k
              ⟨d.disk.fresh, f.path.dropLast ++ [tempName host.pid d.temps], f.path,
                ifExists = 1, file.length⟩ after := by
            have bytes : after.disk.bytes d.disk.fresh = file := by
              rw [← whole]
              exact Function.update_self _ _ _
            refine ⟨Device.output_eq_some.mpr ⟨by omega, ?_, ?_⟩, ?_, ?_, ?_⟩
            · apply Fin.ext
              change k.val = (BitVec.ofNat 32 (k.val + 1)).toNat - 1
              omega
            · rw [← whole]
              exact Function.update_self _ _ _
            · rw [← whole]
              exact Function.update_self _ _ _
            · exact Nat.le_of_eq (congrArg List.length bytes).symm
            · exact Nat.le_trans (Nat.le_of_eq (congrArg List.length bytes)) small
          refine ⟨k, _, ready, rfl, ?_⟩
          rw [ready.contents, ← start, ← whole]
          exact Function.update_self _ _ _

end Begun

/-- A handle an OPEN for output has given, and the WRITEs it then has. -/
structure Session where
  before : Device
  host : OpenCalls
  found : Found
  ifExists : Nat
  ifNoneError : Bool
  reply : Reply
  device : Device
  agrees : found.Agrees before.disk
  opened : before.openOutput host found ifExists ifNoneError = (.ok reply, device)
  writes : List WriteCommand

namespace Session

variable (s : Session)

/-- What the OPEN starts with. -/
def start : Bytes := startOf s.before.disk s.found s.ifExists

/-- A WRITE answered with an error leaves the contents as they were, and a CLOSE answered 0 that is
no abort puts in place what the WRITEs answered 0 make of the start, as long as the largest of the
start and their ends, and tells that length. -/
structure Exact : Prop where
  failed : Along (Unchanged s.reply.handle) s.reply.handle s.writes s.device
  closed : ∀ flags date calls reply after, flags.testBit 0 = false →
    (s.device.writes s.reply.handle s.writes).close s.reply.handle flags date calls =
        (.ok reply, after) →
      ∃ file, after.disk.entry s.found.path = some file ∧
        after.disk.bytes file = applied s.reply.handle s.writes s.device s.start ∧
        (after.disk.bytes file).length =
          longest s.reply.handle s.writes s.device s.start.length ∧
        reply.len.toNat = (after.disk.bytes file).length

/-- A file is exactly what its successful WRITEs said, if and only if what the host takes of each
WRITE before it stops short of the WRITE's end is there already. -/
theorem exact_iff :
    s.Exact ↔ Along (There s.reply.handle) s.reply.handle s.writes s.device := by
  obtain ⟨k, o, ready, target, begins⟩ := Device.openOutput_ready s.agrees s.opened
  obtain ⟨⟨o', ends, same⟩, iff⟩ := ready.run s.writes
  constructor
  · intro exact_
    exact iff.mp exact_.failed
  · intro there
    have failed := iff.mpr there
    refine ⟨failed, ?_⟩
    intro flags date calls reply after keeps closed
    obtain ⟨file, named, bytes, told⟩ := ends.close keeps closed
    obtain ⟨contents, long⟩ := ready.run_contents s.writes failed
    rw [begins] at contents long
    rw [same, target] at named
    exact ⟨file, named, bytes.trans contents, (congrArg List.length bytes).trans long,
      told.trans (congrArg List.length bytes).symm⟩

/-- A device with no handle open and a host with no files. -/
def idle : Device := ⟨fun _ => none, 0, ⟨fun _ => none, fun _ => [], 0, nofun⟩⟩

/-- The host's calls of an OPEN, none of which fails. -/
def smooth : OpenCalls := ⟨1, none, none, [], true⟩

/-- A new file. -/
def fresh : Found := ⟨[⟨[0x61], nofun, by decide⟩], none⟩

/-- A WRITE of four bytes, of which the host takes two before it has no room. -/
def cut : WriteCommand := ⟨0, 0, 4, 0, ⟨8, fun _ => 0x41⟩, [.moved 2, .failed .noSpace]⟩

/-- A new file with one WRITE, cut short. -/
def short : Session where
  before := idle
  host := smooth
  found := fresh
  ifExists := 0
  ifNoneError := false
  reply := { handle := 1 }
  device := (idle.openOutput smooth fresh 0 false).2
  agrees := nofun
  opened := rfl
  writes := [cut]

/-- It is answered with an error, and its first two bytes are the file's. -/
theorem not_exact : ¬ ∀ s : Session, s.Exact := by
  intro claim
  have failed := (claim short).failed.1 (by decide)
  have after : (short.device.write 1 cut).2.contents 1 = [0x41, 0x41] := by decide
  have before : short.device.contents 1 = [] := by decide
  have same : (short.device.write 1 cut).2.contents 1 = short.device.contents 1 := failed
  rw [after, before] at same
  exact nomatch same

/-- The same WRITE, which the host takes whole. -/
def whole : WriteCommand := { cut with calls := [.moved 4] }

/-- A new file with the WRITE whole, and then cut short over the bytes it left. -/
def again : Session := { short with writes := [whole, cut] }

/-- Every byte is right where the cut WRITE repeats what a whole one left. -/
theorem again_exact : again.Exact := by
  refine (exact_iff again).mpr ⟨fun _ _ _ _ stops => absurd stops (by decide), fun _ _ _ _ _ => ?_, trivial⟩
  decide

end Session

end MuirFpga.Folders
