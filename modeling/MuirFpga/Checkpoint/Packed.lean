import MuirFpga.Arith.Varint
import MuirFpga.Checkpoint.Source

/-!
# The packed body

`pack` of `chk.c`, `src_of` and its two callers. Over the plain bytes a packed body is a list of records, and
`pack` writes that list whatever its source is made of. A sink takes every byte, and every allocation and
every call on the file succeeds.
-/

namespace MuirFpga.Checkpoint

open MuirFpga.Arith

/-- `CHK_MIN_ZERO_RUN`. -/
abbrev minZeroRun : Nat := 4

section Runs

/-- The zeros at the front of some bytes. -/
def zeroRun : List (BitVec 8) → Nat
  | [] => 0
  | byte :: bytes => if byte = 0#8 then 1 + zeroRun bytes else 0

theorem zeroRun_le (bytes : List (BitVec 8)) : zeroRun bytes ≤ bytes.length := by
  induction bytes with
  | nil => exact Nat.le_refl 0
  | cons byte bytes ih =>
    rw [zeroRun, List.length_cons]
    split <;> omega

theorem replicate_zeroRun (bytes : List (BitVec 8)) :
    List.replicate (zeroRun bytes) 0#8 ++ bytes.drop (zeroRun bytes) = bytes := by
  induction bytes with
  | nil => rfl
  | cons byte bytes ih =>
    rw [zeroRun]
    split
    · rename_i zero
      rw [Nat.add_comm, List.replicate_succ, List.drop_succ_cons, List.cons_append, ih, zero]
    · rfl

/-- The bytes at the front before a zero run worth a count. -/
def literalRun (bytes : List (BitVec 8)) : Nat :=
  if h : bytes = [] then 0
  else if bytes.head h ≠ 0#8 then 1 + literalRun bytes.tail
  else if minZeroRun ≤ zeroRun bytes then 0
  else zeroRun bytes + literalRun (bytes.drop (zeroRun bytes))
termination_by bytes.length
decreasing_by
  · rw [List.length_tail]
    have := List.length_pos_iff.mpr h
    omega
  · rename_i zero _
    cases bytes with
    | nil => exact absurd rfl h
    | cons byte bytes =>
      have first : byte = 0#8 := not_not.mp zero
      rw [List.length_drop, List.length_cons, zeroRun, if_pos first]
      omega

theorem literalRun_nil : literalRun [] = 0 := by
  rw [literalRun, dif_pos rfl]

theorem literalRun_cons (byte : BitVec 8) (bytes : List (BitVec 8)) :
    literalRun (byte :: bytes)
      = if byte ≠ 0#8 then 1 + literalRun bytes
        else if minZeroRun ≤ zeroRun (byte :: bytes) then 0
        else zeroRun (byte :: bytes) + literalRun ((byte :: bytes).drop (zeroRun (byte :: bytes))) := by
  rw [literalRun, dif_neg (List.cons_ne_nil _ _)]
  rfl

theorem literalRun_le (bytes : List (BitVec 8)) : literalRun bytes ≤ bytes.length := by
  induction bytes using literalRun.induct with
  | case1 =>
    rw [literalRun_nil]
    exact Nat.zero_le _
  | case2 bytes some_ literal ih =>
    rw [literalRun, dif_neg some_, if_pos literal]
    have := List.length_pos_iff.mpr some_
    rw [List.length_tail] at ih
    omega
  | case3 bytes some_ zero long =>
    rw [literalRun, dif_neg some_, if_neg zero, if_pos long]
    exact Nat.zero_le _
  | case4 bytes some_ zero short ih =>
    rw [literalRun, dif_neg some_, if_neg zero, if_neg short]
    have := zeroRun_le bytes
    rw [List.length_drop] at ih
    omega

theorem runs_pos {bytes : List (BitVec 8)} (some_ : bytes ≠ []) :
    0 < zeroRun bytes + literalRun (bytes.drop (zeroRun bytes)) := by
  cases bytes with
  | nil => exact absurd rfl some_
  | cons byte bytes =>
    by_cases zero : byte = 0#8
    · rw [zeroRun, if_pos zero]
      omega
    · rw [zeroRun, if_neg zero, List.drop_zero, literalRun_cons, if_pos zero]
      omega

/-- The records some bytes pack into: each the zeros at the front and the literals behind them. -/
def recordsOf (bytes : List (BitVec 8)) : List ZeroRecord :=
  if bytes = [] then []
  else
    let behind := bytes.drop (zeroRun bytes)
    ⟨zeroRun bytes, behind.take (literalRun behind)⟩ :: recordsOf (behind.drop (literalRun behind))
termination_by bytes.length
decreasing_by
  rename_i some_
  have pos := runs_pos some_
  have more := List.length_pos_iff.mpr some_
  rw [List.length_drop, List.length_drop]
  omega

theorem recordsOf_bytes (bytes : List (BitVec 8)) : (recordsOf bytes).flatMap ZeroRecord.bytes = bytes := by
  induction bytes using recordsOf.induct with
  | case1 =>
    rw [recordsOf, if_pos rfl]
    rfl
  | case2 bytes some_ behind ih =>
    rw [recordsOf, if_neg some_, List.flatMap_cons, ih, ZeroRecord.bytes, List.append_assoc, List.take_append_drop]
    exact replicate_zeroRun bytes

end Runs

section Pack

/-- `zeros_at`, from the `n`th byte on. -/
def zerosFrom (s : Src) (i n : Nat) (held : Held s) : Nat × Held s :=
  if i + n < s.len then
    let byte := srcAt s (i + n) held
    if byte.1 = 0#8 then zerosFrom s i (n + 1) byte.2 else (n, byte.2)
  else (n, held)
termination_by s.len - (i + n)

/-- `zeros_at`. -/
def zerosAt (s : Src) (i : Nat) (held : Held s) : Nat × Held s := zerosFrom s i 0 held

theorem zerosFrom_eq (s : Src) (i n : Nat) (held : Held s) :
    (zerosFrom s i n held).1 = n + zeroRun (s.bytes.drop (i + n)) := by
  induction n, held using zerosFrom.induct s i with
  | case1 n held below byte zero ih =>
    have one := ih.trans (Nat.add_assoc n 1 _)
    rw [zerosFrom, if_pos below, if_pos zero, drop_bytes held below, zeroRun, if_pos zero]
    exact one
  | case2 n held below byte other =>
    rw [zerosFrom, if_pos below, if_neg other, drop_bytes held below, zeroRun, if_neg other]
    rfl
  | case3 n held past =>
    rw [zerosFrom, if_neg past, List.drop_eq_nil_of_le (by rw [s.bytes_length]; exact Nat.le_of_not_lt past)]
    rfl

theorem zerosAt_eq (s : Src) (i : Nat) (held : Held s) : (zerosAt s i held).1 = zeroRun (s.bytes.drop i) :=
  (zerosFrom_eq s i 0 held).trans (Nat.zero_add _)

theorem zerosAt_pos {s : Src} {i : Nat} (held later : Held s) (below : i < s.len) (zero : (srcAt s i held).1 = 0#8) :
    0 < (zerosAt s i later).1 := by
  rw [zerosAt_eq, drop_bytes held below, zeroRun, if_pos zero]
  omega

/-- The inner loop of `pack`: where the literals from `i` end. -/
def literalsFrom (s : Src) (i : Nat) (held : Held s) : Nat × Held s :=
  if i < s.len then
    let byte := srcAt s i held
    if byte.1 ≠ 0#8 then literalsFrom s (i + 1) byte.2
    else
      let run := zerosAt s i byte.2
      if minZeroRun ≤ run.1 then (i, run.2) else literalsFrom s (i + run.1) run.2
  else (i, held)
termination_by s.len - i
decreasing_by
  · omega
  · rename_i below zero _
    have pos := zerosAt_pos held (srcAt s i held).2 below (not_not.mp zero)
    omega

theorem literalsFrom_eq (s : Src) (i : Nat) (held : Held s) :
    (literalsFrom s i held).1 = i + literalRun (s.bytes.drop i) := by
  induction i, held using literalsFrom.induct s with
  | case1 i held below byte literal ih =>
    rw [literalsFrom, if_pos below, if_pos literal, drop_bytes held below, literalRun_cons, if_pos literal]
    exact ih.trans (Nat.add_assoc i 1 _)
  | case2 i held below byte zero run long =>
    have same := zerosAt_eq s i byte.2
    have cons := drop_bytes held below
    rw [literalsFrom, if_pos below, if_neg zero, if_pos long, cons, literalRun_cons, if_neg zero, ← cons, ← same,
      if_pos long]
    rfl
  | case3 i held below byte zero run short ih =>
    have same := zerosAt_eq s i byte.2
    have cons := drop_bytes held below
    rw [literalsFrom, if_pos below, if_neg zero, if_neg short, cons, literalRun_cons, if_neg zero, ← cons, ← same,
      if_neg short, List.drop_drop]
    exact ih.trans (Nat.add_assoc i run.1 _)
  | case4 i held past =>
    rw [literalsFrom, if_neg past, List.drop_eq_nil_of_le (by rw [s.bytes_length]; exact Nat.le_of_not_lt past),
      literalRun_nil]
    rfl

theorem literalsFrom_lt {s : Src} {i : Nat} (held : Held s) (below : i < s.len) :
    i < (literalsFrom s (i + (zerosAt s i held).1) (zerosAt s i held).2).1 := by
  have more : s.bytes.drop i ≠ [] := by
    rw [drop_bytes held below]
    exact List.cons_ne_nil _ _
  have pos := runs_pos more
  rw [literalsFrom_eq, zerosAt_eq, ← List.drop_drop]
  omega

/-- `pack`, from the `i`th byte on. -/
def packFrom (s : Src) (i : Nat) (held : Held s) : List (BitVec 8) × Held s :=
  if i < s.len then
    let zeros := zerosAt s i held
    let start := i + zeros.1
    let stop := literalsFrom s start zeros.2
    let copied := srcCopy s start (stop.1 - start) stop.2
    let rest := packFrom s stop.1 copied.2
    (varint zeros.1 ++ varint (stop.1 - start) ++ copied.1 ++ rest.1, rest.2)
  else ([], held)
termination_by s.len - i
decreasing_by
  rename_i below
  have past := literalsFrom_lt held below
  omega

/-- `pack`. -/
def pack (s : Src) (held : Held s) : List (BitVec 8) × Held s := packFrom s 0 held

theorem packFrom_eq (s : Src) (i : Nat) (held : Held s) :
    (packFrom s i held).1 = (recordsOf (s.bytes.drop i)).flatMap ZeroRecord.encode := by
  induction i, held using packFrom.induct s with
  | case1 i held below zeros start stop copied ih =>
    have more : s.bytes.drop i ≠ [] := by
      rw [drop_bytes held below]
      exact List.cons_ne_nil _ _
    have first : zeros.1 = zeroRun (s.bytes.drop i) := zerosAt_eq s i held
    have last : stop.1 = start + literalRun (s.bytes.drop start) := literalsFrom_eq s start zeros.2
    have count : stop.1 - start = literalRun (s.bytes.drop start) := by omega
    have behind : (s.bytes.drop i).drop (zeroRun (s.bytes.drop i)) = s.bytes.drop start := by
      rw [List.drop_drop, ← first]
    have fits : start + (stop.1 - start) ≤ s.len := by
      have within := zeroRun_le (s.bytes.drop i)
      have short := literalRun_le (s.bytes.drop start)
      rw [List.length_drop, s.bytes_length] at within short
      omega
    have literals : copied.1 = (s.bytes.drop start).take (literalRun (s.bytes.drop start)) := by
      rw [← count]
      exact srcCopy_eq stop.2 fits
    have rest : (packFrom s stop.1 copied.2).1
        = (recordsOf ((s.bytes.drop start).drop (literalRun (s.bytes.drop start)))).flatMap ZeroRecord.encode := by
      rw [List.drop_drop, ← last]
      exact ih
    have length : ((s.bytes.drop start).take (literalRun (s.bytes.drop start))).length = stop.1 - start := by
      rw [List.length_take, count]
      exact Nat.min_eq_left (literalRun_le _)
    rw [packFrom, if_pos below, recordsOf, if_neg more, List.flatMap_cons, ZeroRecord.encode, behind, length, ← first,
      ← literals, ← rest]
  | case2 i held past =>
    rw [packFrom, if_neg past, List.drop_eq_nil_of_le (by rw [s.bytes_length]; exact Nat.le_of_not_lt past),
      recordsOf, if_pos rfl]
    rfl

theorem unpack_pack (s : Src) (held : Held s) : unpack (pack s held).1 = some s.bytes := by
  show unpack (packFrom s 0 held).1 = _
  rw [packFrom_eq, unpack_encode, recordsOf_bytes, List.drop_zero]

end Pack

section Callers

/-- The hole of a `struct chk`: where its bytes stand, and how many. -/
structure Hole where
  bytes : Nat
  len : Nat

/-- `struct chk`, a body: the bytes put, and a hole where so many of them had been. -/
structure Chk where
  p : List (BitVec 8)
  hole : Option (Hole × Fin (p.length + 1))
  version : BitVec 32

/-- What a body stands for, in the memory its hole is read from. -/
def Chk.bytes (w : Chk) (mem : Nat → BitVec 8) : List (BitVec 8) :=
  match w.hole with
  | none => w.p
  | some (hole, k) => w.p.take k ++ (List.range hole.len).map (fun i => mem (hole.bytes + i)) ++ w.p.drop k

/-- `chk_init`. -/
def chkInit : Chk := ⟨[], none, 0⟩

/-- `put`. -/
def put (w : Chk) (b : List (BitVec 8)) : Chk where
  p := w.p ++ b
  hole := w.hole.map fun (hole, k) => (hole, ⟨k, by have := k.isLt; rw [List.length_append]; omega⟩)
  version := w.version

/-- `chk_hole`, of a body that has none: a second breaks it. -/
def chkHole (w : Chk) (bytes n : Nat) : Chk := { w with hole := some (⟨bytes, n⟩, Fin.last w.p.length) }

/-- `src_of`. -/
def srcOf (w : Chk) (mem : Nat → BitVec 8) : Src :=
  match w.hole with
  | some (hole, k) => ⟨w.p.take k, hole.bytes, hole.len, w.p.drop k, mem⟩
  | none => ⟨w.p, 0, 0, [], mem⟩

/-- `chk_pack`, of one flat buffer. -/
def chkPack (raw : List (BitVec 8)) : List (BitVec 8) :=
  let s := srcOf { chkInit with p := raw, hole := none } fun _ => 0
  (pack s (.fresh s)).1

/-- `CHK_VERSION`. -/
abbrev chkVersion : BitVec 32 := 54

/-- `kMagic`, less its terminator. -/
def magic : List (BitVec 8) := "muir checkpoint\n".toList.map fun c => BitVec.ofNat 8 c.toNat

/-- `chk_u32`. -/
def u32 (v : BitVec 32) : List (BitVec 8) := (List.range 4).map fun i => (v >>> (8 * i)).setWidth 8

/-- `chk_write_file`: the file, and every read of the body's hole. -/
def chkWriteFile (engine : List (BitVec 8)) (boards : BitVec 32) (body : Chk) (mem : Nat → BitVec 8) :
    List (BitVec 8) × List (Nat × Nat) :=
  let version := if body.version ≠ 0 then body.version else chkVersion
  let head := magic ++ u32 version ++ [BitVec.ofNat 8 engine.length] ++ engine ++ u32 boards
  let s := srcOf body mem
  let packed := pack s (.fresh s)
  (head ++ packed.1, packed.2.asked)

theorem srcOf_bytes (w : Chk) (mem : Nat → BitVec 8) : (srcOf w mem).bytes = w.bytes mem := by
  unfold srcOf Chk.bytes
  cases w.hole with
  | some hole => rfl
  | none => exact List.append_nil _ |>.trans (List.append_nil _)

theorem chkPack_bytes (w : Chk) (mem : Nat → BitVec 8) :
    chkPack (w.bytes mem) = (pack (srcOf w mem) (.fresh _)).1 := by
  show (packFrom _ 0 _).1 = (packFrom _ 0 _).1
  rw [packFrom_eq, packFrom_eq, srcOf_bytes, srcOf_bytes]
  rfl

/-- **What a checkpoint's packed body decodes to.** Of any body, its hole anywhere in it, of any length and at any
address: behind the header, the file is the encodings of some records whose bytes are the body's; reading that
stream back gives the body; packing the body from one flat buffer writes the same stream; and every read asked of
the hole is a byte or a word inside it and aligned, as none is where there is no hole. -/
theorem packed_body_exact (engine : List (BitVec 8)) (boards : BitVec 32) (body : Chk) (mem : Nat → BitVec 8) :
    ∃ (stream : List (BitVec 8)) (records : List ZeroRecord),
      (chkWriteFile engine boards body mem).1.drop (magic.length + 4 + 1 + engine.length + 4) = stream
        ∧ stream = records.flatMap ZeroRecord.encode ∧ records.flatMap ZeroRecord.bytes = body.bytes mem
        ∧ unpack stream = some (body.bytes mem) ∧ chkPack (body.bytes mem) = stream
        ∧ ∀ read ∈ (chkWriteFile engine boards body mem).2, ∃ hole k, body.hole = some (hole, k)
            ∧ (read.2 = 1 ∨ read.2 = 4) ∧ hole.bytes ≤ read.1 ∧ read.1 + read.2 ≤ hole.bytes + hole.len
            ∧ read.1 % read.2 = 0 := by
  refine ⟨(pack (srcOf body mem) (.fresh _)).1, recordsOf (body.bytes mem), ?_, ?_, recordsOf_bytes _, ?_,
    chkPack_bytes body mem, ?_⟩
  · apply List.drop_left'
    simp only [List.length_append, List.length_singleton, u32, List.length_map, List.length_range]
  · show (packFrom _ 0 _).1 = _
    rw [packFrom_eq, srcOf_bytes]
    rfl
  · rw [unpack_pack, srcOf_bytes]
  · intro read asked
    have inside := (pack (srcOf body mem) (.fresh _)).2.inside read asked
    unfold srcOf at inside
    cases there : body.hole with
    | some hole =>
      rw [there] at inside
      exact ⟨hole.1, hole.2, rfl, inside⟩
    | none =>
      rw [there] at inside
      obtain ⟨one | four, -, past, -⟩ := inside
      · exact absurd past (by rw [one]; exact Nat.not_succ_le_zero _)
      · exact absurd past (by rw [four]; exact Nat.not_succ_le_zero _)

end Callers

end MuirFpga.Checkpoint
