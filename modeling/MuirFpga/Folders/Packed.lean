import MuirFpga.Folders.Memory
import MuirFpga.Quux.PackedProgress
import Mathlib.Data.List.GetD

/-!
# Packed storage from the other side

Main memory's packed bytes as the file device and the Ethernet device move them. A run of bytes is
moved by single bytes to a 32-bit boundary, by aligned words while four bytes are left, and by single
bytes to its end; a run of words is moved so many at a time, each word five bytes.
-/

namespace MuirFpga.Folders

open MuirFpga.Posix

section Accesses

/-- One access to memory: a byte, or an aligned word. -/
structure Access where
  at_ : Nat
  wide : Bool

namespace Access

variable (x : Access)

def size : Nat := if x.wide then 4 else 1

/-- The bytes an access reaches. -/
def bytes : List Nat := List.range' x.at_ x.size

/-- Naturally aligned, in a mapping from `base`. -/
def Aligned (base : Nat) : Prop := (base + x.at_) % x.size = 0

/-- The bytes read. -/
def load (b : Nat → UInt8) : Bytes :=
  if x.wide then bytesOfWord (wordOfBytes (b x.at_) (b (x.at_ + 1)) (b (x.at_ + 2)) (b (x.at_ + 3)))
  else [b x.at_]

/-- The bytes after the first of `img` are written. -/
def store (b : Nat → UInt8) (img : Bytes) : Nat → UInt8 :=
  if x.wide then
    let v := wordOfBytes (img.getD 0 0) (img.getD 1 0) (img.getD 2 0) (img.getD 3 0)
    fun a => if x.at_ ≤ a ∧ a < x.at_ + 4 then (bytesOfWord v).getD (a - x.at_) 0 else b a
  else fun a => if a = x.at_ then img.getD 0 0 else b a

end Access

theorem bytesOfWord_wordOfBytes (b0 b1 b2 b3 : UInt8) :
    bytesOfWord (wordOfBytes b0 b1 b2 b3) = [b0, b1, b2, b3] := by
  have first : (wordOfBytes b0 b1 b2 b3).extractLsb' 0 8 = b0.toBitVec :=
    (BitVec.extractLsb'_append_eq_of_add_le (by omega)).trans BitVec.extractLsb'_eq_self
  have second : (wordOfBytes b0 b1 b2 b3).extractLsb' 8 8 = b1.toBitVec :=
    (BitVec.extractLsb'_append_eq_of_le (by omega)).trans
      ((BitVec.extractLsb'_append_eq_of_add_le (by omega)).trans BitVec.extractLsb'_eq_self)
  have third : (wordOfBytes b0 b1 b2 b3).extractLsb' 16 8 = b2.toBitVec :=
    (BitVec.extractLsb'_append_eq_of_le (by omega)).trans
      ((BitVec.extractLsb'_append_eq_of_le (by omega)).trans
        ((BitVec.extractLsb'_append_eq_of_add_le (by omega)).trans BitVec.extractLsb'_eq_self))
  have fourth : (wordOfBytes b0 b1 b2 b3).extractLsb' 24 8 = b3.toBitVec :=
    (BitVec.extractLsb'_append_eq_of_le (by omega)).trans
      ((BitVec.extractLsb'_append_eq_of_le (by omega)).trans
        ((BitVec.extractLsb'_append_eq_of_le (by omega)).trans BitVec.extractLsb'_eq_self))
  unfold bytesOfWord
  simp only [List.map_cons, List.map_nil, first, second, third, fourth, UInt8.ofBitVec_toBitVec]

theorem wordOfBytes_bytesOfWord (w : Word) :
    wordOfBytes ((bytesOfWord w).getD 0 0) ((bytesOfWord w).getD 1 0) ((bytesOfWord w).getD 2 0)
      ((bytesOfWord w).getD 3 0) = w := by
  show w.extractLsb' 24 8 ++ w.extractLsb' 16 8 ++ w.extractLsb' 8 8 ++ w.extractLsb' 0 8 = w
  rw [BitVec.extractLsb'_append_extractLsb'_eq_extractLsb' (by omega),
    BitVec.extractLsb'_append_extractLsb'_eq_extractLsb' (by omega),
    BitVec.extractLsb'_append_extractLsb'_eq_extractLsb' (by omega)]
  exact BitVec.extractLsb'_eq_self

namespace Access

variable (x : Access)

theorem load_eq (b : Nat → UInt8) : x.load b = x.bytes.map b := by
  unfold load bytes size
  cases x.wide with
  | true => exact bytesOfWord_wordOfBytes _ _ _ _
  | false => rfl

theorem store_eq (b : Nat → UInt8) (img : Bytes) (a : Nat) :
    x.store b img a = if x.at_ ≤ a ∧ a < x.at_ + x.size then img.getD (a - x.at_) 0 else b a := by
  unfold store size
  cases x.wide with
  | true =>
    simp only [if_true, bytesOfWord_wordOfBytes]
    by_cases reached : x.at_ ≤ a ∧ a < x.at_ + 4
    · rw [if_pos reached, if_pos reached]
      obtain here | here | here | here : a - x.at_ = 0 ∨ a - x.at_ = 1 ∨ a - x.at_ = 2 ∨ a - x.at_ = 3 := by
        omega
      all_goals
        rw [here]
        rfl
    · rw [if_neg reached, if_neg reached]
  | false =>
    simp only [Bool.false_eq_true, if_false]
    by_cases here : a = x.at_
    · subst here
      rw [if_pos rfl, if_pos (by omega), Nat.sub_self]
    · rw [if_neg here, if_neg (by omega)]

end Access

/-- The accesses of a run of bytes, one after another. -/
inductive Contiguous : Nat → Nat → List Access → Prop
  | done (o : Nat) : Contiguous o o []
  | next {x : Access} {hi : Nat} {xs : List Access} (rest : Contiguous (x.at_ + x.size) hi xs) :
      Contiguous x.at_ hi (x :: xs)

namespace Contiguous

variable {lo mid hi : Nat} {xs ys : List Access}

theorem le (h : Contiguous lo hi xs) : lo ≤ hi := by
  induction h with
  | done o => exact le_rfl
  | next rest ih => omega

theorem append (h : Contiguous lo mid xs) (after : Contiguous mid hi ys) :
    Contiguous lo hi (xs ++ ys) := by
  induction h with
  | done o => exact after
  | next rest ih => exact .next (ih after)

theorem bytes_eq (h : Contiguous lo hi xs) : xs.flatMap Access.bytes = List.range' lo (hi - lo) := by
  induction h with
  | done o => rw [Nat.sub_self]; rfl
  | @next x hi xs rest ih =>
    have reach := rest.le
    rw [List.flatMap_cons, ih, Access.bytes, List.range'_append_1]
    congr 1
    omega

end Contiguous

section Loops

/-- Single bytes to a 32-bit boundary: the accesses, and where they end. -/
def headLoop (hi o : Nat) : List Access × Nat :=
  if o < hi ∧ o % 4 ≠ 0 then
    let rest := headLoop hi (o + 1)
    (⟨o, false⟩ :: rest.1, rest.2)
  else ([], o)
termination_by hi - o

/-- Words while four bytes are left. -/
def wordLoop (hi o : Nat) : List Access × Nat :=
  if o + 4 ≤ hi then
    let rest := wordLoop hi (o + 4)
    (⟨o, true⟩ :: rest.1, rest.2)
  else ([], o)
termination_by hi - o

/-- Single bytes to the end. -/
def tailLoop (hi o : Nat) : List Access × Nat :=
  if o < hi then
    let rest := tailLoop hi (o + 1)
    (⟨o, false⟩ :: rest.1, rest.2)
  else ([], o)
termination_by hi - o

/-- The accesses of `packed_load` and `packed_store`. -/
def accesses (lo hi : Nat) : List Access :=
  let head := headLoop hi lo
  let words := wordLoop hi head.2
  let tail := tailLoop hi words.2
  head.1 ++ words.1 ++ tail.1

/-- `packed_load`. -/
def packedLoad (b : Nat → UInt8) (lo hi : Nat) : Bytes := (accesses lo hi).flatMap fun x => x.load b

/-- An access written from the front of what is left to write. -/
def storeNext (s : (Nat → UInt8) × Bytes) (x : Access) : (Nat → UInt8) × Bytes :=
  (x.store s.1 s.2, s.2.drop x.size)

/-- `packed_store`. -/
def packedStore (b : Nat → UInt8) (lo hi : Nat) (img : Bytes) : Nat → UInt8 :=
  ((accesses lo hi).foldl storeNext (b, img)).1

variable {hi o : Nat}

theorem headLoop_spec (within : o ≤ hi) :
    Contiguous o (headLoop hi o).2 (headLoop hi o).1 ∧ (headLoop hi o).2 ≤ hi ∧
      ((headLoop hi o).2 % 4 = 0 ∨ (headLoop hi o).2 = hi) ∧ ∀ x ∈ (headLoop hi o).1, x.wide = false := by
  induction o using headLoop.induct hi with
  | case1 o more ih =>
    obtain ⟨joined, le, stops, narrow⟩ := ih (by omega)
    rw [headLoop, if_pos more]
    refine ⟨.next (x := ⟨o, false⟩) joined, le, stops, fun x among => ?_⟩
    rcases List.mem_cons.mp among with rfl | among
    · rfl
    · exact narrow x among
  | case2 o stop =>
    rw [headLoop, if_neg stop]
    exact ⟨.done o, within, by omega, fun x among => nomatch among⟩

theorem wordLoop_spec (within : o ≤ hi) (boundary : o % 4 = 0 ∨ o = hi) :
    Contiguous o (wordLoop hi o).2 (wordLoop hi o).1 ∧ (wordLoop hi o).2 ≤ hi ∧
      ∀ x ∈ (wordLoop hi o).1, x.at_ % 4 = 0 := by
  induction o using wordLoop.induct hi with
  | case1 o more ih =>
    obtain ⟨joined, le, placed⟩ := ih (by omega) (by omega)
    rw [wordLoop, if_pos more]
    refine ⟨.next (x := ⟨o, true⟩) joined, le, fun x among => ?_⟩
    rcases List.mem_cons.mp among with rfl | among
    · show o % 4 = 0
      omega
    · exact placed x among
  | case2 o stop =>
    rw [wordLoop, if_neg stop]
    exact ⟨.done o, within, fun x among => nomatch among⟩

theorem tailLoop_spec (within : o ≤ hi) :
    Contiguous o hi (tailLoop hi o).1 ∧ ∀ x ∈ (tailLoop hi o).1, x.wide = false := by
  induction o using tailLoop.induct hi with
  | case1 o more ih =>
    obtain ⟨joined, narrow⟩ := ih (by omega)
    rw [tailLoop, if_pos more]
    refine ⟨.next (x := ⟨o, false⟩) joined, fun x among => ?_⟩
    rcases List.mem_cons.mp among with rfl | among
    · rfl
    · exact narrow x among
  | case2 o stop =>
    rw [tailLoop, if_neg stop, show o = hi by omega]
    exact ⟨.done hi, fun x among => nomatch among⟩

variable {lo : Nat}

theorem accesses_contiguous (within : lo ≤ hi) : Contiguous lo hi (accesses lo hi) := by
  obtain ⟨head, le, boundary, -⟩ := headLoop_spec within
  obtain ⟨words, le', -⟩ := wordLoop_spec le boundary
  exact (head.append words).append (tailLoop_spec le').1

theorem accesses_aligned {base : Nat} (aligned : base % 4 = 0) (within : lo ≤ hi) :
    ∀ x ∈ accesses lo hi, x.Aligned base := by
  obtain ⟨-, le, boundary, head⟩ := headLoop_spec within
  obtain ⟨-, le', words⟩ := wordLoop_spec le boundary
  have tail := (tailLoop_spec le').2
  have byte (x : Access) (narrow : x.wide = false) : x.Aligned base := by
    unfold Access.Aligned Access.size
    rw [narrow]
    exact Nat.mod_one _
  intro x among
  rcases List.mem_append.mp among with among | among
  · rcases List.mem_append.mp among with among | among
    · exact byte x (head x among)
    · have placed := words x among
      unfold Access.Aligned Access.size
      split <;> omega
  · exact byte x (tail x among)

theorem packedLoad_eq (b : Nat → UInt8) (within : lo ≤ hi) :
    packedLoad b lo hi = (List.range' lo (hi - lo)).map b := by
  unfold packedLoad
  rw [← (accesses_contiguous within).bytes_eq, List.map_flatMap]
  congr 1
  funext x
  exact x.load_eq b

theorem foldl_storeNext {xs : List Access} (run : Contiguous lo hi xs) (b : Nat → UInt8) (img : Bytes)
    (a : Nat) :
    (xs.foldl storeNext (b, img)).1 a = if lo ≤ a ∧ a < hi then img.getD (a - lo) 0 else b a := by
  induction run generalizing b img with
  | done o => rw [List.foldl_nil, if_neg (by omega)]
  | @next x hi xs rest ih =>
    have reach := rest.le
    rw [List.foldl_cons, storeNext, ih]
    by_cases later : x.at_ + x.size ≤ a ∧ a < hi
    · rw [if_pos later, if_pos (by omega), List.getD_eq_getElem?_getD, List.getElem?_drop,
        ← List.getD_eq_getElem?_getD]
      congr 1
      omega
    · rw [if_neg later, x.store_eq]
      by_cases now : x.at_ ≤ a ∧ a < x.at_ + x.size
      · rw [if_pos now, if_pos (by omega)]
      · rw [if_neg now, if_neg (by omega)]

theorem packedStore_eq (b : Nat → UInt8) (img : Bytes) (within : lo ≤ hi) (a : Nat) :
    packedStore b lo hi img a = if lo ≤ a ∧ a < hi then img.getD (a - lo) 0 else b a :=
  foldl_storeNext (accesses_contiguous within) b img a

end Loops

end Accesses

/-- A mover of packed words: how many at a time, and the tag it writes. -/
structure Codec where
  run : Nat
  pos : 0 < run
  tag : UInt8

/-- `PACK_RUN`. -/
def packRun : Nat := 64

/-- The file device's, and `QFD_TAG_FIXNUM`. -/
def qfd : Codec := ⟨packRun, by decide, 0o05⟩

/-- The Ethernet device's, and `QED_TAG_FIXNUM`. -/
def qed : Codec := ⟨packRun, by decide, 0o05⟩

/-- What a mover's pass did: what it gives, and its accesses. -/
structure Pass (α : Type) where
  out : α
  log : List Access

namespace Codec

variable (x : Codec)

/-- Words as packed storage has them. -/
def image (ws : List Word) : Bytes := ws.flatMap fun w => bytesOfWord w ++ [x.tag]

/-- Word `i` of an image. -/
def wordAt (img : Bytes) (i : Nat) : Word :=
  wordOfBytes (img.getD (5 * i) 0) (img.getD (5 * i + 1) 0) (img.getD (5 * i + 2) 0) (img.getD (5 * i + 3) 0)

/-- `n` words from word `k` read. -/
def read (m : Memory) (k n : Nat) : Pass (List Word) :=
  if n ≠ 0 then
    let c := if n < x.run then n else x.run
    let img := packedLoad m.b (5 * k) (5 * (k + c))
    let rest := read m (k + c) (n - c)
    ⟨(List.range c).map (wordAt img) ++ rest.out, accesses (5 * k) (5 * (k + c)) ++ rest.log⟩
  else ⟨[], []⟩
termination_by n
decreasing_by
  have pos := x.pos
  split <;> omega

/-- Words written from word `k`. -/
def write (m : Memory) (k : Nat) (ws : List Word) : Pass Memory :=
  if ws.length ≠ 0 then
    let c := if ws.length < x.run then ws.length else x.run
    let m := { m with b := packedStore m.b (5 * k) (5 * (k + c)) (x.image (ws.take c)) }
    let rest := write m (k + c) (ws.drop c)
    ⟨rest.out, accesses (5 * k) (5 * (k + c)) ++ rest.log⟩
  else ⟨m, []⟩
termination_by ws.length
decreasing_by
  have pos := x.pos
  rw [List.length_drop]
  split <;> omega

end Codec

/-- `rd_run` of the file device. -/
def packedRdRun (m : Memory) (k n : Nat) : Pass (List Word) := qfd.read m k n

/-- `wr_run`. -/
def wrRun (m : Memory) (k : Nat) (ws : List Word) : Pass Memory := qfd.write m k ws

def qedMemRead (m : Memory) (k n : Nat) : Pass (List Word) := qed.read m k n

def qedMemWrite (m : Memory) (k : Nat) (ws : List Word) : Pass Memory := qed.write m k ws

namespace Codec

variable (x : Codec)

theorem length_image (ws : List Word) : (x.image ws).length = 5 * ws.length := by
  induction ws with
  | nil => rfl
  | cons w ws ih =>
    rw [image, List.flatMap_cons, List.length_append, ← image, ih, List.length_cons]
    show 5 + _ = _
    omega

theorem image_append (ws ws' : List Word) : x.image (ws ++ ws') = x.image ws ++ x.image ws' :=
  List.flatMap_append

theorem image_drop (ws : List Word) (i : Nat) : (x.image ws).drop (5 * i) = x.image (ws.drop i) := by
  induction ws generalizing i with
  | nil => simp [image]
  | cons w ws ih =>
    cases i with
    | zero => rfl
    | succ i =>
      have skip : 5 * (i + 1) = (bytesOfWord w ++ [x.tag]).length + 5 * i := by
        show _ = 5 + 5 * i
        omega
      rw [image, List.flatMap_cons, skip, ← List.drop_drop, List.drop_left, List.drop_succ_cons]
      exact ih i

theorem write_out (m : Memory) (k : Nat) (ws : List Word) (a : Nat) :
    (x.write m k ws).out.b a =
      if 5 * k ≤ a ∧ a < 5 * (k + ws.length) then (x.image ws).getD (a - 5 * k) 0 else m.b a := by
  induction m, k, ws using write.induct x with
  | case1 m k ws more c m' ih =>
    have le : c ≤ ws.length := by
      show (if _ then _ else _) ≤ _
      split <;> omega
    have length : (ws.take c).length = c := List.length_take_of_le le
    have whole := x.image_append (ws.take c) (ws.drop c)
    rw [List.take_append_drop] at whole
    have cut : (x.image (ws.take c)).length = 5 * c := by rw [length_image, length]
    rw [write, if_pos more]
    show (x.write m' (k + c) (ws.drop c)).out.b a = _
    rw [ih, List.length_drop, show m'.b a = _ from packedStore_eq m.b _ (by omega) a, whole]
    by_cases later : 5 * (k + c) ≤ a ∧ a < 5 * (k + c + (ws.length - c))
    · rw [if_pos later, if_pos (by omega), List.getD_append_right _ _ _ _ (by omega), cut]
      congr 1
      omega
    · rw [if_neg later]
      by_cases now : 5 * k ≤ a ∧ a < 5 * (k + c)
      · rw [if_pos now, if_pos (by omega), List.getD_append _ _ _ _ (by omega)]
      · rw [if_neg now, if_neg (by omega)]
  | case2 m k ws none_ =>
    rw [write, if_neg none_, if_neg (by omega)]

/-- The accesses of a run: its bytes, each once, all naturally aligned. -/
structure Covers (k n : Nat) (log : List Access) : Prop where
  bytes : log.flatMap Access.bytes = List.range' (5 * k) (5 * n)
  aligned : ∀ base, base % 4 = 0 → ∀ y ∈ log, y.Aligned base

theorem Covers.cons {k c n : Nat} {log : List Access} (le : c ≤ n) (rest : Covers (k + c) (n - c) log) :
    Covers k n (accesses (5 * k) (5 * (k + c)) ++ log) := by
  constructor
  · have width : 5 * (k + c) - 5 * k = 5 * c := by omega
    rw [List.flatMap_append, (accesses_contiguous (by omega)).bytes_eq, rest.bytes, width, Nat.mul_add,
      List.range'_append_1]
    congr 1
    omega
  · intro base quarter y among
    rcases List.mem_append.mp among with among | among
    · exact accesses_aligned quarter (by omega) y among
    · exact rest.aligned base quarter y among

theorem Covers.nil (k : Nat) : Covers k 0 [] := ⟨rfl, fun _ _ _ among => nomatch among⟩

theorem write_log (m : Memory) (k : Nat) (ws : List Word) : Covers k ws.length (x.write m k ws).log := by
  induction m, k, ws using write.induct x with
  | case1 m k ws more c m' ih =>
    have le : c ≤ ws.length := by
      show (if _ then _ else _) ≤ _
      split <;> omega
    rw [List.length_drop] at ih
    rw [write, if_pos more]
    exact ih.cons le
  | case2 m k ws none_ =>
    rw [write, if_neg none_, show ws.length = 0 by omega]
    exact Covers.nil k

theorem read_log (m : Memory) (k n : Nat) : Covers k n (x.read m k n).log := by
  induction k, n using read.induct x m with
  | case1 k n more c ih =>
    have le : c ≤ n := by
      show (if _ then _ else _) ≤ _
      split <;> omega
    rw [read, if_pos more]
    exact ih.cons le
  | case2 k n none_ =>
    rw [read, if_neg none_, show n = 0 by omega]
    exact Covers.nil k

theorem wordAt_load (m : Memory) {k c i : Nat} (inside : i < c) :
    wordAt (packedLoad m.b (5 * k) (5 * (k + c))) i = m.word (k + i) := by
  have byte (j : Nat) (less : j < 5 * c) :
      (packedLoad m.b (5 * k) (5 * (k + c))).getD j 0 = m.b (5 * k + j) := by
    rw [packedLoad_eq m.b (by omega), List.getD_eq_getElem?_getD, List.getElem?_map,
      List.getElem?_range' (by omega), Nat.one_mul]
    rfl
  unfold wordAt Memory.word
  rw [byte _ (by omega), byte _ (by omega), byte _ (by omega), byte _ (by omega), Nat.mul_add]
  rfl

theorem read_out (m : Memory) (k n : Nat) :
    (x.read m k n).out = (List.range n).map fun i => m.word (k + i) := by
  induction k, n using read.induct x m with
  | case1 k n more c ih =>
    have le : c ≤ n := by
      show (if _ then _ else _) ≤ _
      split <;> omega
    have here : (List.range c).map (wordAt (packedLoad m.b (5 * k) (5 * (k + c)))) =
        (List.range c).map fun i => m.word (k + i) :=
      List.map_congr_left fun i among => wordAt_load m (List.mem_range.mp among)
    rw [read, if_pos more]
    show (List.range c).map (wordAt (packedLoad m.b (5 * k) (5 * (k + c)))) ++ (x.read m (k + c) (n - c)).out = _
    rw [ih, here]
    conv_rhs => rw [← Nat.add_sub_cancel' le, List.range_add, List.map_append, List.map_map]
    congr 1
    exact List.map_congr_left fun i _ => congrArg m.word (Nat.add_assoc k c i)
  | case2 k n none_ =>
    rw [read, if_neg none_, show n = 0 by omega]
    rfl

theorem image_getD {ws : List Word} {i r : Nat} (inside : i < ws.length) (within : r < 5) :
    (x.image ws).getD (5 * i + r) 0 = (bytesOfWord (ws.get ⟨i, inside⟩) ++ [x.tag]).getD r 0 := by
  have here : (bytesOfWord (ws.get ⟨i, inside⟩) ++ [x.tag]).length = 5 := rfl
  rw [List.getD_eq_getElem?_getD, ← List.getElem?_drop, x.image_drop, List.drop_eq_getElem_cons inside,
    image, List.flatMap_cons, List.getElem?_append_left (by rw [← here] at within; exact within),
    ← List.getD_eq_getElem?_getD]
  rfl

theorem write_byte (m : Memory) (k : Nat) {ws : List Word} {i r : Nat} (inside : i < ws.length) (within : r < 5) :
    (x.write m k ws).out.b (5 * (k + i) + r) = (bytesOfWord (ws.get ⟨i, inside⟩) ++ [x.tag]).getD r 0 := by
  rw [write_out, if_pos (by omega), ← x.image_getD inside within]
  congr 1
  omega

theorem write_word (m : Memory) (k : Nat) {ws : List Word} {i : Nat} (inside : i < ws.length) :
    (List.range' (5 * (k + i)) 5).map (x.write m k ws).out.b = bytesOfWord (ws.get ⟨i, inside⟩) ++ [x.tag] := by
  apply List.ext_getElem
  · rfl
  · intro r left right
    rw [List.getElem_map, List.getElem_range', Nat.one_mul, x.write_byte m k inside right,
      List.getD_eq_getElem _ _ right]

theorem write_outside (m : Memory) {k a : Nat} {ws : List Word}
    (outside : a < 5 * k ∨ 5 * (k + ws.length) ≤ a) : (x.write m k ws).out.b a = m.b a := by
  rw [write_out, if_neg (by omega)]

end Codec

section History

/-- A run written: by what, from which word and what. -/
structure RunWritten where
  by_ : Codec
  k : Nat
  ws : List Word

namespace RunWritten

variable (r : RunWritten)

def into (m : Memory) : Memory := (r.by_.write m r.k r.ws).out

/-- What a run writes to a word. -/
def put (j : Nat) : Option Word := if r.k ≤ j then r.ws[j - r.k]? else none

end RunWritten

/-- The last of what some runs write to a word. -/
def latest (runs : List RunWritten) (j : Nat) : Option Word :=
  runs.foldl (fun held r => (r.put j).or held) none

theorem RunWritten.word_into (r : RunWritten) (m : Memory) (j : Nat) :
    (r.into m).word j = (r.put j).getD (m.word j) := by
  unfold into put
  by_cases inside : r.k ≤ j ∧ j - r.k < r.ws.length
  · have byte (i : Nat) (less : i < 5) : (r.by_.write m r.k r.ws).out.b (5 * j + i) =
        (bytesOfWord (r.ws.get ⟨j - r.k, inside.2⟩) ++ [r.by_.tag]).getD i 0 := by
      rw [← r.by_.write_byte m r.k inside.2 less, Nat.add_sub_cancel' inside.1]
    rw [if_pos inside.1, List.getElem?_eq_getElem inside.2, Option.getD_some]
    unfold Memory.word
    rw [byte 1 (by omega), byte 2 (by omega), byte 3 (by omega)]
    exact (congrArg (wordOfBytes · _ _ _) (byte 0 (by omega))).trans (wordOfBytes_bytesOfWord _)
  · have same (i : Nat) (less : i < 5) : (r.by_.write m r.k r.ws).out.b (5 * j + i) = m.b (5 * j + i) :=
      r.by_.write_outside m (by omega)
    have none_ : (if r.k ≤ j then r.ws[j - r.k]? else none) = none := by
      split
      · exact List.getElem?_eq_none (by omega)
      · rfl
    rw [none_]
    unfold Memory.word
    rw [same 1 (by omega), same 2 (by omega), same 3 (by omega)]
    exact congrArg (wordOfBytes · _ _ _) (same 0 (by omega))

/-- A word is the last run's to write it. -/
theorem word_after (runs : List RunWritten) (m : Memory) (j : Nat) :
    (runs.foldl (fun m r => r.into m) m).word j = (latest runs j).getD (m.word j) := by
  have from_ (held : Option Word) (m₀ : Memory) (here : m.word j = held.getD (m₀.word j)) :
      (runs.foldl (fun m r => r.into m) m).word j =
        (runs.foldl (fun held r => (r.put j).or held) held).getD (m₀.word j) := by
    induction runs generalizing m held with
    | nil => exact here
    | cons r runs ih =>
      rw [List.foldl_cons, List.foldl_cons]
      apply ih
      rw [r.word_into, here]
      cases r.put j <;> rfl
  exact from_ none m rfl

/-- A byte that no run covers is as it was. -/
theorem untouched (runs : List RunWritten) (m : Memory) {a : Nat}
    (outside : ∀ r ∈ runs, a < 5 * r.k ∨ 5 * (r.k + r.ws.length) ≤ a) :
    (runs.foldl (fun m r => r.into m) m).b a = m.b a := by
  induction runs generalizing m with
  | nil => rfl
  | cons r runs ih =>
    rw [List.foldl_cons, ih _ fun r' among => outside r' (.tail r among)]
    exact r.by_.write_outside m (outside r (.head runs))

end History

open Quux (MasterConfig PackedIn Packed Master)

section Fabric

/-- Main memory in the board's memory, as Linux maps it. -/
def mapped (c : MasterConfig) (words : Nat) (bytes : Sync.Bytes) : Memory :=
  ⟨words, fun a => .ofBitVec (bytes (c.mainBase + BitVec.ofNat 32 a))⟩

variable (c : MasterConfig) (words : Nat) (bytes : Sync.Bytes)

theorem load_mapped {bus : BitVec 29} (main : bus.getLsbD 28 = false) :
    c.load bytes bus = ((mapped c words bytes).b (5 * bus.toNat + 4)).toBitVec ++
      (mapped c words bytes).word bus.toNat := by
  have place : c.place bus = c.mainBase + BitVec.ofNat 32 (5 * bus.toNat) := by
    unfold MasterConfig.place
    rw [main, if_neg Bool.false_ne_true]
  have byte (i : Nat) : bytes (c.mainBase + BitVec.ofNat 32 (5 * bus.toNat + i)) =
      bytes (c.place bus + BitVec.ofNat 32 i) := by
    rw [place, BitVec.ofNat_add, BitVec.add_assoc]
  unfold MasterConfig.load Memory.word wordOfBytes mapped
  dsimp only
  rw [main, if_neg Bool.false_ne_true, byte 1, byte 2, byte 3, byte 4, ← place]
  rfl

theorem store_mapped {bus : BitVec 29} (main : bus.getLsbD 28 = false) (word : BitVec 40) {a : Nat}
    (less : a < 2 ^ 32) :
    (mapped c words (c.store bytes bus word)).b a =
      if 5 * bus.toNat ≤ a ∧ a < 5 * bus.toNat + 5 then
        .ofBitVec (word.extractLsb' (8 * (a - 5 * bus.toNat)) 8)
      else (mapped c words bytes).b a := by
  have place : c.place bus = c.mainBase + BitVec.ofNat 32 (5 * bus.toNat) := by
    unfold MasterConfig.place
    rw [main, if_neg Bool.false_ne_true]
  have top : bus.toNat < 2 ^ 28 := by
    have sign : bus.msb = false := main
    rw [BitVec.msb_eq_decide, decide_eq_false_iff_not] at sign
    exact Nat.lt_of_not_le sign
  have offset : (c.mainBase + BitVec.ofNat 32 a - c.place bus).toNat =
      (a + (2 ^ 32 - 5 * bus.toNat)) % 2 ^ 32 := by
    rw [place, BitVec.toNat_sub, BitVec.toNat_add, BitVec.toNat_add]
    simp only [BitVec.toNat_ofNat]
    omega
  have five : MasterConfig.size bus = 5 := by
    unfold MasterConfig.size
    rw [main, if_neg Bool.false_ne_true]
  unfold mapped MasterConfig.store
  dsimp only
  rw [offset, five]
  by_cases inside : 5 * bus.toNat ≤ a ∧ a < 5 * bus.toNat + 5
  · have width : (a + (2 ^ 32 - 5 * bus.toNat)) % 2 ^ 32 = a - 5 * bus.toNat := by omega
    rw [if_pos inside, width, if_pos (by omega)]
  · rw [if_neg inside, if_neg (by omega)]

/-- What the fabric writes and reads of main memory: five bytes a word, lowest first. -/
structure SameLayout (words : Nat) (s : Packed) (i : PackedIn) (bytes : Sync.Bytes) : Prop where
  wrote : ∀ bus word, bus.getLsbD 28 = false → s.current = some (.write bus word) → s.done c i = true →
    ∀ a < 2 ^ 32, (mapped c words (s.next c i).memory.bytes).b a =
      if 5 * bus.toNat ≤ a ∧ a < 5 * bus.toNat + 5 then
        .ofBitVec (word.extractLsb' (8 * (a - 5 * bus.toNat)) 8)
      else (mapped c words (s.expected c bytes)).b a
  gave : ∀ line, line.getLsbD 25 = false → s.current = some (.read line) → s.done c i = true →
    ∀ k < 8, (s.master.rdData (s.axi i)).extractLsb' (40 * k) 40 =
      ((mapped c words (s.expected c bytes)).b (5 * (8 * line.toNat + k) + 4)).toBitVec ++
        (mapped c words (s.expected c bytes)).word (8 * line.toNat + k)

/-- The port keeps the layout in every clock. -/
theorem sameLayout_run (aligned : c.Aligned) (m : Master) (e : Nat → PackedIn) (t : Nat) :
    SameLayout c words (Packed.run c m bytes e t) (e t) bytes := by
  have held := Packed.held_run aligned m bytes e t
  constructor
  · intro bus word main now done a less
    rw [held.wrote aligned now done]
    exact store_mapped c words _ main word less
  · intro line main now done k inside
    have top : (line ++ BitVec.ofNat 3 k).getLsbD 28 = false := by
      rw [BitVec.getLsbD_append, if_neg (by decide)]
      exact main
    have index : (line ++ BitVec.ofNat 3 k).toNat = 8 * line.toNat + k := by
      rw [Sync.toNat_append_add, BitVec.toNat_ofNat, Nat.mod_eq_of_lt inside]
      omega
    rw [held.gave aligned now done inside, load_mapped c words _ top, index]

end Fabric

/-- Both movers of packed words and the fabric have one layout: a run written or read reaches its bytes,
each once, by aligned accesses; a word written is its four bytes, lowest first, and the tag; a word read
is the last written to it. -/
theorem packed_codecs (c : MasterConfig) (aligned : c.Aligned) :
    (qfd.tag = 0o05 ∧ (∀ m k ws, wrRun m k ws = qedMemWrite m k ws) ∧
        ∀ m k n, packedRdRun m k n = qedMemRead m k n) ∧
      (∀ (x : Codec) (m : Memory) (k : Nat) (ws : List Word),
        Codec.Covers k ws.length (x.write m k ws).log ∧
          (∀ i, (inside : i < ws.length) → (List.range' (5 * (k + i)) 5).map (x.write m k ws).out.b =
            bytesOfWord (ws.get ⟨i, inside⟩) ++ [x.tag]) ∧
          ∀ a, a < 5 * k ∨ 5 * (k + ws.length) ≤ a → (x.write m k ws).out.b a = m.b a) ∧
      (∀ (x : Codec) (m : Memory) (k n : Nat),
        Codec.Covers k n (x.read m k n).log ∧ (x.read m k n).out = rdRun m k n) ∧
      (∀ (x : Codec) (m : Memory) (runs : List RunWritten) (k n : Nat),
        (x.read (runs.foldl (fun m r => r.into m) m) k n).out =
          (List.range n).map fun i => (latest runs (k + i)).getD (m.word (k + i))) ∧
      (∀ (m : Memory) (runs : List RunWritten) (a : Nat),
        (∀ r ∈ runs, a < 5 * r.k ∨ 5 * (r.k + r.ws.length) ≤ a) →
          (runs.foldl (fun m r => r.into m) m).b a = m.b a) ∧
      ∀ (words : Nat) (m : Master) (bytes : Sync.Bytes) (e : Nat → PackedIn) (t : Nat),
        SameLayout c words (Packed.run c m bytes e t) (e t) bytes := by
  refine ⟨⟨rfl, fun _ _ _ => rfl, fun _ _ _ => rfl⟩, fun x m k ws => ⟨x.write_log m k ws, fun i inside =>
    x.write_word m k inside, fun a outside => x.write_outside m outside⟩,
    fun x m k n => ⟨x.read_log m k n, x.read_out m k n⟩, fun x m runs k n => ?_,
    fun m runs a outside => untouched runs m outside,
    fun words m bytes e t => sameLayout_run c words bytes aligned m e t⟩
  rw [x.read_out]
  exact List.map_congr_left fun i _ => word_after runs m (k + i)

/-- Two runs that overlap, written by the file device and the Ethernet device and read back. -/
theorem packed_codecs_overlap :
    (packedRdRun (([⟨qfd, 2, [1#32, 2#32, 3#32]⟩, ⟨qed, 3, [7#32]⟩] : List RunWritten).foldl
      (fun m r => r.into m) ⟨16, fun _ => 0⟩) 2 4).out = [1#32, 7#32, 3#32, 0#32] :=
  ((packed_codecs Packed.declared (by decide)).2.2.2.1 qfd ⟨16, fun _ => 0⟩
    [⟨qfd, 2, [1#32, 2#32, 3#32]⟩, ⟨qed, 3, [7#32]⟩] 2 4).trans (by decide)

end MuirFpga.Folders
