import MuirFpga.Files.Numeral
import Mathlib.Data.List.DropRight

/-!
# Lines of text

A text as `fgets` gives it, a line at a time into a buffer, and C strings in buffers.
-/

namespace MuirFpga.Text

/-- A string in a buffer of one character more, which ends it. -/
def Buffer (n : Nat) : Type := { t : Chars // t.length ≤ n ∧ '\x00' ∉ t }
deriving DecidableEq

namespace Buffer

variable {n : Nat}

def empty : Buffer n := ⟨[], Nat.zero_le n, List.not_mem_nil⟩

end Buffer

/-- The string a character array holds. -/
def cString (t : Chars) : Chars := t.takeWhile (· ≠ '\x00')

theorem cString_ended (t : Chars) : '\x00' ∉ cString t := by
  intro inside
  exact absurd (List.mem_takeWhile_imp inside) (by decide)

/-- `snprintf` of a string into a buffer. -/
def snprintf (n : Nat) (t : Chars) : Buffer n :=
  ⟨(cString t).take n, List.length_take_le n _, fun inside => cString_ended t (List.mem_of_mem_take inside)⟩

/-- `fgets`, again and again, of at most so many characters, with what it has of a line. -/
def fgets (most : Nat) (line : Chars) : Chars → List Chars
  | [] => if line = [] then [] else [line]
  | c :: t =>
    let line := line ++ [c]
    if c = '\n' ∨ line.length = most then line :: fgets most [] t else fgets most line t

def lineEnd (c : Char) : Bool := c = '\n' || c = '\r'

/-- A line without its end. -/
def chomp (t : Chars) : Chars := t.rdropWhile lineEnd

/-- Lines written one after another. -/
def written (lines : List Chars) : Chars := lines.flatMap (· ++ ['\n'])

/-- A line that `fgets` gives back whole. -/
structure Clean (most : Nat) (line : Chars) : Prop where
  fits : line.length < most
  inside : ∀ c ∈ line, c ≠ '\n' ∧ c ≠ '\x00'

/-- A buffer's string without a line's end. -/
def Buffer.chomped {n : Nat} (b : Buffer n) : Buffer n :=
  ⟨chomp b.val, (List.rdropWhile_prefix _ _).length_le.trans b.2.1, fun inside =>
    b.2.2 ((List.rdropWhile_prefix _ _).subset inside)⟩

section Reading

variable {most : Nat}

theorem snprintf_self {n : Nat} (b : Buffer n) : snprintf n b.val = b := by
  have whole : cString b.val = b.val :=
    List.takeWhile_eq_self_iff.mpr fun c inside => decide_eq_true fun zero => b.2.2 (zero ▸ inside)
  refine Subtype.ext ?_
  show (cString b.val).take n = b.val
  rw [whole, List.take_of_length_le b.2.1]

theorem fgets_line (before line : Chars) (rest : Chars) (fits : (before ++ line).length < most)
    (one : '\n' ∉ line) :
    fgets most before (line ++ '\n' :: rest) = (before ++ line ++ ['\n']) :: fgets most [] rest := by
  induction line generalizing before with
  | nil =>
    rw [List.nil_append, fgets, if_pos (Or.inl rfl), List.append_nil]
  | cons c line ih =>
    have other : c ≠ '\n' := fun same => one (same ▸ List.mem_cons_self)
    have room : (before ++ [c]).length ≠ most := by
      simp only [List.length_append, List.length_cons, List.length_nil] at fits ⊢
      omega
    have step : fgets most before (c :: (line ++ '\n' :: rest)) =
        fgets most (before ++ [c]) (line ++ '\n' :: rest) := by
      rw [fgets, if_neg (not_or.mpr ⟨other, room⟩)]
    rw [List.cons_append, step, ih (before ++ [c]) (by simpa using fits)
      fun inside => one (List.mem_cons_of_mem c inside)]
    simp

theorem fgets_written (lines : List Chars) (clean : ∀ line ∈ lines, Clean most line) :
    fgets most [] (written lines) = lines.map (· ++ ['\n']) := by
  induction lines with
  | nil => rfl
  | cons line lines ih =>
    have first := clean line List.mem_cons_self
    have split : written (line :: lines) = line ++ '\n' :: written lines := by simp [written]
    rw [split, fgets_line [] line _ first.fits fun inside => (first.inside _ inside).1 rfl,
      ih fun other inside => clean other (List.mem_cons_of_mem line inside)]
    rfl

theorem chomp_mark (front : Chars) {c : Char} (mark : c ≠ '\n' ∧ c ≠ '\r') (val : Chars) :
    chomp (front ++ c :: val) = front ++ c :: chomp val := by
  unfold chomp
  induction val using List.reverseRecOn with
  | nil =>
    rw [List.rdropWhile_nil, List.rdropWhile_concat_neg _ _ _ (by simp [lineEnd, mark])]
  | append_singleton val d ih =>
    have parts : front ++ c :: (val ++ [d]) = (front ++ c :: val) ++ [d] := by simp
    by_cases ending : lineEnd d = true
    · rw [parts, List.rdropWhile_concat_pos _ _ _ ending, ih, List.rdropWhile_concat_pos _ _ _ ending]
    · rw [parts, List.rdropWhile_concat_neg _ _ _ ending, List.rdropWhile_concat_neg _ _ _ ending, parts]

theorem chomp_self {t : Chars} (last : ∀ c ∈ t.getLast?, c ≠ '\n' ∧ c ≠ '\r') : chomp t = t := by
  rcases List.eq_nil_or_concat t with rfl | ⟨front, c, rfl⟩
  · rfl
  · rw [List.concat_eq_append] at last ⊢
    exact chomp_mark front (last c (by simp)) []

theorem chomp_line {line : Chars} (clean : Clean most line) :
    chomp (cString (line ++ ['\n'])) = chomp line := by
  have whole : cString (line ++ ['\n']) = line ++ ['\n'] := by
    refine List.takeWhile_eq_self_iff.mpr fun c inside => decide_eq_true ?_
    rcases List.mem_append.mp inside with body | last
    · exact (clean.inside c body).2
    · rw [List.mem_singleton.mp last]
      decide
  rw [whole, chomp, List.rdropWhile_concat_pos _ _ _ (by decide)]
  rfl

end Reading

end MuirFpga.Text
