import Mathlib.Data.BitVec
import Mathlib.Data.List.Basic

/-!
# Numerals in text

Numerals as the C library prints them and reads them: `%u` and `%o` by `Nat.toDigits`, and back by
`strtoul`, by the directives of `sscanf` and by a loop that refuses past a bound.
-/

namespace MuirFpga.Text

abbrev Chars := List Char

/-- The digit a character is, to 15; 16 for a character that is none. -/
def digitVal (c : Char) : Nat :=
  if c.isDigit then c.toNat - 48
  else if 'a' ≤ c ∧ c ≤ 'f' then c.toNat - 87
  else if 'A' ≤ c ∧ c ≤ 'F' then c.toNat - 55
  else 16

/-- The number digits spell. -/
def value (b : Nat) (digits : Chars) : Nat := digits.foldl (fun n c => b * n + digitVal c) 0

/-- `isspace`. -/
def blank (c : Char) : Bool := c ∈ [' ', '\t', '\n', '\x0b', '\x0c', '\r']

/-- What `strtoul` and the directives of `sscanf` take of a text. -/
structure Numeral where
  minus : Bool
  digits : Chars
  rest : Chars

/-- Blanks, a sign and digits, in so many characters after the blanks. -/
def numeral (b : Nat) (width : Option Nat) (t : Chars) : Numeral :=
  let t := t.dropWhile blank
  let sign := if t.head? = some '-' ∨ t.head? = some '+' then 1 else 0
  let digits := ((width.elim t t.take).drop sign).takeWhile fun c => digitVal c < b
  ⟨t.head? = some '-', digits, t.drop (sign + digits.length)⟩

/-- `strtoul` and `strtoull` at base ten, for a type so wide. -/
def strtoul (w : Nat) (t : Chars) : BitVec w :=
  let number := numeral 10 none t
  let n := value 10 number.digits
  if 2 ^ w ≤ n then BitVec.allOnes w
  else if number.minus then -BitVec.ofNat w n else BitVec.ofNat w n

/-- A directive of `sscanf`: `%u` or `%x`, with its width, or a character. -/
inductive Directive where
  | number (base : Nat) (width : Option Nat)
  | literal (c : Char)

/-- `sscanf`: the numbers it stores, up to the first directive that does not match. -/
def sscanf : List Directive → Chars → List (BitVec 32)
  | [], _ => []
  | .number b width :: ds, t =>
    let number := numeral b width t
    if number.digits = [] then []
    else
      let n := BitVec.ofNat 32 (value b number.digits)
      (if number.minus then -n else n) :: sscanf ds number.rest
  | .literal c :: ds, t =>
    match t with
    | [] => []
    | d :: t => if d = c then sscanf ds t else []

/-- A loop over digits that refuses any other character, and a number past what fits. -/
def bounded (b : Nat) (fits : Nat → Bool) (t : Chars) : Option Nat :=
  t.foldlM (fun n c =>
    if digitVal c < b then if fits (b * n + digitVal c) then some (b * n + digitVal c) else none
    else none) 0

section Printed

variable {b n : Nat}

theorem digitVal_digitChar : ∀ d < 16, digitVal (Nat.digitChar d) = d := by decide

theorem toDigits_digits (two : 1 < b) (most : b ≤ 16) (n : Nat) :
    ∀ c ∈ Nat.toDigits b n, digitVal c < b := by
  induction n using Nat.strongRecOn with
  | ind n ih =>
    intro c inside
    rw [Nat.toDigits_eq_if two] at inside
    split at inside
    · rename_i small
      rw [List.mem_singleton.mp inside, digitVal_digitChar n (by omega)]
      exact small
    · rename_i large
      rcases List.mem_append.mp inside with front | last
      · exact ih (n / b) (Nat.div_lt_self (by omega) two) c front
      · have less : n % b < b := Nat.mod_lt n (by omega)
        rw [List.mem_singleton.mp last, digitVal_digitChar _ (by omega)]
        exact less

theorem value_append (b : Nat) (t : Chars) (c : Char) :
    value b (t ++ [c]) = b * value b t + digitVal c := by
  unfold value
  rw [List.foldl_append]
  rfl

theorem value_toDigits (two : 1 < b) (most : b ≤ 16) (n : Nat) : value b (Nat.toDigits b n) = n := by
  induction n using Nat.strongRecOn with
  | ind n ih =>
    rw [Nat.toDigits_eq_if two]
    split
    · rename_i small
      show b * 0 + digitVal (Nat.digitChar n) = n
      rw [digitVal_digitChar n (by omega), Nat.mul_zero, Nat.zero_add]
    · have less : n % b < b := Nat.mod_lt n (by omega)
      rw [value_append, ih (n / b) (Nat.div_lt_self (by omega) two), digitVal_digitChar _ (by omega)]
      exact Nat.div_add_mod n b

theorem digit_apart {c : Char} (digit : digitVal c < 16) : blank c = false ∧ c ≠ '-' ∧ c ≠ '+' := by
  refine ⟨?_, ?_, ?_⟩
  · by_contra space
    have inside : c ∈ [' ', '\t', '\n', '\x0b', '\x0c', '\r'] :=
      of_decide_eq_true ((Bool.not_eq_false _).mp space)
    simp only [List.mem_cons, List.not_mem_nil, or_false] at inside
    rcases inside with rfl | rfl | rfl | rfl | rfl | rfl <;> exact absurd digit (by decide)
  · rintro rfl
    exact absurd digit (by decide)
  · rintro rfl
    exact absurd digit (by decide)

/-- What may follow a numeral: no digit of the base. -/
def Ends (b : Nat) (rest : Chars) : Prop := ∀ c ∈ rest.head?, ¬ digitVal c < b

theorem takeWhile_digits {digits rest : Chars} (all : ∀ c ∈ digits, digitVal c < b) (ends : Ends b rest) :
    (digits ++ rest).takeWhile (fun c => digitVal c < b) = digits := by
  rw [List.takeWhile_append_of_pos fun c inside => decide_eq_true (all c inside)]
  cases rest with
  | nil => exact List.append_nil _
  | cons c rest =>
    rw [List.takeWhile_cons_of_neg (by simpa using ends c rfl), List.append_nil]

theorem numeral_digits {digits rest : Chars} (most : b ≤ 16) (some_ : digits ≠ [])
    (all : ∀ c ∈ digits, digitVal c < b) (ends : Ends b rest) :
    numeral b none (digits ++ rest) = ⟨false, digits, rest⟩ := by
  obtain ⟨c, more, rfl⟩ := List.exists_cons_of_ne_nil some_
  obtain ⟨space, minus, plus⟩ := digit_apart (Nat.lt_of_lt_of_le (all c List.mem_cons_self) most)
  have taken := takeWhile_digits all ends
  unfold numeral
  rw [List.cons_append, List.dropWhile_cons_of_neg (by simp [space])]
  simp only [List.head?_cons, Option.some.injEq, minus, plus, or_self, if_false, decide_false,
    Option.elim_none, List.drop_zero]
  rw [← List.cons_append, taken, Nat.zero_add, List.drop_left]

theorem numeral_printed (two : 1 < b) (most : b ≤ 16) (n : Nat) {rest : Chars} (ends : Ends b rest) :
    numeral b none (Nat.toDigits b n ++ rest) = ⟨false, Nat.toDigits b n, rest⟩ :=
  numeral_digits most Nat.toDigits_ne_nil (toDigits_digits two most n) ends

theorem strtoul_printed {w : Nat} (x : BitVec w) : strtoul w (Nat.toDigits 10 x.toNat) = x := by
  have ends : Ends 10 [] := fun _ none => nomatch none
  have number := numeral_printed (by decide) (by decide) x.toNat ends
  rw [List.append_nil] at number
  unfold strtoul
  rw [number]
  dsimp only
  rw [value_toDigits (by decide) (by decide), if_neg (Nat.not_le.mpr x.isLt), if_neg (by decide),
    BitVec.ofNat_toNat, BitVec.setWidth_eq]

theorem sscanf_printed (x : BitVec 32) (ds : List Directive) {rest : Chars} (ends : Ends 10 rest) :
    sscanf (.number 10 none :: ds) (Nat.toDigits 10 x.toNat ++ rest) = x :: sscanf ds rest := by
  rw [sscanf, numeral_printed (by decide) (by decide) _ ends]
  dsimp only
  rw [if_neg Nat.toDigits_ne_nil, if_neg (by decide), value_toDigits (by decide) (by decide),
    BitVec.ofNat_toNat, BitVec.setWidth_eq]

theorem sscanf_literal (c : Char) (ds : List Directive) (t : Chars) :
    sscanf (.literal c :: ds) (c :: t) = sscanf ds t := if_pos rfl

theorem bounded_printed (two : 1 < b) (most : b ≤ 16) {fits : Nat → Bool} (n : Nat)
    (under : ∀ m ≤ n, fits m = true) : bounded b fits (Nat.toDigits b n) = some n := by
  induction n using Nat.strongRecOn with
  | ind n ih =>
    unfold bounded at ih ⊢
    rw [Nat.toDigits_eq_if two]
    split
    · rename_i small
      simp [digitVal_digitChar n (by omega), small, under n (Nat.le_refl n)]
    · have less : n % b < b := Nat.mod_lt n (by omega)
      have down : n / b < n := Nat.div_lt_self (by omega) two
      rw [List.foldlM_append, ih (n / b) down fun m below => under m (by omega)]
      simp [digitVal_digitChar (n % b) (by omega), less, Nat.div_add_mod, under n (Nat.le_refl n)]

end Printed

end MuirFpga.Text
