import MuirFpga.Checkpoint.Sidecar
import Mathlib.Tactic.IntervalCases

/-!
# The values of a sidecar

Each value `bind_write` prints, as `bind_read` reads it: numbers, amounts, addresses, and the fields of a
pack's line.
-/

namespace MuirFpga.Checkpoint

open MuirFpga.Text

section Keys

variable {key other : String} {val rest : Chars}

theorem prefix_mark {mark : Char} {short long after : Chars} (one : mark ∉ short) (two : mark ∉ long) :
    short ++ [mark] <+: long ++ mark :: after ↔ short = long := by
  constructor
  · intro ⟨more, same⟩
    have front := congrArg (List.takeWhile fun c => decide (c ≠ mark)) same
    have keeps : ∀ (t : Chars) (more : Chars), mark ∉ t →
        (t ++ mark :: more).takeWhile (fun c => decide (c ≠ mark)) = t := by
      intro t more apart
      have all : ∀ c ∈ t, decide (c ≠ mark) = true :=
        fun c inside => decide_eq_true fun is => apart (is ▸ inside)
      rw [List.takeWhile_append_of_pos all,
        List.takeWhile_cons_of_neg (by simp), List.append_nil]
    rwa [List.append_assoc, List.singleton_append, keeps _ _ one, keeps _ _ two] at front
  · rintro rfl
    exact ⟨after, by simp⟩

theorem field_entry (one : ':' ∉ key.toList) (two : ':' ∉ other.toList) :
    field (entry key val) other = if other = key then some val else none := by
  unfold field entry
  have marked : other.toList ++ [':', ' '] <+: key.toList ++ ':' :: ' ' :: val ↔ other = key := by
    rw [← String.toList_inj]
    constructor
    · intro whole
      have front : other.toList ++ [':'] <+: other.toList ++ [':', ' '] := ⟨[' '], by simp⟩
      exact (prefix_mark two one).mp (front.trans whole)
    · intro same
      rw [same]
      exact ⟨val, by simp⟩
  by_cases same : other = key
  · rw [if_pos (marked.mpr same), if_pos same, same]
    have gone : key.toList ++ ':' :: ' ' :: val = (key.toList ++ [':', ' ']) ++ val := by simp
    rw [gone, List.drop_left' (by simp)]
  · rw [if_neg (mt marked.mp same), if_neg same]

theorem branch_taken {β : Type} (branches : List (String × (Chars → β)))
    (plain : ∀ branch ∈ branches, ':' ∉ branch.1.toList) (once : (branches.map Prod.fst).Nodup)
    {read : Chars → β} (one : (key, read) ∈ branches) :
    (branches.findSome? fun branch => (field (entry key val) branch.1).map branch.2) = some (read val) := by
  have mine := plain _ one
  induction branches with
  | nil => exact nomatch one
  | cons branch branches ih =>
    obtain ⟨apart, once⟩ := List.nodup_cons.mp once
    rw [List.findSome?_cons, field_entry mine (plain branch List.mem_cons_self)]
    rcases List.mem_cons.mp one with same | later
    · rw [← same, if_pos rfl]
      rfl
    · have other : branch.1 ≠ key := fun same => apart (same ▸ List.mem_map_of_mem (f := Prod.fst) later)
      rw [if_neg other]
      exact ih (fun b inside => plain b (List.mem_cons_of_mem _ inside)) once later

theorem branch_none {β : Type} (branches : List (String × (Chars → β))) (mine : ':' ∉ key.toList)
    (plain : ∀ branch ∈ branches, ':' ∉ branch.1.toList) (absent : key ∉ branches.map Prod.fst) :
    (branches.findSome? fun branch => (field (entry key val) branch.1).map branch.2) = none := by
  refine List.findSome?_eq_none_iff.mpr fun branch inside => ?_
  have other : branch.1 ≠ key := fun same => absent (same ▸ List.mem_map_of_mem (f := Prod.fst) inside)
  rw [field_entry mine (plain branch inside), if_neg other]
  rfl

end Keys

section Fields

variable {name : Chars} {size : Nat}

theorem subfield_cons (name : Chars) (size : Nat) (p : Chars) (some_ : p ≠ []) :
    subfield name size p =
      if name ++ ['='] <+: p.takeWhile (· ≠ ' ') then
        let v := (if name = "file".toList then p else p.takeWhile (· ≠ ' ')).drop (name.length + 1)
        if size ≤ v.length then none else some v
      else subfield name size ((p.dropWhile (· ≠ ' ')).drop 1) := by
  obtain ⟨c, more, rfl⟩ := List.exists_cons_of_ne_nil some_
  rw [subfield]

/-- Two names of fields that are not one, with no mark of a field's in them. -/
abbrev Apart (name key : String) : Prop :=
  '=' ∉ name.toList ∧ '=' ∉ key.toList ∧ ' ' ∉ key.toList ∧ name.toList ≠ key.toList

theorem assigned_word {key : String} {val : Chars} (word : ' ' ∉ key.toList) (whole : ' ' ∉ val)
    (rest : Chars) :
    (assigned key val ++ rest).takeWhile (· ≠ ' ') = key.toList ++ '=' :: val ∧
      ((assigned key val ++ rest).dropWhile (· ≠ ' ')).drop 1 = rest := by
  have parts : assigned key val ++ rest = (key.toList ++ '=' :: val) ++ ' ' :: rest := by simp [assigned]
  have apart : ∀ c ∈ key.toList ++ '=' :: val, decide (c ≠ ' ') = true := by
    intro c inside
    refine decide_eq_true fun same => ?_
    rw [same] at inside
    rcases List.mem_append.mp inside with front | back
    · exact word front
    · exact whole ((List.mem_cons.mp back).resolve_left (by decide))
  constructor
  · rw [parts, List.takeWhile_append_of_pos apart, List.takeWhile_cons_of_neg (by simp), List.append_nil]
  · rw [parts, List.dropWhile_append_of_pos apart, List.dropWhile_cons_of_neg (by simp), List.drop_one,
      List.tail_cons]

theorem assigned_some (key : String) (val rest : Chars) : assigned key val ++ rest ≠ [] := by
  simp [assigned]

theorem subfield_skip {name key : String} {val : Chars} (apart : Apart name key) (whole : ' ' ∉ val)
    (rest : Chars) :
    subfield name.toList size (assigned key val ++ rest) = subfield name.toList size rest := by
  obtain ⟨mine, one, word, other⟩ := apart
  obtain ⟨taken, dropped⟩ := assigned_word word whole rest
  rw [subfield_cons _ _ _ (assigned_some key val rest), taken, dropped,
    if_neg (mt (prefix_mark mine one).mp other)]

theorem subfield_found {key : String} {val : Chars}
    (plain : key.toList ≠ "file".toList ∧ '=' ∉ key.toList ∧ ' ' ∉ key.toList) (whole : ' ' ∉ val)
    (fits : val.length < size) (rest : Chars) :
    subfield key.toList size (assigned key val ++ rest) = some val := by
  obtain ⟨file, mine, word⟩ := plain
  obtain ⟨taken, _⟩ := assigned_word word whole rest
  have parts : key.toList ++ '=' :: val = (key.toList ++ ['=']) ++ val := by simp
  rw [subfield_cons _ _ _ (assigned_some key val rest), taken, if_pos ((prefix_mark mine mine).mpr rfl),
    if_neg file, parts, List.drop_left' (by simp)]
  exact if_neg (Nat.not_le.mpr fits)

theorem subfield_file (path : Chars) (size : Nat) :
    subfield "file".toList size ("file=".toList ++ path) =
      if size ≤ path.length then none else some path := by
  have front : "file".toList ++ ['='] <+: ("file=".toList ++ path).takeWhile (· ≠ ' ') :=
    ⟨path.takeWhile (· ≠ ' '), rfl⟩
  rw [subfield_cons _ _ _ (by simp), if_pos front, if_pos rfl]
  rfl

theorem subfield_absent (name : Chars) (size : Nat) (p : Chars) (first : ¬ name ++ ['='] <+: p)
    (later : ¬ ' ' :: (name ++ ['=']) <:+: p) : subfield name size p = none := by
  induction p using subfield.induct name size with
  | case1 => rw [subfield]
  | case2 c more p word front v long =>
    exact absurd (front.trans (List.takeWhile_prefix _)) first
  | case3 c more p word front v short =>
    exact absurd (front.trans (List.takeWhile_prefix _)) first
  | case4 c more p word front ih =>
    rw [subfield_cons _ _ _ (List.cons_ne_nil c more), if_neg front]
    rcases left : (c :: more).dropWhile (· ≠ ' ') with _ | ⟨space, rest⟩
    · rw [List.drop_nil, subfield]
    · have blank : space = ' ' := by
        have head := List.head?_dropWhile_not (fun c => decide (c ≠ ' ')) (c :: more)
        rw [left] at head
        simpa using head
      have inside : ' ' :: rest <:+ c :: more := by
        rw [← blank, ← left]
        exact List.dropWhile_suffix _
      have rest' : rest <:+ c :: more := (List.suffix_cons ' ' rest).trans inside
      rw [List.drop_one, List.tail_cons]
      have again := ih
      rw [show List.drop 1 (List.dropWhile (fun x => decide (x ≠ ' ')) p) = rest by
        show List.drop 1 (List.dropWhile (fun x => decide (x ≠ ' ')) (c :: more)) = rest
        rw [left]
        rfl] at again
      refine again (fun start => later ?_) fun found => later (found.trans rest'.isInfix)
      exact ((List.prefix_cons_inj ' ').mpr start).isInfix.trans inside.isInfix

theorem subfield_stray {name : Chars} {path : Chars} (file : name ≠ "file".toList) (mine : '=' ∉ name)
    (none_ : ¬ ' ' :: (name ++ ['=']) <:+: path) (size : Nat) :
    subfield name size ("file=".toList ++ path) = none := by
  refine subfield_absent name size _ (fun front => file ?_) fun inside => none_ ?_
  · have marked : name ++ ['='] <+: "file".toList ++ '=' :: path := front
    exact (prefix_mark mine (by decide)).mp marked
  · simpa [List.infix_cons_iff, List.cons_prefix_cons] using inside

end Fields

section Amounts

theorem unitStripped_append {digits : Chars} {unit other : Chars} (some_ : digits ≠ []) (two : unit.length = 2) :
    unitStripped (digits ++ unit) other = if unit = other then some digits else none := by
  have long : 0 < digits.length := List.length_pos_iff.mpr some_
  have whole : (digits ++ unit).length - 2 = digits.length := by
    rw [List.length_append]
    omega
  have three : ¬ (digits ++ unit).length < 3 := by
    rw [List.length_append]
    omega
  unfold unitStripped
  rw [whole, List.drop_left, List.take_left]
  by_cases same : unit = other
  · rw [if_pos same, if_neg (not_or.mpr ⟨three, not_not.mpr same⟩)]
  · rw [if_neg same, if_pos (Or.inr same)]

/-- An amount that is whole megawords, or kilowords that the reader has room for. -/
def Amount (units : BitVec 32) : Prop := units.toNat % mwUnits = 0 ∨ units.toNat < 2 ^ 26

theorem amountUnits_printed {units : BitVec 32} (amount : Amount units) :
    amountUnits (roMainAmount units) = some units := by
  have less := units.isLt
  unfold roMainAmount
  by_cases whole : units.toNat % mwUnits = 0
  · rw [if_pos whole]
    have read : roParseMegawords (Nat.toDigits 10 (units.toNat / mwUnits) ++ "MW".toList) = some units := by
      unfold roParseMegawords
      rw [unitStripped_append Nat.toDigits_ne_nil rfl, if_pos rfl]
      have under : ∀ m ≤ units.toNat / mwUnits, decide (m * mwUnits ≤ 0xFFFFFFFF) = true := by
        intro m below
        simp only [mwUnits] at below ⊢
        refine decide_eq_true ?_
        omega
      have read := bounded_printed (b := 10) (by decide) (by decide) _ under
      simp only [Option.bind_eq_bind, Option.bind_some, read]
      rw [Nat.div_mul_cancel (Nat.dvd_of_mod_eq_zero whole), BitVec.ofNat_toNat, BitVec.setWidth_eq]
    unfold amountUnits
    rw [read]
  · have small := amount.resolve_left whole
    rw [if_neg whole]
    have first : roParseMegawords (Nat.toDigits 10 (units.toNat * boardKilowords) ++ "KW".toList) = none := by
      unfold roParseMegawords
      rw [unitStripped_append Nat.toDigits_ne_nil rfl, if_neg (by decide)]
      rfl
    have under : ∀ m ≤ units.toNat * boardKilowords, decide (m ≤ 0xFFFFFFFF) = true := by
      intro m below
      simp only [boardKilowords] at below
      refine decide_eq_true ?_
      omega
    unfold amountUnits
    rw [first, unitStripped_append Nat.toDigits_ne_nil rfl, if_pos rfl]
    have read := bounded_printed (b := 10) (by decide) (by decide) _ under
    simp only [Option.bind_eq_bind, Option.bind_some, read]
    have some_ : units.toNat ≠ 0 := fun zero => whole (by rw [zero]; rfl)
    have apart : ¬ (units.toNat * boardKilowords = 0 ∨ units.toNat * boardKilowords % boardKilowords ≠ 0) := by
      simp only [boardKilowords]
      omega
    rw [if_neg apart, Nat.mul_div_cancel _ (by decide), BitVec.ofNat_toNat, BitVec.setWidth_eq]

/-- An address of both halves. -/
def ChaosAddress (a : BitVec 32) : Prop :=
  a.toNat ≤ 0o177777 ∧ a.toNat / 256 ≠ 0 ∧ a.toNat % 256 ≠ 0

theorem chkChaosAddress_printed {a : BitVec 32} (address : ChaosAddress a) :
    chkChaosAddress (Nat.toDigits 8 a.toNat) = some a := by
  obtain ⟨under, high, low⟩ := address
  have digits := toDigits_digits (b := 8) (by decide) (by decide) a.toNat
  have colon : ':' ∉ Nat.toDigits 8 a.toNat := fun inside => absurd (digits _ inside) (by decide)
  have whole : (Nat.toDigits 8 a.toNat).takeWhile (· ≠ ':') = Nat.toDigits 8 a.toNat :=
    List.takeWhile_eq_self_iff.mpr fun c inside => decide_eq_true fun same => colon (same ▸ inside)
  have fits : ∀ m ≤ a.toNat, decide (m ≤ 0o177777) = true := fun m below =>
    decide_eq_true (Nat.le_trans below under)
  have read := bounded_printed (b := 8) (by decide) (by decide) _ fits
  unfold chkChaosAddress
  rw [whole]
  simp only [read, Nat.toDigits_ne_nil, colon, if_false,
    Option.bind_eq_bind, Option.bind_some]
  rw [if_neg (not_or.mpr ⟨high, low⟩), BitVec.ofNat_toNat, BitVec.setWidth_eq]

end Amounts

section Addresses

theorem hexByte_digits (x : BitVec 8) : ∀ c ∈ hexByte x, digitVal c < 16 := by
  have small := x.isLt
  simp only [hexByte, List.forall_mem_cons, List.not_mem_nil, false_implies, implies_true, and_true]
  rw [digitVal_digitChar _ (by omega), digitVal_digitChar _ (by omega)]
  omega

theorem hexByte_value (x : BitVec 8) : value 16 (hexByte x) = x.toNat := by
  have small := x.isLt
  have high := digitVal_digitChar (x.toNat / 16) (by omega)
  have low := digitVal_digitChar (x.toNat % 16) (by omega)
  simp only [value, hexByte, List.foldl_cons, List.foldl_nil, high, low]
  omega

theorem sscanf_hexByte (x : BitVec 8) (ds : List Directive) (rest : Chars) :
    sscanf (.number 16 (some 2) :: ds) (hexByte x ++ rest) = x.setWidth 32 :: sscanf ds rest := by
  have digits := hexByte_digits x
  have parts : hexByte x = [Nat.digitChar (x.toNat / 16), Nat.digitChar (x.toNat % 16)] := rfl
  obtain ⟨space, minus, plus⟩ := digit_apart (digits (Nat.digitChar (x.toNat / 16)) (by simp [parts]))
  have number : numeral 16 (some 2) (hexByte x ++ rest) = ⟨false, hexByte x, rest⟩ := by
    have taken : (hexByte x).takeWhile (fun c => digitVal c < 16) = hexByte x :=
      List.takeWhile_eq_self_iff.mpr fun c inside => decide_eq_true (digits c inside)
    unfold numeral
    rw [parts, List.cons_append, List.dropWhile_cons_of_neg (by simp [space])]
    simp only [List.head?_cons, Option.some.injEq, minus, plus, or_self, if_false, decide_false,
      Option.elim_some, List.drop_zero]
    have two : (hexByte x ++ rest).take 2 = hexByte x := List.take_left' rfl
    rw [← List.cons_append, ← parts, two, taken, Nat.zero_add, List.drop_left]
  rw [sscanf, number]
  dsimp only
  rw [if_neg (by simp [parts]), if_neg (by decide), hexByte_value, BitVec.ofNat_toNat]

/-- The mask of a prefix. -/
def netmask (len : Nat) : BitVec 32 := if len = 32 then 0xFFFFFFFF#32 else ~~~(0xFFFFFFFF#32 >>> len)

theorem prefixOf_netmask : ∀ len ≤ 32, prefixOf (netmask len) = len := by decide

theorem ipv4_bytes (a : BitVec 32) :
    ipv4 (a >>> 24) ((a >>> 16) &&& 0xFF#32) ((a >>> 8) &&& 0xFF#32) (a &&& 0xFF#32) = a := by
  apply BitVec.eq_of_getLsbD_eq
  intro i below
  unfold ipv4
  interval_cases i <;> simp

theorem ends_char {c : Char} {rest : Chars} (apart : ¬ digitVal c < 10) : Ends 10 (c :: rest) := by
  intro d head
  rw [← Option.some.inj head]
  exact apart

theorem ends_nil : Ends 10 [] := fun _ none => nomatch none

theorem sscanf_ipv4 (a : BitVec 32) (ds : List Directive) {rest : Chars} (ends : Ends 10 rest) :
    sscanf ([.number 10 none, .literal '.', .number 10 none, .literal '.', .number 10 none, .literal '.',
        .number 10 none] ++ ds) (bindIpv4Text a ++ rest) =
      [a >>> 24, (a >>> 16) &&& 0xFF#32, (a >>> 8) &&& 0xFF#32, a &&& 0xFF#32] ++ sscanf ds rest := by
  have dot : ∀ rest, Ends 10 ('.' :: rest) := fun rest => ends_char (by decide)
  unfold bindIpv4Text decimal
  simp only [List.append_assoc, List.cons_append, List.nil_append]
  rw [sscanf_printed _ _ (dot _), sscanf_literal, sscanf_printed _ _ (dot _), sscanf_literal,
    sscanf_printed _ _ (dot _), sscanf_literal, sscanf_printed _ _ ends]

end Addresses

end MuirFpga.Checkpoint
