import MuirFpga.Folders.Names

/-!
# The grammar of names

A name is `/`, `//` or a slash and the components after it, one slash between two and at most one
after the last. `parse_name` takes exactly the names, gives their components, and never puts more of
them in its array than that has room for, whether it takes the name or not.
-/

namespace MuirFpga.Folders

open MuirFpga.Posix

/-- A component of a name. -/
structure Named (c : Bytes) : Prop where
  some_ : 1 ≤ c.length
  few : c.length ≤ 255
  bytes : ∀ u ∈ c, 0o40 ≤ u ∧ u ≤ 0o176 ∧ u ≠ slash
  notSelf : c ≠ [dot]
  notUp : c ≠ [dot, dot]

/-- A name of some components. -/
structure Spells (name : Bytes) (cs : List Bytes) : Prop where
  few : name.length ≤ 1024
  named : ∀ c ∈ cs, Named c
  spelled : cs = [] ∧ (name = [slash] ∨ name = [slash, slash]) ∨
    cs ≠ [] ∧ (name = slash :: [slash].intercalate cs ∨
      name = slash :: [slash].intercalate cs ++ [slash])

/-- The test is the grammar. -/
theorem validComponent_iff {c : Bytes} : validComponent c = true ↔ Named c := by
  unfold validComponent maxComponent
  rw [decide_eq_true_eq, List.all_eq_true]
  unfold validByte
  simp only [decide_eq_true_eq]
  constructor
  · rintro ⟨some_, few, bytes, notSelf, notUp⟩
    exact ⟨some_, few, bytes, notSelf, notUp⟩
  · rintro ⟨some_, few, bytes, notSelf, notUp⟩
    exact ⟨some_, few, bytes, notSelf, notUp⟩

theorem Named.slashless {c : Bytes} (named : Named c) : slash ∉ c :=
  fun among => (named.bytes slash among).2.2 rfl

/-- The components `parse_name` puts in its array before it comes to the end or to one it refuses. -/
def storedBody (begun : Bytes) : Bytes → List Bytes
  | [] => if validComponent begun then [begun] else []
  | u :: rest =>
    if u = slash then
      if validComponent begun then begun :: storedBody [] rest else []
    else storedBody (begun ++ [u]) rest

/-- The name without its first slash and without the one at its end. -/
def bodyOf (name : Bytes) : Bytes :=
  if name.tail.getLast? = some slash then name.tail.dropLast else name.tail

def stored (name : Bytes) : List Bytes :=
  if name.length = 0 ∨ maxName < name.length ∨ name.head? ≠ some slash then []
  else if bodyOf name = [] then [] else storedBody [] (bodyOf name)

/-- The components the array has room for. -/
def maxComps : Nat := maxName / 2 + 1

theorem storedBody_length (begun rest : Bytes) :
    2 * (storedBody begun rest).length ≤ begun.length + rest.length + 1 := by
  induction rest generalizing begun with
  | nil =>
    unfold storedBody
    by_cases valid : validComponent begun = true
    · have some_ := (validComponent_iff.mp valid).some_
      rw [if_pos valid, List.length_singleton, List.length_nil]
      omega
    · rw [if_neg valid, List.length_nil]
      omega
  | cons u rest ih =>
    unfold storedBody
    by_cases here : u = slash
    · rw [if_pos here]
      by_cases valid : validComponent begun = true
      · have some_ := (validComponent_iff.mp valid).some_
        have next := ih []
        rw [if_pos valid, List.length_cons, List.length_cons]
        rw [List.length_nil] at next
        omega
      · rw [if_neg valid, List.length_nil]
        omega
    · rw [if_neg here]
      have next := ih (begun ++ [u])
      rw [List.length_append, List.length_singleton] at next
      rw [List.length_cons]
      omega

theorem parseBody_eq (begun rest : Bytes) (plain : slash ∉ begun) :
    (parseBody begun rest).map (List.map Component.text) =
      if ((begun ++ rest).splitOn slash).all validComponent then
        .ok ((begun ++ rest).splitOn slash)
      else .error .ips := by
  induction rest generalizing begun with
  | nil =>
    rw [List.append_nil, List.splitOn_eq_singleton plain, List.all_cons, List.all_nil, Bool.and_true]
    unfold parseBody
    by_cases valid : validComponent begun = true
    · rw [dif_pos valid, if_pos valid]
      rfl
    · rw [dif_neg valid, if_neg valid]
      rfl
  | cons u rest ih =>
    by_cases here : u = slash
    · subst here
      have next := ih [] List.not_mem_nil
      rw [List.nil_append] at next
      rw [List.splitOn_append_cons_self_of_not_mem plain, List.all_cons]
      unfold parseBody
      rw [if_pos rfl]
      by_cases valid : validComponent begun = true
      · rw [dif_pos valid, valid, Bool.true_and]
        cases parsed : parseBody [] rest with
        | error s =>
          rw [parsed] at next
          by_cases all_ : (rest.splitOn slash).all validComponent = true
          · rw [if_pos all_] at next
            cases next
          · rw [if_neg all_] at next ⊢
            cases next
            rfl
        | ok cs =>
          rw [parsed] at next
          by_cases all_ : (rest.splitOn slash).all validComponent = true
          · rw [if_pos all_] at next ⊢
            rw [← Except.ok.inj next]
            rfl
          · rw [if_neg all_] at next
            cases next
      · rw [dif_neg valid, (Bool.not_eq_true _).mp valid, Bool.false_and, if_neg Bool.false_ne_true]
        rfl
    · have next := ih (begun ++ [u]) (by simp [plain, Ne.symm here])
      rw [List.append_assoc] at next
      unfold parseBody
      rw [if_neg here]
      exact next

/-- What parses is what is stored. -/
theorem parseBody_stored {begun rest : Bytes} {cs : List Component} (parsed : parseBody begun rest = .ok cs) :
    cs.map Component.text = storedBody begun rest := by
  induction rest generalizing begun cs with
  | nil =>
    unfold parseBody at parsed
    unfold storedBody
    by_cases valid : validComponent begun = true
    · rw [dif_pos valid] at parsed
      rw [if_pos valid, ← Except.ok.inj parsed]
      rfl
    · rw [dif_neg valid] at parsed
      cases parsed
  | cons u rest ih =>
    unfold parseBody at parsed
    unfold storedBody
    by_cases here : u = slash
    · rw [if_pos here] at parsed ⊢
      by_cases valid : validComponent begun = true
      · rw [dif_pos valid] at parsed
        rw [if_pos valid]
        cases next : parseBody [] rest with
        | error s =>
          rw [next] at parsed
          cases parsed
        | ok after =>
          rw [next] at parsed
          rw [← Except.ok.inj parsed, ← ih next]
          rfl
      · rw [dif_neg valid] at parsed
        cases parsed
    · rw [if_neg here] at parsed ⊢
      exact ih parsed

theorem last_of_named {cs : List Bytes} (some_ : cs ≠ []) (named : ∀ c ∈ cs, Named c) :
    ∃ u, ([slash].intercalate cs).getLast? = some u ∧ u ≠ slash := by
  induction cs with
  | nil => exact absurd rfl some_
  | cons c cs ih =>
    cases cs with
    | nil =>
      have own := named c List.mem_cons_self
      cases last : c.getLast? with
      | none =>
        have full := own.some_
        rw [List.getLast?_eq_none_iff.mp last] at full
        exact absurd full (by decide)
      | some u =>
        refine ⟨u, ?_, (own.bytes u (List.mem_of_getLast? last)).2.2⟩
        simpa using last
    | cons d cs =>
      obtain ⟨u, last, plain⟩ := ih (by simp) fun x among => named x (List.mem_cons_of_mem c among)
      refine ⟨u, ?_, plain⟩
      rw [List.intercalate_cons_cons, List.getLast?_append, last]
      rfl

theorem Spells.body {name : Bytes} {cs : List Bytes} (spells : Spells name cs) :
    bodyOf name = [slash].intercalate cs := by
  cases spells.spelled with
  | inl root =>
    obtain ⟨rfl, rfl | rfl⟩ := root <;> rfl
  | inr parts =>
    obtain ⟨some_, spelled⟩ := parts
    obtain ⟨u, last, plain⟩ := last_of_named some_ spells.named
    cases spelled with
    | inl bare =>
      rw [bare, bodyOf, List.tail_cons, last, if_neg (fun same => plain (Option.some.inj same))]
    | inr ended =>
      rw [ended, bodyOf, List.cons_append, List.tail_cons, List.getLast?_concat, if_pos rfl, List.dropLast_concat]

theorem eq_bodyOf {name : Bytes} (rooted : name.head? = some slash) :
    name = slash :: bodyOf name ∨ name = slash :: bodyOf name ++ [slash] := by
  cases name with
  | nil => cases rooted
  | cons u rest =>
    have first : u = slash := Option.some.inj rooted
    subst first
    unfold bodyOf
    rw [List.tail_cons]
    by_cases ended : rest.getLast? = some slash
    · rw [if_pos ended, List.cons_append, List.dropLast_append_getLast? slash ended]
      exact .inr rfl
    · rw [if_neg ended]
      exact .inl rfl

theorem spells_iff {name : Bytes} {cs : List Bytes} (few : name.length ≤ maxName)
    (rooted : name.head? = some slash) (full : bodyOf name ≠ []) :
    Spells name cs ↔ cs = (bodyOf name).splitOn slash ∧ ∀ c ∈ cs, Named c := by
  constructor
  · intro spells
    refine ⟨?_, spells.named⟩
    have body := spells.body
    have some_ : cs ≠ [] := by
      rintro rfl
      exact full body
    rw [body, List.splitOn_intercalate _ (fun c among => (spells.named c among).slashless) some_]
  · rintro ⟨rfl, named⟩
    refine ⟨few, named, .inr ⟨List.splitOn_ne_nil _ _, ?_⟩⟩
    rw [List.intercalate_splitOn]
    exact eq_bodyOf rooted

theorem parseName_unfit {name : Bytes} (unfit : ¬(name.length ≤ maxName ∧ name.head? = some slash)) :
    parseName name = .error .ips := by
  unfold parseName
  exact if_pos (by grind)

theorem parseName_fit {name : Bytes} (few : name.length ≤ maxName) (rooted : name.head? = some slash) :
    parseName name = if bodyOf name = [] then .ok [] else parseBody [] (bodyOf name) := by
  have some_ : name.length ≠ 0 := by
    intro bare
    rw [List.length_eq_zero_iff.mp bare] at rooted
    cases rooted
  unfold parseName
  rw [if_neg (by simp [some_, few, rooted])]
  rfl

theorem parseName_texts {name : Bytes} (few : name.length ≤ maxName) (rooted : name.head? = some slash)
    (full : bodyOf name ≠ []) :
    (parseName name).map (List.map Component.text) =
      if ((bodyOf name).splitOn slash).all validComponent then .ok ((bodyOf name).splitOn slash)
      else .error .ips := by
  rw [parseName_fit few rooted, if_neg full, parseBody_eq [] _ List.not_mem_nil, List.nil_append]

theorem Spells.rooted {name : Bytes} {cs : List Bytes} (spells : Spells name cs) : name.head? = some slash := by
  cases spells.spelled with
  | inl root => obtain ⟨_, rfl | rfl⟩ := root <;> rfl
  | inr parts => obtain ⟨_, rfl | rfl⟩ := parts <;> rfl

/-- A name parses to the components it spells. -/
theorem parseName_iff {name : Bytes} {cs : List Bytes} :
    (parseName name).map (List.map Component.text) = .ok cs ↔ Spells name cs := by
  by_cases fits : name.length ≤ maxName ∧ name.head? = some slash
  · obtain ⟨few, rooted⟩ := fits
    by_cases full : bodyOf name = []
    · have taken : parseName name = .ok [] := by rw [parseName_fit few rooted, if_pos full]
      have root : name = [slash] ∨ name = [slash, slash] := by
        have shape := eq_bodyOf rooted
        rw [full] at shape
        exact shape
      rw [taken]
      constructor
      · intro same
        have none_ : cs = [] := (Except.ok.inj same).symm
        subst none_
        exact ⟨few, fun _ among => (nomatch among), .inl ⟨rfl, root⟩⟩
      · intro spells
        cases spells.spelled with
        | inl bare =>
          rw [bare.1]
          rfl
        | inr parts =>
          obtain ⟨u, last, _⟩ := last_of_named parts.1 spells.named
          rw [← spells.body, full] at last
          cases last
    · rw [parseName_texts few rooted full, spells_iff few rooted full]
      by_cases valid : ((bodyOf name).splitOn slash).all validComponent = true
      · have named : ∀ c ∈ (bodyOf name).splitOn slash, Named c := fun c among =>
          validComponent_iff.mp (List.all_eq_true.mp valid c among)
        rw [if_pos valid]
        constructor
        · intro same
          rw [← Except.ok.inj same]
          exact ⟨rfl, named⟩
        · rintro ⟨rfl, _⟩
          rfl
      · rw [if_neg valid]
        constructor
        · intro same
          cases same
        · rintro ⟨rfl, named⟩
          exact absurd (List.all_eq_true.mpr fun c among => validComponent_iff.mpr (named c among)) valid
  · rw [parseName_unfit fits]
    constructor
    · intro same
      cases same
    · intro spells
      exact absurd ⟨spells.few, spells.rooted⟩ fits

theorem stored_length (name : Bytes) : (stored name).length ≤ maxComps := by
  unfold stored
  by_cases unfit : name.length = 0 ∨ maxName < name.length ∨ name.head? ≠ some slash
  · rw [if_pos unfit]
    exact Nat.zero_le _
  · rw [if_neg unfit]
    by_cases full : bodyOf name = []
    · rw [if_pos full]
      exact Nat.zero_le _
    · rw [if_neg full]
      have taken := storedBody_length [] (bodyOf name)
      have inside : (bodyOf name).length ≤ name.length := by
        unfold bodyOf
        split
        · rw [List.length_dropLast, List.length_tail]
          omega
        · rw [List.length_tail]
          omega
      rw [List.length_nil] at taken
      unfold maxComps
      unfold maxName at unfit ⊢
      omega

/-- What `parse_name` makes of a name. -/
structure Parsed (name : Bytes) : Prop where
  taken : (∃ cs, parseName name = .ok cs) ↔ ∃ cs, Spells name cs
  spelled : ∀ cs, parseName name = .ok cs → Spells name (cs.map Component.text)
  refused : ∀ s, parseName name = .error s → s = .ips
  held : ∀ cs, parseName name = .ok cs → cs.map Component.text = stored name
  room : (stored name).length ≤ maxComps

/-- A name is parsed to exactly its grammar, within its array. -/
theorem parseName_grammar (name : Bytes) : Parsed name where
  taken := by
    constructor
    · rintro ⟨cs, taken⟩
      exact ⟨cs.map Component.text, parseName_iff.mp (by rw [taken]; rfl)⟩
    · rintro ⟨cs, spells⟩
      have texts := parseName_iff.mpr spells
      cases taken : parseName name with
      | error s =>
        rw [taken] at texts
        cases texts
      | ok found => exact ⟨found, rfl⟩
  spelled cs taken := parseName_iff.mp (by rw [taken]; rfl)
  refused s refused := by
    by_cases fits : name.length ≤ maxName ∧ name.head? = some slash
    · by_cases full : bodyOf name = []
      · rw [parseName_fit fits.1 fits.2, if_pos full] at refused
        cases refused
      · have texts := parseName_texts fits.1 fits.2 full
        rw [refused] at texts
        split at texts
        · cases texts
        · exact Except.error.inj texts
    · rw [parseName_unfit fits] at refused
      exact (Except.error.inj refused).symm
  held cs taken := by
    have fits : name.length ≤ maxName ∧ name.head? = some slash := by
      by_contra unfit
      rw [parseName_unfit unfit] at taken
      cases taken
    have some_ : name.length ≠ 0 := by
      intro bare
      rw [List.length_eq_zero_iff.mp bare] at fits
      cases fits.2
    rw [parseName_fit fits.1 fits.2] at taken
    unfold stored
    rw [if_neg (by simp [some_, fits])]
    by_cases full : bodyOf name = []
    · rw [if_pos full] at taken ⊢
      rw [← Except.ok.inj taken]
      rfl
    · rw [if_neg full] at taken ⊢
      exact parseBody_stored taken
  room := stored_length name

end MuirFpga.Folders
