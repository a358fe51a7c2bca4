import Mathlib.Data.List.Perm.Basic
import Mathlib.Data.List.Nodup

/-!
# Tables kept by a key

A table is its entries in a row, looked through from the first. An entry goes in place of the one
with its key, or to the end; one is taken out by the last put in its place. As long as no two
entries have one key, a table is what its lookups find.
-/

namespace MuirFpga.Sync.Table

universe u v

variable {Key : Type u} {Entry : Type v} [DecidableEq Key] (key : Entry → Key)

/-- The entry with a key. -/
def find (table : List Entry) (k : Key) : Option Entry := table.find? fun e => decide (key e = k)

/-- The entry with a key taken out, the last put in its place. -/
def remove : List Entry → Key → List Entry
  | [], _ => []
  | e :: rest, k =>
    if key e = k then
      match rest.getLast? with
      | none => []
      | some last => last :: rest.dropLast
    else e :: remove rest k

/-- An entry in place of the one with its key, or at the end. -/
def insert : List Entry → Entry → List Entry
  | [], e => [e]
  | x :: rest, e => if key x = key e then e :: rest else x :: insert rest e

/-- No two entries have one key. -/
def Keyed (table : List Entry) : Prop := (table.map key).Nodup

variable {key} {table : List Entry} {k : Key} {e x : Entry}

omit [DecidableEq Key] in
theorem keyed_cons : Keyed key (e :: table) ↔ (∀ x ∈ table, key x ≠ key e) ∧ Keyed key table := by
  unfold Keyed
  rw [List.map_cons, List.nodup_cons, List.mem_map]
  constructor
  · rintro ⟨other, rest⟩
    exact ⟨fun x member same => other ⟨x, member, same⟩, rest⟩
  · rintro ⟨other, rest⟩
    refine ⟨?_, rest⟩
    rintro ⟨x, member, same⟩
    exact other x member same

theorem find_eq_some_iff (keyed : Keyed key table) :
    find key table k = some e ↔ e ∈ table ∧ key e = k := by
  unfold find
  induction table with
  | nil => simp
  | cons x rest ih =>
    obtain ⟨other, keyed⟩ := keyed_cons.1 keyed
    rw [List.find?_cons]
    by_cases here : key x = k
    · simp only [here, decide_true, List.mem_cons]
      constructor
      · intro same
        obtain rfl := Option.some.inj same
        exact ⟨.inl rfl, here⟩
      · rintro ⟨rfl | member, same⟩
        · rfl
        · exact absurd (same.trans here.symm) (other e member)
    · simp only [here, decide_false, List.mem_cons, ih keyed]
      constructor
      · exact fun found => ⟨.inr found.1, found.2⟩
      · rintro ⟨rfl | member, same⟩
        · exact absurd same here
        · exact ⟨member, same⟩

theorem find_eq_none_iff : find key table k = none ↔ ∀ e ∈ table, key e ≠ k := by
  unfold find
  rw [List.find?_eq_none]
  simp

theorem remove_perm : (remove key table k).Perm (table.eraseP fun e => decide (key e = k)) := by
  induction table with
  | nil => exact List.Perm.refl _
  | cons x rest ih =>
    unfold remove
    by_cases here : key x = k
    · rw [if_pos here, List.eraseP_cons_of_pos (by simpa using here)]
      cases last : rest.getLast? with
      | none =>
        rw [List.getLast?_eq_none_iff] at last
        rw [last]
      | some l =>
        have split : rest = rest.dropLast ++ [l] := (List.dropLast_append_getLast? l last).symm
        conv_rhs => rw [split]
        exact (List.perm_append_singleton l rest.dropLast).symm
    · rw [if_neg here, List.eraseP_cons_of_neg (by simpa using here)]
      exact ih.cons x

theorem Keyed.remove (keyed : Keyed key table) (k : Key) : Keyed key (remove key table k) := by
  unfold Keyed
  rw [(remove_perm.map key).nodup_iff]
  exact (List.Sublist.map key List.eraseP_sublist).nodup keyed

theorem mem_remove (keyed : Keyed key table) :
    x ∈ Table.remove key table k ↔ x ∈ table ∧ key x ≠ k := by
  rw [remove_perm.mem_iff]
  induction table with
  | nil => simp
  | cons y rest ih =>
    obtain ⟨other, keyed⟩ := keyed_cons.1 keyed
    by_cases here : key y = k
    · rw [List.eraseP_cons_of_pos (by simpa using here), List.mem_cons]
      constructor
      · intro member
        exact ⟨.inr member, fun same => other x member (same.trans here.symm)⟩
      · rintro ⟨rfl | member, apart⟩
        · exact absurd here apart
        · exact member
    · rw [List.eraseP_cons_of_neg (by simpa using here), List.mem_cons, List.mem_cons, ih keyed]
      constructor
      · rintro (rfl | ⟨member, apart⟩)
        · exact ⟨.inl rfl, here⟩
        · exact ⟨.inr member, apart⟩
      · rintro ⟨rfl | member, apart⟩
        · exact .inl rfl
        · exact .inr ⟨member, apart⟩

theorem mem_insert (keyed : Keyed key table) :
    x ∈ Table.insert key table e ↔ x = e ∨ (x ∈ table ∧ key x ≠ key e) := by
  induction table with
  | nil => simp [Table.insert]
  | cons y rest ih =>
    obtain ⟨other, keyed⟩ := keyed_cons.1 keyed
    unfold Table.insert
    by_cases here : key y = key e
    · rw [if_pos here, List.mem_cons, List.mem_cons]
      constructor
      · rintro (rfl | member)
        · exact .inl rfl
        · exact .inr ⟨.inr member, fun same => other x member (same.trans here.symm)⟩
      · rintro (rfl | ⟨rfl | member, apart⟩)
        · exact .inl rfl
        · exact absurd here apart
        · exact .inr member
    · rw [if_neg here, List.mem_cons, List.mem_cons, ih keyed]
      constructor
      · rintro (rfl | rfl | ⟨member, apart⟩)
        · exact .inr ⟨.inl rfl, here⟩
        · exact .inl rfl
        · exact .inr ⟨.inr member, apart⟩
      · rintro (rfl | ⟨rfl | member, apart⟩)
        · exact .inr (.inl rfl)
        · exact .inl rfl
        · exact .inr (.inr ⟨member, apart⟩)

theorem Keyed.insert (keyed : Keyed key table) (e : Entry) : Keyed key (insert key table e) := by
  induction table with
  | nil => exact List.nodup_singleton _
  | cons y rest ih =>
    obtain ⟨other, rest_keyed⟩ := keyed_cons.1 keyed
    unfold Table.insert
    by_cases here : key y = key e
    · rw [if_pos here]
      exact keyed_cons.2 ⟨fun x member same => other x member (same.trans here.symm), rest_keyed⟩
    · rw [if_neg here]
      refine keyed_cons.2 ⟨fun x member => ?_, ih rest_keyed⟩
      obtain rfl | ⟨member, -⟩ := (mem_insert rest_keyed).1 member
      · exact fun same => here same.symm
      · exact other x member

theorem find_remove (keyed : Keyed key table) (k k' : Key) :
    find key (Table.remove key table k') k = if k = k' then none else find key table k := by
  split_ifs with same
  · rw [find_eq_none_iff]
    intro e member
    rw [same]
    exact ((mem_remove keyed).1 member).2
  · apply Option.ext
    intro e
    rw [find_eq_some_iff (keyed.remove k'), find_eq_some_iff keyed, mem_remove keyed]
    constructor
    · exact fun found => ⟨found.1.1, found.2⟩
    · exact fun found => ⟨⟨found.1, fun bad => same (found.2.symm.trans bad)⟩, found.2⟩

theorem find_insert (keyed : Keyed key table) (e : Entry) (k : Key) :
    find key (Table.insert key table e) k = if k = key e then some e else find key table k := by
  split_ifs with same
  · rw [find_eq_some_iff (keyed.insert e), mem_insert keyed]
    exact ⟨.inl rfl, same.symm⟩
  · apply Option.ext
    intro x
    rw [find_eq_some_iff (keyed.insert e), find_eq_some_iff keyed, mem_insert keyed]
    constructor
    · rintro ⟨rfl | ⟨member, -⟩, found⟩
      · exact absurd found.symm same
      · exact ⟨member, found⟩
    · exact fun found => ⟨.inr ⟨found.1, fun bad => same (found.2.symm.trans bad)⟩, found.2⟩

end MuirFpga.Sync.Table
