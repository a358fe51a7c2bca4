import MuirFpga.Quux.Tlb

/-!
# The page tables

What the two levels of tables in main memory say of a paged address: the directory's word names a page
table's frame, and a word of that table the page. A translation is what a walk of them is to answer, and
a post what a write-back of the page's bits is to write.
-/

namespace MuirFpga.Quux

/-- Main memory's words, as a walk reads them. -/
abbrev TableMem := BitVec 29 → BitVec 40

namespace PageTable

/-- A word's frame. -/
def frame (word : BitVec 40) : BitVec 18 := word.extractLsb' 0 18

/-- Where the directory's word of an address is. -/
def dirAt (base : BitVec 18) (va : BitVec 32) : BitVec 29 :=
  0#1 ++ base.extractLsb' 2 16 ++ va.extractLsb' 20 12

/-- Where the page's word is, by the directory's. -/
def pageAt (dir : BitVec 40) (va : BitVec 32) : BitVec 29 := 0#1 ++ frame dir ++ va.extractLsb' 10 10

variable (frames base : BitVec 18) (mem : TableMem) (va : BitVec 32)

/-- A directory's word that names a page table in main memory. -/
def Names (dir : BitVec 40) : Prop := Mmu.status dir = 4#3 ∧ frame dir < frames

instance (dir : BitVec 40) : Decidable (Names frames dir) := inferInstanceAs (Decidable (_ ∧ _))

variable {frames} in
theorem names_iff {dir : BitVec 40} :
    Names frames dir ↔ ¬ (Mmu.status dir ≠ 4#3 ∨ frames ≤ dir.extractLsb' 0 18) := by
  rw [not_or, Decidable.not_not, BitVec.not_le]
  rfl

/-- A page's word that a write-back may write: one of a page in memory, with the entry's frame. -/
def Writes (own : BitVec 18) (page : BitVec 40) : Prop :=
  (2#3 ≤ Mmu.status page ∧ Mmu.status page ≤ 6#3) ∧ frame page = own

instance (own : BitVec 18) (page : BitVec 40) : Decidable (Writes own page) :=
  inferInstanceAs (Decidable (_ ∧ _))

/-- Where the tables have an address's page. -/
def page : Option (BitVec 29) :=
  if base ≠ 0#18 ∧ Names frames (mem (dirAt base va)) then some (pageAt (mem (dirAt base va)) va) else none

variable {frames base mem va} in
theorem page_eq (some_ : base ≠ 0#18) (names : Names frames (mem (dirAt base va))) :
    page frames base mem va = some (pageAt (mem (dirAt base va)) va) := if_pos ⟨some_, names⟩

variable {frames base mem va} in
theorem page_eq_none (none_ : ¬ Names frames (mem (dirAt base va))) : page frames base mem va = none :=
  if_neg fun both => none_ both.2

/-- What a write-back of `bits` posts, of an entry of the frame `own`. -/
def post (own : BitVec 18) (bits : BitVec 30) : Option (BitVec 29 × BitVec 40) :=
  (page frames base mem va).bind fun place =>
    if Writes own (mem place) then some (place, mem place ||| (0#10 ++ bits)) else none

end PageTable

section Steps

variable {frames : BitVec 18} {base : BitVec 18} {va own : BitVec 32} {word : BitVec 40} {ready : Bool}

namespace WalkCall

theorem advance_idle :
    advance frames .idle va ready word base =
      if base = 0#18 then { stay .idle va with done := true }
      else { stay .dir va with tstart := true, taddr := PageTable.dirAt base va } := rfl

theorem call_idle :
    call frames .idle own va ready word base =
      if base = 0#18 then { stay .idle va with done := true }
      else { stay .dir va with tstart := true, taddr := PageTable.dirAt base va } := by
  unfold call
  simp only [if_true, advance_idle]
  split
  · simp only [Bool.true_and, beq_self_eq_true]
  · rfl

end WalkCall

end Steps

end MuirFpga.Quux
