import MuirFpga.Quux.PageMoves

/-!
# Runs of the block walk's pages

Over any run from a reset, with the pack side serving every slot a read moves: a read's page comes
off the disk as memory's words, a write's page goes onto it as their bytes, each store word lands
in a slot found with the block's tag, and a page written and read back is restored.
-/

namespace MuirFpga.Quux

namespace Copying

variable {mainWords : Nat} {i : Nat → WalkInput} {m : Nat → Seam} {c : Nat → Copying}

/-- A run from a reset. -/
structure Runs (mainWords : Nat) (i : Nat → WalkInput) (m : Nat → Seam) (c : Nat → Copying) :
    Prop where
  reset : ∃ (start : Copying) (first : WalkInput) (seam : Seam), first.rst = true ∧
    c 0 = start.next mainWords first seam
  step : ∀ clock, c (clock + 1) = (c clock).next mainWords (i clock) (m clock)

theorem Runs.sound (runs : Runs mainWords i m c) (served : ∀ clock, (c clock).Served)
    (clock : Nat) : (c clock).Sound := by
  induction clock with
  | zero =>
    obtain ⟨start, first, seam, rst, same⟩ := runs.reset
    rw [same]
    exact sound_reset rst
  | succ clock ih =>
    rw [runs.step]
    exact sound_next ih (served clock)

theorem Runs.quiet (runs : Runs mainWords i m c) :
    (c 0).walk.v = .idle ∧ (c 0).walk.lookAge = 0#2 := by
  obtain ⟨start, first, seam, rst, same⟩ := runs.reset
  rw [same]
  obtain ⟨idle, -, young⟩ : (start.walk.next mainWords first seam start.store).v = .idle ∧
    (start.walk.next mainWords first seam start.store).chbWe = false ∧
    (start.walk.next mainWords first seam start.store).lookAge = 0#2 := Walk.next_reset rst
  exact ⟨idle, young⟩

/-- A walk moves only a slot found with its block's tag. -/
theorem Runs.found (runs : Runs mainWords i m c) {clock : Nat} (moves : (c clock).walk.moves) :
    ∃ look, look < clock ∧ (c look).store.valid (c clock).walk.chSlot = true ∧
      (c look).store.tag (c clock).walk.chSlot = 0#3 ++ (c clock).walk.block := by
  induction clock with
  | zero =>
    have idle : (c 0).walk.v = .idle := runs.quiet.1
    rcases moves with place | place <;> simp [idle] at place
  | succ clock ih =>
    have step : (c (clock + 1)).walk =
        (c clock).walk.next mainWords (i clock) (m clock) (c clock).store := by
      rw [runs.step]
      rfl
    have visit := moves
    rw [step] at visit
    obtain ⟨-, came⟩ := Walk.next_visit (Or.inl visit)
    rw [← step] at came visit
    rcases came with ⟨slot, chooses, chosen⟩ | ⟨on, stayed⟩
    · obtain ⟨place, looked, hit, -⟩ := Walk.chooses_spec chooses
      cases clock with
      | zero => simp [runs.quiet.1] at place
      | succ look =>
        have before : (c (look + 1)).walk =
            (c look).walk.next mainWords (i look) (m look) (c look).store := by
          rw [runs.step]
          rfl
        have same : (c (look + 1)).walk.lba = (c (look + 1)).walk.block := by
          simp only [Walk.looked, Bool.and_eq_true, beq_iff_eq] at looked
          exact looked.2
        rw [before] at looked hit
        obtain ⟨-, -, lba⟩ := Walk.next_looked looked
        rw [← before] at lba
        have hits : (c look).store.valid slot = true ∧
            (c look).store.tag slot = (c look).walk.reqTag := by
          unfold Walk.next at hit
          simpa using hit
        rw [chosen.slot, chosen.block]
        refine ⟨look, by omega, hits.1, hits.2.trans ?_⟩
        unfold Walk.reqTag
        rw [← lba, same]
    · obtain ⟨look, early, valid, tag⟩ := ih on
      rw [stayed.slot, stayed.block visit]
      exact ⟨look, by omega, valid, tag⟩

/-- A page that ends at one clock of a write is read back by the one that ends at another: the
same blocks in the same mode, and they hold what the write left in them. -/
structure ReadBack (i : Nat → WalkInput) (c : Nat → Copying) (first last : Nat) : Prop where
  wrote : (c first).WriteEnds (i first)
  read : (c last).ReadEnds (i last)
  base : (c last).walk.base = (c first).walk.base
  mode : (c last).walk.four = (c first).walk.four
  kept : ∀ p, p < (c first).walk.size → (c last).disk (pageBlock (c first).walk.base p) =
    (c (first + 1)).disk (pageBlock (c first).walk.base p)

/-- A page written and read back is restored. -/
theorem Runs.restores (runs : Runs mainWords i m c) (served : ∀ clock, (c clock).Served)
    {first last : Nat} (back : ReadBack i c first last) :
    (c (last + 1)).sent = (List.range 1024).map fun n =>
      ((c last).walk.page ++ BitVec.ofNat 10 n,
        restored (c first).walk.four (word (c (first + 1)).got n)) := by
  obtain ⟨-, laid, -, -⟩ := (runs.sound served first).write_page (m := m first) back.wrote
  rw [← runs.step] at laid
  rw [runs.step, ((runs.sound served last).read_page back.read).1]
  apply List.map_congr_left
  intro n inside
  rw [List.mem_range] at inside
  unfold Walk.pageWord
  rw [back.base, back.mode, ← memWord_memByte]
  refine Prod.ext rfl ?_
  apply memWord_congr
  intro j below
  have within : j < 1024 * (c first).walk.size :=
    Nat.lt_of_lt_of_le below (Nat.mul_comm 1024 _ ▸ Nat.mul_le_mul_left _ inside)
  rw [← laid j within]
  unfold diskByte
  rw [back.kept (j / 1024) (by omega)]

/-- The registers before the reset, and a blank disk. -/
def cold : Copying := ⟨.blank, .blank, [], [], fun _ _ => 0, fun _ _ => 0⟩

/-- A read of the disk's first page into memory's first, memory answering at once. -/
def reading : WalkInput := ⟨false, true, 0, 0, 0, true, true, 0⟩

end Copying

end MuirFpga.Quux
