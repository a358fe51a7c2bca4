import Mathlib.Data.BitVec
import Mathlib.Data.List.GetD
import Mathlib.Data.List.Range

/-!
# A body as one run of bytes

`struct src` of `chk.c` and the functions over it: the bytes before a hole, the hole read a block at a time in
whole aligned words where it can be, and the bytes after it. Every read of the hole is kept, by its address and
its size.
-/

namespace MuirFpga.Checkpoint

/-- `SRC_BLOCK`. -/
abbrev srcBlock : Nat := 4096

/-- `struct src`, less the block it holds: `a`, the hole's `hlen` bytes of `mem` from `h`, and `b`. -/
structure Src where
  a : List (BitVec 8)
  h : Nat
  hlen : Nat
  b : List (BitVec 8)
  mem : Nat → BitVec 8

namespace Src

/-- The hole's bytes. -/
def hole (s : Src) : List (BitVec 8) := (List.range s.hlen).map fun i => s.mem (s.h + i)

/-- What the source stands for. -/
def bytes (s : Src) : List (BitVec 8) := s.a ++ s.hole ++ s.b

/-- Its `len`. -/
def len (s : Src) : Nat := s.a.length + s.hlen + s.b.length

theorem hole_length (s : Src) : s.hole.length = s.hlen := by
  rw [hole, List.length_map, List.length_range]

@[simp] theorem bytes_length (s : Src) : s.bytes.length = s.len := by
  rw [bytes, List.length_append, List.length_append, hole_length, len]

/-- A read of a byte or of a word that is the hole's to answer: all of it its own, and naturally aligned. -/
def Inside (s : Src) (address size : Nat) : Prop :=
  (size = 1 ∨ size = 4) ∧ s.h ≤ address ∧ address + size ≤ s.h + s.hlen ∧ address % size = 0

/-- A 32-bit read. The hosts are little-endian. -/
def word (s : Src) (address : Nat) : BitVec 32 :=
  s.mem (address + 3) ++ s.mem (address + 2) ++ s.mem (address + 1) ++ s.mem address

end Src

/-- `block` while it is filled, and the reads asked of the hole, the last at the front. -/
structure Filling where
  block : Nat → BitVec 8
  asked : List (Nat × Nat)

/-- `s->block[o] = s->h[at + o]`. -/
def fillByte (s : Src) (base o : Nat) (f : Filling) : Filling :=
  ⟨Function.update f.block o (s.mem (s.h + base + o)), (s.h + base + o, 1) :: f.asked⟩

/-- The four bytes of a word at `o`. -/
def fillWord (s : Src) (base o : Nat) (f : Filling) : Filling :=
  let v := s.word (s.h + base + o)
  let block := Function.update f.block o (v.setWidth 8)
  let block := Function.update block (o + 1) ((v >>> 8).setWidth 8)
  let block := Function.update block (o + 2) ((v >>> 16).setWidth 8)
  let block := Function.update block (o + 3) ((v >>> 24).setWidth 8)
  ⟨block, (s.h + base + o, 4) :: f.asked⟩

/-- The first loop of `src_load`: bytes, up to a word's boundary. -/
def fillLead (s : Src) (base n o : Nat) (f : Filling) : Nat × Filling :=
  if o < n ∧ (s.h + base + o) % 4 ≠ 0 then fillLead s base n (o + 1) (fillByte s base o f) else (o, f)
termination_by n - o

/-- The second: whole words. -/
def fillWords (s : Src) (base n o : Nat) (f : Filling) : Nat × Filling :=
  if o + 4 ≤ n then fillWords s base n (o + 4) (fillWord s base o f) else (o, f)
termination_by n - o

/-- The third: the bytes left. -/
def fillTail (s : Src) (base n o : Nat) (f : Filling) : Filling :=
  if o < n then fillTail s base n (o + 1) (fillByte s base o f) else f
termination_by n - o

/-- `n` of `src_load`. -/
def loadLength (s : Src) (base : Nat) : Nat := min (s.hlen - base) srcBlock

/-- `src_load`, the block of it. -/
def fill (s : Src) (base : Nat) (f : Filling) : Filling :=
  let lead := fillLead s base (loadLength s base) 0 f
  let words := fillWords s base (loadLength s base) lead.1 lead.2
  fillTail s base (loadLength s base) words.1 words.2

/-- A block filled up to `o`, by reads that were the hole's to answer. -/
structure Filled (s : Src) (base o : Nat) (f : Filling) : Prop where
  same : ∀ i < o, f.block i = s.mem (s.h + base + i)
  inside : ∀ read ∈ f.asked, s.Inside read.1 read.2

section Fill

variable {s : Src} {base n o : Nat} {f : Filling}

theorem loadLength_le (s : Src) (base : Nat) : loadLength s base ≤ s.hlen - base := by
  unfold loadLength
  omega

theorem le_loadLength {i : Nat} (s : Src) (base : Nat) (short : i < srcBlock) (within : base + i < s.hlen) :
    i < loadLength s base := by
  unfold loadLength
  omega

theorem Filled.byte (filled : Filled s base o f) (within : base + o < s.hlen) :
    Filled s base (o + 1) (fillByte s base o f) where
  same i below := by
    rcases Nat.lt_succ_iff_lt_or_eq.mp below with before | rfl
    · show Function.update f.block o _ i = _
      rw [Function.update_of_ne (Nat.ne_of_lt before)]
      exact filled.same i before
    · exact Function.update_self _ _ _
  inside read asked := by
    rcases List.mem_cons.mp asked with rfl | earlier
    · have first : s.h ≤ s.h + base + o := by omega
      have last : s.h + base + o + 1 ≤ s.h + s.hlen := by omega
      exact ⟨.inl rfl, first, last, Nat.mod_one _⟩
    · exact filled.inside read earlier

theorem word_bytes (s : Src) (address : Nat) :
    (s.word address).setWidth 8 = s.mem address ∧ (s.word address >>> 8).setWidth 8 = s.mem (address + 1)
      ∧ (s.word address >>> 16).setWidth 8 = s.mem (address + 2)
      ∧ (s.word address >>> 24).setWidth 8 = s.mem (address + 3) := by
  unfold Src.word
  refine ⟨?_, ?_, ?_, ?_⟩ <;>
    · ext i below
      simp only [BitVec.getElem_setWidth, BitVec.getLsbD_ushiftRight, BitVec.getLsbD_append, BitVec.getLsbD_eq_getElem below]
      grind

theorem Filled.word (filled : Filled s base o f) (within : base + o + 4 ≤ s.hlen)
    (aligned : (s.h + base + o) % 4 = 0) : Filled s base (o + 4) (fillWord s base o f) where
  same i below := by
    obtain ⟨first, second, third, fourth⟩ := word_bytes s (s.h + base + o)
    show Function.update (Function.update (Function.update (Function.update f.block o _) (o + 1) _) (o + 2) _) (o + 3)
      _ i = _
    rw [first, second, third, fourth]
    by_cases at3 : i = o + 3
    · subst at3
      exact Function.update_self _ _ _
    rw [Function.update_of_ne at3]
    by_cases at2 : i = o + 2
    · subst at2
      exact Function.update_self _ _ _
    rw [Function.update_of_ne at2]
    by_cases at1 : i = o + 1
    · subst at1
      exact Function.update_self _ _ _
    rw [Function.update_of_ne at1]
    by_cases at0 : i = o
    · subst at0
      exact Function.update_self _ _ _
    rw [Function.update_of_ne at0]
    exact filled.same i (by omega)
  inside read asked := by
    rcases List.mem_cons.mp asked with rfl | earlier
    · have first : s.h ≤ s.h + base + o := by omega
      have last : s.h + base + o + 4 ≤ s.h + s.hlen := by omega
      exact ⟨.inr rfl, first, last, aligned⟩
    · exact filled.inside read earlier

theorem fillLead_filled (within : base + n ≤ s.hlen ∨ n = 0) (filled : Filled s base o f) :
    Filled s base (fillLead s base n o f).1 (fillLead s base n o f).2
      ∧ ((fillLead s base n o f).1 < n → (s.h + base + (fillLead s base n o f).1) % 4 = 0) := by
  induction o, f using fillLead.induct s base n with
  | case1 o f more ih =>
    rw [fillLead, if_pos more]
    exact ih (filled.byte (by omega))
  | case2 o f done =>
    rw [fillLead, if_neg done]
    exact ⟨filled, fun short => by
      by_contra off
      exact done ⟨short, off⟩⟩

theorem fillWords_filled (within : base + n ≤ s.hlen ∨ n = 0) (aligned : o < n → (s.h + base + o) % 4 = 0)
    (filled : Filled s base o f) :
    Filled s base (fillWords s base n o f).1 (fillWords s base n o f).2 := by
  induction o, f using fillWords.induct s base n with
  | case1 o f more ih =>
    rw [fillWords, if_pos more]
    have here := aligned (by omega)
    exact ih (fun _ => by omega) (filled.word (by omega) here)
  | case2 o f done =>
    rw [fillWords, if_neg done]
    exact filled

theorem fillTail_filled (within : base + n ≤ s.hlen ∨ n = 0) (filled : Filled s base o f) :
    Filled s base n (fillTail s base n o f) := by
  induction o, f using fillTail.induct s base n with
  | case1 o f more ih =>
    rw [fillTail, if_pos more]
    exact ih (filled.byte (by omega))
  | case2 o f done =>
    rw [fillTail, if_neg done]
    exact ⟨fun i below => filled.same i (by omega), filled.inside⟩

theorem fill_filled (s : Src) (base : Nat) (inside : ∀ read ∈ f.asked, s.Inside read.1 read.2) :
    Filled s base (loadLength s base) (fill s base f) := by
  have within : base + loadLength s base ≤ s.hlen ∨ loadLength s base = 0 := by
    have short := loadLength_le s base
    omega
  have empty : Filled s base 0 f := ⟨fun i below => absurd below (Nat.not_lt_zero i), inside⟩
  obtain ⟨lead, aligned⟩ := fillLead_filled within empty
  exact fillTail_filled within (fillWords_filled within aligned lead)

end Fill

/-- The block a source holds, `none` for the source's `SIZE_MAX`, and every read asked of its hole so far. What
is held is the hole's, and nothing was asked that was not. -/
structure Held (s : Src) where
  block : Nat → BitVec 8
  blockAt : Option Nat
  asked : List (Nat × Nat)
  holds : ∀ base, blockAt = some base → ∀ i < srcBlock, base + i < s.hlen → block i = s.mem (s.h + base + i)
  inside : ∀ read ∈ asked, s.Inside read.1 read.2

/-- A source nothing was read from. -/
def Held.fresh (s : Src) : Held s where
  block := fun _ => 0
  blockAt := none
  asked := []
  holds _ held := nomatch held
  inside _ read := absurd read List.not_mem_nil

/-- `src_load`. -/
def srcLoad (s : Src) (base : Nat) (held : Held s) : Held s where
  block := (fill s base ⟨held.block, held.asked⟩).block
  blockAt := some base
  asked := (fill s base ⟨held.block, held.asked⟩).asked
  holds := by
    intro base' same i short within
    obtain rfl := Option.some.inj same
    exact (fill_filled s base held.inside).same i (le_loadLength s base short within)
  inside := (fill_filled s base held.inside).inside

/-- `if (s->block_at != at) src_load(s, at)`. -/
def srcBlockAt (s : Src) (base : Nat) (held : Held s) : Held s :=
  if held.blockAt ≠ some base then srcLoad s base held else held

theorem srcBlockAt_blockAt (s : Src) (base : Nat) (held : Held s) : (srcBlockAt s base held).blockAt = some base := by
  unfold srcBlockAt
  split
  · rfl
  · rename_i there
    exact not_not.mp there

/-- `src_at`. No caller asks past the source's end. -/
def srcAt (s : Src) (i : Nat) (held : Held s) : BitVec 8 × Held s :=
  if i < s.a.length then (s.a.getD i 0#8, held)
  else
    let i := i - s.a.length
    if i < s.hlen then
      let base := i - i % srcBlock
      let held := srcBlockAt s base held
      (held.block (i - base), held)
    else (s.b.getD (i - s.hlen) 0#8, held)

/-- `src_copy`: bytes `from` to `from + n`, and what is held after. -/
def srcCopy (s : Src) (start n : Nat) (held : Held s) : List (BitVec 8) × Held s :=
  if 0 < n then
    if start < s.a.length then
      let take := min (s.a.length - start) n
      let rest := srcCopy s (start + take) (n - take) held
      ((s.a.drop start).take take ++ rest.1, rest.2)
    else if start - s.a.length < s.hlen then
      let i := start - s.a.length
      let base := i - i % srcBlock
      let held := srcBlockAt s base held
      let inBlock := min (srcBlock - (i - base)) (s.hlen - i)
      let take := min inBlock n
      let rest := srcCopy s (start + take) (n - take) held
      ((List.range take).map (fun k => held.block (i - base + k)) ++ rest.1, rest.2)
    else ((s.b.drop (start - s.a.length - s.hlen)).take n, held)
  else ([], held)
termination_by n
decreasing_by
  · omega
  · have short : (start - s.a.length) % srcBlock < srcBlock := Nat.mod_lt _ (by decide)
    omega

section Reads

variable {s : Src} {i start n : Nat} {held : Held s}

theorem srcBlockAt_byte (held : Held s) (within : i < s.hlen) :
    (srcBlockAt s (i - i % srcBlock) held).block (i - (i - i % srcBlock)) = s.mem (s.h + i) := by
  have short : i % srcBlock < srcBlock := Nat.mod_lt _ (by decide)
  have le : i % srcBlock ≤ i := Nat.mod_le _ _
  have back : i - (i - i % srcBlock) = i % srcBlock := by omega
  have there := (srcBlockAt s (i - i % srcBlock) held).holds _ (srcBlockAt_blockAt s _ held) (i % srcBlock) short
    (by omega)
  rw [back, there]
  exact congrArg s.mem (by omega)

theorem hole_getElem? (within : i < s.hlen) : s.hole[i]? = some (s.mem (s.h + i)) := by
  rw [Src.hole, List.getElem?_map, List.getElem?_range within]
  rfl

theorem hole_getD (within : i < s.hlen) : s.hole.getD i 0#8 = s.mem (s.h + i) := by
  rw [List.getD_eq_getElem?_getD, hole_getElem? within]
  rfl

theorem srcAt_eq (held : Held s) : (srcAt s i held).1 = s.bytes.getD i 0#8 := by
  unfold srcAt Src.bytes
  rw [List.append_assoc]
  split
  · rename_i before
    rw [List.getD_append _ _ _ _ before]
  · rename_i behind
    rw [List.getD_append_right _ _ _ _ (Nat.le_of_not_lt behind)]
    dsimp only
    split
    · rename_i within
      rw [srcBlockAt_byte held within, List.getD_append _ _ _ _ (by rwa [s.hole_length]), hole_getD within]
    · rename_i past
      rw [List.getD_append_right _ _ _ _ (by rw [s.hole_length]; exact Nat.le_of_not_lt past), s.hole_length]

theorem drop_bytes (held : Held s) (below : i < s.len) :
    s.bytes.drop i = (srcAt s i held).1 :: s.bytes.drop (i + 1) := by
  have inside : i < s.bytes.length := by rwa [s.bytes_length]
  rw [srcAt_eq, List.getD_eq_getElem _ _ inside]
  exact List.drop_eq_getElem_cons inside

theorem take_drop_step {α : Type} (bytes : List α) {start take n : Nat} (le : take ≤ n) :
    (bytes.drop start).take n = (bytes.drop start).take take ++ (bytes.drop (start + take)).take (n - take) := by
  rw [← List.drop_drop, ← List.take_add, Nat.add_sub_cancel' le]

theorem hole_take (held : Held s) {base take : Nat} (aligned : base = i - i % srcBlock)
    (inBlock : take ≤ srcBlock - (i - base)) (within : i + take ≤ s.hlen) :
    (List.range take).map (fun k => (srcBlockAt s base held).block (i - base + k)) = (s.hole.drop i).take take := by
  have short : i % srcBlock < srcBlock := Nat.mod_lt _ (by decide)
  have le : i % srcBlock ≤ i := Nat.mod_le _ _
  apply List.ext_getElem?
  intro k
  rw [List.getElem?_map, List.getElem?_take]
  split
  · rename_i below
    have there := (srcBlockAt s base held).holds _ (srcBlockAt_blockAt s _ held) (i - base + k) (by omega) (by omega)
    rw [List.getElem?_range below, List.getElem?_drop, hole_getElem? (by omega), Option.map_some, there]
    exact congrArg (fun address => some (s.mem address)) (by omega)
  · rename_i past
    rw [List.getElem?_eq_none (by rw [List.length_range]; omega)]
    rfl

theorem bytes_hole {take : Nat} (within : i + take ≤ s.hlen) :
    (s.bytes.drop (s.a.length + i)).take take = (s.hole.drop i).take take := by
  have first : i ≤ s.hole.length := by
    rw [s.hole_length]
    omega
  have last : take ≤ (s.hole.drop i).length := by
    rw [List.length_drop, s.hole_length]
    omega
  rw [Src.bytes, List.append_assoc, List.drop_length_add_append, List.drop_append_of_le_length first,
    List.take_append_of_le_length last]

theorem srcCopy_eq (held : Held s) (within : start + n ≤ s.len) :
    (srcCopy s start n held).1 = (s.bytes.drop start).take n := by
  induction n using Nat.strong_induction_on generalizing start held with
  | _ n ih =>
    rw [srcCopy]
    split
    · rename_i more
      split
      · rename_i before
        have own : (s.bytes.drop start).take (min (s.a.length - start) n)
            = (s.a.drop start).take (min (s.a.length - start) n) := by
          have short : min (s.a.length - start) n ≤ (s.a.drop start).length := by
            rw [List.length_drop]
            exact Nat.min_le_left _ _
          rw [Src.bytes, List.append_assoc, List.drop_append_of_le_length (Nat.le_of_lt before),
            List.take_append_of_le_length short]
        rw [take_drop_step s.bytes (Nat.min_le_right (s.a.length - start) n), own]
        exact congrArg _ (ih _ (by omega) held (by omega))
      · rename_i behind
        split
        · rename_i hole
          dsimp only
          have short : (start - s.a.length) % srcBlock < srcBlock := Nat.mod_lt _ (by decide)
          generalize taken : min (min (srcBlock - (start - s.a.length
            - (start - s.a.length - (start - s.a.length) % srcBlock))) (s.hlen - (start - s.a.length))) n = take
          have own : (s.bytes.drop start).take take = (s.hole.drop (start - s.a.length)).take take := by
            have there := @bytes_hole s (start - s.a.length) take (by omega)
            rwa [Nat.add_sub_cancel' (Nat.le_of_not_lt behind)] at there
          rw [take_drop_step s.bytes (show take ≤ n by omega), own, hole_take held rfl (by omega) (by omega)]
          exact congrArg _ (ih _ (by omega) _ (by omega))
        · rename_i past
          have front : s.a.length + s.hlen ≤ start := by omega
          have shift : (s.a ++ s.hole).length + (start - s.a.length - s.hlen) = start := by
            rw [List.length_append, s.hole_length]
            omega
          conv_rhs => rw [Src.bytes, ← shift, List.drop_length_add_append]
    · rename_i none_
      rw [Nat.eq_zero_of_not_pos none_, List.take_zero]

end Reads

end MuirFpga.Checkpoint
