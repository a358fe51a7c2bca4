import MuirFpga.Terminal.Pixels

/-!
# What a rectangle shows

Either encoding of a rectangle has a viewer show, inside it, each pixel's value in the viewer's format,
and leaves the rest as it was.
-/

namespace MuirFpga.Terminal

section Rows

variable (g : Geometry) (px : PixelTable) (words : Nat → BitVec 32) (y : Nat)

theorem screenValue_lt (x : Nat) : screenValue g words x y < 16 := by
  unfold screenValue screenColorIndex
  split
  · exact BitVec.isLt _
  · exact Nat.lt_of_le_of_lt (Bool.toNat_le _) (by decide)

theorem one_screenValue (x : Nat) :
    px.one (screenValue g words x y) = px.value (screenValue g words x y) := by
  unfold PixelTable.one
  rw [Nat.mod_eq_of_lt (screenValue_lt g words y x)]

theorem mono_byte (mono : g.color = false) {p k : Nat} (whole : p % 8 = 0) (inside : k < 8) :
    ((rowByte g words y (p / 8)).extractLsb' k 1).toNat = screenValue g words (p + k) y := by
  have bit : (y * g.wordsPerLine * 32 + (p + k)) / 32 = y * g.wordsPerLine + p / 8 / 4 := by omega
  have place : (y * g.wordsPerLine * 32 + (p + k)) % 32 = p / 8 % 4 * 8 + k := by omega
  have small : p / 8 % 4 * 8 + k < 32 := by omega
  unfold rowByte screenValue screenLit
  rw [mono, if_neg (by decide)]
  dsimp only
  rw [bit, place]
  have one : ∀ b : BitVec 1, b.toNat = (b.getLsbD 0).toNat := by decide
  rw [one]
  cases g.blackOnWhite <;> simp [inside, small]

theorem color_byte (color : g.color = true) {p k : Nat} (whole : p % 2 = 0) (inside : k < 2) :
    ((rowByte g words y (p / 2)).extractLsb' (k * 4) 4).toNat = screenValue g words (p + k) y := by
  have shape := g.shape
  rw [color, if_pos rfl] at shape
  have word : (p + k) / 8 = p / 2 / 4 := by omega
  have place : (p + k) % 8 * 4 = p / 2 % 4 * 8 + k * 4 := by omega
  unfold rowByte screenValue screenColorIndex
  rw [color, if_pos rfl, shape.1, shape.2.2, word, place]
  refine congrArg BitVec.toNat ?_
  apply BitVec.eq_of_getLsbD_eq
  intro t within
  simp [within, show k * 4 + t < 8 by omega, Nat.add_assoc]

theorem byte_row {p : Nat} (whole : p % g.perByte = 0) :
    px.byte g (rowByte g words y (p / g.perByte)) =
      (List.range' p g.perByte).map fun x => px.one (screenValue g words x y) := by
  unfold PixelTable.byte
  rw [List.range'_eq_map_range, List.map_map]
  refine List.map_congr_left ?_
  intro k inside
  have inside := List.mem_range.mp inside
  rw [Function.comp_apply, one_screenValue]
  cases color : g.color with
  | false =>
    have per : g.perByte = 8 := by simp [Geometry.perByte, Geometry.bpp, color]
    rw [per] at whole inside ⊢
    rw [if_pos (by simp [Geometry.values, color]), mono_byte g words y color whole inside]
  | true =>
    have per : g.perByte = 2 := by simp [Geometry.perByte, Geometry.bpp, color]
    rw [per] at whole inside ⊢
    rw [if_neg (by simp [Geometry.values, color]), color_byte g words y color whole inside]

theorem perByte_pos : 0 < g.perByte := by
  unfold Geometry.perByte Geometry.bpp
  split <;> decide

theorem rowEnds_eq (left p : Nat) : rowEnds g px words y left p =
    (List.range' p left).map fun x => px.one (screenValue g words x y) := by
  induction left generalizing p with
  | zero => rfl
  | succ left ih => rw [rowEnds, ih, List.range'_succ, List.map_cons]

theorem rowMiddle_eq (left p : Nat) (whole : p % g.perByte = 0) : rowMiddle g px words y left p =
    (List.range' p left).map fun x => px.one (screenValue g words x y) := by
  induction left using Nat.strongRecOn generalizing p with
  | ind left ih =>
    have some := perByte_pos g
    match left with
    | 0 =>
      unfold rowMiddle
      rfl
    | left + 1 =>
      unfold rowMiddle
      by_cases more : g.perByte ≤ left + 1
      · rw [if_pos ⟨more, some⟩, byte_row g px words y whole,
          ih (left + 1 - g.perByte) (by omega) (p + g.perByte) (by rw [Nat.add_mod_right]; exact whole),
          ← List.map_append, List.range'_append_1, Nat.add_sub_cancel' more]
      · rw [if_neg (fun both => more both.1)]
        exact rowEnds_eq g px words y (left + 1) p

theorem rowStart_eq (left p : Nat) : rowStart g px words y left p =
    (List.range' p left).map fun x => px.one (screenValue g words x y) := by
  induction left generalizing p with
  | zero => rfl
  | succ left ih =>
    unfold rowStart
    by_cases part : p % g.perByte ≠ 0
    · rw [if_pos part, ih, List.range'_succ, List.map_cons]
    · rw [if_neg part]
      exact rowMiddle_eq g px words y (left + 1) p (Decidable.not_not.mp part)

end Rows

section Rectangles

variable (g : Geometry) (px : PixelTable) (words : Nat → BitVec 32)

/-- A framebuffer with a rectangle of the frame drawn into it. -/
def shown (fb : Framebuffer) (x y w h : Nat) : Framebuffer := fun X Y =>
  if Within x y w h X Y then some (px.one (screenValue g words X Y)) else fb X Y

theorem getElem?_rows {α : Type} {w : Nat} (row : Nat → List α) (even : ∀ y, (row y).length = w)
    (y h i j : Nat) (below : i < h) (inside : j < w) :
    ((List.range' y h).flatMap row)[i * w + j]? = (row (y + i))[j]? := by
  induction h generalizing y i with
  | zero => omega
  | succ h ih =>
    rw [List.range'_succ, List.flatMap_cons]
    cases i with
    | zero =>
      rw [Nat.zero_mul, Nat.zero_add, List.getElem?_append_left (by rw [even]; exact inside)]
      rfl
    | succ i =>
      have past : (i + 1) * w + j = (row y).length + (i * w + j) := by
        rw [even, Nat.add_mul, Nat.one_mul]
        omega
      rw [past, List.getElem?_append_right (Nat.le_add_right _ _), Nat.add_sub_cancel_left,
        ih (y + 1) i (by omega), show y + 1 + i = y + (i + 1) by omega]

theorem draw_raw (fb : Framebuffer) (x y w h : Nat) :
    fb.draw ⟨x, y, w, h, .raw (encodeRaw g px words x y w h)⟩ = shown g px words fb x y w h := by
  funext X Y
  unfold Framebuffer.draw shown
  dsimp only
  by_cases inside : Within x y w h X Y
  · rw [if_pos inside, if_pos inside]
    obtain ⟨left, right, top, bottom⟩ := inside
    unfold encodeRaw
    rw [getElem?_rows (w := w) _ (fun y => by rw [rowStart_eq, List.length_map, List.length_range'])
      y h (Y - y) (X - x) (by omega) (by omega), rowStart_eq, List.getElem?_map,
      List.getElem?_range' (by omega), Nat.add_sub_cancel' top]
    rw [show x + 1 * (X - x) = X by omega]
    rfl
  · rw [if_neg inside, if_neg inside]

theorem runLength_le (v y left x : Nat) : runLength g words y v left x ≤ left := by
  induction left generalizing x with
  | zero => exact Nat.le_refl 0
  | succ left ih =>
    unfold runLength
    split
    · exact Nat.succ_le_succ (ih (x + 1))
    · exact Nat.zero_le _

theorem runLength_same (v y left x : Nat) {i : Nat} (inside : i < runLength g words y v left x) :
    screenValue g words (x + i) y = v := by
  induction left generalizing x i with
  | zero => exact absurd inside (Nat.not_lt_zero i)
  | succ left ih =>
    unfold runLength at inside
    split at inside
    · rename_i same
      cases i with
      | zero => exact same
      | succ i =>
        rw [show x + (i + 1) = x + 1 + i by omega]
        exact ih (x + 1) (by omega)
    · exact absurd inside (Nat.not_lt_zero i)

/-- Subrectangles drawn over a rectangle at a place. -/
def drawSubrects (rx ry : Nat) (fb : Framebuffer) (subrects : List Subrect) : Framebuffer :=
  subrects.foldl (fun fb s => fb.fill (rx + s.x) (ry + s.y) s.w 1 s.pixel) fb

theorem draw_row (rx ry y background left x : Nat) (fb : Framebuffer) (right : rx ≤ x) (below : ry ≤ y)
    (blank : ∀ X, x ≤ X → X < x + left → fb X y = some (px.one background)) :
    drawSubrects rx ry fb (rreRow g px words y rx ry background left x) =
      shown g px words fb x y left 1 := by
  induction left using Nat.strongRecOn generalizing x fb with
  | ind left ih =>
    match left with
    | 0 =>
      unfold rreRow
      funext X Y
      unfold shown
      rw [if_neg (by unfold Within; omega)]
      rfl
    | left + 1 =>
      unfold rreRow
      dsimp only
      by_cases same : screenValue g words x y = background
      · rw [if_pos same, ih left (by omega) (x + 1) fb (by omega)
          (fun X low high => blank X (by omega) (by omega))]
        funext X Y
        unfold shown
        by_cases first : X = x ∧ Y = y
        · -- The background shows the pixel already.
          rw [first.1, first.2, if_neg (by unfold Within; omega), if_pos (by unfold Within; omega),
            same]
          exact blank x (by omega) (by omega)
        · have alike : Within (x + 1) y left 1 X Y ↔ Within x y (left + 1) 1 X Y := by
            unfold Within
            omega
          simp only [alike]
      · rw [if_neg same]
        have fits := runLength_le g words (screenValue g words x y) y left (x + 1)
        have value : ∀ X, x ≤ X →
            X < x + (runLength g words y (screenValue g words x y) left (x + 1) + 1) →
            screenValue g words X y = screenValue g words x y := by
          intro X low high
          by_cases first : X = x
          · rw [first]
          · have run := runLength_same g words (screenValue g words x y) y left (x + 1)
              (i := X - (x + 1)) (by omega)
            rwa [show x + 1 + (X - (x + 1)) = X by omega] at run
        revert value
        generalize runLength g words y (screenValue g words x y) left (x + 1) = run at fits ⊢
        intro value
        let painted := fb.fill x y (run + 1) 1 (px.one (screenValue g words x y))
        have rest := ih (left + 1 - (run + 1)) (by omega) (x + (run + 1)) painted (by omega)
          (fun X low high => by
            rw [show painted X y = fb X y from if_neg (by unfold Within; omega)]
            exact blank X (by omega) (by omega))
        have start : drawSubrects rx ry fb
            (⟨px.one (screenValue g words x y), x - rx, y - ry, run + 1⟩ ::
              rreRow g px words y rx ry background (left + 1 - (run + 1)) (x + (run + 1))) =
            drawSubrects rx ry painted
              (rreRow g px words y rx ry background (left + 1 - (run + 1)) (x + (run + 1))) := by
          unfold drawSubrects
          rw [List.foldl_cons]
          dsimp only
          rw [Nat.add_sub_cancel' right, Nat.add_sub_cancel' below]
        rw [start, rest]
        funext X Y
        unfold shown
        by_cases later : Within (x + (run + 1)) y (left + 1 - (run + 1)) 1 X Y
        · rw [if_pos later, if_pos (by unfold Within at later ⊢; omega)]
        · rw [if_neg later]
          by_cases now : Within x y (run + 1) 1 X Y
          · rw [show painted X Y = some (px.one (screenValue g words x y)) from if_pos now,
              if_pos (by unfold Within at now ⊢; omega)]
            obtain ⟨low, high, top, bottom⟩ := now
            rw [show Y = y by omega, value X low high]
          · rw [show painted X Y = fb X Y from if_neg now,
              if_neg (by unfold Within at later now ⊢; omega)]

theorem draw_rows (rx ry rw_ background y h : Nat) (fb : Framebuffer) (below : ry ≤ y)
    (blank : ∀ X Y, Within rx y rw_ h X Y → fb X Y = some (px.one background)) :
    drawSubrects rx ry fb
      ((List.range' y h).flatMap fun y => rreRow g px words y rx ry background rw_ rx) =
      shown g px words fb rx y rw_ h := by
  induction h generalizing y fb with
  | zero =>
    funext X Y
    unfold shown
    rw [if_neg (by unfold Within; omega)]
    rfl
  | succ h ih =>
    have first := draw_row g px words rx ry y background rw_ rx fb (Nat.le_refl rx) below
      (fun X low high => blank X y ⟨low, high, by omega, by omega⟩)
    rw [List.range'_succ, List.flatMap_cons]
    unfold drawSubrects at first ih ⊢
    rw [List.foldl_append, first, ih (y + 1) _ (by omega)]
    · funext X Y
      unfold shown
      by_cases lower : Within rx (y + 1) rw_ h X Y
      · rw [if_pos lower, if_pos (by unfold Within at lower ⊢; omega)]
      · rw [if_neg lower]
        by_cases now : Within rx y rw_ 1 X Y
        · rw [if_pos now, if_pos (by unfold Within at now ⊢; omega)]
        · rw [if_neg now, if_neg (by unfold Within at lower now ⊢; omega)]
    · intro X Y inside
      unfold shown
      rw [if_neg (by unfold Within at inside ⊢; omega)]
      exact blank X Y (by unfold Within at inside ⊢; omega)

theorem draw_rre (fb : Framebuffer) (x y w h background : Nat) :
    fb.draw ⟨x, y, w, h, .rre (px.one background) (rreWalk g px words x y w h background)⟩ =
      shown g px words fb x y w h := by
  have rows := draw_rows g px words x y w background y h (fb.fill x y w h (px.one background))
    (Nat.le_refl y) (fun X Y inside => if_pos inside)
  refine rows.trans ?_
  funext X Y
  unfold shown
  by_cases inside : Within x y w h X Y
  · rw [if_pos inside, if_pos inside]
  · rw [if_neg inside, if_neg inside]
    exact if_neg inside

end Rectangles

end MuirFpga.Terminal
