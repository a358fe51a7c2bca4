import Mathlib.Data.List.Basic
import MuirFpga.Terminal.Drawn

/-!
# The encodings, in bytes

What `encode_raw` and the RRE branch of `answer` append, byte for byte, and what a viewer reads back out of them by
RFC 6143. Memory for the bytes is always found.
-/

namespace MuirFpga.Terminal

/-- A subrectangle's bytes: its pixel, then `x`, `y`, `w` and `h`. -/
def Subrect.encode (s : Subrect) : List Byte :=
  s.pixel ++ be16 (BitVec.ofNat 16 s.x) ++ be16 (BitVec.ofNat 16 s.y) ++ be16 (BitVec.ofNat 16 s.w) ++ [0#8, 1#8]

section Walk

variable (g : Geometry) (px : PixelTable) (words : Nat → BitVec 32)

/-- What `encode_raw` appends. -/
def rawBytes (rx ry rw rh : Nat) : List Byte := (encodeRaw g px words rx ry rw rh).flatten

/-- A row of `rre_walk`, the count so far and `out` in hand: `none` where it only counts. -/
def walkRow (rx ry y background : Nat) : Nat → Nat → Nat × Option (List Byte) → Nat × Option (List Byte)
  | 0, _, done => done
  | left + 1, x, (subrects, out) =>
    let v := screenValue g words x y
    if v = background then walkRow rx ry y background left (x + 1) (subrects, out)
    else
      let run := runLength g words y v left (x + 1) + 1
      let head := Subrect.encode ⟨px.one v, x - rx, y - ry, run⟩
      walkRow rx ry y background (left + 1 - run) (x + run) (subrects + 1, out.map (· ++ head))
termination_by left => left

/-- `rre_walk`. -/
def walk (out : Option (List Byte)) (rx ry rw rh background : Nat) : Nat × Option (List Byte) :=
  (List.range' ry rh).foldl (fun done y => walkRow g px words rx ry y background rw rx done) (0, out)

/-- What the RRE branch of `answer` appends, and the subrectangles it first counted. The count goes in over four
zeros when the second walk is over. -/
def rreBytes (rx ry rw rh : Nat) : List Byte × Nat :=
  let background := rreBackground g words rx ry rw rh
  let counted := (walk g px words none rx ry rw rh background).1
  let start := [0#8, 0#8, 0#8, 0#8] ++ px.one background
  let (subrects, out) := walk g px words (some start) rx ry rw rh background
  (be32 (BitVec.ofNat 32 subrects) ++ (out.getD []).drop 4, counted)

end Walk

/-- A subrectangle as a viewer reads it. -/
structure Painted where
  pixel : List Byte
  x : Nat
  y : Nat
  w : Nat
  h : Nat

/-- A place in it, of its rectangle's. -/
def Painted.Covers (s : Painted) (x y : Nat) : Prop := Within s.x s.y s.w s.h x y

section Viewer

/-- A viewer's pixel of a Raw rectangle. -/
def rawRead (n w : Nat) (bytes : List Byte) (x y : Nat) : List Byte := (bytes.drop ((y * w + x) * n)).take n

/-- A viewer's subrectangle. -/
def subrectRead (n : Nat) (bytes : List Byte) : Painted :=
  ⟨bytes.take n, (rd16 bytes n).toNat, (rd16 bytes (n + 2)).toNat, (rd16 bytes (n + 4)).toNat,
    (rd16 bytes (n + 6)).toNat⟩

/-- A viewer's background and subrectangles. -/
def rreRead (n : Nat) (bytes : List Byte) : List Byte × List Painted :=
  ((bytes.drop 4).take n,
    (List.range (rd32 bytes 0).toNat).map fun k => subrectRead n (bytes.drop (4 + n + k * (n + 8))))

/-- What it shows of them at a place of the rectangle: the last subrectangle over it, or the background. -/
def paintedAt (rre : List Byte × List Painted) (x y : Nat) : List Byte :=
  rre.2.foldl (fun shown s => if Within s.x s.y s.w s.h x y then s.pixel else shown) rre.1

end Viewer

section Bytes

theorem be16_length (v : BitVec 16) : (be16 v).length = 2 := rfl

theorem Subrect.encode_length (s : Subrect) : s.encode.length = s.pixel.length + 8 := by
  unfold Subrect.encode
  simp only [List.length_append, be16_length, List.length_cons, List.length_nil]

theorem rd32_append (v : BitVec 32) (rest : List Byte) : rd32 (be32 v ++ rest) 0 = v := be32_joined v

theorem rd16_behind (front rest : List Byte) (place : Nat) :
    rd16 (front ++ rest) (front.length + place) = rd16 rest place := by
  unfold rd16
  rw [Nat.add_assoc, List.getD_append_right _ _ _ _ (Nat.le_add_right _ _),
    List.getD_append_right _ _ _ _ (Nat.le_add_right _ _), Nat.add_sub_cancel_left, Nat.add_sub_cancel_left]

theorem ofNat16_toNat {v : Nat} (below : v < 65536) : (BitVec.ofNat 16 v).toNat = v := by
  rw [BitVec.toNat_ofNat]
  exact Nat.mod_eq_of_lt below

theorem subrectRead_encode {n : Nat} (s : Subrect) (rest : List Byte) (length : s.pixel.length = n)
    (x : s.x < 65536) (y : s.y < 65536) (w : s.w < 65536) :
    subrectRead n (s.encode ++ rest) = ⟨s.pixel, s.x, s.y, s.w, 1⟩ := by
  subst length
  let fields := be16 (BitVec.ofNat 16 s.x) ++ (be16 (BitVec.ofNat 16 s.y) ++ (be16 (BitVec.ofNat 16 s.w) ++
    ([0#8, 1#8] ++ rest)))
  have whole : s.encode ++ rest = s.pixel ++ fields := by
    unfold Subrect.encode
    rw [List.append_assoc, List.append_assoc, List.append_assoc, List.append_assoc]
  have atX : rd16 (s.pixel ++ fields) (s.pixel.length + 0) = BitVec.ofNat 16 s.x :=
    (rd16_behind s.pixel fields 0).trans (be16_joined _)
  have atY : rd16 (s.pixel ++ fields) (s.pixel.length + 2) = BitVec.ofNat 16 s.y :=
    (rd16_behind s.pixel fields 2).trans (be16_joined _)
  have atW : rd16 (s.pixel ++ fields) (s.pixel.length + 4) = BitVec.ofNat 16 s.w :=
    (rd16_behind s.pixel fields 4).trans (be16_joined _)
  have atH : rd16 (s.pixel ++ fields) (s.pixel.length + 6) = 1#16 :=
    (rd16_behind s.pixel fields 6).trans (be16_joined 1#16)
  unfold subrectRead
  rw [Nat.add_zero] at atX
  rw [whole, atX, atY, atW, atH, ofNat16_toNat x, ofNat16_toNat y, ofNat16_toNat w, List.take_left]
  rfl

theorem drop_flatMap {α β : Type} (piece : α → List β) (n : Nat) (items : List α)
    (even : ∀ item ∈ items, (piece item).length = n) (k : Nat) :
    (items.flatMap piece).drop (k * n) = (items.drop k).flatMap piece := by
  induction items generalizing k with
  | nil => rw [List.flatMap_nil, List.drop_nil, List.drop_nil, List.flatMap_nil]
  | cons item items ih =>
    cases k with
    | zero => rw [Nat.zero_mul, List.drop_zero, List.drop_zero]
    | succ k =>
      have first := even item List.mem_cons_self
      rw [List.flatMap_cons, Nat.succ_mul, Nat.add_comm, ← first, List.drop_length_add_append, first,
        List.drop_succ_cons]
      exact ih (fun other among => even other (List.mem_cons_of_mem _ among)) k

theorem length_flatMap_even {α β : Type} (piece : α → List β) (n : Nat) (items : List α)
    (even : ∀ item ∈ items, (piece item).length = n) : (items.flatMap piece).length = items.length * n := by
  induction items with
  | nil => exact (Nat.zero_mul n).symm
  | cons item items ih =>
    rw [List.flatMap_cons, List.length_append, ih fun other among => even other (List.mem_cons_of_mem _ among),
      even item List.mem_cons_self, List.length_cons, Nat.succ_mul, Nat.add_comm]

end Bytes

section Counted

variable (g : Geometry) (px : PixelTable) (words : Nat → BitVec 32) {rx ry y background : Nat}

theorem walkRow_eq (left x subrects : Nat) (out : Option (List Byte)) :
    walkRow g px words rx ry y background left x (subrects, out)
      = (subrects + (rreRow g px words y rx ry background left x).length,
        out.map (· ++ (rreRow g px words y rx ry background left x).flatMap Subrect.encode)) := by
  induction left using Nat.strongRecOn generalizing x subrects out with
  | ind left ih =>
    match left with
    | 0 =>
      rw [walkRow, rreRow]
      cases out with
      | none => rfl
      | some out => exact congrArg (fun out => (subrects, some out)) (List.append_nil out).symm
    | left + 1 =>
      rw [walkRow, rreRow]
      dsimp only
      split
      · exact ih left (Nat.lt_succ_self left) _ _ _
      · rw [ih _ (by omega), List.length_cons, List.flatMap_cons]
        refine Prod.ext (by dsimp only; omega) ?_
        cases out with
        | none => rfl
        | some out => exact congrArg some (List.append_assoc _ _ _)

theorem walk_eq (out : Option (List Byte)) (rx ry rw_ rh background : Nat) :
    walk g px words out rx ry rw_ rh background
      = ((rreWalk g px words rx ry rw_ rh background).length,
        out.map (· ++ (rreWalk g px words rx ry rw_ rh background).flatMap Subrect.encode)) := by
  have rows (ys : List Nat) (subrects : Nat) (out : Option (List Byte)) :
      ys.foldl (fun done y => walkRow g px words rx ry y background rw_ rx done) (subrects, out)
        = (subrects + (ys.flatMap fun y => rreRow g px words y rx ry background rw_ rx).length,
          out.map (· ++ (ys.flatMap fun y => rreRow g px words y rx ry background rw_ rx).flatMap Subrect.encode)) := by
    induction ys generalizing subrects out with
    | nil =>
      cases out with
      | none => rfl
      | some out => exact congrArg (fun out => (subrects, some out)) (List.append_nil out).symm
    | cons y ys ih =>
      rw [List.foldl_cons, walkRow_eq, ih, List.flatMap_cons, List.length_append, List.flatMap_append, Nat.add_assoc]
      cases out with
      | none => rfl
      | some out => exact congrArg (fun out => (_, some out)) (List.append_assoc _ _ _)
  exact (rows _ 0 out).trans (by rw [Nat.zero_add]; rfl)

theorem rreRow_within (left x : Nat) (right : rx ≤ x) :
    ∀ s ∈ rreRow g px words y rx ry background left x,
      x - rx ≤ s.x ∧ 0 < s.w ∧ s.x + s.w ≤ x - rx + left ∧ s.y = y - ry ∧ ∃ v, s.pixel = px.one v := by
  induction left using Nat.strongRecOn generalizing x with
  | ind left ih =>
    match left with
    | 0 =>
      rw [rreRow]
      exact fun s among => absurd among List.not_mem_nil
    | left + 1 =>
      rw [rreRow]
      dsimp only
      have fits := runLength_le g words (screenValue g words x y) y left (x + 1)
      split
      · intro s among
        have later := ih left (Nat.lt_succ_self left) (x + 1) (by omega) s among
        exact ⟨by omega, later.2.1, by omega, later.2.2.2⟩
      · intro s among
        rcases List.mem_cons.mp among with rfl | behind
        · exact ⟨Nat.le_refl _, Nat.succ_pos _, by dsimp only; omega, rfl, _, rfl⟩
        · have later := ih _ (by omega) _ (by omega) s behind
          exact ⟨by omega, later.2.1, by omega, later.2.2.2⟩

theorem rreRow_apart (left x : Nat) (right : rx ≤ x) :
    (rreRow g px words y rx ry background left x).Pairwise fun s t => s.x + s.w ≤ t.x := by
  induction left using Nat.strongRecOn generalizing x with
  | ind left ih =>
    match left with
    | 0 =>
      rw [rreRow]
      exact List.Pairwise.nil
    | left + 1 =>
      rw [rreRow]
      dsimp only
      split
      · exact ih left (Nat.lt_succ_self left) (x + 1) (by omega)
      · refine List.Pairwise.cons ?_ (ih _ (by omega) _ (by omega))
        intro t behind
        have later := (rreRow_within g px words _ _ (by omega) t behind).1
        dsimp only
        omega

theorem rreRow_length (left x : Nat) : (rreRow g px words y rx ry background left x).length ≤ left := by
  induction left using Nat.strongRecOn generalizing x with
  | ind left ih =>
    match left with
    | 0 =>
      rw [rreRow]
      exact Nat.le_refl 0
    | left + 1 =>
      rw [rreRow]
      dsimp only
      split
      · exact Nat.le_succ_of_le (ih left (Nat.lt_succ_self left) (x + 1))
      · have rest := ih (left + 1 - (runLength g words y (screenValue g words x y) left (x + 1) + 1)) (by omega)
          (x + (runLength g words y (screenValue g words x y) left (x + 1) + 1))
        rw [List.length_cons]
        omega

variable (rx ry) (rw_ rh background : Nat)

theorem rreWalk_within :
    ∀ s ∈ rreWalk g px words rx ry rw_ rh background,
      0 < s.w ∧ s.x + s.w ≤ rw_ ∧ s.y < rh ∧ ∃ v, s.pixel = px.one v := by
  intro s among
  obtain ⟨y, row, there⟩ := List.mem_flatMap.mp among
  obtain ⟨-, some_, last, down, pixel⟩ := rreRow_within g px words rw_ rx (Nat.le_refl rx) s there
  have below := List.mem_range'_1.mp row
  exact ⟨some_, by omega, by omega, pixel⟩

theorem rreWalk_apart :
    (rreWalk g px words rx ry rw_ rh background).Pairwise fun s t => s.y < t.y ∨ s.x + s.w ≤ t.x := by
  refine List.pairwise_flatMap.mpr ⟨?_, ?_⟩
  · intro y _
    exact (rreRow_apart g px words rw_ rx (Nat.le_refl rx)).imp fun apart => .inr apart
  · refine (List.pairwise_lt_range' (s := ry) (n := rh)).imp_of_mem ?_
    intro y y' row _ lower s among t among'
    have here := (rreRow_within g px words rw_ rx (Nat.le_refl rx) s among).2.2.2.1
    have there := (rreRow_within g px words rw_ rx (Nat.le_refl rx) t among').2.2.2.1
    have top := (List.mem_range'_1.mp row).1
    exact .inl (by omega)

theorem rreWalk_length : (rreWalk g px words rx ry rw_ rh background).length ≤ rh * rw_ := by
  have rows (ys : List Nat) :
      (ys.flatMap fun y => rreRow g px words y rx ry background rw_ rx).length ≤ ys.length * rw_ := by
    induction ys with
    | nil => exact Nat.zero_le _
    | cons y ys ih =>
      have first := @rreRow_length g px words rx ry y background rw_ rx
      rw [List.flatMap_cons, List.length_append, List.length_cons, Nat.succ_mul]
      omega
  have all := rows (List.range' ry rh)
  rwa [List.length_range'] at all

end Counted

section Read

theorem rreRead_bytes {n : Nat} {subrects : List Subrect} {background : List Byte} (few : subrects.length < 4294967296)
    (pixel : background.length = n)
    (fit : ∀ s ∈ subrects, s.pixel.length = n ∧ s.x < 65536 ∧ s.y < 65536 ∧ s.w < 65536) :
    rreRead n (be32 (BitVec.ofNat 32 subrects.length) ++ (background ++ subrects.flatMap Subrect.encode))
      = (background, subrects.map fun s => ⟨s.pixel, s.x, s.y, s.w, 1⟩) := by
  have even : ∀ s ∈ subrects, s.encode.length = n + 8 := fun s among => by
    rw [s.encode_length, (fit s among).1]
  have count : (BitVec.ofNat 32 subrects.length).toNat = subrects.length := by
    rw [BitVec.toNat_ofNat]
    exact Nat.mod_eq_of_lt few
  unfold rreRead
  rw [rd32_append, count]
  refine Prod.ext ?_ ?_
  · show (background ++ _).take n = background
    rw [← pixel, List.take_left]
  · apply List.ext_getElem
    · rw [List.length_map, List.length_map, List.length_range]
    · intro k below below'
      rw [List.length_map] at below'
      rw [List.getElem_map, List.getElem_range, List.getElem_map]
      have behind : (be32 (BitVec.ofNat 32 subrects.length)
          ++ (background ++ subrects.flatMap Subrect.encode)).drop (4 + n + k * (n + 8))
            = subrects[k].encode ++ (subrects.drop (k + 1)).flatMap Subrect.encode := by
        rw [← List.drop_drop, ← List.drop_drop]
        show (((background ++ _).drop n)).drop _ = _
        rw [← pixel, List.drop_left, pixel, drop_flatMap _ _ _ even, List.drop_eq_getElem_cons below',
          List.flatMap_cons]
      obtain ⟨length, x, y, w⟩ := fit subrects[k] (List.getElem_mem below')
      rw [behind, subrectRead_encode _ _ length x y w]

theorem drawSubrects_painted (rx ry : Nat) (fb : Framebuffer) (subrects : List Subrect) (background : List Byte)
    {x y : Nat} (under : fb (rx + x) (ry + y) = some background) :
    drawSubrects rx ry fb subrects (rx + x) (ry + y)
      = some (paintedAt (background, subrects.map fun s => ⟨s.pixel, s.x, s.y, s.w, 1⟩) x y) := by
  induction subrects generalizing fb background with
  | nil => exact under
  | cons s subrects ih =>
    have past : Within (rx + s.x) (ry + s.y) s.w 1 (rx + x) (ry + y) ↔ Within s.x s.y s.w 1 x y := by
      unfold Within
      omega
    by_cases inside : Within s.x s.y s.w 1 x y
    · have next := ih (fb.fill (rx + s.x) (ry + s.y) s.w 1 s.pixel) s.pixel (if_pos (past.mpr inside))
      refine next.trans ?_
      unfold paintedAt
      rw [List.map_cons, List.foldl_cons, if_pos inside]
    · have next := ih (fb.fill (rx + s.x) (ry + s.y) s.w 1 s.pixel) background
        ((if_neg fun there => inside (past.mp there)).trans under)
      refine next.trans ?_
      unfold paintedAt
      rw [List.map_cons, List.foldl_cons, if_neg inside]

end Read

section Formats

variable (g : Geometry) (f : Format) (map : Nat → Byte × Byte × Byte) (words : Nat → BitVec 32)

theorem rfbPut_length (value : BitVec 32) :
    (rfbPut f value).length = if bytesPerPixel f = 0 then 4 else bytesPerPixel f := by
  have four : (be32 value).length = 4 := rfl
  have le : bytesPerPixel f ≤ 4 := by
    unfold bytesPerPixel
    grind
  unfold rfbPut
  dsimp only
  split
  · rw [List.length_drop, four]
    grind
  · rw [List.length_take, List.length_reverse, four]
    grind

theorem one_length (v : Nat) : ((pixelsMake g f map).one v).length = (pixelsMake g f map).n := rfbPut_length f _

/-- A pixel by the plain rule. -/
def plainPixel (x y : Nat) : List Byte := rfbPut f (rfbPixel f map (screenValue g words x y) g.values)

theorem one_plain (x y : Nat) : (pixelsMake g f map).one (screenValue g words x y) = plainPixel g f map words x y :=
  one_screenValue g (pixelsMake g f map) words y x

theorem rawBytes_plain (rx ry rw_ rh : Nat) :
    rawBytes g (pixelsMake g f map) words rx ry rw_ rh
      = (List.range' ry rh).flatMap fun y => (List.range' rx rw_).flatMap fun x => plainPixel g f map words x y := by
  unfold rawBytes encodeRaw
  rw [← List.flatMap_id, List.flatMap_assoc]
  refine List.flatMap_congr fun y _ => ?_
  rw [rowStart_eq, List.flatMap_map]
  exact List.flatMap_congr fun x _ => one_plain g f map words x y

theorem rawRead_plain (rx ry rw_ rh : Nat) {x y : Nat} (right : x < rw_) (lower : y < rh) :
    rawRead (pixelsMake g f map).n rw_ (rawBytes g (pixelsMake g f map) words rx ry rw_ rh) x y
      = plainPixel g f map words (rx + x) (ry + y) := by
  let row (y : Nat) : List (List Byte) := (List.range' rx rw_).map fun x => plainPixel g f map words x y
  have rows : rawBytes g (pixelsMake g f map) words rx ry rw_ rh = ((List.range' ry rh).flatMap row).flatMap id := by
    rw [rawBytes_plain, List.flatMap_assoc]
    refine List.flatMap_congr fun y _ => ?_
    rw [List.flatMap_map]
    rfl
  have even : ∀ pixel ∈ (List.range' ry rh).flatMap row, (id pixel).length = (pixelsMake g f map).n := by
    intro pixel among
    obtain ⟨y, -, there⟩ := List.mem_flatMap.mp among
    obtain ⟨x, -, rfl⟩ := List.mem_map.mp there
    exact rfbPut_length f _
  have there : ((List.range' ry rh).flatMap row)[y * rw_ + x]? = some (plainPixel g f map words (rx + x) (ry + y)) := by
    rw [getElem?_rows row (fun y => by rw [List.length_map, List.length_range']) ry rh y x lower right,
      List.getElem?_map, List.getElem?_range' right, Nat.one_mul]
    rfl
  obtain ⟨below, same⟩ := List.getElem?_eq_some_iff.mp there
  unfold rawRead
  have length : (plainPixel g f map words (rx + x) (ry + y)).length = (pixelsMake g f map).n := rfbPut_length f _
  rw [rows, drop_flatMap id _ _ even, List.drop_eq_getElem_cons below, List.flatMap_cons, same, id, ← length]
  exact List.take_left

theorem wide_le : g.width ≤ 1920 := by
  have shape := g.shape
  unfold Geometry.width
  split
  · rename_i color
    rw [if_pos color] at shape
    omega
  · rename_i mono
    rw [if_neg mono] at shape
    omega

theorem tall_le : g.height ≤ 1080 := by
  have shape := g.shape
  split at shape <;> omega

/-- **The two encodings agree.** Of any rectangle inside a screen, in any format: Raw's bytes are the plain rule's,
pixel after pixel. RRE's are as many as was reckoned from the subrectangles first counted, which is the count at
their front; the subrectangles read out of them have something in them, are inside the rectangle and do not meet;
and painted over the background they show what Raw's do. -/
theorem encodings_agree {rx ry rw_ rh : Nat} (right : rx + rw_ ≤ g.width) (bottom : ry + rh ≤ g.height) :
    let px := pixelsMake g f map
    let raw := rawBytes g px words rx ry rw_ rh
    let rre := rreBytes g px words rx ry rw_ rh
    let read := rreRead px.n rre.1
    raw = ((List.range' ry rh).flatMap fun y => (List.range' rx rw_).flatMap fun x =>
        rfbPut f (rfbPixel f map (screenValue g words x y) g.values))
      ∧ rre.1.length = 4 + px.n + rre.2 * (px.n + 8) ∧ (rd32 rre.1 0).toNat = rre.2 ∧ read.2.length = rre.2
      ∧ (∀ s ∈ read.2, 0 < s.w ∧ 0 < s.h ∧ s.x + s.w ≤ rw_ ∧ s.y + s.h ≤ rh)
      ∧ read.2.Pairwise (fun s t => ∀ x y, s.Covers x y → ¬t.Covers x y)
      ∧ ∀ x < rw_, ∀ y < rh, paintedAt read x y = rawRead px.n rw_ raw x y := by
  intro px raw rre read
  let background := rreBackground g words rx ry rw_ rh
  let subrects := rreWalk g px words rx ry rw_ rh background
  have wide := wide_le g
  have tall := tall_le g
  have few : subrects.length < 4294967296 := by
    have most := Nat.mul_le_mul (show rh ≤ 1080 by omega) (show rw_ ≤ 1920 by omega)
    exact Nat.lt_of_le_of_lt (rreWalk_length g px words rx ry rw_ rh background) (by omega)
  have fit : ∀ s ∈ subrects, s.pixel.length = px.n ∧ s.x < 65536 ∧ s.y < 65536 ∧ s.w < 65536 := by
    intro s among
    obtain ⟨some_, last, down, v, pixel⟩ := rreWalk_within g px words rx ry rw_ rh background s among
    refine ⟨?_, by omega, by omega, by omega⟩
    rw [pixel]
    exact one_length g f map v
  have bytes : rre = (be32 (BitVec.ofNat 32 subrects.length) ++ (px.one background ++ subrects.flatMap Subrect.encode),
      subrects.length) := by
    show rreBytes g px words rx ry rw_ rh = _
    unfold rreBytes
    dsimp only
    rw [walk_eq, walk_eq]
    rfl
  have seen : read = (px.one background, subrects.map fun s => ⟨s.pixel, s.x, s.y, s.w, 1⟩) := by
    show rreRead px.n rre.1 = _
    rw [bytes]
    exact rreRead_bytes few (one_length g f map background) fit
  refine ⟨rawBytes_plain g f map words rx ry rw_ rh, ?_, ?_, ?_, ?_, ?_, ?_⟩
  · rw [bytes]
    dsimp only
    rw [List.length_append, List.length_append, length_flatMap_even _ (px.n + 8) _ fun s among => by
      rw [s.encode_length, (fit s among).1], one_length, ← Nat.add_assoc]
    rfl
  · rw [bytes]
    dsimp only
    rw [rd32_append, BitVec.toNat_ofNat]
    exact Nat.mod_eq_of_lt few
  · rw [seen, bytes]
    exact List.length_map _
  · rw [seen]
    intro s among
    obtain ⟨t, there, rfl⟩ := List.mem_map.mp among
    obtain ⟨some_, last, down, -⟩ := rreWalk_within g px words rx ry rw_ rh background t there
    exact ⟨some_, Nat.one_pos, last, down⟩
  · rw [seen]
    refine List.pairwise_map.mpr ((rreWalk_apart g px words rx ry rw_ rh background).imp ?_)
    intro s t apart x y past over'
    unfold Painted.Covers Within at past over'
    dsimp only at past over'
    omega
  · intro x inside y inside'
    have drawn := drawSubrects_painted rx ry (Framebuffer.fill (fun _ _ => none) rx ry rw_ rh (px.one background))
      subrects (px.one background) (x := x) (y := y) (if_pos (by unfold Within; omega))
    have rows := draw_rows g px words rx ry rw_ background ry rh
      (Framebuffer.fill (fun _ _ => none) rx ry rw_ rh (px.one background)) (Nat.le_refl ry)
      (fun X Y within => if_pos within)
    have shown_ : shown g px words (Framebuffer.fill (fun _ _ => none) rx ry rw_ rh (px.one background)) rx ry rw_ rh
        (rx + x) (ry + y) = some (px.one (screenValue g words (rx + x) (ry + y))) := if_pos (by unfold Within; omega)
    have same := drawn.symm.trans ((congrFun (congrFun rows (rx + x)) (ry + y)).trans shown_)
    rw [seen, Option.some.inj same, rawRead_plain g f map words rx ry rw_ rh inside inside']
    exact one_plain g f map words _ _

/-- Of a rectangle that begins and ends inside bytes of an inverted screen. -/
theorem encodings_agree_ragged :
    let g : Geometry := ⟨false, 1, 2, true, by decide⟩
    let px := pixelsMake g rgb888 fun _ => (0#8, 0#8, 0#8)
    let words : Nat → BitVec 32 := fun _ => 0x00F0#32
    3 + 9 ≤ g.width ∧ 0 + 2 ≤ g.height
      ∧ ∀ x < 9, ∀ y < 2,
        paintedAt (rreRead px.n (rreBytes g px words 3 0 9 2).1) x y
          = rawRead px.n 9 (rawBytes g px words 3 0 9 2) x y :=
  ⟨by decide, by decide,
    (encodings_agree ⟨false, 1, 2, true, by decide⟩ rgb888 (fun _ => (0#8, 0#8, 0#8)) (fun _ => 0x00F0#32)
      (by decide) (by decide)).2.2.2.2.2.2⟩

end Formats

end MuirFpga.Terminal
