import MuirFpga.Terminal.Answer
import Mathlib.Tactic.SplitIfs

/-!
# A viewer converges on the machine's screen

What a viewer was sent is remembered as one whole frame, and an answer is only of what was asked for. So
a viewer shows what is remembered wherever it has asked, as long as what it asked for before and is not
in the answer is what it was.
-/

namespace MuirFpga.Terminal

/-- In one of the rows of a run. -/
def Run.Holds (r : Run) (row : Nat) : Prop := r.row ≤ row ∧ row < r.row + r.len

instance (r : Run) (row : Nat) : Decidable (r.Holds row) := by
  unfold Run.Holds
  infer_instance

section Runs

variable (g : Geometry) (words was : Nat → BitVec 32) {max : Nat}

theorem holds_longer (r : Run) (row : Nat) :
    Run.Holds { r with len := r.len + 1 } row ↔ r.Holds row ∨ row = r.row + r.len := by
  unfold Run.Holds
  dsimp only
  omega

theorem mem_changedFrom (left row : Nat) (runs : List Run) (few : runs.length ≤ row)
    (room : row + left ≤ max) (at_ : Nat) :
    (∃ r ∈ changedFrom g words was max left row runs, r.Holds at_) ↔
      (∃ r ∈ runs, r.Holds at_) ∨
        row ≤ at_ ∧ at_ < row + left ∧ rowChanged g words was at_ = true := by
  induction left generalizing row runs with
  | zero =>
    unfold changedFrom
    simp only [List.mem_reverse]
    constructor
    · exact Or.inl
    · intro either
      refine either.resolve_right ?_
      rintro ⟨low, high, -⟩
      omega
  | succ left ih =>
    -- Of the rows from here on, this one and those after it.
    have split : (row ≤ at_ ∧ at_ < row + (left + 1) ∧ rowChanged g words was at_ = true) ↔
        (at_ = row ∧ rowChanged g words was row = true) ∨
          (row + 1 ≤ at_ ∧ at_ < row + 1 + left ∧ rowChanged g words was at_ = true) := by
      constructor
      · rintro ⟨low, high, changed⟩
        by_cases here : at_ = row
        · exact Or.inl ⟨here, here ▸ changed⟩
        · exact Or.inr ⟨by omega, by omega, changed⟩
      · rintro (⟨here, changed⟩ | ⟨low, high, changed⟩)
        · exact ⟨by omega, by omega, here ▸ changed⟩
        · exact ⟨by omega, by omega, changed⟩
    rw [split]
    unfold changedFrom
    cases changed : rowChanged g words was row with
    | false =>
      rw [if_pos (show (!false) = true from rfl), ih (row + 1) runs (by omega) (by omega)]
      simp
    | true =>
      rw [if_neg (by decide)]
      cases runs with
      | nil =>
        rw [if_neg (by omega), ih (row + 1) _ (by simp) (by omega)]
        have one : Run.Holds ⟨row, 1⟩ at_ ↔ at_ = row := by
          unfold Run.Holds
          dsimp only
          omega
        simp [one]
      | cons last before =>
        rw [List.length_cons] at few
        dsimp only
        by_cases joins : last.row + last.len = row
        · rw [if_pos joins, ih (row + 1) _ (by rw [List.length_cons]; omega) (by omega)]
          simp only [List.mem_cons, exists_eq_or_imp, holds_longer, joins, and_true]
          simp only [or_assoc, or_left_comm]
        · rw [if_neg joins, if_neg (by rw [List.length_cons]; omega),
            ih (row + 1) _ (by simp only [List.length_cons]; omega) (by omega)]
          have one : Run.Holds ⟨row, 1⟩ at_ ↔ at_ = row := by
            unfold Run.Holds
            dsimp only
            omega
          simp only [List.mem_cons, exists_eq_or_imp, one, and_true]
          simp only [or_assoc, or_left_comm]

theorem mem_changedRows (height : Nat) (room : height ≤ max) (at_ : Nat) :
    (∃ r ∈ changedRows g words was height max, r.Holds at_) ↔
      at_ < height ∧ rowChanged g words was at_ = true := by
  unfold changedRows
  rw [mem_changedFrom g words was height 0 [] (Nat.le_refl 0) (by omega)]
  simp

end Runs

theorem height_le (g : Geometry) : g.height ≤ maxHeight := by
  have shape := g.shape
  unfold maxHeight
  split at shape <;> omega

namespace ScreenViewer

section Clip

variable (g : Geometry) (rreOffered : Bool) (v : ScreenViewer) (f : Frame)

theorem ay_ah_le : v.ay g + v.ah g ≤ g.height := by
  unfold ay ah ay
  split <;> split <;> omega

theorem within_clipped {X Y : Nat} (across : X < g.width) (down : Y < g.height) :
    Within v.rx v.ry v.rw v.rh X Y ↔ Within (v.ax g) (v.ay g) (v.aw g) (v.ah g) X Y := by
  unfold Within ax ay aw ah ax ay
  split <;> split <;> split <;> split <;> omega

theorem holds_clip (r : Run) (at_ : Nat) :
    (∃ c, v.clip g r = some c ∧ c.Holds at_) ↔
      0 < v.aw g ∧ r.Holds at_ ∧ v.ay g ≤ at_ ∧ at_ < v.ay g + v.ah g := by
  unfold clip Run.Holds
  dsimp only
  constructor
  · rintro ⟨c, clipped, low, high⟩
    split_ifs at clipped with below above both <;> injection clipped with same <;>
      rw [← same] at low high <;> dsimp only at low high <;> omega
  · rintro ⟨some, ⟨low, high⟩, top, bottom⟩
    split_ifs with below above both <;>
      first
      | exact ⟨_, rfl, by dsimp only; omega, by dsimp only; omega⟩
      | omega

theorem len_clip (r : Run) {c : Run} (clipped : v.clip g r = some c) : 0 < c.len := by
  unfold clip at clipped
  dsimp only at clipped
  split_ifs at clipped with below above both <;> injection clipped with same <;>
    rw [← same] <;> dsimp only <;> omega

theorem holds_rects (at_ : Nat) :
    (∃ c ∈ (v.runs g f).filterMap (v.clip g), c.Holds at_) ↔
      0 < v.aw g ∧ v.ay g ≤ at_ ∧ at_ < v.ay g + v.ah g ∧
        (v.whole = true ∨ rowChanged g f.words v.was at_ = true) := by
  have clipped : (∃ c ∈ (v.runs g f).filterMap (v.clip g), c.Holds at_) ↔
      ∃ r ∈ v.runs g f, ∃ c, v.clip g r = some c ∧ c.Holds at_ := by
    simp only [List.mem_filterMap]
    constructor
    · rintro ⟨c, ⟨r, inside, same⟩, holds⟩
      exact ⟨r, inside, c, same, holds⟩
    · rintro ⟨r, inside, c, same, holds⟩
      exact ⟨c, ⟨r, inside, same⟩, holds⟩
  have bottom := v.ay_ah_le g
  rw [clipped]
  simp only [holds_clip]
  unfold runs
  cases whole : v.whole with
  | true =>
    rw [if_pos rfl]
    by_cases some : g.height ≠ 0
    · rw [if_pos some]
      simp only [List.mem_singleton, exists_eq_left, Run.Holds]
      constructor
      · rintro ⟨wide, -, low, high⟩
        exact ⟨wide, low, high, Or.inl trivial⟩
      · rintro ⟨wide, low, high, -⟩
        exact ⟨wide, ⟨by omega, by omega⟩, low, high⟩
    · rw [if_neg some]
      constructor
      · rintro ⟨r, inside, -⟩
        exact nomatch inside
      · rintro ⟨wide, low, high, -⟩
        omega
  | false =>
    rw [if_neg (by decide)]
    have rows := mem_changedRows g f.words v.was g.height (height_le g) at_
    constructor
    · rintro ⟨r, inside, wide, holds, low, high⟩
      exact ⟨wide, low, high, Or.inr (rows.mp ⟨r, inside, holds⟩).2⟩
    · rintro ⟨wide, low, high, changed⟩
      obtain ⟨r, inside, holds⟩ := rows.mpr ⟨by omega, changed.resolve_left (by decide)⟩
      exact ⟨r, inside, wide, holds, low, high⟩

theorem draw_rectangle (fb : Framebuffer) (r : Run) : fb.draw (v.rectangle g rreOffered f r) =
    shown g v.pixels f.words fb (v.ax g) r.row (v.aw g) r.len := by
  unfold rectangle
  dsimp only
  split
  · exact draw_rre g v.pixels f.words fb (v.ax g) r.row (v.aw g) r.len _
  · exact draw_raw g v.pixels f.words fb (v.ax g) r.row (v.aw g) r.len

theorem draw_rectangles (rects : List Run) (fb : Framebuffer) (X Y : Nat) :
    ((∃ c ∈ rects, c.Holds Y) → v.ax g ≤ X ∧ X < v.ax g + v.aw g →
      (rects.map (v.rectangle g rreOffered f)).foldl Framebuffer.draw fb X Y =
        some (v.pixels.one (screenValue g f.words X Y))) ∧
    (¬ ((∃ c ∈ rects, c.Holds Y) ∧ v.ax g ≤ X ∧ X < v.ax g + v.aw g) →
      (rects.map (v.rectangle g rreOffered f)).foldl Framebuffer.draw fb X Y = fb X Y) := by
  induction rects generalizing fb with
  | nil =>
    refine ⟨?_, fun _ => rfl⟩
    rintro ⟨c, inside, -⟩
    exact nomatch inside
  | cons r rects ih =>
    obtain ⟨drawn, left⟩ := ih (fb.draw (v.rectangle g rreOffered f r))
    rw [List.map_cons, List.foldl_cons]
    have once : fb.draw (v.rectangle g rreOffered f r) X Y =
        if r.Holds Y ∧ v.ax g ≤ X ∧ X < v.ax g + v.aw g then
          some (v.pixels.one (screenValue g f.words X Y))
        else fb X Y := by
      rw [draw_rectangle]
      unfold shown
      refine if_congr ?_ rfl rfl
      unfold Within Run.Holds
      omega
    constructor
    · rintro ⟨c, inside, holds⟩ across
      by_cases later : ∃ c ∈ rects, c.Holds Y
      · exact drawn later across
      · have here : r.Holds Y := by
          cases inside with
          | head => exact holds
          | tail _ inside => exact absurd ⟨c, inside, holds⟩ later
        rw [left (fun both => later both.1), once, if_pos ⟨here, across⟩]
    · intro outside
      have now : ¬ (r.Holds Y ∧ v.ax g ≤ X ∧ X < v.ax g + v.aw g) := fun both =>
        outside ⟨⟨r, List.mem_cons_self, both.1⟩, both.2⟩
      rw [left, once, if_neg now]
      rintro ⟨⟨c, inside, holds⟩, across⟩
      exact outside ⟨⟨c, List.mem_cons_of_mem r inside, holds⟩, across⟩

end Clip

end ScreenViewer

theorem value_of_unchanged (g : Geometry) {words was : Nat → BitVec 32} {X Y : Nat}
    (same : rowChanged g words was Y = false) (across : X < g.width) :
    screenValue g words X Y = screenValue g was X Y := by
  have word : ∀ k, k < g.wordsPerLine →
      words (Y * g.wordsPerLine + k) = was (Y * g.wordsPerLine + k) := by
    intro k inside
    unfold rowChanged at same
    have all := (Bool.not_eq_false' ..).mp same
    exact eq_of_beq (List.all_eq_true.mp all k (List.mem_range.mpr inside))
  unfold screenValue
  unfold Geometry.width at across
  cases color : g.color with
  | true =>
    have shape := g.shape
    rw [color, if_pos rfl] at shape across
    rw [if_pos rfl, if_pos rfl]
    unfold screenColorIndex
    have here := word (X / 8) (by omega)
    rw [shape.1] at here
    rw [here]
  | false =>
    rw [color, if_neg (by decide)] at across
    rw [if_neg (by decide), if_neg (by decide)]
    unfold screenLit
    dsimp only
    rw [show (Y * g.wordsPerLine * 32 + X) / 32 = Y * g.wordsPerLine + X / 32 by omega,
      word (X / 32) (by omega)]

namespace Screen

section Due

variable (g : Geometry) (s : Screen)

/-- A pixel a viewer has asked for, in a request that is past or in an incremental one that stands. What
is asked for in whole has an answer to come. -/
def Due (X Y : Nat) : Prop :=
  X < g.width ∧ Y < g.height ∧
    ((∃ r ∈ s.asked, Within r.x r.y r.w r.h X Y) ∨
      (s.viewer.haveRequest = true ∧ s.viewer.incremental = true ∧
        Within s.viewer.rx s.viewer.ry s.viewer.rw s.viewer.rh X Y))

/-- The viewer shows what it is remembered to have. -/
def Shows : Prop :=
  s.viewer.seen = true → ∀ X Y, s.Due g X Y →
    s.fb X Y = some (s.viewer.pixels.one (screenValue g s.viewer.was X Y))

/-- An answer that sends something. -/
def Sends (f : Frame) (now : BitVec 64) (draining : Bool) : Prop :=
  draining = false ∧ s.viewer.haveRequest = true ∧ s.viewer.tooSoon now = false ∧ 0 < s.viewer.aw g ∧
    ∃ row, s.viewer.ay g ≤ row ∧ row < s.viewer.ay g + s.viewer.ah g ∧
      (s.viewer.whole = true ∨ rowChanged g f.words s.viewer.was row = true)

/-- What a step needs: a request by a viewer that has a frame asks for no pixel for the first time
incrementally, and takes the place of no request for one; and a pixel asked for before that an answer
leaves out is, in the frame, what the viewer has. -/
def Meets : Event → Prop
  | .message _ (.updateRequest incremental x y w h) =>
    s.viewer.seen = true → ∀ X Y, X < g.width → Y < g.height →
      ((s.viewer.haveRequest = true ∧ s.viewer.incremental = false ∧
          Within s.viewer.rx s.viewer.ry s.viewer.rw s.viewer.rh X Y) ∨
        (incremental = true ∧ Within x.toNat y.toNat w.toNat h.toNat X Y)) →
      s.Due g X Y
  | .message _ _ => True
  | .answer f now draining =>
    s.Sends g f now draining → ∀ X Y, X < g.width → Y < g.height →
      (∃ r ∈ s.asked, Within r.x r.y r.w r.h X Y) →
      ¬ Within s.viewer.rx s.viewer.ry s.viewer.rw s.viewer.rh X Y →
      s.viewer.seen = true ∧ screenValue g f.words X Y = screenValue g s.viewer.was X Y

end Due

section Steps

variable {g : Geometry} {rreOffered : Bool} {s : Screen} {f : Frame} {now : BitVec 64}

theorem sends_iff (g : Geometry) (s : Screen) (f : Frame) :
    (s.viewer.runs g f).filterMap (s.viewer.clip g) ≠ [] →
      0 < s.viewer.aw g ∧ ∃ row, s.viewer.ay g ≤ row ∧ row < s.viewer.ay g + s.viewer.ah g ∧
        (s.viewer.whole = true ∨ rowChanged g f.words s.viewer.was row = true) := by
  intro some
  obtain ⟨c, inside⟩ := List.exists_mem_of_ne_nil _ some
  have one : c.Holds c.row := by
    obtain ⟨r, _, clipped⟩ := List.mem_filterMap.mp inside
    have room := ScreenViewer.len_clip g s.viewer r clipped
    exact ⟨Nat.le_refl _, by omega⟩
  obtain ⟨wide, low, high, why⟩ := (s.viewer.holds_rects g f c.row).mp ⟨c, inside, one⟩
  exact ⟨wide, c.row, low, high, why⟩

/-- With nothing to send, a pixel asked for is what the viewer has, or the viewer is owed a whole
screen, which has no pixels. -/
theorem same_of_quiet (quiet : (s.viewer.runs g f).filterMap (s.viewer.clip g) = []) {X Y : Nat}
    (across : X < g.width) (down : Y < g.height)
    (asked : Within s.viewer.rx s.viewer.ry s.viewer.rw s.viewer.rh X Y) :
    s.viewer.whole = false ∧ rowChanged g f.words s.viewer.was Y = false := by
  obtain ⟨left, right, top, bottom⟩ := (s.viewer.within_clipped g across down).mp asked
  have rows := s.viewer.holds_rects g f Y
  have none : ¬ (0 < s.viewer.aw g ∧ s.viewer.ay g ≤ Y ∧ Y < s.viewer.ay g + s.viewer.ah g ∧
      (s.viewer.whole = true ∨ rowChanged g f.words s.viewer.was Y = true)) := by
    rw [← rows, quiet]
    rintro ⟨c, inside, -⟩
    exact nomatch inside
  cases whole : s.viewer.whole with
  | true => exact absurd ⟨by omega, top, bottom, Or.inl whole⟩ none
  | false =>
    cases changed : rowChanged g f.words s.viewer.was Y with
    | true => exact absurd ⟨by omega, top, bottom, Or.inr changed⟩ none
    | false => exact ⟨rfl, rfl⟩

theorem answer_cases (g : Geometry) (rreOffered : Bool) (v : ScreenViewer) (f : Frame)
    (now : BitVec 64) (draining : Bool) :
    (v.answer g rreOffered f now draining = (v, none)) ∨
    (v.incremental = false ∧ (v.runs g f).filterMap (v.clip g) = [] ∧
      v.answer g rreOffered f now draining = ({ v with haveRequest := false }, some [])) ∨
    (draining = false ∧ v.haveRequest = true ∧ v.tooSoon now = false ∧
      (v.runs g f).filterMap (v.clip g) ≠ [] ∧
      v.answer g rreOffered f now draining =
        ({ v with
          fullAt := if v.whole then some now else v.fullAt
          was := f.words
          seen := true
          haveRequest := false },
          some (((v.runs g f).filterMap (v.clip g)).map (v.rectangle g rreOffered f)))) := by
  unfold ScreenViewer.answer
  dsimp only
  by_cases waits : (draining || !v.haveRequest) = true
  · exact Or.inl (if_pos waits)
  · rw [if_neg waits]
    rw [Bool.not_eq_true, Bool.or_eq_false_iff, Bool.not_eq_false'] at waits
    cases soon : v.tooSoon now with
    | true => exact Or.inl rfl
    | false =>
      rw [if_neg (by decide)]
      by_cases nothing : (v.runs g f).filterMap (v.clip g) = []
      · rw [if_pos nothing]
        cases kind : v.incremental with
        | true => exact Or.inl rfl
        | false => exact Or.inr (Or.inl ⟨rfl, nothing, rfl⟩)
      · rw [if_neg nothing]
        exact Or.inr (Or.inr ⟨waits.1, waits.2, rfl, nothing, rfl⟩)

theorem shows_step {e : Event} {s' : Screen} (shows_ : s.Shows g) (meets : s.Meets g e)
    (stepped : s.step g rreOffered e = some s') : s'.Shows g := by
  cases e with
  | message f m =>
    cases m with
    | setPixelFormat format =>
      unfold step ScreenViewer.message at stepped
      dsimp only at stepped
      split at stepped
      · exact nomatch stepped
      · injection stepped with same
        rw [← same]
        exact fun seen => nomatch seen
    | setEncodings encodings =>
      injection stepped with same
      rw [← same]
      exact shows_
    | updateRequest incremental x y w h =>
      injection stepped with same
      rw [← same]
      intro seen X Y due
      obtain ⟨across, down, asked⟩ := due
      refine shows_ seen X Y ?_
      have fresh := meets seen X Y across down
      rcases asked with ⟨r, inside, within⟩ | ⟨_, inc, within⟩
      · unfold past at inside
        dsimp only at inside
        split at inside
        · rename_i stands
          cases inside with
          | head =>
            cases kind : s.viewer.incremental with
            | true => exact ⟨across, down, Or.inr ⟨stands, kind, within⟩⟩
            | false => exact fresh (Or.inl ⟨stands, kind, within⟩)
          | tail _ inside => exact ⟨across, down, Or.inl ⟨r, inside, within⟩⟩
        · exact ⟨across, down, Or.inl ⟨r, inside, within⟩⟩
      · exact fresh (Or.inr ⟨inc, within⟩)
    | key down keysym =>
      injection stepped with same
      rw [← same]
      exact shows_
    | pointer buttons x y =>
      injection stepped with same
      rw [← same]
      exact shows_
    | cutText len =>
      injection stepped with same
      rw [← same]
      exact shows_
  | answer f now draining =>
    unfold step at stepped
    dsimp only at stepped
    rcases answer_cases g rreOffered s.viewer f now draining with
      quiet | ⟨kind, nothing, cleared⟩ | ⟨drained, stands, soon, some, sent⟩
    · rw [quiet] at stepped
      injection stepped with same
      rw [← same]
      exact shows_
    · -- What is asked for has no pixels, and is asked for no longer.
      rw [cleared] at stepped
      injection stepped with same
      rw [← same]
      intro seen X Y due
      obtain ⟨across, down, asked⟩ := due
      refine shows_ seen X Y ⟨across, down, ?_⟩
      rcases asked with ⟨r, inside, within⟩ | ⟨stands, _⟩
      · unfold past at inside
        dsimp only at inside
        split at inside
        · cases inside with
          | head =>
            have none := (same_of_quiet nothing across down within).1
            rw [show s.viewer.whole = true by simp [ScreenViewer.whole, kind]] at none
            exact nomatch none
          | tail _ inside => exact Or.inl ⟨r, inside, within⟩
        · exact Or.inl ⟨r, inside, within⟩
      · exact nomatch stands
    · rw [sent] at stepped
      injection stepped with same
      have left := meets ⟨drained, stands, soon, sends_iff g s f some⟩
      rw [← same]
      intro _ X Y due
      obtain ⟨across, down, asked⟩ := due
      dsimp only at asked ⊢
      obtain ⟨drawn, kept⟩ := s.viewer.draw_rectangles g rreOffered f
        ((s.viewer.runs g f).filterMap (s.viewer.clip g)) s.fb X Y
      rw [s.viewer.holds_rects g f Y] at drawn kept
      by_cases within : Within s.viewer.rx s.viewer.ry s.viewer.rw s.viewer.rh X Y
      · obtain ⟨first, last, top, bottom⟩ := (s.viewer.within_clipped g across down).mp within
        by_cases sends : s.viewer.whole = true ∨ rowChanged g f.words s.viewer.was Y = true
        · exact drawn ⟨by omega, top, bottom, sends⟩ ⟨first, last⟩
        · -- The row did not change, and the viewer had it.
          rw [not_or, Bool.not_eq_true, Bool.not_eq_true] at sends
          have had : s.viewer.incremental = true ∧ s.viewer.seen = true := by
            have both := sends.1
            unfold ScreenViewer.whole at both
            simpa using both
          rw [kept (fun all => all.1.2.2.2.elim (by simp [sends.1]) (by simp [sends.2])),
            value_of_unchanged g sends.2 across]
          exact shows_ had.2 X Y ⟨across, down, Or.inr ⟨stands, had.1, within⟩⟩
      · have before : ∃ r ∈ s.asked, Within r.x r.y r.w r.h X Y := by
          rcases asked with ⟨r, inside, here⟩ | ⟨nothing, _⟩
          · unfold past at inside
            rw [stands, if_pos rfl] at inside
            cases inside with
            | head => exact absurd here within
            | tail _ inside => exact ⟨r, inside, here⟩
          · exact nomatch nothing
        obtain ⟨seen, same⟩ := left X Y across down before within
        rw [kept (fun all => within ((s.viewer.within_clipped g across down).mpr
          ⟨all.2.1, all.2.2, all.1.2.1, all.1.2.2.1⟩)), same]
        exact shows_ seen X Y ⟨across, down, Or.inl before⟩

theorem shows_frame (shows_ : s.Shows g) (stands : s.viewer.haveRequest = true)
    (all : ∀ X Y, X < g.width → Y < g.height →
      Within s.viewer.rx s.viewer.ry s.viewer.rw s.viewer.rh X Y)
    (soon : s.viewer.tooSoon now = false)
    (nothing : (s.viewer.answer g rreOffered f now false).2 = none) {X Y : Nat} (due : s.Due g X Y) :
    s.fb X Y = some (s.viewer.pixels.one (screenValue g f.words X Y)) := by
  have quiet : (s.viewer.runs g f).filterMap (s.viewer.clip g) = [] := by
    refine Decidable.byContradiction fun some => ?_
    unfold ScreenViewer.answer at nothing
    dsimp only at nothing
    rw [stands, if_neg (by decide), soon, if_neg (by decide), if_neg some] at nothing
    exact nomatch nothing
  obtain ⟨whole, same⟩ := same_of_quiet quiet due.1 due.2.1 (all X Y due.1 due.2.1)
  have seen : s.viewer.seen = true := by
    unfold ScreenViewer.whole at whole
    simp only [Bool.not_eq_false', Bool.and_eq_true] at whole
    exact whole.2
  rw [value_of_unchanged g same due.1]
  exact shows_ seen X Y due

end Steps

/-- A run from a viewer's first sight of the screen, each step of which meets its need. -/
inductive Kept (g : Geometry) (rreOffered : Bool) : Screen → Prop
  | begun (map : Nat → Byte × Byte × Byte) : Kept g rreOffered (begun g map)
  | step (s : Screen) (e : Event) (s' : Screen) (kept : Kept g rreOffered s) (meets : s.Meets g e)
      (stepped : s.step g rreOffered e = some s') : Kept g rreOffered s'

theorem Kept.shows {g : Geometry} {rreOffered : Bool} {s : Screen} (kept : Kept g rreOffered s) :
    s.Shows g := by
  induction kept with
  | begun map => exact fun seen => nomatch seen
  | step s e s' kept meets stepped ih => exact shows_step ih meets stepped

end Screen

/-- A viewer shows what it is remembered to have wherever it has asked, and the frame once it has asked
for the whole screen and there is nothing to send it, in every run whose steps meet their need. -/
theorem viewer_converges {g : Geometry} {rreOffered : Bool} {s : Screen}
    (kept : Screen.Kept g rreOffered s) :
    s.Shows g ∧ ∀ f now, s.viewer.haveRequest = true → s.viewer.incremental = true →
      (∀ X Y, X < g.width → Y < g.height →
        Within s.viewer.rx s.viewer.ry s.viewer.rw s.viewer.rh X Y) →
      s.viewer.tooSoon now = false → (s.viewer.answer g rreOffered f now false).2 = none →
      ∀ X Y, s.Due g X Y → s.fb X Y = some (s.viewer.pixels.one (screenValue g f.words X Y)) := by
  refine ⟨kept.shows, ?_⟩
  intro f now stands _ all soon nothing X Y due
  exact Screen.shows_frame kept.shows stands all soon nothing due

section Small

/-- A screen of one word a line and two lines. -/
def small : Geometry := ⟨false, 1, 2, false, by decide⟩

/-- A black frame, one whose first line is white, one whose second is, and one white all over. -/
def black : Frame := ⟨fun _ => 0#32, fun _ => (0#8, 0#8, 0#8)⟩
def topWhite : Frame := ⟨fun k => if k = 0 then 0xFFFFFFFF#32 else 0#32, fun _ => (0#8, 0#8, 0#8)⟩
def lowWhite : Frame := ⟨fun k => if k = 1 then 0xFFFFFFFF#32 else 0#32, fun _ => (0#8, 0#8, 0#8)⟩
def white : Frame := ⟨fun _ => 0xFFFFFFFF#32, fun _ => (0#8, 0#8, 0#8)⟩

/-- A request for the whole screen, one for its second line, and one for whatever changes. -/
def asks (f : Frame) : Event := .message f (.updateRequest false 0#16 0#16 32#16 2#16)
def asksLow (f : Frame) : Event := .message f (.updateRequest false 0#16 1#16 32#16 1#16)
def refreshes (f : Frame) : Event := .message f (.updateRequest true 0#16 0#16 32#16 2#16)

/-- A viewer is sent the whole screen, then its second line, then the first, which has changed, and asks again. -/
def sentInParts : List Event :=
  [asks black, .answer black 0#64 false, asksLow lowWhite, .answer lowWhite 20000000#64 false,
    refreshes white, .answer white 20000000#64 false, refreshes white]

/-- The screen after the first of them. -/
def shownAfter (events : Nat) : Screen :=
  (sentInParts.take events).foldl (fun s e => (s.step small true e).getD s) (Screen.begun small black.map)

theorem kept_after {events : Nat} {e : Event} (kept : Screen.Kept small true (shownAfter events))
    (at_ : sentInParts[events]? = some e) (meets : (shownAfter events).Meets small e)
    (goes : ((shownAfter events).step small true e).isSome = true) :
    Screen.Kept small true (shownAfter (events + 1)) := by
  refine .step _ e _ kept meets ?_
  obtain ⟨s', stepped⟩ := Option.isSome_iff_exists.mp goes
  unfold shownAfter at stepped ⊢
  rw [List.take_add_one, at_, Option.toList_some, List.foldl_append, List.foldl_cons, List.foldl_nil,
    stepped]
  rfl

/-- At the end it shows the white frame, and there is nothing to send it. -/
theorem viewer_converges_parts :
    (shownAfter 7).Shows small ∧
      ((shownAfter 7).viewer.answer small true white 40000000#64 false).2 = none ∧
      ∀ X < 32, ∀ Y < 2, (shownAfter 7).fb X Y =
        some ((shownAfter 7).viewer.pixels.one (screenValue small white.words X Y)) := by
  have one : Screen.Kept small true (shownAfter 1) :=
    kept_after (.begun black.map) rfl (fun seen => nomatch seen) (by decide)
  have two : Screen.Kept small true (shownAfter 2) := by
    refine kept_after one rfl ?_ (by decide)
    rintro _ X Y _ _ ⟨r, inside, _⟩
    exact nomatch inside
  have three : Screen.Kept small true (shownAfter 3) := by
    refine kept_after two rfl ?_ (by decide)
    rintro _ X Y _ _ (⟨stands, _⟩ | ⟨again, _⟩)
    · exact absurd stands (by decide)
    · exact nomatch again
  have four : Screen.Kept small true (shownAfter 4) := by
    refine kept_after three rfl ?_ (by decide)
    intro _ X Y across down _ outside
    have same : ∀ X < 32, ∀ Y < 2, ¬ Within 0 1 32 1 X Y →
        screenValue small lowWhite.words X Y = screenValue small black.words X Y := by decide
    exact ⟨by decide, same X across Y down outside⟩
  have five : Screen.Kept small true (shownAfter 5) := by
    refine kept_after four rfl ?_ (by decide)
    intro _ X Y across down _
    have asked : ∀ X < 32, ∀ Y < 2, ∃ r ∈ (shownAfter 4).asked, Within r.x r.y r.w r.h X Y := by decide
    exact ⟨across, down, Or.inl (asked X across Y down)⟩
  have six : Screen.Kept small true (shownAfter 6) := by
    refine kept_after five rfl ?_ (by decide)
    intro _ X Y across down _ outside
    have whole : ∀ X < 32, ∀ Y < 2, Within 0 0 32 2 X Y := by decide
    exact absurd (whole X across Y down) outside
  have asked : ∀ X < 32, ∀ Y < 2, ∃ r ∈ (shownAfter 6).asked, Within r.x r.y r.w r.h X Y := by decide
  have seven : Screen.Kept small true (shownAfter 7) := by
    refine kept_after six rfl ?_ (by decide)
    intro _ X Y across down _
    exact ⟨across, down, Or.inl (asked X across Y down)⟩
  obtain ⟨shows_, sent⟩ := viewer_converges seven
  have nothing : ((shownAfter 7).viewer.answer small true white 40000000#64 false).2 = none := by decide
  refine ⟨shows_, nothing, fun X across Y down => ?_⟩
  have whole : ∀ X Y, X < 32 → Y < 2 → Within 0 0 32 2 X Y := fun X Y => by
    unfold Within
    omega
  exact sent white 40000000#64 (by decide) (by decide) whole (by decide) nothing X Y
    ⟨across, down, Or.inl (asked X across Y down)⟩

/-- A viewer asks for the first line, and is sent it; for the second, as the first changes; and then for
whatever changes. -/
def lineByLine : List Event :=
  [.message black (.updateRequest false 0#16 0#16 32#16 1#16), .answer black 0#64 false,
    .message black (.updateRequest false 0#16 1#16 32#16 1#16),
    .answer topWhite 20000000#64 false,
    .message topWhite (.updateRequest true 0#16 0#16 32#16 2#16)]

/-- The first line stays black for it, with nothing to be sent. -/
theorem viewer_left_stale :
    ∃ s, lineByLine.foldlM (Screen.step small true) (Screen.begun small black.map) = some s ∧
      ¬ s.Shows small ∧ (s.viewer.answer small true topWhite 40000000#64 false).2 = none ∧
      s.Due small 0 0 ∧
      s.fb 0 0 ≠ some (s.viewer.pixels.one (screenValue small topWhite.words 0 0)) := by
  let run := lineByLine.foldlM (Screen.step small true) (Screen.begun small black.map)
  have all : run.map (fun s => (s.viewer.seen, s.asked.any fun r => decide (Within r.x r.y r.w r.h 0 0),
      (s.viewer.answer small true topWhite 40000000#64 false).2.isNone,
      decide (s.fb 0 0 = some (s.viewer.pixels.one (screenValue small s.viewer.was 0 0))),
      decide (s.fb 0 0 = some (s.viewer.pixels.one (screenValue small topWhite.words 0 0))))) =
      some (true, true, true, false, false) := by decide +kernel
  obtain ⟨s, ran, all⟩ := Option.map_eq_some_iff.mp all
  simp only [Prod.mk.injEq, List.any_eq_true, decide_eq_true_eq, Option.isNone_iff_eq_none,
    decide_eq_false_iff_not] at all
  obtain ⟨seen, asked, nothing, stale, behind⟩ := all
  have due : s.Due small 0 0 := ⟨by decide, by decide, Or.inl asked⟩
  exact ⟨s, ran, fun shows_ => stale (shows_ seen 0 0 due), nothing, due, behind⟩

end Small

end MuirFpga.Terminal
