import MuirFpga.Terminal.Drawn

/-!
# A viewer's screen

The answers of `screen_server.c` to a viewer that has the screen: what it asks for, what it is sent, and
what it then shows. The frames are of one size, which is the size the viewer was told. Memory for an
answer is always found.
-/

namespace MuirFpga.Terminal

/-- What a viewer is answered from: `was` is the frame it last had, and `fullAt` is `full_at_ns`, once
`have_full_at` is set. -/
structure ScreenViewer where
  pixels : PixelTable
  was : Nat → BitVec 32
  seen : Bool
  haveRequest : Bool
  incremental : Bool
  rx : Nat
  ry : Nat
  rw : Nat
  rh : Nat
  fullAt : Option (BitVec 64)
  takesRre : Bool

/-- `struct run`. -/
structure Run where
  row : Nat
  len : Nat

/-- `SCREEN_MAX_HEIGHT`. -/
def maxHeight : Nat := 1080

/-- A row that is not what it was. -/
def rowChanged (g : Geometry) (words was : Nat → BitVec 32) (row : Nat) : Bool :=
  !(List.range g.wordsPerLine).all fun k =>
    words (row * g.wordsPerLine + k) == was (row * g.wordsPerLine + k)

/-- The loop of `changed_rows`, over the rows left, the last run first. -/
def changedFrom (g : Geometry) (words was : Nat → BitVec 32) (max : Nat) :
    Nat → Nat → List Run → List Run
  | 0, _, runs => runs.reverse
  | left + 1, row, runs =>
    if !rowChanged g words was row then changedFrom g words was max left (row + 1) runs
    else
      match runs with
      | [] => if 0 = max then [] else changedFrom g words was max left (row + 1) [⟨row, 1⟩]
      | last :: before =>
        if last.row + last.len = row then
          changedFrom g words was max left (row + 1) ({ last with len := last.len + 1 } :: before)
        else if (last :: before).length = max then (last :: before).reverse
        else changedFrom g words was max left (row + 1) (⟨row, 1⟩ :: last :: before)

/-- `changed_rows`. -/
def changedRows (g : Geometry) (words was : Nat → BitVec 32) (height max : Nat) : List Run :=
  changedFrom g words was max height 0 []

namespace ScreenViewer

section Answer

variable (g : Geometry) (rreOffered : Bool) (v : ScreenViewer) (f : Frame)

/-- `ax`, `ay`, `aw` and `ah`: what was asked for, clipped to the screen. -/
def ax : Nat := if v.rx < g.width then v.rx else g.width
def ay : Nat := if v.ry < g.height then v.ry else g.height
def aw : Nat := if v.rw < g.width - v.ax g then v.rw else g.width - v.ax g
def ah : Nat := if v.rh < g.height - v.ay g then v.rh else g.height - v.ay g

/-- `whole`. -/
def whole : Bool := !(v.incremental && v.seen)

/-- A whole screen comes again too soon. -/
def tooSoon (now : BitVec 64) : Bool :=
  v.whole && match v.fullAt with
    | none => false
    | some fullAt => decide (now - fullAt < 15456000#64)

/-- The runs of rows to send. -/
def runs : List Run :=
  if v.whole then if g.height ≠ 0 then [⟨0, g.height⟩] else []
  else changedRows g f.words v.was g.height maxHeight

/-- A run, clipped to what was asked for. -/
def clip (r : Run) : Option Run :=
  let top := if r.row > v.ay g then r.row else v.ay g
  let bottom := r.row + r.len
  let bottom := if bottom > v.ay g + v.ah g then v.ay g + v.ah g else bottom
  if bottom > top ∧ v.aw g > 0 then some ⟨top, bottom - top⟩ else none

/-- A rectangle as it is sent, in the smaller encoding where both may be used. -/
def rectangle (r : Run) : Rectangle :=
  let ax := v.ax g
  let aw := v.aw g
  let n := v.pixels.n
  let rawBytes := aw * r.len * n
  let background := rreBackground g f.words ax r.row aw r.len
  let subrects := rreWalk g v.pixels f.words ax r.row aw r.len background
  let rreBytes := 4 + n + subrects.length * (n + 8)
  let useRre := rreOffered && v.takesRre && decide (rreBytes < rawBytes)
  ⟨ax, r.row, aw, r.len,
    if useRre then .rre (v.pixels.one background) subrects
    else .raw (encodeRaw g v.pixels f.words ax r.row aw r.len)⟩

/-- `answer`, with the rectangles of the update it queues, if it queues one. -/
def answer (now : BitVec 64) (draining : Bool) : ScreenViewer × Option (List Rectangle) :=
  if draining || !v.haveRequest then (v, none)
  else if v.tooSoon now then (v, none)
  else
    let rects := (v.runs g f).filterMap (v.clip g)
    if rects = [] then
      if !v.incremental then ({ v with haveRequest := false }, some []) else (v, none)
    else
      ({ v with
        fullAt := if v.whole then some now else v.fullAt
        was := f.words
        seen := true
        haveRequest := false }, some (rects.map (v.rectangle g rreOffered f)))

/-- What `viewer_step` does on a message that is about the screen; none where it drops the viewer. -/
def message : Message → Option ScreenViewer
  | .setPixelFormat format =>
    if !formatFits format then none
    else some { v with pixels := pixelsMake g format f.map, seen := false }
  | .setEncodings encodings => some { v with takesRre := encodings.any fun e => e == 2#32 }
  | .updateRequest incremental x y w h =>
    some { v with
      haveRequest := true
      incremental := incremental
      rx := x.toNat
      ry := y.toNat
      rw := w.toNat
      rh := h.toNat }
  | _ => some v

end Answer

end ScreenViewer

/-- A place of the screen inside what is asked for. -/
structure Asked where
  x : Nat
  y : Nat
  w : Nat
  h : Nat

/-- A viewer, what it shows, and what it asked for before the request that stands. -/
structure Screen where
  viewer : ScreenViewer
  fb : Framebuffer
  asked : List Asked

/-- What happens to a viewer's screen, while a frame is the machine's. -/
inductive Event where
  | message (f : Frame) (m : Message)
  | answer (f : Frame) (now : BitVec 64) (draining : Bool)

namespace Screen

/-- A viewer that has just got the screen. -/
def begun (g : Geometry) (map : Nat → Byte × Byte × Byte) : Screen where
  viewer := ⟨pixelsMake g rgb888 map, fun _ => 0#32, false, false, false, 0, 0, 0, 0, none, false⟩
  fb := fun _ _ => none
  asked := []

/-- What was asked for once the request that stands is no longer the last. -/
def past (s : Screen) : List Asked :=
  if s.viewer.haveRequest then
    ⟨s.viewer.rx, s.viewer.ry, s.viewer.rw, s.viewer.rh⟩ :: s.asked
  else s.asked

/-- A step; none where the viewer is dropped. -/
def step (g : Geometry) (rreOffered : Bool) (s : Screen) : Event → Option Screen
  | .message f m => (s.viewer.message g f m).map fun v =>
    { s with
      viewer := v
      asked := match m with
        | .updateRequest .. => s.past
        | _ => s.asked }
  | .answer f now draining =>
    let (v, update) := s.viewer.answer g rreOffered f now draining
    match update with
    | none => some { s with viewer := v }
    | some rectangles => some ⟨v, rectangles.foldl Framebuffer.draw s.fb, s.past⟩

end Screen

end MuirFpga.Terminal
