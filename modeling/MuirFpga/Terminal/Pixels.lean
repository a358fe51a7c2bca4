import MuirFpga.Terminal.Rfb

/-!
# The screen's pixels

`screen_frame.h` and `screen_geom.h`: a frame as the display's words and what a pixel of it is; and the
two encodings of `screen_server.c` with what RFC 6143 has a viewer make of them. A pixel on the wire is
a list of one, two or four bytes.
-/

namespace MuirFpga.Terminal

/-- A screen: the one-bit boards, up to 1,920 by 1,080 with `MODE BOW` either way, and the color TV.
A line is whole words. -/
structure Geometry where
  color : Bool
  wordsPerLine : Nat
  height : Nat
  blackOnWhite : Bool
  shape : if color then wordsPerLine = 72 ∧ height = 454 ∧ blackOnWhite = false
    else wordsPerLine ≤ 60 ∧ height ≤ 1080

namespace Geometry

variable (g : Geometry)

/-- `bpp`. -/
def bpp : Nat := if g.color then 4 else 1

def width : Nat := if g.color then g.wordsPerLine * 8 else g.wordsPerLine * 32

/-- `screen_values`. -/
def values : Nat := if g.color then 16 else 2

/-- `per_byte`. -/
def perByte : Nat := 8 / g.bpp

end Geometry

/-- `struct screen_frame`, its words and its map: a color's red, green and blue. -/
structure Frame where
  words : Nat → BitVec 32
  map : Nat → Byte × Byte × Byte

/-- `screen_lit`. -/
def screenLit (words : Nat → BitVec 32) (wordsPerLine x y : Nat) : Bool :=
  let bit := y * wordsPerLine * 32 + x
  (words (bit / 32)).getLsbD (bit % 32)

/-- `screen_color_index`. -/
def screenColorIndex (words : Nat → BitVec 32) (x y : Nat) : Nat :=
  ((words (y * 72 + x / 8)).extractLsb' (x % 8 * 4) 4).toNat

/-- `screen_value`, of a frame's words. -/
def screenValue (g : Geometry) (words : Nat → BitVec 32) (x y : Nat) : Nat :=
  if g.color then screenColorIndex words x y
  else (screenLit words g.wordsPerLine x y != g.blackOnWhite).toNat

/-- `rfb_white`. -/
def rfbWhite (f : Format) : BitVec 32 :=
  if !f.trueColour then 1#32
  else
    let part (max : BitVec 16) (shift : Byte) : BitVec 32 :=
      if shift < f.bitsPerPixel then max.setWidth 32 <<< shift.toNat else 0#32
    part f.redMax f.redShift ||| part f.greenMax f.greenShift ||| part f.blueMax f.blueShift

/-- `rfb_pixel`. -/
def rfbPixel (f : Format) (map : Nat → Byte × Byte × Byte) (value values : Nat) : BitVec 32 :=
  let value := value % 16
  if !f.trueColour then BitVec.ofNat 32 value
  else if values = 2 then if value ≠ 0 then rfbWhite f else 0#32
  else
    let gun (level : Byte) (max : BitVec 16) (shift : Byte) : BitVec 32 :=
      if shift < f.bitsPerPixel then
        BitVec.ofNat 32 ((level.toNat * max.toNat + 127) / 255) <<< shift.toNat
      else 0#32
    let (red, green, blue) := map value
    gun red f.redMax f.redShift ||| gun green f.greenMax f.greenShift |||
      gun blue f.blueMax f.blueShift

/-- `rfb_put`. -/
def rfbPut (f : Format) (value : BitVec 32) : List Byte :=
  let n := if bytesPerPixel f = 0 then 4 else bytesPerPixel f
  let b := be32 value
  if f.bigEndian then b.drop (4 - n) else b.reverse.take n

/-- `struct pixels`: the bytes a pixel takes, and each value's. -/
structure PixelTable where
  n : Nat
  value : Nat → List Byte

/-- `pixels_make`. -/
def pixelsMake (g : Geometry) (f : Format) (map : Nat → Byte × Byte × Byte) : PixelTable where
  n := if bytesPerPixel f = 0 then 4 else bytesPerPixel f
  value v := rfbPut f (rfbPixel f map v g.values)

namespace PixelTable

variable (px : PixelTable)

/-- `pixels_one`. -/
def one (value : Nat) : List Byte := px.value (value % 16)

/-- `pixels_byte`: a byte's entry of the table. -/
def byte (g : Geometry) (b : Byte) : List (List Byte) :=
  (List.range g.perByte).map fun k =>
    px.value (if g.values = 2 then (b.extractLsb' k 1).toNat else (b.extractLsb' (k * 4) 4).toNat)

end PixelTable

section Encodings

variable (g : Geometry) (px : PixelTable) (words : Nat → BitVec 32) (y : Nat)

/-- `row_byte`. -/
def rowByte (k : Nat) : Byte :=
  let word := words (y * g.wordsPerLine + k / 4)
  let word := if g.blackOnWhite then ~~~word else word
  word.extractLsb' (k % 4 * 8) 8

/-- The last loop of a row of `encode_raw`, over what is left of it. -/
def rowEnds : Nat → Nat → List (List Byte)
  | 0, _ => []
  | left + 1, p => px.one (screenValue g words p y) :: rowEnds left (p + 1)

/-- The middle loop, a byte of the frame at a time. -/
def rowMiddle : Nat → Nat → List (List Byte)
  | 0, _ => []
  | left + 1, p =>
    if g.perByte ≤ left + 1 ∧ 0 < g.perByte then
      px.byte g (rowByte g words y (p / g.perByte)) ++
        rowMiddle (left + 1 - g.perByte) (p + g.perByte)
    else rowEnds g px words y (left + 1) p
termination_by left => left

/-- The first loop, up to a whole byte. -/
def rowStart : Nat → Nat → List (List Byte)
  | 0, _ => []
  | left + 1, p =>
    if p % g.perByte ≠ 0 then px.one (screenValue g words p y) :: rowStart left (p + 1)
    else rowMiddle g px words y (left + 1) p

/-- `encode_raw`. -/
def encodeRaw (rx ry rw rh : Nat) : List (List Byte) :=
  (List.range' ry rh).flatMap fun y => rowStart g px words y rw rx

/-- `rre_background`. -/
def rreBackground (rx ry rw rh : Nat) : Nat :=
  let n (v : Nat) : Nat :=
    ((List.range' ry rh).flatMap fun y => (List.range' rx rw).filter fun x =>
      screenValue g words x y % 16 = v).length
  (List.range' 1 15).foldl (fun best v => if n best < n v then v else best) 0

/-- A subrectangle, of one row. -/
structure Subrect where
  pixel : List Byte
  x : Nat
  y : Nat
  w : Nat

/-- How far a run of one value goes on a row, of what is left of it. -/
def runLength (v : Nat) : Nat → Nat → Nat
  | 0, _ => 0
  | left + 1, x => if screenValue g words x y = v then runLength v left (x + 1) + 1 else 0

/-- A row of `rre_walk`. -/
def rreRow (rx ry background : Nat) : Nat → Nat → List Subrect
  | 0, _ => []
  | left + 1, x =>
    let v := screenValue g words x y
    if v = background then rreRow rx ry background left (x + 1)
    else
      let run := runLength g words y v left (x + 1) + 1
      ⟨px.one v, x - rx, y - ry, run⟩ :: rreRow rx ry background (left + 1 - run) (x + run)
termination_by left => left

/-- `rre_walk`. -/
def rreWalk (rx ry rw rh background : Nat) : List Subrect :=
  (List.range' ry rh).flatMap fun y => rreRow g px words y rx ry background rw rx

end Encodings

/-- What a rectangle carries. -/
inductive Encoding where
  | raw (pixels : List (List Byte))
  | rre (background : List Byte) (subrects : List Subrect)

/-- A rectangle of an update. -/
structure Rectangle where
  x : Nat
  y : Nat
  w : Nat
  h : Nat
  encoding : Encoding

/-- Inside a rectangle. -/
def Within (x y w h px py : Nat) : Prop := x ≤ px ∧ px < x + w ∧ y ≤ py ∧ py < y + h

instance (x y w h px py : Nat) : Decidable (Within x y w h px py) := by
  unfold Within
  infer_instance

/-- What a viewer shows: at a place a pixel, once one has been drawn there. -/
abbrev Framebuffer := Nat → Nat → Option (List Byte)

/-- A rectangle filled with a pixel. -/
def Framebuffer.fill (fb : Framebuffer) (x y w h : Nat) (pixel : List Byte) : Framebuffer :=
  fun px py => if Within x y w h px py then some pixel else fb px py

/-- A viewer draws a rectangle: the pixels left to right and top to bottom, or the background and the
subrectangles over it. -/
def Framebuffer.draw (fb : Framebuffer) (r : Rectangle) : Framebuffer :=
  match r.encoding with
  | .raw pixels => fun px py =>
    if Within r.x r.y r.w r.h px py then
      pixels[(py - r.y) * r.w + (px - r.x)]?
    else fb px py
  | .rre background subrects =>
    subrects.foldl (fun fb s => fb.fill (r.x + s.x) (r.y + s.y) s.w 1 s.pixel)
      (fb.fill r.x r.y r.w r.h background)

end MuirFpga.Terminal
