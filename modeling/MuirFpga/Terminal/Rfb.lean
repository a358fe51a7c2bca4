import Mathlib.Data.List.GetD
import Mathlib.Data.Nat.Notation

/-!
# The viewer's protocol

`screen_rfb.c`: the pixel format, the versions, and one message taken off the front of a viewer's
bytes. Every field of more than one byte has its high byte first.
-/

namespace MuirFpga.Terminal

abbrev Byte := BitVec 8

/-- `struct rfb_format`. -/
structure Format where
  bitsPerPixel : Byte
  depth : Byte
  bigEndian : Bool
  trueColour : Bool
  redMax : BitVec 16
  greenMax : BitVec 16
  blueMax : BitVec 16
  redShift : Byte
  greenShift : Byte
  blueShift : Byte

/-- `RFB_RGB888`. -/
def rgb888 : Format := ⟨32#8, 24#8, false, true, 255#16, 255#16, 255#16, 16#8, 8#8, 0#8⟩

/-- `be16`, `be32`. -/
def be16 (v : BitVec 16) : List Byte := [v.extractLsb' 8 8, v.extractLsb' 0 8]
def be32 (v : BitVec 32) : List Byte :=
  [v.extractLsb' 24 8, v.extractLsb' 16 8, v.extractLsb' 8 8, v.extractLsb' 0 8]

theorem be16_joined (v : BitVec 16) : v.extractLsb' 8 8 ++ v.extractLsb' 0 8 = v := by
  rw [BitVec.extractLsb'_append_extractLsb'_eq_extractLsb' (by decide)]
  exact BitVec.extractLsb'_eq_self

theorem be32_joined (v : BitVec 32) :
    v.extractLsb' 24 8 ++ v.extractLsb' 16 8 ++ v.extractLsb' 8 8 ++ v.extractLsb' 0 8 = v := by
  rw [BitVec.extractLsb'_append_extractLsb'_eq_extractLsb' (by decide),
    BitVec.extractLsb'_append_extractLsb'_eq_extractLsb' (by decide),
    BitVec.extractLsb'_append_extractLsb'_eq_extractLsb' (by decide)]
  exact BitVec.extractLsb'_eq_self

/-- `rd16`, `rd32`, at a place of the bytes. -/
def rd16 (b : List Byte) (place : Nat) : BitVec 16 := b.getD place 0#8 ++ b.getD (place + 1) 0#8
def rd32 (b : List Byte) (place : Nat) : BitVec 32 :=
  b.getD place 0#8 ++ b.getD (place + 1) 0#8 ++ b.getD (place + 2) 0#8 ++ b.getD (place + 3) 0#8

/-- `rfb_format_parse`. -/
def formatParse (b : List Byte) : Format where
  bitsPerPixel := b.getD 0 0#8
  depth := b.getD 1 0#8
  bigEndian := b.getD 2 0#8 != 0#8
  trueColour := b.getD 3 0#8 != 0#8
  redMax := rd16 b 4
  greenMax := rd16 b 6
  blueMax := rd16 b 8
  redShift := b.getD 10 0#8
  greenShift := b.getD 11 0#8
  blueShift := b.getD 12 0#8

/-- `rfb_bytes_per_pixel`. -/
def bytesPerPixel (f : Format) : Nat :=
  if f.bitsPerPixel = 8#8 then 1
  else if f.bitsPerPixel = 16#8 then 2
  else if f.bitsPerPixel = 32#8 then 4
  else 0

/-- `rfb_format_fits`. -/
def formatFits (f : Format) : Bool :=
  if bytesPerPixel f = 0 then false
  else if !f.trueColour then true
  else decide (f.redShift < f.bitsPerPixel) && decide (f.greenShift < f.bitsPerPixel) &&
    decide (f.blueShift < f.bitsPerPixel)

/-- `enum rfb_version`. -/
inductive Version where
  | v33
  | v37
  | v38
deriving DecidableEq

/-- "RFB 003.007\n" and "RFB 003.008\n". -/
def version37 : List Byte :=
  [0x52#8, 0x46#8, 0x42#8, 0x20#8, 0x30#8, 0x30#8, 0x33#8, 0x2E#8, 0x30#8, 0x30#8, 0x37#8, 0x0A#8]
def version38 : List Byte :=
  [0x52#8, 0x46#8, 0x42#8, 0x20#8, 0x30#8, 0x30#8, 0x33#8, 0x2E#8, 0x30#8, 0x30#8, 0x38#8, 0x0A#8]

/-- `rfb_version_parse`. -/
def versionParse (b : List Byte) : Version :=
  if b.take 12 = version37 then .v37 else if b.take 12 = version38 then .v38 else .v33

/-- Whether `rfb_security` has the viewer's choice read back. -/
def readsBack (v : Version) : Bool := v != .v33

/-- `RFB_MAX_ENCODINGS`. -/
def maxEncodings : Nat := 32

/-- `struct rfb_message`, each kind with the fields it sets. -/
inductive Message where
  | setPixelFormat (format : Format)
  | setEncodings (encodings : List (BitVec 32))
  | updateRequest (incremental : Bool) (x y w h : BitVec 16)
  | key (down : Bool) (keysym : BitVec 32)
  | pointer (buttons : Byte) (x y : BitVec 16)
  | cutText (len : BitVec 32)

/-- What `rfb_parse` returns: 0, 1 with the message and the bytes it used, and -1 with the type. -/
inductive Parsed where
  | more
  | message (m : Message) (used : Nat)
  | unknown (type : Byte)

/-- `rfb_parse`. -/
def rfbParse (buf : List Byte) : Parsed :=
  let len := buf.length
  if len < 1 then .more
  else
    let type := buf.getD 0 0#8
    if type = 0#8 then
      if len < 20 then .more else .message (.setPixelFormat (formatParse (buf.drop 4))) 20
    else if type = 2#8 then
      if len < 4 then .more
      else
        let count := (rd16 buf 2).toNat
        if len < 4 + 4 * count then .more
        else
          .message (.setEncodings ((List.range (min count maxEncodings)).map fun k =>
            rd32 buf (4 + 4 * k))) (4 + 4 * count)
    else if type = 3#8 then
      if len < 10 then .more
      else
        .message (.updateRequest (buf.getD 1 0#8 != 0#8) (rd16 buf 2) (rd16 buf 4) (rd16 buf 6)
          (rd16 buf 8)) 10
    else if type = 4#8 then
      if len < 8 then .more else .message (.key (buf.getD 1 0#8 != 0#8) (rd32 buf 4)) 8
    else if type = 5#8 then
      if len < 6 then .more else .message (.pointer (buf.getD 1 0#8) (rd16 buf 2) (rd16 buf 4)) 6
    else if type = 6#8 then
      if len < 8 then .more else .message (.cutText (rd32 buf 4)) 8
    else .unknown type

end MuirFpga.Terminal
