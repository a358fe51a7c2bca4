import Mathlib.Data.List.GetD
import Mathlib.Data.Nat.Notation

/-!
# The keyboard

`input_keys.c`: the words the keyboard sends for the keysyms of its viewers, and what it keeps so that
each key that goes down comes up. What it says of a key, for the trace, is left out. The mapping is any.
-/

namespace MuirFpga.Terminal

abbrev Keysym := BitVec 32
abbrev Position := BitVec 7

/-- `struct key_entry`; a key's own name is only for the trace. -/
inductive KeyEntry where
  | none
  | char (plain shifted : Nat)
  | named
  | shift (s : Nat)
deriving DecidableEq

/-- `KEY_TABLE`. -/
def keyTable (p : Position) : KeyEntry :=
  [
    .none, .named, .named, .shift 9, .none, .shift 6, .none, .none,
    .none, .char 52 36, .char 114 82, .char 102 70, .char 118 86, .shift 8, .none, .named,
    .shift 4, .none, .named, .named, .shift 0, .shift 0, .shift 4, .none,
    .named, .char 56 42, .char 105 73, .char 107 75, .char 44 60, .shift 1, .named, .char 92 124,
    .named, .none, .named, .none, .shift 1, .shift 5, .named, .named,
    .named, .char 54 94, .char 121 89, .char 104 72, .char 110 78, .none, .none, .none,
    .none, .char 50 64, .char 119 87, .char 115 83, .char 120 88, .shift 6, .none, .named,
    .none, .char 57 40, .char 111 79, .char 108 76, .char 46 62, .none, .none, .char 96 126,
    .named, .named, .named, .none, .shift 2, .none, .named, .named,
    .named, .char 53 37, .char 116 84, .char 103 71, .char 98 66, .shift 10, .named, .named,
    .named, .char 49 33, .char 113 81, .char 97 65, .char 122 90, .shift 3, .char 61 43, .none,
    .none, .char 45 95, .char 40 91, .char 39 34, .char 32 32, .none, .named, .char 41 93,
    .none, .named, .none, .named, .none, .shift 7, .char 125 125, .none,
    .none, .char 55 38, .char 117 85, .char 106 74, .char 109 77, .shift 2, .named, .named,
    .named, .char 51 35, .char 101 69, .char 100 68, .char 99 67, .shift 5, .char 123 123, .named,
    .named, .char 48 41, .char 112 80, .char 59 58, .char 47 63, .shift 7, .named, .none].getD p.toNat .none

/-- The positions, in order. -/
def allPositions : List Position := (List.range 128).map (BitVec.ofNat 7)

/-- `struct key_binding` and `struct key_prefix`. -/
structure KeyBinding where
  keysym : Keysym
  position : Position
  shifted : Bool

structure KeyPrefix where
  first : Keysym
  second : Keysym
  position : Position
  shifted : Bool

/-- `struct key_map`. -/
structure KeyMap where
  bound : List KeyBinding
  after : List KeyPrefix

/-- `shifting`. -/
def shifting (s : Nat) : List Position := allPositions.filter fun p => keyTable p = .shift s

/-- A shifting key's position. -/
def isShift (p : Position) : Bool :=
  match keyTable p with
  | .shift _ => true
  | _ => false

/-- `character_positions`, the first eight. -/
def characterPositions (keysym : Keysym) : List (Position × Bool) :=
  if keysym < 0x20#32 ∨ 0x7E#32 < keysym then []
  else
    (allPositions.flatMap fun p =>
      match keyTable p with
      | .char plain shifted =>
        (if plain = keysym.toNat then [(p, false)] else []) ++
          (if shifted = keysym.toNat ∧ shifted ≠ plain then [(p, true)] else [])
      | _ => []).take 8

namespace KeyMap

variable (m : KeyMap)

/-- `positions`. -/
def positions (keysym : Keysym) : List (Position × Bool) :=
  match m.bound.find? fun b => b.keysym == keysym with
  | some b => [(b.position, b.shifted)]
  | none => characterPositions keysym

/-- `modifier_position`. -/
def modifierPosition (keysym : Keysym) : Option Position :=
  match m.bound.find? fun b => b.keysym == keysym with
  | some b => if isShift b.position then some b.position else none
  | none => none

/-- `is_prefix`. -/
def isPrefix (keysym : Keysym) : Bool := m.after.any fun a => a.first == keysym

/-- `after_prefix`. -/
def afterPrefix (first second : Keysym) : Option (Position × Bool) :=
  (m.after.find? fun a => a.first == first && a.second == second).map fun a =>
    (a.position, a.shifted)

end KeyMap

/-- `KEY_FRAME` and `KEY_UP`. -/
def keyFrame : BitVec 32 := 0xF90000#32
def keyUp : BitVec 32 := 0x100#32

/-- `key_up_down`. -/
def keyUpDown (p : Position) (up : Bool) : BitVec 32 :=
  keyFrame ||| (if up then keyUp else 0#32) ||| p.setWidth 32

/-- `key_boot_word`. -/
def keyBootWord (cold : Bool) : BitVec 32 :=
  keyFrame ||| 0xFC00#32 ||| (if cold then 0x26#32 else 0x32#32)

/-- `KEY_POS_RUBOUT` and `KEY_POS_RETURN`. -/
def posRubout : Position := 0x13#7
def posReturn : Position := 0x5E#7

/-- `KEY_BACKLOG` and `KEY_MAX_DOWN`. -/
def keyBacklog : Nat := 256
def keyMaxDown : Nat := 20

/-- `held_sym`, `held_pos` and `held_shifted`. -/
structure Held where
  sym : Keysym
  pos : Position
  shifted : Bool

/-- `struct key_state`: its circular buffer is the list of its words, `standing` is its `prefix`, and
`controls` and `metas` its `boot`. For the record only, `back` has the positions whose key-up was held
back with no word about them since. -/
structure KeyState where
  queue : List (BitVec 32)
  down : List Position
  held : List Held
  standing : Keysym
  latched : List Position
  tapped : List Keysym
  refused : Nat
  unbound : Nat
  controls : Nat
  metas : Nat
  holdBack : Bool
  boots : Nat
  heldBack : Nat
  dropped : Nat
  back : List Position

/-- `key_state_init_with`, the mapping apart. -/
def keyStateInit : KeyState := ⟨[], [], [], 0#32, [], [], 0, 0, 1, 1, false, 0, 0, 0, []⟩

namespace KeyState

variable (k : KeyState)

/-- `push`. -/
def push (word : BitVec 32) : KeyState :=
  if k.queue.length ≥ keyBacklog then { k with dropped := k.dropped + 1 }
  else { k with queue := k.queue ++ [word] }

/-- `key_took`. -/
def took : KeyState := { k with queue := k.queue.drop 1 }

/-- `has_down`. -/
def hasDown (p : Position) : Bool := k.down.contains p

/-- `add_down`. -/
def addDown (p : Position) : KeyState :=
  if k.down.length < keyMaxDown then { k with down := k.down ++ [p] } else k

/-- `drop_down`, with `drop_held_at`. -/
def dropDown (p : Position) : KeyState :=
  if k.hasDown p then
    { k with down := k.down.erase p, held := k.held.filter fun h => h.pos != p }
  else k

/-- `held_by`. -/
def heldBy (keysym : Keysym) : Option Held := k.held.find? fun h => h.sym == keysym

/-- `hold`. -/
def hold (keysym : Keysym) (p : Position) (shifted : Bool) : KeyState :=
  if (k.heldBy keysym).isSome ∨ k.held.length ≥ keyMaxDown then k
  else { k with held := k.held ++ [⟨keysym, p, shifted⟩] }

/-- `mark_tapped`. -/
def markTapped (keysym : Keysym) : KeyState :=
  if k.tapped.length < keyMaxDown then { k with tapped := k.tapped ++ [keysym] } else k

/-- `holding`. -/
def holding (s : Nat) : Bool := (shifting s).any k.hasDown

/-- `queue_down`. -/
def queueDown (p : Position) : KeyState :=
  { k.push (keyUpDown p false) with holdBack := false, back := k.back.filter (· != p) }

/-- `queue_up`. -/
def queueUp (p : Position) : KeyState :=
  if k.holdBack then { k with heldBack := k.heldBack + 1, back := p :: k.back }
  else { k.push (keyUpDown p true) with back := k.back.filter (· != p) }

/-- `check_boot`. -/
def checkBoot : KeyState :=
  if ((shifting 4).filter k.hasDown).length < k.controls then k
  else if ((shifting 5).filter k.hasDown).length < k.metas then k
  else if !k.hasDown posRubout && !k.hasDown posReturn then k
  else if k.queue.length ≥ keyBacklog then { k with refused := k.refused + 1 }
  else
    { k.push (keyBootWord (k.hasDown posRubout)) with holdBack := true, boots := k.boots + 1 }

/-- `press`: whether the key is down for the machine after it. -/
def press (p : Position) : KeyState × Bool :=
  if k.hasDown p then (k, true)
  else if k.queue.length ≥ keyBacklog then ({ k with refused := k.refused + 1 }, false)
  else (((k.addDown p).queueDown p).checkBoot, true)

/-- `release`. -/
def release (p : Position) : KeyState := if !k.hasDown p then k else (k.dropDown p).queueUp p

/-- The burst of `tap`: positions, and whether each goes up. -/
def burst (p : Position) (wantsShift : Bool) : List (Position × Bool) :=
  let at_ := shifting 0
  if wantsShift && !k.holding 0 then
    let shift := at_.getD 0 0#7
    [(shift, false), (p, false), (p, true), (shift, true)]
  else if !wantsShift && k.holding 0 then
    let up := at_.filter k.hasDown
    up.map (·, true) ++ [(p, false), (p, true)] ++ up.map (·, false)
  else [(p, false), (p, true)]

/-- A key of a burst. -/
def queueKey (key : Position × Bool) : KeyState :=
  if key.2 then k.queueUp key.1 else k.queueDown key.1

/-- `tap`: whether it went. There are Shift keys in the table. -/
def tap (p : Position) (wantsShift : Bool) : KeyState × Bool :=
  let burst := k.burst p wantsShift
  if k.queue.length + burst.length > keyBacklog then ({ k with refused := k.refused + 1 }, false)
  else (burst.foldl queueKey k, true)

/-- `behind_prefix`. -/
def behindPrefix (p : Position) (wantsShift : Bool) : KeyState × Bool :=
  if isShift p then
    let (k, went) := k.press p
    if went && decide (k.latched.length < keyMaxDown) then
      ({ k with latched := k.latched ++ [p] }, went)
    else (k, went)
  else k.tap p wantsShift

/-- The latches let go. -/
def unlatch : KeyState := k.latched.foldl release { k with latched := [] }

/-- The press of a keysym that is no prefix, no shifting key, and holds no position. -/
def pressFound (keysym : Keysym) (found : List (Position × Bool)) : KeyState :=
  let shifted := k.holding 0
  if k.latched ≠ [] then
    let pick := (found.find? fun f => f.2 == shifted).getD (found.getD 0 (0#7, false))
    ((k.markTapped keysym).tap pick.1 pick.2).1.unlatch
  else
    match found.find? fun f => f.2 == shifted with
    | some f =>
      let (k, went) := k.press f.1
      if went then k.hold keysym f.1 shifted else k
    | none =>
      let f := found.getD 0 (0#7, false)
      ((k.markTapped keysym).tap f.1 f.2).1

/-- The release of one. -/
def releaseFound (found : List (Position × Bool)) : KeyState :=
  if k.latched ≠ [] then k
  else
    match found.find? fun f => f.2 == k.holding 0 with
    | some f => k.release f.1
    | none => k.release (found.getD 0 (0#7, false)).1

/-- `resolve` past the prefixes. -/
def resolveKey (m : KeyMap) (keysym : Keysym) (down : Bool) : KeyState :=
  match m.modifierPosition keysym with
  | some p => if down then (k.press p).1 else k.release p
  | none =>
    match k.heldBy keysym with
    | some h => if down then k else k.release h.pos
    | none =>
      let found := m.positions keysym
      if found = [] then { k with unbound := k.unbound + 1 }
      else if down then k.pressFound keysym found
      else k.releaseFound found

/-- `resolve` behind a standing prefix, for a keysym that is none. -/
def resolveBehind (m : KeyMap) (keysym : Keysym) : KeyState :=
  let first := k.standing
  let k := { k with standing := 0#32 }.markTapped keysym
  match m.afterPrefix first keysym with
  | none => k
  | some (p, want) => (k.behindPrefix p want).1

/-- `resolve`. -/
def resolve (m : KeyMap) (keysym : Keysym) (down : Bool) : KeyState :=
  if !down && k.tapped.contains keysym then { k with tapped := k.tapped.erase keysym }
  else if m.isPrefix keysym then
    -- The prefix's own release, the way out of a sequence, and a prefix pressed.
    if down then { k with standing := if k.standing ≠ 0#32 then 0#32 else keysym } else k
  else if k.standing ≠ 0#32 ∧ down then k.resolveBehind m keysym
  else k.resolveKey m keysym down

/-- `key_sequence_let_go`. -/
def sequenceLetGo : KeyState := { k with standing := 0#32 }.unlatch

/-- The loop of `key_all_up`, over at most so many positions. -/
def liftAll : Nat → KeyState → KeyState
  | 0, k => k
  | left + 1, k =>
    match k.down with
    | [] => k
    | p :: _ =>
      let k := k.release p
      let k := if k.hasDown p then { k.dropDown p with refused := k.refused + 1 } else k
      liftAll left k

/-- `key_all_up`. -/
def allUp : KeyState :=
  { liftAll k.down.length k with latched := [], tapped := [], standing := 0#32 }

end KeyState

/-- A call on the keyboard. -/
inductive KeyCall where
  | event (keysym : Keysym) (down : Bool)
  | took
  | letGo
  | allUp

/-- A keyboard, the words read off it, and the keysyms pressed and not released since. -/
structure Keyboard where
  keys : KeyState
  read : List (BitVec 32)
  pressed : List Keysym

namespace Keyboard

def begun : Keyboard := ⟨keyStateInit, [], []⟩

def step (m : KeyMap) (b : Keyboard) : KeyCall → Keyboard
  | .event keysym down =>
    { b with
      keys := b.keys.resolve m keysym down
      pressed := if down then keysym :: b.pressed else b.pressed.filter (· != keysym) }
  | .took => { b with keys := b.keys.took, read := b.read ++ b.keys.queue.take 1 }
  | .letGo => { b with keys := b.keys.sequenceLetGo }
  | .allUp => { b with keys := b.keys.allUp }

end Keyboard

/-- The key a word is about, and whether it is up: a boot word is about none. -/
def keyWord (word : BitVec 32) : Option (Position × Bool) :=
  if word.extractLsb' 10 6 = 0#6 then some (word.setWidth 7, word.getLsbD 8) else none

/-- Whether the last word about a position says it is down. -/
def told (p : Position) (words : List (BitVec 32)) : Bool :=
  words.foldl (fun down word =>
    match keyWord word with
    | some (q, up) => if q = p then !up else down
    | none => down) false

end MuirFpga.Terminal
