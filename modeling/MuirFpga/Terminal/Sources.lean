import MuirFpga.Terminal.Keys
import MuirFpga.Terminal.Rfb

/-!
# The sources of input

The viewers of `screen_server.c` and the clients of `cadr_input_link.c`: their keys and switches, one key
state for all of them, and what each owes when it goes. The server has its input face. What the pointer
moves, and the places of the sources in their arrays, are left out.
-/

namespace MuirFpga.Terminal

/-- A source, by a number of its own. -/
inductive Source where
  | viewer (id : Nat)
  | client (id : Nat)
deriving DecidableEq

/-- A viewer, or a client of the link: the keysyms it has down, oldest first, and its switches. -/
structure Attached where
  id : Nat
  held : List Keysym
  buttons : Byte
deriving DecidableEq

/-- Whose key left a sequence standing: `sequence_by`. -/
inductive SequenceBy where
  | viewer (id : Nat)
  | link
deriving DecidableEq

/-- `struct screen_server`, with the link's clients. `face` is the switches' register, once it is
written. For the record only: `sent` has the calls of `key_event_from`; `prefixBy` and `latchBy` say whose
key left each prefix and each latch that stands; `next` numbers the sources. -/
structure Server where
  keys : KeyState
  viewers : List Attached
  clients : List Attached
  sequenceBy : Option SequenceBy
  buttons : Byte
  linkButtons : Byte
  havePtr : Bool
  linkWaking : Bool
  swallowed : List Keysym
  swallowedButtons : Byte
  face : Option Byte
  sent : List (Keysym × Bool)
  prefixBy : Option Source
  latchBy : List (Position × Source)
  next : Nat

/-- `screen_server_bind`, with `key_state_init_with`. -/
def Server.begun : Server :=
  ⟨keyStateInit, [], [], none, 0#8, 0#8, false, false, [], 0#8, none, [], none, [], 0⟩

/-- A keysym a source sends, noted against it, up to so many. -/
def noteKey (max : Nat) (a : Attached) (keysym : Keysym) (down : Bool) : Attached :=
  if down then
    if !a.held.contains keysym && decide (a.held.length < max) then
      { a with held := a.held ++ [keysym] }
    else a
  else { a with held := a.held.erase keysym }

/-- `viewer_note`, up to `KEY_MAX_DOWN`. -/
def viewerNote := noteKey keyMaxDown

/-- `CADR_INPUT_LINK_DOWN_MAX`. -/
def linkDownMax : Nat := 20

/-- `note_down`. -/
def noteDown := noteKey linkDownMax

/-- The switches of sources, ORed: `viewers_buttons`, and `buttons_or` before its mask. -/
def orButtons (sources : List Attached) : Byte := sources.foldl (fun mask a => mask ||| a.buttons) 0#8

namespace Server

section Keys

variable (m : KeyMap) (s : Server)

/-- `key_event_from`, for a source. -/
def keyEventFrom (by_ : Source) (keysym : Keysym) (down : Bool) : Server :=
  let keys := s.keys.resolve m keysym down
  { s with
    keys := keys
    sent := s.sent ++ [(keysym, down)]
    prefixBy := if keys.standing = 0#32 then none
      else if s.keys.standing = 0#32 then some by_ else s.prefixBy
    latchBy := if keys.latched = [] then []
      else s.latchBy ++ (keys.latched.drop s.keys.latched.length).map (·, by_) }

/-- Whether a prefix or a latch stands. -/
def stands : Bool := s.keys.standing != 0#32 || !s.keys.latched.isEmpty

/-- `swallow_key`, with `SCREEN_SWALLOW_MAX`. The list's order is not read. -/
def swallowKey (keysym : Keysym) (down : Bool) : Server × Bool :=
  let held := s.swallowed.contains keysym
  if !down then
    if !held then (s, false) else ({ s with swallowed := s.swallowed.erase keysym }, true)
  else if held then (s, true)
  else if !s.linkWaking || (m.modifierPosition keysym).isSome
    || decide (s.swallowed.length ≥ linkDownMax) then (s, false)
  else ({ s with swallowed := s.swallowed ++ [keysym] }, true)

/-- `link_key`, from a client. -/
def linkKey (id : Nat) (keysym : Keysym) (down : Bool) : Server :=
  let (s, swallowed) := s.swallowKey m keysym down
  if swallowed then s
  else
    let s := s.keyEventFrom m (.client id) keysym down
    { s with sequenceBy := if s.stands then some .link else none }

/-- `write_buttons`, with the mask of `input_face_buttons`. -/
def writeButtons : Server :=
  { s with face := some ((s.buttons ||| (s.linkButtons &&& ~~~s.swallowedButtons)) &&& 7#8) }

/-- `link_buttons`. -/
def linkButtonsSet (mask : Byte) : Server :=
  let now := mask &&& 7#8
  let pressed := now &&& ~~~s.linkButtons
  let swallowed := if s.linkWaking && pressed != 0#8 then s.swallowedButtons ||| pressed
    else s.swallowedButtons
  { s with swallowedButtons := swallowed &&& now, linkButtons := now }.writeButtons

/-- `held_elsewhere`, for a viewer. -/
def heldElsewhere (id : Nat) (keysym : Keysym) : Bool :=
  (s.viewers.any fun w => w.id != id && w.held.contains keysym) ||
    s.clients.any fun c => c.held.contains keysym

/-- `key_sequence_let_go`. -/
def sequenceLetGo : Server :=
  { s with keys := s.keys.sequenceLetGo, prefixBy := none, latchBy := [] }

/-- `key_all_up`. -/
def allUp : Server := { s with keys := s.keys.allUp, prefixBy := none, latchBy := [] }

/-- `drop`, of a viewer. -/
def drop (v : Attached) : Server :=
  let others := s.viewers.filter fun w => w.id != v.id
  let s₁ := if s.sequenceBy = some (.viewer v.id) then
    { s.sequenceLetGo with sequenceBy := none } else s
  let s₂ := v.held.foldl (fun now keysym =>
    if s.heldElsewhere v.id keysym then now
    else now.keyEventFrom m (.viewer v.id) keysym false) s₁
  let still := orButtons others
  let s₃ := if still ≠ s₂.buttons then { s₂ with buttons := still }.writeButtons else s₂
  let s₄ := if s.viewers.length = 1 ∧ s.clients = [] then { s₃.allUp with havePtr := false } else s₃
  { s₄ with viewers := others }

/-- `forget`, of a client. -/
def forget (c : Attached) : Server :=
  let others := s.clients.filter fun d => d.id != c.id
  let s₁ := c.held.foldl (fun now keysym => now.linkKey m c.id keysym false) s
  { s₁ with clients := others }.linkButtonsSet (orButtons others &&& 7#8)

end Keys

end Server

/-- What happens at a server. A record of a client says whether it woke the monitor. -/
inductive Happening where
  | viewerComes
  | clientComes
  | viewerKey (id : Nat) (keysym : Keysym) (down : Bool)
  | viewerPointer (id : Nat) (buttons : Byte)
  | clientKey (id : Nat) (keysym : Keysym) (down waking : Bool)
  | clientPointer (id : Nat) (buttons : Byte) (waking : Bool)
  | viewerGoes (id : Nat)
  | clientGoes (id : Nat)
  | took

namespace Server

/-- One of the sources, changed. -/
def change (sources : List Attached) (id : Nat) (f : Attached → Attached) : List Attached :=
  sources.map fun a => if a.id = id then f a else a

variable (m : KeyMap) (s : Server)

/-- `RFB_KEY`. -/
def viewerKey (id : Nat) (keysym : Keysym) (down : Bool) : Server :=
  let s := s.keyEventFrom m (.viewer id) keysym down
  { s with
    viewers := change s.viewers id fun v => viewerNote v keysym down
    sequenceBy := if s.stands then some (.viewer id) else none }

/-- `RFB_POINTER`, its switches. -/
def viewerPointer (id : Nat) (buttons : Byte) : Server :=
  let first := !s.havePtr
  let s := { s with
    havePtr := true, viewers := change s.viewers id fun v => { v with buttons := buttons } }
  let mask := orButtons s.viewers
  if first || mask != s.buttons then { s with buttons := mask }.writeButtons else s

/-- A key record. -/
def clientKey (id : Nat) (keysym : Keysym) (down waking : Bool) : Server :=
  { s with
    linkWaking := waking
    clients := change s.clients id fun c => noteDown c keysym down }.linkKey m id keysym down

/-- A pointer record, its switches, which are three. -/
def clientPointer (c : Attached) (buttons : Byte) (waking : Bool) : Server :=
  let s := { s with linkWaking := waking }
  let buttons := buttons &&& 7#8
  if buttons ≠ c.buttons then
    let s := { s with clients := change s.clients c.id fun c => { c with buttons := buttons } }
    s.linkButtonsSet (orButtons s.clients &&& 7#8)
  else s

def step : Happening → Server
  | .viewerComes =>
    { s with viewers := s.viewers ++ [⟨s.next, [], 0#8⟩], next := s.next + 1 }
  | .clientComes =>
    { s with clients := s.clients ++ [⟨s.next, [], 0#8⟩], next := s.next + 1 }
  | .viewerKey id keysym down =>
    if s.viewers.any fun v => v.id == id then s.viewerKey m id keysym down else s
  | .viewerPointer id buttons =>
    if s.viewers.any fun v => v.id == id then s.viewerPointer id buttons else s
  | .clientKey id keysym down waking =>
    if s.clients.any fun c => c.id == id then s.clientKey m id keysym down waking else s
  | .clientPointer id buttons waking =>
    match s.clients.find? fun c => c.id == id with
    | some c => s.clientPointer c buttons waking
    | none => s
  | .viewerGoes id =>
    match s.viewers.find? fun v => v.id == id with
    | some v => s.drop m v
    | none => s
  | .clientGoes id =>
    match s.clients.find? fun c => c.id == id with
    | some c => s.forget m c
    | none => s
  | .took => { s with keys := s.keys.took }

end Server

end MuirFpga.Terminal
