import MuirFpga.Terminal.Rfb
import Mathlib.Tactic.SplitIfs

/-!
# A viewer's bytes

`viewer_step` and the read before it in `screen_server_poll`: what has arrived is held in an inbox of
4,096 bytes and taken message by message as far as it goes. What a message does to the server is left
out, and is that it was handled; so are the answers queued for the viewer, the thirty seconds a
handshake may take and the errors of the socket.
-/

namespace MuirFpga.Terminal

/-- `enum stage`. -/
inductive Stage where
  | version
  | security
  | init
  | running
deriving DecidableEq

/-- What `viewer_step` takes off the inbox. -/
inductive Taken where
  | version (v : Version)
  | security (chose : Byte)
  | init
  | message (m : Message)

/-- A viewer: `in_len` is how many bytes the inbox has. -/
structure Viewer where
  inbox : List Byte
  stage : Stage
  ver : Version
  skip : Nat
  taken : List Taken

/-- The inbox's size. -/
def inboxSize : Nat := 4096

/-- `accept_one`. -/
def accepted : Viewer := ⟨[], .version, .v33, 0, []⟩

/-- A turn of the loop: wait for more, go on, or drop the viewer and why. -/
inductive Turn where
  | wait (v : Viewer)
  | go (v : Viewer)
  | drop (v : Viewer) (why : String)

namespace Viewer

/-- Bytes off the front, and what they were. -/
def take (v : Viewer) (used : Nat) (taken : Taken) : Viewer :=
  { v with inbox := v.inbox.drop used, taken := v.taken ++ [taken] }

/-- The complaint about a format. -/
def complaint (f : Format) : String :=
  let width := f.bitsPerPixel.toNat
  let red := f.redShift.toNat
  let green := f.greenShift.toNat
  let blue := f.blueShift.toNat
  s!"{width} bits a pixel with shifts {red}, {green} and {blue}"

/-- The switch on a message. -/
def message (v : Viewer) : Message → Turn
  | .setPixelFormat f => if !formatFits f then .drop v (complaint f) else .go v
  | .cutText len => .go { v with skip := len.toNat }
  | _ => .go v

/-- The switch on the stage. -/
def handle (v : Viewer) : Turn :=
  match v.stage with
  | .version =>
    if v.inbox.length < 12 then .wait v
    else
      let ver := versionParse v.inbox
      .go { v.take 12 (.version ver) with
        ver := ver, stage := if readsBack ver then .security else .init }
  | .security =>
    if v.inbox.length < 1 then .wait v
    else
      let chose := v.inbox.getD 0 0#8
      if chose ≠ 1#8 then
        .drop (v.take 1 (.security chose)) "asked for a security type that is not offered"
      else .go { v.take 1 (.security chose) with stage := .init }
  | .init =>
    if v.inbox.length < 1 then .wait v
    else .go { v.take 1 .init with stage := .running }
  | .running =>
    match rfbParse v.inbox with
    | .more => .wait v
    | .unknown type =>
      let type := type.toNat
      .drop v s!"message type {type}, whose length RFC 6143 does not give"
    | .message m used => (v.take used (.message m)).message m

/-- A turn: what is still to be skipped first. -/
def turn (v : Viewer) : Turn :=
  let n := min v.skip v.inbox.length
  let v := { v with inbox := v.inbox.drop n, skip := v.skip - n }
  if v.skip ≠ 0 then .wait v else v.handle

end Viewer

theorem parsed_used {buf : List Byte} {m : Message} {used : Nat}
    (parsed : rfbParse buf = .message m used) : 0 < used ∧ used ≤ buf.length := by
  unfold rfbParse at parsed
  dsimp only at parsed
  split_ifs at parsed <;> injection parsed with _ used <;> omega

theorem handle_shorter {v v' : Viewer} (goes : v.handle = .go v') :
    v'.inbox.length < v.inbox.length := by
  unfold Viewer.handle at goes
  split at goes
  · split_ifs at goes with short
    injection goes with same
    rw [← same]
    simp only [Viewer.take, List.length_drop]
    omega
  · dsimp only at goes
    split_ifs at goes with short chose
    injection goes with same
    rw [← same]
    simp only [Viewer.take, List.length_drop]
    omega
  · split_ifs at goes with short
    injection goes with same
    rw [← same]
    simp only [Viewer.take, List.length_drop]
    omega
  · split at goes
    · exact nomatch goes
    · exact nomatch goes
    · rename_i m used parsed
      obtain ⟨some, within⟩ := parsed_used parsed
      have left : (v.take used (.message m)).inbox.length < v.inbox.length := by
        simp only [Viewer.take, List.length_drop]
        omega
      unfold Viewer.message at goes
      split at goes
      · split_ifs at goes
        injection goes with same
        rw [← same]
        exact left
      · injection goes with same
        rw [← same]
        exact left
      · injection goes with same
        rw [← same]
        exact left

theorem turn_shorter {v v' : Viewer} (goes : v.turn = .go v') :
    v'.inbox.length < v.inbox.length := by
  unfold Viewer.turn at goes
  dsimp only at goes
  split_ifs at goes
  have less := handle_shorter goes
  simp only [List.length_drop] at less
  omega

/-- `viewer_step`: 0 keeps the viewer, -1 drops it. -/
def viewerStep (v : Viewer) : Viewer × Option String :=
  match _goes : v.turn with
  | .wait v => (v, none)
  | .drop v why => (v, some why)
  | .go v' => viewerStep v'
termination_by v.inbox.length
decreasing_by exact turn_shorter _goes

/-- A viewer, what it has sent that is not read, and why it was dropped, if it was. -/
structure Connection where
  viewer : Viewer
  unread : List Byte
  gone : Option String

/-- A pass over a viewer, in which so many bytes more have come: one read, if any have, of as many of
them as the inbox has room for. A read into no room gives 0. -/
def Connection.poll (c : Connection) (come : Nat) : Connection :=
  match c.gone with
  | some _ => c
  | none =>
    if c.unread = [] ∨ come = 0 then
      let (v, gone) := viewerStep c.viewer
      { c with viewer := v, gone := gone }
    else
      let got := min come (inboxSize - c.viewer.inbox.length)
      if got = 0 then { c with gone := some "the viewer closed the connection" }
      else
        let (v, gone) := viewerStep
          { c.viewer with inbox := c.viewer.inbox ++ c.unread.take got }
        ⟨v, c.unread.drop got, gone⟩

/-- The passes over a viewer that sends a stream. -/
def served (stream : List Byte) (comes : List Nat) : Connection :=
  comes.foldl Connection.poll ⟨accepted, stream, none⟩

end MuirFpga.Terminal
