import MuirFpga.Chaosnet.Udp

/-!
# Where frames go over UDP

`chaos_udp.c`'s routing: which endpoints a frame is offered to, and which of the frames that come in are
delivered. Every datagram is counted once on the road it takes.
-/

namespace MuirFpga.Chaosnet

/-- An address and port of the host's network. -/
structure Endpoint where
  addr : BitVec 32
  port : BitVec 16
deriving DecidableEq

/-- `struct chudp_peer`. `chudp_add_peer` takes no address 0. -/
structure Peer where
  address : Word
  where_ : Endpoint
  some_ : address ≠ 0

/-- The counts of `struct chudp`. -/
structure LinkCounts where
  received : Nat
  delivered : Nat
  badShape : Nat
  badChecksum : Nat
  notThisCable : Nat
  badCheckWord : Nat

/-- `struct chudp`. -/
structure Link extends LinkCounts where
  local_ : Word
  defaultPeer : Option Endpoint
  peers : List Peer

/-- A link with nothing counted yet. -/
def Link.opened (local_ : Word) (defaultPeer : Option Endpoint) (peers : List Peer) : Link :=
  { local_, defaultPeer, peers, received := 0, delivered := 0, badShape := 0, badChecksum := 0
    notThisCable := 0, badCheckWord := 0 }

/-- `peer_for`, whether there is one. -/
def Link.peerFor (u : Link) (address : Word) : Bool := u.peers.any fun p => p.address = address

/-- The endpoints a datagram was handed to `sendto` for, and how many of those went. -/
structure Offers where
  to_ : List Endpoint
  sent : Nat

/-- One `sendto`: the next of the answers. -/
def Offers.sendto (o : Offers) (goes : Nat → Bool) (e : Endpoint) : Offers :=
  ⟨o.to_ ++ [e], if goes o.to_.length then o.sent + 1 else o.sent⟩

/-- What a send did: the link, the endpoints the datagram was offered to, and what it answers. -/
structure Sending where
  link : Link
  offered : List Endpoint
  answer : Int

section Link

variable (ulongMax : Nat)

def bump (c : Nat) : Nat := if c ≠ ulongMax then c + 1 else c

/-- The peers offered a datagram, in the table's order. -/
def Link.sendPeers (u : Link) (goes : Nat → Bool) (cableDest : Word) : Offers :=
  u.peers.foldl (fun o p => if cableDest ≠ 0 ∧ p.address ≠ cableDest then o else o.sendto goes p.where_) ⟨[], 0⟩

/-- `chudp_send`. -/
def Link.send (u : Link) (goes : Nat → Bool) (words : List Word) (cableDest : Word) : Sending :=
  match chudpWrap words maxFrame with
  | none => ⟨u, [], 0⟩
  | some _ =>
    let want := checkWord (words.take (words.length - 1))
    if words.getD (words.length - 1) 0#16 ≠ want then
      ⟨{ u with badCheckWord := bump ulongMax u.badCheckWord }, [], -1⟩
    else if cableDest ≠ 0 ∧ cableDest = u.local_ then ⟨u, [], 0⟩
    else
      let o := u.sendPeers goes cableDest
      match u.defaultPeer with
      | none => ⟨u, o.to_, o.sent⟩
      | some e =>
        let o := if o.sent = 0 ∧ cableDest ≠ 0 then o.sendto goes e else o
        ⟨u, o.to_, o.sent⟩

/-- A datagram off the socket, cut to the buffer, and the frame delivered of it. -/
def Link.take (u : Link) (datagram : List Byte) : Link × Option (List Word) :=
  let u := { u with received := bump ulongMax u.received }
  match chudpUnwrap (datagram.take (maxFrame + 1)) maxWords with
  | .error refusal =>
    if refusal.badChecksum then ({ u with badChecksum := bump ulongMax u.badChecksum }, none)
    else ({ u with badShape := bump ulongMax u.badShape }, none)
  | .ok words =>
    let cableDest := words.getD (words.length - 3) 0#16
    let cableSource := words.getD (words.length - 2) 0#16
    if cableSource = 0 ∨ cableSource = u.local_ then
      ({ u with notThisCable := bump ulongMax u.notThisCable }, none)
    else if cableDest ≠ 0 ∧ u.peerFor cableDest then
      ({ u with notThisCable := bump ulongMax u.notThisCable }, none)
    else ({ u with delivered := bump ulongMax u.delivered }, some words)

/-- `chudp_poll`, on what the socket has: the frames delivered, in order. -/
def Link.poll (u : Link) (max : Nat) (socket : List (List Byte)) : Link × List (List Word) :=
  (socket.take max).foldl (fun s datagram =>
    let (u, frame) := s.1.take ulongMax datagram
    (u, s.2 ++ frame.toList)) (u, [])

/-- Polls one after another. -/
def Link.polls (u : Link) (calls : List (Nat × List (List Byte))) : Link × List (List Word) :=
  calls.foldl (fun s call =>
    let (u, frames) := s.1.poll ulongMax call.1 call.2
    (u, s.2 ++ frames)) (u, [])

end Link

end MuirFpga.Chaosnet
