import MuirFpga.Arith.OnesSum

/-!
# Checksum offload

`qed_offload.c`: the IPv4, TCP, UDP and ICMP checksums filled in on transmit and checked on receive. A frame
that transmit fills in is one that receive takes.
-/

namespace MuirFpga.Ethernet

open MuirFpga.Arith

def tcp : Nat := 6
def udp : Nat := 17
def icmp : Nat := 1

def typeArp : Nat := 0x0806
def typeIpv4 : Nat := 0x0800

/-- `qed_ones_sum`. -/
def onesSum (data : List Byte) : Nat := endAround (addWords 0 data)

/-- A well-formed IPv4 frame's parts: the header's length, the payload's protocol, where the payload starts and
ends, the frame's length, and the place of a checked protocol's checksum in the payload. -/
structure Datagram where
  h : Nat
  p : Nat
  start : Nat
  stop : Nat
  n : Nat
  field : Option Nat
deriving DecidableEq

/-- The pseudo-header's sum for TCP and UDP, 0 for ICMP. -/
def pseudo (d : Datagram) (f : List Byte) : Nat :=
  if d.p ≠ tcp ∧ d.p ≠ udp then 0
  else addWords (addWords 0 (slice f 26 34)) [0, BitVec.ofNat 8 d.p] + (d.stop - d.start)

/-- What the protocol's sum is of, its carries not yet brought round. -/
def payloadWords (d : Datagram) (f : List Byte) : Nat := addWords (pseudo d f) (slice f d.start d.stop)

def payloadSum (d : Datagram) (f : List Byte) : Nat := endAround (payloadWords d f)

inductive Kind where
  | noType
  | otherType
  | arp
  | ipv4
deriving DecidableEq

/-- The byte at a place. -/
def byteAt (f : List Byte) (k : Nat) : Nat := (f.getD k 0).toNat

/-- Where a protocol that is checked has its checksum, if its payload is well-formed. -/
def field (f : List Byte) (p start l : Nat) : Except String (Option Nat) :=
  if p = tcp then if l < 20 then .error "TCP payload under 20 bytes" else .ok (some 16)
  else if p = udp then
    if l < 8 then .error "UDP payload under 8 bytes"
    else if wordAt f (start + 4) ≠ l then .error "UDP length not the payload's"
    else .ok (some 6)
  else if p = icmp then if l < 8 then .error "ICMP payload under 8 bytes" else .ok (some 2)
  else .ok none

def datagram (f : List Byte) : Except String Datagram :=
  let n := f.length
  if n < 34 then .error "IPv4 frame under 34 bytes"
  else if byteAt f 14 / 16 ≠ 4 then .error "IPv4 version not 4"
  else
    let ihl := byteAt f 14 % 16
    if ihl < 5 then .error "IPv4 IHL under 5"
    else
      let h := 4 * ihl
      let tl := wordAt f 16
      if tl < h then .error "IPv4 total length under the header's"
      else if 14 + tl > n then .error "IPv4 total length past the frame"
      else
        let p := byteAt f 23
        let start := 14 + h
        let stop := 14 + tl
        let fragment : Bool := (byteAt f 20).testBit 5 ∨ wordAt f 20 % 0x2000 ≠ 0
        if fragment then .ok ⟨h, p, start, stop, n, none⟩
        else (field f p start (stop - start)).map fun field => ⟨h, p, start, stop, n, field⟩

def kind (f : List Byte) : Kind :=
  if f.length < 14 then .noType
  else if wordAt f 12 = typeArp then .arp
  else if wordAt f 12 = typeIpv4 then .ipv4
  else .otherType

/-- The complement of a sum. -/
def complement (sum : Nat) : Nat := 65535 - sum

/-- The frame with its header's checksum, and with its payload's. -/
def fillHeader (d : Datagram) (f : List Byte) : List Byte :=
  let f := putWord f 24 0
  putWord f 24 (complement (onesSum (slice f 14 (14 + d.h))))

def fillPayload (d : Datagram) (f : List Byte) : List Byte :=
  match d.field with
  | none => f
  | some field =>
    let at_ := d.start + field
    let f := putWord f at_ 0
    let c := complement (payloadSum d f)
    putWord f at_ (if d.p = udp ∧ c = 0 then 65535 else c)

/-- `qed_transmit`: the frame it leaves, and why it is refused if it is. -/
def transmit (f : List Byte) : List Byte × Option String :=
  match kind f with
  | .noType => (f, some "frame under 14 bytes")
  | .otherType => (f, some "type not IPv4 or ARP")
  | .arp => (f, none)
  | .ipv4 =>
    match datagram f with
    | .error bad => (f, some bad)
    | .ok d => (fillPayload d (fillHeader d f), none)

/-- `enum qed_counter`. -/
inductive Counter where
  | none_
  | type
  | ipv4
deriving DecidableEq

/-- What a dropped frame's bad checksum is called. -/
def checksumBad (p : Nat) : String :=
  if p = tcp then "TCP checksum bad" else if p = udp then "UDP checksum bad" else "ICMP checksum bad"

/-- `qed_receive`: the counter a drop advances, and why. -/
def receive (f : List Byte) : Counter × Option String :=
  match kind f with
  | .noType => (.type, some "frame under 14 bytes")
  | .otherType => (.type, some "type not IPv4 or ARP")
  | .arp => (.none_, none)
  | .ipv4 =>
    match datagram f with
    | .error bad => (.ipv4, some bad)
    | .ok d =>
      if onesSum (slice f 14 (14 + d.h)) ≠ 65535 then (.ipv4, some "IPv4 header checksum bad")
      else
        match d.field with
        | none => (.none_, none)
        | some field =>
          if d.p = udp ∧ wordAt f (d.start + field) = 0 then (.none_, none)
          else if payloadSum d f ≠ 65535 then (.ipv4, some (checksumBad d.p))
          else (.none_, none)

end MuirFpga.Ethernet
