import MuirFpga.Ethernet.Offload

/-!
# What is filled in is taken

A well-formed frame's checksum fields lie apart from what its parts are read from, so a frame filled in has
the same parts, and its sums are all ones.
-/

namespace MuirFpga.Ethernet

open MuirFpga.Arith

/-- The place of a checked protocol's checksum. -/
def checkField (p : Nat) : Option Nat :=
  if p = tcp then some 16 else if p = udp then some 6 else if p = icmp then some 2 else none

/-- The frame is a fragment of a datagram. -/
def Fragment (f : List Byte) : Prop := (byteAt f 20).testBit 5 = true ∨ wordAt f 20 % 0x2000 ≠ 0

/-- What a well-formed frame's parts are. -/
structure Formed (f : List Byte) (d : Datagram) : Prop where
  long : 34 ≤ f.length
  version : 64 ≤ byteAt f 14
  head : d.start = 14 + d.h
  whole : 20 ≤ d.h
  h : d.h = 4 * (byteAt f 14 % 16)
  p : d.p = byteAt f 23
  order : d.start ≤ d.stop
  inside : d.stop ≤ f.length
  checked : ∀ field, d.field = some field →
    checkField d.p = some field ∧ ¬Fragment f ∧ d.start + field + 1 < d.stop
  unchecked : d.field = none → checkField d.p = none ∨ Fragment f

variable {f g : List Byte} {d : Datagram} {place : Nat}

theorem field_ok {p start l : Nat} {found : Option Nat} (ok : field f p start l = .ok found) :
    found = checkField p ∧ ∀ place, found = some place → place + 1 < l := by
  unfold field at ok
  unfold checkField
  split_ifs at ok ⊢ with isTcp short isUdp shortUdp other isIcmp shortIcmp
  all_goals
    have same := Except.ok.inj ok
    subst same
    refine ⟨rfl, ?_⟩
    intro place is
    cases is
    try omega

theorem formed_of_ok (ok : datagram f = .ok d) : Formed f d := by
  unfold datagram at ok
  dsimp only at ok
  split_ifs at ok with short version ihl under past fragment
  · have same := Except.ok.inj ok
    subst same
    refine ⟨by omega, by omega, rfl, by dsimp only; omega, rfl, rfl, by dsimp only; omega, by dsimp only; omega, ?_, ?_⟩
    · intro field is
      cases is
    · intro _
      right
      unfold Fragment
      exact of_decide_eq_true fragment
  · cases found : field f (byteAt f 23) (14 + 4 * (byteAt f 14 % 16))
        (14 + wordAt f 16 - (14 + 4 * (byteAt f 14 % 16))) with
    | error bad =>
      rw [found] at ok
      cases ok
    | ok place =>
      rw [found] at ok
      have same := Except.ok.inj ok
      obtain ⟨own, room⟩ := field_ok found
      subst same
      refine ⟨by omega, by omega, rfl, by dsimp only; omega, rfl, rfl, by dsimp only; omega, by dsimp only; omega,
        ?_, ?_⟩
      · intro place' is
        have fits := room place' is
        refine ⟨own ▸ is, fun whole => fragment (decide_eq_true whole), ?_⟩
        dsimp only
        omega
      · intro none_
        exact .inl (own ▸ none_)

theorem datagram_congr (length : g.length = f.length) (head : ∀ k < 24, g.getD k 0 = f.getD k 0)
    (udpLength : wordAt g (14 + 4 * (byteAt f 14 % 16) + 4) = wordAt f (14 + 4 * (byteAt f 14 % 16) + 4)) :
    datagram g = datagram f := by
  have byte (k : Nat) (early : k < 24) : byteAt g k = byteAt f k := congrArg BitVec.toNat (head k early)
  have word (k : Nat) (early : k + 1 < 24) : wordAt g k = wordAt f k := by
    unfold wordAt
    rw [head k (Nat.lt_of_succ_lt early), head (k + 1) early]
  unfold datagram field
  dsimp only
  rw [length, byte 14 (by decide), byte 20 (by decide), byte 23 (by decide), word 16 (by decide),
    word 20 (by decide), udpLength]

theorem kind_congr (length : g.length = f.length) (head : ∀ k < 24, g.getD k 0 = f.getD k 0) : kind g = kind f := by
  unfold kind wordAt
  rw [length, head 12 (by decide), head 13 (by decide)]

/-- A checksum's field. -/
def Fills (d : Datagram) (place : Nat) : Prop := place = 24 ∨ ∃ field, d.field = some field ∧ place = d.start + field

theorem Formed.apart (formed : Formed f d) (fills : Fills d place) :
    24 ≤ place ∧ (d.start + 5 < place ∨ place + 1 < d.start + 4) := by
  have head := formed.head
  have whole := formed.whole
  rcases fills with rfl | ⟨field, is, rfl⟩
  · omega
  · have checked := (formed.checked field is).1
    unfold checkField at checked
    split_ifs at checked
    all_goals
      cases checked
      omega

theorem Formed.put (formed : Formed f d) (fills : Fills d place) (v : Nat) :
    datagram (putWord f place v) = datagram f ∧ kind (putWord f place v) = kind f := by
  have apart := formed.apart fills
  have head (k : Nat) (early : k < 24) : (putWord f place v).getD k 0 = f.getD k 0 :=
    getD_putWord (by omega) (by omega)
  refine ⟨datagram_congr length_putWord head ?_, kind_congr length_putWord head⟩
  rw [← formed.h, ← formed.head]
  apply wordAt_putWord_ne
  omega

/-- The header's checksum, and the payload's. -/
def headerSum (f : List Byte) (d : Datagram) : Nat :=
  complement (onesSum (slice (putWord f 24 0) 14 (14 + d.h)))

def fieldSum (f : List Byte) (d : Datagram) (field : Nat) : Nat :=
  let c := complement (payloadSum d (putWord f (d.start + field) 0))
  if d.p = udp ∧ c = 0 then 65535 else c

theorem fillHeader_eq : fillHeader d f = putWord f 24 (headerSum f d) := putWord_putWord

theorem fillPayload_eq {field : Nat} (is : d.field = some field) :
    fillPayload d f = putWord f (d.start + field) (fieldSum f d field) := by
  unfold fillPayload
  rw [is]
  exact putWord_putWord

theorem complement_lt (sum : Nat) : complement sum < 65536 := by
  unfold complement
  omega

theorem fieldSum_lt {field : Nat} : fieldSum f d field < 65536 := by
  unfold fieldSum
  dsimp only
  split
  · decide
  · exact complement_lt _

theorem Formed.header (formed : Formed f d) :
    onesSum (slice (putWord f 24 (headerSum f d)) 14 (14 + d.h)) = 65535 := by
  have room : 2 * 5 + 1 < (slice f 14 (14 + d.h)).length := by
    have long := formed.long
    have whole := formed.whole
    unfold slice
    rw [List.length_take, List.length_drop]
    omega
  have fits : headerSum f d < 65536 := complement_lt _
  unfold onesSum
  rw [slice_putWord (by decide), show 24 - 14 = 2 * 5 by decide, addWords_putWord 5 room fits]
  unfold headerSum onesSum complement
  rw [slice_putWord (by decide)]
  exact endAround_complement _

theorem pseudo_putWord {v : Nat} (after : 34 ≤ place) : pseudo d (putWord f place v) = pseudo d f := by
  unfold pseudo
  rw [slice_putWord_after (by decide) after]

theorem Formed.payload (formed : Formed f d) {field : Nat} (is : d.field = some field) :
    payloadSum d (putWord f (d.start + field) (fieldSum f d field)) = 65535 := by
  obtain ⟨checked, _, room⟩ := formed.checked field is
  have inside := formed.inside
  have whole := formed.whole
  have head := formed.head
  have even : ∃ half, field = 2 * half := by
    unfold checkField at checked
    split_ifs at checked
    all_goals cases checked
    · exact ⟨8, rfl⟩
    · exact ⟨3, rfl⟩
    · exact ⟨1, rfl⟩
  obtain ⟨half, rfl⟩ := even
  have words (v : Nat) (fits : v < 65536) : payloadWords d (putWord f (d.start + 2 * half) v) =
      payloadWords d (putWord f (d.start + 2 * half) 0) + v := by
    have long : 2 * half + 1 < (slice f d.start d.stop).length := by
      unfold slice
      rw [List.length_take, List.length_drop]
      omega
    unfold payloadWords
    rw [pseudo_putWord (by omega), pseudo_putWord (by omega), slice_putWord (Nat.le_add_right _ _),
      slice_putWord (Nat.le_add_right _ _), Nat.add_sub_cancel_left]
    generalize pseudo d f = before
    rw [addWords_eq, addWords_putWord half long fits, addWords_eq before, Nat.add_assoc]
  have own := words (fieldSum f d (2 * half)) fieldSum_lt
  unfold payloadSum
  rw [own]
  unfold fieldSum payloadSum complement
  dsimp only
  split
  · next ones =>
    apply endAround_ones
    have bound := (endAround_spec (payloadWords d (putWord f (d.start + 2 * half) 0))).1
    omega
  · exact endAround_complement _

theorem Formed.fills (formed : Formed f d) {field : Nat} (is : d.field = some field) :
    14 + d.h ≤ d.start + field ∧ 24 + 1 < d.start ∧ d.start + field + 1 < f.length := by
  obtain ⟨_, _, room⟩ := formed.checked field is
  have inside := formed.inside
  have whole := formed.whole
  have head := formed.head
  omega

theorem Formed.headerSum_put (formed : Formed f d) {field : Nat} (is : d.field = some field) (v w : Nat) :
    headerSum (putWord (putWord f 24 v) (d.start + field) w) d = headerSum f d := by
  have fills := formed.fills is
  unfold headerSum
  rw [slice_putWord (by decide), slice_putWord_after (Nat.le_add_right _ _) fills.1, slice_putWord (by decide),
    putWord_putWord, ← slice_putWord (by decide)]

/-- What is filled in a frame: its parts stay, its sums are all ones, and filling it in again changes nothing. -/
structure Filled (f g : List Byte) (d : Datagram) : Prop where
  length : g.length = f.length
  parts : datagram g = datagram f
  type : kind g = kind f
  header : onesSum (slice g 14 (14 + d.h)) = 65535
  payload : d.field ≠ none → payloadSum d g = 65535
  some_ : ∀ field, d.field = some field → d.p = udp → wordAt g (d.start + field) ≠ 0
  again : fillPayload d (fillHeader d g) = g
  elsewhere : ∀ k, k ≠ 24 → k ≠ 25 →
    (∀ field, d.field = some field → k ≠ d.start + field ∧ k ≠ d.start + field + 1) → g.getD k 0 = f.getD k 0

theorem fieldSum_udp {field : Nat} (isUdp : d.p = udp) : fieldSum f d field ≠ 0 := by
  unfold fieldSum
  dsimp only
  split
  · decide
  · next other => exact fun none_ => other ⟨isUdp, none_⟩

theorem filled (ok : datagram f = .ok d) : Filled f (fillPayload d (fillHeader d f)) d := by
  have form := formed_of_ok ok
  have long := form.long
  rw [fillHeader_eq]
  have put := form.put (.inl rfl) (headerSum f d)
  have header := form.header
  have own : wordAt (putWord f 24 (headerSum f d)) 24 = headerSum f d :=
    wordAt_putWord (by omega) (complement_lt _)
  cases is : d.field with
  | none =>
    have still (f : List Byte) : fillPayload d f = f := by
      unfold fillPayload
      rw [is]
    rw [still]
    refine ⟨length_putWord, put.1, put.2, header, fun some_ => absurd is some_, ?_, ?_, ?_⟩
    · intro field found
      cases is.symm.trans found
    · rw [still, fillHeader_eq]
      have same : headerSum (putWord f 24 (headerSum f d)) d = headerSum f d := by
        unfold headerSum
        rw [putWord_putWord]
      rw [same, putWord_putWord]
    · intro k high low _
      exact getD_putWord high low
  | some field =>
    have fills := form.fills is
    have formHeader : Formed (putWord f 24 (headerSum f d)) d := formed_of_ok (put.1.trans ok)
    rw [fillPayload_eq is]
    have putField := formHeader.put (.inr ⟨field, is, rfl⟩) (fieldSum (putWord f 24 (headerSum f d)) d field)
    refine ⟨length_putWord.trans length_putWord, putField.1.trans put.1, putField.2.trans put.2, ?_, ?_, ?_, ?_, ?_⟩
    · rw [slice_putWord_after (Nat.le_add_right _ _) fills.1]
      exact header
    · intro _
      exact formHeader.payload is
    · intro field' found isUdp
      cases is.symm.trans found
      rw [wordAt_putWord (by rw [length_putWord]; exact fills.2.2) fieldSum_lt]
      exact fieldSum_udp isUdp
    · rw [fillHeader_eq, form.headerSum_put is, fillPayload_eq is]
      generalize sum : fieldSum (putWord f 24 (headerSum f d)) d field = c
      have there : wordAt (putWord (putWord f 24 (headerSum f d)) (d.start + field) c) 24 = headerSum f d := by
        rw [wordAt_putWord_ne (by omega), own]
      rw [putWord_self (by rw [length_putWord, length_putWord]; omega) there]
      have same : fieldSum (putWord (putWord f 24 (headerSum f d)) (d.start + field) c) d field = c := by
        rw [← sum]
        unfold fieldSum
        rw [putWord_putWord]
      rw [same, putWord_putWord]
    · intro k high low other
      have apart := other field is
      rw [getD_putWord apart.1 apart.2, getD_putWord high low]

/-- What transmit and receive make of a frame. -/
structure Offloaded (f : List Byte) : Prop where
  accepted : (transmit f).2 = none → receive (transmit f).1 = (.none_, none)
  length : (transmit f).1.length = f.length
  differs : ∀ k, (transmit f).1.getD k 0 ≠ f.getD k 0 → kind f = .ipv4 ∧ (k = 24 ∨ k = 25 ∨
    ∃ d field, datagram f = .ok d ∧ checkField d.p = some field ∧ ¬Fragment f ∧
      (k = d.start + field ∨ k = d.start + field + 1))
  arp : kind f = .arp → transmit f = (f, none)
  udp_ : (transmit f).2 = none → kind f = .ipv4 → ∀ d, datagram (transmit f).1 = .ok d → d.p = udp →
    ¬Fragment (transmit f).1 → wordAt (transmit f).1 (d.start + 6) ≠ 0
  again : (transmit f).2 = none → transmit (transmit f).1 = ((transmit f).1, none)
  refused : (transmit f).2 ≠ none → (transmit f).1 = f

theorem transmit_ok (ip : kind f = .ipv4) (ok : datagram f = .ok d) :
    transmit f = (fillPayload d (fillHeader d f), none) := by
  unfold transmit
  rw [ip]
  dsimp only
  rw [ok]

theorem transmit_cases (f : List Byte) :
    kind f = .arp ∧ transmit f = (f, none) ∨ (∃ d, kind f = .ipv4 ∧ datagram f = .ok d) ∨
      kind f ≠ .arp ∧ ∃ why, transmit f = (f, some why) := by
  unfold transmit
  cases type : kind f with
  | noType => exact .inr (.inr ⟨by decide, _, rfl⟩)
  | otherType => exact .inr (.inr ⟨by decide, _, rfl⟩)
  | arp => exact .inl ⟨rfl, rfl⟩
  | ipv4 =>
    cases ok : datagram f with
    | error bad => exact .inr (.inr ⟨by decide, bad, rfl⟩)
    | ok d => exact .inr (.inl ⟨d, rfl, rfl⟩)

theorem Filled.received (full : Filled f g d) (ip : kind f = .ipv4) (ok : datagram f = .ok d) :
    receive g = (.none_, none) := by
  unfold receive
  rw [full.type, ip]
  dsimp only
  rw [full.parts, ok]
  dsimp only
  rw [if_neg (not_not.mpr full.header)]
  cases is : d.field with
  | none => rfl
  | some field =>
    have payload := full.payload (by rw [is]; exact Option.some_ne_none field)
    dsimp only
    split
    · rfl
    · rw [if_neg (not_not.mpr payload)]

theorem Formed.field_of (formed : Formed f d) (whole : ¬Fragment f) : d.field = checkField d.p := by
  cases is : d.field with
  | none =>
    cases formed.unchecked is with
    | inl none_ => exact none_.symm
    | inr fragment => exact absurd fragment whole
  | some field => exact (formed.checked field is).1.symm

theorem offloaded (f : List Byte) : Offloaded f := by
  rcases transmit_cases f with ⟨arp, same⟩ | ⟨d, ip, ok⟩ | ⟨other, why, same⟩
  · refine ⟨?_, ?_, ?_, fun _ => same, ?_, ?_, ?_⟩
    · intro _
      rw [same]
      unfold receive
      rw [arp]
    · rw [same]
    · intro k differs
      rw [same] at differs
      exact absurd rfl differs
    · intro _ ip
      rw [arp] at ip
      cases ip
    · intro _
      rw [same]
      exact same
    · intro refused
      rw [same] at refused
      exact absurd rfl refused
  · have full := filled ok
    have form := formed_of_ok ok
    have done : transmit (transmit f).1 = ((transmit f).1, none) := by
      rw [transmit_ok ip ok, transmit_ok (full.type.trans ip) (full.parts.trans ok), full.again]
    rw [transmit_ok ip ok] at done
    refine ⟨?_, ?_, ?_, ?_, ?_, ?_, ?_⟩ <;> rw [transmit_ok ip ok]
    · intro _
      exact full.received ip ok
    · exact full.length
    · intro k differs
      refine ⟨ip, ?_⟩
      by_contra outside
      rw [not_or, not_or] at outside
      apply differs
      apply full.elsewhere k outside.1 outside.2.1
      intro field is
      obtain ⟨checked, whole, _⟩ := form.checked field is
      rw [← not_or]
      intro among
      exact outside.2.2 ⟨d, field, ok, checked, whole, among⟩
    · intro arp
      rw [ip] at arp
      cases arp
    · intro _ _ d' again isUdp whole
      have own : d = d' := Except.ok.inj ((full.parts.trans ok).symm.trans again)
      subst own
      have is := (formed_of_ok again).field_of whole
      rw [isUdp] at is
      exact full.some_ 6 is isUdp
    · intro _
      exact done
    · intro refused
      exact absurd rfl refused
  · refine ⟨?_, ?_, ?_, ?_, ?_, ?_, ?_⟩
    · intro taken
      rw [same] at taken
      cases taken
    · rw [same]
    · intro k differs
      rw [same] at differs
      exact absurd rfl differs
    · intro arp
      exact absurd arp other
    · intro taken
      rw [same] at taken
      cases taken
    · intro taken
      rw [same] at taken
      cases taken
    · intro _
      rw [same]

theorem Formed.header_ne_zero (formed : Formed f d) : addWords 0 (slice f 14 (14 + d.h)) ≠ 0 := by
  apply addWords_ne_zero
  rw [getD_slice (by have whole := formed.whole; omega)]
  have version := formed.version
  unfold byteAt at version
  omega

theorem Formed.payload_ne_zero (formed : Formed f d) {field : Nat} (is : d.field = some field)
    (other : d.p ≠ icmp) : payloadWords d f ≠ 0 := by
  obtain ⟨checked, _, room⟩ := formed.checked field is
  have tcpOrUdp : ¬(d.p ≠ tcp ∧ d.p ≠ udp) := by
    rintro ⟨notTcp, notUdp⟩
    unfold checkField at checked
    rw [if_neg notTcp, if_neg notUdp, if_neg other] at checked
    cases checked
  unfold payloadWords pseudo
  rw [if_neg tcpOrUdp, addWords_eq]
  omega

/-- When receive takes a well-formed IPv4 frame. -/
structure Receives (f : List Byte) : Prop where
  malformed : ∀ bad, kind f = .ipv4 → datagram f = .error bad → receive f = (.ipv4, some bad)
  formed : ∀ d, kind f = .ipv4 → datagram f = .ok d → ((receive f).1 = .none_ ↔
    addWords 0 (slice f 14 (14 + d.h)) % 65535 = 0 ∧
      (checkField d.p = none ∨ Fragment f ∨ d.p = udp ∧ wordAt f (d.start + 6) = 0 ∨
        payloadWords d f % 65535 = 0 ∧ (d.p = icmp → payloadWords d f ≠ 0)))

theorem receives (f : List Byte) : Receives f where
  malformed bad ip error := by
    unfold receive
    rw [ip]
    dsimp only
    rw [error]
  formed d ip ok := by
    have form := formed_of_ok ok
    unfold receive
    rw [ip]
    dsimp only
    rw [ok]
    dsimp only
    by_cases header : onesSum (slice f 14 (14 + d.h)) = 65535
    · have right := (endAround_top.mp header).1
      rw [if_neg (not_not.mpr header)]
      cases is : d.field with
      | none =>
        constructor
        · intro _
          exact ⟨right, (form.unchecked is).elim .inl fun fragment => .inr (.inl fragment)⟩
        · intro _
          rfl
      | some field =>
        obtain ⟨checked, whole, _⟩ := form.checked field is
        have sums : payloadSum d f = 65535 ↔
            payloadWords d f % 65535 = 0 ∧ (d.p = icmp → payloadWords d f ≠ 0) := by
          unfold payloadSum
          rw [endAround_top]
          apply and_congr_right
          intro _
          by_cases isIcmp : d.p = icmp
          · exact ⟨fun some_ _ => some_, fun some_ => some_ isIcmp⟩
          · exact ⟨fun some_ _ => some_, fun _ => form.payload_ne_zero is isIcmp⟩
        have udpField (isUdp : d.p = udp) : field = 6 := by
          rw [isUdp] at checked
          exact (Option.some.inj checked).symm
        dsimp only
        by_cases free : d.p = udp ∧ wordAt f (d.start + field) = 0
        · rw [if_pos free]
          have zero := free.2
          rw [udpField free.1] at zero
          exact ⟨fun _ => ⟨right, .inr (.inr (.inl ⟨free.1, zero⟩))⟩, fun _ => rfl⟩
        · rw [if_neg free]
          by_cases sum : payloadSum d f = 65535
          · rw [if_neg (not_not.mpr sum)]
            exact ⟨fun _ => ⟨right, .inr (.inr (.inr (sums.mp sum)))⟩, fun _ => rfl⟩
          · rw [if_pos sum]
            constructor
            · intro taken
              cases taken
            · rintro ⟨_, none_ | fragment | zero | sumRight⟩
              · cases checked.symm.trans none_
              · exact absurd fragment whole
              · exact absurd ⟨zero.1, udpField zero.1 ▸ zero.2⟩ free
              · exact absurd (sums.mpr sumRight) sum
    · rw [if_pos header]
      constructor
      · intro taken
        cases taken
      · intro right
        exact absurd (endAround_top.mpr ⟨right.1, form.header_ne_zero⟩) header

/-- Checksum offload, both ways. -/
theorem offload (f : List Byte) : Offloaded f ∧ Receives f := ⟨offloaded f, receives f⟩

section Counterexample

/-- An echo reply of nothing but zeros, its header right. -/
def zeroReply : List Byte := List.replicate 12 0 ++ [8, 0, 0x45, 0, 0, 28, 0, 0, 0, 0, 0, 1, 0xba, 0xe2] ++
  List.replicate 16 0

/-- The first fragment of a UDP datagram without a checksum. -/
def firstFragment : List Byte := List.replicate 12 0 ++ [8, 0, 0x45, 0, 0, 28, 0, 0, 0x20, 0, 0, 17, 0, 0] ++
  List.replicate 16 0

/-- A reply that sums to 0 is dropped, and a fragment's checksum of 0 is left. -/
theorem not_offload :
    (¬∀ f d, kind f = .ipv4 → datagram f = .ok d → ((receive f).1 = .none_ ↔
      addWords 0 (slice f 14 (14 + d.h)) % 65535 = 0 ∧
        (checkField d.p = none ∨ Fragment f ∨ d.p = udp ∧ wordAt f (d.start + 6) = 0 ∨
          payloadWords d f % 65535 = 0))) ∧
      ¬∀ f d, (transmit f).2 = none → datagram (transmit f).1 = .ok d → d.p = udp →
        wordAt (transmit f).1 20 % 0x2000 = 0 → wordAt (transmit f).1 (d.start + 6) ≠ 0 := by
  constructor
  · intro all
    have ok : datagram zeroReply = .ok ⟨20, 1, 34, 42, 42, some 2⟩ := by decide
    have taken := (all zeroReply _ (by decide) ok).mpr
      ⟨by decide, .inr (.inr (.inr (by decide)))⟩
    exact absurd taken (by decide +kernel)
  · intro all
    have ok : datagram (transmit firstFragment).1 = .ok ⟨20, 17, 34, 42, 42, none⟩ := by decide
    have some_ := all firstFragment _ (by decide) ok rfl (by decide)
    exact absurd some_ (by decide)

end Counterexample

end MuirFpga.Ethernet
