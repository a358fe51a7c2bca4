import MuirFpga.Chaosnet.Packet
import Mathlib.Data.BitVec

/-!
# Chaosnet over UDP

`chaos_udp.c`'s datagram: a frame's words behind four bytes, the Internet checksum in the place of the
frame's check word. A datagram is taken apart only if its words sum right, and the frame it gives has
the check word the machine expects.
-/

namespace MuirFpga.Chaosnet

/-- `enum chudp_order`. -/
inductive Order where
  | little
  | big

/-- `CHUDP_PACKET_ORDER`, `CHUDP_TRAILER_ORDER`. -/
def packetOrder : Order := .big
def trailerOrder : Order := .big

/-- `CHUDP_VERSION`, `CHUDP_FUNCTION_PACKET`. -/
def chudpVersion : Byte := 1#8
def functionPacket : Byte := 1#8

/-- `CHUDP_HEADER`, `CHUDP_TRAILER`, `CHUDP_SOFTWARE_HEADER`, `CHUDP_MAX_FRAME`. -/
def chudpHeader : Nat := 4
def chudpTrailer : Nat := 6
def softwareHeader : Nat := headerWords * 2
def maxFrame : Nat := chudpHeader + 16 + maxData + chudpTrailer

/-- `put_word`. -/
def putWord : Order → Word → List Byte
  | .little, w => [w.setWidth 8, (w >>> 8).setWidth 8]
  | .big, w => [(w >>> 8).setWidth 8, w.setWidth 8]

/-- `get_word`. -/
def getWord : Order → Byte → Byte → Word
  | .little, first, second => first.setWidth 16 ||| second.setWidth 16 <<< 8
  | .big, first, second => first.setWidth 16 <<< 8 ||| second.setWidth 16

/-- The word at a place of a datagram. -/
def wordAt (order : Order) (datagram : List Byte) (place : Nat) : Word :=
  getWord order (datagram.getD place 0#8) (datagram.getD (place + 1) 0#8)

/-- A word into the sum, the carry folded back in. -/
def carrySum (sum : Nat) (w : Word) : Nat :=
  (sum + w.toNat) % 2 ^ 16 + (sum + w.toNat) / 2 ^ 16

/-- `chudp_checksum`. -/
def chudpChecksum (words : List Word) : Word := ~~~BitVec.ofNat 16 (words.foldl carrySum 0)

/-- `chudp_checksum_ok`. -/
def checksumOk (words : List Word) : Bool := !words.isEmpty && chudpChecksum words == 0#16

/-- `chudp_wrap`. -/
def chudpWrap (words : List Word) (max : Nat) : Option (List Byte) :=
  if words.length < headerWords + trailerWords ∨ words.length > maxWords then none
  else
    let body := words.length - trailerWords
    if chudpHeader + body * 2 + chudpTrailer > max then none
    else some ([chudpVersion, functionPacket, 0#8, 0#8] ++
      (words.take body).flatMap (putWord packetOrder) ++
      ((words.drop body).take 2).flatMap (putWord trailerOrder) ++
      putWord trailerOrder (chudpChecksum (words.take (body + 2))))

/-- A refusal: what is said of it, and whether it is the checksum's. -/
structure Refusal where
  why : String
  badChecksum : Bool

/-- `%04x`. -/
def hex4 (w : Word) : String :=
  String.ofList ((List.range 4).map fun k => Nat.digitChar (w.toNat / 16 ^ (3 - k) % 16))

/-- The words of a datagram whose body has so many. -/
def datagramWords (datagram : List Byte) (bodyWords : Nat) : List Word :=
  ((List.range bodyWords).map fun k => wordAt packetOrder datagram (chudpHeader + 2 * k)) ++
    (List.range trailerWords).map fun k =>
      wordAt trailerOrder datagram (datagram.length - chudpTrailer + 2 * k)

/-- `chudp_unwrap`. -/
def chudpUnwrap (datagram : List Byte) (max : Nat) : Except Refusal (List Word) :=
  let len := datagram.length
  if len > maxFrame then .error ⟨s!"{len} bytes is longer than any Chaos packet", false⟩
  else if len < chudpHeader + softwareHeader + chudpTrailer then
    .error ⟨s!"{len} bytes is too short for a packet", false⟩
  else
    let version := (datagram.getD 0 0#8).toNat
    let speaks := chudpVersion.toNat
    if version ≠ speaks then .error ⟨s!"version {version}, and this speaks {speaks}", false⟩
    else
      let function := (datagram.getD 1 0#8).toNat
      let packet := functionPacket.toNat
      if function ≠ packet then
        .error ⟨s!"function {function}, and only {packet} carries a packet", false⟩
      else
        let body := len - chudpHeader - chudpTrailer
        let count := (wordAt packetOrder datagram (chudpHeader + 2) &&& 0o7777#16).toNat
        if count > maxData then
          .error ⟨s!"a data count of {count}, and the most is {maxData}", false⟩
        else if body ≠ softwareHeader + (count + 1) / 2 * 2 then
          .error ⟨s!"{body} bytes of packet against a data count of {count}", false⟩
        else
          let bodyWords := (body + 1) / 2
          let n := bodyWords + trailerWords
          if n > max then .error ⟨s!"{n} words, and there is room for {max}", false⟩
          else
            let out := datagramWords datagram bodyWords
            if !checksumOk out then
              let sent := hex4 (out.getD (n - 1) 0#16)
              let want := hex4 (chudpChecksum (out.take (n - 1)))
              .error ⟨s!"the words do not sum right: the checksum is 0x{sent} and they want 0x{want}",
                true⟩
            else .ok (out.take (n - 1) ++ [checkWord (out.take (n - 1))])

section Order

variable (order : Order)

theorem putWord_length (w : Word) : (putWord order w).length = 2 := by cases order <;> rfl

theorem flatMap_putWord_length (words : List Word) :
    (words.flatMap (putWord order)).length = 2 * words.length := by
  induction words with
  | nil => rfl
  | cons w words ih =>
    rw [List.flatMap_cons, List.length_append, putWord_length, ih, List.length_cons]
    omega

theorem getWord_putWord (w : Word) :
    getWord order ((putWord order w).getD 0 0#8) ((putWord order w).getD 1 0#8) = w := by
  have joined : dataWord (w.setWidth 8) ((w >>> 8).setWidth 8) = w := dataWord_bytes
  unfold dataWord at joined
  cases order with
  | little => exact joined
  | big => exact (BitVec.or_comm _ _).trans joined

theorem wordAt_putWord (front rest : List Byte) (w : Word) :
    wordAt order (front ++ putWord order w ++ rest) front.length = w := by
  have two := putWord_length order w
  unfold wordAt
  rw [List.append_assoc, List.getD_append_right _ _ _ _ (Nat.le_refl _), Nat.sub_self,
    List.getD_append_right _ _ _ _ (Nat.le_succ _), Nat.succ_sub (Nat.le_refl _), Nat.sub_self,
    List.getD_append _ _ _ _ (by omega), List.getD_append _ _ _ _ (by omega)]
  exact getWord_putWord order w

theorem wordAt_flatMap (words : List Word) (front rest : List Byte) :
    ((List.range words.length).map fun k =>
      wordAt order (front ++ words.flatMap (putWord order) ++ rest) (front.length + 2 * k)) =
        words := by
  induction words generalizing front with
  | nil => rfl
  | cons w words ih =>
    have next := ih (front ++ putWord order w)
    have first := wordAt_putWord order front (words.flatMap (putWord order) ++ rest) w
    have two := putWord_length order w
    have same : front ++ (w :: words).flatMap (putWord order) ++ rest =
        front ++ putWord order w ++ words.flatMap (putWord order) ++ rest := by
      simp [List.flatMap_cons]
    rw [List.length_cons, List.range_succ_eq_map, List.map_cons, List.map_map, same]
    rw [List.append_assoc (front ++ putWord order w)]
    refine congrArg₂ List.cons first ?_
    rw [List.append_assoc (front ++ putWord order w)] at next
    refine (List.map_congr_left ?_).trans next
    intro k _
    refine congrArg (wordAt order _) ?_
    rw [List.length_append, two]
    omega

end Order

section Checksum

theorem carrySum_le {sum : Nat} (small : sum ≤ 65535) (w : Word) : carrySum sum w ≤ 65535 := by
  have below := w.isLt
  unfold carrySum
  omega

theorem sum_le (words : List Word) : words.foldl carrySum 0 ≤ 65535 := by
  have kept : ∀ (words : List Word) (sum : Nat), sum ≤ 65535 → words.foldl carrySum sum ≤ 65535 := by
    intro words
    induction words with
    | nil => exact fun _ small => small
    | cons w words ih => exact fun sum small => ih _ (carrySum_le small w)
  exact kept words 0 (by omega)

theorem checksum_sums (words : List Word) :
    (words ++ [chudpChecksum words]).foldl carrySum 0 = 65535 := by
  have small := sum_le words
  have value : (chudpChecksum words).toNat = 65535 - words.foldl carrySum 0 := by
    unfold chudpChecksum
    rw [BitVec.toNat_not, BitVec.toNat_ofNat]
    omega
  rw [List.foldl_append, List.foldl_cons, List.foldl_nil]
  generalize words.foldl carrySum 0 = sum at small value ⊢
  unfold carrySum
  omega

theorem checksum_ok (words : List Word) : checksumOk (words ++ [chudpChecksum words]) = true := by
  unfold checksumOk
  have sums := checksum_sums words
  generalize chudpChecksum words = last at sums ⊢
  unfold chudpChecksum
  rw [sums]
  simp

end Checksum

/-- Words whose data count agrees with how many there are. -/
def Counted (words : List Word) : Prop :=
  byteCount words ≤ maxData ∧
    words.length = headerWords + (byteCount words + 1) / 2 + trailerWords

/-- The words before the check word, and the check word they should have. -/
def rechecked (words : List Word) : List Word :=
  words.take (words.length - 1) ++ [checkWord (words.take (words.length - 1))]

theorem rechecked_of_right {words : List Word} (some : words ≠ [])
    (right : words.getD (words.length - 1) 0#16 = checkWord (words.take (words.length - 1))) :
    rechecked words = words := by
  have positive : 0 < words.length := List.length_pos_iff.mpr some
  unfold rechecked
  rw [← right, List.getD_eq_getElem _ _ (by omega)]
  exact List.take_append_getElem (by omega) |>.trans (by
    rw [show words.length - 1 + 1 = words.length by omega, List.take_length])

section Wrap

variable {words : List Word} {datagram : List Byte} {max room : Nat}

theorem wrapped (wrap : chudpWrap words max = some datagram) :
    headerWords + trailerWords ≤ words.length ∧ words.length ≤ maxWords ∧
      datagram = [chudpVersion, functionPacket, 0#8, 0#8] ++
        (words.take (words.length - trailerWords)).flatMap (putWord packetOrder) ++
        ((words.drop (words.length - trailerWords)).take 2 ++
          [chudpChecksum (words.take (words.length - 1))]).flatMap (putWord trailerOrder) := by
  unfold chudpWrap at wrap
  split_ifs at wrap with outside
  dsimp only at wrap
  split_ifs at wrap
  injection wrap with same
  have two : words.length - trailerWords + 2 = words.length - 1 := by
    unfold headerWords trailerWords at *
    omega
  refine ⟨by omega, by omega, ?_⟩
  rw [← same, two, List.flatMap_append]
  simp

theorem wrapped_words (wrap : chudpWrap words max = some datagram) :
    datagram.length = chudpHeader + 2 * (words.length - trailerWords) + chudpTrailer ∧
      datagramWords datagram (words.length - trailerWords) =
        words.take (words.length - 1) ++ [chudpChecksum (words.take (words.length - 1))] := by
  obtain ⟨least, -, same⟩ := wrapped wrap
  have size : words.length - trailerWords + 3 = words.length := by
    unfold headerWords trailerWords at *
    omega
  have body : (words.take (words.length - trailerWords)).length = words.length - trailerWords := by
    rw [List.length_take]
    omega
  have tail : ((words.drop (words.length - trailerWords)).take 2 ++
      [chudpChecksum (words.take (words.length - 1))]).length = trailerWords := by
    rw [List.length_append, List.length_take, List.length_drop]
    simp only [List.length_cons, List.length_nil, trailerWords] at size ⊢
    omega
  have length : datagram.length =
      chudpHeader + 2 * (words.length - trailerWords) + chudpTrailer := by
    rw [same, List.length_append, List.length_append, flatMap_putWord_length,
      flatMap_putWord_length, body, tail]
    rfl
  refine ⟨length, ?_⟩
  have first := wordAt_flatMap packetOrder (words.take (words.length - trailerWords))
    [chudpVersion, functionPacket, 0#8, 0#8]
    (((words.drop (words.length - trailerWords)).take 2 ++
      [chudpChecksum (words.take (words.length - 1))]).flatMap (putWord trailerOrder))
  have last := wordAt_flatMap trailerOrder ((words.drop (words.length - trailerWords)).take 2 ++
      [chudpChecksum (words.take (words.length - 1))])
    ([chudpVersion, functionPacket, 0#8, 0#8] ++
      (words.take (words.length - trailerWords)).flatMap (putWord packetOrder)) []
  rw [← same, body] at first
  rw [List.append_nil, ← same, tail, List.length_append, flatMap_putWord_length, body] at last
  unfold datagramWords
  rw [length, Nat.add_sub_cancel]
  refine (congrArg₂ (fun left right => left ++ right) first last).trans ?_
  rw [← List.append_assoc, ← List.take_add]
  rw [show words.length - trailerWords + 2 = words.length - 1 by omega]

theorem wrapped_count (wrap : chudpWrap words max = some datagram) :
    wordAt packetOrder datagram (chudpHeader + 2) = words.getD 1 0#16 := by
  obtain ⟨least, -, -⟩ := wrapped wrap
  obtain ⟨-, same⟩ := wrapped_words wrap
  have at1 := congrArg (fun list => list.getD 1 0#16) same
  unfold headerWords trailerWords at least
  have inside : 1 < words.length - trailerWords := by
    unfold trailerWords
    omega
  have left : (datagramWords datagram (words.length - trailerWords)).getD 1 0#16 =
      wordAt packetOrder datagram (chudpHeader + 2) := by
    unfold datagramWords
    rw [List.getD_append _ _ _ _ (by simpa using inside),
      List.getD_eq_getElem _ _ (by simpa using inside)]
    simp
  have right : (words.take (words.length - 1) ++
      [chudpChecksum (words.take (words.length - 1))]).getD 1 0#16 = words.getD 1 0#16 := by
    rw [List.getD_append _ _ _ _ (by rw [List.length_take]; omega),
      List.getD_eq_getElem _ _ (by rw [List.length_take]; omega),
      List.getD_eq_getElem _ _ (by omega), List.getElem_take]
  exact left.symm.trans (at1.trans right)

/-- A wrapped frame comes back, its check word right, just when counted. -/
theorem unwrap_wrap (wrap : chudpWrap words max = some datagram) (fits : words.length ≤ room) :
    chudpUnwrap datagram room = .ok (rechecked words) ↔ Counted words := by
  obtain ⟨least, most, same⟩ := wrapped wrap
  obtain ⟨length, out⟩ := wrapped_words wrap
  have count := wrapped_count wrap
  have counted : (wordAt packetOrder datagram (chudpHeader + 2) &&& 0o7777#16).toNat =
      byteCount words := by
    rw [count]
    rfl
  have version : (datagram.getD 0 0#8).toNat = chudpVersion.toNat := by
    rw [same]
    rfl
  have function : (datagram.getD 1 0#8).toNat = functionPacket.toNat := by
    rw [same]
    rfl
  have front : (words.take (words.length - 1) ++
      [chudpChecksum (words.take (words.length - 1))]).take (words.length - 1) =
        words.take (words.length - 1) := by
    apply List.take_left'
    rw [List.length_take]
    omega
  have sizes : headerWords = 8 ∧ trailerWords = 3 ∧ maxWords = 255 ∧ chudpHeader = 4 ∧
      chudpTrailer = 6 ∧ softwareHeader = 16 ∧ maxFrame = 514 := by decide
  obtain ⟨header, trailer, longest, before, after, software, frame⟩ := sizes
  unfold chudpUnwrap Counted
  dsimp only
  rw [if_neg (by omega), if_neg (by omega), if_neg (not_not.mpr version),
    if_neg (not_not.mpr function), counted]
  by_cases much : byteCount words > maxData
  · rw [if_pos much]
    exact ⟨fun refused => (nomatch refused), fun fair => absurd fair.1 (Nat.not_le.mpr much)⟩
  · rw [if_neg much]
    by_cases agree : words.length = headerWords + (byteCount words + 1) / 2 + trailerWords
    · have body : (datagram.length - chudpHeader - chudpTrailer + 1) / 2 =
          words.length - trailerWords := by omega
      have n : words.length - trailerWords + trailerWords = words.length := by omega
      rw [if_neg (by omega), body, n, if_neg (by omega), out, checksum_ok]
      simp only [Bool.not_true, Bool.false_eq_true, if_false, front]
      exact ⟨fun _ => ⟨by omega, agree⟩, fun _ => rfl⟩
    · rw [if_pos (by omega)]
      exact ⟨fun refused => (nomatch refused), fun fair => absurd fair.2 agree⟩

end Wrap

/-- A frame's words whose data count is 1 where there are no data words. -/
def countless : List Word := 0#16 :: 1#16 :: List.replicate 9 0#16

theorem countless_wrapped : (chudpWrap countless maxFrame).isSome = true := by decide

/-- A frame made into a datagram is not always taken out of it again. -/
theorem unwrap_refuses : ¬ ∀ (words : List Word) (max : Nat) (datagram : List Byte),
    chudpWrap words max = some datagram → ∀ room, words.length ≤ room →
      chudpUnwrap datagram room = .ok (rechecked words) := by
  intro always
  obtain ⟨datagram, wrap⟩ := Option.isSome_iff_exists.mp countless_wrapped
  have taken := always countless maxFrame datagram wrap maxWords (by decide)
  have counted := ((unwrap_wrap wrap (by decide)).mp taken).2
  exact absurd counted (by decide)

/-- The codecs agree: a packet's frame is taken apart into it, its check word right; a frame that
parses is made again of what it was taken apart into, if its pad byte and its opcode's low byte are
0 and its check word is right; and the datagram of a frame gives back its words, the right check word
in the last place (so the frame itself, if its check word was right), if and only if its data count
agrees with its length. -/
theorem frames_agree (words : List Word) :
    (∀ (p : Packet) (cableDest cableSource : Word) (max : Nat), p.forward.toNat < 16 →
      headerWords + (p.data.length + 1) / 2 + trailerWords ≤ max →
      ∃ made, packetFrame p cableDest cableSource max = some made ∧
        frameParse made = .ok ⟨p, cableDest, cableSource,
          checkWord (made.take (made.length - 1)), true⟩) ∧
    (∀ (f : Frame) (max : Nat), frameParse words = .ok f →
      (words.getD 0 0#16).setWidth 8 = 0#8 →
      (f.packet.data.length % 2 = 1 →
        words.getD (headerWords + f.packet.data.length / 2) 0#16 >>> 8 = 0#16) →
      f.checkOk = true → words.length ≤ max →
      packetFrame f.packet f.cableDest f.cableSource max = some words) ∧
    (∀ (max : Nat) (datagram : List Byte),
      chudpWrap words max = some datagram → ∀ room, words.length ≤ room →
        (chudpUnwrap datagram room = .ok (rechecked words) ↔ Counted words)) ∧
    (words ≠ [] →
      words.getD (words.length - 1) 0#16 = checkWord (words.take (words.length - 1)) →
        rechecked words = words) := by
  refine ⟨?_, ?_, fun max datagram wrap room fits => unwrap_wrap wrap fits,
    fun some right => rechecked_of_right some right⟩
  · intro p cableDest cableSource max small room
    refine ⟨_, packetFrame_room room, ?_⟩
    have length : p.words.length + 3 - 1 = p.words.length + 2 := by omega
    have front : (p.words ++ [cableDest, cableSource] ++
        [checkWord (p.words ++ [cableDest, cableSource])]).take (p.words.length + 2) =
          p.words ++ [cableDest, cableSource] := (trailer_getD p.words _ _ _).2.2.2
    have parsed : frameParse (p.words ++ [cableDest, cableSource] ++
        [checkWord (p.words ++ [cableDest, cableSource])]) =
          .ok ⟨p, cableDest, cableSource, checkWord (p.words ++ [cableDest, cableSource]),
            checkWord (p.words ++ [cableDest, cableSource]) ==
              checkWord (p.words ++ [cableDest, cableSource])⟩ := parse_frame small
    rw [beq_self_eq_true] at parsed
    rw [parsed, List.length_append, List.length_append]
    simp only [List.length_cons, List.length_nil]
    rw [show p.words.length + (0 + 1 + 1) + (0 + 1) - 1 = p.words.length + 2 by omega, front]
  · intro f max parsed opcode pad right fits
    obtain ⟨same, check⟩ := parsed_words parsed opcode pad
    have checked : checkWord (f.packet.words ++ [f.cableDest, f.cableSource]) = f.check := by
      rw [right] at check
      exact eq_of_beq check.symm
    have length : words.length = headerWords + (f.packet.data.length + 1) / 2 + trailerWords := by
      rw [same, List.length_append, List.length_append, words_length]
      rfl
    rw [packetFrame_room (by omega), checked, ← same]

/-- A packet of one byte, and its frame. -/
def bytePacket : Packet := ⟨0o200#8, 1#8, 3#16, 4#16, 5#16, 6#16, 7#16, 8#16, [0o101#8], by decide⟩
def byteFrame : List Word :=
  bytePacket.words ++ [3#16, 5#16] ++ [checkWord (bytePacket.words ++ [3#16, 5#16])]

/-- The packet through its frame, and the frame through its datagram. -/
theorem frames_agree_byte :
    packetFrame bytePacket 3#16 5#16 12 = some byteFrame ∧
      frameParse byteFrame = .ok ⟨bytePacket, 3#16, 5#16, checkWord (byteFrame.take 11), true⟩ ∧
      ∃ datagram, chudpWrap byteFrame maxFrame = some datagram ∧ datagram.length = 28 ∧
        chudpUnwrap datagram maxWords = .ok byteFrame := by
  obtain ⟨packets, words, datagrams, right⟩ := frames_agree byteFrame
  obtain ⟨made, frame, parsed⟩ := packets bytePacket 3#16 5#16 12 (by decide) (by decide)
  have same : packetFrame bytePacket 3#16 5#16 12 = some byteFrame := packetFrame_room (by decide)
  rw [same, Option.some_inj] at frame
  subst frame
  refine ⟨words _ 12 parsed (by decide) (fun _ => by decide) rfl (by decide), parsed, ?_⟩
  have made : (chudpWrap byteFrame maxFrame).isSome = true := by decide
  obtain ⟨datagram, wrap⟩ := Option.isSome_iff_exists.mp made
  have counted := (datagrams maxFrame datagram wrap maxWords (by decide)).mpr ⟨by decide, by decide⟩
  rw [right (by decide) (by decide +kernel)] at counted
  have length : (chudpWrap byteFrame maxFrame).map List.length = some 28 := by decide
  rw [wrap] at length
  exact ⟨datagram, wrap, Option.some_inj.mp length, counted⟩

end MuirFpga.Chaosnet
