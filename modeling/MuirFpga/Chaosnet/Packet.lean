import Mathlib.Data.List.GetD
import Mathlib.Data.Nat.Notation
import Mathlib.Tactic.SplitIfs

/-!
# A Chaosnet packet and its frame

`chaos_packet.c`: the eight header words and the data of a packet, the frame they make with the
trailer's three words, and the frame taken apart again. The check word is the 9401's CRC-16 over the
words before it.
-/

namespace MuirFpga.Chaosnet

/-- A 16-bit word, and a byte. -/
abbrev Word := BitVec 16
abbrev Byte := BitVec 8

/-- `CHAOS_PKT_MAX_DATA`, `CHAOS_PKT_HEADER_WORDS`, `CHAOS_PKT_TRAILER_WORDS`,
`CHAOS_PKT_MAX_WORDS`. -/
def maxData : Nat := 488
def headerWords : Nat := 8
def trailerWords : Nat := 3
def maxWords : Nat := headerWords + maxData / 2 + trailerWords

/-- `struct chaos_packet`: `len` is how many bytes the data has. -/
@[ext]
structure Packet where
  opcode : Byte
  forward : Byte
  dest : Word
  destIndex : Word
  source : Word
  sourceIndex : Word
  number : Word
  ack : Word
  data : List Byte
  fits : data.length ≤ maxData

/-- `struct chaos_frame`. -/
@[ext]
structure Frame where
  packet : Packet
  cableDest : Word
  cableSource : Word
  check : Word
  checkOk : Bool

/-- A word of the data: the first byte is in the low half. -/
def dataWord (low high : Byte) : Word := low.setWidth 16 ||| high.setWidth 16 <<< 8

/-- The data as words, an odd last byte padded with zero. -/
def dataWords : List Byte → List Word
  | [] => []
  | [low] => [dataWord low 0#8]
  | low :: high :: rest => dataWord low high :: dataWords rest

/-- `words[1]`: the forwarding count over the byte count. -/
def countWord (forward : Byte) (len : Nat) : Word :=
  forward.setWidth 16 <<< 12 ||| (BitVec.ofNat 16 len &&& 0o7777#16)

/-- The words of a packet, as `chaos_packet_words` writes them. -/
def Packet.words (p : Packet) : List Word :=
  [p.opcode.setWidth 16 <<< 8, countWord p.forward p.data.length, p.dest, p.destIndex, p.source,
    p.sourceIndex, p.number, p.ack] ++ dataWords p.data

/-- `chaos_packet_words`. -/
def packetWords (p : Packet) (max : Nat) : Option (List Word) :=
  if headerWords + (p.data.length + 1) / 2 > max then none else some p.words

/-- A bit into the register. -/
def checkBit (r : Word) (bit : Bool) : Word :=
  let next := r <<< 1
  if bit ^^ r.getLsbD 15 then next ^^^ (1#16 ||| 1#16 <<< 2 ||| 1#16 <<< 15) else next

/-- `chaos_check_word`: each word most significant bit first. -/
def checkWord (words : List Word) : Word :=
  words.foldl (fun r w => (List.range 16).foldl (fun r k => checkBit r (w.getLsbD (15 - k))) r) 0#16

/-- `chaos_packet_frame`. -/
def packetFrame (p : Packet) (cableDest cableSource : Word) (max : Nat) : Option (List Word) :=
  match packetWords p max with
  | none => none
  | some words =>
    if words.length + trailerWords > max then none
    else
      let framed := words ++ [cableDest, cableSource]
      some (framed ++ [checkWord framed])

/-- The bytes of a word, the low half first. -/
def wordBytes (w : Word) : List Byte := [w.setWidth 8, (w >>> 8).setWidth 8]

/-- As many bytes as the count says. -/
def dataBytes (words : List Word) (count : Nat) : List Byte := (words.flatMap wordBytes).take count

theorem dataBytes_length_le (words : List Word) (count : Nat) :
    (dataBytes words count).length ≤ count := by
  unfold dataBytes
  exact List.length_take_le _ _

/-- The byte count of a frame's words. -/
def byteCount (words : List Word) : Nat := (words.getD 1 0#16 &&& 0o7777#16).toNat

/-- `chaos_frame_parse`. -/
def frameParse (words : List Word) : Except String Frame :=
  if words.length < headerWords + trailerWords then
    .error "too few words for a header and a trailer"
  else if words.length > maxWords then .error "more words than any Chaos packet"
  else
    let body := words.length - trailerWords
    if fits : byteCount words ≤ maxData then
      if body ≠ headerWords + (byteCount words + 1) / 2 then
        .error "the data count does not agree with the frame's length"
      else
        let check := words.getD (body + 2) 0#16
        .ok
          { packet :=
              { opcode := (words.getD 0 0#16 >>> 8).setWidth 8
                forward := (words.getD 1 0#16 >>> 12).setWidth 8
                dest := words.getD 2 0#16
                destIndex := words.getD 3 0#16
                source := words.getD 4 0#16
                sourceIndex := words.getD 5 0#16
                number := words.getD 6 0#16
                ack := words.getD 7 0#16
                data := dataBytes ((words.drop headerWords).take ((byteCount words + 1) / 2))
                  (byteCount words)
                fits := Nat.le_trans (dataBytes_length_le _ _) fits }
            cableDest := words.getD body 0#16
            cableSource := words.getD (body + 1) 0#16
            check := check
            checkOk := checkWord (words.take (body + 2)) == check }
    else .error "a data count past the 488 bytes a packet carries"

section Words

variable {low high : Byte} {w : Word}

theorem dataWord_low : (dataWord low high).setWidth 8 = low := by
  apply BitVec.eq_of_getLsbD_eq
  intro t inside
  simp [dataWord, inside]

theorem dataWord_high : (dataWord low high >>> 8).setWidth 8 = high := by
  apply BitVec.eq_of_getLsbD_eq
  intro t inside
  simp [dataWord, inside, show 8 + t < 16 by omega]

theorem dataWord_bytes : dataWord (w.setWidth 8) ((w >>> 8).setWidth 8) = w := by
  apply BitVec.eq_of_getLsbD_eq
  intro t inside
  by_cases below : t < 8
  · simp [dataWord, inside, below]
  · simp [dataWord, inside, below, show t - 8 < 8 by omega, show 8 + (t - 8) = t by omega]

theorem wordBytes_dataWord : wordBytes (dataWord low high) = [low, high] := by
  unfold wordBytes
  rw [dataWord_low, dataWord_high]

end Words

section Data

theorem dataWords_length (data : List Byte) : (dataWords data).length = (data.length + 1) / 2 := by
  induction data using dataWords.induct with
  | case1 => simp [dataWords]
  | case2 low => simp [dataWords]
  | case3 low high rest ih =>
    simp only [dataWords, List.length_cons, ih]
    omega

theorem dataWords_bytes (data : List Byte) :
    ∃ pad, (dataWords data).flatMap wordBytes = data ++ pad := by
  induction data using dataWords.induct with
  | case1 => exact ⟨[], rfl⟩
  | case2 low => exact ⟨[0#8], by simp [dataWords, wordBytes_dataWord]⟩
  | case3 low high rest ih =>
    obtain ⟨pad, same⟩ := ih
    exact ⟨pad, by simp [dataWords, wordBytes_dataWord, same]⟩

theorem wordBytes_length (words : List Word) :
    (words.flatMap wordBytes).length = 2 * words.length := by
  induction words with
  | nil => rfl
  | cons w words ih =>
    rw [List.flatMap_cons, List.length_append, ih, List.length_cons]
    simp only [wordBytes, List.length_cons, List.length_nil]
    omega

theorem dataBytes_dataWords (data : List Byte) : dataBytes (dataWords data) data.length = data := by
  obtain ⟨pad, same⟩ := dataWords_bytes data
  unfold dataBytes
  rw [same, List.take_left]

theorem dataWords_dataBytes (words : List Word) (count : Nat)
    (length : words.length = (count + 1) / 2)
    (padded : count % 2 = 1 → words.getD (count / 2) 0#16 >>> 8 = 0#16) :
    dataWords (dataBytes words count) = words := by
  induction words generalizing count with
  | nil =>
    have none : count = 0 := by
      simp only [List.length_nil] at length
      omega
    subst none
    rfl
  | cons w words ih =>
    simp only [List.length_cons] at length
    match count with
    | 0 => omega
    | 1 =>
      have last : words = [] := List.length_eq_zero_iff.mp (by omega)
      have zero : w >>> 8 = 0#16 := padded rfl
      subst last
      have only : dataBytes [w] 1 = [w.setWidth 8] := rfl
      have whole : dataWord (w.setWidth 8) ((w >>> 8).setWidth 8) = w := dataWord_bytes
      rw [zero] at whole
      rw [only]
      exact congrArg (fun word => [word]) whole
    | count + 2 =>
      have rest := ih count (by omega) (fun odd => by
        have same := padded (by omega)
        rw [show (count + 2) / 2 = count / 2 + 1 by omega, List.getD_cons_succ] at same
        exact same)
      have step : dataBytes (w :: words) (count + 2) =
          w.setWidth 8 :: (w >>> 8).setWidth 8 :: dataBytes words count := by
        simp [dataBytes, wordBytes]
      rw [step, dataWords, dataWord_bytes, rest]

end Data

section Count

variable {forward : Byte} {len t : Nat}

theorem mask_bit : ∀ t, t < 16 → (0o7777#16).getLsbD t = decide (t < 12) := by decide

theorem len_bit (fits : len ≤ maxData) (beyond : 12 ≤ t) : (BitVec.ofNat 16 len).getLsbD t = false := by
  have inside : len < 2 ^ t :=
    Nat.lt_of_le_of_lt fits (Nat.lt_of_lt_of_le (by decide) (Nat.pow_le_pow_right (by decide) beyond))
  rw [BitVec.getLsbD_ofNat, Nat.testBit_lt_two_pow inside, Bool.and_false]

theorem byteCount_countWord (fits : len ≤ maxData) :
    (countWord forward len &&& 0o7777#16).toNat = len := by
  have same : countWord forward len &&& 0o7777#16 = BitVec.ofNat 16 len := by
    apply BitVec.eq_of_getLsbD_eq
    intro t below
    rw [BitVec.getLsbD_and, mask_bit t below]
    by_cases low : t < 12
    · simp [countWord, mask_bit t below, low]
    · rw [len_bit fits (by omega)]
      simp [low]
  have below : len < 2 ^ 16 := Nat.lt_of_le_of_lt fits (by decide)
  rw [same, BitVec.toNat_ofNat, Nat.mod_eq_of_lt below]

theorem forward_countWord (small : forward.toNat < 16) :
    (countWord forward len >>> 12).setWidth 8 = forward := by
  apply BitVec.eq_of_getLsbD_eq
  intro t below
  by_cases low : t < 4
  · have outside : (0o7777#16).getLsbD (12 + t) = false := by
      rw [mask_bit (12 + t) (by omega)]
      simp
    simp only [countWord, BitVec.getLsbD_setWidth, below, decide_true, Bool.true_and,
      BitVec.getLsbD_ushiftRight, BitVec.getLsbD_or, BitVec.getLsbD_shiftLeft, BitVec.getLsbD_and,
      outside, Bool.and_false, Bool.or_false]
    simp [show 12 + t < 16 by omega, show ¬ 12 + t < 12 by omega, show t < 16 by omega]
  · have power : 16 ≤ 2 ^ t := Nat.pow_le_pow_right (show 0 < 2 by decide) (show 4 ≤ t by omega)
    have gone : forward.getLsbD t = false :=
      Nat.testBit_lt_two_pow (Nat.lt_of_lt_of_le small power)
    rw [gone, BitVec.getLsbD_setWidth, BitVec.getLsbD_ushiftRight,
      BitVec.getLsbD_of_ge (countWord forward len) (12 + t) (by omega), Bool.and_false]

theorem countWord_parts (w : Word) :
    countWord ((w >>> 12).setWidth 8) (w &&& 0o7777#16).toNat = w := by
  apply BitVec.eq_of_getLsbD_eq
  intro t below
  unfold countWord
  rw [BitVec.ofNat_toNat, BitVec.setWidth_eq, BitVec.and_assoc]
  rw [show 0o7777#16 &&& 0o7777#16 = 0o7777#16 by decide]
  rw [BitVec.getLsbD_or, BitVec.getLsbD_and, mask_bit t below]
  by_cases low : t < 12
  · simp [below, low]
  · simp [below, low, show t - 12 < 8 by omega, show 12 + (t - 12) = t by omega]

end Count

section Framing

variable {p : Packet} {cableDest cableSource check : Word} {max : Nat} {words : List Word} {f : Frame}

theorem words_length (p : Packet) : p.words.length = headerWords + (p.data.length + 1) / 2 := by
  simp [Packet.words, dataWords_length, headerWords]
  omega

theorem packetFrame_room (room : headerWords + (p.data.length + 1) / 2 + trailerWords ≤ max) :
    packetFrame p cableDest cableSource max =
      some (p.words ++ [cableDest, cableSource] ++
        [checkWord (p.words ++ [cableDest, cableSource])]) := by
  unfold packetFrame packetWords
  rw [if_neg (by omega)]
  dsimp only
  rw [words_length, if_neg (by omega)]

theorem trailer_getD (front : List Word) (cableDest cableSource check : Word) :
    (front ++ [cableDest, cableSource] ++ [check]).getD front.length 0#16 = cableDest ∧
      (front ++ [cableDest, cableSource] ++ [check]).getD (front.length + 1) 0#16 = cableSource ∧
      (front ++ [cableDest, cableSource] ++ [check]).getD (front.length + 2) 0#16 = check ∧
      (front ++ [cableDest, cableSource] ++ [check]).take (front.length + 2) =
        front ++ [cableDest, cableSource] := by
  refine ⟨?_, ?_, ?_, ?_⟩
  · simp
  · simp
  · simp
  · rw [show front.length + 2 = (front ++ [cableDest, cableSource]).length by simp, List.take_left]

/-- A framed packet parses to itself. -/
theorem parse_frame (small : p.forward.toNat < 16) :
    frameParse (p.words ++ [cableDest, cableSource] ++ [check]) =
      .ok ⟨p, cableDest, cableSource, check,
        checkWord (p.words ++ [cableDest, cableSource]) == check⟩ := by
  have length : (p.words ++ [cableDest, cableSource] ++ [check]).length =
      p.words.length + trailerWords := by
    simp [trailerWords]
  have least : headerWords ≤ p.words.length := by
    rw [words_length]
    omega
  have most : p.words.length ≤ headerWords + maxData / 2 := by
    have fits := p.fits
    rw [words_length]
    unfold maxData at fits ⊢
    omega
  have count : byteCount (p.words ++ [cableDest, cableSource] ++ [check]) = p.data.length :=
    byteCount_countWord p.fits
  have data : ((p.words ++ [cableDest, cableSource] ++ [check]).drop headerWords).take
      ((p.data.length + 1) / 2) = dataWords p.data := by
    rw [← dataWords_length]
    simp [Packet.words, headerWords]
  obtain ⟨dest, source, third, front⟩ := trailer_getD p.words cableDest cableSource check
  have opcode : (p.opcode.setWidth 16 <<< 8 >>> 8).setWidth 8 = p.opcode := by
    apply BitVec.eq_of_getLsbD_eq
    intro t below
    simp [below, show 8 + t < 16 by omega]
  unfold frameParse
  rw [if_neg (by rw [length]; omega), if_neg (by rw [length]; unfold maxWords; omega)]
  dsimp only
  rw [dif_pos (by rw [count]; exact p.fits)]
  simp only [count, length, Nat.add_sub_cancel]
  rw [if_neg (by rw [words_length]; simp), dest, source, third, front]
  refine congrArg Except.ok (Frame.ext (Packet.ext opcode (forward_countWord small) rfl rfl rfl rfl
    rfl rfl ?_) rfl rfl rfl rfl)
  dsimp only
  rw [data]
  exact dataBytes_dataWords p.data

theorem three_words (words : List Word) (length : words.length = 3) :
    ∃ a b c, words = [a, b] ++ [c] := by
  match words, length with
  | [a, b, c], _ => exact ⟨a, b, c, rfl⟩

theorem eight_words (words : List Word) (length : words.length = 8) :
    ∃ w0 w1 w2 w3 w4 w5 w6 w7, words = [w0, w1, w2, w3, w4, w5, w6, w7] := by
  match words, length with
  | [w0, w1, w2, w3, w4, w5, w6, w7], _ => exact ⟨w0, w1, w2, w3, w4, w5, w6, w7, rfl⟩

theorem frame_parts (words : List Word) (n : Nat)
    (length : words.length = headerWords + n + trailerWords) :
    ∃ w0 w1 w2 w3 w4 w5 w6 w7 data a b c, data.length = n ∧
      words = [w0, w1, w2, w3, w4, w5, w6, w7] ++ data ++ [a, b] ++ [c] := by
  unfold headerWords trailerWords at length
  obtain ⟨w0, w1, w2, w3, w4, w5, w6, w7, header⟩ :=
    eight_words (words.take 8) (by rw [List.length_take]; omega)
  obtain ⟨a, b, c, tail⟩ :=
    three_words ((words.drop 8).drop n) (by rw [List.length_drop, List.length_drop]; omega)
  refine ⟨w0, w1, w2, w3, w4, w5, w6, w7, (words.drop 8).take n, a, b, c, ?_, ?_⟩
  · rw [List.length_take, List.length_drop]
    omega
  · rw [List.append_assoc, ← tail, List.append_assoc, List.take_append_drop, ← header,
      List.take_append_drop]

/-- A frame that parses is its packet, framed. -/
theorem parsed_words (parsed : frameParse words = .ok f)
    (opcode : (words.getD 0 0#16).setWidth 8 = 0#8)
    (pad : f.packet.data.length % 2 = 1 →
      words.getD (headerWords + f.packet.data.length / 2) 0#16 >>> 8 = 0#16) :
    words = f.packet.words ++ [f.cableDest, f.cableSource] ++ [f.check] ∧
      f.checkOk = (checkWord (f.packet.words ++ [f.cableDest, f.cableSource]) == f.check) := by
  unfold frameParse at parsed
  split_ifs at parsed with short long fits
  dsimp only at parsed
  split_ifs at parsed with agree
  have length : words.length = headerWords + (byteCount words + 1) / 2 + trailerWords := by omega
  obtain ⟨w0, w1, w2, w3, w4, w5, w6, w7, data, a, b, c, mid, same⟩ := frame_parts words _ length
  obtain ⟨dest, source, third, front⟩ :=
    trailer_getD ([w0, w1, w2, w3, w4, w5, w6, w7] ++ data) a b c
  have body : words.length - trailerWords = ([w0, w1, w2, w3, w4, w5, w6, w7] ++ data).length := by
    rw [length, List.length_append, mid]
    exact Nat.add_sub_cancel _ _
  have first : w0.setWidth 8 = 0#8 := by
    rw [same] at opcode
    exact opcode
  have inner : (words.drop headerWords).take ((byteCount words + 1) / 2) = data := by
    rw [← mid, same]
    simp [headerWords]
  have count : (w1 &&& 0o7777#16).toNat = byteCount words := by
    rw [same]
    rfl
  have bytes : (dataBytes data (byteCount words)).length = byteCount words := by
    unfold dataBytes
    rw [List.length_take, wordBytes_length, mid]
    omega
  injection parsed with parsed
  have read : f.packet.data = dataBytes data (byteCount words) := by
    rw [← parsed]
    dsimp only
    rw [inner]
  have beyond : words.getD (headerWords + byteCount words / 2) 0#16 =
      (data ++ [a, b] ++ [c]).getD (byteCount words / 2) 0#16 := by
    rw [same]
    simp [headerWords, Nat.add_comm 8]
  have whole : dataWords f.packet.data = data := by
    rw [read]
    apply dataWords_dataBytes data (byteCount words) mid
    intro odd
    rw [read, bytes] at pad
    have zero := pad odd
    have inside : byteCount words / 2 < data.length := by omega
    rw [beyond, List.append_assoc, List.getD_append _ _ _ _ inside] at zero
    exact zero
  have high : ((w0 >>> 8).setWidth 8).setWidth 16 <<< 8 = w0 := by
    have joined : dataWord (w0.setWidth 8) ((w0 >>> 8).setWidth 8) = w0 := dataWord_bytes
    rw [first] at joined
    simpa [dataWord] using joined
  have packet : f.packet.words = [w0, w1, w2, w3, w4, w5, w6, w7] ++ data := by
    unfold Packet.words
    rw [whole, read, bytes, ← count, ← parsed]
    dsimp only
    rw [same]
    have counted : countWord ((w1 >>> 12).setWidth 8) (w1 &&& 0o7777#16).toNat = w1 :=
      countWord_parts w1
    have header : [((w0 >>> 8).setWidth 8).setWidth 16 <<< 8,
        countWord ((w1 >>> 12).setWidth 8) (w1 &&& 0o7777#16).toNat, w2, w3, w4, w5, w6, w7] =
        [w0, w1, w2, w3, w4, w5, w6, w7] := by rw [high, counted]
    exact congrArg (fun words => words ++ data) header
  have trailer : f.cableDest = a ∧ f.cableSource = b ∧ f.check = c := by
    rw [← parsed]
    dsimp only
    rw [body, same]
    exact ⟨dest, source, third⟩
  obtain ⟨rfl, rfl, rfl⟩ := trailer
  rw [packet]
  refine ⟨same, ?_⟩
  rw [← front, ← same, ← body, ← parsed]

end Framing

end MuirFpga.Chaosnet
