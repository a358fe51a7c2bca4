import MuirFpga.Terminal.Viewer
import Mathlib.Data.BitVec

/-!
# A viewer's stream

What RFC 6143 has a viewer send: a version, a security type where one is due, ClientInit, and then any
messages, the flags and the padding any bytes. However the stream is cut into reads, the viewer is
taken at its word.
-/

namespace MuirFpga.Terminal

/-- A viewer's message. -/
inductive ClientMessage where
  | setPixelFormat (pad : BitVec 24) (bits depth big colour : Byte)
      (redMax greenMax blueMax : BitVec 16) (redShift greenShift blueShift : Byte) (tail : BitVec 24)
  | setEncodings (pad : Byte) (encodings : List (BitVec 32)) (few : encodings.length < 2 ^ 16)
  | updateRequest (incremental : Byte) (x y w h : BitVec 16)
  | key (down : Byte) (pad : BitVec 16) (keysym : BitVec 32)
  | pointer (buttons : Byte) (x y : BitVec 16)
  | cutText (pad : BitVec 24) (text : List Byte) (few : text.length < 2 ^ 32)

/-- Three bytes of padding. -/
def be24 (v : BitVec 24) : List Byte :=
  [v.extractLsb' 16 8, v.extractLsb' 8 8, v.extractLsb' 0 8]

namespace ClientMessage

/-- The bytes of a message, a cut text's own apart. -/
def head : ClientMessage → List Byte
  | .setPixelFormat pad bits depth big colour redMax greenMax blueMax redShift greenShift blueShift
      tail =>
    [0#8] ++ be24 pad ++ [bits, depth, big, colour] ++ be16 redMax ++ be16 greenMax ++
      be16 blueMax ++ [redShift, greenShift, blueShift] ++ be24 tail
  | .setEncodings pad encodings _ =>
    [2#8, pad] ++ be16 (BitVec.ofNat 16 encodings.length) ++ encodings.flatMap be32
  | .updateRequest incremental x y w h => [3#8, incremental] ++ be16 x ++ be16 y ++ be16 w ++ be16 h
  | .key down pad keysym => [4#8, down] ++ be16 pad ++ be32 keysym
  | .pointer buttons x y => [5#8, buttons] ++ be16 x ++ be16 y
  | .cutText pad text _ => [6#8] ++ be24 pad ++ be32 (BitVec.ofNat 32 text.length)

/-- A cut text's own bytes. -/
def text : ClientMessage → List Byte
  | .cutText _ text _ => text
  | _ => []

/-- What the message means; of a list of encodings the first 32. -/
def meaning : ClientMessage → Message
  | .setPixelFormat _ bits depth big colour redMax greenMax blueMax redShift greenShift blueShift _ =>
    .setPixelFormat ⟨bits, depth, big != 0#8, colour != 0#8, redMax, greenMax, blueMax, redShift,
      greenShift, blueShift⟩
  | .setEncodings _ encodings _ => .setEncodings (encodings.take maxEncodings)
  | .updateRequest incremental x y w h => .updateRequest (incremental != 0#8) x y w h
  | .key down _ keysym => .key (down != 0#8) keysym
  | .pointer buttons x y => .pointer buttons x y
  | .cutText _ text _ => .cutText (BitVec.ofNat 32 text.length)

/-- How many encodings the message names. -/
def named : ClientMessage → Nat
  | .setEncodings _ encodings _ => encodings.length
  | _ => 0

end ClientMessage

/-- A part of a stream: its bytes, those of them that are only skipped, what it means, the encodings it
names, and why the viewer is refused for it, if it is. -/
structure Part where
  head : List Byte
  text : List Byte
  meaning : Taken
  named : Nat
  refused : Option String

def versionPart (b : List Byte) : Part := ⟨b, [], .version (versionParse b), 0, none⟩

def securityPart (chose : Byte) : Part :=
  ⟨[chose], [], .security chose, 0,
    if chose = 1#8 then none else some "asked for a security type that is not offered"⟩

def initPart (shared : Byte) : Part := ⟨[shared], [], .init, 0, none⟩

def messagePart (m : ClientMessage) : Part :=
  ⟨m.head, m.text, .message m.meaning, m.named,
    match m.meaning with
    | .setPixelFormat f => if formatFits f then none else some (Viewer.complaint f)
    | _ => none⟩

/-- A stream. -/
structure Stream where
  version : List Byte
  twelve : version.length = 12
  security : Byte
  shared : Byte
  messages : List ClientMessage

/-- A stream's parts, in order. -/
def Stream.parts (s : Stream) : List Part :=
  versionPart s.version ::
    ((if readsBack (versionParse s.version) then [securityPart s.security] else []) ++
      initPart s.shared :: s.messages.map messagePart)

/-- The bytes of parts. -/
def bytes (parts : List Part) : List Byte := parts.flatMap fun p => p.head ++ p.text

/-- The parts up to the first a viewer is refused for, and that one. -/
def upTo : List Part → List Part
  | [] => []
  | p :: parts => if p.refused.isSome then [p] else p :: upTo parts

/-- Why the viewer is refused, if it is. -/
def refusal (parts : List Part) : Option String := (parts.find? fun p => p.refused.isSome).bind Part.refused

section Fields

theorem rd32_be32 (front more : List Byte) (w : BitVec 32) :
    rd32 (front ++ be32 w ++ more) front.length = w := by
  unfold rd32 be32
  rw [List.append_assoc]
  simp only [List.getD_append_right _ _ _ _ (Nat.le_add_right _ _), Nat.add_sub_cancel_left]
  rw [List.getD_append_right _ _ _ _ (Nat.le_refl _), Nat.sub_self]
  exact be32_joined w

theorem rd32_flatMap (front more : List Byte) (words : List (BitVec 32)) (n : Nat)
    (within : n ≤ words.length) :
    ((List.range n).map fun k => rd32 (front ++ words.flatMap be32 ++ more) (front.length + 4 * k)) =
      words.take n := by
  induction n generalizing front words with
  | zero => simp
  | succ n ih =>
    match words with
    | [] => exact absurd within (by simp)
    | w :: words =>
      have rest := ih (front ++ be32 w) words (Nat.le_of_succ_le_succ within)
      have first := rd32_be32 front (words.flatMap be32 ++ more) w
      have same : front ++ (w :: words).flatMap be32 ++ more =
          front ++ be32 w ++ (words.flatMap be32 ++ more) := by
        simp [List.flatMap_cons]
      rw [List.range_succ_eq_map, List.map_cons, List.map_map, same, List.take_succ_cons]
      refine congrArg₂ List.cons first ?_
      rw [List.append_assoc (front ++ be32 w)] at rest
      refine (List.map_congr_left ?_).trans rest
      intro k _
      refine congrArg (rd32 _) ?_
      rw [List.length_append]
      simp only [be32, List.length_cons, List.length_nil]
      omega

theorem be32_length (words : List (BitVec 32)) :
    (words.flatMap be32).length = 4 * words.length := by
  induction words with
  | nil => rfl
  | cons w words ih =>
    rw [List.flatMap_cons, List.length_append, ih, List.length_cons]
    simp only [be32, List.length_cons, List.length_nil]
    omega

end Fields

section Messages

variable {m : ClientMessage} {more buf rest : List Byte}

theorem parse_whole (m : ClientMessage) (more : List Byte) :
    rfbParse (m.head ++ more) = .message m.meaning m.head.length := by
  cases m with
  | setPixelFormat pad bits depth big colour redMax greenMax blueMax redShift greenShift blueShift
      tail =>
    simp only [ClientMessage.head, ClientMessage.meaning, be24, be16, List.cons_append,
      List.nil_append, List.length_cons, List.length_nil]
    unfold rfbParse
    dsimp only
    rw [if_neg (by simp), if_pos (by simp), if_neg (by simp)]
    simp [formatParse, rd16, be16_joined]
  | setEncodings pad encodings few =>
    have count : (rd16 ((ClientMessage.setEncodings pad encodings few).head ++ more) 2).toNat =
        encodings.length := by
      have field : rd16 ((ClientMessage.setEncodings pad encodings few).head ++ more) 2 =
          BitVec.ofNat 16 encodings.length := be16_joined _
      rw [field, BitVec.toNat_ofNat, Nat.mod_eq_of_lt few]
    have length : (ClientMessage.setEncodings pad encodings few).head.length =
        4 + 4 * encodings.length := by
      simp only [ClientMessage.head, be16, List.cons_append, List.nil_append, List.length_cons,
        be32_length]
      omega
    have words := rd32_flatMap ([2#8, pad] ++ be16 (BitVec.ofNat 16 encodings.length)) more encodings
      (min encodings.length maxEncodings) (Nat.min_le_left _ _)
    have kept : encodings.take (min encodings.length maxEncodings) = encodings.take maxEncodings := by
      rw [List.take_eq_take_iff]
      omega
    unfold rfbParse
    dsimp only
    rw [if_neg (by simp [length]), if_neg (by simp [ClientMessage.head]),
      if_pos (by simp [ClientMessage.head]),
      if_neg (by simp [length]; omega), count, if_neg (by simp [length])]
    rw [length, ClientMessage.meaning, ← kept]
    refine congrArg (fun list => Parsed.message (.setEncodings list) (4 + 4 * encodings.length)) ?_
    exact words
  | updateRequest incremental x y w h =>
    simp only [ClientMessage.head, ClientMessage.meaning, be16, List.cons_append, List.nil_append,
      List.length_cons, List.length_nil]
    unfold rfbParse
    dsimp only
    rw [if_neg (by simp), if_neg (by simp), if_neg (by simp), if_pos (by simp), if_neg (by simp)]
    simp [rd16, be16_joined]
  | key down pad keysym =>
    simp only [ClientMessage.head, ClientMessage.meaning, be16, be32, List.cons_append,
      List.nil_append, List.length_cons, List.length_nil]
    unfold rfbParse
    dsimp only
    rw [if_neg (by simp), if_neg (by simp), if_neg (by simp), if_neg (by simp), if_pos (by simp),
      if_neg (by simp)]
    simp [rd32, be32_joined]
  | pointer buttons x y =>
    simp only [ClientMessage.head, ClientMessage.meaning, be16, List.cons_append, List.nil_append,
      List.length_cons, List.length_nil]
    unfold rfbParse
    dsimp only
    rw [if_neg (by simp), if_neg (by simp), if_neg (by simp), if_neg (by simp), if_neg (by simp),
      if_pos (by simp), if_neg (by simp)]
    simp [rd16, be16_joined]
  | cutText pad text few =>
    simp only [ClientMessage.head, ClientMessage.meaning, be24, be32, List.cons_append,
      List.nil_append, List.length_cons, List.length_nil]
    unfold rfbParse
    dsimp only
    rw [if_neg (by simp), if_neg (by simp), if_neg (by simp), if_neg (by simp), if_neg (by simp),
      if_neg (by simp), if_pos (by simp), if_neg (by simp)]
    simp [rd32, be32_joined]

theorem getD_cut {head : List Byte} {place : Nat} (cut : buf ++ rest = head ++ more)
    (short : buf.length < head.length) (inside : place < buf.length) :
    buf.getD place 0#8 = head.getD place 0#8 := by
  rw [← List.getD_append buf rest 0#8 place inside, cut,
    List.getD_append head more 0#8 place (by omega)]

theorem head_length (m : ClientMessage) : m.head.length =
    match m with
    | .setPixelFormat .. => 20
    | .setEncodings _ encodings _ => 4 + 4 * encodings.length
    | .updateRequest .. => 10
    | .key .. => 8
    | .pointer .. => 6
    | .cutText .. => 8 := by
  cases m with
  | setEncodings pad encodings few =>
    simp only [ClientMessage.head, be16, List.cons_append, List.nil_append, List.length_cons,
      be32_length]
    omega
  | _ => rfl

theorem parse_cut (cut : buf ++ rest = m.head ++ more) (short : buf.length < m.head.length) :
    rfbParse buf = .more := by
  have size := head_length m
  unfold rfbParse
  dsimp only
  by_cases empty : buf.length < 1
  · rw [if_pos empty]
  · rw [if_neg empty, getD_cut cut short (by omega)]
    cases m with
    | setEncodings pad encodings few =>
      rw [if_neg (by simp [ClientMessage.head]), if_pos (by simp [ClientMessage.head])]
      by_cases few4 : buf.length < 4
      · rw [if_pos few4]
      · have field : rd16 buf 2 = BitVec.ofNat 16 encodings.length := by
          unfold rd16
          rw [getD_cut cut short (by omega), getD_cut cut short (by omega)]
          exact be16_joined _
        dsimp only at size
        rw [if_neg few4, field, BitVec.toNat_ofNat, Nat.mod_eq_of_lt few, if_pos (by omega)]
    | setPixelFormat =>
      dsimp only at size
      rw [if_pos (by rfl), if_pos (by omega)]
    | updateRequest =>
      dsimp only at size
      simp [ClientMessage.head]
      omega
    | key =>
      dsimp only at size
      simp [ClientMessage.head]
      omega
    | pointer =>
      dsimp only at size
      simp [ClientMessage.head]
      omega
    | cutText =>
      dsimp only at size
      simp [ClientMessage.head]
      omega

end Messages

/-- The parts that remain at a stage. -/
inductive Remains : Stage → List Part → Prop
  | version (b : List Byte) (twelve : b.length = 12) (parts : List Part)
      (next : Remains (if readsBack (versionParse b) then .security else .init) parts) :
      Remains .version (versionPart b :: parts)
  | security (chose : Byte) (parts : List Part) (next : Remains .init parts) :
      Remains .security (securityPart chose :: parts)
  | init (shared : Byte) (parts : List Part) (next : Remains .running parts) :
      Remains .init (initPart shared :: parts)
  | running (messages : List ClientMessage) : Remains .running (messages.map messagePart)

theorem Stream.remains (s : Stream) : Remains .version s.parts := by
  unfold Stream.parts
  refine .version s.version s.twelve _ ?_
  cases due : readsBack (versionParse s.version) with
  | true => exact .security s.security _ (.init s.shared _ (.running s.messages))
  | false => exact .init s.shared _ (.running s.messages)

section Handle

variable {v : Viewer} {p : Part} {parts : List Part} {more rest : List Byte}

theorem handle_whole (remains : Remains v.stage (p :: parts)) (inbox : v.inbox = p.head ++ more)
    (skip : v.skip = 0) :
    (p.refused = none → ∃ v', v.handle = .go v' ∧ v'.inbox = more ∧ v'.skip = p.text.length ∧
      v'.taken = v.taken ++ [p.meaning] ∧ Remains v'.stage parts) ∧
    ∀ why, p.refused = some why →
      ∃ v', v.handle = .drop v' why ∧ v'.inbox = more ∧ v'.taken = v.taken ++ [p.meaning] := by
  generalize stage : v.stage = now at remains
  generalize list : p :: parts = all at remains
  cases remains with
  | version b twelve parts' next =>
    injection list with same tail
    subst same
    have head : versionParse v.inbox = versionParse b := by
      unfold versionParse
      rw [inbox, show (versionPart b).head = b from rfl, List.take_left' twelve,
        List.take_of_length_le (Nat.le_of_eq twelve)]
    have left : v.inbox.drop 12 = more := by
      rw [inbox]
      exact List.drop_left' twelve
    have long : ¬ v.inbox.length < 12 := by
      rw [inbox, List.length_append, show (versionPart b).head = b from rfl, twelve]
      omega
    refine ⟨fun _ => ?_, fun why refused => nomatch refused⟩
    unfold Viewer.handle
    rw [stage]
    dsimp only
    rw [if_neg long]
    refine ⟨_, rfl, left, skip, ?_, ?_⟩
    · rw [head]
      rfl
    · dsimp only
      rw [head, tail]
      exact next
  | security chose parts' next =>
    injection list with same tail
    subst same
    have bytes : v.inbox = chose :: more := inbox
    have long : ¬ v.inbox.length < 1 := by simp [bytes]
    have first : v.inbox.getD 0 0#8 = chose := by rw [bytes]; rfl
    have left : v.inbox.drop 1 = more := by rw [bytes]; rfl
    unfold Viewer.handle
    rw [stage]
    dsimp only
    rw [if_neg long, first]
    unfold securityPart
    dsimp only
    by_cases right : chose = 1#8
    · rw [if_pos right, if_neg (not_not.mpr right)]
      refine ⟨fun _ => ⟨_, rfl, left, skip, rfl, ?_⟩, fun why refused => nomatch refused⟩
      rw [tail]
      exact next
    · rw [if_neg right, if_pos right]
      refine ⟨fun refused => (nomatch refused), fun why refused => ?_⟩
      injection refused with why
      subst why
      exact ⟨_, rfl, left, rfl⟩
  | init shared parts' next =>
    injection list with same tail
    subst same
    have bytes : v.inbox = shared :: more := inbox
    have long : ¬ v.inbox.length < 1 := by simp [bytes]
    have left : v.inbox.drop 1 = more := by rw [bytes]; rfl
    refine ⟨fun _ => ?_, fun why refused => nomatch refused⟩
    unfold Viewer.handle
    rw [stage]
    dsimp only
    rw [if_neg long]
    refine ⟨_, rfl, left, skip, rfl, ?_⟩
    rw [tail]
    exact next
  | running messages =>
    match messages, list with
    | m :: messages, list =>
      injection list with same tail
      subst same
      have parsed : rfbParse v.inbox = .message m.meaning m.head.length := by
        rw [inbox]
        exact parse_whole m more
      have left : v.inbox.drop m.head.length = more := by
        rw [inbox]
        exact List.drop_left
      have next : Remains .running parts := by
        rw [tail]
        exact .running messages
      unfold Viewer.handle
      rw [stage]
      dsimp only
      rw [parsed]
      cases m with
      | setPixelFormat pad bits depth big colour redMax greenMax blueMax redShift greenShift
          blueShift tail' =>
        simp only [Viewer.message, ClientMessage.meaning, messagePart]
        cases fits : formatFits ⟨bits, depth, big != 0#8, colour != 0#8, redMax, greenMax, blueMax,
            redShift, greenShift, blueShift⟩ with
        | true =>
          exact ⟨fun _ => ⟨_, rfl, left, skip, rfl, stage ▸ next⟩, fun why refused => nomatch refused⟩
        | false =>
          refine ⟨fun refused => (nomatch refused), fun why refused => ?_⟩
          injection refused with why
          subst why
          exact ⟨_, rfl, left, rfl⟩
      | cutText pad text few =>
        refine ⟨fun _ => ⟨_, rfl, left, ?_, rfl, stage ▸ next⟩, fun why refused => nomatch refused⟩
        simp only [messagePart, ClientMessage.text, BitVec.toNat_ofNat]
        exact Nat.mod_eq_of_lt few
      | _ =>
        exact ⟨fun _ => ⟨_, rfl, left, skip, rfl, stage ▸ next⟩, fun why refused => nomatch refused⟩

theorem handle_cut (remains : Remains v.stage (p :: parts)) (cut : v.inbox ++ rest = p.head ++ more)
    (short : v.inbox.length < p.head.length) : v.handle = .wait v := by
  generalize stage : v.stage = now at remains
  generalize list : p :: parts = all at remains
  unfold Viewer.handle
  rw [stage]
  cases remains with
  | version b twelve parts' next =>
    injection list with same tail
    subst same
    have length : (versionPart b).head.length = 12 := twelve
    exact if_pos (by omega)
  | security chose parts' next =>
    injection list with same tail
    subst same
    exact if_pos short
  | init shared parts' next =>
    injection list with same tail
    subst same
    exact if_pos short
  | running messages =>
    match messages, list with
    | m :: messages, list =>
      injection list with same tail
      subst same
      dsimp only
      rw [parse_cut cut short]

theorem handle_none (remains : Remains v.stage []) (empty : v.inbox = []) : v.handle = .wait v := by
  generalize stage : v.stage = now at remains
  generalize list : ([] : List Part) = all at remains
  cases remains with
  | version b twelve parts' next => exact nomatch list
  | security chose parts' next => exact nomatch list
  | init shared parts' next => exact nomatch list
  | running messages =>
    unfold Viewer.handle
    rw [stage, empty]
    rfl

end Handle

end MuirFpga.Terminal
