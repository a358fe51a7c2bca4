import Mathlib.Data.BitVec
import Mathlib.Logic.Function.Basic

/-!
# The pack side and its driver

`cadr_disk_pack`'s register face as the disk pack program meets it, the store behind it, and
`pack_side.c`. A move is one request: the face refuses it and nothing moves, or takes it, and
then the slot's DIRTY bit falls at once, whatever becomes of the move. The walk writes slots
between the program's accesses, and between a move's end and what the program does with it; it
cannot write a slot a move is on. What the face answers is an input of the model. The fabric's
reset is not modelled.
-/

namespace MuirFpga.Packs

/-- A slot of the store, `PS_SLOTS` of them. -/
abbrev Slot := Fin 24

/-- A block's record: its 256 words, its header, its header's checkword and its own. -/
abbrev Record := Fin 259 → BitVec 32

/-- A block: the pack it is of, counted as the bay opens them, and its number on it. -/
structure Block where
  pack : Nat
  lba : Nat
  deriving DecidableEq

/-- The three moves. -/
inductive Move
  | fetch
  | write
  | take
  deriving DecidableEq

/-- What the face makes of a request, and the words it is then read as: refused, beside the
bits that are live; IDENT not reading `PACK` any more, the move taken or not and landed or
not; not seen; or taken, busy for some reads and then done, with an error or without. -/
inductive Reply
  | refused (live : BitVec 7)
  | gone (taken landed : Bool)
  | unseen
  | runs (polls : Nat) (error : Bool)

namespace Reply

/-- `PS_IDENT_WORD`, `PACK`. -/
def identWord : BitVec 32 := 0x5041434B#32

/-- IDENT as it is read after the request. -/
def ident : Reply → BitVec 32
  | .gone _ _ => 0#32
  | _ => identWord

/-- CTL as the reads after it find it. -/
def ctl : Reply → Nat → BitVec 32
  | .refused live, _ => live.setWidth 32 ||| 8#32
  | .gone _ _, _ => 0#32
  | .unseen, _ => 0#32
  | .runs polls error, read => if read < polls then 1#32 else if error then 6#32 else 2#32

/-- The face takes the move: `go_any && !refuse`. -/
def taken : Reply → Bool
  | .refused _ => false
  | .gone taken _ => taken
  | .unseen => false
  | .runs _ _ => true

/-- The move runs to its end: the words are where it was to put them. -/
def landed : Reply → Bool
  | .refused _ => false
  | .gone taken landed => taken && landed
  | .unseen => false
  | .runs _ error => !error

end Reply

/-- What `ps_request` returns, with what it says of a failure. -/
inductive PsResult
  | ok
  | walkSlot
  | identStopped
  | unaligned
  | otherBusy
  | stuck
  | notSeen
  | portError
  deriving DecidableEq

/-- `poll_cap`. -/
def pollCap : Nat := 100000

/-- The wait while the face is busy: the status at its end, or the one it was given up at. -/
def pollBusy (read : Nat → BitVec 32) : (left polls : Nat) → Bool × BitVec 32
  | left, polls =>
    if (read polls).getLsbD 0 then
      match left with
      | 0 => (false, read polls)
      | left + 1 => pollBusy read left (polls + 1)
    else (true, read polls)

/-- `ps_request`: one move, run to done; the result and the status. -/
def psRequest (move : Move) (addr : BitVec 32) (reply : Reply) : PsResult × BitVec 32 :=
  if reply.ident ≠ Reply.identWord then (.identStopped, 0#32)
  else
    let st := reply.ctl 0
    if st.getLsbD 3 then
      if addr.extractLsb' 0 7 ≠ 0#7 ∧ move ≠ .take then (.unaligned, st)
      else if st.getLsbD 0 then (.otherBusy, st)
      else (.walkSlot, st)
    else
      match pollBusy reply.ctl pollCap 0 with
      | (false, st) => (.stuck, st)
      | (true, st) =>
        if !st.getLsbD 1 then (.notSeen, st)
        else if st.getLsbD 2 then (.portError, st)
        else (.ok, st)

/-- The store, and the block whose tag each slot has. -/
structure Face where
  dirty : Slot → Bool
  content : Slot → Record
  owner : Slot → Option Block

namespace Face

/-- A slot's DIRTY bit falls. -/
def clear (f : Face) (slot : Slot) : Face :=
  { f with dirty := Function.update f.dirty slot false }

/-- A slot's block is taken away. -/
def drop (f : Face) (slot : Slot) : Face :=
  { f.clear slot with owner := Function.update f.owner slot none }

/-- A slot gets a block. -/
def fill (f : Face) (slot : Slot) (block : Block) (record : Record) : Face :=
  { f.clear slot with
    content := Function.update f.content slot record
    owner := Function.update f.owner slot (some block) }

/-- A move on a slot, with what a fetch brings: the bit falls as the face takes it, a fetch and
a take-away take the slot's block, and a fetch that lands puts its own there. -/
def request (f : Face) (move : Move) (slot : Slot) (block : Block) (record : Record)
    (reply : Reply) : Face :=
  if reply.taken then
    match move with
    | .write => f.clear slot
    | .take => f.drop slot
    | .fetch => if reply.landed then f.fill slot block record else f.drop slot
  else f

end Face

namespace Reply

/-- The driver sees the move done without an error. -/
def completes : Reply → Bool
  | .runs polls error => !error && decide (polls ≤ pollCap)
  | _ => false

end Reply

theorem pollBusy_runs (polls : Nat) (error : Bool) (left read : Nat) :
    pollBusy (Reply.runs polls error).ctl left read =
      if polls - read ≤ left then (true, if error then 6#32 else 2#32) else (false, 1#32) := by
  induction left generalizing read with
  | zero =>
    unfold pollBusy
    by_cases busy : read < polls
    · have more : ¬ polls - read ≤ 0 := by omega
      simp [Reply.ctl, busy, more]
    · have none : polls - read ≤ 0 := by omega
      cases error <;> simp [Reply.ctl, busy, none]
  | succ left ih =>
    unfold pollBusy
    by_cases busy : read < polls
    · have same : polls - (read + 1) ≤ left ↔ polls - read ≤ left + 1 := by omega
      simp only [Reply.ctl, busy, if_true, BitVec.reduceGetLsb, ih, same]
    · have none : polls - read ≤ left + 1 := by omega
      cases error <;> simp [Reply.ctl, busy, none]

theorem psRequest_ok_iff (move : Move) (addr : BitVec 32) (reply : Reply) :
    (psRequest move addr reply).1 = .ok ↔ reply.completes = true := by
  cases reply with
  | refused live =>
    have third : ((Reply.refused live).ctl 0).getLsbD 3 = true := by simp [Reply.ctl]
    simp only [psRequest, Reply.ident, Reply.completes, ne_eq, not_true_eq_false, if_false, third,
      if_true, Bool.false_eq_true, iff_false]
    split
    · exact PsResult.noConfusion
    · split <;> exact PsResult.noConfusion
  | gone taken landed => simp [psRequest, Reply.ident, Reply.identWord, Reply.completes]
  | unseen =>
    have idle : pollBusy Reply.unseen.ctl pollCap 0 = (true, 0#32) := by
      unfold pollBusy
      simp [Reply.ctl]
    simp [psRequest, Reply.ident, Reply.ctl, idle, Reply.completes]
  | runs polls error =>
    have first : ((Reply.runs polls error).ctl 0).getLsbD 3 = false := by
      cases error <;> simp only [Reply.ctl] <;> split_ifs <;> decide
    simp only [psRequest, Reply.ident, ne_eq, not_true_eq_false, if_false, first,
      Bool.false_eq_true, pollBusy_runs, Nat.sub_zero, Reply.completes]
    by_cases few : polls ≤ pollCap
    · cases error <;> simp [few]
    · simp [few]

theorem untaken_of_refused (move : Move) (addr : BitVec 32) (reply : Reply)
    (refused : (psRequest move addr reply).1 = .walkSlot ∨
      (psRequest move addr reply).2.getLsbD 3 = true) : reply.taken = false := by
  cases reply with
  | refused live => rfl
  | gone taken landed => simp [psRequest, Reply.ident, Reply.identWord] at refused
  | unseen => rfl
  | runs polls error =>
    have first : ((Reply.runs polls error).ctl 0).getLsbD 3 = false := by
      cases error <;> simp only [Reply.ctl] <;> split_ifs <;> decide
    simp only [psRequest, Reply.ident, ne_eq, not_true_eq_false, if_false, first,
      Bool.false_eq_true, pollBusy_runs, Nat.sub_zero] at refused
    by_cases few : polls ≤ pollCap
    · cases error <;> simp [few] at refused
    · simp [few] at refused

theorem landed_of_completes {reply : Reply} (completes : reply.completes = true) :
    reply.taken = true ∧ reply.landed = true := by
  cases reply with
  | runs polls error =>
    cases error with
    | false => exact ⟨rfl, rfl⟩
    | true => exact absurd completes (by simp [Reply.completes])
  | _ => exact absurd completes (by simp [Reply.completes])

end MuirFpga.Packs
