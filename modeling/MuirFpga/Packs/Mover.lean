import MuirFpga.Packs.DiskPack
import Mathlib.Tactic.SplitIfs

/-!
# What a clock makes of a move

The request of the register face and the master's move, a clock at a time: when a request is held
and what it is judged by, how a move goes on with its slot and its tag, which places of the store
it writes, and that a fetch sends the block's words to the seam in their order before its tag.
-/

namespace MuirFpga.Packs.DiskPack

variable {c : Config}

namespace Regs

variable {busy : Bool} {beat : Option (BitVec 4)} {ch : Channel} {i : Input c} {g : Regs}

/-- What the interlock is judged by: the request held and the walk's side. -/
structure Judges (x y : Regs) : Prop where
  goQ : y.goQ = x.goQ
  active : y.chActiveQ = x.chActiveQ
  waiting : y.chWaitingQ = x.chWaitingQ
  chSlot : y.chSlotQ = x.chSlotQ

theorem Judges.trans {x y z : Regs} (first : Judges x y) (second : Judges y z) : Judges x z :=
  ⟨second.goQ.trans first.goQ, second.active.trans first.active,
    second.waiting.trans first.waiting, second.chSlot.trans first.chSlot⟩

theorem write_judges (x : Regs) :
    Judges x (g.write beat i (bookWalk ch g busy (g.bookWrites beat i (g.bookGo busy x)))) := by
  have go : Judges x (g.bookGo busy x) := by
    unfold bookGo
    split_ifs <;> exact ⟨rfl, rfl, rfl, rfl⟩
  have writes (x : Regs) : Judges x (g.bookWrites beat i x) := by
    unfold bookWrites
    split_ifs <;> exact ⟨rfl, rfl, rfl, rfl⟩
  have walk (x : Regs) : Judges x (bookWalk ch g busy x) := ⟨rfl, rfl, rfl, rfl⟩
  have write (x : Regs) : Judges x (g.write beat i x) := by
    unfold Regs.write
    split_ifs <;> exact ⟨rfl, rfl, rfl, rfl⟩
  exact go.trans ((writes _).trans ((walk _).trans (write _)))

theorem write_ctl {x : Regs} (ctl : beat = some 3#4) :
    g.write beat i (bookWalk ch g busy (g.bookWrites beat i x)) = bookWalk ch g busy x := by
  unfold Regs.write bookWrites
  rw [ctl]
  rfl

theorem write_slot (x : Regs) (ctl : beat = some 3#4) :
    (g.write beat i (bookWalk ch g busy (g.bookWrites beat i (g.bookGo busy x)))).slot =
      x.slot := by
  have go : (g.bookGo busy x).slot = x.slot := by
    unfold bookGo
    split_ifs <;> rfl
  rw [write_ctl ctl]
  exact go

theorem next_asked (asked : (g.next busy beat ch i).goAny = true) :
    i.rst = false ∧ i.fabricRst = false ∧ beat = some 3#4 ∧
      (g.next busy beat ch i).slot = g.slot := by
  unfold next at asked ⊢
  cases rst : i.rst with
  | true => simp [rst, reset, goAny] at asked
  | false =>
    cases fabric : i.fabricRst with
    | true => simp [rst, fabric, reset, goAny] at asked
    | false =>
      refine ⟨rfl, rfl, ?_⟩
      simp only [rst, fabric, Bool.or_self, Bool.false_eq_true, if_false] at asked ⊢
      by_cases ctl : beat = some 3#4
      · exact ⟨ctl, write_slot _ ctl⟩
      · unfold goAny at asked
        dsimp only at asked
        rw [(write_judges _).goQ] at asked
        simp [follow, ctl] at asked

theorem next_follows (rst : i.rst = false) (fabric : i.fabricRst = false) :
    (g.next busy beat ch i).chActiveQ = ch.active ∧
      (g.next busy beat ch i).chWaitingQ = ch.waiting ∧
      (g.next busy beat ch i).chSlotQ = ch.slot := by
  unfold next
  simp only [rst, fabric, Bool.or_self, Bool.false_eq_true, if_false]
  exact ⟨(write_judges _).active, (write_judges _).waiting, (write_judges _).chSlot⟩

end Regs

/-- The states of a fetch or a take-away. -/
def PState.fetching (p : PState) : Prop := p = .take ∨ p = .ar ∨ p = .r ∨ p = .tag

namespace Mover

variable {accepted : Bool} {g : Regs} {rdata : BitVec 32} {i : Input c} {m : Mover}

/-- Two clocks of one move. -/
structure Same (x y : Mover) : Prop where
  slot : y.pSlot = x.pSlot
  tag : y.pTag = x.pTag
  write : y.pWrite = x.pWrite

/-- A clock's registers before the fabric's reset is looked at. -/
def made (accepted : Bool) (g : Regs) (rdata : BitVec 32) (i : Input c) (m : Mover) : Mover :=
  m.drained (m.stateStep accepted g rdata i (m.addressed i))

/-- What the fabric's reset leaves of a clock's registers: the move as it was made, or dropped. -/
structure Left (x y : Mover) : Prop where
  same : Same x y
  burst : y.pBurst = x.pBurst
  beat : y.pBeat = x.pBeat
  goes : y.pst = x.pst ∧ y.busy = x.busy ∧ y.hiPending = x.hiPending ∨
    y.pst = .idle ∧ y.busy = false ∧ y.hiPending = false

theorem next_left (rst : i.rst = false) :
    Left (m.made accepted g rdata i) (m.next accepted g rdata i) := by
  have fabric (x : Mover) : Left x (m.fabric i x) := by
    unfold Mover.fabric
    split_ifs
    · exact ⟨⟨rfl, rfl, rfl⟩, rfl, rfl, Or.inr ⟨rfl, rfl, rfl⟩⟩
    · exact ⟨⟨rfl, rfl, rfl⟩, rfl, rfl, Or.inl ⟨rfl, rfl, rfl⟩⟩
    · exact ⟨⟨rfl, rfl, rfl⟩, rfl, rfl, Or.inl ⟨rfl, rfl, rfl⟩⟩
  have left := fabric (m.made accepted g rdata i)
  have whole : m.master accepted g rdata i = m.fabric i (m.made accepted g rdata i) := by
    unfold master
    rw [rst]
    rfl
  unfold next
  rw [whole]
  exact ⟨⟨left.same.slot, left.same.tag, left.same.write⟩, left.burst, left.beat, left.goes⟩

theorem made_running (running : m.pst ≠ .idle) : m.made accepted g rdata i =
    m.stateStep accepted g rdata i (m.addressed i) := by
  unfold made drained
  simp [running]

theorem made_begun (idle : m.pst = .idle) (drop : m.pDrop = false) :
    m.made true g rdata i = begin g (m.addressed i) := by
  unfold made drained
  simp only [idle, drop, stateStep]
  rfl

theorem made_waits (idle : m.pst = .idle) : Same m (m.made false g rdata i) ∧
    (m.made false g rdata i).pst = .idle ∧ (m.made false g rdata i).hiPending = m.hiPending ∧
    ((m.made false g rdata i).busy = true → m.busy = true) := by
  unfold made drained
  simp only [idle, stateStep]
  cases m.pDrop
  · exact ⟨⟨rfl, rfl, rfl⟩, idle, rfl, id⟩
  · exact ⟨⟨rfl, rfl, rfl⟩, idle, rfl, fun up => by simp at up⟩

theorem read_same (x : Mover) : Same x (m.wordIn (m.beatIn i x)) ∧
    (m.wordIn (m.beatIn i x)).busy = x.busy := by
  have beat : Same x (m.beatIn i x) ∧ (m.beatIn i x).busy = x.busy := by
    unfold beatIn
    split_ifs <;> exact ⟨⟨rfl, rfl, rfl⟩, rfl⟩
  have word (x : Mover) : Same x (m.wordIn x) ∧ (m.wordIn x).busy = x.busy := by
    unfold wordIn bump
    split_ifs <;> exact ⟨⟨rfl, rfl, rfl⟩, rfl⟩
  have both := word (m.beatIn i x)
  exact ⟨⟨both.1.slot.trans beat.1.slot, both.1.tag.trans beat.1.tag,
    both.1.write.trans beat.1.write⟩, both.2.trans beat.2⟩

theorem made_same (running : m.pst ≠ .idle) : Same m (m.made accepted g rdata i) ∧
    ((m.made accepted g rdata i).busy = true → m.busy = true) := by
  rw [made_running running]
  unfold stateStep
  cases place : m.pst with
  | idle => exact absurd place running
  | r =>
    obtain ⟨same, busy⟩ := read_same (m := m) (i := i) (m.addressed i)
    exact ⟨⟨same.slot, same.tag, same.write⟩, fun up => by rw [← up]; exact busy.symm⟩
  | b =>
    dsimp only
    unfold respond bump
    split_ifs <;> exact ⟨⟨rfl, rfl, rfl⟩, fun up => by simp_all [addressed]⟩
  | take =>
    dsimp only
    split_ifs <;> exact ⟨⟨rfl, rfl, rfl⟩, fun up => by simp_all [addressed]⟩
  | ar =>
    dsimp only
    split_ifs <;> exact ⟨⟨rfl, rfl, rfl⟩, id⟩
  | w5 =>
    dsimp only
    split_ifs <;> exact ⟨⟨rfl, rfl, rfl⟩, id⟩
  | tag => exact ⟨⟨rfl, rfl, rfl⟩, fun up => by simp at up⟩
  | aw => exact ⟨⟨rfl, rfl, rfl⟩, id⟩
  | w0 => exact ⟨⟨rfl, rfl, rfl⟩, id⟩
  | w1 => exact ⟨⟨rfl, rfl, rfl⟩, id⟩
  | w2 => exact ⟨⟨rfl, rfl, rfl⟩, id⟩
  | w3 => exact ⟨⟨rfl, rfl, rfl⟩, id⟩
  | w4 => exact ⟨⟨rfl, rfl, rfl⟩, id⟩

/-- A fetch's counters: its bursts, and no high word pending where none can be. -/
structure Counts (m : Mover) : Prop where
  burst : m.pst.fetching → m.pst ≠ .tag → m.pBurst.toNat ≤ 8
  low : m.pst.fetching → m.hiPending = true → m.pst = .r
  pad : m.pst = .r → m.hiPending = true → m.padBeat = false

theorem wordLo_toNat (data : m.last = false) (count : m.pBurst.toNat ≤ 8) :
    m.wordLo.toNat = 32 * m.pBurst.toNat + 2 * m.pBeat.toNat ∧
      (m.wordLo ||| 1#9).toNat = 32 * m.pBurst.toNat + 2 * m.pBeat.toNat + 1 := by
  have all : ∀ burst beat : BitVec 4, burst.toNat ≤ 8 → burst ≠ 8#4 →
      (0#1 ++ burst.extractLsb' 0 3 ++ beat ++ 0#1).toNat = 32 * burst.toNat + 2 * beat.toNat ∧
        ((0#1 ++ burst.extractLsb' 0 3 ++ beat ++ 0#1) ||| 1#9).toNat =
          32 * burst.toNat + 2 * beat.toNat + 1 := by decide
  unfold wordLo
  rw [data]
  exact all m.pBurst m.pBeat count (by simpa [last] using data)

/-- The words of the record that have gone to the seam, the three past the block's among them. -/
def sent (m : Mover) : Nat :=
  if m.pst = .tag then 259
  else (if m.last then 256 else 32 * m.pBurst.toNat) +
    if m.pst = .r then
      2 * (if m.last then m.pBeat.toNat % 2 else m.pBeat.toNat) + m.hiPending.toNat
    else 0

theorem sent_ar (place : m.pst = .ar) : m.sent = 32 * m.pBurst.toNat := by
  unfold sent
  simp only [place, reduceCtorEq, if_false, Nat.add_zero]
  split_ifs with last
  · rw [show m.pBurst = 8#4 by simpa [Mover.last] using last]
    rfl
  · rfl

theorem wordLo_last (last : m.last = true) :
    m.wordLo.toNat = 256 + 2 * (m.pBeat.toNat % 2) ∧
      (m.padBeat = false → (m.wordLo ||| 1#9).toNat = 256 + 2 * (m.pBeat.toNat % 2) + 1) := by
  have all : ∀ beat : BitVec 4,
      (256#9 + (0#7 ++ beat.extractLsb' 0 1 ++ 0#1)).toNat = 256 + 2 * (beat.toNat % 2) ∧
        (beat.getLsbD 0 = false → ((256#9 + (0#7 ++ beat.extractLsb' 0 1 ++ 0#1)) ||| 1#9).toNat =
          256 + 2 * (beat.toNat % 2) + 1) := by decide
  unfold wordLo padBeat
  rw [last]
  exact all m.pBeat

/-- A clock of a fetch sends at most one word more to the seam, and that is the next of the
record. -/
def Sends (m n : Mover) : Prop :=
  n.pst.fetching → n.sent ≤ m.sent ∨
    n.sent = m.sent + 1 ∧ m.seam.1 = true ∧ m.seam.2.1.toNat = m.sent

theorem beatIn_counts (x : Mover) : (m.beatIn i x).pst = x.pst ∧
    (m.beatIn i x).pBurst = x.pBurst ∧ (m.beatIn i x).pBeat = x.pBeat ∧
    (m.beatIn i x).hiPending = x.hiPending := by
  unfold beatIn
  split_ifs <;> exact ⟨rfl, rfl, rfl, rfl⟩

theorem burst_data (data : m.last = false) (few : m.pBurst.toNat ≤ 8) : m.pBurst.toNat ≤ 7 := by
  have other : m.pBurst.toNat ≠ 8 := fun eight => by
    have same : m.pBurst = 8#4 := BitVec.eq_of_toNat_eq eight
    simp [last, same] at data
  omega

theorem seam_read (place : m.pst = .r) (counts : Counts m)
    (up : (m.hiPending || m.rbValid) = true) :
    m.seam.1 = true ∧ m.seam.2.1.toNat = m.sent := by
  have few := counts.burst (Or.inr (Or.inr (Or.inl place))) (by simp [place])
  have words : m.wordLo.toNat = m.sent - m.hiPending.toNat ∧
      (m.hiPending = true → (m.wordLo ||| 1#9).toNat = m.sent) := by
    unfold sent
    simp only [place, reduceCtorEq, if_false, if_true]
    cases last : m.last with
    | true =>
      obtain ⟨lo, hi⟩ := wordLo_last last
      refine ⟨by simp only [if_true]; omega, fun pending => ?_⟩
      rw [hi (counts.pad place pending)]
      simp [pending]
      omega
    | false =>
      obtain ⟨lo, hi⟩ := wordLo_toNat last few
      refine ⟨by simp only [Bool.false_eq_true, if_false]; omega, fun pending => ?_⟩
      rw [hi]
      simp [pending]
      omega
  unfold seam
  rw [place]
  cases pending : m.hiPending with
  | true => exact ⟨rfl, words.2 pending⟩
  | false =>
    have taken : m.rbValid = true := by simpa [pending] using up
    simp only [taken]
    refine ⟨rfl, ?_⟩
    have lo := words.1
    rw [pending] at lo
    exact lo

theorem wordIn_counts (place : m.pst = .r) (counts : Counts m) {x : Mover} (state : x.pst = .r)
    (burst : x.pBurst = m.pBurst) (beat : x.pBeat = m.pBeat)
    (pending : x.hiPending = m.hiPending) : Counts (m.wordIn x) := by
  have few := counts.burst (Or.inr (Or.inr (Or.inl place))) (by simp [place])
  unfold wordIn
  cases hi : m.hiPending with
  | true =>
    have pad := counts.pad place hi
    simp only [if_true]
    by_cases final : m.lastBeat = true
    · have data : m.last = false := by
        cases data : m.last with
        | false => rfl
        | true =>
          simp [padBeat, lastBeat, data] at pad final
          simp [final] at pad
      have less := burst_data data few
      have bumped : (m.pBurst + 1).toNat = m.pBurst.toNat + 1 := by
        rw [BitVec.toNat_add]
        simp
        omega
      rw [if_pos final]
      refine ⟨fun _ _ => ?_, ?_, ?_⟩
      · simp only [bump]
        omega
      · simp [bump]
      · simp [bump]
    · rw [if_neg final]
      refine ⟨fun _ _ => ?_, ?_, ?_⟩ <;> simp [burst, few]
  | false =>
    rw [hi] at pending
    simp only [Bool.false_eq_true, if_false]
    split_ifs with taken pad
    · refine ⟨?_, ?_, ?_⟩
      · cases m.pDrop <;> simp [bump, PState.fetching]
      · simp [bump, pending]
      · simp [bump, pending]
    · cases m.pDrop <;>
      exact ⟨by simp [bump, PState.fetching], by simp [bump, pending], by simp [bump, pending]⟩
    · refine ⟨fun _ _ => by rw [burst]; exact few, fun _ _ => state, fun _ _ => ?_⟩
      simpa [padBeat, last, burst, beat] using pad
    · exact ⟨fun _ _ => by rw [burst]; exact few, by simp [pending], by simp [pending]⟩

theorem wordIn_sends (place : m.pst = .r) (counts : Counts m) {x : Mover} (state : x.pst = .r)
    (burst : x.pBurst = m.pBurst) (beat : x.pBeat = m.pBeat)
    (pending : x.hiPending = m.hiPending) : Sends m (m.wordIn x) := by
  have few := counts.burst (Or.inr (Or.inr (Or.inl place))) (by simp [place])
  have gone := seam_read place counts
  have count : m.sent = (if m.last then 256 else 32 * m.pBurst.toNat) +
      2 * (if m.last then m.pBeat.toNat % 2 else m.pBeat.toNat) + m.hiPending.toNat := by
    unfold sent
    simp only [place, reduceCtorEq, if_false, if_true]
    omega
  have size := m.pBeat.isLt
  unfold Sends wordIn
  cases hi : m.hiPending with
  | true =>
    have pad := counts.pad place hi
    specialize gone (by simp [hi])
    simp only [hi, Bool.toNat_true] at count
    simp only [if_true]
    by_cases final : m.lastBeat = true
    · have data : m.last = false := by
        cases data : m.last with
        | false => rfl
        | true =>
          simp [padBeat, lastBeat, data] at pad final
          simp [final] at pad
      have less := burst_data data few
      have fifteen : m.pBeat.toNat = 15 := by
        have same : m.pBeat = 15#4 := by simpa [lastBeat, data] using final
        rw [same]
        rfl
      have bumped : (m.pBurst + 1).toNat = m.pBurst.toNat + 1 := by
        rw [BitVec.toNat_add]
        simp
        omega
      intro fetch
      right
      refine ⟨?_, gone⟩
      rw [if_pos final] at fetch ⊢
      cases drop : m.pDrop with
      | true => simp [bump, drop, PState.fetching] at fetch
      | false =>
        simp only [data, Bool.false_eq_true, if_false] at count
        rw [sent_ar (by simp [bump, data]), count, fifteen]
        simp only [bump, bumped]
        omega
    · rw [if_neg final]
      intro fetch
      right
      refine ⟨?_, gone⟩
      rw [count]
      simp only [sent, state, last, burst, reduceCtorEq, if_false, if_true, Bool.toNat_false]
      by_cases eighth : (m.pBurst == 8#4) = true
      · have even : m.pBeat.toNat % 2 = 0 := by
          have low : m.pBeat.getLsbD 0 = false := by simpa [padBeat, last, eighth] using pad
          simpa [BitVec.getLsbD, Nat.testBit_zero] using low
        have step : (m.pBeat + 1).toNat = m.pBeat.toNat + 1 := by
          rw [BitVec.toNat_add]
          simp
          omega
        simp only [eighth, if_true, step]
        omega
      · have short : m.pBeat.toNat < 15 := by
          have other : m.pBeat.toNat ≠ 15 := fun fifteen => by
            have same : m.pBeat = 15#4 := BitVec.eq_of_toNat_eq fifteen
            simp [lastBeat, last, eighth, same] at final
          omega
        have step : (m.pBeat + 1).toNat = m.pBeat.toNat + 1 := by
          rw [BitVec.toNat_add]
          simp
          omega
        simp only [eighth, Bool.false_eq_true, if_false, step]
        omega
  | false =>
    simp only [hi, Bool.toNat_false] at count
    simp only [Bool.false_eq_true, if_false]
    by_cases taken : m.rbValid = true
    · specialize gone (by simp [taken])
      rw [if_pos taken]
      intro fetch
      right
      refine ⟨?_, gone⟩
      rw [count]
      by_cases pad : m.padBeat = true
      · obtain ⟨last, odd⟩ : m.last = true ∧ m.pBeat.getLsbD 0 = true := by
          simpa [padBeat] using pad
        have one : m.pBeat.toNat % 2 = 1 := by
          simpa [BitVec.getLsbD, Nat.testBit_zero] using odd
        rw [if_pos pad] at fetch ⊢
        cases drop : m.pDrop with
        | true => simp [bump, drop, PState.fetching] at fetch
        | false => simp [bump, sent, last, one]
      · rw [if_neg pad]
        unfold sent last
        simp only [state, burst, beat, reduceCtorEq, if_false, if_true, Bool.toNat_true]
        split_ifs <;> omega
    · rw [if_neg taken]
      intro _
      left
      rw [count]
      unfold sent last
      simp only [state, burst, beat, pending, hi, reduceCtorEq, if_false, if_true,
        Bool.toNat_false]
      split_ifs <;> omega

theorem made_fetch (fetch : m.pst.fetching) (counts : Counts m) :
    Counts (m.made accepted g rdata i) ∧ Sends m (m.made accepted g rdata i) ∧
      (m.made accepted g rdata i).pst ≠ .take := by
  have running : m.pst ≠ .idle := by
    rcases fetch with place | place | place | place <;> simp [place]
  rw [made_running running]
  unfold stateStep
  rcases fetch with place | place | place | place
  · have few := counts.burst (Or.inl place) (by simp [place])
    have low : m.hiPending = false := by
      cases hi : m.hiPending with
      | false => rfl
      | true => simpa [place] using counts.low (Or.inl place) hi
    rw [place]
    dsimp only
    split_ifs
    · exact ⟨⟨by simp [PState.fetching], by simp [PState.fetching], by simp⟩,
        by simp [Sends, PState.fetching], by simp⟩
    · refine ⟨⟨fun _ _ => few, by simp [addressed, low], by simp⟩, fun _ => Or.inl ?_, by simp⟩
      simp [sent, last, addressed, place]
  · have few := counts.burst (Or.inr (Or.inl place)) (by simp [place])
    have low : m.hiPending = false := by
      cases hi : m.hiPending with
      | false => rfl
      | true => simpa [place] using counts.low (Or.inr (Or.inl place)) hi
    rw [place]
    dsimp only
    split_ifs
    · refine ⟨⟨fun _ _ => few, by simp [addressed, low], by simp [addressed, low]⟩,
        fun _ => Or.inl ?_, by simp⟩
      simp [sent, last, addressed, place, low]
    · refine ⟨⟨fun _ _ => few, by simp [addressed, low], by simp [addressed, low]⟩,
        fun _ => Or.inl ?_, by simp [addressed, place]⟩
      simp [sent, last, addressed, place]
  · obtain ⟨state, burst, beat, pending⟩ := beatIn_counts (m := m) (i := i) (m.addressed i)
    rw [place]
    refine ⟨wordIn_counts place counts (state.trans place) burst beat pending,
      wordIn_sends place counts (state.trans place) burst beat pending, ?_⟩
    have still : (m.beatIn i (m.addressed i)).pst = .r := state.trans place
    dsimp only
    unfold wordIn bump
    split_ifs <;> simp [still]
  · rw [place]
    exact ⟨⟨by simp [PState.fetching], by simp [PState.fetching], by simp⟩,
      by simp [Sends, PState.fetching], by simp⟩

theorem made_ends : (m.pst = .take → (m.made accepted g rdata i).pst = .ar ∨
      (m.made accepted g rdata i).pst = .idle) ∧
    (m.pst = .tag → (m.made accepted g rdata i).pst = .idle) := by
  constructor
  · intro place
    rw [made_running (by simp [place])]
    simp only [stateStep, place]
    split_ifs <;> simp
  · intro place
    rw [made_running (by simp [place])]
    simp only [stateStep, place]

theorem seam_cases (counts : Counts m) (up : m.seam.1 = true) :
    m.pst = .take ∧ m.seam.2 = (259#9, 1#1 ++ 0#31) ∨
      m.pst = .r ∧ ¬ (¬ m.seam.2.1 < 256#9 ∧ m.seam.2.1.extractLsb' 0 2 = 3#2) ∨
      m.pst = .tag ∧ m.seam.2 = (259#9, 0#1 ++ m.pTag) := by
  have even : ∀ burst beat : BitVec 4,
      let lo := if burst == 8#4 then 256#9 + (0#7 ++ beat.extractLsb' 0 1 ++ 0#1)
        else 0#1 ++ burst.extractLsb' 0 3 ++ beat ++ 0#1
      ¬ (¬ lo < 256#9 ∧ lo.extractLsb' 0 2 = 3#2) ∧
        ((burst == 8#4 && beat.getLsbD 0) = false →
          ¬ (¬ (lo ||| 1#9) < 256#9 ∧ (lo ||| 1#9).extractLsb' 0 2 = 3#2)) := by decide
  have words := even m.pBurst m.pBeat
  have lo : m.wordLo = if m.pBurst == 8#4 then 256#9 + (0#7 ++ m.pBeat.extractLsb' 0 1 ++ 0#1)
    else 0#1 ++ m.pBurst.extractLsb' 0 3 ++ m.pBeat ++ 0#1 := rfl
  rw [← lo] at words
  unfold seam at up ⊢
  cases place : m.pst with
  | take => exact Or.inl ⟨rfl, rfl⟩
  | tag => exact Or.inr (Or.inr ⟨rfl, rfl⟩)
  | r =>
    refine Or.inr (Or.inl ⟨rfl, ?_⟩)
    rw [place] at up
    dsimp only at up ⊢
    split_ifs at up ⊢ with hi taken
    · exact words.2 (counts.pad place hi)
    · exact words.1
  | idle => simp [place] at up
  | ar => simp [place] at up
  | aw => simp [place] at up
  | w0 => simp [place] at up
  | w1 => simp [place] at up
  | w2 => simp [place] at up
  | w3 => simp [place] at up
  | w4 => simp [place] at up
  | w5 => simp [place] at up
  | b => simp [place] at up

theorem seam_fetching (up : m.seam.1 = true) : m.pst.fetching := by
  unfold seam at up
  unfold PState.fetching
  cases place : m.pst <;> simp [place] at up ⊢

theorem made_write (running : m.pst ≠ .idle) (other : ¬ m.pst.fetching) :
    ¬ (m.made accepted g rdata i).pst.fetching := by
  rw [made_running running]
  unfold stateStep
  unfold PState.fetching at other ⊢
  cases place : m.pst with
  | idle => exact absurd place running
  | take => simp [place] at other
  | ar => simp [place] at other
  | r => simp [place] at other
  | tag => simp [place] at other
  | b =>
    dsimp only
    unfold respond bump
    split_ifs <;> simp [addressed, place]
  | w5 =>
    dsimp only
    split_ifs <;> simp [addressed, place]
  | aw => simp
  | w0 => simp
  | w1 => simp
  | w2 => simp
  | w3 => simp
  | w4 => simp

/-- A fetch or a take-away is busy, and is no write-back. -/
structure Sound (m : Mover) : Prop extends Counts m where
  busy : m.pst.fetching → m.busy = true
  read : m.pst.fetching → m.pWrite = false

section Left

variable {x y : Mover}

theorem Left.kept (left : Left x y) (fetch : y.pst.fetching) : y.pst = x.pst ∧
    y.busy = x.busy ∧ y.hiPending = x.hiPending := by
  rcases left.goes with goes | ⟨idle, -, -⟩
  · exact goes
  · simp [PState.fetching, idle] at fetch

theorem Left.sent (left : Left x y) (fetch : y.pst.fetching) : y.sent = x.sent := by
  obtain ⟨place, -, pending⟩ := left.kept fetch
  unfold Mover.sent Mover.last
  rw [place, pending, left.burst, left.beat]

theorem Left.sound (left : Left x y) (sound : Sound x) : Sound y where
  burst := fun fetch other => by
    obtain ⟨place, -, -⟩ := left.kept fetch
    rw [left.burst]
    exact sound.burst (place ▸ fetch) (place ▸ other)
  low := fun fetch hi => by
    obtain ⟨place, -, pending⟩ := left.kept fetch
    rw [place]
    exact sound.low (place ▸ fetch) (pending ▸ hi)
  pad := fun reading hi => by
    obtain ⟨place, -, pending⟩ := left.kept (Or.inr (Or.inr (Or.inl reading)))
    unfold padBeat Mover.last
    rw [left.burst, left.beat]
    exact sound.pad (place ▸ reading) (pending ▸ hi)
  busy := fun fetch => by
    obtain ⟨place, busy, -⟩ := left.kept fetch
    rw [busy]
    exact sound.busy (place ▸ fetch)
  read := fun fetch => by
    obtain ⟨place, -, -⟩ := left.kept fetch
    rw [left.same.write]
    exact sound.read (place ▸ fetch)

end Left

theorem Sound.aside {m : Mover} (other : ¬ m.pst.fetching) : Sound m where
  burst := fun fetch => absurd fetch other
  low := fun fetch => absurd fetch other
  pad := fun reading => absurd (Or.inr (Or.inr (Or.inl reading))) other
  busy := fun fetch => absurd fetch other
  read := fun fetch => absurd fetch other

theorem next_begun (rst : i.rst = false) (idle : m.pst = .idle) (drop : m.pDrop = false) :
    Sound (m.next true g rdata i) ∧
      Same { m with pSlot := g.slot, pTag := g.tag, pWrite := g.goQ.getLsbD 1 }
        (m.next true g rdata i) ∧
      ((m.next true g rdata i).pst.fetching → (m.next true g rdata i).pst = .take ∧
        (m.next true g rdata i).sent = 0) := by
  have left : Left (m.made true g rdata i) (m.next true g rdata i) := next_left rst
  rw [made_begun idle drop] at left
  refine ⟨left.sound ?_, ⟨left.same.slot, left.same.tag, left.same.write⟩, fun fetch => ?_⟩
  · cases kind : g.goQ.getLsbD 1 with
    | true => exact Sound.aside (by simp [begin, kind, PState.fetching])
    | false => exact ⟨⟨by simp [begin], by simp [begin], by simp [begin]⟩, by simp [begin],
        fun _ => kind⟩
  · have first : (begin g (m.addressed i)).pst = .take := by
      obtain ⟨place, -, -⟩ := left.kept fetch
      rw [place] at fetch
      unfold begin at fetch ⊢
      cases kind : g.goQ.getLsbD 1 with
      | true => simp [kind, PState.fetching] at fetch
      | false => rfl
    rw [left.sent fetch, (left.kept fetch).1, first]
    refine ⟨rfl, ?_⟩
    unfold Mover.sent
    rw [first]
    simp [begin, last]

theorem next_goes (rst : i.rst = false) (other : m.pst ≠ .idle ∨ accepted = false) :
    Same m (m.next accepted g rdata i) ∧
      ((m.next accepted g rdata i).busy = true → m.busy = true) := by
  have left : Left (m.made accepted g rdata i) (m.next accepted g rdata i) := next_left rst
  have made : Same m (m.made accepted g rdata i) ∧
      ((m.made accepted g rdata i).busy = true → m.busy = true) := by
    by_cases idle : m.pst = .idle
    · have none : accepted = false := other.resolve_left (fun running => running idle)
      rw [none]
      exact ⟨(made_waits idle).1, (made_waits idle).2.2.2⟩
    · exact made_same idle
  refine ⟨⟨left.same.slot.trans made.1.slot, left.same.tag.trans made.1.tag,
    left.same.write.trans made.1.write⟩, fun up => ?_⟩
  rcases left.goes with ⟨-, busy, -⟩ | ⟨-, down, -⟩
  · exact made.2 (busy ▸ up)
  · simp [down] at up

theorem next_sound (rst : i.rst = false) (other : m.pst ≠ .idle ∨ accepted = false)
    (sound : Sound m) : Sound (m.next accepted g rdata i) ∧
      ((m.next accepted g rdata i).pst.fetching → m.pst.fetching ∧
        Sends m (m.next accepted g rdata i) ∧ (m.next accepted g rdata i).pst ≠ .take) := by
  have left : Left (m.made accepted g rdata i) (m.next accepted g rdata i) := next_left rst
  by_cases fetch : m.pst.fetching
  · have running : m.pst ≠ .idle := by
      intro idle
      simp [PState.fetching, idle] at fetch
    obtain ⟨counts, sends, taken⟩ : Counts (m.made accepted g rdata i) ∧
      Sends m (m.made accepted g rdata i) ∧ (m.made accepted g rdata i).pst ≠ .take :=
        made_fetch fetch sound.toCounts
    obtain ⟨same, -⟩ : Same m (m.made accepted g rdata i) ∧ _ := made_same running
    have busy : (m.made accepted g rdata i).pst.fetching →
        (m.made accepted g rdata i).busy = true := by
      have up := sound.busy fetch
      rw [made_running running]
      unfold stateStep
      rcases fetch with place | place | place | place <;> rw [place] <;> dsimp only
      · split_ifs <;> simp [PState.fetching, addressed, up]
      · split_ifs <;> simp [PState.fetching, addressed, up]
      · intro _
        rw [(read_same (m.addressed i)).2]
        exact up
      · simp [PState.fetching]
    have whole : Sound (m.made accepted g rdata i) :=
      ⟨counts, busy, fun _ => by rw [same.write]; exact sound.read fetch⟩
    refine ⟨left.sound whole, fun still => ?_⟩
    obtain ⟨place, -, -⟩ := left.kept still
    refine ⟨fetch, fun _ => ?_, ?_⟩
    · rw [left.sent still]
      exact sends (place ▸ still)
    · rw [place]
      exact taken
  · have aside : ¬ (m.made accepted g rdata i).pst.fetching := by
      by_cases idle : m.pst = .idle
      · have none : accepted = false := other.resolve_left (fun running => running idle)
        rw [none]
        simp [PState.fetching, (made_waits idle).2.1]
      · exact made_write idle fetch
    have off : ¬ (m.next accepted g rdata i).pst.fetching := fun still => by
      obtain ⟨place, -, -⟩ := left.kept still
      exact aside (place ▸ still)
    exact ⟨Sound.aside off, fun still => absurd still off⟩

theorem next_ends (rst : i.rst = false) :
    (m.pst = .take → (m.next accepted g rdata i).pst = .ar ∨
      (m.next accepted g rdata i).pst = .idle) ∧
    (m.pst = .tag → (m.next accepted g rdata i).pst = .idle) := by
  have left : Left (m.made accepted g rdata i) (m.next accepted g rdata i) := next_left rst
  have ends : (m.pst = .take → (m.made accepted g rdata i).pst = .ar ∨
      (m.made accepted g rdata i).pst = .idle) ∧
    (m.pst = .tag → (m.made accepted g rdata i).pst = .idle) := made_ends
  rcases left.goes with ⟨place, -⟩ | ⟨idle, -⟩
  · rw [place]
    exact ends
  · exact ⟨fun _ => Or.inr idle, fun _ => idle⟩

end Mover
end MuirFpga.Packs.DiskPack
