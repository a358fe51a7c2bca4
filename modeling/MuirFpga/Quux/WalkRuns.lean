import MuirFpga.Quux.WalkFail
import MuirFpga.Quux.WalkReturns

/-!
# What every run of the block walk does

The pages it moves, how each START ends, and that it ends. And a read off a small pack that moves a
page and fails past the pack's end.
-/

namespace MuirFpga.Quux

section Results

variable {mainWords size : Nat} {i : Nat → WalkInput} {m : Nat → Seam} {c : Nat → Copying} {l : Nat → Ledger}

namespace Copying

/-- The page codec of the block walk. The byte queue never has more than eight bytes. A read's page
puts its 1024 words into memory in order, each the bytes of the page's blocks, and a write's page
takes memory's 1024 words in order and leaves their bytes in its blocks and the others alone;
either way the queue ends empty. What is handed to the store lands in the slot, found with the
block's tag; and a page written and read back is restored. -/
theorem page_codec (runs : Runs mainWords i m c) (served : ∀ clock, (c clock).Served) :
    (∀ clock, (c clock).walk.sn.toNat ≤ 8) ∧
    (∀ clock, (c clock).ReadEnds (i clock) →
      (c (clock + 1)).sent = (List.range 1024).map (fun n =>
        ((c clock).walk.page ++ BitVec.ofNat 10 n,
          memWord (c clock).walk.four (diskByte (c clock).disk (c clock).walk.base) n)) ∧
      (c (clock + 1)).walk.sn = 0) ∧
    (∀ clock, (c clock).WriteEnds (i clock) →
      (c (clock + 1)).got.map Prod.fst =
        (List.range 1024).map (fun n => (c clock).walk.page ++ BitVec.ofNat 10 n) ∧
      (∀ j, j < 1024 * (c clock).walk.size →
        diskByte (c (clock + 1)).disk (c clock).walk.base j =
          memByte (c clock).walk.four (word (c (clock + 1)).got) j) ∧
      (∀ b, (∀ p, p < (c clock).walk.size → b ≠ pageBlock (c clock).walk.base p) →
        (c (clock + 1)).disk b = (c (clock + 1)).before b) ∧
      (c (clock + 1)).walk.sn = 0) ∧
    (∀ clock, (i clock).rst = false → (c clock).walk.issues = true →
      (c (clock + 2)).store.ram (c clock).walk.chWord = (c clock).walk.sb.extractLsb' 0 32) ∧
    (∀ clock, (c clock).walk.moves → ∃ look, look < clock ∧
      (c look).store.valid (c clock).walk.chSlot = true ∧
      (c look).store.tag (c clock).walk.chSlot = 0#3 ++ (c clock).walk.block) ∧
    (∀ first last, ReadBack i c first last → (c (last + 1)).sent =
      (List.range 1024).map fun n => ((c last).walk.page ++ BitVec.ofNat 10 n,
        restored (c first).walk.four (word (c (first + 1)).got n))) := by
  refine ⟨fun clock => (runs.sound served clock).queue, ?_, ?_, ?_, ?_, ?_⟩
  · intro clock ends
    rw [runs.step]
    exact (runs.sound served clock).read_page ends
  · intro clock ends
    rw [runs.step]
    exact (runs.sound served clock).write_page ends
  · intro clock rst issues
    rw [runs.step, runs.step]
    exact handed_lands rst issues
  · intro clock moves
    exact runs.found moves
  · intro first last back
    exact runs.restores served back

end Copying

/-- How a START ends. As many ends are told as STARTs were taken, but for one that is still being
walked or told. When the end is told, the pages moved whole lie in order from the disk address on,
with all their words in memory on a read and all their bytes on the disk on a write; nothing else
has been written to memory, and a read has left the disk alone. Either all pages are moved and the
disk address is the last block's, or one error is told and the disk address is the block that
failed: past the end, or the first of a page whose entry or page is past main memory. The blocks
before it are charged, and on a write stored, and none from it on is touched. -/
theorem walk_ends (run : Accounted mainWords size i m c l) :
    (∀ clock, (l clock).starts = (l clock).fins + (c clock).walk.fin.toNat +
      if (c clock).walk.v = .idle then 0 else 1) ∧
    ∀ clock, (c clock).walk.fin = true → Left mainWords size (c clock).walk (l clock)
      (c clock).disk (c clock).got (l clock).charges :=
  ⟨fun clock => (run.booked clock).counts, fun clock told => ((run.booked clock).fin told).2⟩

namespace Walking

/-- Every walk moves no block from 2^28 on and its block counter does not wrap; and it comes back to
idle once what it awaits comes, if the store loses its block no more from some clock on. -/
theorem block_walk_returns (mainWords : Nat) (first : Walking) (i : Nat → WalkInput) (m : Nat → Seam) :
    let c := run mainWords first i m
    (∀ a t, (c a).starts (i a) = true → a < t → (∀ u, a < u → u < t → (c u).walk.v ≠ .idle) →
      moved c a t ≤ 2 ^ 28 - (i a).stDa.toNat ∧ (c t).walk.base.toNat ≤ 2 ^ 28 ∧
      (c t).walk.cur.toNat = (c t).walk.base.toNat + (c t).walk.k.toNat ∧
      ((i t).rst = false → (c t).walk.v ≠ .idle → (c (t + 1)).walk.base.toNat = (c t).walk.base.toNat +
        if (c t).walk.pageDone (i t) && (c t).walk.more then (c t).walk.size else 0)) ∧
    (Answered c i m → (∃ settled, ∀ t, settled ≤ t → (c t).loses (i t) (m t) = false) →
      ∀ a, ∃ t, a ≤ t ∧ (c t).walk.v = .idle) := by
  intro c
  constructor
  · intro a t begun after busy
    have tally : Tally (c t).walk (i a).stDa.toNat (moved c a t) := tally_run begun after busy
    obtain ⟨most, room⟩ := tally.most
    exact ⟨by omega, room, cur_toNat room, fun rst still => tally.base_next rst still⟩
  · rintro answered ⟨settled, kept⟩ a
    exact returns answered kept a

end Walking

end Results

section Played

open Copying

/-- The pack side of a pack of five blocks brings a block asked for into the slot of its number, and
denies the others. -/
def bringing (w : Walk) : Seam :=
  ⟨w.waiting && decide (w.lba.toNat < 5), w.lba.extractLsb' 0 5, 259, w.reqTag.setWidth 32,
    decide (5 ≤ w.lba.toNat), false, 0⟩

/-- A disk of sevens, and a slot store that has held them. -/
def sevens : Copying := ⟨{ BlockStore.blank with ram := fun _ => 7 }, .blank, [], [], fun _ _ => 7, fun _ _ => 0⟩

/-- A read whose command list goes on for ever. -/
def onward : WalkInput := { reading with dRdata := 1 }

/-- The read, and its account. -/
def played : Nat → Copying
  | 0 => sevens.next (2 ^ 28) { onward with rst := true } (bringing sevens.walk)
  | t + 1 => (played t).next (2 ^ 28) onward (bringing (played t).walk)
def account : Nat → Ledger
  | 0 => ⟨0, fun _ _ => 0, [], [], 0, 0, 0⟩
  | t + 1 => (account t).next (played t) onward

/-- The read leaves the store and the disk as they are. -/
structure Even (c : Copying) : Prop where
  sound : c.Sound
  ram : c.store.ram = fun _ => 7
  disk : c.disk = fun _ _ => 7
  reads : c.walk.writing = false
  port : c.walk.chbWe = false

theorem Even.served {c : Copying} (even : Even c) : c.Served := by
  intro place word
  rw [even.ram, even.disk]

theorem Even.unwritten {c : Copying} (even : Even c) : c.walk.v ≠ .write := by
  intro place
  exact absurd (even.reads.symm.trans (even.sound.write place).stored.writes) Bool.false_ne_true

theorem played_starts {t : Nat} (place : (played t).walk.v = .idle) :
    (played (t + 1)).walk.v = .ccw ∧ (played (t + 1)).walk.writing = false := by
  have idles : Walk.Idles onward (played t).walk (played (t + 1)).walk := Walk.next_idle rfl place
  cases idles with
  | started start present next =>
    obtain ⟨age, hits, walk⟩ := next
    rw [walk]
    exact ⟨rfl, rfl⟩
  | stays unstarted next => exact absurd ⟨rfl, rfl⟩ unstarted

theorem played_even (t : Nat) : Even (played t) := by
  induction t with
  | zero => exact ⟨sound_reset rfl, rfl, rfl, rfl, rfl⟩
  | succ t ih =>
    constructor
    · exact sound_next ih.sound ih.served
    · change (if (played t).walk.chbWe then _ else if (bringing (played t).walk).data then _
        else (played t).store.ram) = _
      rw [ih.port, if_neg Bool.false_ne_true, if_neg (by simp [Seam.data, bringing])]
      exact ih.ram
    · exact (next_disk (issues_aside ih.unwritten)).trans ih.disk
    · by_cases place : (played t).walk.v = .idle
      · exact (played_starts place).2
      · exact (Walk.next_kept rfl place).1.trans ih.reads
    · cases port : (played (t + 1)).walk.chbWe with
      | false => rfl
      | true =>
        obtain ⟨-, came⟩ := Walk.next_visit (Or.inr port)
        rcases came with ⟨slot, -, chosen⟩ | ⟨place | place, -⟩
        · exact port.symm.trans chosen.port
        · have reads : Walk.Reads (played t).store onward (played t).walk (played (t + 1)).walk :=
            Walk.next_read rfl place
          rw [← port]
          cases reads <;> (rename_i next; obtain ⟨_, _, same⟩ := next; rw [same]; rfl)
        · exact absurd place ih.unwritten

theorem bringing_tag (w : Walk) : (bringing w).wdata.extractLsb' 0 31 = w.reqTag := by
  simp [bringing, BitVec.extractLsb'_setWidth_of_le]

theorem bringing_pack (w : Walk) : Pack 5 (bringing w) w := by
  constructor
  · intro writes
    have few : w.lba.toNat < 5 := by
      simp [bringing, Seam.tagWrite, Seam.beside] at writes
      exact writes.2
    rw [bringing_tag, Walk.reqTag, BitVec.toNat_append]
    simpa using few
  · intro deny _
    exact of_decide_eq_true deny

theorem played_accounted : Accounted (2 ^ 28) 5 (fun _ => onward)
    (fun t => bringing (played t).walk) played account :=
  ⟨⟨⟨sevens, { onward with rst := true }, bringing sevens.walk, rfl, rfl⟩, fun _ => rfl⟩,
    fun t => (played_even t).served, fun _ => bringing_pack _, ⟨rfl, rfl⟩, fun _ => rfl⟩

/-- From the first clock on it takes entries that go on, and back at idle it has told its end. -/
theorem played_more {t : Nat} (after : 1 ≤ t) : (played t).walk.v = .ccw ∨
    (played t).walk.more = true ∧ ((played t).walk.v = .idle → (played t).walk.fin = true) := by
  induction t, after using Nat.le_induction with
  | base => exact Or.inl (played_starts rfl).1
  | succ t after ih =>
    by_cases idle : (played t).walk.v = .idle
    · exact Or.inl (played_starts idle).1
    by_cases place : (played t).walk.v = .ccw
    · have enters : Walk.Enters (2 ^ 28) onward (played t).walk (played (t + 1)).walk :=
        Walk.next_ccw rfl place
      cases enters with
      | entryPast _ past _ => exact absurd past (Nat.not_le.mpr (played t).walk.ccwAddr.isLt)
      | asks _ _ next | holds _ _ next =>
        obtain ⟨age, hits, walk⟩ := next
        rw [walk]
        exact Or.inl place
      | pagePast _ _ _ next | takes _ _ _ next =>
        obtain ⟨age, hits, walk⟩ := next
        rw [walk]
        exact Or.inr ⟨rfl, by simp [(played_even t).reads]⟩
    · obtain ⟨more, tells⟩ : (played (t + 1)).walk.more = (played t).walk.more ∧
          ((played (t + 1)).walk.v = .idle → (played (t + 1)).walk.fin = true) :=
        (Walk.next_kept rfl idle).2 place
      exact Or.inr ⟨more.trans ((ih.resolve_left place).1), tells⟩

theorem played_da (t : Nat) : (account t).da = 0 := by
  induction t with
  | zero => rfl
  | succ t ih =>
    change ((account t).next (played t) onward).da = 0
    unfold Ledger.next
    rw [if_neg (show ¬ onward.rst = true from Bool.false_ne_true)]
    split
    · rfl
    · exact ih

/-- Back at idle it has failed past the pack's end, with a page moved. -/
theorem played_fails {t : Nat} (after : 1 ≤ t) (idle : (played t).walk.v = .idle) :
    (played t).walk.fin = true ∧ (played t).walk.pastEnd = true ∧ (account t).pages ≠ [] := by
  obtain ⟨more, tells⟩ := (played_more after).resolve_left (by simp [idle])
  have fin := tells idle
  have left := ((played_accounted.booked t).fin fin).2
  cases left.ends with
  | done _ last => exact absurd (last.symm.trans more) Bool.false_ne_true
  | nxm _ beyond =>
    rcases beyond with far | far
    · exact absurd far (Nat.not_le.mpr (BitVec.isLt _))
    · exact absurd far (Nat.not_le.mpr (BitVec.isLt _))
  | pastEnd flags beyond stops =>
    refine ⟨fin, flags.1, fun none_ => ?_⟩
    have owed := stops.charges
    have place := stops.da
    have block := stops.block
    rw [none_, List.length_nil] at owed
    rw [played_da, show (0 : BitVec 28).toNat = 0 from rfl] at place
    rcases size_cases (played t).walk with ⟨-, size, -⟩ | ⟨-, size, -⟩
    · rw [size] at block
      omega
    · rw [size] at block
      omega

/-- A page it has moved ended at some clock. -/
theorem played_page {t : Nat} (some_ : (account t).pages ≠ []) : ∃ u, (played u).ReadEnds onward := by
  induction t with
  | zero => exact absurd rfl some_
  | succ t ih =>
    change ((account t).next (played t) onward).pages ≠ [] at some_
    unfold Ledger.next at some_
    rw [if_neg (show ¬ onward.rst = true from Bool.false_ne_true)] at some_
    split at some_
    · exact absurd rfl some_
    · by_cases done : (played t).walk.pageDone onward = true
      · refine ⟨t, rfl, ?_, done⟩
        have unwritten := (played_even t).unwritten
        simp [Walk.pageDone, unwritten] at done
        exact done.1.1.1
      · dsimp only at some_
        rw [if_neg done] at some_
        exact ih some_

/-- The walk and the store of the read. -/
def walking : Nat → Walking :=
  Walking.run (2 ^ 28) ⟨sevens.store, sevens.walk⟩ (fun _ => onward) fun t => bringing (played t).walk

theorem walking_eq (t : Nat) : walking t = ⟨(played t).store, (played t).walk⟩ := by
  induction t with
  | zero => rfl
  | succ t ih =>
    change (walking t).next (2 ^ 28) onward (bringing (played t).walk) = _
    rw [ih]
    rfl

theorem walking_answered :
    Walking.Answered walking (fun _ => onward) (fun t => bringing (played t).walk) := by
  refine ⟨fun t => ⟨t, Nat.le_refl t, fun _ => rfl⟩, fun t => ⟨t, Nat.le_refl t, ?_⟩,
    fun t => ⟨t, Nat.le_refl t, fun _ blocked => absurd blocked.1 Bool.false_ne_true⟩⟩
  rw [walking_eq]
  intro waits
  generalize (played t).walk = w at waits ⊢
  rcases Nat.lt_or_ge w.lba.toNat 5 with few | past
  · right
    unfold Walk.arrives
    rw [bringing_tag]
    simp [bringing, waits, few]
  · exact Or.inl (decide_eq_true past)

theorem walking_keeps (t : Nat) : (walking t).loses onward (bringing (played t).walk) = false := by
  have asks := (played_accounted.tagged t).asks
  rw [walking_eq]
  generalize (played t).walk = w, (played t).store = s at asks ⊢
  unfold Walking.loses
  dsimp only
  cases waits : w.waiting with
  | false =>
    have same : (s.next onward.rst (bringing w) w).held w.block = s.held w.block := by
      simp [BlockStore.held, BlockStore.next, bringing, waits, Seam.tagWrite, Seam.beside, onward, reading]
    rw [same]
    cases s.held w.block <;> simp
  | true =>
    have looks : w.lookingUp = false := by
      unfold Walk.waiting at waits
      unfold Walk.lookingUp
      cases place : w.v <;> simp_all
    rcases Nat.lt_or_ge w.lba.toNat 5 with few | past
    · have held : (s.next onward.rst (bringing w) w).held w.block = true := by
        unfold BlockStore.held
        rw [List.any_eq_true]
        refine ⟨w.lba.extractLsb' 0 5, List.mem_map.mpr ⟨w.lba.toNat,
          List.mem_range.mpr (Nat.lt_trans few (by decide)), BitVec.eq_of_toNat_eq (by simp)⟩, ?_⟩
        rw [← asks waits]
        simp [BlockStore.next, bringing, waits, few, Seam.tagWrite, Seam.beside, onward, reading, Walk.reqTag,
          BitVec.extractLsb'_setWidth_of_le]
      rw [held]
      rfl
    · have denies : (bringing w).deny = true := decide_eq_true past
      simp [looks, denies]

theorem played_idle : ∃ t, 1 ≤ t ∧ (played t).walk.v = .idle := by
  obtain ⟨t, after, idle⟩ := @Walking.returns _ _ _ _ walking_answered 0 (fun t _ => walking_keeps t) 1
  exact ⟨t, after, (congrArg (·.walk.v) (walking_eq t)).symm.trans idle⟩

/-- The read moves a page of sevens whole. -/
theorem Copying.page_codec_played : ∃ t, (played t).ReadEnds onward ∧
    (played (t + 1)).sent = (List.range 1024).map (fun n =>
      ((played t).walk.page ++ BitVec.ofNat 10 n,
        memWord (played t).walk.four (diskByte (fun _ _ => 7) (played t).walk.base) n)) := by
  obtain ⟨t, after, idle⟩ := played_idle
  obtain ⟨u, ends⟩ := played_page (played_fails after idle).2.2
  obtain ⟨-, reads, -⟩ := page_codec played_accounted.runs played_accounted.served
  have sent := (reads u ends).1
  rw [(played_even u).disk] at sent
  exact ⟨u, ends, sent⟩

/-- It ends past the pack's end with a page moved. -/
theorem walk_ends_played : ∃ t, (played t).walk.fin = true ∧ (played t).walk.pastEnd = true ∧
    (account t).pages ≠ [] ∧ Left (2 ^ 28) 5 (played t).walk (account t) (played t).disk
      (played t).got (account t).charges := by
  obtain ⟨t, after, idle⟩ := played_idle
  obtain ⟨fin, past, some_⟩ := played_fails after idle
  exact ⟨t, fin, past, some_, (walk_ends played_accounted).2 t fin⟩

/-- And it comes back to idle. -/
theorem Walking.block_walk_returns_played : ∃ t, 1 ≤ t ∧ (walking t).walk.v = .idle ∧
    (account t).pages ≠ [] := by
  obtain ⟨t, after, idle⟩ := (block_walk_returns (2 ^ 28) ⟨sevens.store, sevens.walk⟩ (fun _ => onward)
    fun t => bringing (played t).walk).2 walking_answered ⟨0, fun t _ => walking_keeps t⟩ 1
  have same : (played t).walk.v = .idle := (congrArg (·.walk.v) (walking_eq t)).symm.trans idle
  exact ⟨t, after, idle, (played_fails after same).2.2⟩

end Played

end MuirFpga.Quux
