import MuirFpga.Quux.PageQueue

/-!
# Pages through the block walk

Each state's clock keeps the record, so a page that ends has moved whole: a read's 1024 words have
gone to memory in order, a write's blocks hold the bytes of memory's, and the queue is empty.
-/

namespace MuirFpga.Quux

open Sync (Holds bits holds_zero)

namespace Copying

variable {mainWords : Nat} {i : WalkInput} {m : Seam} {c : Copying}

section Record

theorem next_entry (entry : c.walk.v = .ccw) : (c.next mainWords i m).sent = [] ∧
    (c.next mainWords i m).got = [] ∧ (c.next mainWords i m).before = c.disk := by
  unfold next
  dsimp only
  rw [if_pos entry, if_pos entry, if_pos entry]
  exact ⟨rfl, rfl, rfl⟩

theorem next_sent (away : c.walk.v ≠ .ccw) (goes : c.done i true = false) :
    (c.next mainWords i m).sent = c.sent := by
  unfold next
  dsimp only
  rw [if_neg away, goes, if_neg Bool.false_ne_true]

theorem next_sent_done (away : c.walk.v ≠ .ccw) (done : c.done i true = true) :
    (c.next mainWords i m).sent = c.sent ++ [(c.walk.dAddr, c.walk.dWdata)] := by
  unfold next
  dsimp only
  rw [if_neg away, done, if_pos rfl]

theorem next_got_done (away : c.walk.v ≠ .ccw) (done : c.done i false = true) :
    (c.next mainWords i m).got = c.got ++ [(c.walk.dAddr, i.dRdata)] := by
  unfold next
  dsimp only
  rw [if_neg away, done, if_pos rfl]

theorem next_got (away : c.walk.v ≠ .ccw) (goes : c.done i false = false) :
    (c.next mainWords i m).got = c.got := by
  unfold next
  dsimp only
  rw [if_neg away, goes, if_neg Bool.false_ne_true]

theorem next_disk (kept : c.walk.issues = false) : (c.next mainWords i m).disk = c.disk := by
  unfold next
  dsimp only
  rw [kept, Bool.false_and, if_neg Bool.false_ne_true]

theorem next_given (issues : c.walk.issues = true) (rst : i.rst = false) :
    (c.next mainWords i m).disk = c.walk.given c.disk := by
  unfold next
  dsimp only
  rw [issues, rst, if_pos (by decide)]

theorem kept_short (short : c.walk.sn.toNat < 4) : c.walk.issues = false := by
  unfold Walk.issues
  rw [decide_eq_false (fun enough => Nat.not_lt.mpr (BitVec.le_def.mp enough) short),
    Bool.and_false, Bool.false_and]

theorem next_before (away : c.walk.v ≠ .ccw) : (c.next mainWords i m).before = c.before := by
  unfold next
  dsimp only
  rw [if_neg away]

theorem done_free (free : c.walk.dReq = false) (write : Bool) : c.done i write = false := by
  unfold done
  rw [free, Bool.false_and, Bool.false_and]

theorem issues_aside (aside : c.walk.v ≠ .write) : c.walk.issues = false := by
  unfold Walk.issues
  simp [aside]

end Record

section Sound

theorem Sound.of_other (queue : c.walk.sn.toNat ≤ 8)
    (other : c.walk.v = .idle ∨ c.walk.v = .ccw ∨ c.walk.v = .ended) : c.Sound := by
  rcases other with place | place | place <;> constructor <;> simp [place, queue]

/-- A walk that moves nothing more keeps the queue. -/
theorem Sound.rests {x : Walk} (next : Walk.Follows c.walk x (c.next mainWords i m).walk)
    (queue : x.sn.toNat ≤ 8) (other : x.v = .idle ∨ x.v = .ccw ∨ x.v = .ended) :
    (c.next mainWords i m).Sound := by
  obtain ⟨age, hits, walk⟩ := next
  exact .of_other (by rw [walk]; exact queue) (by rw [walk]; exact other)

theorem Sound.of_gather (place : c.walk.v = .glook ∨ c.walk.v = .gwait)
    (gather : Gathering c.walk c.sent) : c.Sound := by
  have queue : c.walk.sn.toNat ≤ 8 := by simp [gather.empty.1]
  rcases place with place | place <;> constructor <;> simp [place, queue, gather]

theorem Sound.of_turn (queue : c.walk.sn.toNat ≤ 8)
    (place : c.walk.v = .look ∨ c.walk.v = .wait)
    (turn : Turning c.walk c.disk c.before c.sent c.got) : c.Sound := by
  rcases place with place | place <;> constructor <;> simp [place, queue, turn]

theorem Sound.of_read (queue : c.walk.sn.toNat ≤ 8) (place : c.walk.v = .read)
    (port : c.walk.chbWe = false) (read : Reading c.walk c.disk c.sent c.store.chbQ) : c.Sound := by
  constructor <;> simp [place, queue, port, read]

theorem Sound.of_write (queue : c.walk.sn.toNat ≤ 8) (place : c.walk.v = .write)
    (write : Writing c.walk c.disk c.before c.got) : c.Sound := by
  constructor <;> simp [place, queue, write]

end Sound

theorem sound_reset (rst : i.rst = true) : (c.next mainWords i m).Sound := by
  have walk : (c.next mainWords i m).walk = c.walk.next mainWords i m c.store := rfl
  apply Sound.of_other
  · rw [walk]
    unfold Walk.next
    rw [rst]
    exact Nat.zero_le 8
  · left
    rw [walk]
    exact (Walk.next_reset rst).1

section

variable (rst : i.rst = false) (sound : c.Sound)

include rst sound

theorem sound_idle (place : c.walk.v = .idle) :
    (c.next mainWords i m).Sound := by
  have idles : Walk.Idles i c.walk (c.next mainWords i m).walk := Walk.next_idle rst place
  cases idles with
  | started start present next =>
    exact .rests next sound.queue (Or.inr (Or.inl rfl))
  | stays unstarted next =>
    exact .rests next sound.queue (Or.inl place)

theorem sound_ended (place : c.walk.v = .ended) :
    (c.next mainWords i m).Sound := by
  have ends : Walk.Follows c.walk { c.walk.pulses with fin := true, v := .idle }
    (c.next mainWords i m).walk := Walk.next_ended rst place
  exact .rests ends sound.queue (Or.inl rfl)

theorem sound_ccw (place : c.walk.v = .ccw) :
    (c.next mainWords i m).Sound := by
  have enters : Walk.Enters mainWords i c.walk (c.next mainWords i m).walk :=
    Walk.next_ccw rst place
  cases enters with
  | entryPast free past next =>
    exact .rests next sound.queue (Or.inr (Or.inr rfl))
  | asks free inside next =>
    exact .rests next sound.queue (Or.inr (Or.inl place))
  | pagePast asked done past next =>
    exact .rests next (Nat.zero_le 8) (Or.inr (Or.inr rfl))
  | holds asked wait next =>
    exact .rests next sound.queue (Or.inr (Or.inl place))
  | takes asked done inside next =>
    obtain ⟨age, hits, walk⟩ := next
    obtain ⟨sent, got, before⟩ : (c.next mainWords i m).sent = [] ∧
      (c.next mainWords i m).got = [] ∧ (c.next mainWords i m).before = c.disk := next_entry place
    have disk : (c.next mainWords i m).disk = c.disk := next_disk (issues_aside (by simp [place]))
    have positive : 0 < c.walk.size := by
      rcases size_cases c.walk with ⟨-, size, -⟩ | ⟨-, size, -⟩ <;> rw [size] <;> decide
    cases writing : c.walk.writing with
    | false =>
      rw [writing, if_neg Bool.false_ne_true] at walk
      apply Sound.of_gather (by rw [walk]; exact Or.inl rfl)
      rw [walk, sent]
      exact ⟨writing, rfl, ⟨rfl, rfl, rfl⟩, positive, rfl⟩
    | true =>
      rw [writing, if_pos rfl] at walk
      apply Sound.of_turn (by rw [walk]; exact Nat.zero_le 8) (by rw [walk]; exact Or.inl rfl)
      rw [walk, got, disk, before]
      constructor
      · rfl
      · intro reads
        exact absurd (reads.symm.trans writing) Bool.false_ne_true
      · intro writes
        constructor
        · exact writing
        · rfl
        · exact Nat.lt_of_lt_of_le (by decide : 0 < 4) (Nat.le_add_right 4 _)
        · exact positive
        · rfl
        · rfl
        · exact holds_zero
        · intro q inside
          rfl
        · intro b apart
          rfl

theorem sound_glook (place : c.walk.v = .glook) :
    (c.next mainWords i m).Sound := by
  have gather : Gathering c.walk c.sent := sound.gather (Or.inl place)
  have sent : (c.next mainWords i m).sent = [] :=
    (next_sent (by simp [place]) (done_free gather.free true)).trans gather.sent
  have disk : (c.next mainWords i m).disk = c.disk := next_disk (issues_aside (by simp [place]))
  have gathers : Walk.Gathers c.walk (c.next mainWords i m).walk := Walk.next_glook rst place
  cases gathers with
  | past beyond next =>
    exact .rests next sound.queue (Or.inr (Or.inr rfl))
  | foundLast slot inside looked hit last next =>
    obtain ⟨age, hits, walk⟩ := next
    apply Sound.of_turn (by rw [walk]; exact sound.queue) (by rw [walk]; exact Or.inl rfl)
    rw [walk, sent, disk]
    constructor
    · exact gather.free
    · intro reads
      obtain ⟨sn, sb, mw⟩ := gather.empty
      have positive : 0 < c.walk.size := Nat.lt_of_le_of_lt (Nat.zero_le _) gather.block
      constructor
      · change c.walk.sn.toNat < c.walk.size
        rw [sn]
        exact positive
      · constructor
        · exact gather.reads
        · change 4 * (256 * 0) = c.walk.size * c.walk.mw.toNat + c.walk.sn.toNat
          rw [sn, mw]
          rfl
        · change Holds _ (8 * (c.walk.size * c.walk.mw.toNat)) (8 * c.walk.sn.toNat) c.walk.sb
          rw [sn, sb]
          exact holds_zero
        · exact positive
        · change [] = (List.range c.walk.mw.toNat).map _
          rw [mw]
          rfl
    · intro writes
      exact absurd (gather.reads.symm.trans writes) Bool.false_ne_true
  | found slot inside looked hit further next =>
    obtain ⟨age, hits, walk⟩ := next
    obtain ⟨counts, below⟩ : (c.walk.k + 1).toNat = c.walk.k.toNat + 1 ∧
      c.walk.k.toNat + 1 < c.walk.size := next_block gather.block further
    apply Sound.of_gather (by rw [walk]; exact Or.inl place)
    rw [walk, sent]
    exact ⟨gather.reads, gather.free, gather.empty, counts.trans_lt below, rfl⟩
  | asks inside looked next =>
    obtain ⟨age, hits, walk⟩ := next
    apply Sound.of_gather (by rw [walk]; exact Or.inr rfl)
    rw [walk, sent]
    exact ⟨gather.reads, gather.free, gather.empty, gather.block, rfl⟩
  | holds next =>
    obtain ⟨age, hits, walk⟩ := next
    apply Sound.of_gather (by rw [walk]; exact Or.inl place)
    rw [walk, sent]
    exact ⟨gather.reads, gather.free, gather.empty, gather.block, rfl⟩

theorem sound_gwait (place : c.walk.v = .gwait) :
    (c.next mainWords i m).Sound := by
  have gather : Gathering c.walk c.sent := sound.gather (Or.inr place)
  have sent : (c.next mainWords i m).sent = [] :=
    (next_sent (by simp [place]) (done_free gather.free true)).trans gather.sent
  have waits : Walk.Waits .glook m c.walk (c.next mainWords i m).walk := Walk.next_gwait rst place
  cases waits with
  | denied deny next =>
    exact .rests next sound.queue (Or.inr (Or.inr rfl))
  | comes granted arrives next =>
    obtain ⟨age, hits, walk⟩ := next
    apply Sound.of_gather (by rw [walk]; exact Or.inl rfl)
    rw [walk, sent]
    exact ⟨gather.reads, gather.free, gather.empty, gather.block, rfl⟩
  | holds granted next =>
    obtain ⟨age, hits, walk⟩ := next
    apply Sound.of_gather (by rw [walk]; exact Or.inr place)
    rw [walk, sent]
    exact ⟨gather.reads, gather.free, gather.empty, gather.block, rfl⟩

end

theorem next_turning (place : c.walk.v = .look ∨ c.walk.v = .wait) (turn : c.walk.dReq = false) :
    (c.next mainWords i m).sent = c.sent ∧ (c.next mainWords i m).got = c.got ∧
      (c.next mainWords i m).disk = c.disk ∧ (c.next mainWords i m).before = c.before := by
  have away : c.walk.v ≠ .ccw := by
    rcases place with place | place <;> simp [place]
  refine ⟨next_sent away (done_free turn true), next_got away (done_free turn false),
    next_disk (issues_aside ?_), next_before away⟩
  rcases place with place | place <;> simp [place]

theorem sound_wait (rst : i.rst = false) (sound : c.Sound) (place : c.walk.v = .wait) :
    (c.next mainWords i m).Sound := by
  have turn : Turning c.walk c.disk c.before c.sent c.got := sound.turn (Or.inr place)
  obtain ⟨sent, got, disk, before⟩ : (c.next mainWords i m).sent = c.sent ∧
    (c.next mainWords i m).got = c.got ∧ (c.next mainWords i m).disk = c.disk ∧
    (c.next mainWords i m).before = c.before := next_turning (Or.inr place) turn.free
  have waits : Walk.Waits .look m c.walk (c.next mainWords i m).walk := Walk.next_wait rst place
  cases waits with
  | denied deny next =>
    exact .rests next sound.queue (Or.inr (Or.inr rfl))
  | comes granted arrives next =>
    obtain ⟨age, hits, walk⟩ := next
    apply Sound.of_turn (by rw [walk]; exact sound.queue) (by rw [walk]; exact Or.inl rfl)
    rw [walk, sent, got, disk, before]
    exact turn.stands rfl turn.free
  | holds granted next =>
    obtain ⟨age, hits, walk⟩ := next
    apply Sound.of_turn (by rw [walk]; exact sound.queue) (by rw [walk]; exact Or.inr place)
    rw [walk, sent, got, disk, before]
    exact turn.stands rfl turn.free

theorem sound_look (rst : i.rst = false) (sound : c.Sound) (place : c.walk.v = .look) :
    (c.next mainWords i m).Sound := by
  have turn : Turning c.walk c.disk c.before c.sent c.got := sound.turn (Or.inl place)
  obtain ⟨sent, got, disk, before⟩ : (c.next mainWords i m).sent = c.sent ∧
    (c.next mainWords i m).got = c.got ∧ (c.next mainWords i m).disk = c.disk ∧
    (c.next mainWords i m).before = c.before := next_turning (Or.inl place) turn.free
  have looks : Walk.Looks c.walk (c.next mainWords i m).walk := Walk.next_look rst place
  cases looks with
  | past beyond next =>
    exact .rests next sound.queue (Or.inr (Or.inr rfl))
  | asks inside looked next =>
    obtain ⟨age, hits, walk⟩ := next
    apply Sound.of_turn (by rw [walk]; exact sound.queue) (by rw [walk]; exact Or.inr rfl)
    rw [walk, sent, got, disk, before]
    exact turn.stands rfl turn.free
  | holds next =>
    obtain ⟨age, hits, walk⟩ := next
    apply Sound.of_turn (by rw [walk]; exact sound.queue) (by rw [walk]; exact Or.inl place)
    rw [walk, sent, got, disk, before]
    exact turn.stands rfl turn.free
  | chooses slot inside hit looked next =>
    obtain ⟨age, hits, walk⟩ := next
    have queue : (c.next mainWords i m).walk.sn.toNat ≤ 8 := by
      rw [walk]
      exact sound.queue
    have free : c.walk.dReq = false := turn.free
    cases writing : c.walk.writing with
    | false =>
      rw [writing, if_neg Bool.false_ne_true] at walk
      apply Sound.of_read queue (by rw [walk]) (by rw [walk]; rfl)
      rw [walk, sent, disk]
      constructor
      · change Fetched _ _ _ _ (c.walk.mw.toNat + c.walk.dReq.toNat)
        rw [free]
        exact (turn.fetched writing).2.stands rfl
      · intro asked
        exact absurd (asked.symm.trans free) (by decide)
      · intro valid
        exact absurd valid Bool.false_ne_true
    | true =>
      rw [writing, if_pos rfl] at walk
      apply Sound.of_write queue (by rw [walk])
      rw [walk, got, disk, before]
      constructor
      · exact (turn.stored writing).stands rfl
      · intro asked
        exact absurd (asked.symm.trans free) (by decide)

theorem sound_read (rst : i.rst = false) (sound : c.Sound) (served : c.Served)
    (place : c.walk.v = .read) : (c.next mainWords i m).Sound := by
  have read : Reading c.walk c.disk c.sent c.store.chbQ := sound.read place
  have fetched := read.fetched
  have disk : (c.next mainWords i m).disk = c.disk := next_disk (issues_aside (by simp [place]))
  have taken : (c.next mainWords i m).store.chbQ = c.disk c.walk.block c.walk.chW := by
    change c.store.ram c.walk.chbPort = _
    unfold Walk.chbPort
    rw [sound.port place, if_neg Bool.false_ne_true]
    exact served place c.walk.chW
  have away : c.walk.v ≠ .ccw := by simp [place]
  have reads : Walk.Reads c.store i c.walk (c.next mainWords i m).walk := Walk.next_read rst place
  cases reads with
  | emits free enough next =>
    obtain ⟨age, hits, walk⟩ := next
    have sent : (c.next mainWords i m).sent = c.sent := next_sent away (done_free free true)
    rw [free] at fetched
    have full : c.walk.size ≤ c.walk.sn.toNat := perPage_wide c.walk ▸ BitVec.le_def.mp enough
    have word := fetched.front full
    obtain ⟨queue, count⟩ := fetched.pop full
    have less : (c.walk.sn - c.walk.perPage.setWidth 4).toNat ≤ 8 := by
      rw [BitVec.toNat_sub_of_le enough]
      exact Nat.le_trans (Nat.sub_le _ _) sound.queue
    apply Sound.of_read (by rw [walk]; exact less) (by rw [walk]; exact place)
      (by rw [walk]; rfl)
    rw [walk, sent, disk]
    constructor
    · exact ⟨fetched.reads, count, queue, fetched.block, fetched.sent⟩
    · intro asked
      refine ⟨rfl, ?_⟩
      change (c.walk.page ++ c.walk.mw, if c.walk.four then _ else _) = _
      rw [word]
      unfold Walk.pageWord
      rw [BitVec.ofNat_toNat, BitVec.setWidth_eq]
      rfl
    · intro valid
      exact taken
  | blockDone free short drained next =>
    obtain ⟨age, hits, walk⟩ := next
    have sent : (c.next mainWords i m).sent = c.sent := next_sent away (done_free free true)
    rw [free, drained] at fetched
    have low : c.walk.sn.toNat < c.walk.size := perPage_wide c.walk ▸ BitVec.lt_def.mp short
    obtain ⟨counts, below⟩ : (c.walk.k + 1).toNat = c.walk.k.toNat + 1 ∧
        c.walk.k.toNat + 1 < c.walk.size := by
      apply next_block fetched.block
      intro last
      exact fetched.unfinished last low
    apply Sound.of_turn (by rw [walk]; exact sound.queue) (by rw [walk]; exact Or.inl rfl)
    rw [walk, sent, disk]
    constructor
    · exact free
    · intro reads
      refine ⟨low, ?_⟩
      change Fetched _ _ _ (256 * (c.walk.k + 1).toNat) c.walk.mw.toNat
      rw [counts]
      exact ⟨reads, fetched.count, fetched.queue, counts.trans_lt below, fetched.sent⟩
    · intro writes
      exact absurd (fetched.reads.symm.trans writes) Bool.false_ne_true
  | pushes free short undrained valid next =>
    obtain ⟨age, hits, walk⟩ := next
    have sent : (c.next mainWords i m).sent = c.sent := next_sent away (done_free free true)
    have low : c.walk.sn.toNat < c.walk.size := perPage_wide c.walk ▸ BitVec.lt_def.mp short
    rw [undrained, if_neg Bool.false_ne_true] at fetched
    obtain ⟨queue, count, fits⟩ := fetched.push low
    have word : c.disk (pageBlock c.walk.base ((256 * c.walk.k.toNat + c.walk.chW.toNat) / 256))
        (BitVec.ofNat 8 ((256 * c.walk.k.toNat + c.walk.chW.toNat) % 256)) = c.store.chbQ := by
      have inside : c.walk.chW.toNat < 256 := c.walk.chW.isLt
      rw [read.valid valid, block_eq,
        show (256 * c.walk.k.toNat + c.walk.chW.toNat) / 256 = c.walk.k.toNat by omega,
        show (256 * c.walk.k.toNat + c.walk.chW.toNat) % 256 = c.walk.chW.toNat by omega,
        BitVec.ofNat_toNat, BitVec.setWidth_eq]
    rw [word] at queue
    apply Sound.of_read (by rw [walk]; exact fits) (by rw [walk]; exact place)
      (by rw [walk]; rfl)
    rw [walk, sent, disk]
    constructor
    · refine ⟨fetched.reads, ?_, queue, fetched.block, fetched.sent⟩
      rw [Nat.add_assoc, ← taken_next undrained] at count
      exact count
    · intro asked
      exact absurd (asked.symm.trans free) (by decide)
    · intro again
      exact absurd again Bool.false_ne_true
  | latches free short undrained next =>
    obtain ⟨age, hits, walk⟩ := next
    have sent : (c.next mainWords i m).sent = c.sent := next_sent away (done_free free true)
    apply Sound.of_read (by rw [walk]; exact sound.queue) (by rw [walk]; exact place)
      (by rw [walk]; rfl)
    rw [walk, sent, disk]
    exact ⟨fetched.stands rfl, read.asked, fun _ => taken⟩
  | lands asked done further next =>
    obtain ⟨age, hits, walk⟩ := next
    obtain ⟨write, word⟩ := read.asked asked
    have more : (c.walk.mw + 1).toNat = c.walk.mw.toNat + 1 := next_mw further
    have sent : (c.next mainWords i m).sent = c.sent ++ [c.walk.pageWord c.disk c.walk.mw.toNat] := by
      rw [next_sent_done away (by simp [Copying.done, asked, done, write]), word]
    rw [asked] at fetched
    apply Sound.of_read (by rw [walk]; exact sound.queue) (by rw [walk]; exact place)
      (by rw [walk]; rfl)
    rw [walk, sent, disk]
    constructor
    · change Fetched _ _ _ _ ((c.walk.mw + 1).toNat + 0)
      rw [more]
      refine ⟨fetched.reads, fetched.count, fetched.queue, fetched.block, ?_⟩
      change _ = (List.range (c.walk.mw + 1).toNat).map _
      rw [more, List.range_succ, List.map_append, fetched.sent]
      rfl
    · intro again
      exact absurd again Bool.false_ne_true
    · intro valid
      exact taken
  | pageDone asked done last next =>
    exact .rests next sound.queue (page_ends rfl)
  | holds asked wait next =>
    obtain ⟨age, hits, walk⟩ := next
    have sent : (c.next mainWords i m).sent = c.sent :=
      next_sent away (by simp [Copying.done, wait])
    apply Sound.of_read (by rw [walk]; exact sound.queue) (by rw [walk]; exact place)
      (by rw [walk]; rfl)
    rw [walk, sent, disk]
    exact ⟨fetched.stands rfl, read.asked, fun _ => taken⟩

theorem issues_write (place : c.walk.v = .write) (enough : 4#4 ≤ c.walk.sn)
    (free : c.walk.dReq = false) : c.walk.issues = true := by
  unfold Walk.issues
  rw [place, free, decide_eq_true enough]
  rfl

theorem sound_write (rst : i.rst = false) (sound : c.Sound) (place : c.walk.v = .write) :
    (c.next mainWords i m).Sound := by
  have write : Writing c.walk c.disk c.before c.got := sound.write place
  have stored := write.stored
  have away : c.walk.v ≠ .ccw := by simp [place]
  have before : (c.next mainWords i m).before = c.before := next_before away
  have writes : Walk.Writes i c.walk (c.next mainWords i m).walk := Walk.next_write rst place
  have less : 4#4 ≤ c.walk.sn → c.walk.handed.sn.toNat ≤ 8 := by
    intro enough
    change (c.walk.sn - 4#4).toNat ≤ 8
    rw [BitVec.toNat_sub_of_le enough]
    exact Nat.le_trans (Nat.sub_le _ _) sound.queue
  cases writes with
  | stores free enough further next =>
    obtain ⟨age, hits, walk⟩ := next
    have got : (c.next mainWords i m).got = c.got := next_got away (done_free free false)
    have disk : (c.next mainWords i m).disk = c.walk.given c.disk :=
      next_given (issues_write place enough free) rst
    apply Sound.of_write (by rw [walk]; exact less enough) (by rw [walk]; exact place)
    rw [walk, got, disk, before]
    constructor
    · change Stored _ _ _ _ (256 * c.walk.k.toNat + (c.walk.chW + 1).toNat)
      rw [next_word further, ← Nat.add_assoc]
      exact (stored.give (BitVec.le_def.mp enough)).stands rfl
    · intro asked
      exact absurd (asked.symm.trans free) (by decide)
  | blockDone free enough last further next =>
    obtain ⟨age, hits, walk⟩ := next
    have disk : (c.next mainWords i m).disk = c.walk.given c.disk :=
      next_given (issues_write place enough free) rst
    have got : (c.next mainWords i m).got = c.got := next_got away (done_free free false)
    obtain ⟨counts, below⟩ : (c.walk.k + 1).toNat = c.walk.k.toNat + 1 ∧
      c.walk.k.toNat + 1 < c.walk.size := next_block stored.block further
    have given := stored.give (BitVec.le_def.mp enough)
    have through : 256 * c.walk.k.toNat + c.walk.chW.toNat + 1 = 256 * (c.walk.k.toNat + 1) := by
      rw [last]
      change 256 * c.walk.k.toNat + 255 + 1 = _
      omega
    rw [through] at given
    apply Sound.of_turn (by rw [walk]; exact less enough) (by rw [walk]; exact Or.inl rfl)
    rw [walk, got, disk, before]
    constructor
    · exact free
    · intro reads
      exact absurd (reads.symm.trans stored.writes) Bool.false_ne_true
    · intro writes
      change Stored _ _ _ _ (256 * (c.walk.k + 1).toNat)
      rw [counts]
      exact ⟨given.writes, given.count, given.short, counts.trans_lt below, given.places,
        given.place, given.queue, given.laid, given.rest⟩
  | pageDone free enough last lastBlock next =>
    exact .rests next (less enough) (page_ends rfl)
  | asks free short next =>
    obtain ⟨age, hits, walk⟩ := next
    have low : c.walk.sn.toNat < 4 := BitVec.lt_def.mp short
    have disk : (c.next mainWords i m).disk = c.disk := next_disk (kept_short low)
    have got : (c.next mainWords i m).got = c.got := next_got away (done_free free false)
    apply Sound.of_write (by rw [walk]; exact sound.queue) (by rw [walk]; exact place)
    rw [walk, got, disk, before]
    constructor
    · exact stored.stands rfl
    · intro asked
      exact ⟨low, rfl, rfl⟩
  | takes asked done next =>
    obtain ⟨age, hits, walk⟩ := next
    obtain ⟨low, read, addr⟩ := write.asked asked
    have disk : (c.next mainWords i m).disk = c.disk := next_disk (kept_short low)
    have got : (c.next mainWords i m).got = c.got ++ [(c.walk.page ++ c.walk.mw, i.dRdata)] := by
      rw [next_got_done away (by simp [Copying.done, asked, done, read]), addr]
    have taken := stored.take low i.dRdata
    have fits : (took c.walk i.dRdata).sn.toNat ≤ 8 := by
      have short : (took c.walk i.dRdata).sn.toNat < 4 + c.walk.size := taken.short
      rcases size_cases c.walk with ⟨-, size, -⟩ | ⟨-, size, -⟩ <;> omega
    apply Sound.of_write (by rw [walk]; exact fits) (by rw [walk]; exact place)
    rw [walk, got, disk, before]
    constructor
    · exact taken.stands rfl
    · intro again
      exact absurd again Bool.false_ne_true
  | holds asked wait next =>
    obtain ⟨age, hits, walk⟩ := next
    have low : c.walk.sn.toNat < 4 := (write.asked asked).1
    have disk : (c.next mainWords i m).disk = c.disk := next_disk (kept_short low)
    have got : (c.next mainWords i m).got = c.got :=
      next_got away (by simp [Copying.done, wait])
    apply Sound.of_write (by rw [walk]; exact sound.queue) (by rw [walk]; exact place)
    rw [walk, got, disk, before]
    exact ⟨stored.stands rfl, write.asked⟩

theorem sound_next (sound : c.Sound) (served : c.Served) : (c.next mainWords i m).Sound := by
  cases rst : i.rst with
  | true => exact sound_reset rst
  | false =>
    cases place : c.walk.v with
    | idle => exact sound_idle rst sound place
    | ccw => exact sound_ccw rst sound place
    | glook => exact sound_glook rst sound place
    | gwait => exact sound_gwait rst sound place
    | look => exact sound_look rst sound place
    | wait => exact sound_wait rst sound place
    | read => exact sound_read rst sound served place
    | write => exact sound_write rst sound place
    | ended => exact sound_ended rst sound place

/-- A read's page has all its words in memory this clock. -/
def ReadEnds (c : Copying) (i : WalkInput) : Prop :=
  i.rst = false ∧ c.walk.v = .read ∧ c.walk.pageDone i = true

/-- A write's page has its last word in its slot this clock. -/
def WriteEnds (c : Copying) (i : WalkInput) : Prop :=
  i.rst = false ∧ c.walk.v = .write ∧ c.walk.pageDone i = true

/-- A read's page goes to memory whole. -/
theorem Sound.read_page (sound : c.Sound) (ends : c.ReadEnds i) :
    (c.next mainWords i m).sent = (List.range 1024).map (c.walk.pageWord c.disk) ∧
      (c.next mainWords i m).walk.sn = 0 := by
  obtain ⟨rst, place, done⟩ := ends
  have read : Reading c.walk c.disk c.sent c.store.chbQ := sound.read place
  have fetched := read.fetched
  obtain ⟨asked, lands, last⟩ : c.walk.dReq = true ∧ i.dDone = true ∧ c.walk.mw = 1023#10 := by
    simpa [Walk.pageDone, place, and_assoc] using done
  obtain ⟨write, word⟩ := read.asked asked
  constructor
  · have whole : List.range 1024 = List.range 1023 ++ [1023] := List.range_succ
    rw [next_sent_done (by simp [place]) (by simp [Copying.done, asked, lands, write]), word,
      fetched.sent, last, show (1023#10).toNat = 1023 from rfl, whole, List.map_append,
      List.map_singleton]
  · have reads : Walk.Reads c.store i c.walk (c.next mainWords i m).walk :=
      Walk.next_read rst place
    have empty : c.walk.sn = 0 := by
      have count := fetched.count
      have block := fetched.block
      have inside : c.walk.chW.toNat < 256 := c.walk.chW.isLt
      rw [asked, last] at count
      apply BitVec.eq_of_toNat_eq
      change _ = 0
      have taken : (if c.walk.drained then 256 else c.walk.chW.toNat) ≤ 256 := by
        split_ifs <;> omega
      change 4 * _ = c.walk.size * 1024 + _ at count
      rcases size_cases c.walk with ⟨-, size, -⟩ | ⟨-, size, -⟩ <;> rw [size] at count block <;>
        omega
    cases reads with
    | pageDone asked done last next =>
      obtain ⟨age, hits, walk⟩ := next
      rw [walk]
      exact empty
    | emits free => simp [asked] at free
    | blockDone free => simp [asked] at free
    | pushes free => simp [asked] at free
    | latches free => simp [asked] at free
    | lands asked done further => exact absurd last further
    | holds asked wait => simp [lands] at wait

/-- A write's page: memory's 1024 words asked for in order, its blocks' bytes theirs, no other
block touched, and the queue empty. -/
theorem Sound.write_page (sound : c.Sound) (ends : c.WriteEnds i) :
    (c.next mainWords i m).got.map Prod.fst =
        (List.range 1024).map (fun n => c.walk.page ++ BitVec.ofNat 10 n) ∧
      (∀ j, j < 1024 * c.walk.size → diskByte (c.next mainWords i m).disk c.walk.base j =
        memByte c.walk.four (word (c.next mainWords i m).got) j) ∧
      (∀ b, (∀ p, p < c.walk.size → b ≠ pageBlock c.walk.base p) →
        (c.next mainWords i m).disk b = (c.next mainWords i m).before b) ∧
      (c.next mainWords i m).walk.sn = 0 := by
  obtain ⟨rst, place, done⟩ := ends
  have write : Writing c.walk c.disk c.before c.got := sound.write place
  obtain ⟨enough, free, last, lastBlock⟩ : 4#4 ≤ c.walk.sn ∧ c.walk.dReq = false ∧
      c.walk.chW = 255#8 ∧ c.walk.k = c.walk.perPage - 1 := by
    simpa [Walk.pageDone, place, and_assoc] using done
  have got : (c.next mainWords i m).got = c.got :=
    next_got (by simp [place]) (done_free free false)
  have before : (c.next mainWords i m).before = c.before := next_before (by simp [place])
  have disk : (c.next mainWords i m).disk = c.walk.given c.disk :=
    next_given (issues_write place enough free) rst
  have stored := write.stored.give (BitVec.le_def.mp enough)
  have through : 256 * c.walk.k.toNat + c.walk.chW.toNat + 1 = 256 * c.walk.size := by
    rw [last, lastBlock]
    rcases size_cases c.walk with ⟨-, size, per⟩ | ⟨-, size, per⟩ <;> rw [size, per] <;> rfl
  rw [through] at stored
  have count : c.walk.size * c.got.length = 4 * (256 * c.walk.size) + c.walk.handed.sn.toNat :=
    stored.count
  have short : c.walk.handed.sn.toNat < 4 + c.walk.size := stored.short
  have before_short : c.walk.sn.toNat < 4 + c.walk.size := write.stored.short
  have less : c.walk.handed.sn.toNat = c.walk.sn.toNat - 4 := BitVec.toNat_sub_of_le enough
  obtain ⟨all, empty⟩ : c.got.length = 1024 ∧ c.walk.handed.sn.toNat = 0 := by
    rcases size_cases c.walk with ⟨-, size, -⟩ | ⟨-, size, -⟩ <;>
      rw [size] at count short before_short <;> omega
  rw [got, before, disk]
  refine ⟨?_, ?_, stored.rest, ?_⟩
  · rw [write.stored.places, all]
  · intro j inside
    exact stored.bytes inside (by omega)
  · have writes : Walk.Writes i c.walk (c.next mainWords i m).walk := Walk.next_write rst place
    cases writes with
    | pageDone free enough last lastBlock next =>
      obtain ⟨age, hits, walk⟩ := next
      rw [walk]
      exact BitVec.eq_of_toNat_eq empty
    | stores free enough further => exact absurd last further
    | blockDone free enough last further => exact absurd lastBlock further
    | asks free short => exact absurd enough (BitVec.not_le.mpr short)
    | takes asked => simp [free] at asked
    | holds asked => simp [free] at asked

/-- A word handed on is in its slot a clock later. -/
theorem handed_lands {later : WalkInput} {seam : Seam} (rst : i.rst = false)
    (issues : c.walk.issues = true) :
    ((c.next mainWords i m).next mainWords later seam).store.ram c.walk.chWord =
      c.walk.sb.extractLsb' 0 32 := by
  obtain ⟨place, enough, free⟩ : c.walk.v = .write ∧ 4#4 ≤ c.walk.sn ∧ c.walk.dReq = false := by
    simpa [Walk.issues, and_assoc] using issues
  have port : (c.next mainWords i m).walk.chbWe = true ∧
      (c.next mainWords i m).walk.chbA = c.walk.chWord ∧
      (c.next mainWords i m).walk.chbD = c.walk.sb.extractLsb' 0 32 := by
    have writes : Walk.Writes i c.walk (c.next mainWords i m).walk := Walk.next_write rst place
    cases writes with
    | stores free enough further next =>
      obtain ⟨age, hits, walk⟩ := next
      rw [walk]
      exact ⟨rfl, rfl, rfl⟩
    | blockDone free enough last further next =>
      obtain ⟨age, hits, walk⟩ := next
      rw [walk]
      exact ⟨rfl, rfl, rfl⟩
    | pageDone free enough last lastBlock next =>
      obtain ⟨age, hits, walk⟩ := next
      rw [walk]
      exact ⟨rfl, rfl, rfl⟩
    | asks free short => exact absurd enough (BitVec.not_le.mpr short)
    | takes asked => simp [free] at asked
    | holds asked => simp [free] at asked
  change (if (c.next mainWords i m).walk.chbWe then
    Function.update (_ : BitVec 13 → BitVec 32) (c.next mainWords i m).walk.chbPort (c.next mainWords i m).walk.chbD
    else _) c.walk.chWord = _
  unfold Walk.chbPort
  rw [port.1, if_pos rfl, if_pos rfl, port.2.1, port.2.2, Function.update_self]

end Copying

end MuirFpga.Quux
