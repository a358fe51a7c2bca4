import MuirFpga.Quux.WalkBooks

/-!
# How a START of the block walk ends

The clocks that move a page's words and the clock that ends it keep the books, so that the books
hold at every clock of a run; and what an ended START leaves can be read off them.
-/

namespace MuirFpga.Quux

variable {mainWords size : Nat} {i : WalkInput} {m : Seam} {c : Copying} {l : Ledger}

/-- A page moved whole, entered in the books. -/
structure Turned (w : Walk) (l : Ledger) (disk : Disk) : Prop where
  calm : w.pastEnd = false ∧ w.nxm = false
  room : w.base.toNat + w.size ≤ 2 ^ 28
  last : w.k.toNat + 1 = w.size
  pages : 0 < l.pages.length
  base : w.base.toNat + w.size = l.da.toNat + w.size * l.pages.length
  bases : ∀ j p, l.pages[j]? = some p → p.base.toNat = l.da.toNat + w.size * j
  whole : ∀ p ∈ l.pages, p.Whole w.four w.writing l.start disk
  rest : ∀ b : BitVec 28, b.toNat < l.da.toNat ∨ w.base.toNat + w.size ≤ b.toNat →
    disk b = l.start b
  reads : w.writing = false → disk = l.start
  out : l.out = l.written w.writing

theorem ledger_page (rst : i.rst = false) (busy : c.walk.v ≠ .idle)
    (done : c.walk.pageDone i = true) : l.next c i =
      { l.ticks c.walk with
        pages := l.pages ++ [c.moved]
        out := if c.done i true then l.out ++ [(c.walk.dAddr, c.walk.dWdata)] else l.out } := by
  unfold Ledger.next Walk.takes
  simp [rst, busy, done, Ledger.ticks]

theorem bases_append {w : Walk} {da : BitVec 28} {pages : List Moved} {page : Moved}
    (bases : ∀ j p, pages[j]? = some p → p.base.toNat = da.toNat + w.size * j)
    (next : page.base.toNat = da.toNat + w.size * pages.length) :
    ∀ j p, (pages ++ [page])[j]? = some p → p.base.toNat = da.toNat + w.size * j := by
  intro j p place
  by_cases early : j < pages.length
  · rw [List.getElem?_append_left early] at place
    exact bases j p place
  · rw [List.getElem?_append_right (Nat.not_lt.mp early)] at place
    obtain ⟨here, same⟩ := List.getElem?_eq_some_iff.mp place
    have only : j = pages.length := by
      simp at here
      omega
    subst only
    simp only [Nat.sub_self, List.getElem_cons_zero] at same
    rw [← same]
    exact next

namespace Booked

theorem of_page {d : Copying} {x : Walk} (turned : Turned c.walk l d.disk)
    (follows : Walk.Follows c.walk (c.walk.paged x) d.walk)
    (account : x.account = c.walk.account) (k : x.k = c.walk.k) (more : x.more = c.walk.more)
    (free : x.dReq = false) (quiet : x.fin = false)
    (tally : l.charges + x.charge.toNat = c.walk.size * l.pages.length)
    (counts : l.starts = l.fins + 1) : Booked mainWords size d l := by
  obtain ⟨pastEnd, nxm, writing, four, base⟩ : x.pastEnd = c.walk.pastEnd ∧
    x.nxm = c.walk.nxm ∧ x.writing = c.walk.writing ∧ x.four = c.walk.four ∧
    x.base = c.walk.base := by
    simpa [Walk.account] using account
  obtain ⟨age, hits, walk⟩ := follows
  have flags : d.walk.pastEnd = false ∧ d.walk.nxm = false ∧ d.walk.fin = false ∧
      d.walk.dReq = false ∧ d.walk.charge = x.charge := by
    rw [walk]
    exact ⟨pastEnd.trans turned.calm.1, nxm.trans turned.calm.2, quiet, free, rfl⟩
  have modes : d.walk.writing = c.walk.writing ∧ d.walk.four = c.walk.four := by
    rw [walk]
    exact ⟨writing, four⟩
  have per : d.walk.size = c.walk.size := by
    unfold Walk.size
    rw [modes.2]
  have room := turned.room
  cases goes : c.walk.more with
  | true =>
    have entry : d.walk.v = .ccw ∧ d.walk.k = 0 ∧
        d.walk.base = c.walk.base + c.walk.perPage.setWidth 29 := by
      rw [walk]
      unfold Walk.paged
      rw [goes]
      exact ⟨rfl, rfl, rfl⟩
    have first : d.walk.base.toNat = c.walk.base.toNat + c.walk.size := by
      rw [entry.2.2, BitVec.toNat_add]
      rcases size_cases c.walk with ⟨-, four, each⟩ | ⟨-, four, each⟩ <;>
        rw [four] at room ⊢ <;> rw [each]
      · rw [show ((4#3).setWidth 29).toNat = 4 from rfl]
        omega
      · rw [show ((5#3).setWidth 29).toNat = 5 from rfl]
        omega
    apply Booked.of_entry flags.2.2.1 counts entry.1
    constructor
    · constructor
      · exact ⟨flags.1, flags.2.1⟩
      · rw [first, per]
        exact turned.base
      · rw [first]
        exact room
      · rw [per]
        exact turned.bases
      · rw [modes.1, modes.2]
        exact turned.whole
      · rw [first]
        exact turned.rest
      · rw [modes.1]
        exact turned.reads
    · exact entry.2.1
    · rw [flags.2.2.2.2, per]
      exact tally
    · rw [modes.1]
      exact turned.out
    · intro asked
      exact absurd (asked.symm.trans flags.2.2.2.1) (by decide)
  | false =>
    have ends : d.walk.v = .ended ∧ d.walk.k = c.walk.k ∧ d.walk.base = c.walk.base ∧
        d.walk.more = false := by
      rw [walk]
      unfold Walk.paged
      rw [goes]
      exact ⟨rfl, k, base, more.trans goes⟩
    have here : d.walk.cur.toNat + 1 = c.walk.base.toNat + c.walk.size := by
      rw [cur_toNat (by rw [ends.2.2.1]; omega), ends.2.1, ends.2.2.1, Nat.add_assoc, turned.last]
    apply Booked.of_ended flags.2.2.1 counts ends.1 flags.2.2.2.1
    constructor
    · rw [per]
      exact turned.bases
    · rw [modes.1, modes.2]
      exact turned.whole
    · rw [modes.1]
      exact turned.out
    · rw [modes.1]
      exact turned.reads
    · have base := turned.base
      apply Ending.done ⟨flags.1, flags.2.1⟩ ends.2.2.2 turned.pages
      · rw [flags.2.2.2.2, per]
        exact tally
      · rw [flags.2.2.2.2, tally, here]
        exact base
      · intro b apart
        exact turned.rest b (by omega)

theorem read_turned (sound : c.Sound) (fetching : Fetching size c l) (ends : c.ReadEnds i) :
    Turned c.walk (l.next c i) (c.next mainWords i m).disk := by
  obtain ⟨sent, -⟩ : (c.next mainWords i m).sent = (List.range 1024).map (c.walk.pageWord c.disk) ∧
    (c.next mainWords i m).walk.sn = 0 := sound.read_page ends
  obtain ⟨rst, place, done⟩ := ends
  have read : Reading c.walk c.disk c.sent c.store.chbQ := sound.read place
  have fetched := read.fetched
  have reads := fetched.reads
  have opened := fetching.opened
  obtain ⟨asked, lands, last⟩ : c.walk.dReq = true ∧ i.dDone = true ∧ c.walk.mw = 1023#10 := by
    simpa [Walk.pageDone, place, and_assoc] using done
  have write : c.done i true = true := by
    simp [Copying.done, asked, lands, (read.asked asked).1]
  have disk : (c.next mainWords i m).disk = l.start :=
    (Copying.next_disk (Copying.issues_aside (by simp [place]))).trans
      (fetching.kept.trans (opened.reads reads))
  have moved : c.moved.words = c.sent ++ [(c.walk.dAddr, c.walk.dWdata)] := by
    unfold Copying.moved
    rw [reads]
    rfl
  have words : c.moved.words = (List.range 1024).map (c.walk.pageWord c.disk) := by
    rw [← sent, Copying.next_sent_done (by simp [place]) write]
    exact moved
  have block : c.walk.k.toNat + 1 = c.walk.size := by
    have count := fetched.count
    have inside := fetched.block
    have bound : c.walk.chW.toNat < 256 := c.walk.chW.isLt
    have taken : (if c.walk.drained then 256 else c.walk.chW.toNat) ≤ 256 := by
      split_ifs <;> omega
    rw [asked, last] at count
    change 4 * _ = c.walk.size * 1024 + _ at count
    rcases size_cases c.walk with ⟨-, four, -⟩ | ⟨-, four, -⟩ <;> rw [four] at count inside ⊢ <;>
      omega
  obtain ⟨room, -⟩ := fetching.found c.walk.k.toNat (by omega)
  have base := opened.base
  rw [ledger_page rst (by simp [place]) done, write, if_pos rfl]
  constructor
  · exact opened.calm
  · omega
  · exact block
  · simp
  · simp only [List.length_append, List.length_singleton, Nat.mul_add, Nat.mul_one]
    change c.walk.base.toNat + _ = l.da.toNat + _
    omega
  · exact bases_append opened.bases base
  · intro p member
    rcases List.mem_append.mp member with older | newest
    · have whole := opened.whole p older
      unfold Moved.Whole at whole ⊢
      rw [reads] at whole ⊢
      exact whole
    · rw [List.mem_singleton.mp newest]
      unfold Moved.Whole
      rw [reads, if_neg Bool.false_ne_true, words, fetching.kept, opened.reads reads]
      rfl
  · intro b apart
    rw [disk]
    rfl
  · intro reads
    exact disk
  · unfold Ledger.written
    rw [reads, if_neg Bool.false_ne_true, List.flatMap_append, List.flatMap_singleton, moved,
      fetching.out, List.append_assoc]
    rfl

theorem read_next (rst : i.rst = false) (sound : c.Sound) (booked : Booked mainWords size c l)
    (place : c.walk.v = .read) : Booked mainWords size (c.next mainWords i m) (l.next c i) := by
  have read : Reading c.walk c.disk c.sent c.store.chbQ := sound.read place
  have reads := read.fetched.reads
  have fetching : Fetching size c l := booked.fetch (Or.inr (Or.inr place)) reads
  have busy : c.walk.v ≠ .idle := by simp [place]
  have away : c.walk.v ≠ .ccw := by simp [place]
  obtain ⟨quiet, counts⟩ := booked.busy busy
  have ticked := ticked_counts quiet counts
  have disk : (c.next mainWords i m).disk = c.disk :=
    Copying.next_disk (Copying.issues_aside (by simp [place]))
  have before : (c.next mainWords i m).before = c.before := Copying.next_before away
  have goes {w : Walk} (unwritten : c.done i true = false) (further : c.walk.pageDone i = false)
      (same : Goes c (c.next mainWords i m) w) (state : w.v = .look ∨ w.v = .wait ∨ w.v = .read) :
      Booked mainWords size (c.next mainWords i m) (l.next c i) := by
    rw [ledger_ticks rst busy further unwritten]
    exact fetching.goes same state reads disk before (Copying.next_sent away unwritten) ticked
  have moves : Walk.Reads c.store i c.walk (c.next mainWords i m).walk := Walk.next_read rst place
  cases moves with
  | emits free enough next =>
    exact goes (Copying.done_free free true) (by simp [Walk.pageDone, place, free])
      ⟨next, rfl, rfl, rfl⟩ (Or.inr (Or.inr place))
  | blockDone free short drained next =>
    exact goes (Copying.done_free free true) (by simp [Walk.pageDone, place, free])
      ⟨next, rfl, rfl, rfl⟩ (Or.inl rfl)
  | pushes free short undrained valid next =>
    exact goes (Copying.done_free free true) (by simp [Walk.pageDone, place, free])
      ⟨next, rfl, rfl, rfl⟩ (Or.inr (Or.inr place))
  | latches free short undrained next =>
    exact goes (Copying.done_free free true) (by simp [Walk.pageDone, place, free])
      ⟨next, rfl, rfl, rfl⟩ (Or.inr (Or.inr place))
  | lands asked done further next =>
    obtain ⟨age, hits, walk⟩ := next
    have written : c.done i true = true := by
      simp [Copying.done, asked, done, (read.asked asked).1]
    have same : Fetching size (c.next mainWords i m)
        { l.ticks c.walk with out := l.out ++ [(c.walk.dAddr, c.walk.dWdata)] } := by
      constructor
      · rw [walk, before]
        exact fetching.opened.stands rfl rfl
      · rw [disk, before, fetching.kept]
      · rw [walk]
        exact fetching.tally
      · rw [Copying.next_sent_done away written, fetching.out, List.append_assoc]
        rfl
      · rw [walk]
        exact fetching.found
    rw [ledger_goes rst busy (by simp [Walk.pageDone, place, further]), written, if_pos rfl]
    exact Booked.of_fetch (by rw [walk]; rfl) ticked
      (by rw [walk]; exact Or.inr (Or.inr place)) (by rw [walk]; exact reads) same
  | pageDone asked done last next =>
    have ends : c.walk.pageDone i = true := by simp [Walk.pageDone, place, asked, done, last]
    have turned : Turned c.walk (l.next c i) (c.next mainWords i m).disk :=
      read_turned sound fetching ⟨rst, place, ends⟩
    apply Booked.of_page turned next rfl rfl rfl rfl rfl
    · rw [ledger_page rst busy ends]
      simp only [List.length_append, List.length_singleton, Nat.mul_add, Nat.mul_one]
      exact fetching.tally
    · rw [ledger_page rst busy ends]
      exact ticked
  | holds asked wait next =>
    exact goes (by simp [Copying.done, wait]) (by simp [Walk.pageDone, place, wait])
      ⟨next, rfl, rfl, rfl⟩ (Or.inr (Or.inr place))

theorem write_turned (sound : c.Sound) (storing : Storing c l) (ends : c.WriteEnds i) :
    Turned c.walk (l.next c i) (c.next mainWords i m).disk := by
  obtain ⟨places, bytes, rest, -⟩ : (c.next mainWords i m).got.map Prod.fst =
        (List.range 1024).map (fun n => c.walk.page ++ BitVec.ofNat 10 n) ∧
      (∀ j, j < 1024 * c.walk.size → diskByte (c.next mainWords i m).disk c.walk.base j =
        memByte c.walk.four (Copying.word (c.next mainWords i m).got) j) ∧
      (∀ b, (∀ p, p < c.walk.size → b ≠ pageBlock c.walk.base p) →
        (c.next mainWords i m).disk b = (c.next mainWords i m).before b) ∧
      (c.next mainWords i m).walk.sn = 0 := sound.write_page ends
  obtain ⟨rst, place, done⟩ := ends
  have write : Writing c.walk c.disk c.before c.got := sound.write place
  have writes := write.stored.writes
  have opened := storing.opened
  obtain ⟨enough, free, last, lastBlock⟩ : 4#4 ≤ c.walk.sn ∧ c.walk.dReq = false ∧
      c.walk.chW = 255#8 ∧ c.walk.k = c.walk.perPage - 1 := by
    simpa [Walk.pageDone, place, and_assoc] using done
  rw [Copying.next_got (by simp [place]) (Copying.done_free free false)] at places bytes
  rw [Copying.next_before (by simp [place])] at rest
  have block : c.walk.k.toNat + 1 = c.walk.size := by
    rw [lastBlock]
    rcases size_cases c.walk with ⟨-, four, per⟩ | ⟨-, four, per⟩ <;> rw [four, per] <;> rfl
  have inside := storing.inside place
  have base := opened.base
  have apart : ∀ b : BitVec 28, b.toNat < c.walk.base.toNat ∨
      c.walk.base.toNat + c.walk.size ≤ b.toNat → (c.next mainWords i m).disk b = c.before b := by
    intro b off
    apply rest
    intro r within same
    have value := congrArg BitVec.toNat same
    rw [pageBlock_toNat (by omega)] at value
    omega
  rw [ledger_page rst (by simp [place]) done, Copying.done_free free true,
    if_neg Bool.false_ne_true]
  constructor
  · exact opened.calm
  · omega
  · exact block
  · simp
  · simp only [List.length_append, List.length_singleton, Nat.mul_add, Nat.mul_one]
    change c.walk.base.toNat + _ = l.da.toNat + _
    omega
  · exact bases_append opened.bases base
  · intro p member
    rcases List.mem_append.mp member with older | newest
    · exact opened.stored_whole writes (fun b early => apart b (Or.inl early)) p older
    · rw [List.mem_singleton.mp newest]
      unfold Moved.Whole Copying.moved
      rw [writes, if_pos rfl, if_pos rfl]
      exact ⟨places, bytes⟩
  · intro b off
    rw [apart b (by change b.toNat < l.da.toNat ∨ _ at off; omega)]
    exact opened.rest b (by change b.toNat < l.da.toNat ∨ _ at off; omega)
  · intro reads
    exact absurd (reads.symm.trans writes) Bool.false_ne_true
  · unfold Ledger.written
    rw [writes]
    exact storing.out

theorem write_next (rst : i.rst = false) (sound : c.Sound) (booked : Booked mainWords size c l)
    (place : c.walk.v = .write) : Booked mainWords size (c.next mainWords i m) (l.next c i) := by
  have write : Writing c.walk c.disk c.before c.got := sound.write place
  have writes := write.stored.writes
  have storing : Storing c l := booked.store (Or.inr (Or.inr place)) writes
  have busy : c.walk.v ≠ .idle := by simp [place]
  obtain ⟨quiet, counts⟩ := booked.busy busy
  have ticked := ticked_counts quiet counts
  have before : (c.next mainWords i m).before = c.before := Copying.next_before (by simp [place])
  have inside : c.walk.base.toNat + c.walk.k.toNat < 2 ^ 28 := storing.inside place
  have unwritten : c.done i true = false := by
    unfold Copying.done
    cases asked : c.walk.dReq with
    | false => rfl
    | true => simp [(write.asked asked).2.1]
  have goes {w : Walk} (further : c.walk.pageDone i = false) (same : Goes c (c.next mainWords i m) w)
      (k : w.k = c.walk.k) (state : w.v = .write) : Booked mainWords size (c.next mainWords i m) (l.next c i) := by
    rw [ledger_ticks rst busy further unwritten]
    exact storing.goes same k (Or.inr (Or.inr state)) writes before (fun _ => inside) ticked
  have moves : Walk.Writes i c.walk (c.next mainWords i m).walk := Walk.next_write rst place
  cases moves with
  | stores free enough further next =>
    exact goes (by simp [Walk.pageDone, place, further]) ⟨next, rfl, rfl, rfl⟩ rfl place
  | blockDone free enough last further next =>
    obtain ⟨age, hits, walk⟩ := next
    obtain ⟨more, -⟩ : (c.walk.k + 1).toNat = c.walk.k.toNat + 1 ∧
      c.walk.k.toNat + 1 < c.walk.size := next_block write.stored.block further
    have goes : c.walk.pageDone i = false := by
      unfold Walk.pageDone
      rw [beq_false_of_ne further, place]
      simp
    rw [ledger_ticks rst busy goes unwritten]
    apply Booked.of_store (by rw [walk]; rfl) ticked (by rw [walk]; exact Or.inl rfl)
      (by rw [walk]; exact writes)
    constructor
    · rw [walk, before]
      exact storing.opened.stands rfl rfl
    · rw [walk]
      change l.charges + c.walk.charge.toNat + 1 = c.walk.size * l.pages.length +
        (c.walk.k + 1).toNat
      rw [more, storing.tally, Nat.add_assoc]
    · exact storing.out
    · rw [walk]
      change c.walk.base.toNat + (c.walk.k + 1).toNat ≤ 2 ^ 28
      rw [more]
      exact inside
    · rw [walk]
      intro moves
      exact absurd moves (show WalkState.look ≠ .write by decide)
  | pageDone free enough last lastBlock next =>
    have ends : c.walk.pageDone i = true := by
      simp [Walk.pageDone, place, free, enough, last, lastBlock]
    have turned : Turned c.walk (l.next c i) (c.next mainWords i m).disk :=
      write_turned sound storing ⟨rst, place, ends⟩
    apply Booked.of_page turned next rfl rfl rfl free rfl
    · rw [ledger_page rst busy ends]
      simp only [List.length_append, List.length_singleton, Nat.mul_add, Nat.mul_one]
      change l.charges + c.walk.charge.toNat + 1 = _
      have block := turned.last
      have tally := storing.tally
      omega
    · rw [ledger_page rst busy ends]
      exact ticked
  | asks free short next =>
    have low : ¬ 4#4 ≤ c.walk.sn := BitVec.not_le.mpr short
    exact goes (by simp [Walk.pageDone, place, low]) ⟨next, rfl, rfl, rfl⟩ rfl place
  | takes asked done next =>
    exact goes (by simp [Walk.pageDone, place, asked]) ⟨next, rfl, rfl, rfl⟩ rfl place
  | holds asked wait next =>
    exact goes (by simp [Walk.pageDone, place, asked]) ⟨next, rfl, rfl, rfl⟩ rfl place

theorem reset_next (rst : i.rst = true) :
    Booked mainWords size (c.next mainWords i m) (l.next c i) := by
  have ledger : l.next c i = { l with starts := 0, fins := 0 } := by
    unfold Ledger.next
    rw [rst, if_pos rfl]
  have walk : (c.next mainWords i m).walk.v = .idle ∧ (c.next mainWords i m).walk.fin = false ∧
      (c.next mainWords i m).walk.dReq = false ∧
      (c.next mainWords i m).walk.charge = false := by
    unfold Copying.next Walk.next
    rw [rst]
    exact ⟨rfl, rfl, rfl, rfl⟩
  rw [ledger]
  constructor <;> simp [walk]

theorem booked_next (sound : c.Sound) (tagged : c.Tagged size) (pack : Pack size m c.walk)
    (booked : Booked mainWords size c l) :
    Booked mainWords size (c.next mainWords i m) (l.next c i) := by
  cases rst : i.rst with
  | true => exact reset_next rst
  | false =>
    cases place : c.walk.v with
    | idle => exact booked.idle_next rst place
    | ccw => exact booked.ccw_next rst place
    | glook => exact glook_next rst sound tagged booked place
    | gwait => exact gwait_next rst sound tagged pack booked place
    | look => exact look_next rst sound booked place
    | wait => exact wait_next rst sound tagged pack booked place
    | read => exact read_next rst sound booked place
    | write => exact write_next rst sound booked place
    | ended => exact booked.ended_next rst place

end Booked

section Run

variable {i : Nat → WalkInput} {m : Nat → Seam} {c : Nat → Copying} {l : Nat → Ledger}

/-- A run from a reset over a pack of so many blocks, with its account. -/
structure Accounted (mainWords size : Nat) (i : Nat → WalkInput) (m : Nat → Seam)
    (c : Nat → Copying) (l : Nat → Ledger) : Prop where
  runs : Copying.Runs mainWords i m c
  served : ∀ clock, (c clock).Served
  pack : ∀ clock, Pack size (m clock) (c clock).walk
  opens : (l 0).starts = 0 ∧ (l 0).fins = 0
  keeps : ∀ clock, l (clock + 1) = (l clock).next (c clock) (i clock)

theorem tagged_reset {c : Copying} {i : WalkInput} {m : Seam} (rst : i.rst = true) :
    (c.next mainWords i m).Tagged size := by
  constructor
  · intro slot valid
    change (if i.rst then fun _ => false else _) slot = true at valid
    rw [rst, if_pos rfl] at valid
    exact absurd valid Bool.false_ne_true
  · intro slot hit looked
    have running : i.rst = false := (Walk.next_looked looked).1
    exact absurd (running.symm.trans rst) Bool.false_ne_true
  · exact Walk.next_waiting

theorem Accounted.tagged (run : Accounted mainWords size i m c l) (clock : Nat) :
    (c clock).Tagged size := by
  induction clock with
  | zero =>
    obtain ⟨start, first, seam, rst, same⟩ := run.runs.reset
    rw [same]
    exact tagged_reset rst
  | succ clock ih =>
    rw [run.runs.step]
    exact Copying.tagged_next ih (run.pack clock)

/-- The account is kept in every run. -/
theorem Accounted.booked (run : Accounted mainWords size i m c l) (clock : Nat) :
    Booked mainWords size (c clock) (l clock) := by
  induction clock with
  | zero =>
    obtain ⟨start, first, seam, rst, same⟩ := run.runs.reset
    have walk : (c 0).walk.v = .idle ∧ (c 0).walk.fin = false ∧ (c 0).walk.dReq = false ∧
        (c 0).walk.charge = false := by
      rw [same]
      unfold Copying.next Walk.next
      rw [rst]
      exact ⟨rfl, rfl, rfl, rfl⟩
    constructor <;> simp [walk, run.opens]
  | succ clock ih =>
    rw [run.runs.step, run.keeps]
    exact Booked.booked_next (run.runs.sound run.served clock) (run.tagged clock)
      (run.pack clock) ih

end Run

end MuirFpga.Quux
