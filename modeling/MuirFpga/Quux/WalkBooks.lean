import MuirFpga.Quux.WalkLedger

/-!
# The books through a clock

Each state's clock keeps the books. A page read moves only after all its blocks were found, so an
error meets a read with nothing of its page in memory; a write meets one between two blocks.
-/

namespace MuirFpga.Quux

variable {mainWords size : Nat} {i : WalkInput} {m : Seam} {c : Copying} {l : Ledger}

/-- A clock's charge and end. -/
def Ledger.ticks (l : Ledger) (w : Walk) : Ledger :=
  { l with charges := l.charges + w.charge.toNat, fins := l.fins + w.fin.toNat }

section Account

theorem ledger_goes (rst : i.rst = false) (busy : c.walk.v ≠ .idle)
    (goes : c.walk.pageDone i = false) : l.next c i =
      { l.ticks c.walk with
        out := if c.done i true then l.out ++ [(c.walk.dAddr, c.walk.dWdata)] else l.out } := by
  unfold Ledger.next Walk.takes
  simp [rst, busy, goes, Ledger.ticks]

theorem ledger_ticks (rst : i.rst = false) (busy : c.walk.v ≠ .idle)
    (goes : c.walk.pageDone i = false) (none : c.done i true = false) :
    l.next c i = l.ticks c.walk := by
  rw [ledger_goes rst busy goes, none, if_neg Bool.false_ne_true]
  rfl

theorem ticked_counts (quiet : c.walk.fin = false) (counts : l.starts = l.fins + 1) :
    (l.ticks c.walk).starts = (l.ticks c.walk).fins + 1 := by
  change l.starts = l.fins + c.walk.fin.toNat + 1
  rw [quiet]
  exact counts

theorem pageDone_off (off : ¬ c.walk.moves) : c.walk.pageDone i = false := by
  unfold Walk.moves at off
  push Not at off
  unfold Walk.pageDone
  simp [off]

end Account

section Blocks

variable {w : Walk}

theorem cur_toNat (room : w.base.toNat ≤ 2 ^ 28) :
    w.cur.toNat = w.base.toNat + w.k.toNat := by
  have small : w.k.toNat < 8 := w.k.isLt
  unfold Walk.cur
  rw [BitVec.toNat_add, BitVec.toNat_setWidth]
  omega

theorem cur_past (room : w.base.toNat ≤ 2 ^ 28) (past : w.cur.getLsbD 28 = true) :
    2 ^ 28 ≤ w.base.toNat + w.k.toNat := by
  rw [← cur_toNat room]
  have top : w.cur.msb = true := past
  rw [BitVec.msb_eq_decide, decide_eq_true_eq] at top
  exact top

theorem cur_inside (room : w.base.toNat ≤ 2 ^ 28) (inside : w.cur.getLsbD 28 = false) :
    w.base.toNat + w.k.toNat < 2 ^ 28 := by
  rw [← cur_toNat room]
  have top : w.cur.msb = false := inside
  rw [BitVec.msb_eq_decide, decide_eq_false_iff_not] at top
  exact Nat.not_le.mp top

theorem pageBlock_toNat {base : BitVec 29} {p : Nat} (inside : base.toNat + p < 2 ^ 28) :
    (pageBlock base p).toNat = base.toNat + p := by
  unfold pageBlock
  rw [BitVec.extractLsb'_toNat, BitVec.toNat_add, BitVec.toNat_ofNat]
  simp only [Nat.shiftRight_zero]
  omega

theorem block_toNat (room : w.base.toNat ≤ 2 ^ 28) :
    w.block.toNat = (w.base.toNat + w.k.toNat) % 2 ^ 28 := by
  rw [← cur_toNat room]
  unfold Walk.block
  rw [BitVec.extractLsb'_toNat, Nat.shiftRight_zero]

theorem stops_first {disk : Disk} {owed : Nat}
    (base : w.base.toNat = l.da.toNat + w.size * l.pages.length) (room : w.base.toNat ≤ 2 ^ 28)
    (rest : ∀ b : BitVec 28, b.toNat < l.da.toNat ∨ w.base.toNat ≤ b.toNat → disk b = l.start b)
    (first : w.k = 0) (tally : owed = w.size * l.pages.length) : Stops w l disk [] owed := by
  have here : w.cur.toNat = w.base.toNat := by
    rw [cur_toNat room, first]
    rfl
  constructor
  · rw [first]
    rcases size_cases w with ⟨-, four, -⟩ | ⟨-, four, -⟩ <;> rw [four] <;> decide
  · rw [first]
    exact tally
  · rw [here, tally]
    exact base
  · intro writes
    refine ⟨rfl, ?_, ?_⟩
    · rw [first]
      exact Nat.zero_le _
    · intro j none
      rw [first] at none
      exact absurd none (Nat.not_lt_zero j)
  · intro b apart
    rw [here] at apart
    exact rest b apart

end Blocks

/-- A START met with a block of its page that is past the end. -/
structure Halts (w : Walk) (l : Ledger) (disk : Disk) (got : List (BitVec 28 × BitVec 40))
    (owed : Nat) : Prop where
  bases : ∀ j p, l.pages[j]? = some p → p.base.toNat = l.da.toNat + w.size * j
  whole : ∀ p ∈ l.pages, p.Whole w.four w.writing l.start disk
  out : l.out = l.written w.writing
  reads : w.writing = false → disk = l.start
  stops : Stops w l disk got owed

theorem Halts.left {w y : Walk} {disk : Disk} {got : List (BitVec 28 × BitVec 40)} {owed : Nat}
    (halts : Halts w l disk got owed)
    (same : (y.writing, y.four, y.base, y.k, y.page) = (w.writing, w.four, w.base, w.k, w.page))
    (flags : y.pastEnd = true ∧ y.nxm = false)
    (beyond : 2 ^ 28 ≤ w.cur.toNat ∨ size ≤ w.cur.toNat) :
    Left mainWords size y (l.ticks w) disk got owed := by
  obtain ⟨writing, four, base, k, page⟩ : y.writing = w.writing ∧ y.four = w.four ∧
    y.base = w.base ∧ y.k = w.k ∧ y.page = w.page := by
    simpa using same
  have per : y.size = w.size := by
    unfold Walk.size
    rw [four]
  have cur : y.cur = w.cur := by
    unfold Walk.cur
    rw [base, k]
  have stops := halts.stops
  constructor
  · rw [per]
    exact halts.bases
  · rw [four, writing]
    exact halts.whole
  · rw [writing]
    exact halts.out
  · rw [writing]
    exact halts.reads
  · apply Ending.pastEnd flags
    · rw [cur]
      exact beyond
    · constructor
      · rw [k, per]
        exact stops.block
      · rw [per, k]
        exact stops.charges
      · rw [cur]
        exact stops.da
      · rw [writing, page, k, per, base, four]
        exact stops.stored
      · rw [cur]
        exact stops.rest

theorem finding_halts (finding : Finding size c l) (gather : Gathering c.walk c.sent) :
    Halts c.walk l c.disk c.got (l.charges + c.walk.charge.toNat) := by
  have opened := finding.opened
  have here : c.walk.cur.toNat = c.walk.base.toNat + c.walk.k.toNat := cur_toNat opened.room
  have base := opened.base
  have count := finding.tally
  have start : c.disk = l.start := finding.kept.trans (opened.reads gather.reads)
  refine ⟨opened.bases, ?_, ?_, fun _ => start, ?_⟩
  · rw [finding.kept]
    exact opened.whole
  · rw [gather.reads]
    exact finding.out
  · constructor
    · exact gather.block
    · exact count
    · omega
    · intro writes
      exact absurd (gather.reads.symm.trans writes) Bool.false_ne_true
    · intro b apart
      rw [start]

theorem Opened.stored_whole {w : Walk} {disk before : Disk} (opened : Opened w l before)
    (writes : w.writing = true)
    (same : ∀ b : BitVec 28, b.toNat < w.base.toNat → disk b = before b) :
    ∀ p ∈ l.pages, p.Whole w.four w.writing l.start disk := by
  intro p member
  have whole := opened.whole p member
  obtain ⟨n, place⟩ := List.mem_iff_getElem?.mp member
  have first := opened.bases n p place
  have index : n < l.pages.length := by
    obtain ⟨index, -⟩ := List.getElem?_eq_some_iff.mp place
    exact index
  have base := opened.base
  have room := opened.room
  have later : w.size * (n + 1) ≤ w.size * l.pages.length := Nat.mul_le_mul_left _ index
  rw [Nat.mul_succ] at later
  unfold Moved.Whole at whole ⊢
  rw [writes, if_pos rfl] at whole ⊢
  refine ⟨whole.1, ?_⟩
  intro j inside
  have within : j / 1024 < w.size := by
    change j < 1024 * w.size at inside
    omega
  rw [← whole.2 j inside]
  unfold diskByte
  rw [same]
  rw [pageBlock_toNat (by omega)]
  omega

theorem storing_halts (storing : Storing c l)
    (stored : Stored c.walk c.disk c.before c.got (256 * c.walk.k.toNat)) :
    Halts c.walk l c.disk c.got (l.charges + c.walk.charge.toNat) := by
  have opened := storing.opened
  have here : c.walk.cur.toNat = c.walk.base.toNat + c.walk.k.toNat := cur_toNat opened.room
  have base := opened.base
  have tally := storing.tally
  have below := storing.below
  have short := stored.block
  have others : ∀ b : BitVec 28, b.toNat < c.walk.base.toNat ∨ c.walk.cur.toNat ≤ b.toNat →
      c.disk b = c.before b := by
    intro b apart
    apply stored.others
    intro r early same
    have value := congrArg BitVec.toNat same
    rw [pageBlock_toNat (by omega)] at value
    omega
  refine ⟨opened.bases, ?_, ?_, ?_, ?_⟩
  · apply opened.stored_whole stored.writes
    intro b early
    exact others b (Or.inl early)
  · rw [stored.writes]
    exact storing.out
  · intro reads
    exact absurd (reads.symm.trans stored.writes) Bool.false_ne_true
  · constructor
    · exact stored.block
    · exact tally
    · omega
    · intro writes
      have count := stored.count
      refine ⟨stored.places, by omega, ?_⟩
      intro j inside
      exact stored.bytes (by omega) (by omega)
    · intro b apart
      rw [others b (by omega)]
      exact opened.rest b (by omega)

section Stands

variable {d : Copying}

theorem pages_stand (account : d.walk.account = c.walk.account) :
    d.walk.writing = c.walk.writing ∧ d.walk.base = c.walk.base ∧ d.walk.size = c.walk.size := by
  obtain ⟨-, -, writing, four, base⟩ : d.walk.pastEnd = c.walk.pastEnd ∧ d.walk.nxm = c.walk.nxm ∧
    d.walk.writing = c.walk.writing ∧ d.walk.four = c.walk.four ∧ d.walk.base = c.walk.base := by
    simpa [Walk.account] using account
  exact ⟨writing, base, by unfold Walk.size; rw [four]⟩

theorem Finding.stands (finding : Finding size c l) (account : d.walk.account = c.walk.account)
    (k : d.walk.k = c.walk.k) (uncharged : d.walk.charge = false) (disk : d.disk = c.disk)
    (before : d.before = c.before) : Finding size d (l.ticks c.walk) := by
  obtain ⟨-, base, per⟩ := pages_stand account
  constructor
  · rw [before]
    exact finding.opened.stands account rfl
  · rw [disk, before]
    exact finding.kept
  · rw [uncharged, per, k]
    exact finding.tally
  · exact finding.out
  · rw [k, base]
    exact finding.found

theorem Fetching.stands (fetching : Fetching size c l)
    (account : d.walk.account = c.walk.account) (uncharged : d.walk.charge = false)
    (disk : d.disk = c.disk) (before : d.before = c.before) (sent : d.sent = c.sent) :
    Fetching size d (l.ticks c.walk) := by
  obtain ⟨-, base, per⟩ := pages_stand account
  constructor
  · rw [before]
    exact fetching.opened.stands account rfl
  · rw [disk, before]
    exact fetching.kept
  · rw [uncharged, per]
    exact fetching.tally
  · rw [sent]
    exact fetching.out
  · rw [per, base]
    exact fetching.found

theorem Storing.stands (storing : Storing c l) (account : d.walk.account = c.walk.account)
    (k : d.walk.k = c.walk.k) (uncharged : d.walk.charge = false)
    (before : d.before = c.before)
    (inside : d.walk.v = .write → c.walk.base.toNat + c.walk.k.toNat < 2 ^ 28) :
    Storing d (l.ticks c.walk) := by
  obtain ⟨-, base, per⟩ := pages_stand account
  constructor
  · rw [before]
    exact storing.opened.stands account rfl
  · rw [uncharged, per, k]
    exact storing.tally
  · exact storing.out
  · rw [base, k]
    exact storing.below
  · rw [base, k]
    exact inside

/-- A clock that goes on with the page: its account stays, and nothing is charged or ended. -/
structure Goes (c d : Copying) (w : Walk) : Prop where
  next : Walk.Follows c.walk w d.walk
  account : w.account = c.walk.account
  charge : w.charge = false
  fin : w.fin = false

variable {w : Walk}

theorem Goes.read (goes : Goes c d w) : d.walk.v = w.v ∧ d.walk.account = c.walk.account ∧
    d.walk.k = w.k ∧ d.walk.charge = false ∧ d.walk.fin = false := by
  obtain ⟨⟨age, hits, walk⟩, account, charge, fin⟩ := goes
  rw [walk]
  exact ⟨rfl, account, rfl, charge, fin⟩

theorem Finding.goes (finding : Finding size c l) (goes : Goes c d w) (same : w.k = c.walk.k)
    (place : w.v = .glook ∨ w.v = .gwait) (disk : d.disk = c.disk) (before : d.before = c.before)
    (ticked : (l.ticks c.walk).starts = (l.ticks c.walk).fins + 1) :
    Booked mainWords size d (l.ticks c.walk) := by
  obtain ⟨v, account, k, charge, fin⟩ := goes.read
  exact .of_gather fin ticked (v ▸ place) (finding.stands account (k.trans same) charge disk before)

theorem Fetching.goes (fetching : Fetching size c l) (goes : Goes c d w)
    (place : w.v = .look ∨ w.v = .wait ∨ w.v = .read) (reads : c.walk.writing = false)
    (disk : d.disk = c.disk) (before : d.before = c.before) (sent : d.sent = c.sent)
    (ticked : (l.ticks c.walk).starts = (l.ticks c.walk).fins + 1) :
    Booked mainWords size d (l.ticks c.walk) := by
  obtain ⟨v, account, -, charge, fin⟩ := goes.read
  exact .of_fetch fin ticked (v ▸ place) ((pages_stand account).1.trans reads)
    (fetching.stands account charge disk before sent)

theorem Storing.goes (storing : Storing c l) (goes : Goes c d w) (same : w.k = c.walk.k)
    (place : w.v = .look ∨ w.v = .wait ∨ w.v = .write) (writes : c.walk.writing = true)
    (before : d.before = c.before)
    (inside : w.v = .write → c.walk.base.toNat + c.walk.k.toNat < 2 ^ 28)
    (ticked : (l.ticks c.walk).starts = (l.ticks c.walk).fins + 1) :
    Booked mainWords size d (l.ticks c.walk) := by
  obtain ⟨v, account, k, charge, fin⟩ := goes.read
  exact .of_store fin ticked (v ▸ place) ((pages_stand account).1.trans writes)
    (storing.stands account (k.trans same) charge before (v ▸ inside))

end Stands

theorem denied_past (tagged : c.Tagged size) (pack : Pack size m c.walk) (deny : m.deny = true)
    (waits : c.walk.waiting = true) : size ≤ c.walk.cur.toNat := by
  have past := pack.denies deny waits
  rw [tagged.asks waits] at past
  refine Nat.le_trans past ?_
  unfold Walk.block
  rw [BitVec.extractLsb'_toNat]
  exact Nat.le_trans (Nat.mod_le _ _) (Nat.le_refl _)

namespace Booked

theorem idle_next (rst : i.rst = false) (booked : Booked mainWords size c l)
    (place : c.walk.v = .idle) : Booked mainWords size (c.next mainWords i m) (l.next c i) := by
  obtain ⟨free, uncharged⟩ := booked.idle place
  have counts := booked.counts
  rw [if_pos place, Nat.add_zero] at counts
  have disk : (c.next mainWords i m).disk = c.disk :=
    Copying.next_disk (Copying.issues_aside (by simp [place]))
  have idles : Walk.Idles i c.walk (c.next mainWords i m).walk := Walk.next_idle rst place
  cases idles with
  | started start present next =>
    obtain ⟨age, hits, walk⟩ := next
    have ledger : l.next c i = ⟨i.stDa, c.disk, [], [], 0, l.starts + 1,
        l.fins + c.walk.fin.toNat⟩ := by
      unfold Ledger.next Walk.takes
      simp [rst, start, present, place]
    have da : (0#1 ++ i.stDa).toNat = i.stDa.toNat := by
      rw [BitVec.toNat_append]
      simp
    apply Booked.of_entry
    · rw [walk]
      rfl
    · rw [ledger, counts]
    · rw [walk]
    rw [ledger]
    constructor
    · rw [walk, disk]
      constructor
      · exact ⟨rfl, rfl⟩
      · exact da
      · exact Nat.le_of_lt (da ▸ i.stDa.isLt)
      · intro j p none
        exact absurd none (by simp)
      · intro p none
        exact absurd none (by simp)
      · intro b apart
        rfl
      · intro reads
        rfl
    · rw [walk]
    · rw [walk]
      rfl
    · unfold Ledger.written
      split_ifs <;> rfl
    · rw [walk]
      intro asked
      exact absurd (asked.symm.trans free) (by decide)
  | stays unstarted next =>
    obtain ⟨age, hits, walk⟩ := next
    have ledger : l.next c i = l.ticks c.walk := by
      have same : c.walk.takes i = false := by
        simpa [Walk.takes, place] using unstarted
      unfold Ledger.next
      rw [rst, same, pageDone_off (by simp [Walk.moves, place]), Copying.done_free free]
      rfl
    have stays : (c.next mainWords i m).walk.v = .idle := by
      rw [walk]
      exact place
    have quiet : (c.next mainWords i m).walk.fin = false := by
      rw [walk]
      rfl
    have calm : (c.next mainWords i m).walk.dReq = false ∧
        (c.next mainWords i m).walk.charge = false := by
      rw [walk]
      exact ⟨free, rfl⟩
    rw [ledger]
    constructor <;> simp [stays, quiet, calm]
    exact counts

theorem ended_next (rst : i.rst = false) (booked : Booked mainWords size c l)
    (place : c.walk.v = .ended) : Booked mainWords size (c.next mainWords i m) (l.next c i) := by
  obtain ⟨free, left⟩ := booked.ended place
  obtain ⟨quiet, counts⟩ := booked.busy (by simp [place])
  have disk : (c.next mainWords i m).disk = c.disk :=
    Copying.next_disk (Copying.issues_aside (by simp [place]))
  have got : (c.next mainWords i m).got = c.got :=
    Copying.next_got (by simp [place]) (Copying.done_free free false)
  have ledger : l.next c i = l.ticks c.walk :=
    ledger_ticks rst (by simp [place]) (pageDone_off (by simp [Walk.moves, place]))
      (Copying.done_free free true)
  have ends : Walk.Follows c.walk { c.walk.pulses with fin := true, v := .idle }
    (c.next mainWords i m).walk := Walk.next_ended rst place
  obtain ⟨age, hits, walk⟩ := ends
  have stays : (c.next mainWords i m).walk.v = .idle := by
    rw [walk]
  have told : (c.next mainWords i m).walk.fin = true := by
    rw [walk]
  have calm : (c.next mainWords i m).walk.dReq = false ∧
      (c.next mainWords i m).walk.charge = false := by
    rw [walk]
    exact ⟨free, rfl⟩
  have leaves : Left mainWords size (c.next mainWords i m).walk (l.ticks c.walk) c.disk c.got
      (l.charges + c.walk.charge.toNat) := by
    rw [walk]
    refine ⟨left.bases, left.whole, left.out, left.reads, ?_⟩
    cases left.ends with
    | done flags last pages all da rest => exact .done flags last pages all da rest
    | pastEnd flags beyond stops =>
      exact .pastEnd flags beyond ⟨stops.block, stops.charges, stops.da, stops.stored, stops.rest⟩
    | nxm flags beyond first stops =>
      exact .nxm flags beyond first
        ⟨stops.block, stops.charges, stops.da, stops.stored, stops.rest⟩
  constructor
  · rw [ledger, told, stays, if_pos rfl]
    change l.starts = l.fins + c.walk.fin.toNat + 1
    rw [quiet]
    exact counts
  · intro told
    rw [ledger, disk, got]
    exact ⟨stays, leaves⟩
  · intro idle
    exact calm
  all_goals simp [stays]

theorem ccw_next (rst : i.rst = false) (booked : Booked mainWords size c l)
    (place : c.walk.v = .ccw) : Booked mainWords size (c.next mainWords i m) (l.next c i) := by
  have entry : Entering c l := booked.entry place
  obtain ⟨quiet, counts⟩ := booked.busy (by simp [place])
  have disk : (c.next mainWords i m).disk = c.disk :=
    Copying.next_disk (Copying.issues_aside (by simp [place]))
  obtain ⟨sent, got, before⟩ : (c.next mainWords i m).sent = [] ∧
    (c.next mainWords i m).got = [] ∧ (c.next mainWords i m).before = c.disk :=
    Copying.next_entry place
  have unwritten : c.done i true = false := by
    unfold Copying.done
    cases asked : c.walk.dReq with
    | false => rfl
    | true => simp [entry.asked asked]
  have ledger : l.next c i = l.ticks c.walk :=
    ledger_ticks rst (by simp [place]) (pageDone_off (by simp [Walk.moves, place])) unwritten
  have ticked : (l.next c i).starts = (l.next c i).fins + 1 := by
    rw [ledger]
    exact ticked_counts quiet counts
  have opened := entry.opened
  have goes : Opened c.walk (l.ticks c.walk) c.disk := opened.stands rfl rfl
  have tally : l.charges + c.walk.charge.toNat + 0 = c.walk.size * l.pages.length := entry.tally
  have enters : Walk.Enters mainWords i c.walk (c.next mainWords i m).walk :=
    Walk.next_ccw rst place
  cases enters with
  | entryPast free past next =>
    obtain ⟨age, hits, walk⟩ := next
    apply Booked.of_ended (by rw [walk]; rfl) ticked (by rw [walk]) (by rw [walk]; exact free)
    rw [ledger, disk, got, walk]
    refine ⟨opened.bases, opened.whole, entry.out, opened.reads, ?_⟩
    exact .nxm ⟨opened.calm.1, rfl⟩ (Or.inl past) entry.first
      (stops_first opened.base opened.room opened.rest entry.first tally)
  | asks free inside next =>
    obtain ⟨age, hits, walk⟩ := next
    apply Booked.of_entry (by rw [walk]; rfl) ticked (by rw [walk]; exact place)
    rw [ledger]
    constructor
    · rw [walk, disk]
      exact goes.stands rfl rfl
    · rw [walk]
      exact entry.first
    · rw [walk]
      exact tally
    · rw [walk]
      exact entry.out
    · rw [walk]
      exact fun _ => rfl
  | pagePast asked done past next =>
    obtain ⟨age, hits, walk⟩ := next
    apply Booked.of_ended (by rw [walk]; rfl) ticked (by rw [walk]) (by rw [walk])
    rw [ledger, disk, got, walk]
    refine ⟨opened.bases, opened.whole, entry.out, opened.reads, ?_⟩
    exact .nxm ⟨opened.calm.1, rfl⟩ (Or.inr past) rfl
      (stops_first opened.base opened.room opened.rest rfl tally)
  | takes asked done inside next =>
    obtain ⟨age, hits, walk⟩ := next
    have out : l.out = l.written c.walk.writing := entry.out
    cases writing : c.walk.writing with
    | false =>
      rw [writing, if_neg Bool.false_ne_true] at walk
      rw [writing] at out
      apply Booked.of_gather (by rw [walk]; rfl) ticked (by rw [walk]; exact Or.inl rfl)
      rw [ledger]
      constructor
      · rw [walk, before]
        exact goes.stands rfl rfl
      · rw [disk, before]
      · rw [walk]
        exact tally
      · exact out
      · rw [walk]
        intro p none
        exact absurd none (Nat.not_lt_zero p)
    | true =>
      rw [writing, if_pos rfl] at walk
      rw [writing] at out
      apply Booked.of_store (by rw [walk]; rfl) ticked (by rw [walk]; exact Or.inl rfl)
        (by rw [walk]; exact writing)
      rw [ledger]
      constructor
      · rw [walk, before]
        exact goes.stands rfl rfl
      · rw [walk]
        exact tally
      · exact out
      · rw [walk]
        exact opened.room
      · rw [walk]
        intro moves
        exact absurd moves (show WalkState.look ≠ .write by decide)
  | holds asked wait next =>
    obtain ⟨age, hits, walk⟩ := next
    apply Booked.of_entry (by rw [walk]; rfl) ticked (by rw [walk]; exact place)
    rw [ledger]
    constructor
    · rw [walk, disk]
      exact goes.stands rfl rfl
    · rw [walk]
      exact entry.first
    · rw [walk]
      exact tally
    · rw [walk]
      exact entry.out
    · rw [walk]
      exact entry.asked

theorem gathered (rst : i.rst = false) (sound : c.Sound) (booked : Booked mainWords size c l)
    (place : c.walk.v = .glook ∨ c.walk.v = .gwait) :
    (c.next mainWords i m).disk = c.disk ∧ (c.next mainWords i m).got = c.got ∧
      (c.next mainWords i m).sent = [] ∧ (c.next mainWords i m).before = c.before ∧
      l.next c i = l.ticks c.walk ∧ (l.ticks c.walk).starts = (l.ticks c.walk).fins + 1 := by
  have gather : Gathering c.walk c.sent := sound.gather place
  have unwritten : c.done i true = false := Copying.done_free gather.free true
  obtain ⟨away, busy, aside, still⟩ : c.walk.v ≠ .ccw ∧ c.walk.v ≠ .idle ∧ ¬c.walk.issues ∧ ¬c.walk.moves := by
    rcases place with place | place <;> simp [Walk.issues, Walk.moves, place]
  obtain ⟨quiet, counts⟩ := booked.busy busy
  refine ⟨?_, Copying.next_got away (Copying.done_free gather.free false),
    (Copying.next_sent away unwritten).trans gather.sent, Copying.next_before away,
    ledger_ticks rst busy (pageDone_off still) unwritten, ticked_counts quiet counts⟩
  apply Copying.next_disk (Copying.issues_aside ?_)
  rcases place with place | place <;> simp [place]

theorem turned (rst : i.rst = false) (booked : Booked mainWords size c l)
    (place : c.walk.v = .look ∨ c.walk.v = .wait) (free : c.walk.dReq = false) :
    l.next c i = l.ticks c.walk ∧ (l.ticks c.walk).starts = (l.ticks c.walk).fins + 1 := by
  obtain ⟨busy, still⟩ : c.walk.v ≠ .idle ∧ ¬c.walk.moves := by
    rcases place with place | place <;> simp [Walk.moves, place]
  obtain ⟨quiet, counts⟩ := booked.busy busy
  exact ⟨ledger_ticks rst busy (pageDone_off still) (Copying.done_free free true), ticked_counts quiet counts⟩

theorem glook_next (rst : i.rst = false) (sound : c.Sound) (tagged : c.Tagged size)
    (booked : Booked mainWords size c l) (place : c.walk.v = .glook) :
    Booked mainWords size (c.next mainWords i m) (l.next c i) := by
  have finding : Finding size c l := booked.gather (Or.inl place)
  have gather : Gathering c.walk c.sent := sound.gather (Or.inl place)
  obtain ⟨disk, got, sent, before, ledger, ticked⟩ := @gathered mainWords _ _ m _ _ rst sound booked (Or.inl place)
  rw [ledger]
  have opened := finding.opened
  have goes : Opened c.walk (l.ticks c.walk) c.before := opened.stands rfl rfl
  have tally : l.charges + c.walk.charge.toNat =
    c.walk.size * l.pages.length + c.walk.k.toNat := finding.tally
  have gathers : Walk.Gathers c.walk (c.next mainWords i m).walk := Walk.next_glook rst place
  cases gathers with
  | past beyond next =>
    obtain ⟨age, hits, walk⟩ := next
    have here : c.walk.cur.toNat = c.walk.base.toNat + c.walk.k.toNat := cur_toNat opened.room
    apply Booked.of_ended (by rw [walk]; rfl) ticked (by rw [walk])
      (by rw [walk]; exact gather.free)
    rw [disk, got, walk]
    exact (finding_halts finding gather).left rfl ⟨rfl, opened.calm.2⟩
      (Or.inl (here ▸ cur_past opened.room beyond))
  | foundLast slot inside looked hit last next =>
    obtain ⟨age, hits, walk⟩ := next
    have here : c.walk.base.toNat + c.walk.k.toNat < 2 ^ 28 := cur_inside opened.room inside
    have below : c.walk.block.toNat < size := tagged.hits slot hit looked
    rw [block_toNat opened.room, Nat.mod_eq_of_lt here] at below
    have all : c.walk.k.toNat + 1 = c.walk.size := by
      rw [last]
      rcases size_cases c.walk with ⟨-, four, per⟩ | ⟨-, four, per⟩ <;> rw [four, per] <;> rfl
    apply Booked.of_fetch (by rw [walk]; rfl) ticked (by rw [walk]; exact Or.inl rfl)
      (by rw [walk]; exact gather.reads)
    constructor
    · rw [walk, before]
      exact goes.stands rfl rfl
    · rw [disk, before, finding.kept]
    · rw [walk]
      change l.charges + c.walk.charge.toNat + 1 = c.walk.size * l.pages.length + c.walk.size
      omega
    · rw [sent, List.append_nil]
      exact finding.out
    · rw [walk]
      intro p before
      change p < c.walk.size at before
      by_cases early : p < c.walk.k.toNat
      · exact finding.found p early
      · have same : p = c.walk.k.toNat := by omega
        rw [same]
        exact ⟨here, below⟩
  | found slot inside looked hit further next =>
    obtain ⟨age, hits, walk⟩ := next
    have here : c.walk.base.toNat + c.walk.k.toNat < 2 ^ 28 := cur_inside opened.room inside
    have below : c.walk.block.toNat < size := tagged.hits slot hit looked
    rw [block_toNat opened.room, Nat.mod_eq_of_lt here] at below
    obtain ⟨more, -⟩ : (c.walk.k + 1).toNat = c.walk.k.toNat + 1 ∧
      c.walk.k.toNat + 1 < c.walk.size := next_block gather.block further
    apply Booked.of_gather (by rw [walk]; rfl) ticked (by rw [walk]; exact Or.inl place)
    constructor
    · rw [walk, before]
      exact goes.stands rfl rfl
    · rw [disk, before, finding.kept]
    · rw [walk]
      change l.charges + c.walk.charge.toNat + 1 =
        c.walk.size * l.pages.length + (c.walk.k + 1).toNat
      omega
    · exact finding.out
    · rw [walk]
      intro p before
      change p < (c.walk.k + 1).toNat at before
      by_cases early : p < c.walk.k.toNat
      · exact finding.found p early
      · have same : p = c.walk.k.toNat := by omega
        rw [same]
        exact ⟨here, below⟩
  | asks inside looked next =>
    exact finding.goes ⟨next, rfl, rfl, rfl⟩ rfl (Or.inr rfl) disk before ticked
  | holds next =>
    exact finding.goes ⟨next, rfl, rfl, rfl⟩ rfl (Or.inl place) disk before ticked

theorem gwait_next (rst : i.rst = false) (sound : c.Sound) (tagged : c.Tagged size)
    (pack : Pack size m c.walk) (booked : Booked mainWords size c l)
    (place : c.walk.v = .gwait) : Booked mainWords size (c.next mainWords i m) (l.next c i) := by
  have finding : Finding size c l := booked.gather (Or.inr place)
  have gather : Gathering c.walk c.sent := sound.gather (Or.inr place)
  obtain ⟨disk, got, -, before, ledger, ticked⟩ := @gathered mainWords _ _ m _ _ rst sound booked (Or.inr place)
  rw [ledger]
  have waits : Walk.Waits .glook m c.walk (c.next mainWords i m).walk := Walk.next_gwait rst place
  cases waits with
  | denied deny next =>
    obtain ⟨age, hits, walk⟩ := next
    apply Booked.of_ended (by rw [walk]; rfl) ticked (by rw [walk])
      (by rw [walk]; exact gather.free)
    rw [disk, got, walk]
    exact (finding_halts finding gather).left rfl ⟨rfl, finding.opened.calm.2⟩
      (Or.inr (denied_past tagged pack deny (by simp [Walk.waiting, place])))
  | comes granted arrives next =>
    exact finding.goes ⟨next, rfl, rfl, rfl⟩ rfl (Or.inl rfl) disk before ticked
  | holds granted next =>
    exact finding.goes ⟨next, rfl, rfl, rfl⟩ rfl (Or.inr place) disk before ticked

theorem fetching_inside (fetching : Fetching size c l) (block : c.walk.k.toNat < c.walk.size) :
    c.walk.cur.getLsbD 28 = false ∧ c.walk.block.toNat < size := by
  obtain ⟨here, below⟩ := fetching.found _ block
  have room := fetching.opened.room
  constructor
  · cases past : c.walk.cur.getLsbD 28 with
    | false => rfl
    | true => exact absurd (cur_past room past) (Nat.not_le.mpr here)
  · rw [block_toNat room, Nat.mod_eq_of_lt here]
    exact below

theorem look_next (rst : i.rst = false) (sound : c.Sound) (booked : Booked mainWords size c l)
    (place : c.walk.v = .look) : Booked mainWords size (c.next mainWords i m) (l.next c i) := by
  have turn : Turning c.walk c.disk c.before c.sent c.got := sound.turn (Or.inl place)
  obtain ⟨ledger, ticked⟩ := turned rst booked (Or.inl place) turn.free
  obtain ⟨sent, got, disk, before⟩ : (c.next mainWords i m).sent = c.sent ∧
    (c.next mainWords i m).got = c.got ∧ (c.next mainWords i m).disk = c.disk ∧
    (c.next mainWords i m).before = c.before := Copying.next_turning (Or.inl place) turn.free
  rw [ledger]
  have looks : Walk.Looks c.walk (c.next mainWords i m).walk := Walk.next_look rst place
  cases writing : c.walk.writing with
  | false =>
    have fetching : Fetching size c l := booked.fetch (Or.inl place) writing
    obtain ⟨inside, -⟩ := fetching_inside fetching (turn.fetched writing).2.block
    cases looks with
    | past beyond next => exact absurd (inside.symm.trans beyond) Bool.false_ne_true
    | chooses slot inside hit looked next =>
      rw [writing, if_neg Bool.false_ne_true] at next
      exact fetching.goes ⟨next, rfl, rfl, rfl⟩ (Or.inr (Or.inr rfl)) writing disk before sent ticked
    | asks inside looked next =>
      exact fetching.goes ⟨next, rfl, rfl, rfl⟩ (Or.inr (Or.inl rfl)) writing disk before sent ticked
    | holds next =>
      exact fetching.goes ⟨next, rfl, rfl, rfl⟩ (Or.inl place) writing disk before sent ticked
  | true =>
    have storing : Storing c l := booked.store (Or.inl place) writing
    have room := storing.opened.room
    cases looks with
    | past beyond next =>
      obtain ⟨age, hits, walk⟩ := next
      apply Booked.of_ended (by rw [walk]; rfl) ticked (by rw [walk])
        (by rw [walk]; exact turn.free)
      rw [disk, got, walk]
      exact (storing_halts storing (turn.stored writing)).left rfl
        ⟨rfl, storing.opened.calm.2⟩ (Or.inl (cur_toNat room ▸ cur_past room beyond))
    | chooses slot inside hit looked next =>
      rw [writing, if_pos rfl] at next
      exact storing.goes ⟨next, rfl, rfl, rfl⟩ rfl (Or.inr (Or.inr rfl)) writing before
        (fun _ => cur_inside room inside) ticked
    | asks inside looked next =>
      exact storing.goes ⟨next, rfl, rfl, rfl⟩ rfl (Or.inr (Or.inl rfl)) writing before
        (fun _ => cur_inside room inside) ticked
    | holds next =>
      refine storing.goes ⟨next, rfl, rfl, rfl⟩ rfl (Or.inl place) writing before (fun moves => ?_) ticked
      exact absurd (place.symm.trans moves) (by decide)

theorem wait_next (rst : i.rst = false) (sound : c.Sound) (tagged : c.Tagged size)
    (pack : Pack size m c.walk) (booked : Booked mainWords size c l)
    (place : c.walk.v = .wait) : Booked mainWords size (c.next mainWords i m) (l.next c i) := by
  have turn : Turning c.walk c.disk c.before c.sent c.got := sound.turn (Or.inr place)
  obtain ⟨ledger, ticked⟩ := turned rst booked (Or.inr place) turn.free
  obtain ⟨sent, got, disk, before⟩ : (c.next mainWords i m).sent = c.sent ∧
    (c.next mainWords i m).got = c.got ∧ (c.next mainWords i m).disk = c.disk ∧
    (c.next mainWords i m).before = c.before := Copying.next_turning (Or.inr place) turn.free
  rw [ledger]
  have waiting : c.walk.waiting = true := by simp [Walk.waiting, place]
  have waits : Walk.Waits .look m c.walk (c.next mainWords i m).walk := Walk.next_wait rst place
  cases writing : c.walk.writing with
  | false =>
    have fetching : Fetching size c l := booked.fetch (Or.inr (Or.inl place)) writing
    obtain ⟨-, below⟩ := fetching_inside fetching (turn.fetched writing).2.block
    cases waits with
    | denied deny next =>
      have past := pack.denies deny waiting
      rw [tagged.asks waiting] at past
      exact absurd past (Nat.not_le.mpr below)
    | comes granted arrives next =>
      exact fetching.goes ⟨next, rfl, rfl, rfl⟩ (Or.inl rfl) writing disk before sent ticked
    | holds granted next =>
      exact fetching.goes ⟨next, rfl, rfl, rfl⟩ (Or.inr (Or.inl place)) writing disk before sent ticked
  | true =>
    have storing : Storing c l := booked.store (Or.inr (Or.inl place)) writing
    cases waits with
    | denied deny next =>
      obtain ⟨age, hits, walk⟩ := next
      apply Booked.of_ended (by rw [walk]; rfl) ticked (by rw [walk])
        (by rw [walk]; exact turn.free)
      rw [disk, got, walk]
      exact (storing_halts storing (turn.stored writing)).left rfl
        ⟨rfl, storing.opened.calm.2⟩ (Or.inr (denied_past tagged pack deny waiting))
    | comes granted arrives next =>
      refine storing.goes ⟨next, rfl, rfl, rfl⟩ rfl (Or.inl rfl) writing before (fun moves => ?_) ticked
      exact absurd moves (show WalkState.look ≠ .write by decide)
    | holds granted next =>
      refine storing.goes ⟨next, rfl, rfl, rfl⟩ rfl (Or.inr (Or.inl place)) writing before (fun moves => ?_) ticked
      exact absurd (place.symm.trans moves) (by decide)

end Booked

end MuirFpga.Quux
