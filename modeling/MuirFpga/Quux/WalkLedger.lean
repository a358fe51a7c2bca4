import MuirFpga.Quux.PageTrip

/-!
# A START's account

What a START has moved, kept beside the walk: its whole pages, the words it has written to memory,
its charges, and the STARTs taken against the ends. The books balance at every clock, over a pack
of any size that brings the blocks it has and denies the others.
-/

namespace MuirFpga.Quux

/-- A page moved whole: the words written to memory on a read, those read from it on a write. -/
structure Moved where
  page : BitVec 18
  base : BitVec 29
  words : List (BitVec 28 × BitVec 40)

/-- What a START has moved, from its disk address on and the disk as it found it; and since the
reset, the STARTs taken and the ends. -/
structure Ledger where
  da : BitVec 28
  start : Disk
  pages : List Moved
  out : List (BitVec 28 × BitVec 40)
  charges : Nat
  starts : Nat
  fins : Nat

/-- START is taken this clock. -/
def Walk.takes (w : Walk) (i : WalkInput) : Bool := i.start && w.v == .idle && i.drivePresent

/-- The page the walk is on, moved whole by this clock. -/
def Copying.moved (c : Copying) : Moved where
  page := c.walk.page
  base := c.walk.base
  words := if c.walk.writing then c.got else c.sent ++ [(c.walk.dAddr, c.walk.dWdata)]

/-- A clock of the account. -/
def Ledger.next (c : Copying) (i : WalkInput) (l : Ledger) : Ledger :=
  if i.rst then { l with starts := 0, fins := 0 }
  else if c.walk.takes i then
    { da := i.stDa, start := c.disk, pages := [], out := [], charges := 0
      starts := l.starts + 1, fins := l.fins + c.walk.fin.toNat }
  else
    { l with
      pages := if c.walk.pageDone i then l.pages ++ [c.moved] else l.pages
      out := if c.done i true then l.out ++ [(c.walk.dAddr, c.walk.dWdata)] else l.out
      charges := l.charges + c.walk.charge.toNat
      fins := l.fins + c.walk.fin.toNat }

/-- The words written to memory for the whole pages. -/
def Ledger.written (l : Ledger) (writing : Bool) : List (BitVec 28 × BitVec 40) :=
  if writing then [] else l.pages.flatMap Moved.words

/-- A page moved whole: on a read its words are the disk's at START, and on a write the disk has
memory's. -/
def Moved.Whole (p : Moved) (four writing : Bool) (start disk : Disk) : Prop :=
  if writing then
    p.words.map Prod.fst = (List.range 1024).map (fun n => p.page ++ BitVec.ofNat 10 n) ∧
      ∀ j, j < 1024 * (if four then 4 else 5) →
        diskByte disk p.base j = memByte four (Copying.word p.words) j
  else p.words = (List.range 1024).map fun n =>
    (p.page ++ BitVec.ofNat 10 n, memWord four (diskByte start p.base) n)

/-- The pack has so many blocks: it brings none past them and denies none of them. -/
structure Pack (size : Nat) (m : Seam) (w : Walk) : Prop where
  brings : m.tagWrite false = true → (m.wdata.extractLsb' 0 31).toNat < size
  denies : m.deny = true → w.waiting = true → size ≤ w.lba.toNat

/-- The blocks in the store are the pack's, a good lookup finds only them, and the walk waits for
the block it asks for. -/
structure Copying.Tagged (size : Nat) (c : Copying) : Prop where
  tags : ∀ slot, c.store.valid slot = true → (c.store.tag slot).toNat < size
  hits : ∀ slot, c.walk.hitQ slot = true → c.walk.looked = true → c.walk.block.toNat < size
  asks : c.walk.waiting = true → c.walk.lba = c.walk.block

namespace Copying

variable {mainWords size : Nat} {i : WalkInput} {m : Seam} {c : Copying}

theorem tags_next (tagged : c.Tagged size) (pack : Pack size m c.walk) (slot : BitVec 5) :
    (c.next mainWords i m).store.valid slot = true →
      ((c.next mainWords i m).store.tag slot).toNat < size := by
  change (if i.rst then fun _ => false
    else if m.tagWrite true then Function.update c.store.valid m.slot false
    else if m.tagWrite false then Function.update c.store.valid m.slot true
    else c.store.valid) slot = true →
    ((if m.tagWrite false then Function.update c.store.tag m.slot (m.wdata.extractLsb' 0 31)
      else c.store.tag) slot).toNat < size
  cases i.rst with
  | true => simp
  | false =>
    rw [if_neg Bool.false_ne_true]
    cases writes : m.tagWrite false with
    | false =>
      cases m.tagWrite true with
      | false => exact tagged.tags slot
      | true =>
        by_cases here : slot = m.slot
        · simp [here]
        · simpa [Function.update_of_ne here] using tagged.tags slot
    | true =>
      by_cases here : slot = m.slot
      · intro
        rw [if_pos rfl, here, Function.update_self]
        exact pack.brings writes
      · cases m.tagWrite true <;> simpa [Function.update_of_ne here] using tagged.tags slot

theorem tagged_next (tagged : c.Tagged size) (pack : Pack size m c.walk) :
    (c.next mainWords i m).Tagged size := by
  constructor
  · exact tags_next tagged pack
  · intro slot hit looked
    change (c.walk.next mainWords i m c.store).looked = true at looked
    change (c.walk.next mainWords i m c.store).hitQ slot = true at hit
    change (c.walk.next mainWords i m c.store).block.toNat < size
    obtain ⟨-, same, lba⟩ := Walk.next_looked looked
    have followed : (c.walk.next mainWords i m c.store).lba =
        (c.walk.next mainWords i m c.store).block := by
      simp only [Walk.looked, Bool.and_eq_true, beq_iff_eq] at looked
      exact looked.2
    have hits : c.store.valid slot = true ∧ c.store.tag slot = c.walk.reqTag := by
      unfold Walk.next at hit
      simpa using hit
    have below := tagged.tags slot hits.1
    rw [hits.2] at below
    rw [← followed, lba]
    rw [Walk.reqTag, BitVec.toNat_append] at below
    simpa using below
  · exact Walk.next_waiting

end Copying

/-- What stands while a START's pages move: no error yet, the page's first block, and the whole
pages with the disk they have left. -/
structure Opened (w : Walk) (l : Ledger) (disk : Disk) : Prop where
  calm : w.pastEnd = false ∧ w.nxm = false
  base : w.base.toNat = l.da.toNat + w.size * l.pages.length
  room : w.base.toNat ≤ 2 ^ 28
  bases : ∀ j p, l.pages[j]? = some p → p.base.toNat = l.da.toNat + w.size * j
  whole : ∀ p ∈ l.pages, p.Whole w.four w.writing l.start disk
  rest : ∀ b : BitVec 28, b.toNat < l.da.toNat ∨ w.base.toNat ≤ b.toNat → disk b = l.start b
  reads : w.writing = false → disk = l.start

/-- Where a START stops short: the block that failed, the blocks before it charged, and on a write
stored, and none from it on touched. -/
structure Stops (w : Walk) (l : Ledger) (disk : Disk) (got : List (BitVec 28 × BitVec 40))
    (owed : Nat) : Prop where
  block : w.k.toNat < w.size
  charges : owed = w.size * l.pages.length + w.k.toNat
  da : w.cur.toNat = l.da.toNat + owed
  stored : w.writing = true →
    got.map Prod.fst = (List.range got.length).map (fun n => w.page ++ BitVec.ofNat 10 n) ∧
      1024 * w.k.toNat ≤ w.size * got.length ∧
      ∀ j, j < 1024 * w.k.toNat →
        diskByte disk w.base j = memByte w.four (Copying.word got) j
  rest : ∀ b : BitVec 28, b.toNat < l.da.toNat ∨ w.cur.toNat ≤ b.toNat → disk b = l.start b

/-- How a START ends: every page moved, a block past the end, or an entry or its page past main
memory. -/
inductive Ending (mainWords size : Nat) (w : Walk) (l : Ledger) (disk : Disk)
    (got : List (BitVec 28 × BitVec 40)) (owed : Nat) : Prop
  | done (flags : w.pastEnd = false ∧ w.nxm = false) (last : w.more = false)
      (pages : 0 < l.pages.length) (all : owed = w.size * l.pages.length)
      (da : w.cur.toNat + 1 = l.da.toNat + owed)
      (rest : ∀ b : BitVec 28, b.toNat < l.da.toNat ∨ w.cur.toNat < b.toNat →
        disk b = l.start b)
  | pastEnd (flags : w.pastEnd = true ∧ w.nxm = false)
      (beyond : 2 ^ 28 ≤ w.cur.toNat ∨ size ≤ w.cur.toNat) (stops : Stops w l disk got owed)
  | nxm (flags : w.pastEnd = false ∧ w.nxm = true)
      (beyond : mainWords ≤ w.ccwAddr.toNat ∨ mainWords ≤ (w.page ++ 0#10).toNat)
      (first : w.k = 0) (stops : Stops w l disk got owed)

/-- What a START leaves. -/
structure Left (mainWords size : Nat) (w : Walk) (l : Ledger) (disk : Disk)
    (got : List (BitVec 28 × BitVec 40)) (owed : Nat) : Prop where
  bases : ∀ j p, l.pages[j]? = some p → p.base.toNat = l.da.toNat + w.size * j
  whole : ∀ p ∈ l.pages, p.Whole w.four w.writing l.start disk
  out : l.out = l.written w.writing
  reads : w.writing = false → disk = l.start
  ends : Ending mainWords size w l disk got owed

/-- `V_CCW`. -/
structure Entering (c : Copying) (l : Ledger) : Prop where
  opened : Opened c.walk l c.disk
  first : c.walk.k = 0
  tally : l.charges + c.walk.charge.toNat = c.walk.size * l.pages.length
  out : l.out = l.written c.walk.writing
  asked : c.walk.dReq = true → c.walk.dWrite = false

/-- `V_GLOOK` and `V_GWAIT`: the page's blocks before this one found. -/
structure Finding (size : Nat) (c : Copying) (l : Ledger) : Prop where
  opened : Opened c.walk l c.before
  kept : c.disk = c.before
  tally : l.charges + c.walk.charge.toNat = c.walk.size * l.pages.length + c.walk.k.toNat
  out : l.out = l.written false
  found : ∀ p, p < c.walk.k.toNat → c.walk.base.toNat + p < 2 ^ 28 ∧ c.walk.base.toNat + p < size

/-- A read with all its page's blocks found. -/
structure Fetching (size : Nat) (c : Copying) (l : Ledger) : Prop where
  opened : Opened c.walk l c.before
  kept : c.disk = c.before
  tally : l.charges + c.walk.charge.toNat = c.walk.size * l.pages.length + c.walk.size
  out : l.out = l.written false ++ c.sent
  found : ∀ p, p < c.walk.size → c.walk.base.toNat + p < 2 ^ 28 ∧ c.walk.base.toNat + p < size

/-- A write's page, its blocks before this one stored. -/
structure Storing (c : Copying) (l : Ledger) : Prop where
  opened : Opened c.walk l c.before
  tally : l.charges + c.walk.charge.toNat = c.walk.size * l.pages.length + c.walk.k.toNat
  out : l.out = []
  below : c.walk.base.toNat + c.walk.k.toNat ≤ 2 ^ 28
  inside : c.walk.v = .write → c.walk.base.toNat + c.walk.k.toNat < 2 ^ 28

/-- The books at a clock. -/
structure Booked (mainWords size : Nat) (c : Copying) (l : Ledger) : Prop where
  counts : l.starts = l.fins + c.walk.fin.toNat + if c.walk.v = .idle then 0 else 1
  fin : c.walk.fin = true →
    c.walk.v = .idle ∧ Left mainWords size c.walk l c.disk c.got l.charges
  idle : c.walk.v = .idle → c.walk.dReq = false ∧ c.walk.charge = false
  entry : c.walk.v = .ccw → Entering c l
  gather : c.walk.v = .glook ∨ c.walk.v = .gwait → Finding size c l
  fetch : c.walk.v = .look ∨ c.walk.v = .wait ∨ c.walk.v = .read → c.walk.writing = false →
    Fetching size c l
  store : c.walk.v = .look ∨ c.walk.v = .wait ∨ c.walk.v = .write → c.walk.writing = true →
    Storing c l
  ended : c.walk.v = .ended → c.walk.dReq = false ∧
    Left mainWords size c.walk l c.disk c.got (l.charges + c.walk.charge.toNat)

section Books

variable {mainWords size : Nat} {c : Copying} {l : Ledger}

theorem Booked.busy (booked : Booked mainWords size c l) (busy : c.walk.v ≠ .idle) :
    c.walk.fin = false ∧ l.starts = l.fins + 1 := by
  have quiet : c.walk.fin = false := by
    cases fin : c.walk.fin with
    | false => rfl
    | true => exact absurd (booked.fin fin).1 busy
  have counts := booked.counts
  rw [quiet, if_neg busy] at counts
  exact ⟨quiet, counts⟩

section

variable (quiet : c.walk.fin = false) (counts : l.starts = l.fins + 1)

include quiet counts

theorem Booked.of_entry (place : c.walk.v = .ccw) (entry : Entering c l) : Booked mainWords size c l := by
  constructor <;> simp [place, quiet, counts, entry]

theorem Booked.of_gather (place : c.walk.v = .glook ∨ c.walk.v = .gwait) (gather : Finding size c l) :
    Booked mainWords size c l := by
  rcases place with place | place <;> constructor <;> simp [place, quiet, counts, gather]

theorem Booked.of_fetch (place : c.walk.v = .look ∨ c.walk.v = .wait ∨ c.walk.v = .read)
    (reads : c.walk.writing = false) (fetch : Fetching size c l) : Booked mainWords size c l := by
  rcases place with place | place | place <;> constructor <;>
    simp [place, quiet, counts, reads, fetch]

theorem Booked.of_store (place : c.walk.v = .look ∨ c.walk.v = .wait ∨ c.walk.v = .write)
    (writes : c.walk.writing = true) (store : Storing c l) : Booked mainWords size c l := by
  rcases place with place | place | place <;> constructor <;>
    simp [place, quiet, counts, writes, store]

theorem Booked.of_ended (place : c.walk.v = .ended) (free : c.walk.dReq = false)
    (left : Left mainWords size c.walk l c.disk c.got (l.charges + c.walk.charge.toNat)) :
    Booked mainWords size c l := by
  constructor <;> simp [place, quiet, counts, free, left]

end

end Books

section Opening

variable {w x : Walk} {l k : Ledger} {disk : Disk}

/-- The registers a START's account is in. -/
def Walk.account (w : Walk) : Bool × Bool × Bool × Bool × BitVec 29 :=
  (w.pastEnd, w.nxm, w.writing, w.four, w.base)

/-- What a START has moved. -/
def Ledger.account (l : Ledger) : BitVec 28 × Disk × List Moved := (l.da, l.start, l.pages)

theorem Opened.stands (opened : Opened w l disk) (walk : x.account = w.account)
    (book : k.account = l.account) : Opened x k disk := by
  obtain ⟨pastEnd, nxm, writing, four, base⟩ : x.pastEnd = w.pastEnd ∧ x.nxm = w.nxm ∧
    x.writing = w.writing ∧ x.four = w.four ∧ x.base = w.base := by
    simpa [Walk.account] using walk
  obtain ⟨da, start, pages⟩ : k.da = l.da ∧ k.start = l.start ∧ k.pages = l.pages := by
    simpa [Ledger.account] using book
  have size : x.size = w.size := by
    unfold Walk.size
    rw [four]
  constructor
  · rw [pastEnd, nxm]
    exact opened.calm
  · rw [base, da, size, pages]
    exact opened.base
  · rw [base]
    exact opened.room
  · rw [pages, da, size]
    exact opened.bases
  · rw [pages, four, writing, start]
    exact opened.whole
  · rw [da, base, start]
    exact opened.rest
  · rw [writing, start]
    exact opened.reads

end Opening

end MuirFpga.Quux
