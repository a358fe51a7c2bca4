import MuirFpga.Quux.PageCodec

/-!
# The byte queue of the block walk

The walk beside a record of what it moves: the words it has written to memory and read from it
since its entry was taken, and the disk as the words it has handed its store leave it. The queue
holds the bytes that have gone in and not come out, so that every page ends with it empty.
-/

namespace MuirFpga.Quux

open Sync (Holds bits holds_zero)

/-- A word handed to the store goes into it this clock. -/
def Walk.issues (w : Walk) : Bool := w.v == .write && decide (4#4 ≤ w.sn) && !w.dReq

/-- The disk with the word that goes to the slot. -/
def Walk.given (w : Walk) (disk : Disk) : Disk :=
  Function.update disk w.block
    (Function.update (disk w.block) w.chW (w.sb.extractLsb' 0 32))

/-- The bytes a word of memory takes on the disk: `per_page`, and the blocks of a page. -/
def Walk.size (w : Walk) : Nat := if w.four then 4 else 5

/-- A word of the page as it comes off the disk, with its address. -/
def Walk.pageWord (w : Walk) (disk : Disk) (n : Nat) : BitVec 28 × BitVec 40 :=
  (w.page ++ BitVec.ofNat 10 n, memWord w.four (diskByte disk w.base) n)

/-- The walk and its store; the words written to memory and read from it since the entry; and the
disk now and as the entry found it. -/
structure Copying where
  store : BlockStore
  walk : Walk
  sent : List (BitVec 28 × BitVec 40)
  got : List (BitVec 28 × BitVec 40)
  disk : Disk
  before : Disk

namespace Copying

/-- The words read from memory, by number. -/
def word (got : List (BitVec 28 × BitVec 40)) (n : Nat) : BitVec 40 := (got.getD n (0, 0)).2

/-- A word of memory's request is done this clock. -/
def done (c : Copying) (i : WalkInput) (write : Bool) : Bool :=
  c.walk.dReq && i.dDone && c.walk.dWrite == write

/-- A clock of the walk and its store, and the record kept. -/
def next (mainWords : Nat) (i : WalkInput) (m : Seam) (c : Copying) : Copying where
  store := c.store.next i.rst m c.walk
  walk := c.walk.next mainWords i m c.store
  sent := if c.walk.v = .ccw then []
    else if c.done i true then c.sent ++ [(c.walk.dAddr, c.walk.dWdata)] else c.sent
  got := if c.walk.v = .ccw then []
    else if c.done i false then c.got ++ [(c.walk.dAddr, i.dRdata)] else c.got
  disk := if c.walk.issues && !i.rst then c.walk.given c.disk else c.disk
  before := if c.walk.v = .ccw then c.disk else c.before

/-- The pack side keeps what it is handed: the slot a read moves holds the block's words. -/
def Served (c : Copying) : Prop := c.walk.v = .read →
  ∀ word, c.store.ram (c.walk.chSlot ++ word) = c.disk c.walk.block word

end Copying

/-- A read's page with so many words of its blocks in the queue's past and so many words of
memory. -/
structure Fetched (w : Walk) (disk : Disk) (sent : List (BitVec 28 × BitVec 40))
    (taken popped : Nat) : Prop where
  reads : w.writing = false
  count : 4 * taken = w.size * popped + w.sn.toNat
  queue : Holds (bits (diskByte disk w.base)) (8 * (w.size * popped)) (8 * w.sn.toNat) w.sb
  block : w.k.toNat < w.size
  sent : sent = (List.range w.mw.toNat).map (w.pageWord disk)

/-- A write's page with so many words of its blocks handed over. -/
structure Stored (w : Walk) (disk before : Disk) (got : List (BitVec 28 × BitVec 40))
    (given : Nat) : Prop where
  writes : w.writing = true
  count : w.size * got.length = 4 * given + w.sn.toNat
  short : w.sn.toNat < 4 + w.size
  block : w.k.toNat < w.size
  places : got.map Prod.fst = (List.range got.length).map fun n => w.page ++ BitVec.ofNat 10 n
  place : w.mw = BitVec.ofNat 10 got.length
  queue : Holds (bits (memByte w.four (Copying.word got))) (8 * (4 * given)) (8 * w.sn.toNat) w.sb
  laid : ∀ q, q < 256 * w.size → disk (pageBlock w.base (q / 256)) (BitVec.ofNat 8 (q % 256)) =
    if q < given then word32 (memByte w.four (Copying.word got)) q
    else before (pageBlock w.base (q / 256)) (BitVec.ofNat 8 (q % 256))
  rest : ∀ b, (∀ p, p < w.size → b ≠ pageBlock w.base p) → disk b = before b

/-- `V_GLOOK` and `V_GWAIT`: nothing of the page has moved. -/
structure Gathering (w : Walk) (sent : List (BitVec 28 × BitVec 40)) : Prop where
  reads : w.writing = false
  free : w.dReq = false
  empty : w.sn = 0 ∧ w.sb = 0 ∧ w.mw = 0
  block : w.k.toNat < w.size
  sent : sent = []

/-- `V_LOOK` and `V_WAIT`: between two blocks. -/
structure Turning (w : Walk) (disk before : Disk) (sent got : List (BitVec 28 × BitVec 40)) :
    Prop where
  free : w.dReq = false
  fetched : w.writing = false → w.sn.toNat < w.size ∧
    Fetched w disk sent (256 * w.k.toNat) w.mw.toNat
  stored : w.writing = true → Stored w disk before got (256 * w.k.toNat)

/-- `V_READ`. -/
structure Reading (w : Walk) (disk : Disk) (sent : List (BitVec 28 × BitVec 40))
    (taken : BitVec 32) : Prop where
  fetched : Fetched w disk sent (256 * w.k.toNat + if w.drained then 256 else w.chW.toNat)
    (w.mw.toNat + w.dReq.toNat)
  asked : w.dReq = true → w.dWrite = true ∧ (w.dAddr, w.dWdata) = w.pageWord disk w.mw.toNat
  valid : w.rdValid = true → taken = disk w.block w.chW

/-- `V_WRITE`. -/
structure Writing (w : Walk) (disk before : Disk) (got : List (BitVec 28 × BitVec 40)) :
    Prop where
  stored : Stored w disk before got (256 * w.k.toNat + w.chW.toNat)
  asked : w.dReq = true → w.sn.toNat < 4 ∧ w.dWrite = false ∧ w.dAddr = w.page ++ w.mw

/-- What every clock keeps. -/
structure Copying.Sound (c : Copying) : Prop where
  queue : c.walk.sn.toNat ≤ 8
  port : c.walk.v = .read → c.walk.chbWe = false
  gather : c.walk.v = .glook ∨ c.walk.v = .gwait → Gathering c.walk c.sent
  turn : c.walk.v = .look ∨ c.walk.v = .wait → Turning c.walk c.disk c.before c.sent c.got
  read : c.walk.v = .read → Reading c.walk c.disk c.sent c.store.chbQ
  write : c.walk.v = .write → Writing c.walk c.disk c.before c.got

section Parts

variable {w : Walk}

theorem size_cases (w : Walk) :
    w.four = true ∧ w.size = 4 ∧ w.perPage = 4#3 ∨ w.four = false ∧ w.size = 5 ∧ w.perPage = 5#3 := by
  unfold Walk.size Walk.perPage
  cases w.four with
  | true => exact Or.inl ⟨rfl, rfl, rfl⟩
  | false => exact Or.inr ⟨rfl, rfl, rfl⟩

theorem byte_shift (count : BitVec 4) : (count ++ 0#3).toNat = 8 * count.toNat := by
  rw [BitVec.toNat_append, Nat.shiftLeft_eq]
  simp
  omega

theorem block_eq (w : Walk) : w.block = pageBlock w.base w.k.toNat := by
  unfold Walk.block Walk.cur pageBlock
  rw [BitVec.ofNat_toNat]

theorem pageBlock_inj {base : BitVec 29} {p q : Nat} (left : p < 5) (right : q < 5)
    (same : pageBlock base p = pageBlock base q) : p = q := by
  have values := congrArg BitVec.toNat same
  unfold pageBlock at values
  simp only [BitVec.extractLsb'_toNat, BitVec.toNat_add, BitVec.toNat_ofNat] at values
  omega

theorem next_block (inside : w.k.toNat < w.size) (further : w.k ≠ w.perPage - 1) :
    (w.k + 1).toNat = w.k.toNat + 1 ∧ w.k.toNat + 1 < w.size := by
  have apart : w.k.toNat ≠ (w.perPage - 1).toNat := fun same => further (BitVec.eq_of_toNat_eq same)
  rw [BitVec.toNat_add]
  rcases size_cases w with ⟨-, size, per⟩ | ⟨-, size, per⟩ <;> rw [size] at inside ⊢ <;>
    rw [per] at apart
  · rw [show (4#3 - 1).toNat = 3 from rfl] at apart
    change (w.k.toNat + 1) % 8 = _ ∧ _
    omega
  · rw [show (5#3 - 1).toNat = 4 from rfl] at apart
    change (w.k.toNat + 1) % 8 = _ ∧ _
    omega

theorem next_word {word : BitVec 8} (further : word ≠ 255#8) :
    (word + 1).toNat = word.toNat + 1 := by
  have apart : word.toNat ≠ 255 := fun same => further (BitVec.eq_of_toNat_eq same)
  rw [BitVec.toNat_add]
  change (word.toNat + 1) % 256 = _
  omega

theorem next_mw {mw : BitVec 10} (further : mw ≠ 1023#10) : (mw + 1).toNat = mw.toNat + 1 := by
  have apart : mw.toNat ≠ 1023 := fun same => further (BitVec.eq_of_toNat_eq same)
  rw [BitVec.toNat_add]
  change (mw.toNat + 1) % 1024 = _
  omega

theorem taken_next (undrained : w.drained = false) :
    (if (if w.chW = 255#8 then true else w.drained) = true then 256
      else (if w.chW = 255#8 then w.chW else w.chW + 1).toNat) = w.chW.toNat + 1 := by
  by_cases last : w.chW = 255#8
  · rw [if_pos last, if_pos rfl, last]
    rfl
  · rw [if_neg last, undrained, if_neg Bool.false_ne_true, if_neg last]
    exact next_word last

theorem page_ends {v : WalkState} {more : Bool} (ends : v = if more then .ccw else .ended) :
    v = .idle ∨ v = .ccw ∨ v = .ended := by
  cases more with
  | false => exact Or.inr (Or.inr ends)
  | true => exact Or.inr (Or.inl ends)

theorem perPage_wide (w : Walk) : (w.perPage.setWidth 4).toNat = w.size := by
  rcases size_cases w with ⟨-, size, per⟩ | ⟨-, size, per⟩
  · rw [size, per]
    rfl
  · rw [size, per]
    rfl

end Parts

section Stands

variable {w x : Walk} {disk before : Disk} {sent got : List (BitVec 28 × BitVec 40)}

/-- The registers a page's progress is in. -/
def Walk.progress (w : Walk) : Bool × Bool × BitVec 18 × BitVec 29 × BitVec 3 × BitVec 10 ×
    BitVec 64 × BitVec 4 :=
  (w.writing, w.four, w.page, w.base, w.k, w.mw, w.sb, w.sn)

theorem progress_eq (same : x.progress = w.progress) : x.writing = w.writing ∧ x.four = w.four ∧
    x.page = w.page ∧ x.base = w.base ∧ x.k = w.k ∧ x.mw = w.mw ∧ x.sb = w.sb ∧ x.sn = w.sn ∧
    x.size = w.size := by
  have parts := same
  simp only [Walk.progress, Prod.mk.injEq] at parts
  obtain ⟨writing, four, page, base, k, mw, sb, sn⟩ := parts
  exact ⟨writing, four, page, base, k, mw, sb, sn, by rw [Walk.size, four, Walk.size]⟩

theorem Fetched.stands {taken popped : Nat} (fetched : Fetched w disk sent taken popped)
    (same : x.progress = w.progress) : Fetched x disk sent taken popped := by
  obtain ⟨writing, four, page, base, k, mw, sb, sn, size⟩ := progress_eq same
  have words : x.pageWord disk = w.pageWord disk := by
    funext n
    unfold Walk.pageWord
    rw [four, page, base]
  constructor
  · exact writing.trans fetched.reads
  · rw [size, sn]
    exact fetched.count
  · rw [base, size, sn, sb]
    exact fetched.queue
  · rw [k, size]
    exact fetched.block
  · rw [mw, words]
    exact fetched.sent

theorem Stored.stands {given : Nat} (stored : Stored w disk before got given)
    (same : x.progress = w.progress) : Stored x disk before got given := by
  obtain ⟨writing, four, page, base, k, mw, sb, sn, size⟩ := progress_eq same
  constructor
  · exact writing.trans stored.writes
  · rw [size, sn]
    exact stored.count
  · rw [size, sn]
    exact stored.short
  · rw [k, size]
    exact stored.block
  · rw [page]
    exact stored.places
  · exact mw.trans stored.place
  · rw [four, sn, sb]
    exact stored.queue
  · rw [size, base, four]
    exact stored.laid
  · rw [size, base]
    exact stored.rest

theorem Turning.stands (turn : Turning w disk before sent got) (same : x.progress = w.progress)
    (free : x.dReq = false) : Turning x disk before sent got := by
  obtain ⟨writing, four, -, -, k, mw, -, sn⟩ : x.writing = w.writing ∧ x.four = w.four ∧
    x.page = w.page ∧ x.base = w.base ∧ x.k = w.k ∧ x.mw = w.mw ∧ x.sb = w.sb ∧ x.sn = w.sn := by
    simpa [Walk.progress] using same
  have size : x.size = w.size := by
    unfold Walk.size
    rw [four]
  constructor
  · exact free
  · intro reads
    obtain ⟨short, fetched⟩ := turn.fetched (writing.symm.trans reads)
    rw [size, sn, k, mw]
    exact ⟨short, fetched.stands same⟩
  · intro writes
    rw [k]
    exact (turn.stored (writing.symm.trans writes)).stands same

end Stands

section Queue

variable {w : Walk} {disk : Disk} {sent : List (BitVec 28 × BitVec 40)} {taken popped : Nat}

theorem Fetched.front (fetched : Fetched w disk sent taken popped)
    (enough : w.size ≤ w.sn.toNat) :
    (if w.four then 5#8 ++ w.sb.extractLsb' 0 32 else w.sb.extractLsb' 0 40) =
      memWord w.four (diskByte disk w.base) popped := by
  have queue := fetched.queue
  unfold memWord
  rcases size_cases w with ⟨four, size, -⟩ | ⟨four, size, -⟩
  · rw [four, if_pos rfl, if_pos rfl]
    rw [size] at queue enough
    have word : w.sb.extractLsb' 0 32 = word32 (diskByte disk w.base) popped := by
      apply BitVec.eq_of_getLsbD_eq
      intro t inside
      rw [queue.front (by omega) inside, word32_bit inside]
      congr 1
      omega
    rw [word]
  · rw [four, if_neg Bool.false_ne_true, if_neg Bool.false_ne_true]
    rw [size] at queue enough
    apply BitVec.eq_of_getLsbD_eq
    intro t inside
    rw [queue.front (by omega) inside, word40_bit inside]
    congr 1
    omega

theorem Fetched.pop (fetched : Fetched w disk sent taken popped) (enough : w.size ≤ w.sn.toNat) :
    Holds (bits (diskByte disk w.base)) (8 * (w.size * (popped + 1)))
        (8 * (w.sn - w.perPage.setWidth 4).toNat)
        (if w.four then w.sb >>> 32 else w.sb >>> 40) ∧
      4 * taken = w.size * (popped + 1) + (w.sn - w.perPage.setWidth 4).toNat := by
  have wide : (w.perPage.setWidth 4).toNat = w.size := perPage_wide w
  have less : (w.sn - w.perPage.setWidth 4).toNat = w.sn.toNat - w.size := by
    rw [BitVec.toNat_sub_of_le (BitVec.le_def.mpr (wide ▸ enough)), wide]
  have queue := fetched.queue
  have count := fetched.count
  rw [less]
  rcases size_cases w with ⟨four, size, -⟩ | ⟨four, size, -⟩
  · rw [four, if_pos rfl]
    rw [size] at queue enough count ⊢
    refine ⟨?_, by omega⟩
    rw [show 8 * (4 * (popped + 1)) = 8 * (4 * popped) + 32 by omega,
      show 8 * (w.sn.toNat - 4) = 8 * w.sn.toNat - 32 by omega]
    exact queue.pop (by omega)
  · rw [four, if_neg Bool.false_ne_true]
    rw [size] at queue enough count ⊢
    refine ⟨?_, by omega⟩
    rw [show 8 * (5 * (popped + 1)) = 8 * (5 * popped) + 40 by omega,
      show 8 * (w.sn.toNat - 5) = 8 * w.sn.toNat - 40 by omega]
    exact queue.pop (by omega)

theorem Fetched.push (fetched : Fetched w disk sent taken popped) (short : w.sn.toNat < w.size) :
    Holds (bits (diskByte disk w.base)) (8 * (w.size * popped)) (8 * (w.sn + 4).toNat)
        (w.sb ||| ((disk (pageBlock w.base (taken / 256)) (BitVec.ofNat 8 (taken % 256))).setWidth 64
          <<< (w.sn ++ 0#3))) ∧
      4 * (taken + 1) = w.size * popped + (w.sn + 4).toNat ∧ (w.sn + 4).toNat ≤ 8 := by
  have count := fetched.count
  have small : w.size ≤ 5 := by
    rcases size_cases w with ⟨-, size, -⟩ | ⟨-, size, -⟩ <;> omega
  have more : (w.sn + 4).toNat = w.sn.toNat + 4 := by
    rw [BitVec.toNat_add]
    change (w.sn.toNat + 4) % 16 = _
    omega
  rw [more]
  refine ⟨?_, by omega, by omega⟩
  rw [BitVec.shiftLeft_eq', byte_shift, show 8 * (w.sn.toNat + 4) = 8 * w.sn.toNat + 32 by omega]
  apply fetched.queue.push
  · intro t inside
    rw [show 8 * (w.size * popped) + 8 * w.sn.toNat + t = 32 * taken + t by omega]
    exact (disk_bit inside).symm
  · omega

theorem Fetched.unfinished (fetched : Fetched w disk sent
    (256 * w.k.toNat + 256) w.mw.toNat) (last : w.k = w.perPage - 1) :
    ¬ w.sn.toNat < w.size := by
  intro short
  have count := fetched.count
  have bound : w.mw.toNat < 1024 := w.mw.isLt
  rcases size_cases w with ⟨-, size, per⟩ | ⟨-, size, per⟩
  · rw [last, per, size] at count
    change 4 * (256 * 3 + 256) = _ at count
    omega
  · rw [last, per, size] at count
    change 4 * (256 * 4 + 256) = _ at count
    omega

theorem memByte_append {four : Bool} {got : List (BitVec 28 × BitVec 40)}
    {last : BitVec 28 × BitVec 40} {j : Nat} (inside : j < (if four then 4 else 5) * got.length) :
    memByte four (Copying.word (got ++ [last])) j = memByte four (Copying.word got) j := by
  have stands : ∀ n, n < got.length →
      Copying.word (got ++ [last]) n = Copying.word got n := by
    intro n below
    unfold Copying.word
    rw [List.getD_eq_getElem?_getD, List.getD_eq_getElem?_getD, List.getElem?_append_left below]
  unfold memByte
  cases four with
  | false =>
    rw [if_neg Bool.false_ne_true] at inside ⊢
    rw [if_neg Bool.false_ne_true, stands _ (by omega)]
  | true =>
    rw [if_pos rfl] at inside ⊢
    rw [if_pos rfl, stands _ (by omega)]

variable {before : Disk} {got : List (BitVec 28 × BitVec 40)} {given : Nat}

theorem Stored.front (stored : Stored w disk before got given) (enough : 4 ≤ w.sn.toNat) :
    w.sb.extractLsb' 0 32 = word32 (memByte w.four (Copying.word got)) given := by
  apply BitVec.eq_of_getLsbD_eq
  intro t inside
  rw [stored.queue.front (by omega) inside, word32_bit inside]
  congr 1
  omega

theorem Stored.give (stored : Stored w disk before got (256 * w.k.toNat + w.chW.toNat))
    (enough : 4 ≤ w.sn.toNat) :
    Stored w.handed (w.given disk) before got
      (256 * w.k.toNat + w.chW.toNat + 1) := by
  have count := stored.count
  have short := stored.short
  have word := stored.front enough
  have inside : w.chW.toNat < 256 := w.chW.isLt
  have small : w.size ≤ 5 := by
    rcases size_cases w with ⟨-, size, -⟩ | ⟨-, size, -⟩ <;> omega
  have less : (w.sn - 4).toNat = w.sn.toNat - 4 :=
    BitVec.toNat_sub_of_le (BitVec.le_def.mpr enough)
  constructor
  · exact stored.writes
  · change w.size * got.length = _ + (w.sn - 4).toNat
    omega
  · change (w.sn - 4).toNat < 4 + w.size
    omega
  · exact stored.block
  · exact stored.places
  · exact stored.place
  · change Holds _ _ (8 * (w.sn - 4).toNat) (w.sb >>> 32)
    rw [less, show 8 * (4 * (256 * w.k.toNat + w.chW.toNat + 1)) =
      8 * (4 * (256 * w.k.toNat + w.chW.toNat)) + 32 by omega,
      show 8 * (w.sn.toNat - 4) = 8 * w.sn.toNat - 32 by omega]
    exact stored.queue.pop (by omega)
  · intro q below
    change q < 256 * w.size at below
    have laid := stored.laid q below
    have block : w.k.toNat < w.size := stored.block
    change w.given disk (pageBlock w.base (q / 256)) _ =
      if _ then word32 (memByte w.four _) q else before (pageBlock w.base (q / 256)) _
    unfold Walk.given
    rw [block_eq]
    by_cases here : q = 256 * w.k.toNat + w.chW.toNat
    · rw [if_pos (by omega), here,
        show (256 * w.k.toNat + w.chW.toNat) / 256 = w.k.toNat by omega,
        show (256 * w.k.toNat + w.chW.toNat) % 256 = w.chW.toNat by omega,
        BitVec.ofNat_toNat, BitVec.setWidth_eq, Function.update_self, Function.update_self]
      exact word
    · have kept : Function.update disk (pageBlock w.base w.k.toNat)
          (Function.update (disk (pageBlock w.base w.k.toNat)) w.chW (w.sb.extractLsb' 0 32))
          (pageBlock w.base (q / 256)) (BitVec.ofNat 8 (q % 256)) =
            disk (pageBlock w.base (q / 256)) (BitVec.ofNat 8 (q % 256)) := by
        by_cases other : q / 256 = w.k.toNat
        · rw [other, Function.update_self]
          apply Function.update_of_ne
          intro same
          have values := congrArg BitVec.toNat same
          rw [BitVec.toNat_ofNat] at values
          omega
        · rw [Function.update_of_ne]
          intro same
          exact other (pageBlock_inj (by omega) (by omega) same)
      rw [kept, laid]
      by_cases early : q < 256 * w.k.toNat + w.chW.toNat
      · rw [if_pos early, if_pos (by omega)]
      · rw [if_neg early, if_neg (by omega)]
  · intro b apart
    have off : b ≠ pageBlock w.base w.k.toNat := apart w.k.toNat stored.block
    unfold Walk.given
    rw [block_eq, Function.update_of_ne off]
    exact stored.rest b apart

theorem Stored.bytes (stored : Stored w disk before got given) {j : Nat}
    (inside : j < 1024 * w.size) (early : j / 4 < given) :
    diskByte disk w.base j = memByte w.four (Copying.word got) j := by
  have laid := stored.laid (j / 4) (by omega)
  rw [if_pos early] at laid
  unfold diskByte
  rw [show j / 1024 = j / 4 / 256 by omega, laid, word32_byte (Nat.mod_lt j (by decide)),
    Nat.div_add_mod]

theorem Stored.others {k : Nat} (stored : Stored w disk before got (256 * k)) {b : BitVec 28}
    (apart : ∀ r, r < k → b ≠ pageBlock w.base r) : disk b = before b := by
  by_cases within : ∃ r, r < w.size ∧ b = pageBlock w.base r
  · obtain ⟨r, inside, rfl⟩ := within
    have late : k ≤ r := by
      apply Nat.le_of_not_lt
      intro early
      exact apart r early rfl
    funext word
    have bound : word.toNat < 256 := word.isLt
    have laid := stored.laid (256 * r + word.toNat) (by omega)
    rw [if_neg (by omega), show (256 * r + word.toNat) / 256 = r by omega,
      show (256 * r + word.toNat) % 256 = word.toNat by omega, BitVec.ofNat_toNat,
      BitVec.setWidth_eq] at laid
    exact laid
  · apply stored.rest
    intro r inside same
    exact within ⟨r, inside, same⟩

/-- The registers a word read from memory leaves. -/
def took (w : Walk) (rdata : BitVec 40) : Walk :=
  { w.pulses with
    dReq := false
    sb := w.sb ||| ((if w.four then (rdata.extractLsb' 0 32).setWidth 64
      else rdata.setWidth 64) <<< (w.sn ++ 0#3))
    sn := w.sn + w.perPage.setWidth 4, mw := w.mw + 1 }

theorem Stored.take (stored : Stored w disk before got given) (short : w.sn.toNat < 4)
    (rdata : BitVec 40) :
    Stored (took w rdata) disk before (got ++ [(w.page ++ w.mw, rdata)]) given := by
  have count := stored.count
  have wide : (w.perPage.setWidth 4).toNat = w.size := perPage_wide w
  have small : w.size ≤ 5 ∧ 4 ≤ w.size := by
    rcases size_cases w with ⟨-, size, -⟩ | ⟨-, size, -⟩ <;> omega
  have more : (w.sn + w.perPage.setWidth 4).toNat = w.sn.toNat + w.size := by
    rw [BitVec.toNat_add, wide]
    change (w.sn.toNat + w.size) % 16 = _
    omega
  have due : (if w.four then 4 else 5) * got.length = 4 * given + w.sn.toNat := count
  constructor
  · exact stored.writes
  · change w.size * (got ++ [_]).length = 4 * given + (w.sn + w.perPage.setWidth 4).toNat
    rw [more, List.length_append, List.length_singleton, Nat.mul_add, Nat.mul_one]
    omega
  · change (w.sn + w.perPage.setWidth 4).toNat < 4 + w.size
    omega
  · exact stored.block
  · rw [List.map_append, stored.places, List.length_append, List.length_singleton,
      List.range_succ, List.map_append, stored.place]
    rfl
  · change w.mw + 1 = _
    rw [stored.place, List.length_append, List.length_singleton, BitVec.ofNat_add]
    rfl
  · have held : Holds (bits (memByte w.four (Copying.word (got ++ [(w.page ++ w.mw, rdata)]))))
        (8 * (4 * given)) (8 * w.sn.toNat) w.sb := by
      apply stored.queue.congr
      intro j inside
      unfold bits
      rw [memByte_append]
      omega
    change Holds (bits (memByte w.four _)) _ (8 * (w.sn + w.perPage.setWidth 4).toNat)
      (w.sb ||| (_ <<< (w.sn ++ 0#3)))
    rw [more, BitVec.shiftLeft_eq', byte_shift]
    have last : Copying.word (got ++ [(w.page ++ w.mw, rdata)]) got.length = rdata := by
      unfold Copying.word
      simp
    rcases size_cases w with ⟨four, size, -⟩ | ⟨four, size, -⟩
    · rw [four] at held ⊢
      rw [size] at count ⊢
      rw [if_pos rfl, show 8 * (w.sn.toNat + 4) = 8 * w.sn.toNat + 32 by omega]
      apply held.push
      · intro t inside
        rw [show 8 * (4 * given) + 8 * w.sn.toNat + t = 32 * got.length + t by omega,
          low_bit inside, last, BitVec.getLsbD_extractLsb']
        simp [inside]
      · omega
    · rw [four] at held ⊢
      rw [size] at count ⊢
      rw [if_neg Bool.false_ne_true, show 8 * (w.sn.toNat + 5) = 8 * w.sn.toNat + 40 by omega]
      apply held.push
      · intro t inside
        rw [show 8 * (4 * given) + 8 * w.sn.toNat + t = 40 * got.length + t by omega,
          packed_bit inside, last]
      · omega
  · intro q below
    change disk (pageBlock w.base (q / 256)) _ =
      if _ then word32 (memByte w.four _) q else before (pageBlock w.base (q / 256)) _
    rw [stored.laid q below]
    by_cases early : q < given
    · rw [if_pos early, if_pos early]
      unfold word32
      rw [memByte_append (by omega), memByte_append (by omega), memByte_append (by omega),
        memByte_append (by omega)]
    · rw [if_neg early, if_neg early]
  · exact stored.rest

end Queue

end MuirFpga.Quux
