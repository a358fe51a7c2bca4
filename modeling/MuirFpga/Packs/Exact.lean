import MuirFpga.Packs.Moving

/-!
# What every run of moves does

From where a move stands: what it has read, laid and sent is the record's and nothing else, at
every clock; a slot it took away is empty until it is tagged; what it offers the memory port stands
until it is taken and no burst is left open; a go finds a clean master; and a move ends if the
port answers.
-/

namespace MuirFpga.Packs.DiskPack

open Transfer (Lawful Timely)
open Sync

variable {c : Config} {e : Clock c} {s : Transfer c}

/-- What a move has done, at any clock of it or after. -/
structure Exact (s : Transfer c) : Prop where
  fetch : s.move.errand = .fetch → Filled s.move ∧ s.move.reads.length ≤ 9 ∧
    s.move.reads = burstsOf s.move.base s.move.reads.length ∧
    s.move.writes = [] ∧ s.move.sends = []
  back : s.move.errand = .back → s.move.writes.length ≤ 9 ∧
    s.move.writes = burstsOf s.move.base s.move.writes.length ∧ s.move.sends.length ≤ 130 ∧
    s.move.sends = sendings s.move.seen s.move.sends.length ∧
    2 * s.move.sends.length ≤ s.move.seen.length ∧ s.move.deposits = [] ∧ s.move.reads = []
  away : s.move.errand = .away →
    (s.move.deposits = [] ∨ s.move.deposits = [takenAway s.move.slot]) ∧
    s.move.reads = [] ∧ s.move.writes = [] ∧ s.move.sends = []
  dropped : s.move.dropped = true → s.pack.mover.done = false
  beyond : s.pack.mover.pst = .idle → InIdle s.pack.mover s.port s.move

theorem Fetching.exact {m : Mover} {p : Owed} {d : Move} {bursts words : Nat}
    (fetching : Fetching m p d bursts words) (few : bursts ≤ 9) (inside : words ≤ 259)
    (came : words ≤ 2 * d.beats.length) : Filled d ∧ d.reads.length ≤ 9 ∧
      d.reads = burstsOf d.base d.reads.length ∧ d.writes = [] ∧ d.sends = [] := by
  have length : d.reads.length = bursts := by simp [fetching.reads, burstsOf]
  refine ⟨Or.inr (Or.inl ⟨words, inside, came, fetching.deposits⟩), by omega, ?_, fetching.aside⟩
  rw [length]
  exact fetching.reads

theorem Returning.exact {m : Mover} {p : Owed} {d : Move} {bursts sends seen : Nat}
    (returning : Returning m p d bursts sends seen) (few : bursts ≤ 8) (inside : sends ≤ 130)
    (read : 2 * sends ≤ seen) : d.writes.length ≤ 9 ∧
      d.writes = burstsOf d.base d.writes.length ∧ d.sends.length ≤ 130 ∧
      d.sends = sendings d.seen d.sends.length ∧ 2 * d.sends.length ≤ d.seen.length ∧
      d.deposits = [] ∧ d.reads = [] := by
  obtain ⟨-, reads, -, deposits⟩ := returning.aside
  have bursts : d.writes.length = bursts + p.addressed.toNat := by
    simp [returning.writes, burstsOf]
  have count : d.sends.length = sends := by simp [returning.sends, sendings]
  have one := Bool.toNat_le p.addressed
  refine ⟨by omega, ?_, by omega, ?_, ?_, deposits, reads⟩
  · rw [bursts]
    exact returning.writes
  · rw [count]
    exact returning.sends
  · rw [count, returning.seen]
    exact read

theorem Standing.exact (standing : Standing s) : Exact s := by
  have stage := standing.stage
  have fetching {bursts words : Nat} (fetching : Fetching s.pack.mover s.port s.move bursts words)
      (few : bursts ≤ 9) (inside : words ≤ 259) (came : words ≤ 2 * s.move.beats.length)
      (running : s.pack.mover.pst ≠ .idle) : Exact s :=
    { fetch := fun _ => fetching.exact few inside came
      back := fun back => absurd (fetching.errand.symm.trans back) (by simp)
      away := fun away => absurd (fetching.errand.symm.trans away) (by simp)
      dropped := fun dropped => (standing.dropped dropped).1
      beyond := fun idle => absurd idle running }
  have returning {bursts sends seen : Nat}
      (returning : Returning s.pack.mover s.port s.move bursts sends seen)
      (few : bursts ≤ 8) (inside : sends ≤ 130) (read : 2 * sends ≤ seen)
      (running : s.pack.mover.pst ≠ .idle) : Exact s :=
    { fetch := fun fetch => absurd (returning.errand.symm.trans fetch) (by simp)
      back := fun _ => returning.exact few inside read
      away := fun away => absurd (returning.errand.symm.trans away) (by simp)
      dropped := fun dropped => (standing.dropped dropped).1
      beyond := fun idle => absurd idle running }
  have words {read : Nat} (words : InWords s.pack.mover s.port s.move read)
      (running : s.pack.mover.pst ≠ .idle) : Exact s := by
    have few := words.placed.burst
    have most := Mover.index_le words.placed words.inside
    exact returning words.returning few (by omega) (Nat.le_add_right _ _) running
  unfold Stage at stage
  cases place : s.pack.mover.pst with
  | idle =>
    rw [place] at stage
    have rest : InIdle s.pack.mover s.port s.move := stage
    exact
      { fetch := fun fetch =>
          have beyond := rest.fetched fetch
          ⟨beyond.filled, beyond.few, beyond.reads, beyond.aside⟩
        back := fun back => by
          have beyond := rest.returned back
          have count : s.move.sends.length = beatsOf s.move.writes.length := by
            rw [beyond.sends]
            simp [sendings]
          refine ⟨beyond.few, beyond.writes, ?_, ?_, ?_, beyond.aside.2.2, beyond.aside.1⟩
          · rw [count]
            exact beatsOf_le _
          · rw [count]
            exact beyond.sends
          · rw [count]
            exact beyond.read
        away := fun away =>
          have beyond := rest.emptied away
          ⟨beyond.deposits, beyond.aside.1, beyond.aside.2.2⟩
        dropped := fun dropped => (standing.dropped dropped).1
        beyond := fun _ => rest }
  | take =>
    rw [place] at stage
    have first : InTake s.pack.mover s.port s.move := stage
    obtain ⟨reads, -, deposits, writes, sends⟩ := first.blank
    exact
      { fetch := fun _ => ⟨Or.inl deposits, by simp [reads], by rw [reads]; rfl, writes, sends⟩
        back := fun back => absurd back first.errand
        away := fun _ => ⟨Or.inl deposits, reads, writes, sends⟩
        dropped := fun dropped => (standing.dropped dropped).1
        beyond := fun idle => absurd (place.symm.trans idle) (by simp) }
  | ar =>
    rw [place] at stage
    have here : InAr s.pack.mover s.port s.move := stage
    have few := here.placed.burst
    have before := here.placed.before
    have count := here.fetching.count
    rw [here.whole] at count
    exact fetching here.fetching (by omega) (by omega) (by omega) (by simp [place])
  | r =>
    rw [place] at stage
    have here : InR s.pack.mover s.port s.move := stage
    have few := here.placed.burst
    have most := Mover.index_le here.placed here.inside
    have came := here.came
    refine fetching here.fetching (by omega) ?_ ?_ (by simp [place])
    · have one := Bool.toNat_le s.pack.mover.hiPending
      omega
    · cases hi : s.pack.mover.hiPending with
      | true =>
        simp only [hi, Bool.true_or, Bool.toNat_true] at came ⊢
        omega
      | false =>
        simp only [hi, Bool.toNat_false] at came ⊢
        omega
  | tag =>
    rw [place] at stage
    have here : InTag s.pack.mover s.port s.move := stage
    have count : s.move.beats.length + s.port.beats = 130 := here.fetching.count
    rw [here.whole] at count
    exact fetching here.fetching (Nat.le_refl 9) (Nat.le_refl 259) (by omega) (by simp [place])
  | aw =>
    rw [place] at stage
    have here : InAw s.pack.mover s.port s.move := stage
    have few := here.placed.burst
    exact returning here.returning few (by omega) (by omega) (by simp [place])
  | b =>
    rw [place] at stage
    have here : InB s.pack.mover s.port s.move := stage
    exact returning here.returning here.placed.burst (beatsOf_le _) (Nat.le_refl _)
      (by simp [place])
  | w0 =>
    rw [place] at stage
    unfold Words at stage
    rw [place] at stage
    exact words stage (by simp [place])
  | w1 =>
    rw [place] at stage
    unfold Words at stage
    rw [place] at stage
    exact words stage.1 (by simp [place])
  | w2 =>
    rw [place] at stage
    unfold Words at stage
    rw [place] at stage
    exact words stage.1 (by simp [place])
  | w3 =>
    rw [place] at stage
    unfold Words at stage
    rw [place] at stage
    exact words stage.1 (by simp [place])
  | w4 =>
    rw [place] at stage
    unfold Words at stage
    rw [place] at stage
    exact words stage.1 (by simp [place])
  | w5 =>
    rw [place] at stage
    unfold Words at stage
    rw [place] at stage
    exact words stage.1 (by simp [place])

/-- The last write of the move is at the store's port, and a slot it took away and did not tag is
empty, or is being emptied. -/
structure Void (s : Transfer c) : Prop where
  port : s.pack.mover.storeWe = true → s.move.deposits.getLast? =
    some ⟨s.pack.mover.storeSlot, s.pack.mover.storeAddr, s.pack.mover.storeWdata⟩
  empty : s.move.deposits ≠ [] → tagged s.move.slot s.move.tag ∉ s.move.deposits →
    s.store.valid s.move.slot = false ∨ s.pack.mover.storeWe = true ∧
      (⟨s.pack.mover.storeSlot, s.pack.mover.storeAddr, s.pack.mover.storeWdata⟩ : Deposit) =
        takenAway s.move.slot

theorem Exact.deposits (exact : Exact s) : s.move.deposits = [] ∨
    (∃ words, words ≤ 259 ∧
      s.move.deposits = filling s.move.slot s.move.beats words) ∨
    s.move.deposits = filling s.move.slot s.move.beats 259 ++
      [tagged s.move.slot s.move.tag] := by
  cases errand : s.move.errand with
  | fetch =>
    rcases (exact.fetch errand).1 with none | ⟨words, inside, -, deposits⟩ | ⟨-, -, -, deposits⟩
    · exact Or.inl none
    · exact Or.inr (Or.inl ⟨words, inside, deposits⟩)
    · exact Or.inr (Or.inr deposits)
  | back => exact Or.inl (exact.back errand).2.2.2.2.2.1
  | away =>
    rcases (exact.away errand).1 with none | one
    · exact Or.inl none
    · exact Or.inr (Or.inl ⟨0, Nat.zero_le 259, one⟩)

theorem Exact.tag_of_write (exact : Exact s) {deposit : Deposit}
    (mem : deposit ∈ s.move.deposits) {seam : Quux.Seam}
    (addr : seam.addr = deposit.place) (data : seam.wdata = deposit.word)
    (tag : seam.tagWrite false = true) : tagged s.move.slot s.move.tag ∈ s.move.deposits := by
  have filled {words : Nat} (inside : words ≤ 259)
      (mem : deposit ∈ filling s.move.slot s.move.beats words) : False := by
    simp only [Quux.Seam.tagWrite, Quux.Seam.beside, Bool.and_eq_true, beq_iff_eq] at tag
    obtain ⟨⟨⟨-, past⟩, place⟩, bit⟩ := tag
    rw [addr] at past place
    rw [data] at bit
    rcases List.mem_cons.1 mem with away | laid
    · rw [away] at bit
      simp [takenAway] at bit
    · obtain ⟨word, less, same⟩ := List.mem_map.1 laid
      have few : word < words := List.mem_range.1 less
      rw [← same] at past place
      dsimp only at past place
      have outside : ¬ word < 256 := fun small => by
        have under : BitVec.ofNat 9 word < 256#9 := by
          rw [BitVec.lt_def, BitVec.toNat_ofNat, Nat.mod_eq_of_lt (by omega)]
          exact small
        simp [under] at past
      obtain rfl | rfl | rfl : word = 256 ∨ word = 257 ∨ word = 258 := by omega
      · exact absurd place (by decide)
      · exact absurd place (by decide)
      · exact absurd place (by decide)
  rcases exact.deposits with none | ⟨words, inside, deposits⟩ | deposits
  · rw [none] at mem
    exact absurd mem (by simp)
  · rw [deposits] at mem
    exact (filled inside mem).elim
  · rw [deposits]
    simp

theorem Void.next (void : Void s) (standing : Standing s) (exact : Exact (s.next e))
    (live : e.input.rst = false) : Void (s.next e) := by
  have idle (taken : s.pack.accepts = true) : s.pack.mover.pst = .idle := standing.free taken
  have we : (s.next e).pack.mover.storeWe = s.pack.mover.seam.1 := by
    change (if e.input.rst = true then false else s.pack.mover.seam.1) = _
    rw [live]
    rfl
  cases taken : s.pack.accepts with
  | true =>
    have move : (s.next e).move = .begun s.pack.regs e.input.fabricRst := if_pos taken
    have quiet : s.pack.mover.seam.1 = false := by
      unfold Mover.seam
      simp [idle taken]
    exact
      { port := fun up => absurd up (by simp [we, quiet])
        empty := fun some_ => absurd (by rw [move]; rfl) some_ }
  | false =>
    have move : (s.next e).move =
      s.move.next e.input s.store s.pack.mover (s.next e).pack.mover := if_neg (by simp [taken])
    have deposits : (s.next e).move.deposits =
        if (s.next e).pack.mover.storeWe then
          s.move.deposits ++ [⟨(s.next e).pack.mover.storeSlot, (s.next e).pack.mover.storeAddr,
            (s.next e).pack.mover.storeWdata⟩]
        else s.move.deposits := by
      rw [move]
      rfl
    have slot : (s.next e).move.slot = s.move.slot := by rw [move]; rfl
    have tag : (s.next e).move.tag = s.move.tag := by rw [move]; rfl
    refine ⟨fun up => ?_, fun written untagged => ?_⟩
    · rw [deposits, if_pos up]
      simp
    · rw [slot, tag] at untagged
      rw [slot]
      by_cases before : s.move.deposits = []
      · have up : (s.next e).pack.mover.storeWe = true := by
          by_contra down
          rw [deposits, if_neg down] at written
          exact written before
        rw [deposits, if_pos up, before, List.nil_append] at untagged
        have one := exact.deposits
        rw [deposits, if_pos up, before, List.nil_append, slot, tag] at one
        refine Or.inr ⟨up, ?_⟩
        rcases one with none | ⟨words, -, filling⟩ | filling
        · simp at none
        · exact (List.cons.inj filling).1
        · exact absurd (by rw [filling]; simp) untagged
      · have kept : tagged s.move.slot s.move.tag ∉ s.move.deposits := fun mem => by
          refine untagged ?_
          rw [deposits]
          split_ifs
          · exact List.mem_append_left _ mem
          · exact mem
        refine Or.inl ?_
        change Disk.Store.validNext e.controller.rstQ s.seam s.store.valid s.move.slot = false
        have silent : s.seam.tagWrite false = false := by
          cases write : s.seam.tagWrite false with
          | false => rfl
          | true =>
            have we : s.pack.mover.storeWe = true := (Books.tagWrite_place write).1
            have mem := List.mem_of_getLast? (void.port we)
            exact absurd (standing.exact.tag_of_write mem rfl rfl write) kept
        unfold Disk.Store.validNext
        rw [silent]
        cases e.controller.rstQ with
        | true => rfl
        | false =>
          rcases void.empty before kept with empty | ⟨we, away⟩
          · cases s.seam.tagWrite true with
            | true =>
              by_cases same : s.move.slot = s.seam.slot
              · rw [same]
                exact Function.update_self ..
              · exact (Function.update_of_ne same ..).trans empty
            | false => exact empty
          · injection away with place at_ word
            have taking : s.seam.tagWrite true = true := by
              unfold Quux.Seam.tagWrite Quux.Seam.beside Transfer.seam
              simp [we, at_, word]
            rw [taking]
            have same : s.seam.slot = s.move.slot := place
            simp [same]

/-- What the master offers stands, unchanged, until it is taken. -/
structure Offers (e : Clock c) (s : Transfer c) : Prop where
  ar : s.pack.mover.arvalid = true → e.input.mArready = false →
    (s.next e).pack.mover.arvalid = true ∧
      (s.next e).pack.mover.burstAddr = s.pack.mover.burstAddr ∧
      (s.next e).pack.mover.len = s.pack.mover.len
  aw : s.pack.mover.awOn = true → e.input.mAwready = false →
    (s.next e).pack.mover.awOn = true ∧
      (s.next e).pack.mover.burstAddr = s.pack.mover.burstAddr ∧
      (s.next e).pack.mover.len = s.pack.mover.len
  w : s.pack.mover.wvalid = true → e.input.mWready = false →
    (s.next e).pack.mover.wvalid = true ∧
      (s.next e).pack.mover.wdata = s.pack.mover.wdata ∧
      (s.next e).pack.mover.wstrb = s.pack.mover.wstrb ∧
      (s.next e).pack.mover.lastBeat = s.pack.mover.lastBeat

theorem Standing.offers (standing : Standing s) (lawful : Lawful e s) : Offers e s := by
  have live := lawful.live
  have mover : (s.next e).pack.mover =
      s.pack.mover.next s.pack.accepts s.pack.regs s.store.rdata e.input := rfl
  refine ⟨fun offered waits => ?_, fun offered waits => ?_, fun offered waits => ?_⟩
  · have place : s.pack.mover.pst = .ar := by simpa [Mover.arvalid] using offered
    rw [mover, Mover.next_owed live (by simp [Mover.owed, place]) (by simp [place])]
    simp [Mover.draining, Mover.stateStep, place, waits, Mover.addressed, Mover.arvalid, Mover.len,
      Mover.last]
  · have owed : s.pack.mover.owed = true := by simp [Mover.owed, offered]
    have stage := standing.stage
    unfold Stage at stage
    have still : (s.pack.mover.addressed e.input).awOn = true := by
      simp [Mover.addressed, offered, waits]
    have goes (running : s.pack.mover.pst ≠ .idle) (awOn : (s.pack.mover.stateStep s.pack.accepts
        s.pack.regs s.store.rdata e.input (s.pack.mover.addressed e.input)).awOn = true)
        (addr : (s.pack.mover.stateStep s.pack.accepts s.pack.regs s.store.rdata e.input
          (s.pack.mover.addressed e.input)).burstAddr = s.pack.mover.burstAddr)
        (burst : (s.pack.mover.stateStep s.pack.accepts s.pack.regs s.store.rdata e.input
          (s.pack.mover.addressed e.input)).pBurst = s.pack.mover.pBurst) :
        (s.next e).pack.mover.awOn = true ∧
          (s.next e).pack.mover.burstAddr = s.pack.mover.burstAddr ∧
          (s.next e).pack.mover.len = s.pack.mover.len := by
      rw [mover, Mover.next_owed live owed running]
      refine ⟨awOn, addr, ?_⟩
      unfold Mover.len Mover.last
      change (if ((s.pack.mover.stateStep s.pack.accepts s.pack.regs s.store.rdata e.input
          (s.pack.mover.addressed e.input)).pBurst == 8#4) = true then 1#4 else 15#4) = _
      rw [burst]
    unfold Mover.stateStep at goes
    cases place : s.pack.mover.pst with
    | idle =>
      rw [place] at stage
      exact absurd offered (by simp [stage.port.1])
    | take =>
      rw [place] at stage
      exact absurd offered (by simp [stage.port.1])
    | ar =>
      rw [place] at stage
      exact absurd offered (by simp [stage.fetching.address.1])
    | r =>
      rw [place] at stage
      exact absurd offered (by simp [stage.fetching.address.1])
    | tag =>
      rw [place] at stage
      exact absurd offered (by simp [stage.fetching.address.1])
    | aw =>
      rw [place] at stage
      exact absurd offered (by simp [stage.address.1])
    | w0 =>
      rw [place] at goes
      exact goes (by simp) still rfl rfl
    | w1 =>
      rw [place] at goes
      exact goes (by simp) still rfl rfl
    | w2 =>
      rw [place] at goes
      exact goes (by simp) still rfl rfl
    | w3 =>
      rw [place] at goes
      exact goes (by simp) still rfl rfl
    | w4 =>
      rw [place] at goes
      exact goes (by simp) still rfl rfl
    | w5 =>
      rw [place] at goes
      dsimp only at goes
      split_ifs at goes <;> exact goes (by simp) still rfl rfl
    | b =>
      rw [place] at goes stage
      have unaddressed : s.port.addressed = false := by
        have address := stage.address
        rw [offered] at address
        simpa using address.symm
      have quiet : e.input.mBvalid = false := by
        cases valid : e.input.mBvalid with
        | false => rfl
        | true =>
          have answers := (lawful.answers valid (by simp [Mover.bready, place])).2
          simp [unaddressed, waits] at answers
      simp only [Mover.respond, quiet, Bool.false_eq_true, if_false] at goes
      exact goes (by simp) still rfl rfl
  · have place : s.pack.mover.pst = .w5 := by simpa [Mover.wvalid] using offered
    rw [mover, Mover.next_owed live (by simp [Mover.owed, place]) (by simp [place])]
    simp [Mover.draining, Mover.stateStep, place, waits, Mover.addressed, Mover.wvalid,
      Mover.wdata, Mover.wstrb, Mover.lastBeat, Mover.last]

/-- A burst within a 4 KiB page. -/
def Burst.InPage (burst : Burst) : Prop :=
  burst.addr.toNat % 4096 + 8 * (burst.len.toNat + 1) ≤ 4096

theorem burstsOf_pages {base : BitVec 32} (aligned : base.toNat % 128 = 0) {bursts : Nat}
    {burst : Burst} (mem : burst ∈ burstsOf base bursts) : burst.InPage := by
  obtain ⟨k, less, rfl⟩ := List.mem_map.1 mem
  have small : k < bursts := List.mem_range.1 less
  unfold Burst.InPage burstOf
  dsimp only
  rw [BitVec.toNat_add, BitVec.toNat_ofNat]
  split_ifs with eight
  · subst eight
    simp
    omega
  · have few : (15#4).toNat = 15 := rfl
    rw [few]
    omega

theorem Standing.pages (standing : Standing s) {burst : Burst}
    (mem : burst ∈ s.move.reads ++ s.move.writes) : burst.InPage := by
  have exact := standing.exact
  cases errand : s.move.errand with
  | fetch =>
    obtain ⟨-, -, reads, writes, -⟩ := exact.fetch errand
    rw [writes, List.append_nil, reads] at mem
    exact burstsOf_pages (standing.aligned (by simp [errand])) mem
  | back =>
    obtain ⟨-, writes, -, -, -, -, reads⟩ := exact.back errand
    rw [reads, List.nil_append, writes] at mem
    exact burstsOf_pages (standing.aligned (by simp [errand])) mem
  | away =>
    obtain ⟨-, reads, writes, -⟩ := exact.away errand
    rw [reads, writes] at mem
    simp at mem

section Landed

variable {base : BitVec 32} {seen : List (BitVec 32)}

/-- The bytes a beat writes, each at its address. -/
def bytes (addr : BitVec 32) (beat : WriteBeat) : List (BitVec 32 × BitVec 8) :=
  (List.range 8).filterMap fun lane =>
    if beat.strb.getLsbD lane then
      some (addr + BitVec.ofNat 32 lane, beat.data.extractLsb' (8 * lane) 8)
    else none

/-- The bytes bursts write, their beats at eight bytes' steps from the address. -/
def landed : List Burst → List WriteBeat → List (BitVec 32 × BitVec 8)
  | [], _ => []
  | burst :: bursts, sends =>
    ((sends.take (burst.len.toNat + 1)).zipIdx.flatMap fun beat =>
      bytes (burst.addr + BitVec.ofNat 32 (8 * beat.2)) beat.1) ++
      landed bursts (sends.drop (burst.len.toNat + 1))

/-- A byte of the slot's words, at its place of the block. -/
def byteOf (base : BitVec 32) (seen : List (BitVec 32)) (byte : Nat) : BitVec 32 × BitVec 8 :=
  (base + BitVec.ofNat 32 byte, (seen.getD (byte / 4) 0).extractLsb' (8 * (byte % 4)) 8)

theorem extract_append (high low : BitVec 32) {lane : Nat} (inside : lane < 8) :
    (high ++ low : BitVec 64).extractLsb' (8 * lane) 8 =
      (if lane < 4 then low else high).extractLsb' (8 * (lane % 4)) 8 := by
  apply BitVec.eq_of_getLsbD_eq
  intro bit less
  rw [BitVec.getLsbD_extractLsb', BitVec.getLsbD_extractLsb', BitVec.getLsbD_append]
  split_ifs with first early early
  · rw [Nat.mod_eq_of_lt early]
  · omega
  · omega
  · have place : 8 * lane + bit - 32 = 8 * (lane % 4) + bit := by omega
    rw [place]

theorem lane_sending {beat lane : Nat} (inside : lane < 8) :
    (base + BitVec.ofNat 32 (8 * beat) + BitVec.ofNat 32 lane,
        (sending seen beat).data.extractLsb' (8 * lane) 8) = byteOf base seen (8 * beat + lane) := by
  unfold byteOf sending
  rw [BitVec.add_assoc, ← BitVec.ofNat_add, extract_append _ _ inside]
  have place : (8 * beat + lane) % 4 = lane % 4 := by omega
  rw [place]
  congr 2
  split_ifs with low
  · rw [show (8 * beat + lane) / 4 = 2 * beat by omega]
  · rw [show (8 * beat + lane) / 4 = 2 * beat + 1 by omega]

theorem bytes_sending (beat : Nat) :
    bytes (base + BitVec.ofNat 32 (8 * beat)) (sending seen beat) =
      (List.range' (8 * beat) (if beat = 129 then 4 else 8)).map (byteOf base seen) := by
  have lane {lane : Nat} (inside : lane < 8) : (_, _) = byteOf base seen (8 * beat + lane) :=
    lane_sending inside
  unfold bytes
  rw [show List.range 8 = [0, 1, 2, 3, 4, 5, 6, 7] from rfl]
  by_cases last : beat = 129
  · have strobes : (sending seen beat).strb = 0x0F#8 := if_pos last
    rw [strobes, if_pos last]
    change [_, _, _, _] = [byteOf base seen (8 * beat + 0), byteOf base seen (8 * beat + 1),
      byteOf base seen (8 * beat + 2), byteOf base seen (8 * beat + 3)]
    rw [← lane (by decide), ← lane (by decide), ← lane (by decide), ← lane (by decide)]
  · have strobes : (sending seen beat).strb = 0xFF#8 := if_neg last
    rw [strobes, if_neg last]
    change [_, _, _, _, _, _, _, _] = [byteOf base seen (8 * beat + 0),
      byteOf base seen (8 * beat + 1), byteOf base seen (8 * beat + 2),
      byteOf base seen (8 * beat + 3), byteOf base seen (8 * beat + 4),
      byteOf base seen (8 * beat + 5), byteOf base seen (8 * beat + 6),
      byteOf base seen (8 * beat + 7)]
    rw [← lane (by decide), ← lane (by decide), ← lane (by decide), ← lane (by decide),
      ← lane (by decide), ← lane (by decide), ← lane (by decide), ← lane (by decide)]

variable (base seen) in
theorem flatMap_sending (start count offset : Nat) (inside : start + count ≤ 130)
    (addr : BitVec 32) (place : addr + BitVec.ofNat 32 (8 * offset) =
      base + BitVec.ofNat 32 (8 * start)) :
    (((List.range' start count).map (sending seen)).zipIdx offset).flatMap
        (fun beat => bytes (addr + BitVec.ofNat 32 (8 * beat.2)) beat.1) =
      (List.range' (8 * start) (if start + count = 130 ∧ 0 < count then 8 * count - 4
        else 8 * count)).map (byteOf base seen) := by
  induction count generalizing start offset with
  | zero => simp
  | succ count ih =>
    have next : addr + BitVec.ofNat 32 (8 * (offset + 1)) =
        base + BitVec.ofNat 32 (8 * (start + 1)) := by
      rw [Nat.mul_add, Nat.mul_add, BitVec.ofNat_add, BitVec.ofNat_add, ← BitVec.add_assoc,
        ← BitVec.add_assoc, place]
    rw [List.range'_succ, List.map_cons, List.zipIdx_cons, List.flatMap_cons,
      ih (start + 1) (offset + 1) (by omega) next, place, bytes_sending, ← List.map_append]
    congr 1
    by_cases last : start = 129
    · obtain rfl : count = 0 := by omega
      subst last
      rfl
    · rw [if_neg last, show 8 * (start + 1) = 8 * start + 1 * 8 by omega, List.range'_append]
      congr 1
      split_ifs <;> omega

theorem landed_from (bursts start : Nat) (whole : start + bursts = 8) :
    landed ((List.range' start (bursts + 1)).map (burstOf base))
        ((List.range' (16 * start) (16 * bursts + 2)).map (sending seen)) =
      (List.range' (128 * start) (128 * bursts + 12)).map (byteOf base seen) := by
  induction bursts generalizing start with
  | zero =>
    obtain rfl : start = 8 := by omega
    have all := flatMap_sending base seen 128 2 0 (by decide)
      (base + BitVec.ofNat 32 (128 * 8)) (by simp)
    change (List.zipIdx (List.map (sending seen) (List.range' 128 2)) 0).flatMap _ ++ [] = _
    rw [List.append_nil]
    exact all
  | succ bursts ih =>
    have split : List.range' (16 * start) (16 * (bursts + 1) + 2) =
        List.range' (16 * start) 16 ++ List.range' (16 * (start + 1)) (16 * bursts + 2) := by
      rw [show 16 * (start + 1) = 16 * start + 1 * 16 by omega, List.range'_append]
      congr 1
      omega
    have length : (burstOf base start).len.toNat + 1 = 16 := by
      unfold burstOf
      dsimp only
      rw [if_neg (by omega)]
      rfl
    have first := flatMap_sending base seen (16 * start) 16 0 (by omega)
      (burstOf base start).addr (show _ = base + BitVec.ofNat 32 (8 * (16 * start)) by
        rw [show 8 * (16 * start) = 128 * start by omega]
        exact BitVec.add_zero _)
    rw [if_neg (by omega)] at first
    rw [List.range'_succ, List.map_cons, split, List.map_append, landed, length]
    rw [List.take_left' (by simp), List.drop_left' (by simp), ih (start + 1) (by omega), first,
      ← List.map_append, show 8 * (16 * start) = 128 * start by omega,
      show 128 * (start + 1) = 128 * start + 1 * (8 * 16) by omega, List.range'_append]
    congr 2
    omega

theorem landed_whole : landed (burstsOf base 9) (sendings seen 130) =
    (List.range 1036).map (byteOf base seen) := by
  unfold burstsOf sendings
  rw [List.range_eq_range', List.range_eq_range', List.range_eq_range']
  exact landed_from 8 0 (by decide)

end Landed

section Ends

variable {i : Input c} {g : Regs} {accepted : Bool} {rdata : BitVec 32} {m : Mover}

/-- The master waits for the port: for an address to be taken, a beat to come or to be taken, or a
response. -/
def Mover.waits (i : Input c) (m : Mover) : Bool :=
  match m.pst with
  | .ar => !i.mArready
  | .r => !m.hiPending && !m.rbValid && !i.mRvalid
  | .w5 => !i.mWready
  | .b => !i.mBvalid
  | _ => false

/-- How far a move has to go, in its bursts, its beats and its states. -/
def Mover.rank (m : Mover) : Nat :=
  let left := 9 - m.pBurst.toNat
  let beats := 16 - m.pBeat.toNat
  match m.pst with
  | .idle => 0
  | .tag => 1
  | .take => 2000
  | .ar => 100 * left + 99
  | .r => 100 * left + 3 * beats + if m.hiPending then 0 else if m.rbValid then 1 else 2
  | .aw => 200 * left + 199
  | .w0 => 200 * left + 10 * beats + 7
  | .w1 => 200 * left + 10 * beats + 6
  | .w2 => 200 * left + 10 * beats + 5
  | .w3 => 200 * left + 10 * beats + 4
  | .w4 => 200 * left + 10 * beats + 3
  | .w5 => 200 * left + 10 * beats + 2
  | .b => 200 * left + 1

theorem Mover.rank_stateStep (running : m.pst ≠ .idle)
    (placed : m.pst ≠ .take → m.pst ≠ .tag → m.Placed)
    (first : m.pst = .take → m.pBurst = 0#4)
    (inside : m.pst = .r ∨ m.pst = .w5 → m.Inside) :
    let x := m.stateStep accepted g rdata i (m.addressed i)
    x.rank ≤ m.rank ∧ (m.waits i = false → x.rank < m.rank) := by
  unfold stateStep waits
  have left : ∀ place : PState, m.pst = place → place ≠ .take → place ≠ .tag →
      m.pBurst.toNat ≤ 8 ∧ (m.pBurst + 1).toNat = m.pBurst.toNat + 1 :=
    fun place at_ take tag =>
      have here := placed (at_ ▸ take) (at_ ▸ tag)
      ⟨here.burst, here.bumped⟩
  have size := m.pBeat.isLt
  cases place : m.pst with
  | idle => exact absurd place running
  | take =>
    have zero : m.pBurst.toNat = 0 := by rw [first place]; rfl
    dsimp only
    split_ifs <;> simp [rank, place, addressed, zero]
  | ar =>
    obtain ⟨few, -⟩ := left .ar place (by simp) (by simp)
    dsimp only
    cases ready : i.mArready with
    | true =>
      have zero : (0#4).toNat = 0 := rfl
      simp only [rank, place, addressed, if_true]
      split_ifs <;> omega
    | false => simp [rank, place, addressed]
  | r =>
    obtain ⟨few, bumped⟩ := left .r place (by simp) (by simp)
    have facts := index_facts (placed (by simp [place]) (by simp [place])) (inside (Or.inl place))
    cases hi : m.hiPending with
    | true =>
      cases final : m.lastBeat with
      | true =>
        simp only [wordIn, beatIn_eq, bump, hi, final, rank, place, addressed, if_true]
        cases m.pDrop <;> cases m.last <;>
          simp only [Bool.false_eq_true, if_false, if_true, bumped] <;> omega
      | false =>
        have step := (facts.2.2.2 final).2.1
        simp only [wordIn, beatIn_eq, hi, final, rank, place, addressed, if_true,
          Bool.false_eq_true, if_false, step]
        split_ifs <;> omega
    | false =>
      cases rb : m.rbValid with
      | true =>
        cases pad : m.padBeat with
        | true =>
          simp only [wordIn, beatIn_eq, bump, hi, rb, pad, rank, place, addressed, if_true,
            Bool.false_eq_true, if_false]
          cases m.pDrop <;> simp only [Bool.false_eq_true, if_false, if_true] <;> omega
        | false =>
          simp only [wordIn, beatIn_eq, hi, rb, pad, rank, place, addressed, if_true,
            Bool.false_eq_true, if_false]
          omega
      | false =>
        cases valid : i.mRvalid with
        | true =>
          simp only [wordIn, beatIn_eq, hi, rb, valid, rready, rank, place, addressed,
            Bool.false_eq_true, if_false]
          simp
        | false =>
          simp [wordIn, beatIn_eq, hi, rb, valid, rank, place, addressed]
  | tag => simp [rank, place]
  | aw =>
    obtain ⟨few, -⟩ := left .aw place (by simp) (by simp)
    have zero : (0#4).toNat = 0 := rfl
    simp only [rank, place, addressed]
    omega
  | w0 => simp [rank, place, addressed]
  | w1 => simp [rank, place, addressed]
  | w2 => simp [rank, place, addressed]
  | w3 => simp [rank, place, addressed]
  | w4 => simp [rank, place, addressed]
  | w5 =>
    obtain ⟨few, -⟩ := left .w5 place (by simp) (by simp)
    have facts := index_facts (placed (by simp [place]) (by simp [place])) (inside (Or.inr place))
    cases ready : i.mWready with
    | false => simp [rank, place, addressed]
    | true =>
      cases final : m.lastBeat with
      | true =>
        simp only [rank, place, addressed, if_true]
        omega
      | false =>
        have step := (facts.2.2.2 final).2.1
        simp only [rank, place, addressed, if_true, Bool.false_eq_true, if_false, step]
        omega
  | b =>
    obtain ⟨few, bumped⟩ := left .b place (by simp) (by simp)
    unfold respond
    cases valid : i.mBvalid with
    | false => simp [rank, place, addressed]
    | true =>
      simp only [if_true, bump]
      split_ifs
      · simp only [rank, place]
        omega
      · simp only [rank, place]
        omega
      · simp only [rank, place, bumped]
        omega

theorem Mover.rank_pos (running : m.pst ≠ .idle) : 0 < m.rank := by
  unfold rank
  cases place : m.pst with
  | idle => exact absurd place running
  | r => dsimp only; omega
  | _ => simp

end Ends

theorem Standing.rank_next (standing : Standing s) (lawful : Lawful e s)
    (running : s.pack.mover.pst ≠ .idle) :
    (s.next e).pack.mover.rank ≤ s.pack.mover.rank ∧
      (s.pack.mover.waits e.input = false → (s.next e).pack.mover.rank < s.pack.mover.rank) := by
  have live := lawful.live
  have stage := standing.stage
  unfold Stage at stage
  have less : (s.pack.mover.stateStep s.pack.accepts s.pack.regs s.store.rdata e.input
      (s.pack.mover.addressed e.input)).rank ≤ s.pack.mover.rank ∧ _ := Mover.rank_stateStep running
    (fun take tag => by
      cases place : s.pack.mover.pst with
      | idle => exact absurd place running
      | take => exact absurd place take
      | tag => exact absurd place tag
      | ar => rw [place] at stage; exact stage.placed
      | r => rw [place] at stage; exact stage.placed
      | aw => rw [place] at stage; exact stage.placed
      | b => rw [place] at stage; exact stage.placed
      | _ =>
        rw [place] at stage
        unfold Words at stage
        rw [place] at stage
        first
          | exact stage.placed
          | exact stage.1.placed)
    (fun place => by
      rw [place] at stage
      exact stage.first)
    (fun place => by
      rcases place with place | place
      · rw [place] at stage
        exact stage.inside
      · rw [place] at stage
        unfold Words at stage
        rw [place] at stage
        exact stage.1.inside)
  have mover : (s.next e).pack.mover =
      s.pack.mover.next s.pack.accepts s.pack.regs s.store.rdata e.input := rfl
  have some_ := Mover.rank_pos running
  cases owed : s.pack.mover.owed with
  | true =>
    rw [mover, Mover.next_owed live owed running]
    exact less
  | false =>
    rw [mover, Mover.next_unowed live owed running]
    cases e.input.fabricRst with
    | true => exact ⟨Nat.zero_le _, fun _ => some_⟩
    | false => exact less

/-- What a go finds and leaves: nothing owed on the port, and out of the fabric's reset a master
at its first state with nothing of the move before. -/
structure Clean (e : Clock c) (s : Transfer c) : Prop where
  owed : s.pack.mover.pst = .idle ∧ s.pack.mover.awOn = false ∧ s.port = ⟨0, false, false⟩
  starts : e.input.fabricRst = false →
    (s.next e).pack.mover.pst = (if s.pack.regs.goQ.getLsbD 1 then .aw else .take) ∧
      (s.next e).pack.mover.busy = true ∧ (s.next e).pack.mover.done = false ∧
      (s.next e).pack.mover.error = false ∧ (s.next e).pack.mover.pDrop = false ∧
      (s.next e).pack.mover.awOn = false ∧ (s.next e).pack.mover.hiPending = false ∧
      (s.next e).pack.mover.rbValid = false ∧ (s.next e).pack.mover.pBurst = 0#4 ∧
      (s.next e).pack.mover.pBeat = 0#4 ∧ (s.next e).port = ⟨0, false, false⟩ ∧
      (s.next e).move = .begun s.pack.regs false

theorem Standing.clean (standing : Standing s) (lawful : Lawful e s) (timely : Timely e s)
    (taken : s.pack.accepts = true) : Clean e s := by
  have place := standing.free taken
  have rest := standing.exact.beyond place
  obtain ⟨address, none, addressed, ended⟩ := rest.port
  have port : s.port = ⟨0, false, false⟩ := by
    cases owed : s.port
    simp only [owed] at none addressed ended
    rw [none, addressed, ended]
  refine ⟨⟨place, address, port⟩, fun calm => ?_⟩
  have still : (s.next e).port = ⟨0, false, false⟩ := by
    change s.port.next e.input s.pack.mover = _
    unfold Owed.next
    simp [Mover.arvalid, Mover.rready, Mover.wvalid, Mover.bready, place, address, port]
  have move : (s.next e).move = .begun s.pack.regs false := by
    rw [← calm]
    exact if_pos taken
  have mover : (s.next e).pack.mover =
      s.pack.mover.next s.pack.accepts s.pack.regs s.store.rdata e.input := rfl
  rw [mover, taken, Mover.next_begins lawful.live place address (timely.free taken), calm]
  exact ⟨rfl, rfl, rfl, rfl, rfl, by simp [Mover.draining, Mover.begin, Mover.addressed, address],
    rfl, rfl, rfl, rfl, still, move⟩

/-- The pack side out of the port's reset, before any go. -/
structure AtReset (s : Transfer c) : Prop where
  idle : s.pack.mover.pst = .idle
  quiet : s.pack.mover.awOn = false ∧ s.pack.mover.pDrop = false ∧
    s.pack.mover.done = false ∧ s.pack.mover.storeWe = false
  asked : s.pack.regs.goAny = false
  addr : s.pack.regs.addr = 0
  port : s.port = ⟨0, false, false⟩
  move : s.move = .begun s.pack.regs true

theorem AtReset.standing (reset : AtReset s) : Standing s where
  judged := fun asked => absurd asked (by simp [reset.asked])
  aligned := fun _ => by
    rw [reset.move]
    change s.pack.regs.addr.toNat % 128 = 0
    rw [reset.addr]
    rfl
  named := fun running => absurd reset.idle running
  dropped := fun _ => ⟨reset.quiet.2.2.1, Or.inl reset.idle⟩
  drained := fun running => absurd reset.idle running
  stage := by
    unfold Stage
    rw [reset.idle, reset.move, reset.port]
    exact InIdle.blank ⟨reset.quiet.1, rfl, rfl, rfl⟩ reset.quiet.2.2.1

theorem AtReset.void (reset : AtReset s) : Void s where
  port := fun up => absurd up (by simp [reset.quiet.2.2.2])
  empty := fun some_ => absurd (by rw [reset.move]; rfl) some_

/-- What holds of a move at every clock: it is exact, its slot is empty until its tag, its bursts
stay in their pages, its offers stand, and a go finds the master clean; and a write-back that ran
its course wrote the slot's 1036 bytes and no other. -/
structure Sure (e : Clock c) (s : Transfer c) : Prop where
  exact_ : Exact s
  void : Void s
  pages : ∀ burst ∈ s.move.reads ++ s.move.writes, burst.InPage
  offers : Offers e s
  clean : s.pack.accepts = true → Clean e s
  landed : s.move.errand = .back → s.pack.mover.pst = .idle → s.move.dropped = false →
    landed s.move.writes s.move.sends =
      (List.range 1036).map (byteOf s.move.base s.move.seen)

theorem Standing.landed (standing : Standing s) (errand : s.move.errand = .back)
    (idle : s.pack.mover.pst = .idle) (kept : s.move.dropped = false) :
    landed s.move.writes s.move.sends =
      (List.range 1036).map (byteOf s.move.base s.move.seen) := by
  have beyond := (standing.exact.beyond idle).returned errand
  have nine := beyond.complete kept
  have writes := beyond.writes
  have sends := beyond.sends
  rw [nine] at writes sends
  rw [writes, sends]
  exact landed_whole

/-- Out of the port's reset, on a port that keeps its protocol, where the fabric's reset does not
come in the tick that stores a record's last word and no go is accepted before a drained move's
end is taken: every move is exact, at every clock; and while the port keeps answering, each ends. -/
theorem moves_exact {start : Transfer c} (reset : AtReset start) (clocks : Nat → Clock c)
    (meets : Meets (fun e s => Lawful e s ∧ Timely e s) Transfer.next start clocks) :
    (∀ n, Sure (clocks n) (trace Transfer.next start clocks n)) ∧
      ((∀ n, ∃ later, n ≤ later ∧ (trace Transfer.next start clocks later).pack.mover.waits
        (clocks later).input = false) →
        ∀ n, ∃ later, n ≤ later ∧
          (trace Transfer.next start clocks later).pack.mover.pst = .idle) := by
  have whole : ∀ n, Standing (trace Transfer.next start clocks n) ∧
      Void (trace Transfer.next start clocks n) :=
    @trace_invariant _ _ Transfer.next start clocks _ (fun s => Standing s ∧ Void s)
      ⟨reset.standing, reset.void⟩
      (fun _ _ step kept =>
        have next := kept.1.next step.1 step.2
        ⟨next, kept.2.next kept.1 next.exact step.1.live⟩) meets
  refine ⟨fun n => ?_, fun answers n => ?_⟩
  · obtain ⟨standing, void⟩ := whole n
    obtain ⟨lawful, timely⟩ := meets n
    exact
      { exact_ := standing.exact
        void := void
        pages := fun _ mem => standing.pages mem
        offers := standing.offers lawful
        clean := standing.clean lawful timely
        landed := standing.landed }
  · apply met_of_falling_events (fun later => (trace Transfer.next start clocks later).pack.mover.rank)
    · exact fun later _ running => ((whole later).1.rank_next (meets later).1 running).1
    · exact fun later _ running moves => ((whole later).1.rank_next (meets later).1 running).2 moves
    · exact answers

/-- A pack side of 24 slots. -/
def plain : Config := ⟨24, 0x40000000#32, 0#32, 2, 4⟩

/-- It, out of the port's reset, its block address at zero. -/
def atRest : Transfer plain where
  pack :=
    { port := .reset
      regs :=
        { addr := 0, tag := 0, slot := 0, drive := 0, refused := false, goQ := 0,
          chActiveQ := false, chWaitingQ := false, chSlotQ := 0, reqValidQ := false, reqTagQ := 0,
          dirty := 0, refBits := 0, irqQ := 0, irqen := 0, irqR := false, busyQ := false,
          badAlignQ := false, badSlotQ := false, badChQ := false, badMemQ := false }
      mover :=
        { awOn := false, pDrop := false, pst := .idle, pWrite := false, pBurst := 0, pBeat := 0,
          pBase := 0, pSlot := 0, pTag := 0, hiPending := false, hiWord := 0, rbValid := false,
          rbData := 0, wlo := 0, whi := 0, busy := false, done := false, error := false,
          burstAddr := 0, takeOnly := false, storeWe := false, storeSlot := 0, storeAddr := 0,
          storeWdata := 0 } }
  store := default
  port := ⟨0, false, false⟩
  move :=
    { errand := .fetch, base := 0, slot := 0, tag := 0, dropped := true, reads := [], beats := [],
      deposits := [], writes := [], seen := [], sends := [], answers := 0 }

/-- A port that answers at once what it owes, the first beat with SLVERR; CTL is written for a fetch
in the first clocks, and the fabric's reset comes at one clock or at none. -/
def serve (reset : Option Nat) (n : Nat) (s : Transfer plain) : Clock plain where
  input :=
    { rst := false, fabricRst := reset == some n, portLive := true, awaddr := 0x4000000C#32,
      awid := 0, awvalid := n == 0, wdata := 1, wstrb := 0xF, wlast := true, wvalid := n == 1,
      bready := true, araddr := 0, arlen := 0, arid := 0, arvalid := false, rready := true,
      mAwready := true, mWready := true, mBresp := 0, mBvalid := false, mArready := true,
      mRdata := 0, mRresp := if s.move.beats = [] then 2 else 0, mRlast := s.pack.mover.takeLast,
      mRvalid := decide (0 < s.port.beats) }
  channel := ⟨false, false, 0, false, false, false, 0, false, false, 0⟩
  controller := default

/-- The run on that port. -/
def served (reset : Option Nat) : Nat → Transfer plain
  | 0 => atRest
  | n + 1 => (served reset n).next (serve reset n (served reset n))

theorem trace_served (reset : Option Nat) (n : Nat) :
    trace Transfer.next atRest (fun n => serve reset n (served reset n)) n = served reset n := by
  induction n with
  | zero => rfl
  | succ n ih =>
    rw [trace_succ, ih]
    rfl

theorem serve_lawful (reset : Option Nat) (n : Nat) (s : Transfer plain) :
    Lawful (serve reset n s) s where
  live := rfl
  beats := fun valid _ => of_decide_eq_true valid
  answers := fun valid => absurd valid (by simp [serve])

theorem atRest_reset : AtReset atRest := ⟨rfl, ⟨rfl, rfl, rfl, rfl⟩, rfl, rfl, rfl, rfl⟩

theorem Mover.next_drop {i : Input c} {g : Regs} {accepted : Bool} {rdata : BitVec 32} {m : Mover}
    (calm : i.fabricRst = false) (drop : m.pDrop = false) :
    (m.next accepted g rdata i).pDrop = false := by
  have state : (m.stateStep accepted g rdata i (m.addressed i)).pDrop = m.pDrop := by
    by_cases running : m.pst = .idle
    · unfold stateStep
      rw [running]
      dsimp only
      split_ifs <;> rfl
    · exact (stateStep_keeps running).drop
  unfold next master fabric drained
  simp only [calm, drop, Bool.false_and, Bool.false_eq_true, if_false]
  split_ifs
  · rfl
  · exact state.trans drop

/-- The fetch of the run with no reset is exact. -/
theorem served_exact : Sure (serve none 282 (served none 282)) (served none 282) := by
  have calm (n : Nat) : (served none n).pack.mover.pDrop = false := by
    induction n with
    | zero => rfl
    | succ n ih => exact Mover.next_drop rfl ih
  have sure := (moves_exact atRest_reset (fun n => serve none n (served none n)) (fun n => by
    rw [trace_served]
    exact ⟨serve_lawful none n _, ⟨fun reset => absurd reset (by simp [serve]),
      fun _ => calm n⟩⟩)).1 282
  rw [trace_served] at sure
  exact sure

/-- The fabric's reset in the tick that stores a fetch's last word: the move is dropped, a beat of
it had SLVERR, and its slot is tagged all the same, and it is done. -/
theorem tagged_when_dropped : ¬ ∀ (start : Transfer plain) (clocks : Nat → Clock plain),
    AtReset start → Meets Lawful Transfer.next start clocks → ∀ n,
      let s := trace Transfer.next start clocks n
      s.move.dropped = true →
        tagged s.move.slot s.move.tag ∉ s.move.deposits ∧ s.pack.mover.done = false := by
  intro all
  have dropped := all atRest (fun n => serve (some 280) n (served (some 280) n)) atRest_reset
    (fun n => by
      rw [trace_served]
      exact serve_lawful _ _ _) 282
  rw [trace_served] at dropped
  revert dropped
  decide +kernel

end MuirFpga.Packs.DiskPack
