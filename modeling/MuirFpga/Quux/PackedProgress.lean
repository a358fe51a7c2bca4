import MuirFpga.Quux.PackedRun

/-!
# Packed storage answers

A memory that keeps taking addresses and beats, performing, answering and giving has every operation
answered: some of these always waits, none waits in vain, and each leaves less to do.
-/

namespace MuirFpga.Quux

open Sync

namespace Packed

/-- What the master or the memory waits for. -/
inductive Event
  | address
  | data
  | perform
  | answer
  | line
  | give

variable {c : MasterConfig} {i : PackedIn} {s : Packed} {bus : BitVec 29} {word : BitVec 40}
  {line : BitVec 26} {bytes : Bytes}

/-- It is waited for. -/
def Waits (c : MasterConfig) (s : Packed) : Event → Prop
  | .address => (s.master.aw c s.req).isSome = true
  | .data => (s.master.w c s.req).isSome = true
  | .perform => s.memory.places ≠ [] ∧ s.memory.lanes ≠ []
  | .answer => s.memory.answers ≠ []
  | .line => (s.master.ar c s.req).isSome = true
  | .give => s.memory.reads ≠ []

/-- The memory does it this clock. -/
def Chosen (p : Pace) : Event → Bool
  | .address => p.awready
  | .data => p.wready
  | .perform => p.perform
  | .answer => p.answer
  | .line => p.arready
  | .give => p.give

/-- The memory does each again and again. -/
def Fair (e : Nat → PackedIn) : Prop :=
  ∀ event clock, ∃ later, clock ≤ later ∧ Chosen (e later).pace event = true

/-- What is left to do. -/
def rank (c : MasterConfig) (s : Packed) : Nat :=
  match s.current with
  | some (.write bus word) =>
    2 * ((s.comingPlaces c bus).length + (s.comingLanes c bus word).length) +
      s.memory.places.length + s.memory.lanes.length + s.memory.answers.length
  | some (.read line) => 2 * (s.comingReads c line).length + s.memory.reads.length
  | none => 0

theorem WriteQuiet.sends (quiet : WriteQuiet s) (none_ : s.req.wReq = false) :
    s.master.aw c s.req = none ∧ s.master.w c s.req = none := by
  simp [Master.aw, Master.w, quiet.contV, none_]

theorem ReadQuiet.sends (quiet : ReadQuiet s) (none_ : s.req.arReq = false) :
    s.master.ar c s.req = none := by
  simp [Master.ar, quiet.rstate, none_]

section

variable (held : Held c s bytes)

include held

theorem Held.coming (now : s.current = some (.write bus word)) (going : s.done c i = false) :
    s.comingPlaces c bus = (s.taken c i).places ++ (s.next c i).comingPlaces c bus ∧
      s.comingLanes c bus word = (s.taken c i).lanes ++ (s.next c i).comingLanes c bus word := by
  obtain ⟨reads, gone, n, writing⟩ := held.writing bus word now
  cases taken : s.sent with
  | false =>
    obtain ⟨-, -, silent⟩ := writing.nothing (i := i) taken
    have slot := (writing.next_fresh (i := i) now taken).2.2
    exact coming_fresh now taken (writing.unsent taken).1 silent going slot
  | true =>
    have slot := (writing.next_taken (i := i) now taken held.pointer going).2
    have sent := next_sent now going
    rw [taken, Bool.true_or] at sent
    obtain ⟨places, lanes⟩ := writing.coming_taken (i := i) now taken
    rw [places, lanes]
    unfold comingPlaces comingLanes
    rw [sent, slot]
    exact ⟨rfl, rfl⟩

theorem Held.coming_read (now : s.current = some (.read line)) (going : s.done c i = false) :
    s.comingReads c line = (s.taken c i).reads ++ (s.next c i).comingReads c line := by
  obtain ⟨writes, n, reading⟩ := held.reading line now
  cases taken : s.sent with
  | false => exact coming_line now taken (reading.fresh taken)
  | true => exact (reading.next_state now taken going).2.2

theorem Held.rank_next (going : s.done c i = false) (busy : s.current ≠ none) :
    (s.next c i).rank c + (s.taken c i).places.length + (s.taken c i).lanes.length +
        (s.taken c i).reads.length + (s.memory.performs i.pace).toList.length +
        (s.memory.answered i.pace).toList.length + (s.memory.given i.pace).toList.length ≤ s.rank c := by
  obtain ⟨places, lanes, answers, reads⟩ := s.memory.next_lengths i.pace (s.taken c i)
  unfold rank
  cases now : s.current with
  | none => exact absurd now busy
  | some op =>
    obtain ⟨current, -⟩ := next_of_going op now going
    rw [current]
    cases op with
    | write bus word =>
      obtain ⟨quiet, -⟩ := held.writing bus word now
      obtain ⟨comingP, comingL⟩ := held.coming now going
      have noRead := @ReadQuiet.sends c s quiet (by rw [req_write now])
      have noReads : (s.taken c i).reads = [] := by simp [taken, noRead]
      have noGiven : s.memory.given i.pace = none := by simp [ByteMemory.given, quiet.reads]
      dsimp only
      rw [comingP, comingL, List.length_append, List.length_append, noReads, noGiven]
      show 2 * _ + (s.memory.next i.pace (s.taken c i)).places.length +
        (s.memory.next i.pace (s.taken c i)).lanes.length +
        (s.memory.next i.pace (s.taken c i)).answers.length + _ + _ + 0 + _ + _ + 0 ≤ _
      omega
    | read line =>
      obtain ⟨quiet, -⟩ := held.reading line now
      have coming := held.coming_read now going
      obtain ⟨noAw, noW⟩ := @WriteQuiet.sends c s quiet (by rw [req_read now])
      have noPlaces : (s.taken c i).places = [] := by simp [taken, noAw]
      have noLanes : (s.taken c i).lanes = [] := by simp [taken, noW]
      have noPerform : s.memory.performs i.pace = none := by
        unfold ByteMemory.performs
        rw [quiet.places]
        cases i.pace.perform <;> rfl
      have noAnswer : s.memory.answered i.pace = none := by simp [ByteMemory.answered, quiet.answers]
      dsimp only
      rw [coming, List.length_append, noPlaces, noLanes, noPerform, noAnswer]
      show 2 * _ + (s.memory.next i.pace (s.taken c i)).reads.length + 0 + 0 + _ + 0 + 0 + _ ≤ _
      omega

theorem Held.rank_le (going : s.done c i = false) (busy : s.current ≠ none) :
    (s.next c i).rank c ≤ s.rank c := by
  have less := held.rank_next (i := i) going busy
  omega

theorem Held.falls (going : s.done c i = false) (busy : s.current ≠ none)
    (event : Event) (waits : Waits c s event) (chosen : Chosen i.pace event = true) :
    (s.next c i).rank c < s.rank c := by
  have less := held.rank_next (i := i) going busy
  cases event with
  | address =>
    obtain ⟨b, offered⟩ := Option.isSome_iff_exists.mp waits
    have some_ : 0 < (s.taken c i).places.length := by
      unfold Packed.taken
      rw [offered]
      dsimp only
      have chosen : i.pace.awready = true := chosen
      rw [if_pos chosen]
      unfold burst
      rw [List.length_map, List.length_range]
      exact Nat.succ_pos _
    omega
  | data =>
    obtain ⟨b, offered⟩ := Option.isSome_iff_exists.mp waits
    have some_ : 0 < (s.taken c i).lanes.length := by
      unfold Packed.taken
      rw [offered]
      dsimp only
      have chosen : i.pace.wready = true := chosen
      rw [if_pos chosen]
      exact Nat.succ_pos _
    omega
  | perform =>
    have some_ : 0 < (s.memory.performs i.pace).toList.length := by
      unfold ByteMemory.performs
      have chosen : i.pace.perform = true := chosen
      rw [chosen]
      cases places : s.memory.places with
      | nil => exact absurd places waits.1
      | cons place rest =>
        cases lanes : s.memory.lanes with
        | nil => exact absurd lanes waits.2
        | cons lane others => exact Nat.succ_pos _
    omega
  | answer =>
    have some_ : 0 < (s.memory.answered i.pace).toList.length := by
      unfold ByteMemory.answered
      have chosen : i.pace.answer = true := chosen
      rw [if_pos chosen]
      cases answers : s.memory.answers with
      | nil => exact absurd answers waits
      | cons id rest => exact Nat.succ_pos _
    omega
  | line =>
    obtain ⟨b, offered⟩ := Option.isSome_iff_exists.mp waits
    have some_ : 0 < (s.taken c i).reads.length := by
      unfold Packed.taken
      rw [offered]
      dsimp only
      have chosen : i.pace.arready = true := chosen
      rw [if_pos chosen]
      unfold beatsFrom
      rw [List.length_map, List.length_range]
      exact Nat.succ_pos _
    omega
  | give =>
    have some_ : 0 < (s.memory.given i.pace).toList.length := by
      unfold ByteMemory.given
      have chosen : i.pace.give = true := chosen
      rw [if_pos chosen]
      cases reads : s.memory.reads with
      | nil => exact absurd reads waits
      | cons addr rest => exact Nat.succ_pos _
    omega

theorem Held.kept_address (now : s.current = some (.write bus word))
    (going : s.done c i = false) (waits : Waits c s .address) (ready : i.pace.awready = false) :
    Waits c (s.next c i) .address := by
  obtain ⟨reads, gone, n, writing⟩ := held.writing bus word now
  obtain ⟨current, -⟩ := next_of_going _ now going
  have sent := next_sent now going
  have regs := @next_master c i s
  have idle : s.master.awTaken c s.req (s.axi i) = false := by simp [Master.awTaken, axi, ready]
  unfold Waits at waits ⊢
  cases taken : s.sent with
  | false =>
    obtain ⟨contV, -, -⟩ := writing.unsent taken
    obtain ⟨aw, -, accept⟩ := @sends_fresh c i s bus word now taken contV
    have first : s.master.hdAwDone = false := by
      rw [aw] at waits
      cases here : s.master.hdAwDone with
      | false => rfl
      | true =>
        rw [here] at waits
        cases waits
    rw [first, ready, Bool.or_false, Bool.false_and] at accept
    rw [taken, accept, Bool.or_false] at sent
    have asks : s.req.wReq = true := by
      rw [req_write now, taken]
      rfl
    rw [accept, contV, asks, idle, first] at regs
    rw [(@sends_fresh c i _ bus word current sent regs.1).1, regs.2.1]
    rfl
  | true =>
    obtain ⟨aw, -, accept⟩ := @sends_taken c i s bus word now taken
    rw [taken, Bool.true_or] at sent
    rw [aw] at waits
    have open_ : (s.master.contV && s.master.contAw && !s.master.contAwDone) = true := by
      cases here : s.master.contV && s.master.contAw && !s.master.contAwDone with
      | true => rfl
      | false =>
        rw [here] at waits
        cases waits
    simp only [Bool.and_eq_true, Bool.not_eq_true'] at open_
    obtain ⟨⟨contV, contAw⟩, contAwDone⟩ := open_
    obtain ⟨contAw', -, -, -, -, -, others, -⟩ := next_waiting accept
    obtain ⟨awDone, -⟩ := others contV
    rw [accept, contV, contAw, contAwDone, idle] at regs
    rw [contAwDone, idle] at awDone
    rw [(@sends_taken c i _ bus word current sent).1, regs.1, contAw', contAw, awDone]
    rfl

theorem Held.kept_data (now : s.current = some (.write bus word))
    (going : s.done c i = false) (waits : Waits c s .data) (ready : i.pace.wready = false) :
    Waits c (s.next c i) .data := by
  obtain ⟨reads, gone, n, writing⟩ := held.writing bus word now
  obtain ⟨current, -⟩ := next_of_going _ now going
  have sent := next_sent now going
  have regs := @next_master c i s
  have idle : s.master.wBeatTaken c s.req (s.axi i) = false := by simp [Master.wBeatTaken, axi, ready]
  unfold Waits at waits ⊢
  cases taken : s.sent with
  | false =>
    obtain ⟨contV, -, -⟩ := writing.unsent taken
    obtain ⟨-, w, accept⟩ := @sends_fresh c i s bus word now taken contV
    have first : s.master.hdWDone = false := by
      rw [w] at waits
      cases here : s.master.hdWDone with
      | false => rfl
      | true =>
        rw [here] at waits
        cases waits
    rw [first, ready, Bool.or_false, Bool.and_false] at accept
    rw [taken, accept, Bool.or_false] at sent
    have asks : s.req.wReq = true := by
      rw [req_write now, taken]
      rfl
    rw [accept, contV, asks, idle, first] at regs
    rw [(@sends_fresh c i _ bus word current sent regs.1).2.1, regs.2.2]
    rfl
  | true =>
    obtain ⟨-, w, accept⟩ := @sends_taken c i s bus word now taken
    rw [taken, Bool.true_or] at sent
    rw [w] at waits
    have open_ : (s.master.contV && !s.master.contWDone) = true := by
      cases here : s.master.contV && !s.master.contWDone with
      | true => rfl
      | false =>
        rw [here] at waits
        cases waits
    simp only [Bool.and_eq_true, Bool.not_eq_true'] at open_
    obtain ⟨contV, contWDone⟩ := open_
    obtain ⟨-, -, -, -, -, -, others, -⟩ := next_waiting accept
    obtain ⟨-, wDone⟩ := others contV
    rw [accept, contV, contWDone, idle, Bool.or_false, Bool.and_false] at regs
    rw [contWDone, idle] at wDone
    rw [(@sends_taken c i _ bus word current sent).2.1, regs.1, wDone]
    rfl

theorem Held.kept_line (now : s.current = some (.read line))
    (going : s.done c i = false) (waits : Waits c s .line) (ready : i.pace.arready = false) :
    Waits c (s.next c i) .line := by
  obtain ⟨writes, n, reading⟩ := held.reading line now
  obtain ⟨current, -⟩ := next_of_going _ now going
  have sent := next_sent_read now going
  unfold Waits at waits ⊢
  cases taken : s.sent with
  | false =>
    obtain ⟨-, arTaken, -, rstate⟩ := @sends_line c i s line now taken (reading.fresh taken)
    rw [ready, if_neg Bool.false_ne_true] at rstate
    rw [taken, arTaken, ready, Bool.or_false] at sent
    rw [(@sends_line c i _ line current sent rstate).1]
    rfl
  | true =>
    obtain ⟨live, second, -⟩ := reading.next_state now taken going
    have still : s.master.rstate = .second := by
      have started := (reading.took taken).1
      unfold Master.ar at waits
      cases here : s.master.rstate with
      | idle => exact absurd here started
      | second => rfl
      | data =>
        rw [here] at waits
        cases waits
    unfold Master.ar
    rw [second.mpr ⟨still, ready⟩]
    rfl

theorem Held.sends_write (waits : Waits c s .address ∨ Waits c s .data) :
    ∃ bus word, s.current = some (.write bus word) := by
  have quiet (writes : WriteQuiet s) (none_ : s.req.wReq = false) : False := by
    obtain ⟨aw, w⟩ := @WriteQuiet.sends c s writes none_
    unfold Waits at waits
    rw [aw, w] at waits
    simp at waits
  cases now : s.current with
  | none =>
    have asks : s.req.wReq = false := by
      unfold req
      rw [now]
    exact (quiet (held.idle now).1 asks).elim
  | some op =>
    cases op with
    | write bus word => exact ⟨bus, word, rfl⟩
    | read line => exact (quiet (held.reading line now).1 (by rw [req_read now])).elim

theorem Held.sends_read (waits : Waits c s .line) :
    ∃ line, s.current = some (.read line) := by
  have quiet (reads : ReadQuiet s) (none_ : s.req.arReq = false) : False := by
    have ar := @ReadQuiet.sends c s reads none_
    unfold Waits at waits
    rw [ar] at waits
    cases waits
  cases now : s.current with
  | none =>
    have asks : s.req.arReq = false := by
      unfold req
      rw [now]
    exact (quiet (held.idle now).2.1 asks).elim
  | some op =>
    cases op with
    | write bus word => exact (quiet (held.writing bus word now).1 (by rw [req_write now])).elim
    | read line => exact ⟨line, rfl⟩

theorem Held.kept (going : s.done c i = false) (event : Event)
    (waits : Waits c s event) (chosen : Chosen i.pace event = false) : Waits c (s.next c i) event := by
  cases event with
  | address =>
    obtain ⟨bus, word, now⟩ := held.sends_write (.inl waits)
    exact held.kept_address now going waits chosen
  | data =>
    obtain ⟨bus, word, now⟩ := held.sends_write (.inr waits)
    exact held.kept_data now going waits chosen
  | perform =>
    have still : s.memory.performs i.pace = none := by
      unfold ByteMemory.performs
      have chosen : i.pace.perform = false := chosen
      rw [chosen]
    constructor
    · simp [Packed.next, ByteMemory.next, still, waits.1]
    · simp [Packed.next, ByteMemory.next, still, waits.2]
  | answer =>
    have chosen : i.pace.answer = false := chosen
    have waits : s.memory.answers ≠ [] := waits
    show (s.memory.next i.pace _).answers ≠ []
    simp [ByteMemory.next, ByteMemory.answered, chosen, waits]
  | line =>
    obtain ⟨line, now⟩ := held.sends_read waits
    exact held.kept_line now going waits chosen
  | give =>
    have chosen : i.pace.give = false := chosen
    have waits : s.memory.reads ≠ [] := waits
    show (s.memory.next i.pace _).reads ≠ []
    simp [ByteMemory.next, ByteMemory.given, chosen, waits]

end

theorem lasts_of_all {slot : BitVec 4} {n : Nat} (all : (c.writePlaces bus slot).length ≤ n) :
    (((c.writePlaces bus slot).take n).filter (·.last)).length = if c.split bus then 2 else 1 := by
  rw [List.take_of_length_le all, MasterConfig.writePlaces_eq]
  cases split : c.split bus with
  | true =>
    rw [two_of_split split]
    rfl
  | false => cases c.two bus <;> rfl

theorem Writing.memory_waits {n : Nat} {gone : List (BitVec 4)} {orig : Bytes}
    (writing : Writing c s bus word orig gone n) (taken : s.sent = true) (sent : s.master.contV = false) :
    Waits c s .perform ∨ Waits c s .answer := by
  have places := congrArg List.length writing.performed.places
  have lanes := congrArg List.length writing.performed.lanes
  have answers := congrArg List.length writing.performed.answers
  have left := writing.left
  have beats : (c.writeLanes bus word).length = (c.writePlaces bus s.slot).length := by
    rw [MasterConfig.writePlaces_eq]
    unfold MasterConfig.writeLanes
    cases c.two bus <;> rfl
  unfold comingPlaces at places
  unfold comingLanes at lanes
  rw [taken, sent, List.length_append, List.length_drop] at places lanes
  simp only [Bool.false_and, Bool.false_eq_true, if_false, if_true, List.length_nil] at places lanes
  by_cases more : n < (c.writePlaces bus s.slot).length
  · exact .inl ⟨List.length_pos_iff.mp (by omega), List.length_pos_iff.mp (by omega)⟩
  · rw [List.length_append, List.length_map, lasts_of_all (by omega)] at answers
    exact .inr (List.length_pos_iff.mp (by omega))

theorem Held.some_waits (held : Held c s bytes) (aligned : c.Aligned) (busy : s.current ≠ none) :
    ∃ event, Waits c s event := by
  cases now : s.current with
  | none => exact absurd now busy
  | some op =>
    cases op with
    | write bus word =>
      obtain ⟨-, gone, n, writing⟩ := held.writing bus word now
      cases taken : s.sent with
      | false =>
        obtain ⟨contV, -, notBoth⟩ := writing.unsent taken
        obtain ⟨aw, w, -⟩ := @sends_fresh c ⟨none, ⟨false, false, false, false, false, false⟩, 0⟩ s bus word
          now taken contV
        cases address : s.master.hdAwDone with
        | false =>
          rw [address] at aw
          exact ⟨.address, by unfold Waits; rw [aw]; rfl⟩
        | true =>
          rw [address, Bool.true_and] at notBoth
          rw [notBoth] at w
          exact ⟨.data, by unfold Waits; rw [w]; rfl⟩
      | true =>
        cases contV : s.master.contV with
        | false =>
          rcases writing.memory_waits taken contV with waits | waits
          · exact ⟨.perform, waits⟩
          · exact ⟨.answer, waits⟩
        | true =>
          obtain ⟨aw, w, -⟩ := @sends_taken c ⟨none, ⟨false, false, false, false, false, false⟩, 0⟩ s bus
            word now taken
          obtain ⟨-, -, -, -, -, more⟩ := writing.cont taken contV
          cases data : s.master.contWDone with
          | false =>
            rw [contV, data] at w
            exact ⟨.data, by unfold Waits; rw [w]; rfl⟩
          | true =>
            rw [data, Bool.true_and, Bool.or_eq_false_iff, Bool.not_eq_false'] at more
            rw [contV, more.1, more.2] at aw
            exact ⟨.address, by unfold Waits; rw [aw]; rfl⟩
    | read line =>
      obtain ⟨-, n, reading⟩ := held.reading line now
      cases taken : s.sent with
      | false =>
        refine ⟨.line, ?_⟩
        unfold Waits Master.ar
        rw [reading.fresh taken, req_read now, taken]
        rfl
      | true =>
        cases state : s.master.rstate with
        | idle => exact absurd state (reading.took taken).1
        | second =>
          refine ⟨.line, ?_⟩
          unfold Waits Master.ar
          rw [state]
          rfl
        | data =>
          have reads := congrArg List.length reading.gave
          unfold comingReads at reads
          rw [taken, state, c.lineReads_eq aligned, List.length_append, List.length_drop, List.length_map,
            List.length_range] at reads
          simp only [if_true, reduceCtorEq, if_false, List.length_nil] at reads
          have left := reading.left
          exact ⟨.give, List.length_pos_iff.mp (by omega)⟩

variable {m : Master} {e : Nat → PackedIn} {t : Nat}

/-- Under a fair memory every operation is answered. -/
theorem answered_of_fair (aligned : c.Aligned) (fair : Fair e) (op : PackedOp)
    (now : (run c m bytes e t).current = some op) :
    ∃ later, t ≤ later ∧ (run c m bytes e later).current = some op ∧
      (run c m bytes e later).done c (e later) = true := by
  by_contra never
  have always (u : Nat) (after : t ≤ u) : (run c m bytes e u).current = some op ∧
      (run c m bytes e u).done c (e u) = false := by
    have going (u : Nat) (after : t ≤ u) (here : (run c m bytes e u).current = some op) :
        (run c m bytes e u).done c (e u) = false := by
      rw [← Bool.not_eq_true]
      exact fun done => never ⟨u, after, here, done⟩
    induction u, after using Nat.le_induction with
    | base => exact ⟨now, going t (Nat.le_refl t) now⟩
    | succ u after ih =>
      have here : (run c m bytes e (u + 1)).current = some op := (next_of_going op ih.1 ih.2).1
      exact ⟨here, going (u + 1) (Nat.le_succ_of_le after) here⟩
  have held (u : Nat) : Held c (run c m bytes e u) bytes := held_run aligned m bytes e u
  have busy (u : Nat) (after : t ≤ u) : (run c m bytes e u).current ≠ none := by
    rw [(always u after).1]
    exact Option.some_ne_none op
  obtain ⟨-, -, reached⟩ := @met_of_fair Event (fun u => (run c m bytes e u).rank c) (fun _ => False)
    (fun event u => Waits c (run c m bytes e u) event) (fun event u => Chosen (e u).pace event = true) t
    (fun u after _ => (held u).some_waits aligned (busy u after))
    (fun event u after _ _ waits chosen =>
      (held u).kept (always u after).2 event waits (Bool.not_eq_true _ ▸ chosen))
    (fun u after _ => (held u).rank_le (always u after).2 (busy u after))
    (fun event u after _ waits chosen => (held u).falls (always u after).2 (busy u after) event waits chosen)
    fair
  exact reached

theorem Held.aw_within (held : Held c s bytes) {b : AwBeat} (offered : s.master.aw c s.req = some b) :
    WithinPage b.addr b.len := by
  have waits : Waits c s .address := by
    unfold Waits
    rw [offered]
    rfl
  obtain ⟨bus, word, now⟩ := held.sends_write (.inl waits)
  obtain ⟨-, gone, n, writing⟩ := held.writing bus word now
  cases taken : s.sent with
  | false =>
    have contV := (writing.unsent taken).1
    rw [(@sends_fresh c ⟨none, ⟨false, false, false, false, false, false⟩, 0⟩ s bus word now taken
      contV).1] at offered
    split at offered
    · cases offered
    · rw [← Option.some.inj offered]
      exact c.firstAw_within bus s.slot
  | true =>
    rw [(@sends_taken c ⟨none, ⟨false, false, false, false, false, false⟩, 0⟩ s bus word now
      taken).1] at offered
    split at offered
    · rename_i open_
      simp only [Bool.and_eq_true] at open_
      obtain ⟨-, -, address, -⟩ := writing.cont taken open_.1.1
      rw [← Option.some.inj offered]
      dsimp only
      rw [address]
      exact c.second_within bus
    · cases offered

theorem Held.ar_within (held : Held c s bytes) (aligned : c.Aligned) {b : ArBeat}
    (offered : s.master.ar c s.req = some b) : WithinPage b.addr b.len := by
  have waits : Waits c s .line := by
    unfold Waits
    rw [offered]
    rfl
  obtain ⟨line, now⟩ := held.sends_read waits
  obtain ⟨-, n, reading⟩ := held.reading line now
  cases taken : s.sent with
  | false =>
    have rstate := reading.fresh taken
    rw [(@sends_line c ⟨none, ⟨false, false, false, false, false, false⟩, 0⟩ s line now taken
      rstate).1] at offered
    rw [← Option.some.inj offered]
    exact c.lineAr_within aligned line
  | true =>
    obtain ⟨live, -, -, second, -⟩ := reading.took taken
    unfold Master.ar at offered
    cases state : s.master.rstate with
    | idle => exact absurd state live
    | second =>
      rw [state] at offered
      rw [← Option.some.inj offered, second state]
      exact c.secondAr_within line
    | data =>
      rw [state] at offered
      cases offered

/-- Packed storage is a memory of words. No burst leaves its 4 KiB; with nothing under way the bytes are
what the writes answered made of them, and a write under way has touched only its own word's; a line read
brings each of its words' bytes, a window's with a fixnum's tag; and a memory that keeps doing its part
has every operation answered. -/
theorem packed_storage (c : MasterConfig) (aligned : c.Aligned) (m : Master) (bytes : Bytes)
    (e : Nat → PackedIn) (t : Nat) :
    let s := run c m bytes e t
    (∀ b, s.master.aw c s.req = some b → WithinPage b.addr b.len) ∧
    (∀ b, s.master.ar c s.req = some b → WithinPage b.addr b.len) ∧
    (s.current = none → s.memory.bytes = s.expected c bytes) ∧
    (∀ bus word a, s.current = some (.write bus word) → MasterConfig.size bus ≤ (a - c.place bus).toNat →
      s.memory.bytes a = s.expected c bytes a) ∧
    (∀ bus word, s.current = some (.write bus word) → s.done c (e t) = true →
      (run c m bytes e (t + 1)).memory.bytes = c.store (s.expected c bytes) bus word) ∧
    (∀ line, s.current = some (.read line) → s.memory.bytes = s.expected c bytes ∧
      (s.done c (e t) = true → ∀ k < 8,
        (s.master.rdData (s.axi (e t))).extractLsb' (40 * k) 40 =
          c.load (s.expected c bytes) (line ++ BitVec.ofNat 3 k))) ∧
    (Fair e → ∀ op, s.current = some op → ∃ later, t ≤ later ∧
      (run c m bytes e later).current = some op ∧
      (run c m bytes e later).done c (e later) = true) := by
  have held := held_run aligned m bytes e t
  refine ⟨fun b => held.aw_within, fun b => held.ar_within aligned, fun now => (held.idle now).2.2.2,
    ?_, ?_, ?_, fun fair op now => answered_of_fair aligned fair op now⟩
  · intro bus word a now outside
    obtain ⟨-, gone, n, writing⟩ := held.writing bus word now
    rw [writing.performed.bytes]
    exact c.wrote_outside bus word _ n outside
  · intro bus word now done
    exact held.wrote aligned now done
  · intro line now
    obtain ⟨-, n, reading⟩ := held.reading line now
    exact ⟨reading.bytes, fun done k inside => held.gave aligned now done inside⟩

/-- The declared layout, main memory from 0. -/
def declared : MasterConfig := ⟨0, 0x0A000000, true⟩

/-- A master at power on. -/
def powerOn : Master where
  rstate := .idle
  secondAddr := 0
  secondLen := 0
  beat := 0
  beats := fun _ => 0
  rWin := false
  contV := false
  contAw := false
  contAwDone := false
  contWDone := false
  hdAwDone := false
  hdWDone := false
  contAddr := 0
  contData := 0
  contStrb := 0
  contId := 0
  splitQ := fun _ => false
  firstBQ := fun _ => false
  errQ := fun _ => false
  ansPtr := 0

/-- Word 819, whose second beat starts a page, written to a memory that is always ready. -/
def splitWrite (k : Nat) : PackedIn where
  start := if k = 0 then some (.write 819 0x0504030201) else none
  pace := ⟨true, true, true, true, true, true⟩
  resp := 0

/-- The word's bytes on both sides of the page's end. -/
theorem packed_storage_split :
    (run declared powerOn (fun _ => 0) splitWrite 6).memory.bytes 4095 = 1 ∧
      (run declared powerOn (fun _ => 0) splitWrite 6).memory.bytes 4096 = 2 := by
  have quiet : (run declared powerOn (fun _ => 0) splitWrite 6).current = none := by decide +kernel
  rw [(packed_storage declared (by decide) powerOn (fun _ => 0) splitWrite 6).2.2.1 quiet]
  decide +kernel

end Packed

end MuirFpga.Quux
