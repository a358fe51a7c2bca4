import MuirFpga.Cadr.Park

/-!
# MD's three writers

MD is loaded by the instruction's own store, by a read's word and by a foreign master's `UB MD
LOAD`. A read's word is strobed by `-LOADMD`, which falls once a granted cycle, and is loaded
at the first master clock edge or `-HANG` from there on. What keeps the three apart is the
gate on the foreign word: MBUSY and the held word cover the whole of a read's way into MD.
-/

namespace MuirFpga.Cadr

namespace Machine

open Processor

/-- `-LOADMD` falls. -/
def strobes (i : MachIn) (s : Machine) : Bool :=
  !s.bus.nLoadmd i.bus s.cpu.memrq && s.cpu.mdp.nLoadmdQ

/-- A read's word is loaded into MD: its strobe or the held word, at a boundary or under
`-HANG`. -/
def loadsWord (i : MachIn) (s : Machine) : Bool :=
  (s.cpu.loadmdEdge (s.procIn i) || s.cpu.mdp.mdPending)
    && (s.cpu.mclkEdge || s.cpu.hang (s.procIn i))

/-- The instruction stores into MD at this edge. -/
def stores (i : MachIn) (s : Machine) : Bool :=
  s.cpu.cpuEdge (s.procIn i) && (s.cpu.inst (s.procIn i)).destmdr

/-- A prepared and permitted cycle goes out at this edge. -/
def goesOut (s : Machine) : Bool := s.cpu.starts && s.cpu.memgo

/-- The fall of `-LOADMD` for the standing request is still to come. -/
def wordOwed (s : Machine) : Bool :=
  s.bus.state == .arb || s.bus.state == .granted
    || ((s.bus.state == .ub || s.bus.state == .acked) && s.cpu.mdp.nLoadmdQ)

/-- The strobe's copy against the interface's state, and a held word against MEMSTART. -/
structure Words (s : Machine) : Prop where
  strobe : s.bus.state = .ub → s.bus.ubLoadmd = true →
    s.bus.ssynSeen = true ∧ s.bus.ubMdAt ≤ s.bus.elapsed
  copy : s.bus.state ≠ .ub → s.bus.state ≠ .acked → s.cpu.mdp.nLoadmdQ = true
  fallen : s.bus.state = .ub → s.cpu.mdp.nLoadmdQ = false → s.bus.ubLoadmd = true
  acked : s.bus.state = .acked → s.cpu.mdp.nLoadmdQ = true → s.cpu.vctl.nMemackQ = true
  held : s.cpu.mdp.mdPending = true → s.cpu.vctl.memstart = false

section

variable {i : MachIn} {s : Machine}

theorem strobes_eq : strobes i s = ((s.bus.acked i.bus s.cpu.memrq
    || (s.bus.state == .ub && s.bus.ubLoadmd)) && s.cpu.mdp.nLoadmdQ) := by
  simp [strobes, Busint.nLoadmd]

theorem loadmdEdge_eq : s.cpu.loadmdEdge (s.procIn i) = (strobes i s && s.cpu.vctl.rdcyc) := by
  simp [loadmdEdge, strobes, procIn]

theorem owed_of_wordOwed (words : s.Words) (owed : s.wordOwed = true) : s.owed = true := by
  have acked := words.acked
  simp only [wordOwed, Machine.owed, Busint.inFlight] at owed ⊢
  grind -linarith

theorem wordOwed_of_strobes (strobe : strobes i s = true) : s.wordOwed = true := by
  rw [strobes_eq] at strobe
  have state := @Busint.acked_state i.bus s.cpu.memrq s.bus
  simp only [wordOwed]
  grind -linarith

theorem mbusy_of_loadmdEdge (cycle : s.Cycle) (words : s.Words)
    (edge : s.cpu.loadmdEdge (s.procIn i) = true) : s.cpu.vctl.mbusy = true := by
  have strobe : strobes i s = true := by
    rw [loadmdEdge_eq] at edge
    grind -linarith
  exact (cycle.owes (owed_of_wordOwed words (wordOwed_of_strobes strobe))).1

theorem nLoadmdQ_next : (s.next i).cpu.mdp.nLoadmdQ =
    !(s.bus.acked i.bus s.cpu.memrq || (s.bus.state == .ub && s.bus.ubLoadmd)) := rfl

theorem next_ubLoadmd {b : Busint} {j : BusIn} {mclk memrq wrcyc : Bool}
    (there : (b.next j mclk memrq wrcyc).state = .ub) :
    ((b.next j mclk memrq wrcyc).ubLoadmd =
      (b.ssynSeen && b.state == .ub && decide (b.ubMdAt ≤ b.elapsed))) ∧
    (b.state = .ub → b.ssynSeen = true → (b.next j mclk memrq wrcyc).ssynSeen = true ∧
      (b.next j mclk memrq wrcyc).ubMdAt = b.ubMdAt ∧
      b.elapsed ≤ (b.next j mclk memrq wrcyc).elapsed) := by
  rw [Busint.next_state] at there
  cases state : b.state <;> rw [state] at there
  case idle => simp only [Busint.grantState] at there; grind -linarith
  case requested => simp only [Busint.grantState] at there; grind -linarith
  case arb =>
    simp only [Busint.next, state, Busint.taps, Busint.arbitrate]
    grind -linarith
  case ub =>
    simp only [Busint.next, state, Busint.taps, Busint.elapse]
    grind -linarith
  case granted => grind -linarith
  case acked => grind -linarith

theorem words_next (cycle : s.Cycle) (orderly : Orderly i s) (words : s.Words) :
    (s.next i).Words := by
  have moved := Busint.next_state i.bus s.cpu.mclkEdge s.cpu.memrq s.cpu.vctl.wrcyc s.bus
  have lineState := @Busint.acked_state i.bus s.cpu.memrq s.bus
  have bus : (s.next i).bus = s.bus.next i.bus s.cpu.mclkEdge s.cpu.memrq s.cpu.vctl.wrcyc := rfl
  constructor
  case strobe =>
    intro there strobe
    rw [bus] at there strobe ⊢
    obtain ⟨due, kept⟩ := next_ubLoadmd there
    rw [due] at strobe
    have := kept
    grind -linarith
  case copy =>
    intro notUb notAcked
    rw [nLoadmdQ_next]
    rw [bus, moved] at notUb notAcked
    cases state : s.bus.state <;> grind -linarith
  case fallen =>
    intro there fallen
    rw [nLoadmdQ_next] at fallen
    rw [bus] at there ⊢
    rw [(next_ubLoadmd there).1]
    rw [moved] at there
    have := words.strobe
    cases state : s.bus.state <;> grind -linarith
  case acked =>
    intro there fresh
    rw [nLoadmdQ_next] at fresh
    rw [nMemackQ_next]
    grind -linarith
  case held =>
    intro pending
    by_cases edge : s.cpu.loadmdEdge (s.procIn i) = true
    · exact busy_unprepared_next cycle orderly (mbusy_of_loadmdEdge cycle words edge)
    · have before : s.cpu.mdp.mdPending = true ∧ s.cpu.mclkEdge = false := by
        simp only [Machine.next, Processor.next, mdNext] at pending
        grind -linarith
      rw [next_vctl]
      simp [vctlNext, cpuEdge, before.2, words.held before.1]

theorem next_mdp : (s.next i).cpu.mdp = s.cpu.mdNext (s.procIn i) := rfl

theorem take_alone (cycle : s.Cycle) (words : s.Words)
    (take : s.cpu.ubMdTake (s.procIn i) = true) :
    loadsWord i s = false ∧ stores i s = false ∧ (s.next i).cpu.mdp.md = i.ubMdData := by
  have gate : s.cpu.mdp.mdPending = false ∧ s.cpu.vctl.mbusy = false ∧ stores i s = false := by
    simp only [ubMdTake, stores] at take ⊢
    grind -linarith
  have unstrobed : s.cpu.loadmdEdge (s.procIn i) = false := by
    have := @mbusy_of_loadmdEdge i s cycle words
    grind -linarith
  refine ⟨by simp [loadsWord, unstrobed, gate.1], gate.2.2, ?_⟩
  have store := gate.2.2
  simp only [stores] at store
  rw [next_mdp]
  simp only [mdNext, take, store]
  rfl

theorem md_stands (loads : loadsWord i s = false) (store : stores i s = false)
    (take : s.cpu.ubMdTake (s.procIn i) = false) : (s.next i).cpu.mdp.md = s.cpu.mdp.md := by
  simp only [loadsWord, stores] at loads store
  rw [next_mdp]
  simp only [mdNext, take, store]
  grind -linarith

theorem md_of_strobe (strobe : s.cpu.loadmdEdge (s.procIn i) = true)
    (looks : s.cpu.mclkEdge = true ∨ s.cpu.hang (s.procIn i) = true)
    (take : s.cpu.ubMdTake (s.procIn i) = false) : (s.next i).cpu.mdp.md =
      if stores i s then (s.cpu.view (s.procIn i)).ob else i.rdata := by
  have looking : (s.cpu.mclkEdge || s.cpu.hang (s.procIn i)) = true := by simpa using looks
  rw [next_mdp]
  simp only [mdNext, stores, take, strobe, looking]
  rfl

theorem md_of_held (none : s.cpu.loadmdEdge (s.procIn i) = false)
    (pending : s.cpu.mdp.mdPending = true)
    (looks : s.cpu.mclkEdge = true ∨ s.cpu.hang (s.procIn i) = true)
    (take : s.cpu.ubMdTake (s.procIn i) = false) : (s.next i).cpu.mdp.md =
      if stores i s then (s.cpu.view (s.procIn i)).ob else s.cpu.mdp.mdHeld := by
  have looking : (s.cpu.mclkEdge || s.cpu.hang (s.procIn i)) = true := by simpa using looks
  rw [next_mdp]
  simp only [mdNext, stores, take, none, pending, looking]
  rfl

/-- The cycle that goes out takes its page off the map that VMA addressed, the rest of its
address off VMA as the edge leaves it, and its word off MD as the edge leaves it, a foreign
word on that very edge apart. -/
theorem goesOut_takes (cycle : s.Cycle) (words : s.Words) (out : s.goesOut = true) :
    (s.next i).cpu.vctl.physR =
      s.cpu.vmo.extractLsb' 0 14 ++ (s.next i).cpu.regs.vma.extractLsb' 0 8 ∧
    (s.cpu.ubMdTake (s.procIn i) = false →
      (s.next i).cpu.vctl.wdata = (s.next i).cpu.mdp.md) := by
  simp only [goesOut, Bool.and_eq_true] at out
  have prepared : s.cpu.vctl.memstart = true := by
    have := out.1
    simp only [starts, Bool.and_eq_true] at this
    exact this.2
  have unbusy : s.cpu.vctl.mbusy = false := by
    have := cycle.sync
    have := cycle.prepared prepared
    grind -linarith
  constructor
  · have vma : (s.next i).cpu.regs.vma = if s.cpu.cpuEdge (s.procIn i) &&
        (s.cpu.inst (s.procIn i)).vmaenb then (s.cpu.view (s.procIn i)).vmas
        else s.cpu.regs.vma := by
      simp only [Machine.next, Processor.next, regsNext]
      cases s.cpu.cpuEdge (s.procIn i) <;> cases (s.procIn i).nBoot <;> rfl
    rw [next_vctl, vma]
    simp only [vctlNext, out.1, out.2, physStart, vmaBus]
    grind -linarith
  · intro untaken
    have pending : s.cpu.mdp.mdPending = false := by
      have := words.held
      grind -linarith
    have unstrobed : s.cpu.loadmdEdge (s.procIn i) = false := by
      have := @mbusy_of_loadmdEdge i s cycle words
      grind -linarith
    rw [next_vctl, next_mdp]
    simp only [vctlNext, mdNext, out.1, out.2, mdBus, untaken, pending, unstrobed]
    grind -linarith

theorem cables_stand (quiet : s.goesOut = false) :
    (s.next i).cpu.vctl.physR = s.cpu.vctl.physR ∧
      (s.next i).cpu.vctl.wdata = s.cpu.vctl.wdata := by
  simp only [goesOut] at quiet
  rw [next_vctl]
  simp [vctlNext, quiet]

theorem goesOut_eq_grants (cycle : s.Cycle) : s.goesOut = s.grants := by
  have one := starts_of_grants cycle
  have two := grants_of_starts cycle
  simp only [goesOut]
  grind -linarith

end

section

variable {s : Nat → Machine} {inputs : Nat → MachIn}

theorem Run.words (run : Run s inputs) (t : Nat) : (s t).Words := by
  induction t with
  | zero =>
    obtain ⟨mems, noAutoBoot, start⟩ := run.start
    rw [start]
    constructor <;> simp [reset, resetCpu, Busint.reset]
  | succ t ih => exact run.step t ▸ words_next (run.cycle t) (run.orderly t) ih

theorem Run.wordOwed_next (run : Run s inputs) (t : Nat) : (s (t + 1)).wordOwed =
    ((s t).goesOut || ((s t).wordOwed && !strobes (inputs t) (s t))) := by
  have words := run.words t
  have owes : (s t).wordOwed = true → (s t).cpu.memrq = true := by
    intro owed
    simp [memrq, ((run.cycle t).owes (owed_of_wordOwed words owed)).1]
  have moved := Busint.next_state (inputs t).bus (s t).cpu.mclkEdge (s t).cpu.memrq
    (s t).cpu.vctl.wrcyc (s t).bus
  have bus : ((s t).next (inputs t)).bus.state = ((s t).bus.next (inputs t).bus
    (s t).cpu.mclkEdge (s t).cpu.memrq (s t).cpu.vctl.wrcyc).state := rfl
  have line := @Busint.acked_state (inputs t).bus (s t).cpu.memrq (s t).bus
  have copy := words.copy
  have fallen := words.fallen
  have standing : (s t).bus.state = .acked → (s t).cpu.memrq = true →
      (s t).bus.acked (inputs t).bus (s t).cpu.memrq = true := by
    intro state request
    simp [Busint.acked, Busint.ackStanding, state, request]
  rw [goesOut_eq_grants (run.cycle t), strobes_eq, run.step t, wordOwed, nLoadmdQ_next, bus,
    moved]
  simp only [wordOwed, Machine.grants, Busint.grantState] at owes ⊢
  cases state : (s t).bus.state <;> grind -linarith

section

variable (run : Run s inputs) (slaves : Slaves s inputs)

include run slaves

/-- A read that goes out is strobed once, RDCYC standing, before its acknowledgment is over;
until then MBUSY is up. -/
theorem Run.strobe_of_goesOut {t : Nat} (out : (s t).goesOut = true) (read : (s t).cpu.vctl.rdcyc = true) :
    ∃ u, t < u ∧ (s u).cpu.loadmdEdge ((s u).procIn (inputs u)) = true ∧
      ∀ v, t < v → v ≤ u → (s v).wordOwed = true ∧ (s v).cpu.vctl.mbusy = true ∧
        (v < u → strobes (inputs v) (s v) = false) := by
  have grants : (s t).grants = true := goesOut_eq_grants (run.cycle t) ▸ out
  have owed : (s (t + 1)).wordOwed = true := by rw [run.wordOwed_next t, out]; rfl
  have comes : ∃ u, t + 1 ≤ u ∧ strobes (inputs u) (s u) = true := by
    by_contra never
    push Not at never
    have always : ∀ u, t + 1 ≤ u → (s u).wordOwed = true := by
      refine Sync.always_of_step owed ?_
      intro u after ih
      rw [run.wordOwed_next u, ih]
      have := never u after
      grind -linarith
    obtain ⟨u, after, edge, -⟩ := run.edge_of_grants slaves grants
    have here := always u after
    have copy := (run.words u).copy
    refine never u after ?_
    rw [memackEdge_eq] at edge
    rw [strobes_eq]
    simp only [wordOwed] at here
    grind -linarith
  classical
  let u := Nat.find comes
  have after : t + 1 ≤ u := (Nat.find_spec comes).1
  have strobe : strobes (inputs u) (s u) = true := (Nat.find_spec comes).2
  have before : ∀ v, t + 1 ≤ v → v < u → strobes (inputs v) (s v) = false := by
    intro v afterV early
    have := Nat.find_min comes early
    grind -linarith
  have owedUntil : ∀ v, t + 1 ≤ v → v ≤ u → (s v).wordOwed = true := by
    refine Sync.always_of_step (fun _ => owed) ?_
    intro v afterV ih early
    rw [run.wordOwed_next v, ih (by omega), before v afterV (by omega)]
    simp
  have owes := fun v afterV early =>
    (run.cycle v).owes (owed_of_wordOwed (run.words v) (owedUntil v afterV early))
  -- RDCYC stands: no memory instruction commits over the cycle, and no `-BOOT` cuts it.
  have reading : ∀ v, t + 1 ≤ v → v ≤ u → (s v).cpu.vctl.rdcyc = true := by
    refine Sync.always_of_step (fun _ => ?_) ?_
    · have high := (run.orderly t).grant
      have single := (run.orderly t).single
      have go : (s t).cpu.memgo = true := by
        simp only [goesOut, Bool.and_eq_true] at out
        exact out.2
      rw [run.step t, next_vctl]
      simp only [vctlNext, procIn] at single ⊢
      grind -linarith
    · intro v afterV ih early
      have sync := (run.cycle v).sync (owes v afterV (by omega)).1
      have single := (run.orderly v).single
      have here := owedUntil v afterV (by omega)
      have unstrobed := before v afterV (by omega)
      have high : (inputs v).nBoot = true := by
        by_contra low
        have flight := (run.orderly v).flight (by simpa using low)
        have request : (s v).cpu.memrq = true := by simp [memrq, (owes v afterV (by omega)).1]
        rw [strobes_eq] at unstrobed
        simp only [wordOwed, Busint.inFlight, Busint.acked, Busint.ackStanding] at *
        grind -linarith
      rw [run.step v, next_vctl]
      simp only [vctlNext, procIn] at single ⊢
      grind -linarith
  refine ⟨u, after, ?_, ?_⟩
  · rw [loadmdEdge_eq, strobe, reading u after (Nat.le_refl u)]
    rfl
  · intro v afterV early
    exact ⟨owedUntil v afterV early, (owes v afterV early).1, fun lt => before v afterV lt⟩

/-- A read's word is loaded into MD once: at the first boundary or `-HANG` from its strobe on,
the instruction's store at that edge winning over it, and no foreign word taken until then. -/
theorem Run.word_loaded {t : Nat} (out : (s t).goesOut = true) (read : (s t).cpu.vctl.rdcyc = true) :
    ∃ u c, t < u ∧ u ≤ c ∧ (s u).cpu.loadmdEdge ((s u).procIn (inputs u)) = true ∧
      (∀ v, t < v → v < u → (s v).cpu.loadmdEdge ((s v).procIn (inputs v)) = false) ∧
      (∀ v, u ≤ v → v < c → (s v).cpu.mclkEdge = false ∧
        (s v).cpu.hang ((s v).procIn (inputs v)) = false) ∧
      loadsWord (inputs c) (s c) = true ∧
      (s (c + 1)).cpu.mdp.md = (if stores (inputs c) (s c)
        then ((s c).cpu.view ((s c).procIn (inputs c))).ob else (inputs u).rdata) ∧
      (∀ v, t < v → v ≤ c → (s v).cpu.ubMdTake ((s v).procIn (inputs v)) = false) ∧
      (∀ v, t < v → loadsWord (inputs v) (s v) = true →
        (∀ w, t < w → w < v → (s w).goesOut = false) → v = c) := by
  obtain ⟨u, after, strobe, until_⟩ := run.strobe_of_goesOut slaves out read
  have unstrobed : ∀ v, t < v → v < u →
      (s v).cpu.loadmdEdge ((s v).procIn (inputs v)) = false := by
    intro v afterV early
    rw [loadmdEdge_eq, (until_ v afterV (by omega)).2.2 early]
    rfl
  have comes : ∃ c, u ≤ c ∧ ((s c).cpu.mclkEdge = true ∨
      (s c).cpu.hang ((s c).procIn (inputs c)) = true) := by
    obtain ⟨c, afterC, edge⟩ := run.mclkEdge_comes slaves u
    exact ⟨c, afterC, .inl edge⟩
  classical
  let c := Nat.find comes
  have afterC : u ≤ c := (Nat.find_spec comes).1
  have looks : (s c).cpu.mclkEdge = true ∨ (s c).cpu.hang ((s c).procIn (inputs c)) = true :=
    (Nat.find_spec comes).2
  have quiet : ∀ v, u ≤ v → v < c → (s v).cpu.mclkEdge = false ∧
      (s v).cpu.hang ((s v).procIn (inputs v)) = false := by
    intro v afterV early
    have := Nat.find_min comes early
    grind -linarith
  have alone : ∀ v, t < v → v < c → (s v).goesOut = false := by
    intro v afterV early
    obtain lt | le := Nat.lt_or_ge u v
    · simp [goesOut, starts, (quiet v (by omega) early).1]
    · have still := (busy_unprepared (run.cycle v) (until_ v afterV le).2.1).2.2
      simp [goesOut, still]
  have paid : ∀ v, u + 1 ≤ v → (∀ w, t < w → w < v → (s w).goesOut = false) →
      (s v).cpu.loadmdEdge ((s v).procIn (inputs v)) = false := by
    have unowed : ∀ v, u + 1 ≤ v → (∀ w, t < w → w < v → (s w).goesOut = false) →
        (s v).wordOwed = false := by
      refine Sync.always_of_step ?_ ?_
      · intro none
        have fallen : strobes (inputs u) (s u) = true := by
          rw [loadmdEdge_eq, Bool.and_eq_true] at strobe
          exact strobe.1
        rw [run.wordOwed_next u, none u after (by omega), fallen]
        simp
      · intro v afterV ih none
        rw [run.wordOwed_next v, none v (by omega) (by omega),
          ih (fun w afterW early => none w afterW (by omega))]
        rfl
    intro v afterV none
    have := unowed v afterV none
    have := @wordOwed_of_strobes (inputs v) (s v)
    rw [loadmdEdge_eq]
    grind -linarith
  have pending : ∀ v, t + 1 ≤ v → v ≤ u → (s v).cpu.mdp.mdPending = false := by
    refine Sync.always_of_step (fun _ => ?_) ?_
    · have edge : (s t).cpu.mclkEdge = true := by
        simp only [goesOut, starts, Bool.and_eq_true] at out
        exact out.1.1
      rw [run.step t, next_mdp]
      simp [mdNext, edge]
    · intro v afterV ih early
      rw [run.step v, next_mdp]
      simp [mdNext, unstrobed v (by omega) (by omega), ih (by omega)]
  have held : ∀ v, u + 1 ≤ v → v ≤ c →
      (s v).cpu.mdp.mdPending = true ∧ (s v).cpu.mdp.mdHeld = (inputs u).rdata := by
    refine Sync.always_of_step ?_ ?_
    · intro early
      obtain ⟨edge, hang⟩ := quiet u (Nat.le_refl u) (by omega)
      rw [run.step u, next_mdp]
      simp only [mdNext, strobe, edge, hang]
      simp [procIn]
    · intro v afterV ih early
      obtain ⟨edge, hang⟩ := quiet v (by omega) (by omega)
      obtain ⟨before, word⟩ := ih (by omega)
      have none := paid v afterV (fun w afterW lt => alone w afterW (by omega))
      rw [run.step v, next_mdp]
      simp [mdNext, edge, hang, before, word, none]
  have take : ∀ v, t < v → v ≤ c →
      (s v).cpu.ubMdTake ((s v).procIn (inputs v)) = false := by
    intro v afterV early
    obtain lt | le := Nat.lt_or_ge u v
    · simp [ubMdTake, (held v lt early).1]
    · simp [ubMdTake, (until_ v afterV le).2.1]
  refine ⟨u, c, after, afterC, strobe, unstrobed, quiet, ?_, ?_, take, ?_⟩
  · obtain same | lt := Nat.eq_or_lt_of_le afterC
    · rw [← same] at looks ⊢
      simp only [loadsWord, strobe]
      grind -linarith
    · simp only [loadsWord, (held c lt (Nat.le_refl c)).1]
      grind -linarith
  · have untaken := take c (by omega) (Nat.le_refl c)
    rw [run.step c]
    obtain same | lt := Nat.eq_or_lt_of_le afterC
    · rw [← same] at looks untaken ⊢
      exact md_of_strobe strobe looks untaken
    · obtain ⟨before, word⟩ := held c lt (Nat.le_refl c)
      have none := paid c lt (fun w afterW early => alone w afterW early)
      rw [md_of_held none before looks untaken, word]
  · intro v afterV loads none
    by_contra apart
    simp only [loadsWord] at loads
    obtain early | late := Nat.lt_or_gt_of_ne apart
    · obtain lt | ge := Nat.lt_or_ge v u
      · have := unstrobed v afterV lt
        have := pending v afterV (by omega)
        grind -linarith
      · have := quiet v ge early
        grind -linarith
    · have cleared : ∀ w, c + 1 ≤ w → w ≤ v → (s w).cpu.mdp.mdPending = false := by
        refine Sync.always_of_step (fun _ => ?_) ?_
        · rw [run.step c, next_mdp]
          simp only [mdNext]
          grind -linarith
        · intro w afterW ih le
          have := paid w (by omega) (fun x afterX lt => none x afterX (by omega))
          rw [run.step w, next_mdp]
          simp [mdNext, this, ih (by omega)]
      have := cleared v late (Nat.le_refl v)
      have := paid v (by omega) none
      grind -linarith

theorem Run.mbusy_ends (t : Nat) :
    ∃ u, t ≤ u ∧ (s u).cpu.vctl.mbusy = false := by
  by_cases later : ∃ u, t ≤ u ∧ (s u).owed = true
  · obtain ⟨u, after, owed⟩ := later
    obtain ⟨v, afterV, edge⟩ := run.edge_of_owed slaves owed
    exact ⟨v + 3, by omega, run.mbusy_of_edge edge⟩
  · push Not at later
    refine Sync.met_of_falling_rank (fun u => (s u).cpu.vctl.mfinishT) ?_
    intro u after busy
    have cycle := run.cycle u
    have unowed := later u after
    have up : (s u).cpu.vctl.mbusy = true := by simpa using busy
    have still := (busy_unprepared cycle up).2.2
    have count : (s u).cpu.vctl.mfinishT ≠ 0 := by
      have idle := cycle.idle
      have acked := cycle.acked
      simp only [Machine.owed, Busint.inFlight] at unowed
      cases state : (s u).bus.state <;> grind -linarith
    have unedged : (s u).cpu.memackEdge ((s u).procIn (inputs u)) = false := by
      have := @owed_of_memackEdge (inputs u) (s u)
      grind -linarith
    rw [run.step u, next_vctl]
    simp only [vctlNext, still, unedged]
    grind -linarith

theorem Run.take_comes {t : Nat} (stands : ∀ u, t ≤ u → (∀ v, t ≤ v → v < u →
      (s v).cpu.ubMdTake ((s v).procIn (inputs v)) = false) → (inputs u).ubMdReq = true) :
    ∃ u, t ≤ u ∧ (s u).cpu.ubMdTake ((s u).procIn (inputs u)) = true ∧
      ∀ v, t ≤ v → v < u → (s v).cpu.ubMdTake ((s v).procIn (inputs v)) = false := by
  have comes : ∃ u, t ≤ u ∧ (s u).cpu.ubMdTake ((s u).procIn (inputs u)) = true := by
    by_contra never
    push Not at never
    have untaken : ∀ u, t ≤ u → (s u).cpu.ubMdTake ((s u).procIn (inputs u)) = false :=
      fun u after => by simpa using never u after
    have request : ∀ u, t ≤ u → (inputs u).ubMdReq = true :=
      fun u after => stands u after (fun v afterV _ => untaken v afterV)
    -- Only MBUSY keeps the word out in the first tick of a microcycle.
    have busy : ∀ u, t ≤ u → (s u).cpu.mclkEdge = true → (s (u + 1)).cpu.vctl.mbusy = true := by
      intro u after edge
      have first := phase_after_mclkEdge (run.cycle u).clock ((s u).procIn (inputs u))
      have phase : (s (u + 1)).cpu.clock.gen.phase = 1 := by
        rw [run.step u]
        exact first edge
      have valid := (run.cycle (u + 1)).clock
      have low := valid.gen.read_low
      have penult := valid.gen.penult_at
      have wrap := valid.gen.wrap_at
      have unedged : (s (u + 1)).cpu.mclkEdge = false := by
        have := phase_of_mclkEdge valid
        grind -linarith
      have pending : (s (u + 1)).cpu.mdp.mdPending = false := by
        rw [run.step u, next_mdp]
        simp [mdNext, edge]
      have early : (s (u + 1)).cpu.clock.gen.penult = false ∧
          (s (u + 1)).cpu.clock.gen.last = false := by
        simp only [PhaseGen.penult, PhaseGen.last, phase, penult, wrap]
        grind -linarith
      have wanted : ((s (u + 1)).procIn (inputs (u + 1))).ubMdReq = true :=
        request (u + 1) (by omega)
      have out := untaken (u + 1) (by omega)
      simpa [ubMdTake, pending, cpuEdge, unedged, early.1, early.2, wanted] using out
    obtain ⟨e, afterE, edge⟩ := run.mclkEdge_comes slaves t
    have unprepared : ∀ u, e + 1 ≤ u → (s u).cpu.vctl.memstart = false := by
      have clear : ∀ u, t ≤ u → (s u).cpu.mclkEdge = true →
          (s (u + 1)).cpu.vctl.memstart = false :=
        fun u after edge => (busy_unprepared (run.cycle (u + 1)) (busy u after edge)).1
      refine Sync.always_of_step (clear e afterE edge) ?_
      intro u after ih
      by_cases edgeU : (s u).cpu.mclkEdge = true
      · exact clear u (by omega) edgeU
      · rw [run.step u, next_vctl]
        simp [vctlNext, cpuEdge, edgeU, ih]
    obtain ⟨d, afterD, down⟩ := run.mbusy_ends slaves (e + 1)
    have idle : ∀ u, d ≤ u → (s u).cpu.vctl.mbusy = false := by
      refine Sync.always_of_step down ?_
      intro u after ih
      rw [run.step u, next_vctl]
      simp [vctlNext, starts, unprepared u (by omega), ih]
    obtain ⟨f, afterF, edgeF⟩ := run.mclkEdge_comes slaves d
    have up := busy f (by omega) edgeF
    rw [idle (f + 1) (by omega)] at up
    exact Bool.false_ne_true up
  classical
  refine ⟨Nat.find comes, (Nat.find_spec comes).1, (Nat.find_spec comes).2, ?_⟩
  intro v afterV early
  have := Nat.find_min comes early
  grind -linarith

theorem Run.cables_until {t : Nat} (out : (s t).goesOut = true) :
    ∃ a, t < a ∧ (s a).cpu.memackEdge ((s a).procIn (inputs a)) = true ∧
      ∀ u, t < u → u ≤ a → (s u).cpu.phys ((s u).procIn (inputs u)) = (s (t + 1)).cpu.vctl.physR ∧
        (s u).cpu.vctl.wdata = (s (t + 1)).cpu.vctl.wdata := by
  have grants : (s t).grants = true := goesOut_eq_grants (run.cycle t) ▸ out
  obtain ⟨a, after, edge, busy, -, -⟩ := run.edge_of_grants slaves grants
  have clear := fun u afterU early => busy_unprepared (run.cycle u) (busy u afterU early)
  have stand : ∀ u, t + 1 ≤ u → u ≤ a → (s u).cpu.vctl.physR = (s (t + 1)).cpu.vctl.physR ∧
      (s u).cpu.vctl.wdata = (s (t + 1)).cpu.vctl.wdata := by
    refine Sync.always_of_step (fun _ => ⟨rfl, rfl⟩) ?_
    intro u afterU ih early
    have quiet : (s u).goesOut = false := by
      simp [goesOut, (clear u afterU (by omega)).2.2]
    obtain ⟨address, word⟩ := cables_stand (i := inputs u) quiet
    rw [run.step u, address, word]
    exact ih (by omega)
  refine ⟨a, after, edge, fun u afterU early => ⟨?_, (stand u afterU early).2⟩⟩
  rw [phys, (clear u afterU early).1]
  exact (stand u afterU early).1

end

end

/-- In every run whose steps are all orderly, MD's three writers lose no word. A read's word is
loaded once, at the first boundary or `-HANG` from its strobe on, where only the instruction's
store wins over it; no foreign word is taken from the read's start to that load. A foreign
word is taken in a tick in which nothing else is loaded, and one whose request stands is
taken. A cycle goes out with the page of the map that VMA addressed, the low byte of VMA as the
edge leaves it and MD as the edge leaves it, a foreign word on that edge apart, and they stand
until its acknowledgment. -/
theorem md_loses_no_word (mems : Mems) (noAutoBoot : Bool) (inputs : Nat → MachIn)
    (orderly : Sync.Meets Orderly next (reset mems noAutoBoot) inputs)
    (slaves : Slaves (at_ mems noAutoBoot inputs) inputs) :
    let s := at_ mems noAutoBoot inputs
    let strobe := fun t => (s t).cpu.loadmdEdge ((s t).procIn (inputs t))
    let take := fun t => (s t).cpu.ubMdTake ((s t).procIn (inputs t))
    (∀ t, (s t).goesOut = true → (s t).cpu.vctl.rdcyc = true →
      ∃ u c, t < u ∧ u ≤ c ∧ strobe u = true ∧ (∀ v, t < v → v < u → strobe v = false) ∧
        (∀ v, u ≤ v → v < c → (s v).cpu.mclkEdge = false ∧
          (s v).cpu.hang ((s v).procIn (inputs v)) = false) ∧
        loadsWord (inputs c) (s c) = true ∧
        (s (c + 1)).cpu.mdp.md = (if stores (inputs c) (s c)
          then ((s c).cpu.view ((s c).procIn (inputs c))).ob else (inputs u).rdata) ∧
        (∀ v, t < v → v ≤ c → take v = false) ∧
        (∀ v, t < v → loadsWord (inputs v) (s v) = true →
          (∀ w, t < w → w < v → (s w).goesOut = false) → v = c)) ∧
    (∀ t, take t = true → loadsWord (inputs t) (s t) = false ∧ stores (inputs t) (s t) = false ∧
      (s (t + 1)).cpu.mdp.md = (inputs t).ubMdData) ∧
    (∀ t, (∀ u, t ≤ u → (∀ v, t ≤ v → v < u → take v = false) → (inputs u).ubMdReq = true) →
      ∃ u, t ≤ u ∧ take u = true ∧ ∀ v, t ≤ v → v < u → take v = false) ∧
    (∀ t, loadsWord (inputs t) (s t) = false → stores (inputs t) (s t) = false → take t = false →
      (s (t + 1)).cpu.mdp.md = (s t).cpu.mdp.md) ∧
    (∀ t, (s t).goesOut = true →
      ((s (t + 1)).cpu.vctl.physR =
        (s t).cpu.vmo.extractLsb' 0 14 ++ (s (t + 1)).cpu.regs.vma.extractLsb' 0 8 ∧
      (take t = false → (s (t + 1)).cpu.vctl.wdata = (s (t + 1)).cpu.mdp.md)) ∧
      ∃ a, t < a ∧ (s a).cpu.memackEdge ((s a).procIn (inputs a)) = true ∧
        ∀ u, t < u → u ≤ a →
          (s u).cpu.phys ((s u).procIn (inputs u)) = (s (t + 1)).cpu.vctl.physR ∧
          (s u).cpu.vctl.wdata = (s (t + 1)).cpu.vctl.wdata) := by
  intro s strobe take
  have run : Run s inputs := ⟨⟨mems, noAutoBoot, rfl⟩, fun t => rfl, orderly⟩
  refine ⟨fun t out read => run.word_loaded slaves out read,
    fun t taken => take_alone (run.cycle t) (run.words t) taken,
    fun t stands => run.take_comes slaves stands,
    fun t loads store untaken => md_stands loads store untaken, fun t out => ⟨?_, ?_⟩⟩
  · exact goesOut_takes (run.cycle t) (run.words t) out
  · exact run.cables_until slaves out

/-- The rule at the read the console stops the machine after: its word is loaded, and then a foreign word
is taken. -/
theorem md_loses_no_word_read :
    (readRun 89).goesOut = true ∧ (∃ c, 89 < c ∧ loadsWord (readIn c) (readRun c) = true) ∧
      ∃ u, 120 ≤ u ∧ (readRun u).cpu.ubMdTake ((readRun u).procIn (readIn u)) = true ∧
        (readRun (u + 1)).cpu.mdp.md = BitVec.allOnes 32 := by
  have slaves : Slaves readRun readIn := by
    refine ⟨?_, fun t timing same => rfl⟩
    intro t granted hold
    simp [readIn, quietIn] at hold
  have out : (readRun 89).goesOut = true := by decide +kernel
  obtain ⟨reads, alone, comes, -⟩ :=
    md_loses_no_word (bootMems [startRead]) false readIn readRun_orderly slaves
  obtain ⟨u, c, after, later, -, -, -, loads, -⟩ := reads 89 out (by decide +kernel)
  obtain ⟨v, late, take, -⟩ := comes 120 fun v late _ => decide_eq_true late
  exact ⟨out, ⟨c, by omega, loads⟩, v, late, take, (alone v take).2.2⟩

/-- The instruction that starts a write. -/
def startWrite : BitVec 48 := 0x900000#48

/-- The instruction that loads VMA with ones. -/
def loadVma : BitVec 48 := 0x801078#48

/-- Memories whose map gives every page its own address. -/
def pagedMems (words : List (BitVec 48)) : Mems :=
  { bootMems words with l2Map := fun adr => 3#2 ++ 0#12 ++ adr }

/-- The map's word for a virtual address. -/
def mapWord (mems : Mems) (vma : BitVec 32) : BitVec 24 :=
  mems.l2Map (mems.l1Map (vma.extractLsb' 13 11) ++ vma.extractLsb' 8 5)

/-- A foreign word asked for in the tick of the edge a write goes out at. -/
def foreignIn (t : Nat) : MachIn :=
  { quietIn false true with ubMdReq := decide (t = 89), ubMdData := BitVec.allOnes 32 }

/-- VMA loaded at the edge its own read goes out at. -/
def vmaRun : Nat → Machine :=
  at_ (pagedMems [startRead, loadVma]) false fun _ => quietIn false true

/-- A foreign word at the edge a write goes out at. -/
def foreignRun : Nat → Machine := at_ (bootMems [startWrite]) false foreignIn

/-- A write committed at the edge a read goes out at. -/
def overRun : Nat → Machine :=
  at_ (bootMems [startRead, startWrite]) false fun _ => quietIn false true

/-- Three ways a word is not where VMA and MD say: a VMA loaded at the edge a cycle goes out at
gives the cycle its low byte and not its page; a foreign word taken at that edge is MD and not
the word the write carries; and a write that commits at a read's own edge has the read's word
strobed and not loaded at the boundary after. -/
theorem md_words_lost :
    ((vmaRun 89).goesOut = true ∧ (vmaRun 90).cpu.vctl.physR ≠
      (mapWord (vmaRun 90).cpu.mems (vmaRun 90).cpu.regs.vma).extractLsb' 0 14 ++
        (vmaRun 90).cpu.regs.vma.extractLsb' 0 8) ∧
    ((foreignRun 89).goesOut = true ∧ (foreignRun 89).cpu.vctl.wrcyc = true ∧
      (foreignRun 90).cpu.vctl.wdata ≠ (foreignRun 90).cpu.mdp.md) ∧
    ((overRun 89).goesOut = true ∧ (overRun 89).cpu.vctl.rdcyc = true ∧
      strobes (quietIn false true) (overRun 103) = true ∧ (overRun 111).cpu.mclkEdge = true ∧
      ∀ u < 112, 89 < u → loadsWord (quietIn false true) (overRun u) = false) := by
  decide +kernel

end Machine

end MuirFpga.Cadr
