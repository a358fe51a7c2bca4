import MuirFpga.Plumbing.Share

/-!
# The gate of the FPGA-to-SDRAM port

`cadr_f2sdram_gate` with `cadr_f2sdram_share`: the port is shut by software, by the processor's request to be
quiet and by the fabric's reset, each at any tick, and goes into reset only once nothing is granted and
nothing outstanding. The processor's own reset, which resets the bridge too, is not among the runs.
-/

namespace MuirFpga.Plumbing

open Sync

/-- A synchronizer of three stages. -/
structure Stages where
  first : Bool
  second : Bool
  third : Bool

def Stages.shift (s : Stages) (x : Bool) : Stages := ⟨x, s.first, s.second⟩

/-- The gate's registers. -/
structure Gate where
  rstS : Stages
  openS : Stages
  reqS : Stages
  drain : Bool
  portRst : Bool
  ackN : Bool
  mayStart : Bool

/-- What a clock brings the gate. -/
structure GateInput where
  rst : Bool
  h2fReset : Bool
  gpOpen : Bool
  reqN : Bool

namespace Gate

variable (g : Gate) (i : GateInput) (idle : Bool)

def hpsRst : Bool := g.rstS.third
def opened : Bool := g.openS.third
def pending : Bool := g.reqS.third
def hold : Bool := g.hpsRst || !g.opened || g.pending || g.drain
def live : Bool := !g.portRst

/-- One clock. -/
def next : Gate where
  rstS := g.rstS.shift i.h2fReset
  openS := g.openS.shift i.gpOpen
  reqS := g.reqS.shift !i.reqN
  drain := if i.rst then true else if g.portRst then false else g.drain
  portRst := g.hpsRst || (g.hold && idle)
  ackN := if i.rst then true else !(g.pending && g.portRst)
  mayStart := if i.rst || g.drain then false else if g.live then true else g.mayStart

/-- Out of the processor's reset, and the machine waiting while the port drains. -/
structure Ready : Prop where
  first : g.rstS.first = false
  second : g.rstS.second = false
  third : g.rstS.third = false
  waits : g.mayStart = true → g.drain = false

end Gate

/-- What a clock brings the port. -/
structure PortInput (n : Nat) where
  gate : GateInput
  share : ShareInput n

/-- The gate, the share, and what the bridge has taken and given. -/
structure Port (c : ShareConfig) where
  gate : Gate
  share : Share c
  seen : Seen c.n

namespace Port

variable {c : ShareConfig} (p : Port c) (i : PortInput c.n)

/-- The share behind the gate. -/
def shareIn : ShareInput c.n := { i.share with rst := p.gate.portRst, hold := p.gate.hold }

/-- One clock. The bridge keeps its account through the port's reset. -/
def next : Port c where
  gate := p.gate.next i.gate p.share.idle
  share := p.share.next (p.shareIn i)
  seen := p.share.see { p.shareIn i with rst := false } p.seen

/-- Every burst taken has been answered, each beat and each response. -/
def answered : Prop :=
  ∀ q, p.seen.rs.count (shareId q) = p.seen.beatsOf (· == q) ∧
    p.seen.bs.count (shareId q) = p.seen.writesOf (· == q)

end Port

section Run

variable {c : ShareConfig}

/-- A run of the port, from a gate that is ready and a share in reset. -/
def portAt (gate : Gate) (inputs : Nat → PortInput c.n) : Nat → Port c :=
  trace (fun i p => p.next i) ⟨gate, Share.reset c, Seen.nothing c.n⟩ inputs

/-- A request that is not taken is there at the next clock, with its address, unless the port is in reset:
a master is held across the port's reset or reset with it. -/
structure PortMasters (gate : Gate) (inputs : Nat → PortInput c.n) : Prop where
  ar : ∀ clock q, (portAt gate inputs clock).gate.portRst = false →
    (portAt gate inputs (clock + 1)).gate.portRst = false →
    ((inputs clock).share.master q).arvalid = true →
    (portAt gate inputs clock).share.sArready ((portAt gate inputs clock).shareIn (inputs clock)) q = false →
    ((inputs (clock + 1)).share.master q).arvalid = true ∧
      ((inputs (clock + 1)).share.master q).ar = ((inputs clock).share.master q).ar
  aw : ∀ clock q, (portAt gate inputs clock).gate.portRst = false →
    (portAt gate inputs (clock + 1)).gate.portRst = false →
    ((inputs clock).share.master q).awvalid = true →
    (portAt gate inputs clock).share.sAwready ((portAt gate inputs clock).shareIn (inputs clock)) q = false →
    ((inputs (clock + 1)).share.master q).awvalid = true ∧
      ((inputs (clock + 1)).share.master q).aw = ((inputs clock).share.master q).aw

/-- The bridge gives no more than it owes, in the port's reset as out of it. -/
structure PortBridge (gate : Gate) (inputs : Nat → PortInput c.n) : Prop where
  r : ∀ clock, (inputs clock).share.mRvalid = true →
    (portAt gate inputs clock).seen.rs.count (inputs clock).share.mRid <
      (portAt gate inputs clock).seen.beatsOf fun q => shareId q == (inputs clock).share.mRid
  b : ∀ clock, (inputs clock).share.mBvalid = true →
    (portAt gate inputs clock).seen.bs.count (inputs clock).share.mBid <
      (portAt gate inputs clock).seen.writesOf fun q => shareId q == (inputs clock).share.mBid

end Run

section Kept

variable {c : ShareConfig} {p : Port c} {i j : PortInput c.n}

/-- What the bridge may give at a clock. -/
structure Port.Owed (p : Port c) (i : PortInput c.n) : Prop where
  r : i.share.mRvalid = true → p.seen.rs.count i.share.mRid < p.seen.beatsOf fun q => shareId q == i.share.mRid
  b : i.share.mBvalid = true → p.seen.bs.count i.share.mBid < p.seen.writesOf fun q => shareId q == i.share.mBid

/-- What every clock keeps: the share's account, and a port in reset that is idle. -/
structure Port.Kept (p : Port c) (i : PortInput c.n) : Prop where
  reads : ReadsKept p.share p.seen (p.shareIn i)
  writes : WritesKept p.share p.seen (p.shareIn i)
  quiet : p.gate.portRst = true → p.share.idle = true
  ready : p.gate.Ready

theorem Port.Kept.answered (kept : p.Kept i) (idle : p.share.idle = true) : p.answered := by
  have ⟨_, _, zero⟩ := idle_iff.mp idle
  intro q
  have beats := kept.reads.exact q
  have flight := kept.writes.exact q
  have ⟨noBeats, noFlight⟩ := zero q
  exact ⟨by omega, by omega⟩

section

variable (ids : c.n ≤ 32) (kept : p.Kept i) (idle : p.share.idle = true) (owed : p.Owed i)

include ids kept idle owed

theorem Port.Kept.given_none :
    (∀ q, (i.share.mRvalid && (p.shareIn i).rMine q) = false) ∧
      ∀ q, (i.share.mBvalid && (p.shareIn i).bMine q) = false := by
  have answered := kept.answered idle
  refine ⟨fun q => ?_, fun q => ?_⟩
  · by_contra gives
    rw [Bool.not_eq_false, Bool.and_eq_true] at gives
    have id : i.share.mRid = shareId q := beq_iff_eq.mp gives.2
    have more := owed.r gives.1
    rw [id, shareId_beq ids q, (answered q).1] at more
    exact absurd more (Nat.lt_irrefl _)
  · by_contra gives
    rw [Bool.not_eq_false, Bool.and_eq_true] at gives
    have id : i.share.mBid = shareId q := beq_iff_eq.mp gives.2
    have more := owed.b gives.1
    rw [id, shareId_beq ids q, (answered q).2] at more
    exact absurd more (Nat.lt_irrefl _)

theorem Port.Kept.seen_idle :
    p.share.see { p.shareIn i with rst := false } p.seen = p.seen := by
  have ⟨noRead, noWrite, _⟩ := idle_iff.mp idle
  have ⟨noBeat, noResponse⟩ := kept.given_none ids idle owed
  have beats : (i.share.mRvalid && (p.shareIn i).mRready) = false := by
    by_contra gives
    rw [Bool.not_eq_false, Bool.and_eq_true] at gives
    have ⟨q, _, mine⟩ := List.any_eq_true.mp gives.2
    rw [Bool.and_eq_true] at mine
    exact absurd (noBeat q) (by simp [gives.1, mine.2])
  have responses : (i.share.mBvalid && (p.shareIn i).mBready) = false := by
    by_contra gives
    rw [Bool.not_eq_false, Bool.and_eq_true] at gives
    have ⟨q, _, mine⟩ := List.any_eq_true.mp gives.2
    rw [Bool.and_eq_true] at mine
    exact absurd (noResponse q) (by simp [gives.1, mine.2])
  have beats : ((p.shareIn i).mRvalid && ShareInput.mRready { p.shareIn i with rst := false }) = false := beats
  have responses : ((p.shareIn i).mBvalid && ShareInput.mBready { p.shareIn i with rst := false }) = false :=
    responses
  simp [Share.see, Share.mArvalid, Share.awTake, Share.mAwvalid, Share.mWvalid, noRead, noWrite, beats, responses]

theorem Port.Kept.idle_held (hold : p.gate.hold = true) : (p.share.next (p.shareIn i)).idle = true := by
  obtain ⟨noRead, noWrite, zero⟩ := idle_iff.mp idle
  obtain ⟨noBeat, noResponse⟩ := kept.given_none ids idle owed
  cases rst : p.gate.portRst with
  | true =>
    have reset : p.share.next (p.shareIn i) = Share.reset c := if_pos rst
    rw [reset, idle_iff]
    exact ⟨rfl, rfl, fun _ => ⟨rfl, by simp [Share.reset]⟩⟩
  | false =>
    have clear : (p.shareIn i).rst = false := rst
    have held : (p.shareIn i).hold = true := hold
    rw [idle_iff]
    refine ⟨?_, ?_, fun q => ⟨?_, ?_⟩⟩
    · simp [Share.next, clear, noRead, held]
    · rw [wOn_next clear, noWrite, held]
      rfl
    · have count := toNat_rdBeatsN (s := p.share) (i := p.shareIn i) (p := q) (kept.reads.few q)
        (by simp [noRead]) (by
          intro came
          rw [Bool.and_assoc, Bool.and_left_comm] at came
          have none : ((p.shareIn i).mRvalid && (p.shareIn i).rMine q) = false := noBeat q
          rw [none, Bool.and_false] at came
          exact absurd came Bool.false_ne_true)
      obtain ⟨beats, _⟩ := zero q
      have same : (p.share.next (p.shareIn i)).rdBeats = p.share.rdBeatsN (p.shareIn i) := by
        unfold Share.next
        rw [if_neg (by simp [clear])]
      rw [same]
      simp only [noRead, Bool.false_and, Bool.false_eq_true, if_false] at count
      omega
    · have goes : p.share.wLetGo (p.shareIn i) = false := by
        unfold Share.wLetGo
        rw [noWrite, Bool.false_and, Bool.false_and]
      have count := toNat_wrNN (s := p.share) (i := p.shareIn i) (p := q) (by simp [goes]) (by
          intro came
          rw [Bool.and_assoc, Bool.and_left_comm] at came
          have none : ((p.shareIn i).mBvalid && (p.shareIn i).bMine q) = false := noResponse q
          rw [none, Bool.and_false] at came
          exact absurd came Bool.false_ne_true)
      obtain ⟨_, flight⟩ := zero q
      have same : (p.share.next (p.shareIn i)).wrN = p.share.wrNN (p.shareIn i) := by
        unfold Share.next
        rw [if_neg (by simp [clear])]
      rw [same]
      simp only [goes, Bool.false_and, Bool.false_eq_true, if_false] at count
      omega

end

theorem Gate.Ready.next {g : Gate} {i : GateInput} {idle : Bool} (ready : g.Ready) (reset : i.h2fReset = false) :
    (g.next i idle).Ready where
  first := reset
  second := ready.first
  third := ready.second
  waits := by
    intro starts
    have waits := ready.waits
    simp only [Gate.next] at starts ⊢
    cases rst : i.rst <;> cases drain : g.drain <;> simp_all

theorem Gate.Ready.portRst_next {g : Gate} {i : GateInput} {idle : Bool} (ready : g.Ready) :
    (g.next i idle).portRst = (g.hold && idle) := by
  show (g.hpsRst || (g.hold && idle)) = _
  rw [show g.hpsRst = false from ready.third, Bool.false_or]

/-- What the masters do from a clock to the next. -/
structure Port.Asked (p : Port c) (i j : PortInput c.n) : Prop where
  ar : ∀ q, p.gate.portRst = false → (p.next i).gate.portRst = false → (i.share.master q).arvalid = true →
    p.share.sArready (p.shareIn i) q = false →
    (j.share.master q).arvalid = true ∧ (j.share.master q).ar = (i.share.master q).ar
  aw : ∀ q, p.gate.portRst = false → (p.next i).gate.portRst = false → (i.share.master q).awvalid = true →
    p.share.sAwready (p.shareIn i) q = false →
    (j.share.master q).awvalid = true ∧ (j.share.master q).aw = (i.share.master q).aw

theorem Port.Kept.next (ids : c.n ≤ 32) (kept : p.Kept i) (reset : i.gate.h2fReset = false) (owed : p.Owed i)
    (asked : p.Asked i j) : (p.next i).Kept j := by
  have quiet : (p.next i).gate.portRst = true → (p.next i).share.idle = true := by
    intro rises
    have rises : (p.gate.hold && p.share.idle) = true := kept.ready.portRst_next.symm.trans rises
    rw [Bool.and_eq_true] at rises
    exact kept.idle_held ids rises.2 owed rises.1
  cases rst : p.gate.portRst with
  | false =>
    have clear : (p.shareIn i).rst = false := rst
    have same : { p.shareIn i with rst := false } = p.shareIn i := by
      rw [← clear]
    have seen : (p.next i).seen = p.share.see (p.shareIn i) p.seen := congrArg (p.share.see · p.seen) same
    refine ⟨?_, ?_, quiet, kept.ready.next reset⟩
    · rw [seen]
      refine readsKept_next ids kept.reads (fun q _ => asked.ar q rst) fun _ => owed.r
    · rw [seen]
      refine writesKept_next ids kept.writes (fun q _ => asked.aw q rst) fun _ => owed.b
  | true =>
    have idle := kept.quiet rst
    have seen : (p.next i).seen = p.seen := kept.seen_idle ids idle owed
    have share : (p.next i).share = Share.reset c := if_pos rst
    have answered := kept.answered idle
    obtain ⟨noRead, noWrite, zero⟩ := idle_iff.mp idle
    refine ⟨?_, ?_, quiet, kept.ready.next reset⟩
    · rw [seen, share]
      refine ⟨fun q => ?_, fun q => Nat.zero_le _, fun _ on => absurd on Bool.false_ne_true,
        fun _ on => absurd on Bool.false_ne_true⟩
      rw [← (answered q).1]
      exact Nat.zero_add _
    · rw [seen, share]
      refine ⟨fun q => ?_, fun q => ?_, fun on => absurd on Bool.false_ne_true,
        fun _ on => absurd on Bool.false_ne_true, ?_⟩
      · rw [← (answered q).2]
        simp [Share.reset]
      · simp [Share.reset]
      · have data := kept.writes.order.data
        simp only [Share.mAwvalid, noWrite, Bool.false_and, Bool.false_eq_true, if_false] at data
        exact ⟨data, fun on => absurd on Bool.false_ne_true, fun on => absurd on Bool.false_ne_true⟩

end Kept

section Run

variable {c : ShareConfig} {gate : Gate} {inputs : Nat → PortInput c.n}

/-- The port keeps its books in every run. -/
theorem portAt_kept (ids : c.n ≤ 32) (ready : gate.Ready) (reset : ∀ clock, (inputs clock).gate.h2fReset = false)
    (masters : PortMasters gate inputs) (bridge : PortBridge gate inputs) (clock : Nat) :
    (portAt gate inputs clock).Kept (inputs clock) := by
  induction clock with
  | zero =>
    refine ⟨⟨fun p => rfl, fun p => Nat.zero_le _, fun _ on => absurd on Bool.false_ne_true,
        fun _ on => absurd on Bool.false_ne_true⟩,
      ⟨fun p => ?_, fun p => ?_, fun on => absurd on Bool.false_ne_true,
        fun _ on => absurd on Bool.false_ne_true, ?_⟩, ?_,
      ready⟩
    · simp [portAt, trace, Share.reset, Seen.nothing, Seen.writesOf, Seen.letGo]
    · simp [portAt, trace, Share.reset]
    · exact ⟨Carried.nothing, fun on => absurd on Bool.false_ne_true,
        fun on => absurd on Bool.false_ne_true⟩
    · intro _
      rw [idle_iff]
      exact ⟨rfl, rfl, fun _ => ⟨rfl, by simp [portAt, trace, Share.reset]⟩⟩
  | succ clock ih =>
    exact ih.next ids (reset clock) ⟨bridge.r clock, bridge.b clock⟩
      ⟨fun q => masters.ar clock q, fun q => masters.aw clock q⟩

/-- An answer goes to the master its id names. -/
theorem routed (ids : c.n ≤ 32) {i : ShareInput c.n} {q : Fin c.n} :
    (i.mRid = shareId q → (∀ other, i.rMine other = (other == q)) ∧ i.mRready = (i.master q).rready) ∧
      (i.mBid = shareId q → (∀ other, i.bMine other = (other == q)) ∧ i.mBready = (i.master q).bready) := by
  have alone (id : BitVec 5) (same : id = shareId q) (other : Fin c.n) : (id == shareId other) = (other == q) := by
    rw [same, Bool.beq_comm]
    exact congrFun (shareId_beq ids q) other
  have any (f : Fin c.n → Bool) (mine : Fin c.n → Bool) (his : ∀ other, mine other = (other == q)) :
      ((List.finRange c.n).any fun p => f p && mine p) = f q := by
    rw [Bool.eq_iff_iff, List.any_eq_true]
    constructor
    · rintro ⟨p, _, both⟩
      rw [Bool.and_eq_true, his, beq_iff_eq] at both
      exact both.2 ▸ both.1
    · intro ready
      exact ⟨q, List.mem_finRange q, by simp [ready, his]⟩
  refine ⟨fun same => ⟨alone _ same, any _ _ (alone _ same)⟩, fun same => ⟨alone _ same, any _ _ (alone _ same)⟩⟩

section Clock

variable {p : Port c} {i j : PortInput c.n}

theorem Port.Kept.put_clear (kept : p.Kept i) (busy : p.share.idle = false) :
    p.gate.portRst = false ∧ (p.next i).gate.portRst = false := by
  refine ⟨?_, ?_⟩
  · cases rst : p.gate.portRst with
    | false => rfl
    | true => exact absurd ((kept.quiet rst).symm.trans busy) (by decide)
  · exact (kept.ready.portRst_next).trans (by rw [busy, Bool.and_false])

/-- An address put and not taken stays. -/
theorem Port.Kept.ar_stays (kept : p.Kept i) (asked : p.Asked i j) (put : p.share.mArvalid = true)
    (waits : i.share.mArready = false) :
    (p.next i).share.mArvalid = true ∧ (p.next i).share.arWho = p.share.arWho ∧
      (p.next i).share.mAr ((p.next i).shareIn j) = p.share.mAr (p.shareIn i) := by
  have on : p.share.arOn = true := put
  have busy : p.share.idle = false := by simp [Share.idle, on]
  obtain ⟨rst, rstN⟩ := kept.put_clear busy
  have clear : (p.shareIn i).rst = false := rst
  have unready : (p.shareIn i).mArready = false := waits
  have onN : (p.next i).share.arOn = true := by simp [Port.next, Share.next, clear, on, unready]
  have whoN : (p.next i).share.arWho = p.share.arWho := by simp [Port.next, Share.next, clear, on]
  refine ⟨onN, whoN, ?_⟩
  unfold Share.mAr
  rw [whoN]
  refine (asked.ar _ rst rstN (kept.reads.asks clear on) ?_).2
  unfold Share.sArready
  rw [unready, Bool.and_false]

/-- So does a write's. -/
theorem Port.Kept.aw_stays (kept : p.Kept i) (asked : p.Asked i j) (put : p.share.mAwvalid = true)
    (waits : i.share.mAwready = false) :
    (p.next i).share.mAwvalid = true ∧ (p.next i).share.wWho = p.share.wWho ∧
      (p.next i).share.mAw ((p.next i).shareIn j) = p.share.mAw (p.shareIn i) := by
  obtain ⟨on, undone⟩ := (Bool.and_eq_true _ _).mp put
  have busy : p.share.idle = false := by simp [Share.idle, on]
  obtain ⟨rst, rstN⟩ := kept.put_clear busy
  have clear : (p.shareIn i).rst = false := rst
  have unready : (p.shareIn i).mAwready = false := waits
  have untaken : p.share.awTake (p.shareIn i) = false := by
    unfold Share.awTake
    rw [unready, Bool.and_false]
  obtain ⟨goes, whoN, awN, _⟩ := put_next (s := p.share) (i := p.shareIn i) clear on
  rw [Bool.not_eq_true'] at undone
  have validN : (p.next i).share.mAwvalid = true := by
    show (p.share.next (p.shareIn i)).mAwvalid = true
    unfold Share.mAwvalid
    rw [goes, awN, wLetGo_eq on, undone, untaken]
    rfl
  refine ⟨validN, whoN, ?_⟩
  unfold Share.mAw
  rw [show (p.next i).share.wWho = p.share.wWho from whoN]
  refine (asked.aw _ rst rstN (kept.writes.asks clear put) ?_).2
  unfold Share.sAwready
  rw [unready, Bool.and_false]

/-- The acknowledgment comes only with nothing outstanding. -/
theorem Port.Kept.acknowledged (ids : c.n ≤ 32) (kept : p.Kept i) (owed : p.Owed i)
    (acks : (p.next i).gate.ackN = false) : (p.next i).share.idle = true := by
  have both : p.gate.pending = true ∧ p.gate.portRst = true := by
    cases rst : i.gate.rst <;> simp [Port.next, Gate.next, rst] at acks
    exact acks
  refine kept.idle_held ids (kept.quiet both.2) owed ?_
  unfold Gate.hold
  rw [both.1, Bool.or_true, Bool.true_or]

end Clock

theorem drained (ids : c.n ≤ 32) (ready : gate.Ready) (reset : ∀ clock, (inputs clock).gate.h2fReset = false)
    (masters : PortMasters gate inputs) (bridge : PortBridge gate inputs) {clock : Nat}
    (rst : (inputs clock).gate.rst = true) (more : Nat) :
    ((portAt gate inputs (clock + 1 + more)).gate.drain = true ∧
      ∀ j, clock < j → j ≤ clock + 1 + more → (portAt gate inputs j).gate.mayStart = false) ∨
    ∃ k, clock < k ∧ k < clock + 1 + more ∧ (portAt gate inputs k).gate.portRst = true ∧
      (portAt gate inputs k).answered ∧ ∀ j, clock < j → j ≤ k → (portAt gate inputs j).gate.mayStart = false := by
  induction more with
  | zero =>
    refine .inl ⟨?_, fun j after upTo => ?_⟩
    · show ((portAt gate inputs clock).gate.next (inputs clock).gate _).drain = true
      simp [Gate.next, rst]
    · have same : j = clock + 1 := by omega
      subst same
      show ((portAt gate inputs clock).gate.next (inputs clock).gate _).mayStart = false
      simp [Gate.next, rst]
  | succ more ih =>
    rcases ih with ⟨drain, waits⟩ | ⟨k, after, before, rises, answered, waits⟩
    · cases inReset : (portAt gate inputs (clock + 1 + more)).gate.portRst with
      | true =>
        have kept := portAt_kept ids ready reset masters bridge (clock + 1 + more)
        refine .inr ⟨clock + 1 + more, by omega, by omega, inReset, kept.answered (kept.quiet inReset), waits⟩
      | false =>
        refine .inl ⟨?_, fun j after upTo => ?_⟩
        · show ((portAt gate inputs (clock + 1 + more)).gate.next (inputs (clock + 1 + more)).gate _).drain = true
          simp [Gate.next, inReset, drain]
        · rcases Nat.lt_or_eq_of_le upTo with sooner | last
          · exact waits j after (by omega)
          · subst last
            show ((portAt gate inputs (clock + 1 + more)).gate.next (inputs (clock + 1 + more)).gate _).mayStart = false
            simp [Gate.next, drain]
    · exact .inr ⟨k, after, by omega, rises, answered, waits⟩

/-- Shutting or resetting the port cuts no transaction and mixes no answer. -/
theorem port_cuts_nothing (c : ShareConfig) (ids : c.n ≤ 32) (gate : Gate) (ready : gate.Ready)
    (inputs : Nat → PortInput c.n) (reset : ∀ clock, (inputs clock).gate.h2fReset = false)
    (masters : PortMasters gate inputs) (bridge : PortBridge gate inputs) (clock : Nat) :
    ((portAt gate inputs clock).gate.portRst = true →
      (portAt gate inputs clock).share.idle = true ∧ (portAt gate inputs clock).answered) ∧
    ((portAt gate inputs clock).share.mArvalid = true → (inputs clock).share.mArready = false →
      (portAt gate inputs (clock + 1)).share.mArvalid = true ∧
      (portAt gate inputs (clock + 1)).share.arWho = (portAt gate inputs clock).share.arWho ∧
      (portAt gate inputs (clock + 1)).share.mAr ((portAt gate inputs (clock + 1)).shareIn (inputs (clock + 1))) =
        (portAt gate inputs clock).share.mAr ((portAt gate inputs clock).shareIn (inputs clock))) ∧
    ((portAt gate inputs clock).share.mAwvalid = true → (inputs clock).share.mAwready = false →
      (portAt gate inputs (clock + 1)).share.mAwvalid = true ∧
      (portAt gate inputs (clock + 1)).share.wWho = (portAt gate inputs clock).share.wWho ∧
      (portAt gate inputs (clock + 1)).share.mAw ((portAt gate inputs (clock + 1)).shareIn (inputs (clock + 1))) =
        (portAt gate inputs clock).share.mAw ((portAt gate inputs clock).shareIn (inputs clock))) ∧
    (∀ q, ((portAt gate inputs clock).share.rdBeats q).toNat + (portAt gate inputs clock).seen.rs.count (shareId q) =
        (portAt gate inputs clock).seen.beatsOf (· == q) ∧
      ((portAt gate inputs clock).share.wrN q).toNat + (portAt gate inputs clock).seen.bs.count (shareId q) =
        (portAt gate inputs clock).seen.writesOf (· == q)) ∧
    (∀ q, ((inputs clock).share.mRid = shareId q →
        (∀ other, ((portAt gate inputs clock).shareIn (inputs clock)).rMine other = (other == q)) ∧
        ((portAt gate inputs clock).shareIn (inputs clock)).mRready = ((inputs clock).share.master q).rready) ∧
      ((inputs clock).share.mBid = shareId q →
        (∀ other, ((portAt gate inputs clock).shareIn (inputs clock)).bMine other = (other == q)) ∧
        ((portAt gate inputs clock).shareIn (inputs clock)).mBready = ((inputs clock).share.master q).bready)) ∧
    ((portAt gate inputs clock).gate.ackN = false →
      (portAt gate inputs clock).share.idle = true ∧ (portAt gate inputs clock).answered) ∧
    ((inputs clock).gate.rst = true → (portAt gate inputs (clock + 1)).gate.mayStart = false ∧
      ∀ later, clock < later → (portAt gate inputs later).gate.mayStart = true →
        ∃ k, clock < k ∧ k < later ∧ (portAt gate inputs k).gate.portRst = true ∧
          (portAt gate inputs k).answered ∧
          ∀ j, clock < j → j ≤ k → (portAt gate inputs j).gate.mayStart = false) ∧
    ((inputs clock).gate.rst = false → (portAt gate inputs clock).gate.mayStart = true →
      (portAt gate inputs (clock + 1)).gate.mayStart = true) := by
  have kept := portAt_kept ids ready reset masters bridge clock
  have asked : (portAt gate inputs clock).Asked (inputs clock) (inputs (clock + 1)) :=
    ⟨fun q => masters.ar clock q, fun q => masters.aw clock q⟩
  refine ⟨fun rises => ⟨kept.quiet rises, kept.answered (kept.quiet rises)⟩, kept.ar_stays asked,
    kept.aw_stays asked, fun q => ⟨kept.reads.exact q, kept.writes.exact q⟩, fun q => routed ids,
    fun acks => ?_, fun rst => ⟨?_, fun later after starts => ?_⟩, fun rst starts => ?_⟩
  · have idle : (portAt gate inputs clock).share.idle = true := by
      cases clock with
      | zero => exact idle_iff.mpr ⟨rfl, rfl, fun _ => ⟨rfl, by simp [portAt, trace, Share.reset]⟩⟩
      | succ before =>
        have kept := portAt_kept ids ready reset masters bridge before
        exact kept.acknowledged ids ⟨bridge.r before, bridge.b before⟩ acks
    exact ⟨idle, kept.answered idle⟩
  · show ((portAt gate inputs clock).gate.next (inputs clock).gate _).mayStart = false
    simp [Gate.next, rst]
  · obtain ⟨more, rfl⟩ := Nat.exists_eq_add_of_le (Nat.succ_le_of_lt after)
    rcases drained ids ready reset masters bridge rst more with ⟨_, waits⟩ | through
    · exact absurd ((waits _ after (Nat.le_refl _)).symm.trans starts) (by decide)
    · exact through
  · show ((portAt gate inputs clock).gate.next (inputs clock).gate _).mayStart = true
    have drained := kept.ready.waits starts
    simp [Gate.next, rst, drained, starts]

/-- The gate as it powers up. -/
def poweredGate : Gate where
  rstS := ⟨false, false, false⟩
  openS := ⟨false, false, false⟩
  reqS := ⟨false, false, false⟩
  drain := false
  portRst := false
  ackN := true
  mayStart := false

/-- The port is open and the fabric is reset at clock 10. The machine's read of two beats and its write were
taken at clock 7 and are answered from clock 11 on; the display asks from clock 9 on, through the port's
reset, until its read is taken. -/
def onePulse (clock : Nat) : PortInput cadrShare.n where
  gate := ⟨clock == 10, false, true, true⟩
  share :=
    { rst := false
      hold := false
      master p :=
        { awvalid := p.val == 0 && clock / 2 == 3
          aw := ⟨0, 0, 3, 1⟩
          wvalid := p.val == 0 && clock / 2 == 3
          w := ⟨0, 0, true⟩
          bready := true
          arvalid := p.val == 0 && clock / 2 == 3 || p.val == 2 && decide (9 ≤ clock) && decide (clock < 19)
          ar := ⟨0, if p.val == 0 then 1 else 0, 3, 1⟩
          rready := true }
      mAwready := true
      mWready := true
      mBid := 0#5
      mBvalid := clock == 12
      mArready := true
      mRid := if clock < 16 then 0#5 else 2#5
      mRvalid := clock == 11 || clock == 13 || clock == 20 }

theorem onePulse_masters : PortMasters (c := cadrShare) poweredGate onePulse := by
  have held : ∀ clock < 19, ∀ q : Fin cadrShare.n,
      (((onePulse clock).share.master q).arvalid = true →
        (portAt (c := cadrShare) poweredGate onePulse clock).share.sArready
          ((portAt (c := cadrShare) poweredGate onePulse clock).shareIn (onePulse clock)) q = false →
        ((onePulse (clock + 1)).share.master q).arvalid = true) ∧
      (((onePulse clock).share.master q).awvalid = true →
        (portAt (c := cadrShare) poweredGate onePulse clock).share.sAwready
          ((portAt (c := cadrShare) poweredGate onePulse clock).shareIn (onePulse clock)) q = false →
        ((onePulse (clock + 1)).share.master q).awvalid = true) := by
    decide
  have early (clock : Nat) (q : Fin cadrShare.n) (asks : ((onePulse clock).share.master q).arvalid = true ∨
      ((onePulse clock).share.master q).awvalid = true) : clock < 19 := by
    simp only [onePulse, Bool.or_eq_true, Bool.and_eq_true, beq_iff_eq, decide_eq_true_eq] at asks
    omega
  exact ⟨fun clock q _ _ asks waits => ⟨(held clock (early clock q (.inl asks)) q).1 asks waits, rfl⟩,
    fun clock q _ _ asks waits => ⟨(held clock (early clock q (.inr asks)) q).2 asks waits, rfl⟩⟩

theorem onePulse_bridge : PortBridge (c := cadrShare) poweredGate onePulse := by
  have owed : ∀ clock < 21,
      ((onePulse clock).share.mRvalid = true →
        (portAt (c := cadrShare) poweredGate onePulse clock).seen.rs.count (onePulse clock).share.mRid <
          (portAt (c := cadrShare) poweredGate onePulse clock).seen.beatsOf fun q =>
            shareId q == (onePulse clock).share.mRid) ∧
      ((onePulse clock).share.mBvalid = true →
        (portAt (c := cadrShare) poweredGate onePulse clock).seen.bs.count (onePulse clock).share.mBid <
          (portAt (c := cadrShare) poweredGate onePulse clock).seen.writesOf fun q =>
            shareId q == (onePulse clock).share.mBid) := by
    decide
  have early (clock : Nat) (gives : (onePulse clock).share.mRvalid = true ∨
      (onePulse clock).share.mBvalid = true) : clock < 21 := by
    simp only [onePulse, Bool.or_eq_true, beq_iff_eq] at gives
    omega
  exact ⟨fun clock gives => (owed clock (early clock (.inl gives))).1 gives,
    fun clock gives => (owed clock (early clock (.inr gives))).2 gives⟩

/-- Two beats and a response are owed at the pulse: the port's reset waits for all three, and comes before
the machine starts again. -/
theorem port_cuts_nothing_onePulse :
    ((portAt (c := cadrShare) poweredGate onePulse 10).share.rdBeats cadrShare.machine).toNat = 2 ∧
    ((portAt (c := cadrShare) poweredGate onePulse 10).share.wrN cadrShare.machine).toNat = 1 ∧
    ∃ k, 10 < k ∧ k < 18 ∧ (portAt (c := cadrShare) poweredGate onePulse k).gate.portRst = true ∧
      (portAt (c := cadrShare) poweredGate onePulse k).answered ∧
      ∀ j, 10 < j → j ≤ k → (portAt (c := cadrShare) poweredGate onePulse j).gate.mayStart = false := by
  have ⟨_, _, _, counts, _, _, pulse, _⟩ := port_cuts_nothing cadrShare (by decide) poweredGate
    ⟨rfl, rfl, rfl, nofun⟩ onePulse (fun _ => rfl) onePulse_masters onePulse_bridge 10
  have beats := (counts cadrShare.machine).1
  have flight := (counts cadrShare.machine).2
  have owed : (portAt (c := cadrShare) poweredGate onePulse 10).seen.beatsOf (· == cadrShare.machine) = 2 ∧
      (portAt (c := cadrShare) poweredGate onePulse 10).seen.writesOf (· == cadrShare.machine) = 1 ∧
      (portAt (c := cadrShare) poweredGate onePulse 10).seen.rs = [] ∧
      (portAt (c := cadrShare) poweredGate onePulse 10).seen.bs = [] := by
    decide
  rw [owed.1, owed.2.2.1] at beats
  rw [owed.2.1, owed.2.2.2] at flight
  exact ⟨beats, flight, (pulse rfl).2 18 (by decide) (by decide)⟩

end Run

end MuirFpga.Plumbing
