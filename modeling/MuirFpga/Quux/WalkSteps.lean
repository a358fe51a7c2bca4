import MuirFpga.Quux.BlockWalk

/-!
# What a clock of the block walk can do

One lemma a state: a clock out of reset is one of the state's outcomes, each with what led to it
and the registers it leaves.
-/

namespace MuirFpga.Quux.Walk

variable {mainWords : Nat} {i : WalkInput} {m : Seam} {s : BlockStore} {w y : Walk}

/-- A clock's registers: those its state made, and the lookup a clock behind the block. -/
def Follows (w x y : Walk) : Prop :=
  ∃ age hits, y = { x with lba := w.block, lookAge := age, hitQ := hits }

theorem next_follows (rst : i.rst = false) (busy : w.v ≠ .idle) :
    Follows w (w.pageStep i (w.stateStep mainWords s i m w.pulses)) (w.next mainWords i m s) := by
  rw [next_running rst]
  unfold made
  rw [started_pulses busy]
  exact ⟨_, _, rfl⟩

theorem next_off (rst : i.rst = false) (busy : w.v ≠ .idle) (off : ¬ w.moves) :
    Follows w (w.stateStep mainWords s i m w.pulses) (w.next mainWords i m s) := by
  have follows : Follows w (w.pageStep i (w.stateStep mainWords s i m w.pulses))
    (w.next mainWords i m s) := next_follows rst busy
  rw [pageStep_aside off] at follows
  exact follows

theorem Follows.aged {x z : Walk} {age : BitVec 2} (follows : Follows w x y)
    (same : x = { z with lookAge := age }) : Follows w z y := by
  obtain ⟨later, hits, rfl⟩ := follows
  exact ⟨later, hits, by rw [same]⟩

/-- The registers a whole page leaves: its last word's address, and the next entry if one is due. -/
def paged (w x : Walk) : Walk :=
  { x with
    lma := w.page ++ 1023#10
    n := if w.more then w.n + 1 else x.n
    base := if w.more then w.base + w.perPage.setWidth 29 else x.base
    k := if w.more then 0 else x.k
    v := if w.more then .ccw else .ended }

/-- The outcomes of `V_IDLE`. -/
inductive Idles (i : WalkInput) (w y : Walk) : Prop
  | started (start : i.start = true) (present : i.drivePresent = true)
      (next : Follows w { w.pulses with
        writing := i.stCmd.extractLsb' 0 4 == 9#4, four := i.stCmd.getLsbD 12, n := 0
        clp := i.stClp, base := 0#1 ++ i.stDa, k := 0, pastEnd := false, nxm := false
        v := .ccw } y)
  | stays (unstarted : ¬ (i.start = true ∧ i.drivePresent = true)) (next : Follows w w.pulses y)

/-- The outcomes of `V_CCW`. -/
inductive Enters (mainWords : Nat) (i : WalkInput) (w y : Walk) : Prop
  | entryPast (free : w.dReq = false) (past : mainWords ≤ w.ccwAddr.toNat)
      (next : Follows w { w.pulses with lma := w.ccwAddr, nxm := true, v := .ended } y)
  | asks (free : w.dReq = false) (inside : w.ccwAddr.toNat < mainWords)
      (next : Follows w { w.pulses with
        lma := w.ccwAddr, dReq := true, dWrite := false, dAddr := w.ccwAddr } y)
  | pagePast (asked : w.dReq = true) (done : i.dDone = true)
      (past : mainWords ≤ (i.dRdata.extractLsb' 10 18 ++ 0#10).toNat)
      (next : Follows w { w.pulses with
        dReq := false, page := i.dRdata.extractLsb' 10 18, more := i.dRdata.getLsbD 0, k := 0
        mw := 0, sb := 0, sn := 0, nxm := true, v := .ended } y)
  | takes (asked : w.dReq = true) (done : i.dDone = true)
      (inside : (i.dRdata.extractLsb' 10 18 ++ 0#10).toNat < mainWords)
      (next : Follows w { w.pulses with
        dReq := false, page := i.dRdata.extractLsb' 10 18, more := i.dRdata.getLsbD 0, k := 0
        mw := 0, sb := 0, sn := 0, v := if w.writing then .look else .glook } y)
  | holds (asked : w.dReq = true) (wait : i.dDone = false) (next : Follows w w.pulses y)

/-- The outcomes of `V_GLOOK`. -/
inductive Gathers (w y : Walk) : Prop
  | past (beyond : w.cur.getLsbD 28 = true)
      (next : Follows w { w.pulses with pastEnd := true, v := .ended } y)
  | foundLast (slot : BitVec 5) (inside : w.cur.getLsbD 28 = false) (looked : w.looked = true)
      (hit : w.hitQ slot = true) (last : w.k = w.perPage - 1)
      (next : Follows w { w.pulses with charge := true, k := 0, v := .look } y)
  | found (slot : BitVec 5) (inside : w.cur.getLsbD 28 = false) (looked : w.looked = true)
      (hit : w.hitQ slot = true) (further : w.k ≠ w.perPage - 1)
      (next : Follows w { w.pulses with charge := true, k := w.k + 1 } y)
  | asks (inside : w.cur.getLsbD 28 = false) (looked : w.looked = true)
      (next : Follows w { w.pulses with reqValid := true, reqPost := true, v := .gwait } y)
  | holds (next : Follows w w.pulses y)

/-- The outcomes of `V_GWAIT` and `V_WAIT`. -/
inductive Waits (back : WalkState) (m : Seam) (w y : Walk) : Prop
  | denied (deny : m.deny = true)
      (next : Follows w { w.pulses with pastEnd := true, reqValid := false, v := .ended } y)
  | comes (granted : m.deny = false) (arrives : w.arrives m = true)
      (next : Follows w { w.pulses with reqValid := false, v := back } y)
  | holds (granted : m.deny = false) (next : Follows w w.pulses y)

/-- The outcomes of `V_LOOK`. -/
inductive Looks (w y : Walk) : Prop
  | past (beyond : w.cur.getLsbD 28 = true)
      (next : Follows w { w.pulses with pastEnd := true, v := .ended } y)
  | chooses (slot : BitVec 5) (inside : w.cur.getLsbD 28 = false) (hit : w.hitQ slot = true)
      (looked : w.looked = true)
      (next : Follows w { w.pulses with
        chSlot := slot, chHit := true, chW := 0, rdValid := false, drained := false
        v := if w.writing then .write else .read } y)
  | asks (inside : w.cur.getLsbD 28 = false) (looked : w.looked = true)
      (next : Follows w { w.pulses with reqValid := true, reqPost := true, v := .wait } y)
  | holds (next : Follows w w.pulses y)

/-- The outcomes of `V_READ`. -/
inductive Reads (s : BlockStore) (i : WalkInput) (w y : Walk) : Prop
  | emits (free : w.dReq = false) (enough : w.perPage.setWidth 4 ≤ w.sn)
      (next : Follows w { w.pulses with
        dReq := true, dWrite := true, dAddr := w.page ++ w.mw
        dWdata := if w.four then 5#8 ++ w.sb.extractLsb' 0 32 else w.sb.extractLsb' 0 40
        sb := if w.four then w.sb >>> 32 else w.sb >>> 40
        sn := w.sn - w.perPage.setWidth 4 } y)
  | blockDone (free : w.dReq = false) (short : w.sn < w.perPage.setWidth 4)
      (drained : w.drained = true)
      (next : Follows w { w.pulses with k := w.k + 1, v := .look } y)
  | pushes (free : w.dReq = false) (short : w.sn < w.perPage.setWidth 4)
      (undrained : w.drained = false) (valid : w.rdValid = true)
      (next : Follows w { w.pulses with
        sb := w.sb ||| (s.chbQ.setWidth 64 <<< (w.sn ++ 0#3)), sn := w.sn + 4, rdValid := false
        drained := if w.chW = 255#8 then true else w.drained
        chW := if w.chW = 255#8 then w.chW else w.chW + 1 } y)
  | latches (free : w.dReq = false) (short : w.sn < w.perPage.setWidth 4)
      (undrained : w.drained = false)
      (next : Follows w { w.pulses with rdValid := true } y)
  | lands (asked : w.dReq = true) (done : i.dDone = true) (further : w.mw ≠ 1023#10)
      (next : Follows w { w.pulses with dReq := false, mw := w.mw + 1 } y)
  | pageDone (asked : w.dReq = true) (done : i.dDone = true) (last : w.mw = 1023#10)
      (next : Follows w (w.paged { w.pulses with dReq := false, mw := w.mw + 1 }) y)
  | holds (asked : w.dReq = true) (wait : i.dDone = false) (next : Follows w w.pulses y)

/-- The registers a store word leaves as it goes to the slot. -/
def handed (w : Walk) : Walk :=
  { w.pulses with
    chbWe := true, chbD := w.sb.extractLsb' 0 32, chbA := w.chWord, sb := w.sb >>> 32
    sn := w.sn - 4 }

/-- The outcomes of `V_WRITE`. -/
inductive Writes (i : WalkInput) (w y : Walk) : Prop
  | stores (free : w.dReq = false) (enough : 4#4 ≤ w.sn) (further : w.chW ≠ 255#8)
      (next : Follows w { w.handed with chW := w.chW + 1 } y)
  | blockDone (free : w.dReq = false) (enough : 4#4 ≤ w.sn) (last : w.chW = 255#8)
      (further : w.k ≠ w.perPage - 1)
      (next : Follows w { w.handed with
        chWrote := true, charge := true, k := w.k + 1, v := .look } y)
  | pageDone (free : w.dReq = false) (enough : 4#4 ≤ w.sn) (last : w.chW = 255#8)
      (lastBlock : w.k = w.perPage - 1)
      (next : Follows w (w.paged { w.handed with chWrote := true, charge := true }) y)
  | asks (free : w.dReq = false) (short : w.sn < 4#4)
      (next : Follows w { w.pulses with
        dReq := true, dWrite := false, dAddr := w.page ++ w.mw } y)
  | takes (asked : w.dReq = true) (done : i.dDone = true)
      (next : Follows w { w.pulses with
        dReq := false
        sb := w.sb ||| ((if w.four then (i.dRdata.extractLsb' 0 32).setWidth 64
          else i.dRdata.setWidth 64) <<< (w.sn ++ 0#3))
        sn := w.sn + w.perPage.setWidth 4, mw := w.mw + 1 } y)
  | holds (asked : w.dReq = true) (wait : i.dDone = false) (next : Follows w w.pulses y)

theorem next_idle (rst : i.rst = false) (place : w.v = .idle) :
    Idles i w (w.next mainWords i m s) := by
  rw [next_running rst]
  have off : ¬ w.moves := by simp [moves, place]
  unfold made
  rw [pageStep_aside off]
  simp only [stateStep, place]
  unfold started
  by_cases starts : i.start = true ∧ i.drivePresent = true
  · rw [if_pos (by simp [starts, place])]
    exact .started starts.1 starts.2 ⟨_, _, rfl⟩
  · rw [if_neg (by simpa [place] using starts)]
    exact .stays starts ⟨_, _, rfl⟩

theorem next_ccw (rst : i.rst = false) (place : w.v = .ccw) :
    Enters mainWords i w (w.next mainWords i m s) := by
  have follows : Follows w (w.stateStep mainWords s i m w.pulses) (w.next mainWords i m s) :=
    next_off rst (by simp [place]) (by simp [moves, place])
  simp only [stateStep, place] at follows
  unfold ccwStep at follows
  cases asked : w.dReq with
  | false =>
    rw [asked, Bool.not_false, if_pos rfl] at follows
    dsimp only at follows
    by_cases past : mainWords ≤ w.ccwAddr.toNat
    · rw [if_pos past] at follows
      exact .entryPast asked past follows
    · rw [if_neg past] at follows
      exact .asks asked (Nat.not_le.mp past) follows
  | true =>
    rw [asked, Bool.not_true, if_neg Bool.false_ne_true] at follows
    cases done : i.dDone with
    | false =>
      rw [done, if_neg Bool.false_ne_true] at follows
      exact .holds asked done follows
    | true =>
      rw [done, if_pos rfl] at follows
      dsimp only at follows
      by_cases past : mainWords ≤ (i.dRdata.extractLsb' 10 18 ++ 0#10).toNat
      · rw [if_pos past] at follows
        exact .pagePast asked done past (follows.aged rfl)
      · rw [if_neg past] at follows
        exact .takes asked done (Nat.not_le.mp past) (follows.aged rfl)

theorem next_glook (rst : i.rst = false) (place : w.v = .glook) :
    Gathers w (w.next mainWords i m s) := by
  have follows : Follows w (w.stateStep mainWords s i m w.pulses) (w.next mainWords i m s) :=
    next_off rst (by simp [place]) (by simp [moves, place])
  simp only [stateStep, place] at follows
  unfold glookStep at follows
  by_cases past : w.cur.getLsbD 28 = true
  · rw [if_pos past] at follows
    exact .past past follows
  rw [if_neg past] at follows
  rw [Bool.not_eq_true] at past
  by_cases looked : w.looked = true
  · rw [if_pos looked] at follows
    by_cases hit : w.hit.isSome = true
    · rw [if_pos hit] at follows
      dsimp only at follows
      obtain ⟨slot, found⟩ := Option.isSome_iff_exists.mp hit
      have holds : w.hitQ slot = true := List.find?_some found
      by_cases last : w.k = w.perPage - 1
      · rw [if_pos (beq_iff_eq.mpr last)] at follows
        exact .foundLast slot past looked holds last (follows.aged rfl)
      · rw [if_neg (by simpa using last)] at follows
        exact .found slot past looked holds last (follows.aged rfl)
    · rw [if_neg hit] at follows
      exact .asks past looked follows
  · rw [if_neg looked] at follows
    exact .holds follows

theorem next_waits {back : WalkState}
    (follows : Follows w (w.waitStep back m w.pulses) y) : Waits back m w y := by
  unfold waitStep at follows
  by_cases deny : m.deny = true
  · rw [if_pos deny] at follows
    exact .denied deny follows
  rw [if_neg deny] at follows
  rw [Bool.not_eq_true] at deny
  by_cases comes : w.arrives m = true
  · rw [if_pos comes] at follows
    exact .comes deny comes (follows.aged rfl)
  · rw [if_neg comes] at follows
    exact .holds deny follows

theorem next_gwait (rst : i.rst = false) (place : w.v = .gwait) :
    Waits .glook m w (w.next mainWords i m s) := by
  have follows : Follows w (w.stateStep mainWords s i m w.pulses) (w.next mainWords i m s) :=
    next_off rst (by simp [place]) (by simp [moves, place])
  simp only [stateStep, place] at follows
  exact next_waits follows

theorem next_wait (rst : i.rst = false) (place : w.v = .wait) :
    Waits .look m w (w.next mainWords i m s) := by
  have follows : Follows w (w.stateStep mainWords s i m w.pulses) (w.next mainWords i m s) :=
    next_off rst (by simp [place]) (by simp [moves, place])
  simp only [stateStep, place] at follows
  exact next_waits follows

theorem next_look (rst : i.rst = false) (place : w.v = .look) :
    Looks w (w.next mainWords i m s) := by
  have follows : Follows w (w.stateStep mainWords s i m w.pulses) (w.next mainWords i m s) :=
    next_off rst (by simp [place]) (by simp [moves, place])
  simp only [stateStep, place] at follows
  unfold lookStep at follows
  by_cases past : w.cur.getLsbD 28 = true
  · rw [if_pos past] at follows
    exact .past past follows
  rw [if_neg past] at follows
  rw [Bool.not_eq_true] at past
  by_cases looked : w.looked = true
  · rw [if_pos looked] at follows
    cases found : w.hit with
    | none =>
      rw [found] at follows
      exact .asks past looked follows
    | some slot =>
      rw [found] at follows
      dsimp only at follows
      by_cases held : (m.busy && m.busySlot == slot) = true
      · rw [if_pos held] at follows
        exact .holds follows
      · rw [if_neg held] at follows
        exact .chooses slot past (List.find?_some found) looked follows
  · rw [if_neg looked] at follows
    exact .holds follows

theorem pageStep_paged {x : Walk} (done : w.pageDone i = true) (ends : x.v = .ended) :
    ∃ age, w.pageStep i x = { w.paged x with lookAge := age } := by
  unfold pageStep paged
  rw [if_pos done]
  cases w.more with
  | false => exact ⟨x.lookAge, by simp [ends]⟩
  | true => exact ⟨0, rfl⟩

theorem pageStep_on {x : Walk} (goes : w.pageDone i = false) : w.pageStep i x = x := by
  unfold pageStep
  rw [goes, if_neg Bool.false_ne_true]

theorem next_read (rst : i.rst = false) (place : w.v = .read) :
    Reads s i w (w.next mainWords i m s) := by
  have follows : Follows w (w.pageStep i (w.stateStep mainWords s i m w.pulses))
    (w.next mainWords i m s) := next_follows rst (by simp [place])
  simp only [stateStep, place] at follows
  have ends : w.pageDone i = (w.dReq && i.dDone && w.mw == 1023#10) := by
    simp [pageDone, place]
  unfold readStep at follows
  cases asked : w.dReq with
  | false =>
    rw [pageStep_on (by simp [ends, asked]), asked, Bool.not_false, if_pos rfl] at follows
    by_cases enough : w.perPage.setWidth 4 ≤ w.sn
    · rw [if_pos enough] at follows
      exact .emits asked enough follows
    rw [if_neg enough] at follows
    have short : w.sn < w.perPage.setWidth 4 := BitVec.not_le.mp enough
    cases drained : w.drained with
    | true =>
      rw [drained, if_pos rfl] at follows
      exact .blockDone asked short drained (follows.aged rfl)
    | false =>
      rw [drained, if_neg Bool.false_ne_true] at follows
      cases valid : w.rdValid with
      | false =>
        rw [valid, if_neg Bool.false_ne_true] at follows
        exact .latches asked short drained follows
      | true =>
        rw [valid, if_pos rfl] at follows
        refine .pushes asked short drained valid ?_
        by_cases last : w.chW = 255#8
        · rw [if_pos (beq_iff_eq.mpr last)] at follows
          rw [if_pos last, if_pos last]
          exact follows
        · rw [if_neg (by simpa using last)] at follows
          rw [if_neg last, if_neg last]
          exact follows
  | true =>
    rw [asked, Bool.not_true, if_neg Bool.false_ne_true] at follows
    cases done : i.dDone with
    | false =>
      rw [done, if_neg Bool.false_ne_true, pageStep_on (by simp [ends, done])] at follows
      exact .holds asked done follows
    | true =>
      rw [done, if_pos rfl] at follows
      dsimp only at follows
      by_cases last : w.mw = 1023#10
      · rw [if_pos (beq_iff_eq.mpr last)] at follows
        obtain ⟨age, same⟩ : ∃ age,
            w.pageStep i { w.pulses with dReq := false, mw := w.mw + 1, v := .ended } =
              { w.paged { w.pulses with dReq := false, mw := w.mw + 1, v := .ended } with
                lookAge := age } :=
          pageStep_paged (by simp [ends, asked, done, last]) rfl
        rw [same] at follows
        exact .pageDone asked done last (follows.aged rfl)
      · rw [if_neg (by simpa using last), pageStep_on (by simp [ends, last])] at follows
        exact .lands asked done last follows

theorem next_write (rst : i.rst = false) (place : w.v = .write) :
    Writes i w (w.next mainWords i m s) := by
  have follows : Follows w (w.pageStep i (w.stateStep mainWords s i m w.pulses))
    (w.next mainWords i m s) := next_follows rst (by simp [place])
  simp only [stateStep, place] at follows
  have ends : w.pageDone i =
      (decide (4#4 ≤ w.sn) && !w.dReq && w.chW == 255#8 && w.k == w.perPage - 1) := by
    simp [pageDone, place]
  unfold writeStep wroteBlock at follows
  cases asked : w.dReq with
  | false =>
    by_cases enough : 4#4 ≤ w.sn
    · rw [if_pos (by simp [enough, asked])] at follows
      dsimp only at follows
      by_cases last : w.chW = 255#8
      · rw [if_pos (beq_iff_eq.mpr last)] at follows
        by_cases lastBlock : w.k = w.perPage - 1
        · rw [if_pos (beq_iff_eq.mpr lastBlock)] at follows
          obtain ⟨age, same⟩ : ∃ age,
              w.pageStep i { w.handed with chWrote := true, charge := true, v := .ended } =
                { w.paged { w.handed with chWrote := true, charge := true, v := .ended } with
                  lookAge := age } :=
            pageStep_paged (by simp [ends, asked, enough, last, lastBlock]) rfl
          change Follows w (w.pageStep i
            { w.handed with chWrote := true, charge := true, v := .ended }) _ at follows
          rw [same] at follows
          exact .pageDone asked enough last lastBlock (follows.aged rfl)
        · have goes : w.pageDone i = false := by
            rw [ends, beq_false_of_ne lastBlock, Bool.and_false]
          rw [if_neg (by simpa using lastBlock), pageStep_on goes] at follows
          exact .blockDone asked enough last lastBlock (follows.aged rfl)
      · rw [if_neg (by simpa using last), pageStep_on (by simp [ends, last])] at follows
        exact .stores asked enough last follows
    · rw [if_neg (by simp [enough]), asked, Bool.not_false, if_pos rfl,
        pageStep_on (by simp [ends, enough])] at follows
      exact .asks asked (BitVec.not_le.mp enough) follows
  | true =>
    rw [if_neg (by simp [asked]), asked, Bool.not_true, if_neg Bool.false_ne_true,
      pageStep_on (by simp [ends, asked])] at follows
    cases done : i.dDone with
    | false =>
      rw [done, if_neg Bool.false_ne_true] at follows
      exact .holds asked done follows
    | true =>
      rw [done, if_pos rfl] at follows
      exact .takes asked done follows

theorem next_ended (rst : i.rst = false) (place : w.v = .ended) :
    Follows w { w.pulses with fin := true, v := .idle } (w.next mainWords i m s) := by
  have follows : Follows w (w.stateStep mainWords s i m w.pulses) (w.next mainWords i m s) :=
    next_off rst (by simp [place]) (by simp [moves, place])
  simp only [stateStep, place] at follows
  exact follows

/-- While it runs a walk keeps its command and, its entry taken, whether that goes on; and as it comes
back to idle it tells its end. -/
theorem next_kept (rst : i.rst = false) (busy : w.v ≠ .idle) :
    (w.next mainWords i m s).writing = w.writing ∧ (w.v ≠ .ccw →
      (w.next mainWords i m s).more = w.more ∧
        ((w.next mainWords i m s).v = .idle → (w.next mainWords i m s).fin = true)) := by
  cases place : w.v with
  | idle => exact absurd place busy
  | ccw =>
    have enters : Enters mainWords i w (w.next mainWords i m s) := next_ccw rst place
    cases enters <;> (rename_i next; obtain ⟨_, _, same⟩ := next; rw [same]
                      exact ⟨rfl, fun other => absurd rfl other⟩)
  | glook =>
    have gathers : Gathers w (w.next mainWords i m s) := next_glook rst place
    cases gathers <;> (rename_i next; obtain ⟨_, _, same⟩ := next; rw [same]; simp [pulses, place])
  | gwait =>
    have waits : Waits .glook m w (w.next mainWords i m s) := next_gwait rst place
    cases waits <;> (rename_i next; obtain ⟨_, _, same⟩ := next; rw [same]; simp [pulses, place])
  | look =>
    have looks : Looks w (w.next mainWords i m s) := next_look rst place
    cases writes : w.writing <;> cases looks <;>
      (rename_i next; obtain ⟨_, _, same⟩ := next; rw [same]; simp [pulses, place, writes])
  | wait =>
    have waits : Waits .look m w (w.next mainWords i m s) := next_wait rst place
    cases waits <;> (rename_i next; obtain ⟨_, _, same⟩ := next; rw [same]; simp [pulses, place])
  | read =>
    have reads : Reads s i w (w.next mainWords i m s) := next_read rst place
    cases more : w.more <;> cases reads <;>
      (rename_i next; obtain ⟨_, _, same⟩ := next; rw [same]; simp [pulses, paged, place, more])
  | write =>
    have writes : Writes i w (w.next mainWords i m s) := next_write rst place
    cases more : w.more <;> cases writes <;>
      (rename_i next; obtain ⟨_, _, same⟩ := next; rw [same]; simp [pulses, handed, paged, place, more])
  | ended =>
    have ends : Follows w { w.pulses with fin := true, v := .idle } (w.next mainWords i m s) :=
      next_ended rst place
    obtain ⟨_, _, same⟩ := ends
    rw [same]
    exact ⟨rfl, fun _ => ⟨rfl, fun _ => rfl⟩⟩

theorem Follows.waits {x : Walk} (follows : Follows w x y) (waits : y.waiting = true)
    (kept : x.waiting = true → x.base = w.base ∧ x.k = w.k) : y.lba = y.block := by
  obtain ⟨age, hits, rfl⟩ := follows
  obtain ⟨base, k⟩ := kept waits
  unfold block cur
  rw [← base, ← k]

theorem paged_waiting {x : Walk} : (w.paged x).waiting = false := by
  unfold paged waiting
  cases w.more <;> rfl

theorem next_waiting (waits : (w.next mainWords i m s).waiting = true) :
    (w.next mainWords i m s).lba = (w.next mainWords i m s).block := by
  cases rst : i.rst with
  | true =>
    have idle : (w.next mainWords i m s).v = .idle := (next_reset rst).1
    simp [waiting, idle] at waits
  | false =>
    cases place : w.v with
    | idle =>
      have idles : Idles i w (w.next mainWords i m s) := next_idle rst place
      cases idles with
      | started start present next => exact next.waits waits (by simp [waiting])
      | stays unstarted next => exact next.waits waits fun _ => ⟨rfl, rfl⟩
    | ccw =>
      have enters : Enters mainWords i w (w.next mainWords i m s) := next_ccw rst place
      cases enters with
      | entryPast free past next => exact next.waits waits fun _ => ⟨rfl, rfl⟩
      | asks free inside next => exact next.waits waits fun _ => ⟨rfl, rfl⟩
      | pagePast asked done past next => exact next.waits waits (by simp [waiting])
      | takes asked done inside next =>
        exact next.waits waits (by cases w.writing <;> simp [waiting])
      | holds asked wait next => exact next.waits waits fun _ => ⟨rfl, rfl⟩
    | glook =>
      have gathers : Gathers w (w.next mainWords i m s) := next_glook rst place
      cases gathers with
      | past beyond next => exact next.waits waits fun _ => ⟨rfl, rfl⟩
      | foundLast slot inside looked hit last next => exact next.waits waits (by simp [waiting])
      | found slot inside looked hit further next => exact next.waits waits (by simp [waiting, pulses, place])
      | asks inside looked next => exact next.waits waits fun _ => ⟨rfl, rfl⟩
      | holds next => exact next.waits waits fun _ => ⟨rfl, rfl⟩
    | gwait =>
      have waiting : Waits .glook m w (w.next mainWords i m s) := next_gwait rst place
      cases waiting <;> (rename_i next; exact next.waits waits fun _ => ⟨rfl, rfl⟩)
    | look =>
      have looks : Looks w (w.next mainWords i m s) := next_look rst place
      cases looks <;> (rename_i next; exact next.waits waits fun _ => ⟨rfl, rfl⟩)
    | wait =>
      have waiting : Waits .look m w (w.next mainWords i m s) := next_wait rst place
      cases waiting <;> (rename_i next; exact next.waits waits fun _ => ⟨rfl, rfl⟩)
    | read =>
      have reads : Reads s i w (w.next mainWords i m s) := next_read rst place
      cases reads with
      | emits free enough next => exact next.waits waits fun _ => ⟨rfl, rfl⟩
      | blockDone free short drained next => exact next.waits waits (by simp [waiting])
      | pushes free short undrained valid next => exact next.waits waits fun _ => ⟨rfl, rfl⟩
      | latches free short undrained next => exact next.waits waits fun _ => ⟨rfl, rfl⟩
      | lands asked done further next => exact next.waits waits fun _ => ⟨rfl, rfl⟩
      | pageDone asked done last next => exact next.waits waits (by simp [paged_waiting])
      | holds asked wait next => exact next.waits waits fun _ => ⟨rfl, rfl⟩
    | write =>
      have writes : Writes i w (w.next mainWords i m s) := next_write rst place
      cases writes with
      | stores free enough further next => exact next.waits waits fun _ => ⟨rfl, rfl⟩
      | blockDone free enough last further next => exact next.waits waits (by simp [waiting])
      | pageDone free enough last lastBlock next =>
        exact next.waits waits (by simp [paged_waiting])
      | asks free short next => exact next.waits waits fun _ => ⟨rfl, rfl⟩
      | takes asked done next => exact next.waits waits fun _ => ⟨rfl, rfl⟩
      | holds asked wait next => exact next.waits waits fun _ => ⟨rfl, rfl⟩
    | ended => exact (next_ended rst place).waits waits fun _ => ⟨rfl, rfl⟩

end MuirFpga.Quux.Walk
