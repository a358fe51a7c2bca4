import MuirFpga.Chaosnet.Link

/-!
# The routing rule and the counts

A broadcast goes to the peers, a frame for a peer to that peer, and any other to the default peer. What
comes in is counted once, and what is delivered came over the network for this cable.
-/

namespace MuirFpga.Chaosnet

/-- The endpoints of the peer entries that name an address. -/
def Link.named (u : Link) (cableDest : Word) : List Endpoint :=
  (u.peers.filter fun p => p.address = cableDest).map Peer.where_

/-- The endpoints a frame is due to. -/
def Link.due (u : Link) (cableDest : Word) : List Endpoint :=
  if cableDest = 0 then u.peers.map Peer.where_
  else if cableDest = u.local_ then []
  else if u.named cableDest = [] then u.defaultPeer.toList
  else u.named cableDest

/-- The check word is the one the words make. -/
def CheckRight (words : List Word) : Prop :=
  words.getD (words.length - 1) 0#16 = checkWord (words.take (words.length - 1))

section Send

variable {goes : Nat → Bool} {o : Offers}

theorem foldl_sendto (es : List Endpoint) (o : Offers) :
    (es.foldl (Offers.sendto · goes ·) o).to_ = o.to_ ++ es ∧
      ((es.foldl (Offers.sendto · goes ·) o).sent = 0 ↔
        o.sent = 0 ∧ ∀ k < es.length, goes (o.to_.length + k) = false) := by
  induction es generalizing o with
  | nil => exact ⟨(List.append_nil _).symm, by simp⟩
  | cons e es ih =>
    obtain ⟨all, none_⟩ := ih (o.sendto goes e)
    rw [List.foldl_cons]
    constructor
    · rw [all]
      exact List.append_assoc _ [e] es
    · rw [none_]
      have first : (o.sendto goes e).sent = 0 ↔ o.sent = 0 ∧ goes o.to_.length = false := by
        unfold Offers.sendto
        dsimp only
        split
        · next went => simp [went]
        · next failed => simp [failed]
      have further : (o.sendto goes e).to_.length = o.to_.length + 1 := List.length_append
      rw [first, further, and_assoc]
      apply and_congr_right
      intro _
      constructor
      · rintro ⟨now, later⟩ k inside
        cases k with
        | zero => exact now
        | succ k =>
          have next := later k (Nat.lt_of_succ_lt_succ inside)
          rw [Nat.add_right_comm, Nat.add_assoc] at next
          exact next
      · intro each
        refine ⟨each 0 (Nat.succ_pos _), fun k inside => ?_⟩
        have next := each (k + 1) (Nat.succ_lt_succ inside)
        rw [Nat.add_right_comm, Nat.add_assoc]
        exact next

theorem sendPeers_eq (u : Link) (goes : Nat → Bool) (cableDest : Word) :
    (u.sendPeers goes cableDest).to_ = (if cableDest = 0 then u.peers.map Peer.where_ else u.named cableDest) ∧
      ((u.sendPeers goes cableDest).sent = 0 ↔
        ∀ k < (u.sendPeers goes cableDest).to_.length, goes k = false) := by
  have offered : u.sendPeers goes cableDest =
      (if cableDest = 0 then u.peers.map Peer.where_ else u.named cableDest).foldl (Offers.sendto · goes ·)
        ⟨[], 0⟩ := by
    unfold Link.sendPeers
    by_cases toAll : cableDest = 0
    · rw [if_pos toAll, List.foldl_map]
      simp [toAll]
    · rw [if_neg toAll]
      unfold Link.named
      rw [List.foldl_map, List.foldl_filter]
      congr 1
      funext o p
      by_cases names : p.address = cableDest
      · rw [if_neg (fun skips => skips.2 names), if_pos (decide_eq_true names)]
      · rw [if_pos ⟨toAll, names⟩, if_neg (by simp [names])]
  obtain ⟨all, none_⟩ := @foldl_sendto goes
    (if cableDest = 0 then u.peers.map Peer.where_ else u.named cableDest) ⟨[], 0⟩
  rw [← offered] at all none_
  rw [List.nil_append] at all
  refine ⟨all, ?_⟩
  rw [none_, all]
  simp

/-- Where a frame is offered, but for the default peer's part when no send to a peer that is named goes. -/
structure Routes (ulongMax : Nat) (u : Link) (goes : Nat → Bool) (words : List Word) (cableDest : Word) : Prop where
  uncarried : chudpWrap words maxFrame = none → (u.send ulongMax goes words cableDest).offered = []
  wrong : ¬CheckRight words → (u.send ulongMax goes words cableDest).offered = []
  due : (chudpWrap words maxFrame).isSome → CheckRight words →
    (cableDest ≠ u.local_ → u.named cableDest ≠ [] →
      ∃ k < (u.named cableDest).length, goes k = true) →
    (u.send ulongMax goes words cableDest).offered = u.due cableDest
  named : (chudpWrap words maxFrame).isSome → CheckRight words → cableDest ≠ u.local_ →
    u.named cableDest <+: (u.send ulongMax goes words cableDest).offered

theorem named_zero (u : Link) : u.named 0 = [] := by
  unfold Link.named
  rw [List.map_eq_nil_iff, List.filter_eq_nil_iff]
  intro p _ zero
  exact p.some_ (of_decide_eq_true zero)

theorem send_right {ulongMax : Nat} {u : Link} {words : List Word} {cableDest : Word}
    (carried : (chudpWrap words maxFrame).isSome) (right : CheckRight words) :
    (u.send ulongMax goes words cableDest).offered =
      if cableDest ≠ 0 ∧ cableDest = u.local_ then []
      else (u.sendPeers goes cableDest).to_ ++
        if (u.sendPeers goes cableDest).sent = 0 ∧ cableDest ≠ 0 then u.defaultPeer.toList else [] := by
  obtain ⟨datagram, wrap⟩ := Option.isSome_iff_exists.mp carried
  unfold CheckRight at right
  unfold Link.send
  rw [wrap]
  dsimp only
  rw [if_neg (not_not.mpr right)]
  by_cases own : cableDest ≠ 0 ∧ cableDest = u.local_
  · rw [if_pos own, if_pos own]
  · rw [if_neg own, if_neg own]
    cases u.defaultPeer with
    | none =>
      dsimp only
      rw [Option.toList_none, ite_self, List.append_nil]
    | some e =>
      dsimp only
      split
      · rfl
      · exact (List.append_nil _).symm

/-- Every send is routed. -/
theorem send_routes (ulongMax : Nat) (u : Link) (goes : Nat → Bool) (words : List Word) (cableDest : Word) :
    Routes ulongMax u goes words cableDest where
  uncarried none_ := by
    unfold Link.send
    rw [none_]
  wrong wrong := by
    unfold CheckRight at wrong
    unfold Link.send
    split
    · rfl
    · dsimp only
      rw [if_pos wrong]
  due carried right went := by
    obtain ⟨all, none_⟩ := sendPeers_eq u goes cableDest
    rw [send_right carried right]
    unfold Link.due
    by_cases toAll : cableDest = 0
    · rw [all, if_neg (fun own => own.1 toAll), if_pos toAll, if_neg (fun further => further.2 toAll), if_pos toAll,
        List.append_nil]
    · rw [if_neg toAll] at all
      rw [if_neg toAll]
      by_cases own : cableDest = u.local_
      · rw [if_pos ⟨toAll, own⟩, if_pos own]
      · rw [if_neg (fun both => own both.2), if_neg own]
        by_cases unnamed : u.named cableDest = []
        · rw [all, if_pos unnamed, unnamed, List.nil_append]
          refine if_pos ⟨none_.mpr fun k inside => ?_, toAll⟩
          rw [all, unnamed] at inside
          cases inside
        · obtain ⟨k, inside, gone⟩ := went own unnamed
          rw [← all] at inside
          have some_ : ¬((u.sendPeers goes cableDest).sent = 0 ∧ cableDest ≠ 0) := by
            intro failed
            rw [none_.mp failed.1 k inside] at gone
            cases gone
          rw [if_neg unnamed, if_neg some_, List.append_nil, all]
  named carried right other := by
    obtain ⟨all, _⟩ := sendPeers_eq u goes cableDest
    rw [send_right carried right, all, if_neg (fun own => other own.2)]
    by_cases toAll : cableDest = 0
    · rw [toAll, named_zero]
      exact List.nil_prefix
    · rw [if_neg toAll]
      exact List.prefix_append _ _

end Send

section Poll

variable {ulongMax : Nat} {u : Link}

/-- Every datagram is in one of four counts. -/
def LinkCounts.Closes (c : LinkCounts) : Prop :=
  c.received = c.delivered + c.badShape + c.badChecksum + c.notThisCable

def LinkCounts.Closed (ulongMax : Nat) (c : LinkCounts) : Prop := c.received < ulongMax → c.Closes

/-- A frame from over the network, for this cable. -/
structure ForHere (local_ : Word) (peers : List Peer) (words : List Word) : Prop where
  some_ : words.getD (words.length - 2) 0#16 ≠ 0
  other : words.getD (words.length - 2) 0#16 ≠ local_
  here : ∀ p ∈ peers, words.getD (words.length - 3) 0#16 ≠ p.address

/-- What a link and the frames it delivered keep. -/
structure Accounted (ulongMax : Nat) (local_ : Word) (peers : List Peer) (s : Link × List (List Word)) : Prop where
  closes : LinkCounts.Closed ulongMax s.1.toLinkCounts
  same : s.1.local_ = local_ ∧ s.1.peers = peers
  frames : ∀ words ∈ s.2, ForHere local_ peers words

theorem Closed.next {c : LinkCounts} (closed : c.Closed ulongMax) :
    LinkCounts.Closed ulongMax { c with
        received := bump ulongMax c.received, delivered := bump ulongMax c.delivered } ∧
      LinkCounts.Closed ulongMax { c with
        received := bump ulongMax c.received, badShape := bump ulongMax c.badShape } ∧
      LinkCounts.Closed ulongMax { c with
        received := bump ulongMax c.received, badChecksum := bump ulongMax c.badChecksum } ∧
      LinkCounts.Closed ulongMax { c with
        received := bump ulongMax c.received, notThisCable := bump ulongMax c.notThisCable } := by
  unfold LinkCounts.Closed LinkCounts.Closes at closed ⊢
  simp only [bump]
  grind

theorem Accounted.take {local_ : Word} {peers : List Peer} {s : Link × List (List Word)}
    (accounted : Accounted ulongMax local_ peers s) (datagram : List Byte) :
    Accounted ulongMax local_ peers
      ((s.1.take ulongMax datagram).1, s.2 ++ (s.1.take ulongMax datagram).2.toList) := by
  obtain ⟨closes, same, frames⟩ := accounted
  obtain ⟨delivered, badShape, badChecksum, notThisCable⟩ := Closed.next closes
  unfold Link.take
  dsimp only
  cases chudpUnwrap (datagram.take (maxFrame + 1)) maxWords with
  | error refusal =>
    dsimp only
    by_cases checksum : refusal.badChecksum = true
    · rw [if_pos checksum]
      exact ⟨badChecksum, same, by simpa using frames⟩
    · rw [if_neg checksum]
      exact ⟨badShape, same, by simpa using frames⟩
  | ok words =>
    dsimp only
    split
    · exact ⟨notThisCable, same, by simpa using frames⟩
    · next own =>
      split
      · exact ⟨notThisCable, same, by simpa using frames⟩
      · next other =>
        rw [not_or] at own
        refine ⟨delivered, same, ?_⟩
        intro frame among
        rw [Option.toList_some, List.mem_append, List.mem_singleton] at among
        cases among with
        | inl earlier => exact frames frame earlier
        | inr now =>
          rw [now]
          refine ⟨own.1, same.1 ▸ own.2, ?_⟩
          intro p among named
          apply other
          refine ⟨named ▸ p.some_, ?_⟩
          unfold Link.peerFor
          rw [List.any_eq_true]
          exact ⟨p, same.2 ▸ among, decide_eq_true named.symm⟩

theorem Accounted.foldl {local_ : Word} {peers : List Peer} {s : Link × List (List Word)}
    (accounted : Accounted ulongMax local_ peers s) (datagrams : List (List Byte)) :
    Accounted ulongMax local_ peers (datagrams.foldl (fun s datagram =>
      ((s.1.take ulongMax datagram).1, s.2 ++ (s.1.take ulongMax datagram).2.toList)) s) := by
  induction datagrams generalizing s with
  | nil => exact accounted
  | cons datagram datagrams ih => exact ih (accounted.take datagram)

theorem Accounted.poll {local_ : Word} {peers : List Peer} {s : Link × List (List Word)}
    (accounted : Accounted ulongMax local_ peers s) (max : Nat) (socket : List (List Byte)) :
    Accounted ulongMax local_ peers
      ((s.1.poll ulongMax max socket).1, s.2 ++ (s.1.poll ulongMax max socket).2) := by
  have start : Accounted ulongMax local_ peers (s.1, []) :=
    ⟨accounted.closes, accounted.same, fun _ among => (nomatch among)⟩
  have polled : Accounted ulongMax local_ peers (s.1.poll ulongMax max socket) := start.foldl (socket.take max)
  refine ⟨polled.closes, polled.same, ?_⟩
  intro frame among
  rw [List.mem_append] at among
  exact among.elim (accounted.frames frame) (polled.frames frame)

/-- Every datagram of every poll is accounted for. -/
theorem polls_accounted (ulongMax : Nat) (local_ : Word) (defaultPeer : Option Endpoint) (peers : List Peer)
    (calls : List (Nat × List (List Byte))) :
    Accounted ulongMax local_ peers ((Link.opened local_ defaultPeer peers).polls ulongMax calls) := by
  have start : Accounted ulongMax local_ peers (Link.opened local_ defaultPeer peers, []) :=
    ⟨fun _ => rfl, ⟨rfl, rfl⟩, fun _ among => (nomatch among)⟩
  unfold Link.polls
  generalize (Link.opened local_ defaultPeer peers, ([] : List (List Word))) = s at start
  induction calls generalizing s with
  | nil => exact start
  | cons call calls ih => exact ih _ (start.poll call.1 call.2)

end Poll

/-- Frames go where the rule has them go, and datagrams that come are accounted for. -/
theorem chudp_routes (ulongMax : Nat) :
    (∀ u goes words cableDest, Routes ulongMax u goes words cableDest) ∧
      ∀ local_ defaultPeer peers calls,
        Accounted ulongMax local_ peers ((Link.opened local_ defaultPeer peers).polls ulongMax calls) :=
  ⟨send_routes ulongMax, polls_accounted ulongMax⟩

section Counterexample

/-- A frame for station 2 from station 1, and one from no station. -/
def toPeer : List Word := [0, 0, 0, 0, 0, 0, 0, 0, 2, 1, checkWord [0, 0, 0, 0, 0, 0, 0, 0, 2, 1]]
def fromNobody : List Byte := (chudpWrap [0, 0, 0, 0, 0, 0, 0, 0, 2, 0, 0] maxFrame).getD []

/-- A link whose one peer is station 2. -/
def oneNamed : Link := Link.opened 1 (some ⟨0x0a000001, 42042⟩) [⟨2, ⟨0x0a000002, 42042⟩, by decide⟩]

theorem bump_min {ulongMax c : Nat} (below : c ≤ ulongMax) : bump ulongMax c = min (c + 1) ulongMax := by
  unfold bump
  split <;> omega

theorem take_empty (ulongMax : Nat) (u : Link) : u.take ulongMax [] =
    ({ u with received := bump ulongMax u.received, badShape := bump ulongMax u.badShape }, none) := rfl

theorem empties_take {ulongMax : Nat} (n : Nat) {s : Link × List (List Word)} (below : s.1.received ≤ ulongMax)
    (belowShape : s.1.badShape ≤ ulongMax) :
    (List.replicate n []).foldl (fun s datagram =>
      ((s.1.take ulongMax datagram).1, s.2 ++ (s.1.take ulongMax datagram).2.toList)) s =
      ({ s.1 with
        received := min (s.1.received + n) ulongMax, badShape := min (s.1.badShape + n) ulongMax }, s.2) := by
  induction n generalizing s with
  | zero =>
    rw [List.replicate_zero, List.foldl_nil, Nat.add_zero, Nat.add_zero, Nat.min_eq_left below,
      Nat.min_eq_left belowShape]
  | succ n ih =>
    rw [List.replicate_succ, List.foldl_cons, take_empty, bump_min below, bump_min belowShape, ih (Nat.min_le_right _ _)
      (Nat.min_le_right _ _)]
    have sum (c : Nat) : min (min (c + 1) ulongMax + n) ulongMax = min (c + (n + 1)) ulongMax := by omega
    rw [Option.toList_none, List.append_nil]
    dsimp only
    rw [sum, sum]

theorem not_closes {ulongMax : Nat} (some_ : 1 ≤ ulongMax) :
    ¬((Link.opened 1 none []).polls ulongMax
      [(1, [fromNobody]), (ulongMax, List.replicate ulongMax [])]).1.toLinkCounts.Closes := by
  intro closes
  unfold Link.polls at closes
  rw [List.foldl_cons, List.foldl_cons, List.foldl_nil] at closes
  have unwrapped : chudpUnwrap (fromNobody.take (maxFrame + 1)) maxWords =
      .ok [0, 0, 0, 0, 0, 0, 0, 0, 2, 0, checkWord [0, 0, 0, 0, 0, 0, 0, 0, 2, 0]] := by
    have words : (chudpUnwrap (fromNobody.take (maxFrame + 1)) maxWords).toOption =
        some [0, 0, 0, 0, 0, 0, 0, 0, 2, 0, checkWord [0, 0, 0, 0, 0, 0, 0, 0, 2, 0]] := by decide +kernel
    generalize chudpUnwrap (fromNobody.take (maxFrame + 1)) maxWords = result at words
    cases result with
    | error refusal => cases words
    | ok frame => rw [Option.some.inj words]
  have first : (Link.opened 1 none []).poll ulongMax 1 [fromNobody] =
      ({ Link.opened 1 none [] with received := bump ulongMax 0, notThisCable := bump ulongMax 0 }, []) := by
    show ((Link.opened 1 none []).take ulongMax fromNobody).map id (fun frame => [] ++ frame.toList) = _
    unfold Link.take
    dsimp only
    rw [unwrapped]
    rfl
  rw [first] at closes
  unfold Link.poll at closes
  dsimp only at closes
  rw [List.take_of_length_le (Nat.le_of_eq List.length_replicate), bump_min (Nat.zero_le _)] at closes
  rw [empties_take ulongMax (Nat.min_le_right _ _) (Nat.zero_le _)] at closes
  unfold LinkCounts.Closes at closes
  dsimp only [Link.opened] at closes
  omega

/-- A frame whose one send fails is offered to the default peer too, and counts at their top do not close. -/
theorem not_routed :
    (¬∀ ulongMax u goes words cableDest, (chudpWrap words maxFrame).isSome → CheckRight words →
      (Link.send ulongMax u goes words cableDest).offered = u.due cableDest) ∧
      ¬∀ ulongMax local_ defaultPeer peers calls,
        ((Link.opened local_ defaultPeer peers).polls ulongMax calls).1.toLinkCounts.Closes := by
  constructor
  · intro all
    have right : CheckRight toPeer := by
      unfold CheckRight
      decide +kernel
    have both := all (2 ^ 32 - 1) oneNamed (fun _ => false) toPeer 2 (by decide) right
    exact absurd both (by decide +kernel)
  · intro all
    have some_ : 1 ≤ 2 ^ 32 - 1 := by decide
    exact not_closes some_ (all _ _ _ _ _)

end Counterexample

end MuirFpga.Chaosnet
