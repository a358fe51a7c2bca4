import MuirFpga.Terminal.KeyOwners
import MuirFpga.Terminal.Sources

/-!
# A source that goes

What a departing source lets go: the keysyms it alone holds, the prefix and the latches it left standing,
and its switches.
-/

namespace MuirFpga.Terminal

namespace KeyState

section Aside

variable {k : KeyState} {p : Position}

theorem queueUp_standing : (k.queueUp p).standing = k.standing := by
  unfold queueUp push
  split
  · rfl
  · split <;> rfl

theorem release_standing : (k.release p).standing = k.standing := by
  by_cases down : p ∈ k.down
  · rw [release_on down, queueUp_standing]
  · rw [release_off down]

theorem releases_aside (ps : List Position) :
    (ps.foldl release k).standing = k.standing ∧ (ps.foldl release k).latched = k.latched := by
  induction ps generalizing k with
  | nil => exact ⟨rfl, rfl⟩
  | cons p ps ih =>
    obtain ⟨standing, latched⟩ := ih (k := k.release p)
    exact ⟨standing.trans release_standing,
      latched.trans (congrArg (·.2.2.1) (release_lists (k := k) (p := p)))⟩

theorem resolve_up_aside (m : KeyMap) (k : KeyState) (s : Keysym) :
    (k.resolve m s false).standing = k.standing ∧ (k.resolve m s false).latched = k.latched := by
  obtain ⟨taps, unbound, _, resolved⟩ := resolve_up m k s
  rw [resolved]
  exact releases_aside _

theorem press_latched : (k.press p).1.latched = k.latched := by
  unfold press
  split
  · rfl
  split
  · rfl
  · have lists := congrArg (·.2.2.1) (checkBoot_lists (k := (k.addDown p).queueDown p))
    refine lists.trans ((congrArg (·.2.2.1) (queueDown_lists (k := k.addDown p) (p := p))).trans ?_)
    unfold addDown
    split <;> rfl

theorem burst_latched (keys : List (Position × Bool)) :
    (keys.foldl queueKey k).latched = k.latched := by
  induction keys generalizing k with
  | nil => rfl
  | cons key keys ih =>
    rw [List.foldl_cons, ih]
    unfold queueKey
    split
    · exact congrArg (·.2.2.1) (queueUp_lists (k := k))
    · exact congrArg (·.2.2.1) (queueDown_lists (k := k))

theorem tap_latched (want : Bool) : (k.tap p want).1.latched = k.latched := by
  unfold tap
  dsimp only
  split
  · rfl
  · exact burst_latched _

theorem hold_latched {s : Keysym} {shifted : Bool} : (k.hold s p shifted).latched = k.latched := by
  unfold hold
  split <;> rfl

theorem letGo_aside : k.sequenceLetGo.standing = 0#32 ∧ k.sequenceLetGo.latched = [] :=
  releases_aside k.latched

theorem unlatch_latched : k.unlatch.latched = [] := (releases_aside k.latched).2

theorem resolve_down_latched (m : KeyMap) (k : KeyState) (s : Keysym) :
    (k.resolve m s true).latched = [] ∨ ∃ more, (k.resolve m s true).latched = k.latched ++ more := by
  have same : ∀ k' : KeyState, k'.latched = k.latched →
      k'.latched = [] ∨ ∃ more, k'.latched = k.latched ++ more :=
    fun k' same => Or.inr ⟨[], by rw [same, List.append_nil]⟩
  unfold resolve
  rw [if_neg (by simp)]
  split
  · exact same _ rfl
  split
  · unfold resolveBehind
    dsimp only
    obtain ⟨taps, mark⟩ := markTapped_eq { k with standing := 0#32 } s
    rw [mark]
    split
    · exact same _ rfl
    · rename_i p want _
      unfold behindPrefix
      split
      · dsimp only
        split
        · exact Or.inr ⟨[p], congrArg (· ++ [p]) press_latched⟩
        · exact same _ press_latched
      · exact same _ (tap_latched want)
  · unfold resolveKey
    split
    · exact same _ press_latched
    · split
      · exact same _ rfl
      · dsimp only
        split
        · exact same _ rfl
        · rw [if_pos rfl]
          unfold pressFound
          dsimp only
          obtain ⟨taps, mark⟩ := markTapped_eq k s
          rw [mark]
          split
          · exact Or.inl unlatch_latched
          · split
            · split
              · exact same _ (hold_latched.trans press_latched)
              · exact same _ press_latched
            · exact same _ (tap_latched _)

end Aside

end KeyState

namespace Server

/-- What holds of a server's records between happenings. -/
structure Tidy (s : Server) : Prop where
  viewerIds : (s.viewers.map Attached.id).Nodup
  clientIds : (s.clients.map Attached.id).Nodup
  viewersNumbered : ∀ v ∈ s.viewers, v.id < s.next
  clientsNumbered : ∀ c ∈ s.clients, c.id < s.next
  heldOnce : ∀ c ∈ s.clients, c.held.Nodup
  swallowedOnce : s.swallowed.Nodup
  buttons : s.buttons = orButtons s.viewers
  linkButtons : s.linkButtons = orButtons s.clients &&& 7#8
  written : s.face.getD 0#8 = (s.buttons ||| (s.linkButtons &&& ~~~s.swallowedButtons)) &&& 7#8
  latches : s.latchBy.map Prod.fst = s.keys.latched
  prefixes : s.keys.standing = 0#32 → s.prefixBy = none

section Events

variable {m : KeyMap} {s : Server}

theorem keyEventFrom_tidy (tidy : s.Tidy) (by_ : Source) (keysym : Keysym) (down : Bool) :
    (s.keyEventFrom m by_ keysym down).Tidy := by
  refine ⟨tidy.viewerIds, tidy.clientIds, tidy.viewersNumbered, tidy.clientsNumbered, tidy.heldOnce,
    tidy.swallowedOnce, tidy.buttons, tidy.linkButtons, tidy.written, ?_, ?_⟩
  · have latched : (s.keys.resolve m keysym down).latched = [] ∨
        ∃ more, (s.keys.resolve m keysym down).latched = s.keys.latched ++ more := by
      cases down with
      | true => exact KeyState.resolve_down_latched m s.keys keysym
      | false => exact Or.inr ⟨[], by
          rw [(KeyState.resolve_up_aside m s.keys keysym).2, List.append_nil]⟩
    unfold keyEventFrom
    dsimp only
    rcases latched with none | ⟨more, some⟩
    · rw [if_pos none, none]
      rfl
    · split
      · rename_i none
        rw [none]
        rfl
      · rw [some, List.drop_left, List.map_append, tidy.latches, List.map_map]
        exact congrArg _ (List.map_id more)
  · intro none
    exact if_pos none

theorem letGo_tidy (tidy : s.Tidy) : s.sequenceLetGo.Tidy := by
  refine ⟨tidy.viewerIds, tidy.clientIds, tidy.viewersNumbered, tidy.clientsNumbered, tidy.heldOnce,
    tidy.swallowedOnce, tidy.buttons, tidy.linkButtons, tidy.written, ?_, fun _ => rfl⟩
  exact KeyState.unlatch_latched.symm

theorem allUp_tidy (tidy : s.Tidy) : s.allUp.Tidy :=
  ⟨tidy.viewerIds, tidy.clientIds, tidy.viewersNumbered, tidy.clientsNumbered, tidy.heldOnce,
    tidy.swallowedOnce, tidy.buttons, tidy.linkButtons, tidy.written, rfl, fun _ => rfl⟩

theorem swallowKey_tidy (tidy : s.Tidy) (keysym : Keysym) (down : Bool) :
    (s.swallowKey m keysym down).1.Tidy := by
  have other : ∀ list : List Keysym, list.Nodup → Tidy { s with swallowed := list } := fun list once =>
    ⟨tidy.viewerIds, tidy.clientIds, tidy.viewersNumbered, tidy.clientsNumbered, tidy.heldOnce, once,
      tidy.buttons, tidy.linkButtons, tidy.written, tidy.latches, tidy.prefixes⟩
  unfold swallowKey
  dsimp only
  split
  · split
    · exact tidy
    · exact other _ (tidy.swallowedOnce.erase keysym)
  · split
    · exact tidy
    · rename_i fresh
      split
      · exact tidy
      · refine other _ (List.nodup_append.mpr ⟨tidy.swallowedOnce, List.nodup_singleton _, ?_⟩)
        intro x inside y same eq
        rw [eq, List.mem_singleton.mp same] at inside
        exact fresh (List.contains_iff_mem.mpr inside)

theorem Tidy.aside (tidy : s.Tidy) (by_ : Option SequenceBy) (ptr waking : Bool) :
    Tidy { s with sequenceBy := by_, havePtr := ptr, linkWaking := waking } :=
  ⟨tidy.viewerIds, tidy.clientIds, tidy.viewersNumbered, tidy.clientsNumbered, tidy.heldOnce,
    tidy.swallowedOnce, tidy.buttons, tidy.linkButtons, tidy.written, tidy.latches, tidy.prefixes⟩

theorem linkKey_tidy (tidy : s.Tidy) (id : Nat) (keysym : Keysym) (down : Bool) :
    (s.linkKey m id keysym down).Tidy := by
  have next := swallowKey_tidy (m := m) tidy keysym down
  unfold linkKey
  dsimp only
  split
  · exact next
  · exact (keyEventFrom_tidy (m := m) next (.client id) keysym down).aside _ _ _

theorem viewersLeft_tidy {viewers : List Attached} (tidy : s.Tidy)
    (ids : (viewers.map Attached.id).Nodup) (numbered : ∀ v ∈ viewers, v.id < s.next) :
    Tidy { (if orButtons viewers ≠ s.buttons then
      { s with buttons := orButtons viewers }.writeButtons else s) with viewers := viewers } := by
  split
  · exact ⟨ids, tidy.clientIds, numbered, tidy.clientsNumbered, tidy.heldOnce, tidy.swallowedOnce, rfl,
      tidy.linkButtons, rfl, tidy.latches, tidy.prefixes⟩
  · rename_i same
    exact ⟨ids, tidy.clientIds, numbered, tidy.clientsNumbered, tidy.heldOnce, tidy.swallowedOnce,
      (not_not.mp same).symm, tidy.linkButtons, tidy.written, tidy.latches, tidy.prefixes⟩

theorem linkButtonsSet_tidy {clients : List Attached} (tidy : s.Tidy)
    (ids : (clients.map Attached.id).Nodup) (numbered : ∀ c ∈ clients, c.id < s.next)
    (once : ∀ c ∈ clients, c.held.Nodup) :
    ({ s with clients := clients }.linkButtonsSet (orButtons clients &&& 7#8)).Tidy := by
  refine ⟨tidy.viewerIds, ids, tidy.viewersNumbered, numbered, once, tidy.swallowedOnce, tidy.buttons,
    ?_, rfl, tidy.latches, tidy.prefixes⟩
  show orButtons clients &&& 7#8 &&& 7#8 = orButtons clients &&& 7#8
  rw [BitVec.and_assoc, BitVec.and_self]

end Events

/-- A source other than one holds a keysym. -/
def HeldByOther (s : Server) (x : Source) (key : Keysym) : Prop :=
  (∃ w ∈ s.viewers, Source.viewer w.id ≠ x ∧ key ∈ w.held) ∨
    ∃ c ∈ s.clients, Source.client c.id ≠ x ∧ key ∈ c.held

/-- A client's keysym whose press was swallowed, so that its release is too. -/
def Swallows (s : Server) : Source → Keysym → Prop
  | .viewer _, _ => False
  | .client _, key => key ∈ s.swallowed

/-- The last the machine was sent of a keysym is its press. -/
def Saw (s : Server) (key : Keysym) : Prop :=
  (s.sent.filter fun event => event.1 = key).getLast? = some (key, true)

/-- The releases sent since. -/
def Releases (s s' : Server) (key : Keysym) : Prop := (key, false) ∈ s'.sent.drop s.sent.length

/-- A source takes its own input with it, and nobody else's. The switches' register holds no switch
until it is written. -/
structure Departs (s s' : Server) (x : Source) (held : List Keysym) : Prop where
  released : ∀ key ∈ held, ¬ s.HeldByOther x key →
    s.Releases s' key ∨ s.Swallows x key ∧ ¬ s.Saw key
  kept : ∀ key, s.Releases s' key → ¬ s.HeldByOther x key
  standing : s'.keys.standing = if s.prefixBy = some x then 0#32 else s.keys.standing
  latched : s'.keys.latched = (s.latchBy.filter fun l => l.2 != x).map Prod.fst
  switches : s'.face.getD 0#8 =
    (orButtons s'.viewers ||| (orButtons s'.clients &&& 7#8 &&& ~~~s'.swallowedButtons)) &&& 7#8

/-- The prefix and the latches that stand are the source's exactly if it lets them go. -/
def Rightly (s : Server) (x : Source) (lets : Prop) : Prop :=
  (s.keys.standing ≠ 0#32 → (s.prefixBy = some x ↔ lets)) ∧ ∀ l ∈ s.latchBy, (l.2 = x ↔ lets)

/-- Whether a viewer that goes lets the sequence go: it is taken for its maker, or nobody is left. -/
def Lets (s : Server) (v : Attached) : Prop :=
  s.sequenceBy = some (.viewer v.id) ∨ s.viewers.length = 1 ∧ s.clients = []

section Sequence

variable {s s' : Server} {x : Source} {lets : Prop}

theorem rightly_iff (tidy : s.Tidy)
    (gone : lets → s'.keys.standing = 0#32 ∧ s'.keys.latched = [])
    (stays : ¬ lets → s'.keys.standing = s.keys.standing ∧ s'.keys.latched = s.keys.latched) :
    (s'.keys.standing = (if s.prefixBy = some x then 0#32 else s.keys.standing) ∧
      s'.keys.latched = (s.latchBy.filter fun l => l.2 != x).map Prod.fst) ↔ s.Rightly x lets := by
  unfold Rightly
  by_cases let_ : lets
  · obtain ⟨standing, latched⟩ := gone let_
    rw [standing, latched]
    refine and_congr ?_ ?_
    · by_cases mine : s.prefixBy = some x
      · simp [mine, let_]
      · rw [if_neg mine]
        constructor
        · exact fun none some => absurd none.symm some
        · intro ours
          by_contra some
          exact mine ((ours fun none => some none.symm).mpr let_)
    · rw [eq_comm, List.map_eq_nil_iff, List.filter_eq_nil_iff]
      simp [let_]
  · obtain ⟨standing, latched⟩ := stays let_
    rw [standing, latched]
    refine and_congr ?_ ?_
    · by_cases mine : s.prefixBy = some x
      · simp [mine, let_]
      · simp [mine, let_]
    · rw [← tidy.latches]
      constructor
      · intro same l inside
        have whole : (s.latchBy.filter fun l => l.2 != x).length = s.latchBy.length := by
          have lengths := congrArg List.length same
          simpa using lengths.symm
        have all := List.filter_eq_self.mp
          ((List.filter_sublist (p := fun l => l.2 != x) (l := s.latchBy)).eq_of_length whole) l inside
        simp only [bne_iff_ne] at all
        exact ⟨fun mine => absurd mine all, fun now => absurd now let_⟩
      · intro others
        rw [List.filter_eq_self.mpr]
        intro l inside
        rw [bne_iff_ne]
        exact fun mine => let_ ((others l inside).mp mine)

end Sequence

section Going

variable {m : KeyMap} {s : Server}

theorem releases_sent (m : KeyMap) (by_ : Source) (skip : Keysym → Bool) (keys : List Keysym) (s : Server)
    (tidy : s.Tidy) :
    let s' := keys.foldl (fun now key => if skip key then now else now.keyEventFrom m by_ key false) s
    s'.sent = s.sent ++ (keys.filter fun key => !skip key).map (·, false) ∧
      s'.keys.standing = s.keys.standing ∧ s'.keys.latched = s.keys.latched ∧
      s'.viewers = s.viewers ∧ s'.clients = s.clients ∧ s'.next = s.next ∧ s'.Tidy := by
  induction keys generalizing s with
  | nil => exact ⟨(List.append_nil _).symm, rfl, rfl, rfl, rfl, rfl, tidy⟩
  | cons key keys ih =>
    dsimp only at ih ⊢
    rw [List.foldl_cons]
    cases skipped : skip key with
    | true =>
      obtain ⟨sent, rest⟩ := ih s tidy
      refine ⟨?_, rest⟩
      rw [if_pos rfl, sent, List.filter_cons_of_neg (by simp [skipped])]
    | false =>
      obtain ⟨sent, standing, latched, rest⟩ := ih _ (keyEventFrom_tidy (m := m) tidy by_ key false)
      obtain ⟨same, sameLatched⟩ := KeyState.resolve_up_aside m s.keys key
      refine ⟨?_, standing.trans same, latched.trans sameLatched, rest⟩
      rw [if_neg (by decide), sent, List.filter_cons_of_pos (by simp [skipped]), List.map_cons]
      exact List.append_assoc _ _ _

theorem forgets_sent (m : KeyMap) (id : Nat) (keys : List Keysym) (s : Server) (tidy : s.Tidy)
    (once : keys.Nodup) :
    let s' := keys.foldl (fun now key => now.linkKey m id key false) s
    s'.sent = s.sent ++ (keys.filter fun key => !s.swallowed.contains key).map (·, false) ∧
      s'.keys.standing = s.keys.standing ∧ s'.keys.latched = s.keys.latched ∧
      s'.viewers = s.viewers ∧ s'.clients = s.clients ∧ s'.next = s.next ∧ s'.Tidy := by
  induction keys generalizing s with
  | nil => exact ⟨(List.append_nil _).symm, rfl, rfl, rfl, rfl, rfl, tidy⟩
  | cons key keys ih =>
    obtain ⟨other, once⟩ := List.nodup_cons.mp once
    have next := linkKey_tidy (m := m) tidy id key false
    obtain ⟨sent, standing, latched, rest⟩ := ih _ next once
    dsimp only
    rw [List.foldl_cons]
    cases swallowed : s.swallowed.contains key with
    | true =>
      have took : s.linkKey m id key false = { s with swallowed := s.swallowed.erase key } := by
        unfold linkKey swallowKey
        rw [swallowed]
        rfl
      rw [took] at sent standing latched rest ⊢
      refine ⟨?_, standing, latched, rest⟩
      rw [sent, List.filter_cons_of_neg (by simpa using swallowed)]
      refine congrArg (fun keys : List Keysym => s.sent ++ keys.map (·, false)) ?_
      refine List.filter_congr fun x inside => ?_
      have apart : x ≠ key := fun same => other (same ▸ inside)
      have inside := List.mem_erase_of_ne (l := s.swallowed) apart
      simp only [List.contains_eq_mem, inside]
    | false =>
      have took : s.linkKey m id key false =
          { s.keyEventFrom m (.client id) key false with
            sequenceBy := if (s.keyEventFrom m (.client id) key false).stands then some .link
              else none } := by
        unfold linkKey swallowKey
        rw [swallowed]
        rfl
      rw [took] at sent standing latched rest ⊢
      obtain ⟨same, sameLatched⟩ := KeyState.resolve_up_aside m s.keys key
      refine ⟨?_, standing.trans same, latched.trans sameLatched, rest⟩
      rw [sent, List.filter_cons_of_pos (by simpa using swallowed), List.map_cons]
      exact List.append_assoc _ _ _

theorem heldElsewhere_iff (id : Nat) (key : Keysym) :
    s.heldElsewhere id key = true ↔ s.HeldByOther (.viewer id) key := by
  unfold heldElsewhere HeldByOther
  simp only [Bool.or_eq_true, List.any_eq_true, Bool.and_eq_true, bne_iff_ne, List.contains_iff_mem,
    ne_eq, Source.viewer.injEq, reduceCtorEq, not_false_eq_true, true_and]

theorem drop_left (m : KeyMap) (tidy : s.Tidy) (v : Attached) :
    (s.drop m v).sent =
        s.sent ++ (v.held.filter fun key => !s.heldElsewhere v.id key).map (·, false) ∧
      (s.Lets v → (s.drop m v).keys.standing = 0#32 ∧ (s.drop m v).keys.latched = []) ∧
      (¬ s.Lets v → (s.drop m v).keys.standing = s.keys.standing ∧
        (s.drop m v).keys.latched = s.keys.latched) ∧ (s.drop m v).Tidy := by
  have first : ∀ s₁ : Server, s₁ = (if s.sequenceBy = some (.viewer v.id) then
      { s.sequenceLetGo with sequenceBy := none } else s) → s₁.Tidy ∧ s₁.sent = s.sent ∧
      s₁.viewers = s.viewers ∧ s₁.clients = s.clients ∧ s₁.next = s.next ∧
      (s.sequenceBy = some (.viewer v.id) → s₁.keys.standing = 0#32 ∧ s₁.keys.latched = []) ∧
      (s.sequenceBy ≠ some (.viewer v.id) → s₁.keys = s.keys) := by
    intro s₁ is
    split at is
    · rename_i mine
      rw [is]
      exact ⟨(letGo_tidy tidy).aside _ _ _, rfl, rfl, rfl, rfl,
        fun _ => KeyState.letGo_aside, fun other => absurd mine other⟩
    · rename_i other
      rw [is]
      exact ⟨tidy, rfl, rfl, rfl, rfl, fun mine => absurd mine other, fun _ => rfl⟩
  obtain ⟨tidy₁, sent₁, viewers₁, clients₁, next₁, mine₁, other₁⟩ := first _ rfl
  obtain ⟨sent₂, standing₂, latched₂, viewers₂, clients₂, next₂, tidy₂⟩ :=
    releases_sent m (.viewer v.id) (s.heldElsewhere v.id) v.held _ tidy₁
  have ids : ((s.viewers.filter fun w => w.id != v.id).map Attached.id).Nodup :=
    tidy.viewerIds.sublist (List.filter_sublist.map _)
  have left := viewersLeft_tidy tidy₂ ids fun w inside => by
    rw [next₂, next₁]
    exact tidy.viewersNumbered w (List.mem_of_mem_filter inside)
  generalize after : List.foldl _ _ v.held = s₂ at sent₂ standing₂ latched₂ viewers₂ clients₂ next₂ tidy₂ left
  have whole : s.drop m v =
      let others := s.viewers.filter fun w => w.id != v.id
      let s₃ := if orButtons others ≠ s₂.buttons then
        { s₂ with buttons := orButtons others }.writeButtons else s₂
      { (if s.viewers.length = 1 ∧ s.clients = [] then { s₃.allUp with havePtr := false } else s₃) with
        viewers := others } := by
    rw [← after]
    rfl
  rw [whole, ← sent₁, ← sent₂]
  dsimp only at left ⊢
  have kept : ∀ changed : Prop, [Decidable changed] → ∀ s₃ : Server,
      s₃ = (if changed then { s₂ with buttons := orButtons (s.viewers.filter fun w => w.id != v.id) }.writeButtons
        else s₂) → s₃.sent = s₂.sent ∧ s₃.keys = s₂.keys := by
    intro changed _ s₃ is
    split at is <;> exact is ▸ ⟨rfl, rfl⟩
  generalize is : (if orButtons (s.viewers.filter fun w => w.id != v.id) ≠ s₂.buttons then _ else s₂) = s₃
    at left ⊢
  obtain ⟨sent₃, keys₃⟩ := kept _ s₃ is.symm
  by_cases last : s.viewers.length = 1 ∧ s.clients = []
  · rw [if_pos last]
    exact ⟨sent₃, fun _ => ⟨rfl, rfl⟩, fun stays => absurd (Or.inr last) stays,
      (allUp_tidy left).aside _ _ _⟩
  · rw [if_neg last]
    refine ⟨sent₃, fun lets => ?_, fun stays => ?_, left⟩
    · obtain ⟨standing, latched⟩ := mine₁ (lets.resolve_right last)
      exact ⟨(congrArg KeyState.standing keys₃).trans (standing₂.trans standing),
        (congrArg KeyState.latched keys₃).trans (latched₂.trans latched)⟩
    · have same := other₁ fun mine => stays (Or.inl mine)
      exact ⟨(congrArg KeyState.standing keys₃).trans (standing₂.trans (congrArg _ same)),
        (congrArg KeyState.latched keys₃).trans (latched₂.trans (congrArg _ same))⟩

theorem forget_left (m : KeyMap) (tidy : s.Tidy) (c : Attached) (attached : c ∈ s.clients) :
    (s.forget m c).sent = s.sent ++ (c.held.filter fun key => !s.swallowed.contains key).map (·, false) ∧
      (s.forget m c).keys.standing = s.keys.standing ∧
      (s.forget m c).keys.latched = s.keys.latched ∧ (s.forget m c).Tidy := by
  obtain ⟨sent, standing, latched, viewers, clients, next, tidy₁⟩ :=
    forgets_sent m c.id c.held s tidy (tidy.heldOnce c attached)
  have ids : ((s.clients.filter fun d => d.id != c.id).map Attached.id).Nodup :=
    tidy.clientIds.sublist (List.filter_sublist.map _)
  refine ⟨sent, standing, latched, linkButtonsSet_tidy tidy₁ ids (fun d inside => ?_) fun d inside => ?_⟩
  · rw [next]
    exact tidy.clientsNumbered d (List.mem_of_mem_filter inside)
  · exact tidy.heldOnce d (List.mem_of_mem_filter inside)

end Going

section Steps

variable {m : KeyMap} {s : Server}

theorem change_ids (sources : List Attached) (id : Nat) {f : Attached → Attached}
    (keeps : ∀ a, (f a).id = a.id) : (change sources id f).map Attached.id = sources.map Attached.id := by
  unfold change
  rw [List.map_map]
  refine List.map_congr_left fun a _ => ?_
  dsimp only [Function.comp]
  split
  · exact keeps a
  · rfl

theorem change_all {sources : List Attached} (id : Nat) {f : Attached → Attached}
    {holds : Attached → Prop} (all : ∀ a ∈ sources, holds a) (keeps : ∀ a, holds a → holds (f a)) :
    ∀ a ∈ change sources id f, holds a := by
  intro a inside
  obtain ⟨old, was, rfl⟩ := List.mem_map.mp inside
  split
  · exact keeps old (all old was)
  · exact all old was

theorem noteKey_once {max : Nat} {a : Attached} {key : Keysym} {down : Bool} (once : a.held.Nodup) :
    (noteKey max a key down).held.Nodup := by
  unfold noteKey
  split
  · split
    · rename_i fresh
      refine List.nodup_append.mpr ⟨once, List.nodup_singleton _, ?_⟩
      intro x inside y same eq
      rw [eq, List.mem_singleton.mp same] at inside
      simp [inside] at fresh
    · exact once
  · exact once.erase key

theorem noteKey_same (max : Nat) (a : Attached) (key : Keysym) (down : Bool) :
    (noteKey max a key down).id = a.id ∧ (noteKey max a key down).buttons = a.buttons := by
  unfold noteKey
  split
  · split <;> exact ⟨rfl, rfl⟩
  · exact ⟨rfl, rfl⟩

theorem orButtons_change (sources : List Attached) (id : Nat) {f : Attached → Attached}
    (keeps : ∀ a, (f a).buttons = a.buttons) : orButtons (change sources id f) = orButtons sources := by
  unfold orButtons change
  rw [List.foldl_map]
  refine congrArg (fun g => sources.foldl g 0#8) ?_
  funext mask a
  split
  · rw [keeps]
  · rfl

theorem viewerComes_tidy (tidy : s.Tidy) : (s.step m .viewerComes).Tidy := by
  refine ⟨?_, tidy.clientIds, ?_, fun c inside => Nat.lt_succ_of_lt (tidy.clientsNumbered c inside),
    tidy.heldOnce, tidy.swallowedOnce, ?_, tidy.linkButtons, tidy.written, tidy.latches, tidy.prefixes⟩
  · show ((s.viewers ++ [Attached.mk s.next [] 0#8]).map Attached.id).Nodup
    rw [List.map_append]
    refine List.nodup_append.mpr ⟨tidy.viewerIds, List.nodup_singleton _, ?_⟩
    intro x inside y same eq
    obtain ⟨v, was, rfl⟩ := List.mem_map.mp inside
    rw [List.mem_singleton.mp same] at eq
    exact absurd eq (Nat.ne_of_lt (tidy.viewersNumbered v was))
  · intro v inside
    rcases List.mem_append.mp inside with old | new
    · exact Nat.lt_succ_of_lt (tidy.viewersNumbered v old)
    · rw [List.mem_singleton.mp new]
      exact Nat.lt_succ_self _
  · show s.buttons = orButtons (s.viewers ++ [Attached.mk s.next [] 0#8])
    rw [orButtons, List.foldl_append]
    exact tidy.buttons.trans (BitVec.or_zero).symm

theorem clientComes_tidy (tidy : s.Tidy) : (s.step m .clientComes).Tidy := by
  refine ⟨tidy.viewerIds, ?_, fun v inside => Nat.lt_succ_of_lt (tidy.viewersNumbered v inside), ?_, ?_,
    tidy.swallowedOnce, tidy.buttons, ?_, tidy.written, tidy.latches, tidy.prefixes⟩
  · show ((s.clients ++ [Attached.mk s.next [] 0#8]).map Attached.id).Nodup
    rw [List.map_append]
    refine List.nodup_append.mpr ⟨tidy.clientIds, List.nodup_singleton _, ?_⟩
    intro x inside y same eq
    obtain ⟨c, was, rfl⟩ := List.mem_map.mp inside
    rw [List.mem_singleton.mp same] at eq
    exact absurd eq (Nat.ne_of_lt (tidy.clientsNumbered c was))
  · intro c inside
    rcases List.mem_append.mp inside with old | new
    · exact Nat.lt_succ_of_lt (tidy.clientsNumbered c old)
    · rw [List.mem_singleton.mp new]
      exact Nat.lt_succ_self _
  · intro c inside
    rcases List.mem_append.mp inside with old | new
    · exact tidy.heldOnce c old
    · rw [List.mem_singleton.mp new]
      exact List.nodup_nil
  · show s.linkButtons = orButtons (s.clients ++ [Attached.mk s.next [] 0#8]) &&& 7#8
    rw [orButtons, List.foldl_append]
    exact tidy.linkButtons.trans (congrArg (· &&& 7#8) (BitVec.or_zero).symm)

theorem viewerKey_tidy (tidy : s.Tidy) (id : Nat) (keysym : Keysym) (down : Bool) :
    (s.viewerKey m id keysym down).Tidy := by
  have sent := keyEventFrom_tidy (m := m) tidy (.viewer id) keysym down
  have ids := change_ids s.viewers id fun a =>
    (noteKey_same keyMaxDown a keysym down).1
  have same := orButtons_change s.viewers id fun a =>
    (noteKey_same keyMaxDown a keysym down).2
  refine ⟨ids ▸ sent.viewerIds, sent.clientIds, ?_, sent.clientsNumbered, sent.heldOnce,
    sent.swallowedOnce, sent.buttons.trans same.symm, sent.linkButtons, sent.written, sent.latches,
    sent.prefixes⟩
  exact change_all _ tidy.viewersNumbered fun a numbered => (noteKey_same _ a _ _).1 ▸ numbered

theorem viewerPointer_tidy (tidy : s.Tidy) (id : Nat) (buttons : Byte) :
    (s.viewerPointer id buttons).Tidy := by
  have ids := change_ids s.viewers id
    (f := fun v => { v with buttons := buttons }) fun _ => rfl
  have numbered := change_all id (f := fun v => { v with buttons := buttons })
    tidy.viewersNumbered fun _ numbered => numbered
  unfold viewerPointer
  dsimp only
  split
  · exact ⟨ids ▸ tidy.viewerIds, tidy.clientIds, numbered, tidy.clientsNumbered, tidy.heldOnce,
      tidy.swallowedOnce, rfl, tidy.linkButtons, rfl, tidy.latches, tidy.prefixes⟩
  · rename_i same
    have kept := not_not.mp fun other => same (Bool.or_eq_true_iff.mpr (Or.inr (bne_iff_ne.mpr other)))
    exact ⟨ids ▸ tidy.viewerIds, tidy.clientIds, numbered, tidy.clientsNumbered, tidy.heldOnce,
      tidy.swallowedOnce, kept.symm, tidy.linkButtons, tidy.written, tidy.latches, tidy.prefixes⟩

theorem clientKey_tidy (tidy : s.Tidy) (id : Nat) (keysym : Keysym) (down waking : Bool) :
    (s.clientKey m id keysym down waking).Tidy := by
  have ids := change_ids s.clients id fun a =>
    (noteKey_same linkDownMax a keysym down).1
  have same := orButtons_change s.clients id fun a =>
    (noteKey_same linkDownMax a keysym down).2
  refine linkKey_tidy ?_ id keysym down
  refine ⟨tidy.viewerIds, ids ▸ tidy.clientIds, tidy.viewersNumbered, ?_, ?_, tidy.swallowedOnce,
    tidy.buttons, tidy.linkButtons.trans (congrArg (· &&& 7#8) same.symm), tidy.written, tidy.latches,
    tidy.prefixes⟩
  · exact change_all _ tidy.clientsNumbered fun a numbered => (noteKey_same _ a _ _).1 ▸ numbered
  · exact change_all _ tidy.heldOnce fun a once => noteKey_once once

theorem clientPointer_tidy (tidy : s.Tidy) (c : Attached) (buttons : Byte) (waking : Bool) :
    (s.clientPointer c buttons waking).Tidy := by
  unfold clientPointer
  dsimp only
  split
  · have ids := change_ids s.clients c.id
      (f := fun d => { d with buttons := buttons &&& 7#8 }) fun _ => rfl
    refine linkButtonsSet_tidy (tidy.aside s.sequenceBy s.havePtr waking) (ids ▸ tidy.clientIds) ?_ ?_
    · exact change_all _ tidy.clientsNumbered fun _ numbered => numbered
    · exact change_all _ tidy.heldOnce fun _ once => once
  · exact tidy.aside _ _ _

theorem step_tidy (tidy : s.Tidy) (e : Happening) : (s.step m e).Tidy := by
  cases e with
  | viewerComes => exact viewerComes_tidy tidy
  | clientComes => exact clientComes_tidy tidy
  | viewerKey id keysym down =>
    unfold step
    dsimp only
    split
    · exact viewerKey_tidy tidy id keysym down
    · exact tidy
  | viewerPointer id buttons =>
    unfold step
    dsimp only
    split
    · exact viewerPointer_tidy tidy id buttons
    · exact tidy
  | clientKey id keysym down waking =>
    unfold step
    dsimp only
    split
    · exact clientKey_tidy tidy id keysym down waking
    · exact tidy
  | clientPointer id buttons waking =>
    unfold step
    dsimp only
    split
    · exact clientPointer_tidy tidy _ buttons waking
    · exact tidy
  | viewerGoes id =>
    unfold step
    dsimp only
    split
    · exact (drop_left m tidy _).2.2.2
    · exact tidy
  | clientGoes id =>
    unfold step
    dsimp only
    split
    · rename_i c found
      exact (forget_left m tidy c (List.mem_of_find?_eq_some found)).2.2.2
    · exact tidy
  | took =>
    exact ⟨tidy.viewerIds, tidy.clientIds, tidy.viewersNumbered, tidy.clientsNumbered, tidy.heldOnce,
      tidy.swallowedOnce, tidy.buttons, tidy.linkButtons, tidy.written, tidy.latches, tidy.prefixes⟩

/-- The servers a run comes to. -/
inductive Reached (m : KeyMap) : Server → Prop where
  | begun : Reached m begun
  | step {s : Server} (reached : Reached m s) (e : Happening) : Reached m (s.step m e)

theorem begun_tidy : begun.Tidy :=
  ⟨List.nodup_nil, List.nodup_nil, fun _ inside => (nomatch inside), fun _ inside => (nomatch inside),
    fun _ inside => (nomatch inside), List.nodup_nil, rfl, rfl, rfl, rfl, fun _ => rfl⟩

theorem reached_tidy (reached : Reached m s) : s.Tidy := by
  induction reached with
  | begun => exact begun_tidy
  | step _ e tidy => exact step_tidy tidy e

end Steps

/-- The keysyms whose going is as it should be: not released under another's hand, and not swallowed when
the machine has them down. -/
def ReleasesRightly (s : Server) (c : Attached) : Prop :=
  ∀ key ∈ c.held, if key ∈ s.swallowed then s.Saw key → s.HeldByOther (.client c.id) key
    else ¬ s.HeldByOther (.client c.id) key

section Whole

variable {m : KeyMap} {s : Server}

theorem sent_since {s' : Server} {events : List (Keysym × Bool)} (sent : s'.sent = s.sent ++ events)
    (key : Keysym) : s.Releases s' key ↔ (key, false) ∈ events := by
  unfold Releases
  rw [sent, List.drop_left]

theorem switches_left {s' : Server} (tidy : s'.Tidy) : s'.face.getD 0#8 =
    (orButtons s'.viewers ||| (orButtons s'.clients &&& 7#8 &&& ~~~s'.swallowedButtons)) &&& 7#8 := by
  rw [← tidy.buttons, ← tidy.linkButtons]
  exact tidy.written

theorem drop_departs (m : KeyMap) (tidy : s.Tidy) (v : Attached) :
    Departs s (s.drop m v) (.viewer v.id) v.held ↔ s.Rightly (.viewer v.id) (s.Lets v) := by
  obtain ⟨sent, gone, stays, left⟩ := drop_left m tidy v
  have releases : ∀ key, s.Releases (s.drop m v) key ↔
      key ∈ v.held ∧ ¬ s.HeldByOther (.viewer v.id) key := by
    intro key
    rw [sent_since sent, ← heldElsewhere_iff]
    simp
  rw [← rightly_iff tidy gone stays]
  constructor
  · exact fun departs => ⟨departs.standing, departs.latched⟩
  · intro ⟨standing, latched⟩
    exact ⟨fun key held alone => Or.inl ((releases key).mpr ⟨held, alone⟩),
      fun key released => ((releases key).mp released).2, standing, latched, switches_left left⟩

theorem forget_departs (m : KeyMap) (tidy : s.Tidy) (c : Attached) (attached : c ∈ s.clients) :
    Departs s (s.forget m c) (.client c.id) c.held ↔
      s.ReleasesRightly c ∧ s.Rightly (.client c.id) False := by
  obtain ⟨sent, standing, latched, left⟩ := forget_left m tidy c attached
  have releases : ∀ key, s.Releases (s.forget m c) key ↔ key ∈ c.held ∧ key ∉ s.swallowed := by
    intro key
    rw [sent_since sent]
    simp
  have stays : ¬ False → (s.forget m c).keys.standing = s.keys.standing ∧
      (s.forget m c).keys.latched = s.keys.latched := fun _ => ⟨standing, latched⟩
  rw [← rightly_iff tidy False.elim stays]
  constructor
  · intro departs
    refine ⟨fun key held => ?_, departs.standing, departs.latched⟩
    split
    · rename_i swallowed
      intro saw
      by_contra alone
      rcases departs.released key held alone with released | ⟨_, unseen⟩
      · exact ((releases key).mp released).2 swallowed
      · exact unseen saw
    · rename_i passed
      exact departs.kept key ((releases key).mpr ⟨held, passed⟩)
  · intro ⟨rightly, standing, latched⟩
    refine ⟨fun key held alone => ?_, fun key released => ?_, standing, latched, switches_left left⟩
    · have rule := rightly key held
      by_cases swallowed : key ∈ s.swallowed
      · rw [if_pos swallowed] at rule
        exact Or.inr ⟨swallowed, fun saw => alone (rule saw)⟩
      · exact Or.inl ((releases key).mpr ⟨held, swallowed⟩)
    · obtain ⟨held, passed⟩ := (releases key).mp released
      have rule := rightly key held
      rwa [if_neg passed] at rule

end Whole

/-- Whatever has happened, a viewer that goes takes its own input and nobody else's exactly when the
sequence that stands is taken for its own maker's, and a client exactly when it made none, and its keysyms
that were not swallowed are nobody else's. -/
theorem goes_with_its_own {m : KeyMap} {s : Server} (reached : Reached m s) :
    (∀ v ∈ s.viewers,
      (Departs s (s.drop m v) (.viewer v.id) v.held ↔ s.Rightly (.viewer v.id) (s.Lets v))) ∧
    ∀ c ∈ s.clients, (Departs s (s.forget m c) (.client c.id) c.held ↔
      s.ReleasesRightly c ∧ s.Rightly (.client c.id) False) :=
  ⟨fun v _ => drop_departs m (reached_tidy reached) v,
    fun c attached => forget_departs m (reached_tidy reached) c attached⟩

/-- A map with the letter a. -/
def letterMap : KeyMap := ⟨[⟨0x61#32, 0x53#7, false⟩], []⟩

/-- A viewer that holds the letter. -/
def viewerTypes : Server :=
  (begun.step letterMap .viewerComes).step letterMap (.viewerKey 0 0x61#32 true)

/-- The letter goes with the viewer that held it. -/
theorem goes_with_its_own_typed :
    ∃ v ∈ viewerTypes.viewers, v.held = [0x61#32] ∧
      Departs viewerTypes (viewerTypes.drop letterMap v) (.viewer v.id) v.held := by
  have attached : (⟨0, [0x61#32], 0#8⟩ : Attached) ∈ viewerTypes.viewers := by decide
  refine ⟨_, attached, rfl,
    ((goes_with_its_own (Reached.step (.step .begun .viewerComes) _)).1 _ attached).mpr ⟨?_, ?_⟩⟩
  · exact fun standing => absurd (by decide) standing
  · have made : viewerTypes.latchBy = [] := by decide
    intro l inside
    exact nomatch (made ▸ inside : l ∈ [])

/-- Two programs of the link that hold the letter. -/
def clientsType : Server :=
  (((begun.step letterMap .clientComes).step letterMap .clientComes).step letterMap
    (.clientKey 0 0x61#32 true false)).step letterMap (.clientKey 1 0x61#32 true false)

/-- The first goes, and the letter is released under the second's hand. -/
theorem forget_lifts_others :
    Reached letterMap clientsType ∧ ∃ c ∈ clientsType.clients,
      clientsType.HeldByOther (.client c.id) 0x61#32 ∧
        clientsType.Releases (clientsType.forget letterMap c) 0x61#32 := by
  refine ⟨.step (.step (.step (.step .begun _) _) _) _, ⟨0, [0x61#32], 0#8⟩, by decide, ?_, ?_⟩
  · exact Or.inr ⟨⟨1, [0x61#32], 0#8⟩, by decide, by decide, by decide⟩
  · unfold Releases
    decide

end Server

end MuirFpga.Terminal
