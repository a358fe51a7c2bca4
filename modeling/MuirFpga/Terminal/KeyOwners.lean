import MuirFpga.Terminal.KeyWords

/-!
# Whose key is down

Each position that is down is latched, or a keysym pressed and not released since holds it and its
release is still owed. So with every keysym released and no latch, none is down.
-/

namespace MuirFpga.Terminal

/-- A keysym holds a position: as a shifting key, or by the record of its press. -/
def Owns (m : KeyMap) (held : List Held) (s : Keysym) (p : Position) : Prop :=
  m.isPrefix s = false ∧ (m.modifierPosition s = some p ∨
    m.modifierPosition s = none ∧ ∃ h ∈ held, h.sym = s ∧ h.pos = p)

/-- A position that is latched, or held by a keysym whose release is owed. -/
def Owned (m : KeyMap) (pressed : List Keysym) (held : List Held) (latched : List Position)
    (tapped : List Keysym) (p : Position) : Prop :=
  p ∈ latched ∨ ∃ s ∈ pressed, s ∉ tapped ∧ Owns m held s p

namespace KeyState

section Fits

variable (m : KeyMap) (k : KeyState) (s : Keysym)

/-- A tap that goes is of a key that is up. -/
def TapFits (p : Position) (wantsShift : Bool) : Prop :=
  k.queue.length + (k.burst p wantsShift).length ≤ keyBacklog → p ∉ k.down

/-- Room for the latches let go after a tap. -/
def LatchRoom (p : Position) (wantsShift : Bool) : Prop :=
  if k.queue.length + (k.burst p wantsShift).length ≤ keyBacklog then
    k.queue.length + k.burstWords (k.burst p wantsShift) +
      (k.down.filter k.latched.contains).length ≤ keyBacklog
  else k.RoomUp k.latched

/-- What a press needs that finds its keys on the table. -/
def FoundFits (found : List (Position × Bool)) : Prop :=
  if k.latched ≠ [] then
    let pick := (found.find? fun f => f.2 == k.holding 0).getD (found.getD 0 (0#7, false))
    k.TapFits pick.1 pick.2 ∧ k.LatchRoom pick.1 pick.2
  else
    match found.find? fun f => f.2 == k.holding 0 with
    | some f => k.Fresh f.1 →
      k.down.length < keyMaxDown ∧ k.held.length < keyMaxDown ∧ s ∉ k.tapped
    | none =>
      let f := found.getD 0 (0#7, false)
      k.TapFits f.1 f.2

/-- What a press needs: that the lists have room for it, that a keysym which goes down has no release
to be dropped, and that one whose release is to be dropped holds nothing. -/
def PressFits : Prop :=
  m.isPrefix s = false →
    if k.standing ≠ 0#32 then
      (∀ p ∈ k.down, ¬ Owns m k.held s p) ∧
        ∀ p want, m.afterPrefix k.standing s = some (p, want) →
          if isShift p then
            k.Fresh p → k.down.length < keyMaxDown ∧ k.latched.length < keyMaxDown
          else k.TapFits p want
    else
      match m.modifierPosition s with
      | some p => k.Fresh p → k.down.length < keyMaxDown ∧ s ∉ k.tapped
      | none => k.heldBy s = none → m.positions s ≠ [] → k.FoundFits s (m.positions s)

/-- The position a release lets go. -/
def lets : List Position :=
  if k.tapped.contains s || m.isPrefix s then []
  else
    match m.modifierPosition s with
    | some p => [p]
    | none =>
      match k.heldBy s with
      | some h => [h.pos]
      | none =>
        if m.positions s = [] ∨ k.latched ≠ [] then []
        else
          match (m.positions s).find? fun f => f.2 == k.holding 0 with
          | some f => [f.1]
          | none => [((m.positions s).getD 0 (0#7, false)).1]

/-- What a call needs of the state before it. -/
def Fits : KeyCall → Prop
  | .event s true => k.PressFits m s
  | .event s false => k.RoomUp (k.lets m s)
  | .took => True
  | .letGo => k.RoomUp k.latched
  | .allUp => k.RoomUp k.down

end Fits

end KeyState

/-- What holds of a keyboard between calls. -/
structure Sound (m : KeyMap) (b : Keyboard) : Prop where
  tells : Tells b.read b.keys (· ∈ b.keys.down)
  once : b.keys.down.Nodup
  records : (b.keys.held.map Held.sym).Nodup
  owned : ∀ p ∈ b.keys.down, Owned m b.pressed b.keys.held b.keys.latched b.keys.tapped p

section Owned

variable {m : KeyMap} {k : KeyState} {pressed pressed' : List Keysym} {s : Keysym} {p : Position}

theorem Owned.mono {held held' : List Held} {latched latched' : List Position}
    {tapped tapped' : List Keysym} (owned : Owned m pressed held latched tapped p)
    (more : ∀ s ∈ pressed, s ∈ pressed') (kept : ∀ h ∈ held, h.pos = p → h ∈ held')
    (stands : ∀ q ∈ latched, q ∈ latched') (fewer : ∀ s ∈ tapped', s ∈ tapped) :
    Owned m pressed' held' latched' tapped' p := by
  refine owned.imp (stands p) ?_
  rintro ⟨s, inside, owed, plain, why⟩
  refine ⟨s, more s inside, fun tapped => owed (fewer s tapped), plain, why.imp_right ?_⟩
  rintro ⟨none, h, inside, sym, pos⟩
  exact ⟨none, h, kept h inside pos, sym, pos⟩

theorem releases_owned (m : KeyMap) (pressed : List Keysym) (ps : List Position) (once : k.down.Nodup)
    (records : (k.held.map Held.sym).Nodup)
    (owned : ∀ p ∈ k.down, p ∉ ps → Owned m pressed k.held k.latched k.tapped p) :
    (ps.foldl KeyState.release k).down.Nodup ∧
      ((ps.foldl KeyState.release k).held.map Held.sym).Nodup ∧
      (∀ p ∈ (ps.foldl KeyState.release k).down, p ∈ k.down ∧ p ∉ ps) ∧
      ∀ p ∈ (ps.foldl KeyState.release k).down,
        Owned m pressed (ps.foldl KeyState.release k).held (ps.foldl KeyState.release k).latched
          (ps.foldl KeyState.release k).tapped p := by
  induction ps generalizing k with
  | nil => exact ⟨once, records, fun p inside => ⟨inside, by simp⟩, fun p inside => owned p inside (by simp)⟩
  | cons p ps ih =>
    have lists := KeyState.release_lists (k := k) (p := p)
    simp only [KeyState.lists, Prod.mk.injEq] at lists
    obtain ⟨downs, helds, latches, taps⟩ := lists
    have left : ∀ q, q ∈ (k.release p).down ↔ q ≠ p ∧ q ∈ k.down := by
      intro q
      rw [downs, once.mem_erase_iff]
    obtain ⟨once', records', fewer, owned'⟩ := ih (k := k.release p) (by rw [downs]; exact once.erase p)
      (by
        rw [helds]
        split
        · exact records.sublist (List.filter_sublist.map Held.sym)
        · exact records)
      (by
        intro q inside off
        obtain ⟨other, inside⟩ := (left q).mp inside
        refine (owned q inside (by simp [other, off])).mono (fun _ h => h) ?_ (by rw [latches]; simp)
          (by rw [taps]; simp)
        intro h inside pos
        rw [helds]
        split
        · exact List.mem_filter.mpr ⟨inside, by simp [pos, other]⟩
        · exact inside)
    refine ⟨once', records', ?_, owned'⟩
    intro q inside
    obtain ⟨down, off⟩ := fewer q inside
    obtain ⟨other, down⟩ := (left q).mp down
    exact ⟨down, by simp [other, off]⟩

end Owned

section Steps

variable {m : KeyMap} {k : KeyState} {read : List (BitVec 32)} {pressed : List Keysym} {s : Keysym}
  {p : Position}

theorem Sound.more (sound : Sound m ⟨k, read, pressed⟩) : Sound m ⟨k, read, s :: pressed⟩ :=
  ⟨sound.tells, sound.once, sound.records, fun p down => (sound.owned p down).mono
    (fun _ inside => List.mem_cons_of_mem s inside) (fun _ h _ => h) (fun _ h => h) (fun _ h => h)⟩

theorem Sound.of_lists {k' : KeyState} (sound : Sound m ⟨k, read, pressed⟩)
    (tells : Tells read k' (· ∈ k'.down)) (lists : k'.lists = k.lists) :
    Sound m ⟨k', read, pressed⟩ := by
  simp only [KeyState.lists, Prod.mk.injEq] at lists
  obtain ⟨downs, helds, latches, taps⟩ := lists
  refine ⟨tells, ?_, ?_, ?_⟩
  · dsimp only
    rw [downs]
    exact sound.once
  · dsimp only
    rw [helds]
    exact sound.records
  · dsimp only
    rw [downs, helds, latches, taps]
    exact sound.owned

section

variable (sound : Sound m ⟨k, read, pressed⟩)

include sound

theorem Sound.mark
    (free : ∀ p ∈ k.down, ¬ Owns m k.held s p) : Sound m ⟨k.markTapped s, read, pressed⟩ := by
  unfold KeyState.markTapped
  split
  · refine ⟨⟨sound.tells.told, sound.tells.room, sound.tells.kept⟩, sound.once, sound.records, ?_⟩
    intro p down
    refine (sound.owned p down).imp_right ?_
    rintro ⟨t, inside, owed, owns⟩
    refine ⟨t, inside, ?_, owns⟩
    intro tapped
    rcases List.mem_append.mp tapped with tapped | same
    · exact owed tapped
    · rw [List.mem_singleton.mp same] at owns
      exact free p down owns
  · exact sound

theorem Sound.tap (want : Bool) (plain : isShift p = false)
    (fits : k.TapFits p want) : Sound m ⟨(k.tap p want).1, read, pressed⟩ := by
  unfold KeyState.tap
  dsimp only
  by_cases full : k.queue.length + (k.burst p want).length > keyBacklog
  · rw [if_pos full]
    exact sound.of_lists ⟨sound.tells.told, sound.tells.room, sound.tells.kept⟩ rfl
  · rw [if_neg full]
    have few : k.burstWords (k.burst p want) ≤ _ := k.burstWords_le _
    obtain ⟨fine, same⟩ := KeyState.burst_leaves want plain (fits (by omega))
    obtain ⟨tells, _, lists⟩ := KeyState.burst_tells _ sound.tells fine (by dsimp only; omega)
    dsimp only at tells lists
    rw [same] at tells
    have downs : ((k.burst p want).foldl KeyState.queueKey k).down = k.down := congrArg Prod.fst lists
    refine sound.of_lists ?_ lists
    rw [downs]
    exact tells

theorem Sound.tap_room {want : Bool} (plain : isShift p = false)
    (fits : k.TapFits p want) (room : k.LatchRoom p want) :
    (k.tap p want).1.RoomUp (k.tap p want).1.latched := by
  unfold KeyState.LatchRoom at room
  unfold KeyState.tap
  dsimp only
  by_cases goes : k.queue.length + (k.burst p want).length ≤ keyBacklog
  · rw [if_pos goes] at room
    rw [if_neg (Nat.not_lt.mpr goes)]
    have few : k.burstWords (k.burst p want) ≤ _ := k.burstWords_le _
    obtain ⟨fine, same⟩ := KeyState.burst_leaves want plain (fits goes)
    obtain ⟨_, length, lists⟩ := KeyState.burst_tells _ sound.tells fine (by dsimp only; omega)
    simp only [KeyState.lists, Prod.mk.injEq] at lists
    obtain ⟨downs, helds, latches, taps⟩ := lists
    refine Or.inr ?_
    dsimp only at length downs latches ⊢
    rw [length, downs, latches]
    exact room
  · rw [if_neg goes] at room
    rw [if_pos (Nat.not_le.mp goes)]
    exact room

theorem Sound.press (few : k.Fresh p → k.down.length < keyMaxDown) :
    Tells read (k.press p).1 (· ∈ (k.press p).1.down) ∧ (k.press p).1.down.Nodup ∧
      (∀ q ∈ (k.press p).1.down, q ∈ k.down ∨ q = p ∧ k.Fresh p) ∧
      (k.press p).1.held = k.held ∧ (k.press p).1.latched = k.latched ∧
      (k.press p).1.tapped = k.tapped := by
  obtain ⟨tells, fresh, stale⟩ := KeyState.press_tells (p := p) sound.tells few
  by_cases new : k.Fresh p
  · have lists := fresh new
    simp only [KeyState.lists, Prod.mk.injEq] at lists
    obtain ⟨downs, helds, latches, taps⟩ := lists
    refine ⟨tells, ?_, ?_, helds, latches, taps⟩
    · rw [downs]
      exact List.nodup_append.mpr ⟨sound.once, List.nodup_singleton p, fun q down r same eq =>
        new.1 (List.mem_singleton.mp same ▸ eq ▸ down)⟩
    · rw [downs]
      intro q inside
      rcases List.mem_append.mp inside with inside | same
      · exact Or.inl inside
      · exact Or.inr ⟨List.mem_singleton.mp same, new⟩
  · have lists := stale new
    simp only [KeyState.lists, Prod.mk.injEq] at lists
    obtain ⟨downs, helds, latches, taps⟩ := lists
    refine ⟨tells, ?_, ?_, helds, latches, taps⟩
    · rw [downs]
      exact sound.once
    · rw [downs]
      exact fun q inside => Or.inl inside

theorem Sound.pressShift (few : k.Fresh p → k.down.length < keyMaxDown)
    (owner : k.Fresh p → Owned m pressed k.held k.latched k.tapped p) :
    Sound m ⟨(k.press p).1, read, pressed⟩ := by
  obtain ⟨tells, once, downs, helds, latches, taps⟩ := sound.press few
  refine ⟨tells, once, ?_, ?_⟩
  · dsimp only
    rw [helds]
    exact sound.records
  · intro q inside
    dsimp only
    rw [helds, latches, taps]
    rcases downs q inside with down | ⟨same, new⟩
    · exact sound.owned q down
    · rw [same]
      exact owner new

theorem Sound.pressHeld (inside : s ∈ pressed)
    (plain : m.isPrefix s = false) (other : m.modifierPosition s = none)
    (unheld : k.heldBy s = none) (shifted : Bool)
    (few : k.Fresh p → k.down.length < keyMaxDown ∧ k.held.length < keyMaxDown ∧ s ∉ k.tapped) :
    Sound m ⟨if (k.press p).2 then (k.press p).1.hold s p shifted else (k.press p).1, read, pressed⟩ := by
  obtain ⟨tells, once, downs, helds, latches, taps⟩ := sound.press (fun new => (few new).1)
  by_cases went : (k.press p).2 = true
  · rw [if_pos went]
    unfold KeyState.hold
    have unheld' : (k.press p).1.heldBy s = none := by
      unfold KeyState.heldBy
      rw [helds]
      exact unheld
    rw [unheld', helds]
    by_cases full : k.held.length ≥ keyMaxDown
    · rw [if_pos (Or.inr full)]
      refine ⟨tells, once, ?_, ?_⟩
      · dsimp only
        rw [helds]
        exact sound.records
      · intro q inside
        dsimp only
        rw [helds, latches, taps]
        rcases downs q inside with down | ⟨_, new⟩
        · exact sound.owned q down
        · exact absurd (few new).2.1 (Nat.not_lt.mpr full)
    · rw [if_neg (by simp [full])]
      refine ⟨⟨tells.told, tells.room, tells.kept⟩, once, ?_, ?_⟩
      · dsimp only
        rw [List.map_append, List.nodup_append]
        refine ⟨sound.records, List.nodup_singleton _, ?_⟩
        intro t held t' same eq
        obtain ⟨h, inside, sym⟩ := List.mem_map.mp held
        have none := List.find?_eq_none.mp unheld h inside
        rw [sym, eq, List.mem_singleton.mp same] at none
        exact none (beq_self_eq_true s)
      · intro q down
        dsimp only at down ⊢
        rw [latches, taps]
        rcases downs q down with down | ⟨same, new⟩
        · exact (sound.owned q down).mono (fun _ h => h)
            (fun h inside _ => List.mem_append_left _ inside) (fun _ h => h) (fun _ h => h)
        · exact Or.inr ⟨s, inside, (few new).2.2, plain, Or.inr ⟨other, ⟨s, p, shifted⟩,
            List.mem_append_right _ (List.mem_singleton.mpr rfl), rfl, same.symm⟩⟩
  · rw [if_neg went]
    refine sound.pressShift (fun new => (few new).1) ?_
    exact fun new => absurd (KeyState.press_went.mpr (Or.inr new)) went

end

theorem markTapped_eq (k : KeyState) (s : Keysym) :
    ∃ taps, k.markTapped s = { k with tapped := taps } := by
  unfold KeyState.markTapped
  split
  · exact ⟨_, rfl⟩
  · exact ⟨k.tapped, rfl⟩

theorem Sound.behindPrefix (sound : Sound m ⟨k, read, pressed⟩) {want : Bool}
    (fits : if isShift p then k.Fresh p → k.down.length < keyMaxDown ∧ k.latched.length < keyMaxDown
      else k.TapFits p want) : Sound m ⟨(k.behindPrefix p want).1, read, pressed⟩ := by
  unfold KeyState.behindPrefix
  cases shift : isShift p with
  | false =>
    rw [shift, if_neg (by decide)] at fits
    exact sound.tap want shift fits
  | true =>
    rw [shift, if_pos rfl] at fits
    rw [if_pos rfl]
    dsimp only
    obtain ⟨tells, once, downs, helds, latches, taps⟩ := sound.press (fun new => (fits new).1)
    by_cases latches_ : ((k.press p).2 && decide ((k.press p).1.latched.length < keyMaxDown)) = true
    · rw [if_pos latches_]
      refine ⟨⟨tells.told, tells.room, tells.kept⟩, once, ?_, ?_⟩
      · dsimp only
        rw [helds]
        exact sound.records
      · intro q inside
        dsimp only at inside ⊢
        rw [helds, latches, taps]
        rcases downs q inside with down | ⟨same, new⟩
        · exact (sound.owned q down).mono (fun _ h => h) (fun _ h _ => h)
            (fun _ h => List.mem_append_left _ h) (fun _ h => h)
        · exact Or.inl (List.mem_append_right _ (List.mem_singleton.mpr same))
    · rw [if_neg latches_]
      refine sound.pressShift (fun new => (fits new).1) ?_
      intro new
      rw [Bool.and_eq_true, decide_eq_true_eq, latches] at latches_
      exact absurd ⟨KeyState.press_went.mpr (Or.inr new), (fits new).2⟩ latches_

theorem Sound.unlatch (sound : Sound m ⟨k, read, pressed⟩) (room : k.RoomUp k.latched) :
    Sound m ⟨k.unlatch, read, pressed⟩ := by
  unfold KeyState.unlatch
  obtain ⟨once, records, _, owned⟩ := releases_owned m pressed
    (k := { k with latched := [] }) k.latched sound.once sound.records (by
      intro p down off
      exact Or.inr ((sound.owned p down).resolve_left off))
  refine ⟨?_, once, records, owned⟩
  exact KeyState.releases_tell k.latched ⟨sound.tells.told, sound.tells.room, sound.tells.kept⟩
    sound.once room

theorem plain_of_found {found : Position × Bool} (other : m.modifierPosition s = none)
    (inside : found ∈ m.positions s) : isShift found.1 = false := by
  unfold KeyMap.modifierPosition at other
  unfold KeyMap.positions at inside
  split at other
  · rename_i b bound
    rw [bound] at inside
    dsimp only at inside
    rw [List.mem_singleton.mp inside]
    split at other
    · exact nomatch other
    · rename_i plain
      exact Bool.eq_false_iff.mpr plain
  · rename_i bound
    rw [bound] at inside
    dsimp only at inside
    unfold characterPositions at inside
    split at inside
    · exact nomatch inside
    · obtain ⟨p, _, inside⟩ := List.mem_flatMap.mp (List.mem_of_mem_take inside)
      unfold isShift
      split at inside
      · rename_i plain shifted kind
        have here : found.1 = p := by
          rcases List.mem_append.mp inside with inside | inside
          all_goals
            split at inside
            · rw [List.mem_singleton.mp inside]
            · exact nomatch inside
        rw [here, kind]
      · exact nomatch inside

theorem getD_mem {found : List (Position × Bool)} (some : found ≠ []) :
    found.getD 0 (0#7, false) ∈ found := by
  cases found with
  | nil => exact absurd rfl some
  | cons f rest => exact List.mem_cons_self

theorem owns_none (other : m.modifierPosition s = none) (unheld : k.heldBy s = none) :
    ¬ Owns m k.held s p := by
  rintro ⟨_, shift | ⟨_, h, inside, sym, _⟩⟩
  · exact nomatch other.symm.trans shift
  · have none := List.find?_eq_none.mp unheld h inside
    rw [sym] at none
    exact none (beq_self_eq_true s)

theorem Sound.pressFound (sound : Sound m ⟨k, read, pressed⟩) (inside : s ∈ pressed)
    (plain : m.isPrefix s = false) (other : m.modifierPosition s = none)
    (unheld : k.heldBy s = none) (some : m.positions s ≠ [])
    (fits : k.FoundFits s (m.positions s)) :
    Sound m ⟨k.pressFound s (m.positions s), read, pressed⟩ := by
  have marked := sound.mark fun p _ => owns_none (p := p) other unheld
  unfold KeyState.pressFound
  unfold KeyState.FoundFits at fits
  dsimp only at fits ⊢
  obtain ⟨taps, mark⟩ := markTapped_eq k s
  rw [mark] at marked ⊢
  by_cases latched : k.latched ≠ []
  · rw [if_pos latched] at fits ⊢
    have pick : ((m.positions s).find? fun f => f.2 == k.holding 0).getD
        ((m.positions s).getD 0 (0#7, false)) ∈ m.positions s := by
      cases found : (m.positions s).find? fun f => f.2 == k.holding 0 with
      | none => exact getD_mem some
      | some f => exact List.mem_of_find?_eq_some found
    generalize ((m.positions s).find? fun f => f.2 == k.holding 0).getD
      ((m.positions s).getD 0 (0#7, false)) = f at fits pick ⊢
    obtain ⟨tapFits, room⟩ := fits
    have tapped := marked.tap f.2 (plain_of_found other pick) tapFits
    exact tapped.unlatch (marked.tap_room (plain_of_found other pick) tapFits room)
  · rw [if_neg latched] at fits ⊢
    cases found : (m.positions s).find? fun f => f.2 == k.holding 0 with
    | none =>
      rw [found] at fits
      exact marked.tap _ (plain_of_found other (getD_mem some)) fits
    | some f =>
      rw [found] at fits
      exact sound.pressHeld inside plain other unheld (k.holding 0) fits

theorem Sound.eventDown (sound : Sound m ⟨k, read, pressed⟩) (inside : s ∈ pressed)
    (fits : k.PressFits m s) : Sound m ⟨k.resolve m s true, read, pressed⟩ := by
  have aside : ∀ standing, Sound m ⟨{ k with standing := standing }, read, pressed⟩ := fun standing =>
    sound.of_lists ⟨sound.tells.told, sound.tells.room, sound.tells.kept⟩ rfl
  unfold KeyState.resolve
  rw [if_neg (by simp)]
  cases kind : m.isPrefix s with
  | true => exact aside _
  | false =>
    have fits := fits kind
    rw [if_neg (by decide)]
    by_cases behind : k.standing ≠ 0#32
    · rw [if_pos ⟨behind, rfl⟩]
      rw [if_pos behind] at fits
      obtain ⟨free, fits⟩ := fits
      have marked := (aside 0#32).mark free
      unfold KeyState.resolveBehind
      dsimp only
      cases found : m.afterPrefix k.standing s with
      | none => exact marked
      | some f =>
        have fits := fits f.1 f.2 found
        obtain ⟨taps, mark⟩ := markTapped_eq { k with standing := 0#32 } s
        rw [mark] at marked ⊢
        exact marked.behindPrefix fits
    · rw [if_neg (fun both => behind both.1)]
      rw [if_neg behind] at fits
      unfold KeyState.resolveKey
      cases other : m.modifierPosition s with
      | some p =>
        rw [other] at fits
        exact sound.pressShift (fun new => (fits new).1)
          (fun new => Or.inr ⟨s, inside, (fits new).2, kind, Or.inl other⟩)
      | none =>
        rw [other] at fits
        dsimp only
        cases unheld : k.heldBy s with
        | some h => exact sound
        | none =>
          dsimp only
          by_cases none : m.positions s = []
          · rw [if_pos none]
            exact sound.of_lists ⟨sound.tells.told, sound.tells.room, sound.tells.kept⟩ rfl
          · rw [if_neg none, if_pos rfl]
            exact sound.pressFound inside kind other unheld none (fits unheld none)

theorem resolve_up (m : KeyMap) (k : KeyState) (s : Keysym) : ∃ taps unbound,
    (∀ t ∈ taps, t ∈ k.tapped) ∧
      k.resolve m s false =
        (k.lets m s).foldl KeyState.release { k with tapped := taps, unbound := unbound } := by
  unfold KeyState.resolve KeyState.lets
  cases tapped : k.tapped.contains s with
  | true => exact ⟨k.tapped.erase s, k.unbound, fun t inside => List.mem_of_mem_erase inside, rfl⟩
  | false =>
    cases kind : m.isPrefix s with
    | true => exact ⟨k.tapped, k.unbound, fun t inside => inside, rfl⟩
    | false =>
      rw [if_neg (by simp), if_neg (by decide), if_neg (by simp), if_neg (by simp)]
      unfold KeyState.resolveKey
      cases m.modifierPosition s with
      | some p => exact ⟨k.tapped, k.unbound, fun t inside => inside, rfl⟩
      | none =>
        cases k.heldBy s with
        | some h => exact ⟨k.tapped, k.unbound, fun t inside => inside, rfl⟩
        | none =>
          dsimp only
          by_cases none : m.positions s = []
          · rw [if_pos none, if_pos (Or.inl none)]
            exact ⟨k.tapped, k.unbound + 1, fun t inside => inside, rfl⟩
          · rw [if_neg none, if_neg (by decide)]
            unfold KeyState.releaseFound
            by_cases latched : k.latched ≠ []
            · rw [if_pos latched, if_pos (Or.inr latched)]
              exact ⟨k.tapped, k.unbound, fun t inside => inside, rfl⟩
            · rw [if_neg latched, if_neg (by simp [none, latched])]
              cases (m.positions s).find? fun f => f.2 == k.holding 0 with
              | some f => exact ⟨k.tapped, k.unbound, fun t inside => inside, rfl⟩
              | none => exact ⟨k.tapped, k.unbound, fun t inside => inside, rfl⟩

theorem find_record {held : List Held} {h : Held} (records : (held.map Held.sym).Nodup)
    (inside : h ∈ held) (sym : h.sym = s) : held.find? (fun h => h.sym == s) = some h := by
  induction held with
  | nil => exact nomatch inside
  | cons first rest ih =>
    rw [List.map_cons, List.nodup_cons] at records
    cases inside with
    | head => exact List.find?_cons_of_pos (by simp [sym])
    | tail _ inside =>
      have other : first.sym ≠ s := fun same =>
        records.1 (List.mem_map.mpr ⟨h, inside, sym.trans same.symm⟩)
      rw [List.find?_cons_of_neg (by simp [other])]
      exact ih records.2 inside

theorem lets_owned (owed : s ∉ k.tapped) (records : (k.held.map Held.sym).Nodup)
    (owns : Owns m k.held s p) : p ∈ k.lets m s := by
  obtain ⟨plain, why⟩ := owns
  unfold KeyState.lets
  rw [plain, if_neg (by simpa using owed)]
  rcases why with shift | ⟨other, h, inside, sym, pos⟩
  · rw [shift]
    exact List.mem_singleton.mpr rfl
  · rw [other]
    dsimp only
    rw [show k.heldBy s = some h from find_record records inside sym]
    exact List.mem_singleton.mpr pos.symm

theorem Sound.eventUp (sound : Sound m ⟨k, read, pressed⟩) (fits : k.RoomUp (k.lets m s)) :
    Sound m ⟨k.resolve m s false, read, pressed.filter (· != s)⟩ := by
  obtain ⟨taps, unbound, fewer, resolved⟩ := resolve_up m k s
  rw [resolved]
  obtain ⟨once, records, _, owned⟩ := releases_owned m (pressed.filter (· != s))
    (k := { k with tapped := taps, unbound := unbound }) (k.lets m s) sound.once sound.records (by
      intro p down off
      refine (sound.owned p down).imp_right ?_
      rintro ⟨t, inside, owed, owns⟩
      refine ⟨t, List.mem_filter.mpr ⟨inside, ?_⟩, fun tapped => owed (fewer t tapped), owns⟩
      rw [bne_iff_ne]
      intro same
      rw [same] at owed owns
      exact off (lets_owned owed sound.records owns))
  exact ⟨KeyState.releases_tell _ ⟨sound.tells.told, sound.tells.room, sound.tells.kept⟩ sound.once fits,
    once, records, owned⟩

theorem liftAll_eq (downs : List Position) (all : k.down = downs) (once : downs.Nodup) :
    KeyState.liftAll downs.length k = downs.foldl KeyState.release k := by
  induction downs generalizing k with
  | nil => rfl
  | cons p downs ih =>
    obtain ⟨off, once⟩ := List.nodup_cons.mp once
    have left : (k.release p).down = downs := by
      have same : (k.release p).down = k.down.erase p := congrArg Prod.fst KeyState.release_lists
      rw [same, all, List.erase_cons_head]
    rw [List.length_cons, List.foldl_cons, KeyState.liftAll, all]
    dsimp only
    rw [if_neg]
    · exact ih left once
    · rw [KeyState.hasDown_iff, left]
      exact off

theorem Sound.allUp (sound : Sound m ⟨k, read, pressed⟩) (fits : k.RoomUp k.down) :
    Sound m ⟨k.allUp, read, pressed⟩ := by
  unfold KeyState.allUp
  rw [liftAll_eq k.down rfl sound.once]
  obtain ⟨once, records, left, _⟩ := releases_owned m pressed k.down sound.once
    sound.records (fun p down off => absurd down off)
  have tells := KeyState.releases_tell k.down sound.tells sound.once fits
  refine ⟨⟨tells.told, tells.room, tells.kept⟩, once, records, ?_⟩
  intro p down
  exact absurd (left p down).1 (left p down).2

theorem Sound.took (sound : Sound m ⟨k, read, pressed⟩) :
    Sound m ⟨k.took, read ++ k.queue.take 1, pressed⟩ := by
  refine ⟨⟨?_, ?_, sound.tells.kept⟩, sound.once, sound.records, sound.owned⟩
  · intro p
    have same : read ++ k.queue.take 1 ++ k.took.queue = read ++ k.queue := by
      rw [List.append_assoc]
      exact congrArg (read ++ ·) (List.take_append_drop 1 k.queue)
    dsimp only
    rw [same]
    exact sound.tells.told p
  · have room := sound.tells.room
    dsimp only [KeyState.took] at room ⊢
    rw [List.length_drop]
    omega

theorem Sound.step {b : Keyboard} {c : KeyCall} (sound : Sound m b) (fits : b.keys.Fits m c) :
    Sound m (b.step m c) := by
  cases c with
  | event s down =>
    cases down with
    | true => exact sound.more.eventDown List.mem_cons_self fits
    | false => exact sound.eventUp fits
  | took => exact sound.took
  | letGo =>
    have aside : Sound m ⟨{ b.keys with standing := 0#32 }, b.read, b.pressed⟩ :=
      sound.of_lists ⟨sound.tells.told, sound.tells.room, sound.tells.kept⟩ rfl
    exact aside.unlatch fits
  | allUp => exact sound.allUp fits

end Steps

/-- A run of calls, each of which fits. -/
inductive KeysKept (m : KeyMap) : Keyboard → Prop
  | begun : KeysKept m Keyboard.begun
  | step (b : Keyboard) (c : KeyCall) (kept : KeysKept m b) (fits : b.keys.Fits m c) :
      KeysKept m (b.step m c)

theorem KeysKept.sound {m : KeyMap} {b : Keyboard} (kept : KeysKept m b) : Sound m b := by
  induction kept with
  | begun =>
    refine ⟨⟨fun p => ?_, by decide, rfl⟩, List.nodup_nil, List.nodup_nil, fun p down => nomatch down⟩
    simp [Keyboard.begun, keyStateInit, told]
  | step b c kept fits ih => exact ih.step fits

/-- In a run whose calls fit, the words say of each position what the keyboard holds it to be, but for
those whose key-up was held back; none was dropped; and with every keysym released and no latch, none is
down. -/
theorem keys_tell_truth {m : KeyMap} {b : Keyboard} (kept : KeysKept m b) :
    (∀ p, told p (b.read ++ b.keys.queue) = true ↔ p ∈ b.keys.down ∨ p ∈ b.keys.back) ∧
      b.keys.dropped = 0 ∧
      (b.pressed = [] → b.keys.latched = [] →
        ∀ p, told p (b.read ++ b.keys.queue) = true → p ∈ b.keys.back) := by
  have sound := kept.sound
  refine ⟨sound.tells.told, sound.tells.kept, ?_⟩
  intro released unlatched p down
  refine ((sound.tells.told p).mp down).resolve_left ?_
  intro stuck
  rcases sound.owned p stuck with latched | ⟨s, inside, _⟩
  · rw [unlatched] at latched
    exact nomatch latched
  · rw [released] at inside
    exact nomatch inside

/-- The left Shift on its own key, and no more. -/
def shiftMap : KeyMap := ⟨[⟨0xFFE1#32, 0x14#7, false⟩], []⟩

/-- A letter typed: its key down, then up. -/
theorem keys_tell_truth_typed :
    let b := [KeyCall.event 0x61#32 true, .event 0x61#32 false].foldl (Keyboard.step shiftMap)
      Keyboard.begun
    b.pressed = [] ∧ b.keys.queue = [keyUpDown 0x53#7 false, keyUpDown 0x53#7 true] ∧
      b.keys.dropped = 0 ∧ told 0x53#7 (b.read ++ b.keys.queue) = false := by
  dsimp only
  have pressed : KeysKept shiftMap _ := .step _ (.event 0x61#32 true) .begun
    (fun _ _ _ _ => ⟨by decide, by decide, by decide⟩)
  have released := KeysKept.step _ (.event 0x61#32 false) pressed (Or.inr (by decide))
  have truth := keys_tell_truth released
  refine ⟨by decide, by decide, truth.2.1, Bool.eq_false_iff.mpr fun down => ?_⟩
  have held := truth.2.2 (by decide) (by decide) 0x53#7 down
  revert held
  decide

/-- An `A` is pressed, repeats, and is released; and is pressed again under Shift. -/
def repeated : List KeyCall :=
  [.event 0x41#32 true, .event 0x41#32 true, .event 0x41#32 false, .event 0xFFE1#32 true,
    .event 0x41#32 true, .event 0x41#32 false, .event 0xFFE1#32 false]

/-- Its key stays down. -/
theorem key_sticks :
    let b := repeated.foldl (Keyboard.step shiftMap) Keyboard.begun
    b.pressed = [] ∧ b.keys.latched = [] ∧ told 0x53#7 (b.read ++ b.keys.queue) = true ∧
      0x53#7 ∉ b.keys.back := by
  decide

end MuirFpga.Terminal
