import MuirFpga.Terminal.Keys
import Mathlib.Data.List.Nodup

/-!
# The words the keyboard sends

Each thing the keyboard does, by what its words say of each position: a key-down says it is down, a
key-up that it is up, and a key-up held back says nothing.
-/

namespace MuirFpga.Terminal

theorem keyWord_upDown (p : Position) (up : Bool) : keyWord (keyUpDown p up) = some (p, up) := by
  revert p up
  decide

theorem keyWord_boot (cold : Bool) : keyWord (keyBootWord cold) = none := by
  revert cold
  decide

section Told

variable (p q : Position) (words : List (BitVec 32))

theorem told_upDown (up : Bool) :
    told p (words ++ [keyUpDown q up]) = if q = p then !up else told p words := by
  unfold told
  rw [List.foldl_append, List.foldl_cons, List.foldl_nil, keyWord_upDown]

theorem told_boot (cold : Bool) : told p (words ++ [keyBootWord cold]) = told p words := by
  unfold told
  rw [List.foldl_append, List.foldl_cons, List.foldl_nil, keyWord_boot]

end Told

/-- What the words say: of the positions in a set, and of those whose key-up was held back, that they
are down. None of them was dropped. -/
structure Tells (read : List (BitVec 32)) (k : KeyState) (D : Position → Prop) : Prop where
  told : ∀ p, told p (read ++ k.queue) = true ↔ D p ∨ p ∈ k.back
  room : k.queue.length ≤ keyBacklog
  kept : k.dropped = 0

namespace KeyState

/-- What is down, and why: none of it is about the words. -/
def lists (k : KeyState) : List Position × List Held × List Position × List Keysym :=
  (k.down, k.held, k.latched, k.tapped)

section Queue

variable {read : List (BitVec 32)} {k : KeyState} {D : Position → Prop} {p : Position}

theorem push_room (word : BitVec 32) (room : k.queue.length < keyBacklog) :
    k.push word = { k with queue := k.queue ++ [word] } := if_neg (Nat.not_le.mpr room)

theorem queueDown_tells (tells : Tells read k D) (room : k.queue.length < keyBacklog) :
    Tells read (k.queueDown p) fun q => q = p ∨ D q := by
  unfold queueDown
  rw [push_room _ room]
  refine ⟨?_, ?_, tells.kept⟩
  · intro q
    have before := tells.told q
    dsimp only
    rw [← List.append_assoc, told_upDown, List.mem_filter]
    by_cases same : p = q
    · rw [if_pos same, same]
      simp
    · rw [if_neg same, before]
      simp [Ne.symm same]
  · dsimp only
    rw [List.length_append]
    exact room

theorem queueUp_tells (tells : Tells read k D)
    (room : k.holdBack = false → k.queue.length < keyBacklog) (down : D p ∨ p ∈ k.back) :
    Tells read (k.queueUp p) fun q => q ≠ p ∧ D q := by
  unfold queueUp
  cases held : k.holdBack with
  | true =>
    rw [if_pos rfl]
    refine ⟨?_, tells.room, tells.kept⟩
    intro q
    dsimp only
    rw [tells.told q, List.mem_cons]
    by_cases same : q = p
    · rw [same]
      simp [down]
    · simp [same]
  | false =>
    rw [if_neg (by decide), push_room _ (room held)]
    refine ⟨?_, ?_, tells.kept⟩
    · intro q
      have before := tells.told q
      dsimp only
      rw [← List.append_assoc, told_upDown, List.mem_filter]
      by_cases same : p = q
      · rw [if_pos same, same]
        simp
      · rw [if_neg same, before]
        simp [Ne.symm same]
    · dsimp only
      rw [List.length_append]
      exact room held

theorem checkBoot_tells (tells : Tells read k D) : Tells read k.checkBoot D := by
  unfold checkBoot
  split
  · exact tells
  split
  · exact tells
  split
  · exact tells
  split
  · exact ⟨tells.told, tells.room, tells.kept⟩
  · rename_i full
    have room : k.queue.length < keyBacklog := Nat.not_le.mp full
    rw [push_room _ room]
    refine ⟨?_, ?_, tells.kept⟩
    · intro q
      dsimp only
      rw [← List.append_assoc, told_boot]
      exact tells.told q
    · dsimp only
      rw [List.length_append]
      exact room

theorem push_lists (word : BitVec 32) : (k.push word).lists = k.lists := by
  unfold push
  split <;> rfl

theorem queueDown_lists : (k.queueDown p).lists = k.lists := k.push_lists _

theorem queueUp_lists : (k.queueUp p).lists = k.lists := by
  unfold queueUp
  split
  · rfl
  · exact push_lists _

theorem checkBoot_lists : k.checkBoot.lists = k.lists := by
  unfold checkBoot
  split
  · rfl
  split
  · rfl
  split
  · rfl
  split
  · rfl
  · exact push_lists _

end Queue

section Burst

/-- What is down after a key of a burst. -/
def after (D : Position → Prop) (key : Position × Bool) : Position → Prop := fun q =>
  if key.2 = true then q ≠ key.1 ∧ D q else q = key.1 ∨ D q

/-- A burst lets go only what is down. -/
def Fine (D : Position → Prop) : List (Position × Bool) → Prop
  | [] => True
  | key :: rest => (key.2 = true → D key.1) ∧ Fine (after D key) rest

/-- The words of a burst: a key-up before its first key-down may be held back. -/
def burstWords (k : KeyState) (keys : List (Position × Bool)) : Nat :=
  if k.holdBack then (keys.dropWhile (·.2)).length else keys.length

variable {read : List (BitVec 32)} {k : KeyState} {D : Position → Prop}

theorem burstWords_le (keys : List (Position × Bool)) : k.burstWords keys ≤ keys.length := by
  unfold burstWords
  split
  · exact (List.dropWhile_sublist _).length_le
  · exact Nat.le_refl _

theorem burst_tells (keys : List (Position × Bool)) (tells : Tells read k D) (fine : Fine D keys)
    (room : k.queue.length + k.burstWords keys ≤ keyBacklog) :
    Tells read (keys.foldl queueKey k) (keys.foldl after D) ∧
      (keys.foldl queueKey k).queue.length = k.queue.length + k.burstWords keys ∧
      (keys.foldl queueKey k).lists = k.lists := by
  induction keys generalizing k D with
  | nil =>
    refine ⟨tells, ?_, rfl⟩
    unfold burstWords
    simp
  | cons key rest ih =>
    obtain ⟨p, up⟩ := key
    obtain ⟨lets, fine⟩ := fine
    rw [List.foldl_cons, List.foldl_cons]
    cases up with
    | false =>
      have words : k.burstWords ((p, false) :: rest) = rest.length + 1 := by
        unfold burstWords
        split <;> simp
      rw [words] at room ⊢
      have some : k.queue.length < keyBacklog := by omega
      have next : Tells read (k.queueKey (p, false)) (after D (p, false)) :=
        queueDown_tells tells some
      have longer : (k.queueKey (p, false)).queue.length = k.queue.length + 1 := by
        show (k.queueDown p).queue.length = _
        unfold queueDown
        rw [push_room _ some]
        exact List.length_append
      have free : (k.queueKey (p, false)).burstWords rest = rest.length := rfl
      obtain ⟨all, length, lists⟩ := ih next fine (by rw [longer, free]; omega)
      refine ⟨all, ?_, lists.trans queueDown_lists⟩
      rw [length, longer, free]
      omega
    | true =>
      have down : D p := lets rfl
      have kind : (k.queueKey (p, true)).holdBack = k.holdBack := by
        show (k.queueUp p).holdBack = _
        unfold queueUp push
        split
        · rfl
        · split <;> rfl
      cases held : k.holdBack with
      | true =>
        have words : k.burstWords ((p, true) :: rest) = (k.queueKey (p, true)).burstWords rest := by
          unfold burstWords
          rw [kind, held]
          simp
        have same : (k.queueKey (p, true)).queue = k.queue := by
          show (k.queueUp p).queue = _
          unfold queueUp
          rw [held, if_pos rfl]
        have next : Tells read (k.queueKey (p, true)) (after D (p, true)) :=
          queueUp_tells tells (fun free => nomatch held.symm.trans free) (Or.inl down)
        obtain ⟨all, length, lists⟩ := ih next fine (by rw [same, ← words]; exact room)
        refine ⟨all, ?_, lists.trans queueUp_lists⟩
        rw [length, same, words]
      | false =>
        have words : k.burstWords ((p, true) :: rest) = rest.length + 1 := by
          unfold burstWords
          rw [held]
          simp
        have later : (k.queueKey (p, true)).burstWords rest = rest.length := by
          unfold burstWords
          rw [kind, held]
          simp
        rw [words] at room ⊢
        have some : k.queue.length < keyBacklog := by omega
        have longer : (k.queueKey (p, true)).queue.length = k.queue.length + 1 := by
          show (k.queueUp p).queue.length = _
          unfold queueUp
          rw [held, if_neg (by decide), push_room _ some]
          exact List.length_append
        have next : Tells read (k.queueKey (p, true)) (after D (p, true)) :=
          queueUp_tells tells (fun _ => some) (Or.inl down)
        obtain ⟨all, length, lists⟩ := ih next fine (by rw [longer, later]; omega)
        refine ⟨all, ?_, lists.trans queueUp_lists⟩
        rw [length, longer, later]
        omega

theorem fine_append (front rest : List (Position × Bool)) :
    Fine D (front ++ rest) ↔ Fine D front ∧ Fine (front.foldl after D) rest := by
  induction front generalizing D with
  | nil => exact (and_iff_right trivial).symm
  | cons key front ih =>
    rw [List.cons_append, Fine, ih, Fine, List.foldl_cons, and_assoc]

theorem ups_after (us : List Position) :
    (us.map (·, true)).foldl after D = fun q => q ∉ us ∧ D q := by
  induction us generalizing D with
  | nil => simp
  | cons p us ih =>
    rw [List.map_cons, List.foldl_cons, ih]
    funext q
    simp only [after, if_true, List.mem_cons, not_or, and_left_comm, and_assoc]

theorem ups_fine {us : List Position} (once : us.Nodup) (down : ∀ q ∈ us, D q) :
    Fine D (us.map (·, true)) := by
  induction us generalizing D with
  | nil => trivial
  | cons p us ih =>
    obtain ⟨other, once⟩ := List.nodup_cons.mp once
    refine ⟨fun _ => down p List.mem_cons_self, ih once ?_⟩
    intro q inside
    show q ≠ p ∧ D q
    refine ⟨fun same => other (same ▸ inside), down q (List.mem_cons_of_mem p inside)⟩

theorem downs_after (ds : List Position) :
    (ds.map (·, false)).foldl after D = fun q => q ∈ ds ∨ D q := by
  induction ds generalizing D with
  | nil => simp
  | cons p ds ih =>
    rw [List.map_cons, List.foldl_cons, ih]
    funext q
    simp only [after, Bool.false_eq_true, if_false, List.mem_cons, or_left_comm, or_assoc]

theorem downs_fine (ds : List Position) : Fine D (ds.map (·, false)) := by
  induction ds generalizing D with
  | nil => trivial
  | cons p ds ih => exact ⟨fun up => (nomatch up), ih⟩

theorem mem_shifting {s : Nat} {p : Position} (inside : p ∈ shifting s) : isShift p = true := by
  have kind := (List.mem_filter.mp inside).2
  unfold isShift
  rw [of_decide_eq_true kind]

theorem shifting_nodup (s : Nat) : (shifting s).Nodup := by
  refine List.Nodup.filter _ (List.Nodup.map_on ?_ List.nodup_range)
  intro m small n less same
  have values := congrArg BitVec.toNat same
  rw [BitVec.toNat_ofNat, BitVec.toNat_ofNat] at values
  rwa [Nat.mod_eq_of_lt (List.mem_range.mp small), Nat.mod_eq_of_lt (List.mem_range.mp less)] at values

theorem hasDown_iff {p : Position} : k.hasDown p = true ↔ p ∈ k.down := List.contains_iff_mem

theorem burst_leaves {p : Position} (wants : Bool) (plain : isShift p = false) (up : p ∉ k.down) :
    Fine (· ∈ k.down) (k.burst p wants) ∧
      (k.burst p wants).foldl after (· ∈ k.down) = (· ∈ k.down) := by
  have tapped : ∀ D : Position → Prop, ¬ D p →
      Fine D [(p, false), (p, true)] ∧ [(p, false), (p, true)].foldl after D = D := by
    intro D off
    refine ⟨⟨fun up => (nomatch up), fun _ => Or.inl rfl, trivial⟩, ?_⟩
    funext q
    by_cases same : q = p
    · rw [same]
      simp [after, off]
    · simp [after, same]
  unfold burst
  dsimp only
  split
  · rename_i shifts
    rw [Bool.and_eq_true, Bool.not_eq_true'] at shifts
    have shift : (shifting 0).getD 0 0#7 ∈ shifting 0 := by decide
    generalize (shifting 0).getD 0 0#7 = first at shift
    have off : first ∉ k.down := fun down =>
      absurd (List.any_eq_true.mpr ⟨first, shift, hasDown_iff.mpr down⟩)
        (Bool.not_eq_true _ ▸ shifts.2)
    have other : p ≠ first := fun same => by
      rw [same, mem_shifting shift] at plain
      exact nomatch plain
    refine ⟨⟨fun up => (nomatch up), fun up => (nomatch up), fun _ => Or.inl rfl, fun _ => ?_, trivial⟩,
      ?_⟩
    · exact ⟨Ne.symm other, Or.inr (Or.inl rfl)⟩
    · funext q
      by_cases here : q = p
      · rw [here]
        simp [after, up, other]
      · by_cases there : q = first
        · rw [there]
          simp [after, off]
        · simp [after, here, there]
  split
  · have once := (shifting_nodup 0).filter k.hasDown
    have down : ∀ q ∈ (shifting 0).filter k.hasDown, q ∈ k.down := fun q inside =>
      hasDown_iff.mp (List.mem_filter.mp inside).2
    generalize (shifting 0).filter k.hasDown = us at once down
    have middle := tapped (fun q => q ∉ us ∧ q ∈ k.down) (fun both => up both.2)
    constructor
    · rw [fine_append, fine_append, ups_after]
      exact ⟨⟨ups_fine once down, middle.1⟩, downs_fine us⟩
    · rw [List.foldl_append, List.foldl_append, ups_after, middle.2, downs_after]
      funext q
      by_cases inside : q ∈ us
      · simp [inside, down q inside]
      · simp [inside]
  · exact tapped _ up

end Burst

section Keys

variable {read : List (BitVec 32)} {k : KeyState} {p : Position}

/-- A press that goes down the cable. -/
def Fresh (k : KeyState) (p : Position) : Prop := p ∉ k.down ∧ k.queue.length < keyBacklog

theorem press_tells (tells : Tells read k (· ∈ k.down))
    (few : k.Fresh p → k.down.length < keyMaxDown) :
    Tells read (k.press p).1 (· ∈ (k.press p).1.down) ∧
      (k.Fresh p → (k.press p).1.lists = (k.down ++ [p], k.held, k.latched, k.tapped)) ∧
      (¬ k.Fresh p → (k.press p).1.lists = k.lists) := by
  unfold press
  by_cases down : p ∈ k.down
  · rw [if_pos (hasDown_iff.mpr down)]
    exact ⟨tells, fun fresh => absurd down fresh.1, fun _ => rfl⟩
  · rw [if_neg (fun has => down (hasDown_iff.mp has))]
    by_cases full : k.queue.length ≥ keyBacklog
    · rw [if_pos full]
      exact ⟨⟨tells.told, tells.room, tells.kept⟩, fun fresh => absurd fresh.2 (Nat.not_lt.mpr full),
        fun _ => rfl⟩
    · rw [if_neg full]
      have fresh : k.Fresh p := ⟨down, Nat.not_le.mp full⟩
      have added : k.addDown p = { k with down := k.down ++ [p] } := if_pos (few fresh)
      have lists : (((k.addDown p).queueDown p).checkBoot).lists =
          (k.down ++ [p], k.held, k.latched, k.tapped) := by
        rw [checkBoot_lists, queueDown_lists, added]
        rfl
      refine ⟨?_, fun _ => lists, fun other => absurd fresh other⟩
      have same : (((k.addDown p).queueDown p).checkBoot).down = k.down ++ [p] :=
        congrArg Prod.fst lists
      dsimp only
      rw [same, show (· ∈ k.down ++ [p]) = fun q => q = p ∨ q ∈ k.down by
        funext q
        simp [or_comm]]
      refine checkBoot_tells (queueDown_tells ?_ ?_)
      · rw [added]
        exact ⟨tells.told, tells.room, tells.kept⟩
      · rw [added]
        exact fresh.2

theorem press_went : (k.press p).2 = true ↔ p ∈ k.down ∨ k.Fresh p := by
  unfold press
  by_cases down : p ∈ k.down
  · rw [if_pos (hasDown_iff.mpr down)]
    simp [down]
  · rw [if_neg (fun has => down (hasDown_iff.mp has))]
    by_cases full : k.queue.length ≥ keyBacklog
    · rw [if_pos full]
      simp [down, Fresh, full]
    · rw [if_neg full]
      simp [down, Fresh, Nat.not_le.mp full]

/-- Room for the key-ups of positions. -/
def RoomUp (k : KeyState) (ps : List Position) : Prop :=
  k.holdBack = true ∨ k.queue.length + (k.down.filter ps.contains).length ≤ keyBacklog

theorem release_off (off : p ∉ k.down) : k.release p = k := by
  unfold release
  rw [if_pos]
  rw [Bool.not_eq_true', ← Bool.not_eq_true, hasDown_iff]
  exact off

theorem release_on (down : p ∈ k.down) : k.release p =
    ({ k with down := k.down.erase p, held := k.held.filter fun h => h.pos != p }).queueUp p := by
  unfold release dropDown
  rw [hasDown_iff.mpr down, if_neg (by decide), if_pos rfl]

theorem queueUp_holdBack : (k.queueUp p).holdBack = k.holdBack := by
  unfold queueUp push
  split
  · rfl
  · split <;> rfl

theorem queueUp_length (room : k.holdBack = false → k.queue.length < keyBacklog) :
    (k.queueUp p).queue.length = k.queue.length + if k.holdBack = false then 1 else 0 := by
  unfold queueUp
  cases held : k.holdBack with
  | true => rfl
  | false =>
    rw [if_neg (by decide), if_pos rfl, push_room _ (room held)]
    exact List.length_append

theorem release_holdBack : (k.release p).holdBack = k.holdBack := by
  by_cases down : p ∈ k.down
  · rw [release_on down, queueUp_holdBack]
  · rw [release_off down]

theorem release_lists : (k.release p).lists = (k.down.erase p,
    if p ∈ k.down then k.held.filter fun h => h.pos != p else k.held, k.latched, k.tapped) := by
  by_cases down : p ∈ k.down
  · rw [release_on down, if_pos down]
    exact queueUp_lists
  · rw [release_off down, if_neg down, List.erase_of_not_mem down]
    rfl

theorem release_tells (tells : Tells read k (· ∈ k.down)) (once : k.down.Nodup)
    (room : p ∈ k.down → k.holdBack = false → k.queue.length < keyBacklog) :
    Tells read (k.release p) (· ∈ (k.release p).down) := by
  have same : (k.release p).down = k.down.erase p := congrArg Prod.fst release_lists
  rw [same]
  by_cases down : p ∈ k.down
  · rw [release_on down]
    have set : (· ∈ k.down.erase p) = fun q => q ≠ p ∧ q ∈ k.down := by
      funext q
      rw [once.mem_erase_iff]
    rw [set]
    exact queueUp_tells ⟨tells.told, tells.room, tells.kept⟩ (room down) (Or.inl down)
  · rw [release_off down, List.erase_of_not_mem down]
    exact tells

theorem release_queue (room : p ∈ k.down → k.holdBack = false → k.queue.length < keyBacklog) :
    (k.release p).queue.length =
      k.queue.length + if p ∈ k.down ∧ k.holdBack = false then 1 else 0 := by
  by_cases down : p ∈ k.down
  · rw [release_on down]
    refine (queueUp_length (k := { k with
      down := k.down.erase p, held := k.held.filter fun h => h.pos != p }) (room down)).trans ?_
    simp [down]
  · rw [release_off down, if_neg (fun both => down both.1)]
    rfl

theorem releases_tell (ps : List Position) (tells : Tells read k (· ∈ k.down)) (once : k.down.Nodup)
    (room : k.RoomUp ps) : Tells read (ps.foldl release k) (· ∈ (ps.foldl release k).down) := by
  induction ps generalizing k with
  | nil => exact tells
  | cons p ps ih =>
    have one : p ∈ k.down → k.holdBack = false → k.queue.length < keyBacklog := by
      intro down free
      have count : 0 < (k.down.filter (p :: ps).contains).length :=
        List.length_pos_of_mem (List.mem_filter.mpr ⟨down, by simp⟩)
      rcases room with held | room
      · exact nomatch held.symm.trans free
      · omega
    have next := release_tells tells once one
    have downs : (k.release p).down = k.down.erase p := congrArg Prod.fst release_lists
    rw [List.foldl_cons]
    refine ih next (by rw [downs]; exact once.erase p) ?_
    unfold RoomUp at room ⊢
    rw [release_holdBack, release_queue one, downs]
    refine room.imp_right fun room => ?_
    by_cases down : p ∈ k.down
    · have split := ((List.perm_cons_erase down).filter (p :: ps).contains).length_eq
      rw [List.filter_cons_of_pos (by simp), List.length_cons] at split
      have fewer : (k.down.erase p).filter (p :: ps).contains =
          (k.down.erase p).filter ps.contains := by
        refine List.filter_congr fun q inside => ?_
        have other := (once.mem_erase_iff.mp inside).1
        simp [other]
      rw [fewer] at split
      split <;> omega
    · have fewer : k.down.filter (p :: ps).contains = k.down.filter ps.contains := by
        refine List.filter_congr fun q inside => ?_
        have other : q ≠ p := fun same => down (same ▸ inside)
        simp [other]
      rw [List.erase_of_not_mem down, if_neg (fun both => down both.1), ← fewer]
      exact room

end Keys

end KeyState

end MuirFpga.Terminal
