import MuirFpga.Terminal.Stream

/-!
# Any cut of a viewer's stream

What a pass takes off the inbox is the stream's next parts, whole, and what it leaves there is less
than the next one. So the parts taken are the stream's, however it is read, as long as each of them
fits the inbox.
-/

namespace MuirFpga.Terminal

/-- What is left when a viewer waits: what is to be skipped, and the parts that remain; and the inbox
holds less than the next part. -/
structure Waiting (v : Viewer) (unread : List Byte) (left : List Part) : Prop where
  remains : Remains v.stage left
  stream : ∃ skipped : List Byte, skipped.length = v.skip ∧
    v.inbox ++ unread = skipped ++ bytes left
  less : v.inbox = [] ∨ ∃ p parts, left = p :: parts ∧ v.skip = 0 ∧ v.inbox.length < p.head.length

/-- What a call has taken: whole parts that the inbox held, of which only the last is refused. -/
structure Takes (v v' : Viewer) (unread : List Byte) (gone : Option String) (parts done left : List Part) :
    Prop where
  split : parts = done ++ left
  taken : v'.taken = v.taken ++ done.map Part.meaning
  held : ∀ p ∈ done, p.head.length ≤ v.inbox.length
  inbox : v'.inbox.length ≤ v.inbox.length
  kept : gone = none → (∀ p ∈ done, p.refused = none) ∧ Waiting v' unread left
  dropped : ∀ why, gone = some why → ∃ before p, done = before ++ [p] ∧
    (∀ q ∈ before, q.refused = none) ∧ p.refused = some why

section Step

variable {v v' : Viewer} {unread : List Byte} {parts : List Part}

theorem step_wait (waits : v.turn = .wait v') : viewerStep v = (v', none) := by
  rw [viewerStep]
  split
  · rename_i same
    rw [waits] at same
    injection same with same
    rw [same]
  · rename_i same
    cases waits.symm.trans same
  · rename_i same
    cases waits.symm.trans same

theorem step_drop {why : String} (drops : v.turn = .drop v' why) : viewerStep v = (v', some why) := by
  rw [viewerStep]
  split
  · rename_i same
    cases drops.symm.trans same
  · rename_i same
    rw [drops] at same
    injection same with same reason
    rw [same, reason]
  · rename_i same
    cases drops.symm.trans same

theorem step_go (goes : v.turn = .go v') : viewerStep v = viewerStep v' := by
  rw [viewerStep]
  split
  · rename_i same
    cases goes.symm.trans same
  · rename_i same
    cases goes.symm.trans same
  · rename_i same
    rw [goes] at same
    injection same with same
    rw [same]

theorem step_takes (v : Viewer) (unread : List Byte) (parts : List Part)
    (remains : Remains v.stage parts)
    (stream : ∃ skipped : List Byte, skipped.length = v.skip ∧
      v.inbox ++ unread = skipped ++ bytes parts) :
    ∃ done left, Takes v (viewerStep v).1 unread (viewerStep v).2 parts done left := by
  induction size : v.inbox.length using Nat.strongRecOn generalizing v parts with
  | _ size' ih =>
    obtain ⟨skipped, length, stream⟩ := stream
    by_cases more : v.inbox.length < v.skip
    · -- All of the inbox is skipped, and there is more to skip.
      have waits : v.turn = .wait { v with inbox := [], skip := v.skip - v.inbox.length } := by
        unfold Viewer.turn
        dsimp only
        rw [Nat.min_eq_right (by omega), List.drop_length, if_pos (by omega)]
      rw [step_wait waits]
      refine ⟨[], parts, rfl, by simp, by simp, by simp, fun _ => ⟨by simp, remains, ?_, Or.inl rfl⟩,
        fun why gone => nomatch gone⟩
      have front : v.inbox = skipped.take v.inbox.length := by
        have same := congrArg (List.take v.inbox.length) stream
        rw [List.take_left, List.take_append_of_le_length (by omega)] at same
        exact same
      refine ⟨skipped.drop v.inbox.length, by rw [List.length_drop, length], ?_⟩
      have same := congrArg (List.drop v.inbox.length) stream
      rw [List.drop_left, List.drop_append_of_le_length (by omega)] at same
      exact same
    · -- What was to be skipped is, and the rest is handled.
      have cut : v.inbox.drop v.skip ++ unread = bytes parts := by
        have same := congrArg (List.drop v.skip) stream
        rw [List.drop_append_of_le_length (by omega), ← length, List.drop_left] at same
        rw [← length]
        exact same
      let v₁ : Viewer := { v with inbox := v.inbox.drop v.skip, skip := 0 }
      have turned : v.turn = v₁.handle := by
        unfold Viewer.turn
        dsimp only
        rw [Nat.min_eq_left (by omega), Nat.sub_self, if_neg (by simp)]
      have fewer : v₁.inbox.length ≤ v.inbox.length := by
        rw [List.length_drop]
        omega
      match parts, remains, cut with
      | [], remains, cut =>
        have waits : v.turn = .wait v₁ := by
          rw [turned]
          exact handle_none remains (List.append_eq_nil_iff.mp cut).1
        rw [step_wait waits]
        exact ⟨[], [], rfl, by simp [v₁], by simp, fewer,
          fun _ => ⟨by simp, remains, ⟨[], rfl, cut⟩, Or.inl (List.append_eq_nil_iff.mp cut).1⟩,
          fun why gone => nomatch gone⟩
      | p :: left, remains, cut =>
        have parted : v₁.inbox ++ unread = p.head ++ (p.text ++ bytes left) := by
          rw [← List.append_assoc]
          exact cut
        by_cases short : v₁.inbox.length < p.head.length
        · -- The next part is cut, and is waited for.
          have waits : v.turn = .wait v₁ := by
            rw [turned]
            exact handle_cut remains parted short
          rw [step_wait waits]
          exact ⟨[], p :: left, rfl, by simp [v₁], by simp, fewer,
            fun _ => ⟨by simp, remains, ⟨[], rfl, cut⟩, Or.inr ⟨p, left, rfl, rfl, short⟩⟩,
            fun why gone => nomatch gone⟩
        · obtain ⟨more, whole, rest⟩ : ∃ more, v₁.inbox = p.head ++ more ∧
              more ++ unread = p.text ++ bytes left := by
            refine ⟨v₁.inbox.drop p.head.length, ?_, ?_⟩
            · have same := congrArg (List.take p.head.length) parted
              rw [List.take_append_of_le_length (by omega), List.take_left] at same
              calc v₁.inbox = v₁.inbox.take p.head.length ++ v₁.inbox.drop p.head.length :=
                    (List.take_append_drop _ _).symm
                _ = p.head ++ v₁.inbox.drop p.head.length := by rw [same]
            · have same := congrArg (List.drop p.head.length) parted
              rw [List.drop_append_of_le_length (by omega), List.drop_left] at same
              exact same
          obtain ⟨goes, drops⟩ := handle_whole (v := v₁) remains whole rfl
          cases refused : p.refused with
          | some why =>
            obtain ⟨v', dropped, inbox, taken⟩ := drops why refused
            rw [step_drop (turned.trans dropped)]
            refine ⟨[p], left, rfl, taken, ?_, ?_, fun kept => (nomatch kept), ?_⟩
            · intro q inside
              rw [List.mem_singleton.mp inside]
              omega
            · rw [inbox]
              have := congrArg List.length whole
              rw [List.length_append] at this
              omega
            · intro why' same
              injection same with same
              rw [← same]
              exact ⟨[], p, rfl, by simp, refused⟩
          | none =>
            obtain ⟨v', went, inbox, skip, taken, next⟩ := goes refused
            have shorter := turn_shorter (turned.trans went)
            obtain ⟨done, left', takes⟩ := ih v'.inbox.length (by omega) v' left next
              ⟨p.text, skip.symm, by rw [inbox]; exact rest⟩ rfl
            rw [step_go (turned.trans went)]
            refine ⟨p :: done, left', congrArg _ takes.split, ?_, ?_, by
              have := takes.inbox
              omega, ?_, ?_⟩
            · rw [takes.taken, taken, List.map_cons, List.append_assoc]
              rfl
            · intro q inside
              cases inside with
              | head => omega
              | tail _ inside =>
                have := takes.held q inside
                omega
            · intro kept
              obtain ⟨fine, waiting⟩ := takes.kept kept
              refine ⟨?_, waiting⟩
              intro q inside
              cases inside with
              | head => exact refused
              | tail _ inside => exact fine q inside
            · intro why gone
              obtain ⟨before, q, split, fine, reason⟩ := takes.dropped why gone
              refine ⟨p :: before, q, congrArg _ split, ?_, reason⟩
              intro r inside
              cases inside with
              | head => exact refused
              | tail _ inside => exact fine r inside

end Step

section Parts

variable {stage : Stage} {parts : List Part}

theorem size_of_named (remains : Remains stage parts) :
    ∀ p ∈ parts, 0 < p.head.length ∧ (p.head.length ≤ inboxSize ↔ p.named ≤ 1023) := by
  induction remains with
  | version b twelve parts next ih =>
    refine List.forall_mem_cons.mpr ⟨?_, ih⟩
    simp [versionPart, twelve, inboxSize]
  | security chose parts next ih =>
    refine List.forall_mem_cons.mpr ⟨?_, ih⟩
    simp [securityPart, inboxSize]
  | init shared parts next ih =>
    refine List.forall_mem_cons.mpr ⟨?_, ih⟩
    simp [initPart, inboxSize]
  | running messages =>
    refine List.forall_mem_map.mpr ?_
    intro m _
    have size := head_length m
    unfold messagePart inboxSize
    cases m <;> simp only [ClientMessage.named] at size ⊢ <;> omega

theorem nil_of_bytes (remains : Remains stage parts) (empty : bytes parts = []) : parts = [] := by
  cases parts with
  | nil => rfl
  | cons p parts =>
    have some := (size_of_named remains p (by simp)).1
    have none : p.head = [] := (List.append_eq_nil_iff.mp (List.append_eq_nil_iff.mp empty).1).1
    rw [none] at some
    exact absurd some (by simp)

theorem upTo_append {front : List Part} (fine : ∀ p ∈ front, p.refused = none) (rest : List Part) :
    upTo (front ++ rest) = front ++ upTo rest := by
  induction front with
  | nil => rfl
  | cons p front ih =>
    have first : p.refused = none := fine p (by simp)
    rw [List.cons_append, upTo, first, ih fun q inside => fine q (List.mem_cons_of_mem p inside)]
    rfl

theorem refusal_append {front : List Part} (fine : ∀ p ∈ front, p.refused = none)
    (rest : List Part) : refusal (front ++ rest) = refusal rest := by
  unfold refusal
  rw [List.find?_append, List.find?_eq_none.mpr]
  · rfl
  · intro p inside
    simp [fine p inside]

end Parts

/-- A connection in the middle of a stream: a viewer taken at its word so far; refused for the part taken
last; or dropped with a part ahead that the inbox cannot hold. -/
inductive Reading (parts : List Part) : Connection → Prop
  | going (v : Viewer) (unread : List Byte) (done left : List Part) (split : parts = done ++ left)
      (taken : v.taken = done.map Part.meaning) (fine : ∀ p ∈ done, p.refused = none)
      (fit : ∀ p ∈ done, p.head.length ≤ inboxSize) (waiting : Waiting v unread left)
      (room : v.inbox.length ≤ inboxSize) : Reading parts ⟨v, unread, none⟩
  | refused (v : Viewer) (unread : List Byte) (why : String) (before : List Part) (p : Part)
      (left : List Part) (split : parts = before ++ p :: left)
      (taken : v.taken = (before ++ [p]).map Part.meaning) (fine : ∀ q ∈ before, q.refused = none)
      (reason : p.refused = some why) (fit : ∀ q ∈ before ++ [p], q.head.length ≤ inboxSize)
      (room : v.inbox.length ≤ inboxSize) : Reading parts ⟨v, unread, some why⟩
  | overrun (v : Viewer) (unread : List Byte) (why : String) (before : List Part) (p : Part)
      (left : List Part) (split : parts = before ++ p :: left)
      (taken : v.taken = before.map Part.meaning) (fine : ∀ q ∈ before, q.refused = none)
      (long : inboxSize < p.head.length) (room : v.inbox.length ≤ inboxSize) :
      Reading parts ⟨v, unread, some why⟩

section Poll

variable {parts : List Part} {c : Connection}

theorem reading_step {v : Viewer} {unread : List Byte} {done left : List Part}
    (split : parts = done ++ left) (taken : v.taken = done.map Part.meaning)
    (fine : ∀ p ∈ done, p.refused = none) (fit : ∀ p ∈ done, p.head.length ≤ inboxSize)
    (remains : Remains v.stage left)
    (stream : ∃ skipped : List Byte, skipped.length = v.skip ∧
      v.inbox ++ unread = skipped ++ bytes left) (room : v.inbox.length ≤ inboxSize) :
    Reading parts ⟨(viewerStep v).1, unread, (viewerStep v).2⟩ := by
  obtain ⟨more, left', takes⟩ := step_takes v unread left remains stream
  have size : (viewerStep v).1.inbox.length ≤ inboxSize := Nat.le_trans takes.inbox room
  have held : ∀ p ∈ done ++ more, p.head.length ≤ inboxSize := by
    intro p inside
    rcases List.mem_append.mp inside with inside | inside
    · exact fit p inside
    · exact Nat.le_trans (takes.held p inside) room
  have all : (viewerStep v).1.taken = (done ++ more).map Part.meaning := by
    rw [takes.taken, taken, List.map_append]
  cases gone : (viewerStep v).2 with
  | none =>
    obtain ⟨kept, waiting⟩ := takes.kept gone
    refine .going _ unread (done ++ more) left' ?_ all ?_ held waiting size
    · rw [split, takes.split, List.append_assoc]
    · intro p inside
      rcases List.mem_append.mp inside with inside | inside
      · exact fine p inside
      · exact kept p inside
  | some why =>
    obtain ⟨before, p, last, kept, reason⟩ := takes.dropped why gone
    have grouped : done ++ more = (done ++ before) ++ [p] := by rw [last, List.append_assoc]
    rw [grouped] at held all
    refine .refused _ unread why (done ++ before) p left' ?_ all ?_ reason held size
    · rw [split, takes.split, last]
      simp
    · intro q inside
      rcases List.mem_append.mp inside with inside | inside
      · exact fine q inside
      · exact kept q inside

theorem Reading.poll (reading : Reading parts c) (come : Nat) : Reading parts (c.poll come) := by
  cases reading with
  | going v unread done left split taken fine fit waiting room =>
    unfold Connection.poll
    dsimp only
    by_cases still : unread = [] ∨ come = 0
    · rw [if_pos still]
      exact reading_step split taken fine fit waiting.remains waiting.stream room
    · rw [if_neg still]
      by_cases full : min come (inboxSize - v.inbox.length) = 0
      · rw [if_pos full]
        -- The inbox is full, and waits for a part longer than it.
        have whole : v.inbox.length = inboxSize := by omega
        rcases waiting.less with empty | ⟨p, later, next, skip, short⟩
        · rw [empty] at whole
          exact absurd whole (by decide)
        · exact .overrun v unread _ done p later (by rw [split, next]) taken fine (by omega) room
      · rw [if_neg full]
        obtain ⟨skipped, length, stream⟩ := waiting.stream
        refine reading_step split taken fine fit waiting.remains ⟨skipped, length, ?_⟩ ?_
        · rw [List.append_assoc, List.take_append_drop]
          exact stream
        · rw [List.length_append, List.length_take]
          omega
  | refused v unread why before p left split taken fine reason fit room =>
    exact .refused v unread why before p left split taken fine reason fit room
  | overrun v unread why before p left split taken fine long room =>
    exact .overrun v unread why before p left split taken fine long room

theorem Reading.polls (reading : Reading parts c) (comes : List Nat) :
    Reading parts (comes.foldl Connection.poll c) := by
  induction comes generalizing c with
  | nil => exact reading
  | cons come comes ih => exact ih (reading.poll come)

theorem served_reading (s : Stream) (comes : List Nat) :
    Reading s.parts (served (bytes s.parts) comes) := by
  refine Reading.polls ?_ comes
  exact .going accepted (bytes s.parts) [] s.parts rfl rfl (by simp) (by simp)
    ⟨s.remains, ⟨[], rfl, rfl⟩, Or.inl rfl⟩ (Nat.zero_le _)

theorem poll_shorter (c : Connection) {come : Nat} (some : 0 < come) :
    (c.poll come).gone ≠ none ∨ (c.poll come).unread = [] ∨
      (c.poll come).unread.length < c.unread.length := by
  unfold Connection.poll
  split
  · rename_i why gone
    exact Or.inl (by rw [gone]; exact Option.some_ne_none why)
  · by_cases still : c.unread = [] ∨ come = 0
    · rw [if_pos still]
      exact Or.inr (Or.inl (still.resolve_right (by omega)))
    · rw [if_neg still]
      dsimp only
      split_ifs with full
      · exact Or.inl (Option.some_ne_none _)
      · have left : c.unread.length ≠ 0 := fun empty =>
          still (Or.inl (List.eq_nil_of_length_eq_zero empty))
        refine Or.inr (Or.inr ?_)
        simp only [List.length_drop]
        omega

theorem poll_gone {come : Nat} (gone : c.gone ≠ none) : c.poll come = c := by
  unfold Connection.poll
  split
  · rfl
  · rename_i stays
    exact absurd stays gone

theorem polls_end (c : Connection) (passes : Nat) (enough : c.unread.length < passes) :
    ((List.replicate passes inboxSize).foldl Connection.poll c).gone ≠ none ∨
      ((List.replicate passes inboxSize).foldl Connection.poll c).unread = [] := by
  have gone : ∀ (passes : Nat) (c : Connection), c.gone ≠ none →
      (List.replicate passes inboxSize).foldl Connection.poll c = c := by
    intro passes
    induction passes with
    | zero => exact fun c _ => rfl
    | succ passes ih =>
      intro c gone
      rw [List.replicate_succ, List.foldl_cons, poll_gone gone]
      exact ih c gone
  induction passes generalizing c with
  | zero => exact absurd enough (by omega)
  | succ passes ih =>
    rw [List.replicate_succ, List.foldl_cons]
    rcases poll_shorter c (show 0 < inboxSize by decide) with dropped | read | shorter
    · rw [gone passes _ dropped]
      exact Or.inl dropped
    · by_cases none : passes = 0
      · rw [none]
        exact Or.inr read
      · exact ih _ (by rw [read]; simp; omega)
    · exact ih _ (by omega)

end Poll

/-- What is asked of a connection in the middle of a stream: what it has taken is what the stream means
so far; it is dropped only for the part it is refused for; once all is read all is taken, and before that
a pass reads on. -/
structure Faithful (parts : List Part) (c : Connection) : Prop where
  room : c.viewer.inbox.length ≤ inboxSize
  taken : c.viewer.taken <+: (upTo parts).map Part.meaning
  dropped : ∀ why, c.gone = some why →
    refusal parts = some why ∧ c.viewer.taken = (upTo parts).map Part.meaning
  ended : c.gone = none → c.unread = [] → c.viewer.taken = (upTo parts).map Part.meaning
  goesOn : ∀ come, 0 < come → c.gone = none → c.unread ≠ [] →
    (c.poll come).unread.length < c.unread.length

section Faithful

variable {parts : List Part} {c : Connection} {stage : Stage}

theorem done_of_read {v : Viewer} {left : List Part} (waiting : Waiting v [] left) : left = [] := by
  obtain ⟨skipped, length, stream⟩ := waiting.stream
  rw [List.append_nil] at stream
  rcases waiting.less with empty | ⟨p, later, next, skip, short⟩
  · rw [empty] at stream
    exact nil_of_bytes waiting.remains (List.append_eq_nil_iff.mp stream.symm).2
  · have none : skipped = [] := List.eq_nil_of_length_eq_zero (by omega)
    have size := congrArg List.length stream
    rw [none, next] at size
    simp only [bytes, List.flatMap_cons, List.nil_append, List.length_append] at size
    omega

theorem mem_upTo {p : Part} (inside : p ∈ upTo parts) : p ∈ parts := by
  induction parts with
  | nil => exact inside
  | cons q parts ih =>
    unfold upTo at inside
    split at inside
    · rw [List.mem_singleton.mp inside]
      exact List.mem_cons_self
    · rcases List.mem_cons.mp inside with same | inside
      · rw [same]
        exact List.mem_cons_self
      · exact List.mem_cons_of_mem q (ih inside)

theorem faithful_of_fit (reading : Reading parts c)
    (fit : ∀ p ∈ upTo parts, p.head.length ≤ inboxSize) : Faithful parts c := by
  cases reading with
  | going v unread done left split taken fine held waiting room =>
    have upTo_eq : upTo parts = done ++ upTo left := by
      rw [split]
      exact upTo_append fine left
    refine ⟨room, ⟨(upTo left).map Part.meaning, ?_⟩, fun why gone => (nomatch gone), ?_, ?_⟩
    · rw [upTo_eq, List.map_append, ← taken]
    · intro _ read
      have read : unread = [] := read
      subst read
      rw [upTo_eq, done_of_read waiting]
      simpa [upTo] using taken
    · intro come some _ more
      have more : unread ≠ [] := more
      have left_one : 0 < unread.length := List.length_pos_iff.mpr more
      have free : v.inbox.length < inboxSize := by
        rcases waiting.less with empty | ⟨p, later, next, skip, short⟩
        · rw [empty]
          decide
        · have first : p ∈ upTo parts := by
            rw [upTo_eq, next, upTo]
            split <;> simp
          have := fit p first
          omega
      unfold Connection.poll
      dsimp only
      rw [if_neg (by
        intro still
        exact still.elim more (by omega)), if_neg (by omega)]
      simp only [List.length_drop]
      omega
  | refused v unread why before p left split taken fine reason held room =>
    have upTo_eq : upTo parts = before ++ [p] := by
      rw [split, upTo_append fine, upTo, reason]
      rfl
    refine ⟨room, ?_, ?_, fun gone => (nomatch gone), fun _ _ gone => (nomatch gone)⟩
    · exact upTo_eq ▸ taken ▸ List.prefix_rfl
    · intro why' same
      refine ⟨?_, by rw [upTo_eq]; exact taken⟩
      rw [split, refusal_append fine, ← same]
      simp [refusal, reason]
  | overrun v unread why before p left split taken fine long room =>
    have first : p ∈ upTo parts := by
      rw [split, upTo_append fine, upTo]
      split <;> simp
    have := fit p first
    omega

theorem fit_of_faithful (reading : Reading parts c) (faithful : Faithful parts c)
    (ended : c.gone ≠ none ∨ c.unread = []) : ∀ p ∈ upTo parts, p.head.length ≤ inboxSize := by
  cases reading with
  | going v unread done left split taken fine held waiting room =>
    have read : unread = [] := ended.resolve_left (fun gone => gone rfl)
    subst read
    have all : parts = done := by rw [split, done_of_read waiting, List.append_nil]
    intro p inside
    rw [all] at inside
    exact held p (mem_upTo inside)
  | refused v unread why before p left split taken fine reason held room =>
    have upTo_eq : upTo parts = before ++ [p] := by
      rw [split, upTo_append fine, upTo, reason]
      rfl
    rw [upTo_eq]
    exact held
  | overrun v unread why before p left split taken fine long room =>
    -- The part ahead is to be taken and is not.
    have all := (faithful.dropped why rfl).2
    have size := congrArg List.length (taken.symm.trans all)
    rw [split, upTo_append fine, upTo] at size
    simp only [List.length_map, List.length_append] at size
    split at size <;> simp at size

end Faithful

/-- A viewer's stream means the same however it is cut exactly when no SetEncodings of it names more
encodings than the inbox can hold. -/
theorem stream_however_cut (s : Stream) :
    (∀ comes, Faithful s.parts (served (bytes s.parts) comes)) ↔
      ∀ p ∈ upTo s.parts, p.named ≤ 1023 := by
  have size := size_of_named s.remains
  constructor
  · intro faithful p inside
    have ended := polls_end ⟨accepted, bytes s.parts, none⟩ _ (Nat.lt_succ_self _)
    exact (size p (mem_upTo inside)).2.mp
      (fit_of_faithful (served_reading s _) (faithful _) ended p inside)
  · intro few comes
    refine faithful_of_fit (served_reading s comes) ?_
    intro p inside
    exact (size p (mem_upTo inside)).2.mpr (few p inside)

/-- 1,024 encodings. -/
def manyEncodings : ClientMessage :=
  .setEncodings 0#8 (List.replicate 1024 0#32) (by rw [List.length_replicate]; decide)

/-- Version 3.8, no security, and 1,024 encodings. -/
def crowded : Stream where
  version := version38
  twelve := rfl
  security := 1#8
  shared := 1#8
  messages := [manyEncodings]

theorem crowded_parts : crowded.parts =
    [versionPart version38, securityPart 1#8, initPart 1#8, messagePart manyEncodings] := by
  unfold Stream.parts
  rw [show readsBack (versionParse crowded.version) = true by decide]
  rfl

/-- A viewer that names 1,024 encodings is not served its stream, read 4,096 bytes at a time. -/
theorem encodings_overrun :
    ¬ Faithful crowded.parts (served (bytes crowded.parts) (List.replicate 5000 inboxSize)) := by
  intro faithful
  have head : (messagePart manyEncodings).head.length = 4100 := by
    have size := head_length manyEncodings
    rw [show (4100 : Nat) = 4 + 4 * 1024 by decide, ← List.length_replicate (n := 1024) (a := 0#32)]
    exact size
  have length : (bytes crowded.parts).length = 4114 := by
    rw [crowded_parts]
    simp only [bytes, List.flatMap_cons, List.flatMap_nil, List.length_append, head]
    rfl
  have ended := polls_end ⟨accepted, bytes crowded.parts, none⟩ 5000 (by rw [length]; decide)
  have last : messagePart manyEncodings ∈ upTo crowded.parts := by
    rw [crowded_parts]
    exact List.mem_cons_of_mem _ (List.mem_cons_of_mem _ (List.mem_cons_of_mem _
      List.mem_cons_self))
  have fit := fit_of_faithful (served_reading crowded _) faithful ended _ last
  rw [head] at fit
  exact absurd fit (by decide)

end MuirFpga.Terminal
