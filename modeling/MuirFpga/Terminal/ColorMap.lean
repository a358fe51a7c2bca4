import Mathlib.Data.List.Basic
import Mathlib.Data.List.Induction
import MuirFpga.Terminal.Converge
import MuirFpga.Terminal.Viewer

/-!
# The color screen's map

`screen_server_poll` over the viewers of the color screen, each with the pixels `pixels_make` made it when it was
accepted or last set its format, while the frame's map changes from poll to poll. What is left out is what keys
and the pointer do, the order of the viewers, which a drop changes, and the bytes of the handshake: of what is
queued, only whether any of it still drains.
-/

namespace MuirFpga.Terminal

/-- The map of a frame. -/
abbrev ColorMap := Nat → Byte × Byte × Byte

/-- An entry of `rfb_colour_map`: a byte repeated into both halves of sixteen bits. -/
def colourEntry (values v : Nat) (map : ColorMap) : List Byte :=
  if values = 2 then if v ≠ 0 then [0xFF#8, 0xFF#8, 0xFF#8, 0xFF#8, 0xFF#8, 0xFF#8] else [0#8, 0#8, 0#8, 0#8, 0#8, 0#8]
  else
    let (red, green, blue) := map v
    [red, red, green, green, blue, blue]

/-- `rfb_colour_map`. -/
def rfbColourMap (map : ColorMap) (values : Nat) : List Byte :=
  let values := min values 16
  [1#8, 0#8] ++ be16 0#16 ++ be16 (BitVec.ofNat 16 values) ++
    (List.range values).flatMap fun v => colourEntry values v map

/-- A viewer of a screen. `pending` is whether anything queued still drains, `cmap` the `SetColourMapEntries` last
queued. `made` and `drawn` are the maps its pixels were made from and its screen last sent from: the source keeps
neither. -/
structure Watcher where
  stage : Stage
  ver : Version
  format : Format
  screen : ScreenViewer
  pending : Bool
  connected : BitVec 64
  cmap : Option (List Byte)
  made : ColorMap
  drawn : ColorMap

/-- What a pass brings of a viewer: what `viewer_step` takes of its bytes, whether the connection is gone or a write
to it fails, and whether the socket takes all that is queued. -/
structure Arrival where
  took : List Taken
  gone : Bool
  broken : Bool
  drains : Bool

/-- A call of `screen_server_poll`. -/
structure Poll where
  frame : Frame
  now : BitVec 64
  accepts : Bool
  arrives : Nat → Arrival

/-- `SCREEN_MAX_VIEWERS`. -/
abbrev maxViewers : Nat := 8

/-- `SCREEN_HANDSHAKE_NS`. -/
abbrev handshakeNs : BitVec 64 := 30000000000#64

namespace Watcher

variable (g : Geometry) (rreOffered : Bool)

/-- `accept_one`. -/
def accepted (f : Frame) (now : BitVec 64) : Watcher where
  stage := .version
  ver := .v33
  format := rgb888
  screen := ⟨pixelsMake g rgb888 f.map, fun _ => 0#32, false, false, false, 0, 0, 0, 0, none, false⟩
  pending := true
  connected := now
  cmap := none
  made := f.map
  drawn := f.map

/-- A turn of `viewer_step` on a frame; none where it drops the viewer, and on what it never takes at that stage. -/
def take (f : Frame) (w : Watcher) : Taken → Option Watcher
  | .version v => some { w with stage := if readsBack v then .security else .init, ver := v, pending := true }
  | .security chose =>
    if chose ≠ 1#8 then none else some { w with stage := .init, pending := w.pending || w.ver = .v38 }
  | .init => some { w with stage := .running, pending := true }
  | .message m =>
    if w.stage ≠ .running then none
    else (w.screen.message g f m).map fun screen =>
      match m with
      | .setPixelFormat format =>
        let cmap := if !format.trueColour then some (rfbColourMap f.map g.values) else w.cmap
        { w with format := format, screen := screen, made := f.map, cmap := cmap, pending := w.pending || !format.trueColour }
      | _ => { w with screen := screen }

/-- `viewer_step`. -/
def takes (f : Frame) (w : Watcher) (took : List Taken) : Option Watcher :=
  took.foldlM (take g f) w

/-- What a viewer is answered, where it is. -/
def answered (f : Frame) (now : BitVec 64) (w : Watcher) : ScreenViewer × Option (List Rectangle) :=
  if w.stage = .running then w.screen.answer g rreOffered f now w.pending else (w.screen, none)

/-- The viewer once it is answered, and the socket has taken what it will. -/
def after (f : Frame) (now : BitVec 64) (drains : Bool) (w : Watcher) : Watcher :=
  let (screen, queued) := w.answered g rreOffered f now
  let drawn := match queued with
    | some (_ :: _) => f.map
    | _ => w.drawn
  { w with screen := screen, drawn := drawn, pending := (w.pending || queued.isSome) && !drains }

/-- It said nothing in thirty seconds. -/
def silent (now : BitVec 64) (w : Watcher) : Bool := w.stage != .running && decide (handshakeNs < now - w.connected)

/-- What is answered in a viewer's pass: to whom, as it stands once its bytes are taken. -/
def asking (f : Frame) (now : BitVec 64) (w : Watcher) (a : Arrival) : Option Watcher :=
  if a.gone then none
  else (w.takes g f a.took).bind fun w => if w.silent now then none else some w

/-- A viewer's pass; none where it is dropped. -/
def pass (f : Frame) (now : BitVec 64) (w : Watcher) (a : Arrival) : Option Watcher :=
  (w.asking g f now a).bind fun w => if a.broken then none else some (w.after g rreOffered f now a.drains)

end Watcher

section Server

variable (g : Geometry) (rreOffered : Bool)

/-- The viewers a poll serves. -/
def attached (viewers : List Watcher) (p : Poll) : List Watcher :=
  viewers ++ if p.accepts ∧ viewers.length ≠ maxViewers then [Watcher.accepted g p.frame p.now] else []

/-- `screen_server_poll`. -/
def serverPoll (viewers : List Watcher) (p : Poll) : List Watcher :=
  ((attached g viewers p).zipIdx).filterMap fun (w, k) => w.pass g rreOffered p.frame p.now (p.arrives k)

/-- The viewers after some polls. -/
def serverRun (polls : List Poll) : List Watcher := polls.foldl (serverPoll g rreOffered) []

/-- Two maps draw alike in a format: the same sixteen pixels, or to a mapped viewer the same entries. -/
def SameColors (format : Format) (map map' : ColorMap) : Prop :=
  if format.trueColour then ∀ v < 16, rfbPixel format map v g.values = rfbPixel format map' v g.values
  else ∀ v < 16, map v = map' v

/-- A rectangle is the frame's pixels, through the frame's map, in a format. -/
def DrawnThrough (format : Format) (f : Frame) (r : Rectangle) : Prop :=
  ∀ fb : Framebuffer, fb.draw r = fun x y =>
    if Within r.x r.y r.w r.h x y then some (rfbPut format (rfbPixel format f.map (screenValue g f.words x y) g.values))
    else fb x y

/-- What is promised of a viewer as it is answered: each rectangle queued is the frame's through its map, a mapped
viewer has been told that map, and a change of the map alone is answered. -/
structure Promised (f : Frame) (now : BitVec 64) (w : Watcher) : Prop where
  drawn : ∀ rects, (w.answered g rreOffered f now).2 = some rects → ∀ r ∈ rects, DrawnThrough g w.format f r
  told : ∀ rects, (w.answered g rreOffered f now).2 = some rects → rects ≠ [] → w.format.trueColour = false →
    w.cmap = some (rfbColourMap f.map g.values)
  reaches : w.stage = .running → w.pending = false → w.screen.haveRequest = true → w.screen.incremental = true →
    w.screen.seen = true → 0 < w.screen.aw g → 0 < w.screen.ah g →
    (∀ row < g.height, rowChanged g f.words w.screen.was row = false) → ¬SameColors g w.format w.drawn f.map →
    (w.answered g rreOffered f now).2 ≠ none

/-- The map draws in the viewer's format as the one its pixels were made from, where a request of its stands. -/
def Watcher.Fresh (f : Frame) (w : Watcher) : Prop :=
  w.screen.haveRequest = true → SameColors g w.format w.made f.map

/-- So of each viewer a poll answers. -/
def Kept (viewers : List Watcher) (p : Poll) : Prop :=
  ∀ k (w w' : Watcher), (attached g viewers p)[k]? = some w → w.asking g p.frame p.now (p.arrives k) = some w' → w'.Fresh g p.frame

/-- What holds of a viewer between polls whose maps are kept. -/
structure Watcher.Sound (w : Watcher) : Prop where
  table : w.screen.pixels = pixelsMake g w.format w.made
  told : w.format.trueColour = false → w.cmap = some (rfbColourMap w.made g.values)
  alike : w.screen.seen = true → SameColors g w.format w.made w.drawn

end Server

section Colors

variable {g : Geometry} {format : Format} {map map' : ColorMap}

theorem SameColors.symm (same : SameColors g format map map') : SameColors g format map' map := by
  unfold SameColors at same ⊢
  split at same
  · rename_i direct
    rw [if_pos direct]
    exact fun v below => (same v below).symm
  · rename_i mapped
    rw [if_neg mapped]
    exact fun v below => (same v below).symm

theorem SameColors.trans {map'' : ColorMap} (same : SameColors g format map map')
    (same' : SameColors g format map' map'') : SameColors g format map map'' := by
  unfold SameColors at same same' ⊢
  split at same
  · rename_i direct
    rw [if_pos direct] at same' ⊢
    exact fun v below => (same v below).trans (same' v below)
  · rename_i mapped
    rw [if_neg mapped] at same' ⊢
    exact fun v below => (same v below).trans (same' v below)

theorem SameColors.pixel (same : SameColors g format map map') {v : Nat} (below : v < 16) :
    rfbPixel format map v g.values = rfbPixel format map' v g.values := by
  unfold SameColors at same
  split at same
  · exact same v below
  · rename_i mapped
    have mapped : (!format.trueColour) = true := by
      rw [Bool.not_eq_true']
      exact Bool.eq_false_iff.mpr mapped
    unfold rfbPixel
    dsimp only
    rw [if_pos mapped, if_pos mapped]

theorem SameColors.entries (same : SameColors g format map map') (mapped : format.trueColour = false) (values : Nat) :
    rfbColourMap map values = rfbColourMap map' values := by
  unfold SameColors at same
  rw [mapped, if_neg (by decide)] at same
  unfold rfbColourMap
  dsimp only
  congr 1
  refine List.flatMap_congr fun v among => ?_
  have below : v < 16 := Nat.lt_of_lt_of_le (List.mem_range.mp among) (Nat.min_le_right _ _)
  unfold colourEntry
  rw [same v below]

end Colors

section Pass

variable {g : Geometry} {rreOffered : Bool} {f : Frame} {now : BitVec 64} {w w' : Watcher}

theorem accepted_sound (g : Geometry) (f : Frame) (now : BitVec 64) : (Watcher.accepted g f now).Sound g where
  table := rfl
  told := fun mapped => nomatch mapped
  alike := fun seen => nomatch seen

theorem take_sound {t : Taken} (sound : w.Sound g) (took : w.take g f t = some w') : w'.Sound g := by
  cases t with
  | version v =>
    obtain rfl := Option.some.inj took
    exact ⟨sound.table, sound.told, sound.alike⟩
  | security chose =>
    unfold Watcher.take at took
    dsimp only at took
    split at took
    · exact nomatch took
    · obtain rfl := Option.some.inj took
      exact ⟨sound.table, sound.told, sound.alike⟩
  | init =>
    obtain rfl := Option.some.inj took
    exact ⟨sound.table, sound.told, sound.alike⟩
  | message m =>
    unfold Watcher.take at took
    dsimp only at took
    split at took
    · exact nomatch took
    · obtain ⟨screen, handled, rfl⟩ := Option.map_eq_some_iff.mp took
      cases m with
      | setPixelFormat format =>
        unfold ScreenViewer.message at handled
        dsimp only at handled
        split at handled
        · exact nomatch handled
        · obtain rfl := Option.some.inj handled
          refine ⟨rfl, fun mapped => ?_, fun seen => nomatch seen⟩
          dsimp only at mapped ⊢
          rw [mapped]
          rfl
      | setEncodings encodings =>
        obtain rfl := Option.some.inj handled
        exact ⟨sound.table, sound.told, sound.alike⟩
      | updateRequest incremental x y w h =>
        obtain rfl := Option.some.inj handled
        exact ⟨sound.table, sound.told, sound.alike⟩
      | key down keysym =>
        obtain rfl := Option.some.inj handled
        exact ⟨sound.table, sound.told, sound.alike⟩
      | pointer buttons x y =>
        obtain rfl := Option.some.inj handled
        exact ⟨sound.table, sound.told, sound.alike⟩
      | cutText len =>
        obtain rfl := Option.some.inj handled
        exact ⟨sound.table, sound.told, sound.alike⟩

theorem takes_sound {took : List Taken} (sound : w.Sound g) (taken : w.takes g f took = some w') : w'.Sound g := by
  induction took generalizing w with
  | nil =>
    obtain rfl := Option.some.inj taken
    exact sound
  | cons t took ih =>
    obtain ⟨next, first, rest⟩ := Option.bind_eq_some_iff.mp ((List.foldlM_cons ..).symm.trans taken)
    exact ih (take_sound sound first) rest

theorem asking_sound {a : Arrival} (sound : w.Sound g) (asks : w.asking g f now a = some w') : w'.Sound g := by
  unfold Watcher.asking at asks
  split at asks
  · exact nomatch asks
  · obtain ⟨next, taken, rest⟩ := Option.bind_eq_some_iff.mp asks
    split at rest
    · exact nomatch rest
    · obtain rfl := Option.some.inj rest
      exact takes_sound sound taken

theorem answered_cases (g : Geometry) (rreOffered : Bool) (f : Frame) (now : BitVec 64) (w : Watcher) :
    w.answered g rreOffered f now = (w.screen, none)
      ∨ w.answered g rreOffered f now = ({ w.screen with haveRequest := false }, some [])
      ∨ w.screen.haveRequest = true ∧ ∃ screen runs, runs ≠ [] ∧ screen.pixels = w.screen.pixels ∧ screen.seen = true
        ∧ w.answered g rreOffered f now = (screen, some (runs.map (w.screen.rectangle g rreOffered f))) := by
  unfold Watcher.answered
  split
  · rcases Screen.answer_cases g rreOffered w.screen f now w.pending with same | ⟨-, -, none_⟩ | ⟨-, asked, -, some_, all⟩
    · exact .inl same
    · exact .inr (.inl none_)
    · let sent := { w.screen with
        fullAt := if w.screen.whole then some now else w.screen.fullAt
        was := f.words
        seen := true
        haveRequest := false }
      exact .inr (.inr ⟨asked, sent, _, some_, rfl, rfl, all⟩)
  · exact .inl rfl

theorem rectangle_drawn (sound : w.Sound g) (same : SameColors g w.format w.made f.map) (r : Run) :
    DrawnThrough g w.format f (w.screen.rectangle g rreOffered f r) := by
  have one (x y : Nat) : w.screen.pixels.one (screenValue g f.words x y)
      = rfbPut w.format (rfbPixel w.format f.map (screenValue g f.words x y) g.values) := by
    rw [one_screenValue, sound.table]
    show rfbPut w.format (rfbPixel w.format w.made _ g.values) = _
    rw [same.pixel (screenValue_lt g f.words y x)]
  intro fb
  have drawn : fb.draw (w.screen.rectangle g rreOffered f r)
      = shown g w.screen.pixels f.words fb (w.screen.ax g) r.row (w.screen.aw g) r.len := by
    unfold ScreenViewer.rectangle
    dsimp only
    split
    · exact draw_rre g w.screen.pixels f.words fb _ _ _ _ _
    · exact draw_raw g w.screen.pixels f.words fb _ _ _ _
  rw [drawn]
  funext x y
  unfold shown
  rw [one]
  rfl

theorem promised_of_fresh (sound : w.Sound g) (fresh : w.Fresh g f) : Promised g rreOffered f now w where
  drawn := by
    intro rects queued r among
    rcases answered_cases g rreOffered f now w with none_ | empty | ⟨asked, screen, runs, -, -, -, all⟩
    · rw [none_] at queued
      exact nomatch queued
    · rw [empty] at queued
      obtain rfl := Option.some.inj queued
      exact absurd among List.not_mem_nil
    · rw [all] at queued
      obtain rfl := Option.some.inj queued
      obtain ⟨run, -, rfl⟩ := List.mem_map.mp among
      exact rectangle_drawn sound (fresh asked) run
  told := by
    intro rects queued some_ mapped
    rcases answered_cases g rreOffered f now w with none_ | empty | ⟨asked, -⟩
    · rw [none_] at queued
      exact nomatch queued
    · rw [empty] at queued
      exact absurd (Option.some.inj queued).symm some_
    · rw [sound.told mapped, (fresh asked).entries mapped]
  reaches := by
    intro _ _ asked _ seen _ _ _ other
    exact absurd ((sound.alike seen).symm.trans (fresh asked)) other

theorem after_sound {drains : Bool} (sound : w.Sound g) (fresh : w.Fresh g f) :
    (w.after g rreOffered f now drains).Sound g := by
  unfold Watcher.after
  rcases answered_cases g rreOffered f now w with none_ | empty | ⟨asked, screen, runs, some_, pixels, -, all⟩
  · rw [none_]
    exact ⟨sound.table, sound.told, sound.alike⟩
  · rw [empty]
    exact ⟨sound.table, sound.told, sound.alike⟩
  · rw [all]
    cases runs with
    | nil => exact absurd rfl some_
    | cons run runs => exact ⟨pixels.trans sound.table, sound.told, fun _ => fresh asked⟩

end Pass

section Runs

variable (g : Geometry) (rreOffered : Bool)

theorem attached_sound {viewers : List Watcher} (sound : ∀ w ∈ viewers, w.Sound g) (p : Poll) :
    ∀ w ∈ attached g viewers p, w.Sound g := by
  intro w among
  rcases List.mem_append.mp among with there | new
  · exact sound w there
  · split at new
    · obtain rfl := List.mem_singleton.mp new
      exact accepted_sound g p.frame p.now
    · exact absurd new List.not_mem_nil

theorem serverPoll_sound {viewers : List Watcher} {p : Poll} (sound : ∀ w ∈ viewers, w.Sound g) (kept : Kept g viewers p) :
    ∀ w ∈ serverPoll g rreOffered viewers p, w.Sound g := by
  intro w' among
  obtain ⟨⟨w, k⟩, there, passed⟩ := List.mem_filterMap.mp among
  have at_ : (attached g viewers p)[k]? = some w := List.mem_zipIdx_iff_getElem?.mp there
  obtain ⟨next, asks, rest⟩ := Option.bind_eq_some_iff.mp passed
  have sound' := asking_sound (attached_sound g sound p w (List.mem_of_getElem? at_)) asks
  split at rest
  · exact nomatch rest
  · obtain rfl := Option.some.inj rest
    exact after_sound sound' (kept k w next at_ asks)

theorem serverRun_sound (polls : List Poll)
    (kept : ∀ before p after, polls = before ++ p :: after → Kept g (serverRun g rreOffered before) p) :
    ∀ w ∈ serverRun g rreOffered polls, w.Sound g := by
  induction polls using List.reverseRecOn with
  | nil => exact fun w among => absurd among List.not_mem_nil
  | append_singleton polls p ih =>
    have sound := ih fun before q after same => kept before q (after ++ [p]) (by rw [same, List.append_assoc]; rfl)
    unfold serverRun
    rw [List.foldl_append]
    exact serverPoll_sound g rreOffered sound (kept polls p [] rfl)

/-- What every viewer of a run is promised, in every poll of it. -/
def PromisedAlways (polls : List Poll) : Prop :=
  ∀ before p after, polls = before ++ p :: after →
    ∀ k (w w' : Watcher), (attached g (serverRun g rreOffered before) p)[k]? = some w →
      w.asking g p.frame p.now (p.arrives k) = some w' → Promised g rreOffered p.frame p.now w'

/-- **What the color screen's viewers are sent.** In a run each of whose polls keeps the map, in which, that is, the
map draws as the one a viewer's pixels were made from wherever a request of the viewer's stands: every rectangle
queued is the frame's pixels through the frame's own map, a mapped viewer has been told that map, and a change of
the map alone is answered. -/
theorem promised_of_kept (polls : List Poll)
    (kept : ∀ before p after, polls = before ++ p :: after → Kept g (serverRun g rreOffered before) p) :
    PromisedAlways g rreOffered polls := by
  intro before p after same k w w' there asks
  have sound := serverRun_sound g rreOffered before fun before' q after' same' =>
    kept before' q (after' ++ p :: after) (by rw [same, same', List.append_assoc]; rfl)
  have sound' := asking_sound (attached_sound g sound p w (List.mem_of_getElem? there)) asks
  exact promised_of_fresh sound' (kept before p after same k w w' there asks)

/-- A run's polls are kept if each is after those before it. -/
theorem kept_of_each {polls : List Poll}
    (each : ∀ (k : Nat) (below : k < polls.length),
      Kept g (serverRun g rreOffered (polls.take k)) (polls.get ⟨k, below⟩)) :
    ∀ before p after, polls = before ++ p :: after → Kept g (serverRun g rreOffered before) p := by
  rintro before p after rfl
  have kept := each before.length (by simp)
  simpa using kept

end Runs

section Decided

variable (g : Geometry)

instance (format : Format) (map map' : ColorMap) : Decidable (SameColors g format map map') := by
  unfold SameColors
  infer_instance

instance (w : Watcher) (f : Frame) : Decidable (w.Fresh g f) := by
  unfold Watcher.Fresh
  infer_instance

/-- Whether a poll keeps the map, found by going through its viewers. -/
def keepsMap (viewers : List Watcher) (p : Poll) : Bool :=
  (attached g viewers p).zipIdx.all fun (w, k) =>
    (w.asking g p.frame p.now (p.arrives k)).all fun w => decide (w.Fresh g p.frame)

theorem kept_of_keepsMap {viewers : List Watcher} {p : Poll} (keeps : keepsMap g viewers p = true) :
    Kept g viewers p := by
  intro k w w' there asks
  have fresh := List.all_eq_true.mp keeps (w, k) (List.mem_zipIdx_iff_getElem?.mpr there)
  dsimp only at fresh
  rw [asks] at fresh
  exact of_decide_eq_true fresh

end Decided

section Stale

/-- The color TV. -/
def colorTv : Geometry := ⟨true, 72, 454, false, by decide⟩

/-- A frame of one color, of a map whose sixteen colors are one gray. -/
def grayFrame (level : Byte) : Frame := ⟨fun _ => 0#32, fun _ => (level, level, level)⟩

/-- Nothing of a viewer, and a socket that takes everything. -/
def quietArrival : Arrival := ⟨[], false, false, true⟩

/-- A viewer connects; it says its version, asks for one pixel; and the frame is then another gray. -/
def grayPolls (level : Byte) : List Poll :=
  let request := Message.updateRequest false 1#16 0#16 1#16 1#16
  [⟨grayFrame 0x40#8, 0#64, true, fun _ => quietArrival⟩,
    ⟨grayFrame 0x40#8, 1000#64, false, fun _ => { quietArrival with took := [.version .v33, .init, .message request] }⟩,
    ⟨grayFrame level, 2000#64, false, fun _ => quietArrival⟩]

/-- The pixel the viewer is then sent is the first gray's, though the frame's map has it the second. -/
theorem stale_pixel : ¬∀ polls, PromisedAlways colorTv true polls := by
  intro all
  let p : Poll := ⟨grayFrame 0x80#8, 2000#64, false, fun _ => quietArrival⟩
  let before : List Poll := (grayPolls 0x80#8).take 2
  have stale : (((attached colorTv (serverRun colorTv true before) p)[0]?.bind fun w =>
      w.asking colorTv p.frame p.now (p.arrives 0)).bind fun w => (w.answered colorTv true p.frame p.now).2.map fun rects =>
        rects.all fun r => decide (Framebuffer.draw (fun _ _ => none) r 1 0 = some (rfbPut w.format
          (rfbPixel w.format p.frame.map (screenValue colorTv p.frame.words 1 0) colorTv.values)))
          || !decide (Within r.x r.y r.w r.h 1 0)) = some false := by
    decide
  obtain ⟨w', asks, wrong⟩ := Option.bind_eq_some_iff.mp stale
  obtain ⟨w, there, asks⟩ := Option.bind_eq_some_iff.mp asks
  obtain ⟨rects, queued, wrong⟩ := Option.map_eq_some_iff.mp wrong
  obtain ⟨r, among, wrong⟩ := List.all_eq_false.mp wrong
  have right := congrFun (congrFun ((all (grayPolls 0x80#8) before p [] rfl 0 w w' there asks).drawn rects queued r among
    fun _ _ => none) 1) 0
  apply wrong
  by_cases within : Within r.x r.y r.w r.h 1 0
  · rw [decide_eq_true (right.trans (if_pos within)), Bool.true_or]
  · rw [decide_eq_false within, Bool.not_false, Bool.or_true]

/-- A format of one byte a pixel, mapped. -/
def mapped8 : Format := { rgb888 with bitsPerPixel := 8#8, depth := 8#8, trueColour := false }

/-- The map changes twice. The viewer asks under the first gray; sets its pixel format anew before it asks
under the second; and becomes a mapped viewer before it asks under the third, which came a poll before. -/
def changingPolls : List Poll :=
  let request := Message.updateRequest false 1#16 0#16 1#16 1#16
  grayPolls 0x40#8 ++
    [⟨grayFrame 0x80#8, 20000000#64, false, fun _ =>
        { quietArrival with took := [.message (.setPixelFormat rgb888), .message request] }⟩,
      ⟨grayFrame 0xC0#8, 40000000#64, false, fun _ => quietArrival⟩,
      ⟨grayFrame 0xC0#8, 60000000#64, false, fun _ =>
        { quietArrival with took := [.message (.setPixelFormat mapped8), .message request] }⟩,
      ⟨grayFrame 0xC0#8, 80000000#64, false, fun _ => quietArrival⟩]

/-- What the first viewer is queued in a poll of them. -/
def changingSent (k : Nat) : Option Nat :=
  (changingPolls[k]?.bind fun p =>
    ((attached colorTv (serverRun colorTv true (changingPolls.take k)) p)[0]?.bind fun w =>
      w.asking colorTv p.frame p.now (p.arrives 0)).bind fun w =>
        (w.answered colorTv true p.frame p.now).2.map List.length)

/-- It is promised what it asks of each gray, and each is sent. -/
theorem promised_of_kept_changing : PromisedAlways colorTv true changingPolls ∧
    (List.range 7).map changingSent = [none, none, some 1, some 1, none, none, some 1] := by
  refine ⟨promised_of_kept colorTv true changingPolls
    (kept_of_each colorTv true fun k below => kept_of_keepsMap colorTv ?_), by decide⟩
  have all : ∀ k : Fin changingPolls.length,
      keepsMap colorTv (serverRun colorTv true (changingPolls.take k)) (changingPolls.get k) = true := by
    decide
  exact all ⟨k, below⟩

end Stale

end MuirFpga.Terminal
