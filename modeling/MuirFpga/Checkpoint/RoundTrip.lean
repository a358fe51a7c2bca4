import MuirFpga.Checkpoint.Reads

/-!
# A sidecar read back

What `bind_read` returns of a file `bind_write` made.
-/

namespace MuirFpga.Checkpoint

open MuirFpga.Text

/-- A binding whose texts have no newline in them. -/
structure Binding.Texts (b : Binding) : Prop where
  packs : ∀ unit p, b.u unit = some p →
    '\n' ∉ p.path.val ∧ '\n' ∉ p.sha256.val ∧ '\n' ∉ p.format.val
  checkpoint : '\n' ∉ b.checkpoint.val
  checkpointSha : '\n' ∉ b.checkpointSha.val
  taken : '\n' ∉ b.taken.val
  memoryTiming : b.quux = true → '\n' ∉ b.memoryTiming.val

/-- A binding that its sidecar tells: of such texts, and of values that `bind_read` takes. -/
structure Binding.Told (b : Binding) : Prop where
  texts : b.Texts
  packs : ∀ unit p, b.u unit = some p → p.Told
  amount : b.quux = true → Amount b.boards
  timing : b.quux = true → b.memoryTiming.val ≠ [] → b.memoryTiming.val ∈ chkMemoryTimings
  video : b.quux = true → b.videoWidth ≠ 0#32 → b.videoHeight ≠ 0#32
  mask : b.quux = true → b.eth = true → ∃ len, 1 ≤ len ∧ len ≤ 32 ∧ b.ethNetmask = netmask len
  chaos : b.quux = false → b.chaosAddress ≠ 0#32 → ChaosAddress b.chaosAddress

/-- What a sidecar has of a binding that `bind_read` reads: each machine's own fields, and not how the
packs were made to hold still. A text that ends its line is without the carriage returns at its end. -/
def Binding.recorded (b : Binding) : Binding :=
  let eth := b.quux && b.eth
  { b with
    u := fun unit => (b.u unit).map Pack.recorded
    present := BitVec.ofNat 32 b.drives.length
    checkpoint := b.checkpoint.chomped
    checkpointSha := b.checkpointSha.chomped
    taken := b.taken.chomped
    machineHaltedFirst := false
    packsProgramStopped := false
    revision := if b.quux then b.revision else 0
    syncK := if b.quux then b.syncK else 0
    videoWidth := if b.quux then b.videoWidth else 0
    videoHeight := if b.quux && b.videoWidth != 0 then b.videoHeight else 0
    memoryTiming := if b.quux then b.memoryTiming else .empty
    eth := eth
    ethMac := if eth then b.ethMac else fun _ => 0
    ethAddress := if eth then b.ethAddress else 0
    ethNetmask := if eth then b.ethNetmask else 0
    ethGateway := if eth then b.ethGateway else 0
    running := some (b.running = some true)
    chaosAddress := if b.quux then 0 else b.chaosAddress }

section Whole

variable {b : Binding} {r : Reading}

/-- The packs of some units, over those read before. -/
def landed (b : Binding) (units : List (Fin bindUnits)) (u : Fin bindUnits → Option Pack) :
    Fin bindUnits → Option Pack := fun unit =>
  if unit ∈ units then ((b.u unit).map Pack.recorded).or (u unit) else u unit

theorem reads_drives (told : b.Told) (units : List (Fin bindUnits)) (r : Reading) :
    let drives := units.filterMap fun unit => (b.u unit).map (unit, ·)
    Reads (drives.map fun (unit, p) => packLine unit p) r { r with b := { r.b with
      u := landed b units r.b.u, present := r.b.present + BitVec.ofNat 32 drives.length } } := by
  induction units generalizing r with
  | nil =>
    have same : landed b [] r.b.u = r.b.u := rfl
    have none_ : r.b.present + BitVec.ofNat 32 0 = r.b.present := BitVec.add_zero _
    simp only [List.filterMap_nil, List.map_nil, List.length_nil, same, none_]
    exact reads_nil
  | cons unit units ih =>
    dsimp only at ih ⊢
    cases has : b.u unit with
    | none =>
      have same : landed b (unit :: units) r.b.u = landed b units r.b.u := by
        funext other
        unfold landed
        by_cases is : other = unit
        · subst is
          simp [has]
        · simp [is]
      rw [List.filterMap_cons_none (by rw [has]; rfl), same]
      exact ih r
    | some p =>
      have same : landed b (unit :: units) r.b.u =
          landed b units (Function.update r.b.u unit (some p.recorded)) := by
        funext other
        unfold landed
        by_cases is : other = unit
        · subst is
          simp [has]
        · simp [is]
      rw [List.filterMap_cons_some (by rw [has]; rfl), List.map_cons, List.length_cons, same]
      have one := reads_pack unit (told.packs unit p has) r
      have rest := ih { r with b := { r.b with
        u := Function.update r.b.u unit (some p.recorded), present := r.b.present + 1#32 } }
      have count : ∀ n, r.b.present + BitVec.ofNat 32 (n + 1) = r.b.present + 1#32 + BitVec.ofNat 32 n := by
        intro n
        rw [BitVec.add_assoc, ← BitVec.ofNat_add, Nat.add_comm]
      rw [count (List.filterMap _ units).length]
      exact reads_cons one rest

theorem reads_ethernet (told : b.Told) (quux : b.quux = true) (eth : b.eth = true) (r : Reading) :
    Reads [entry "ethernet-mac" (bindMacText b.ethMac),
        entry "ip-address" (bindIpv4Text b.ethAddress ++ '/' :: Nat.toDigits 10 (prefixOf b.ethNetmask)),
        entry "ip-gateway" (bindIpv4Text b.ethGateway)] r
      { r with b := { r.b with
        eth := true, ethMac := b.ethMac, ethAddress := b.ethAddress, ethNetmask := b.ethNetmask,
        ethGateway := b.ethGateway } } := by
  obtain ⟨len, least, most, is⟩ := told.mask quux eth
  exact reads_cons (reads_ethernetMac b.ethMac)
    (reads_cons (reads_ipAddress b.ethAddress least most is) (reads_ipGateway b.ethGateway))

theorem reads_quuxLines (told : b.Told) (quux : b.quux = true) (timing : r.b.memoryTiming = .empty)
    (width : r.b.videoWidth = 0#32) (height : r.b.videoHeight = 0#32) :
    Reads (quuxLines b) r { r with b := { r.b with
      revision := b.revision, syncK := b.syncK, memoryTiming := b.memoryTiming, videoWidth := b.videoWidth,
      videoHeight := if b.videoWidth ≠ 0#32 then b.videoHeight else 0#32,
      eth := if b.eth then true else r.b.eth,
      ethMac := if b.eth then b.ethMac else r.b.ethMac,
      ethAddress := if b.eth then b.ethAddress else r.b.ethAddress,
      ethNetmask := if b.eth then b.ethNetmask else r.b.ethNetmask,
      ethGateway := if b.eth then b.ethGateway else r.b.ethGateway } } := by
  unfold quuxLines
  have first := reads_cons (reads_revision (r := r) b.revision) (reads_syncK b.syncK)
  have second := reads_append first (reads_memoryTiming (told.timing quux) timing)
  have third := reads_append second (reads_videoSize (told.video quux) width height)
  cases eth : b.eth with
  | true => exact reads_append third (reads_ethernet told quux eth _)
  | false => exact reads_append third reads_nil

theorem landed_all (b : Binding) :
    landed b (List.finRange bindUnits) (fun _ => none) = fun unit => (b.u unit).map Pack.recorded := by
  funext unit
  unfold landed
  rw [if_pos (List.mem_finRange unit), Option.or_none]

/-- The lines up to the machine's. -/
def firstLines (b : Binding) : List Chars :=
  [entry "format" "cadr-checkpoint-packs 1".toList, entry "checkpoint" b.checkpoint.val,
    entry "checkpoint-bytes" (decimal b.checkpointBytes), entry "checkpoint-sha256" b.checkpointSha.val,
    entry "taken" b.taken.val, entry "engine" "rtl".toList,
    entry "machine" (if b.quux then "quux".toList else "cadr".toList)]

/-- The line of main memory. -/
def memoryLine (b : Binding) : Chars :=
  if b.quux then entry "main-memory-size" (roMainAmount b.boards) else entry "boards" (decimal b.boards)

def timeLines (b : Binding) : List Chars :=
  [entry "microcycles" (decimal b.microcycles), entry "ns" (decimal b.ns)]

/-- The lines after a machine's own. -/
def lastLines (b : Binding) : List Chars :=
  [entry "running" (yesNo (b.running = some true)),
      entry "machine-halted-first" (yesNo b.machineHaltedFirst),
      entry "packs-program-stopped" (if b.packsProgramStopped then "yes".toList else "unknown".toList),
      entry "packs" (decimal b.present)] ++
    ((b.drives.map fun (unit, p) => packLine unit p) ++ [entry "resume" (bindResumeCommand b)])

theorem sidecar_parts (b : Binding) :
    sidecar b = (comment.map String.toList ++ firstLines b) ++ memoryLine b :: (timeLines b ++
      ((if b.quux then quuxLines b else []) ++
      ((if !b.quux && b.chaosAddress != 0#32 then
        [entry "chaos-address" (Nat.toDigits 8 b.chaosAddress.toNat)] else []) ++ lastLines b))) := by
  unfold sidecar firstLines memoryLine timeLines lastLines
  simp only [List.append_assoc, List.cons_append, List.nil_append]

/-- What reading starts with. -/
def unread : Reading := ⟨{ bindInit with running := none }, false⟩

theorem reads_firstLines (b : Binding) :
    Reads (comment.map String.toList ++ firstLines b) unread
      ⟨{ bindInit with
        running := none, checkpoint := b.checkpoint.chomped, checkpointBytes := b.checkpointBytes,
        checkpointSha := b.checkpointSha.chomped, taken := b.taken.chomped, quux := b.quux }, true⟩ :=
  reads_append (reads_comment unread) (reads_cons (reads_format _) (reads_cons (reads_checkpoint b.checkpoint)
    (reads_cons (reads_checkpointBytes b.checkpointBytes) (reads_cons (reads_checkpointSha b.checkpointSha)
    (reads_cons (reads_taken b.taken)
    (reads_cons (reads_other (by decide) (by decide) (by decide) (by decide) _ _) (reads_machine b.quux)))))))

theorem reads_timeLines (b : Binding) (r : Reading) :
    Reads (timeLines b) r { r with b := { r.b with microcycles := b.microcycles, ns := b.ns } } :=
  reads_cons (reads_microcycles b.microcycles) (reads_ns b.ns)

theorem reads_lastLines (told : b.Told) (r : Reading) :
    Reads (lastLines b) r { r with b := { r.b with
      running := some (b.running = some true), u := landed b (List.finRange bindUnits) r.b.u,
      present := r.b.present + BitVec.ofNat 32 b.drives.length } } :=
  reads_append (reads_cons (reads_running _)
    (reads_cons (reads_other (by decide) (by decide) (by decide) (by decide) _ _)
    (reads_cons (reads_other (by decide) (by decide) (by decide) (by decide) _ _)
    (reads_other (by decide) (by decide) (by decide) (by decide) _ _))))
    (reads_append (reads_drives told (List.finRange bindUnits) _)
    (reads_other (by decide) (by decide) (by decide) (by decide) _ _))

theorem reads_sidecar (told : b.Told) : Reads (sidecar b) unread ⟨b.recorded, true⟩ := by
  have zero : ∀ n : BitVec 32, (0 : BitVec 32) + n = n := BitVec.zero_add
  have memory : ∀ r : Reading, Reads [memoryLine b] r { r with b := { r.b with boards := b.boards } } :=
    fun r => reads_memory told.amount
  rw [sidecar_parts]
  rcases Bool.eq_false_or_eq_true b.quux with quux | quux
  · have lines : (if b.quux then quuxLines b else []) = quuxLines b := if_pos quux
    have all := reads_append (reads_firstLines b) (reads_cons (memory _) (reads_append (reads_timeLines b _)
      (reads_append (reads_quuxLines told quux rfl rfl rfl) (reads_append (reads_chaosAddress told.chaos rfl)
      (reads_lastLines told _)))))
    rw [lines]
    refine Eq.mp (congrArg (Reads _ _) ?_) all
    simp only [Binding.recorded, quux, landed_all, bindInit, zero]
    have height : (if b.videoWidth ≠ 0#32 then b.videoHeight else 0#32) =
        if (true && b.videoWidth != 0) = true then b.videoHeight else 0 := by
      simp
    rw [height]
    cases b.eth <;> rfl
  · have lines : (if b.quux then quuxLines b else []) = [] := if_neg (by rw [quux]; decide)
    have all := reads_append (reads_firstLines b) (reads_cons (memory _) (reads_append (reads_timeLines b _)
      (reads_append reads_nil (reads_append (reads_chaosAddress told.chaos rfl) (reads_lastLines told _)))))
    rw [lines]
    refine Eq.mp (congrArg (Reads _ _) ?_) all
    simp only [Binding.recorded, quux, landed_all, bindInit, zero]
    rfl

/-- A value that fits its line, with no line's end in it. -/
structure Fits (t : Chars) : Prop where
  small : t.length ≤ 4200
  plain : Plain t

theorem plain_append {s t : Chars} : Plain (s ++ t) ↔ Plain s ∧ Plain t := List.forall_mem_append

theorem entry_clean {key : String} {val : Chars} (fits : Fits val)
    (plain : key.toList.length ≤ 100 ∧ Plain key.toList) : Clean 8191 (entry key val) := by
  constructor
  · have small := fits.small
    have short := plain.1
    simp only [entry, List.length_append, List.length_cons]
    omega
  · exact plain_append.mpr ⟨plain.2, List.forall_mem_cons.mpr
      ⟨by decide, List.forall_mem_cons.mpr ⟨by decide, fits.plain⟩⟩⟩

theorem fits_digits {base n : Nat} (two : 1 < base) (graphic : Graphic (Nat.toDigits base n))
    (small : n < base ^ 100) : Fits (Nat.toDigits base n) :=
  ⟨Nat.le_trans ((Nat.length_toDigits_le_iff two (by decide)).mpr small) (by decide), graphic.plain⟩

theorem fits_decimal {w : Nat} (x : BitVec w) (most : w ≤ 64) : Fits (decimal x) :=
  ⟨Nat.le_trans (decimal_length x most) (by decide), (graphic_decimal x).plain⟩

theorem fits_buffer {n : Nat} {buffer : Buffer n} (small : n ≤ 4200) (one : '\n' ∉ buffer.val) :
    Fits buffer.val :=
  ⟨Nat.le_trans buffer.2.1 small, plain_buffer buffer one⟩

theorem fits_amount (units : BitVec 32) : Fits (roMainAmount units) := by
  refine ⟨?_, (graphic_amount units).plain⟩
  have less := units.isLt
  have short : ∀ n < 10 ^ 20, (Nat.toDigits 10 n).length ≤ 20 := fun n small =>
    (Nat.length_toDigits_le_iff (by decide) (by decide)).mpr small
  unfold roMainAmount mwUnits boardKilowords
  split
  · have digits := short (units.toNat / 16) (by omega)
    rw [List.length_append]
    exact Nat.le_trans (Nat.add_le_add_right digits 2) (by decide)
  · have digits := short (units.toNat * 64) (by omega)
    rw [List.length_append]
    exact Nat.le_trans (Nat.add_le_add_right digits 2) (by decide)

theorem ipv4_length (a : BitVec 32) : (bindIpv4Text a).length ≤ 83 := by
  have part : ∀ x : BitVec 32, (decimal x).length ≤ 20 := fun x => decimal_length x (by decide)
  have p0 := part (a >>> 24)
  have p1 := part ((a >>> 16) &&& 0xFF#32)
  have p2 := part ((a >>> 8) &&& 0xFF#32)
  have p3 := part (a &&& 0xFF#32)
  simp only [bindIpv4Text, List.length_append, List.length_cons]
  omega

theorem prefixOf_length (mask : BitVec 32) : (Nat.toDigits 10 (prefixOf mask)).length ≤ 2 := by
  refine (Nat.length_toDigits_le_iff (by decide) (by decide)).mpr ?_
  have most : prefixOf mask ≤ 32 := (List.takeWhile_sublist _).length_le.trans (by simp)
  omega

theorem plain_assigned {key : String} {val : Chars} (spelt : Plain key.toList) (plain : Plain val) :
    Plain (assigned key val) := by
  unfold assigned
  simp only [List.forall_mem_append, List.forall_mem_cons, List.not_mem_nil, false_implies, implies_true]
  exact ⟨⟨spelt, by decide, plain⟩, by decide, trivial⟩

theorem packLine_clean {p : Pack} (unit : Fin bindUnits)
    (texts : '\n' ∉ p.path.val ∧ '\n' ∉ p.sha256.val ∧ '\n' ∉ p.format.val) :
    Clean 8191 (packLine unit p) := by
  have digest : Plain p.sha256.val := plain_buffer _ texts.2.1
  have format : Plain p.format.val := plain_buffer _ texts.2.2
  have path : Plain p.path.val := plain_buffer _ texts.1
  have geometry : Graphic (decimal p.cylinders ++ ',' :: decimal p.heads ++ ',' :: decimal p.blocksPerTrack) :=
    by simp
  have numeral : ∀ {w : Nat} (x : BitVec w), Plain (decimal x) := fun x => (graphic_decimal x).plain
  rw [packLine_eq]
  refine entry_clean ⟨?_, ?_⟩ (by decide)
  · have number : (Nat.toDigits 10 unit.val).length ≤ 1 :=
      (Nat.length_toDigits_le_iff (by decide) (by decide)).mpr (Nat.lt_trans unit.isLt (by decide))
    have bytes := decimal_length p.bytes (by decide)
    have blocks := decimal_length p.blocks (by decide)
    have cylinders := decimal_length p.cylinders (by decide)
    have heads := decimal_length p.heads (by decide)
    have track := decimal_length p.blocksPerTrack (by decide)
    have answer : (yesNo p.readOnly).length ≤ 3 := by cases p.readOnly <;> decide
    have long := p.path.2.1
    have hash := p.sha256.2.1
    have kind := p.format.2.1
    unfold packRest
    split <;> simp only [assigned, List.length_append, List.length_cons, List.length_nil,
      String.reduceToList] <;> omega
  · unfold packRest
    simp only [List.forall_mem_append]
    refine ⟨plain_assigned (by decide) (graphic_toDigits_ten _).plain,
      plain_assigned (by decide) (numeral _), ?_,
      plain_assigned (by decide) (graphic_yesNo _).plain, plain_assigned (by decide) digest, by decide, path⟩
    split
    · exact plain_append.mpr ⟨plain_assigned (by decide) format, plain_assigned (by decide) (numeral _)⟩
    · exact plain_assigned (by decide) geometry.plain

theorem drive_has {unit : Fin bindUnits} {p : Pack} (drive : (unit, p) ∈ b.drives) :
    b.u unit = some p := by
  obtain ⟨other, _, is⟩ := List.mem_filterMap.mp drive
  obtain ⟨q, has, same⟩ := Option.map_eq_some_iff.mp is
  injection same with one two
  rw [← one, has, two]

theorem plain_if {t : Chars} {yes : Prop} [Decidable yes] (plain : yes → Plain t) :
    Plain (if yes then t else []) := by
  split
  · exact plain ‹_›
  · exact List.forall_mem_nil _

theorem resume_fits (texts : b.Texts) : Fits (bindResumeCommand b) := by
  have numeral : ∀ {w : Nat} (x : BitVec w), Plain (decimal x) := fun x => (graphic_decimal x).plain
  have marked : ∀ {t : Chars} (c : Char), c ≠ '\n' ∧ c ≠ '\x00' → Plain t → Plain (c :: t) :=
    fun c mark plain => List.forall_mem_cons.mpr ⟨mark, plain⟩
  have tick : Plain (" --microcycle-ns ".toList ++ decimal (b.syncK / 2#32) ++
      if b.syncK % 2#32 ≠ 0#32 then ".5".toList else []) :=
    plain_append.mpr ⟨plain_append.mpr ⟨by decide, numeral _⟩, plain_if fun _ => by decide⟩
  have size : Plain (" --video-size ".toList ++ decimal b.videoWidth ++ 'x' :: decimal b.videoHeight) :=
    plain_append.mpr ⟨plain_append.mpr ⟨by decide, numeral _⟩, marked _ (by decide) (numeral _)⟩
  have drives : Plain (b.drives.flatMap fun (unit, p) =>
      " --disk-pack ".toList ++ p.path.val ++ ',' :: Nat.toDigits 10 unit) := by
    intro c inside
    obtain ⟨⟨unit, p⟩, drive, inside⟩ := List.mem_flatMap.mp inside
    have path : Plain p.path.val := plain_buffer _ (texts.packs unit p (drive_has drive)).1
    exact plain_append.mpr ⟨plain_append.mpr ⟨by decide, path⟩,
      marked _ (by decide) (graphic_toDigits_ten _).plain⟩ c inside
  have ethernet : Plain (" --ethernet-mac ".toList ++ bindMacText b.ethMac ++ " --ip-address ".toList ++
      bindIpv4Text b.ethAddress ++ '/' :: Nat.toDigits 10 (prefixOf b.ethNetmask) ++
      " --ip-gateway ".toList ++ bindIpv4Text b.ethGateway) :=
    plain_append.mpr ⟨plain_append.mpr ⟨plain_append.mpr ⟨plain_append.mpr ⟨plain_append.mpr
      ⟨plain_append.mpr ⟨by decide, (graphic_mac _).plain⟩, by decide⟩, (graphic_ipv4 _).plain⟩,
      marked _ (by decide) (graphic_toDigits_ten _).plain⟩, by decide⟩, (graphic_ipv4 _).plain⟩
  refine ⟨Nat.le_trans (List.length_take_le _ _) (by decide), fun c inside => ?_⟩
  refine plain_append.mpr ⟨plain_append.mpr ⟨plain_append.mpr ⟨plain_append.mpr ⟨plain_append.mpr
    ⟨plain_append.mpr ⟨?_, drives⟩, plain_if fun _ => ?_⟩, plain_if fun _ => ?_⟩,
    plain_if fun _ => ethernet⟩, by decide⟩, plain_buffer _ texts.checkpoint⟩ c
    (List.mem_of_mem_take inside)
  · split
    · rename_i quux
      exact plain_append.mpr ⟨plain_append.mpr ⟨plain_append.mpr ⟨by decide, plain_if fun _ => tick⟩,
        plain_if fun _ => plain_append.mpr ⟨by decide, plain_buffer _ (texts.memoryTiming quux)⟩⟩,
        plain_if fun _ => size⟩
    · decide
  · exact plain_append.mpr ⟨by decide, numeral _⟩
  · exact plain_append.mpr ⟨by decide, (graphic_toDigits_eight _).plain⟩

theorem quuxLines_clean (texts : b.Texts) (quux : b.quux = true) : ∀ line ∈ quuxLines b, Clean 8191 line := by
  have size : Fits (decimal b.videoWidth ++ 'x' :: decimal b.videoHeight) := by
    have width := decimal_length b.videoWidth (by decide)
    have height := decimal_length b.videoHeight (by decide)
    refine ⟨?_, Graphic.plain (by simp)⟩
    simp only [List.length_append, List.length_cons]
    omega
  have address : Fits (bindIpv4Text b.ethAddress ++ '/' :: Nat.toDigits 10 (prefixOf b.ethNetmask)) := by
    have text := ipv4_length b.ethAddress
    have length := prefixOf_length b.ethNetmask
    refine ⟨?_, Graphic.plain (by simp)⟩
    simp only [List.length_append, List.length_cons]
    omega
  have gateway : Fits (bindIpv4Text b.ethGateway) :=
    ⟨Nat.le_trans (ipv4_length _) (by decide), (graphic_ipv4 _).plain⟩
  unfold quuxLines
  simp only [List.forall_mem_append]
  refine ⟨⟨⟨?_, ?_⟩, ?_⟩, ?_⟩
  · exact List.forall_mem_cons.mpr ⟨entry_clean (fits_decimal _ (by decide)) (by decide),
      List.forall_mem_singleton.mpr (entry_clean (fits_decimal _ (by decide)) (by decide))⟩
  · split
    · refine List.forall_mem_singleton.mpr (entry_clean ⟨?_, plain_buffer _ (texts.memoryTiming quux)⟩ (by decide))
      exact Nat.le_trans b.memoryTiming.2.1 (by decide)
    · exact List.forall_mem_nil _
  · split
    · exact List.forall_mem_singleton.mpr (entry_clean size (by decide))
    · exact List.forall_mem_nil _
  · split
    · exact List.forall_mem_cons.mpr ⟨entry_clean ⟨by simp [bindMacText, hexByte], (graphic_mac _).plain⟩
        (by decide), List.forall_mem_cons.mpr ⟨entry_clean address (by decide),
        List.forall_mem_singleton.mpr (entry_clean gateway (by decide))⟩⟩
    · exact List.forall_mem_nil _

theorem sidecar_clean (texts : b.Texts) : ∀ line ∈ sidecar b, Clean 8191 line := by
  have answer : ∀ yes, Fits (yesNo yes) := fun yes =>
    ⟨by cases yes <;> decide, (graphic_yesNo yes).plain⟩
  have memory : Clean 8191 (memoryLine b) := by
    unfold memoryLine
    split
    · exact entry_clean (fits_amount _) (by decide)
    · exact entry_clean (fits_decimal _ (by decide)) (by decide)
  have machine : Fits (if b.quux then "quux".toList else "cadr".toList) := by
    split <;> exact ⟨by decide, by decide⟩
  have stopped : Fits (if b.packsProgramStopped then "yes".toList else "unknown".toList) := by
    split <;> exact ⟨by decide, by decide⟩
  rw [sidecar_parts]
  unfold firstLines timeLines lastLines
  simp only [List.forall_mem_append, List.forall_mem_cons, List.not_mem_nil, false_implies, implies_true,
    and_true]
  refine ⟨⟨fun line inside => ⟨(comment_lines line inside).1, (comment_lines line inside).2.1⟩,
    entry_clean ⟨by decide, by decide⟩ (by decide),
    entry_clean (fits_buffer (by decide) texts.checkpoint) (by decide),
    entry_clean (fits_decimal _ (by decide)) (by decide),
    entry_clean (fits_buffer (by decide) texts.checkpointSha) (by decide),
    entry_clean (fits_buffer (by decide) texts.taken) (by decide),
    entry_clean ⟨by decide, by decide⟩ (by decide), entry_clean machine (by decide)⟩, memory,
    ⟨entry_clean (fits_decimal _ (by decide)) (by decide),
      entry_clean (fits_decimal _ (by decide)) (by decide)⟩, ?_, ?_,
    ⟨entry_clean (answer _) (by decide), entry_clean (answer _) (by decide),
      entry_clean stopped (by decide), entry_clean (fits_decimal _ (by decide)) (by decide)⟩, ?_,
    entry_clean (resume_fits texts) (by decide)⟩
  · split
    · rename_i quux
      exact quuxLines_clean texts quux
    · exact List.forall_mem_nil _
  · split
    · refine List.forall_mem_singleton.mpr (entry_clean (fits_digits (by decide) (by simp) ?_) (by decide))
      exact Nat.lt_of_lt_of_le b.chaosAddress.isLt (by decide)
    · exact List.forall_mem_nil _
  · intro line inside
    obtain ⟨⟨unit, p⟩, drive, rfl⟩ := List.mem_map.mp inside
    exact packLine_clean _ (texts.packs _ _ (drive_has drive))

theorem bindRead_lines (texts : b.Texts) :
    bindRead (bindWrite b) = (sidecar b).foldlM (fun r line => readLine (chomp line) r) unread >>= fun r =>
      if r.sawFormat then .ok r.b else .error .formatLine := by
  have lines : ∀ (list : List Chars) (r : Reading), (∀ line ∈ list, Clean 8191 line) →
      (list.map (· ++ ['\n'])).foldlM (fun r line => readLine (chomp (cString line)) r) r =
        list.foldlM (fun r line => readLine (chomp line) r) r := by
    intro list r clean
    rw [List.foldlM_map]
    induction list generalizing r with
    | nil => rfl
    | cons line list ih =>
      rw [List.foldlM_cons, List.foldlM_cons, chomp_line (clean line List.mem_cons_self)]
      exact bind_congr fun r' => ih r' fun other inside => clean other (List.mem_cons_of_mem line inside)
  have clean := sidecar_clean texts
  unfold bindRead bindWrite
  rw [fgets_written _ clean, lines _ _ clean]
  rfl

theorem bindRead_reads (texts : b.Texts) {b' : Binding} (reads : Reads (sidecar b) unread ⟨b', true⟩) :
    bindRead (bindWrite b) = .ok b' := by
  rw [bindRead_lines texts, reads]
  rfl

theorem bindRead_refused (texts : b.Texts) {front rest : List Chars} {line : Chars} {r : Reading}
    {e : Refusal} (parts : sidecar b = front ++ line :: rest) (first : Reads front unread r)
    (refused : readLine (chomp line) r = .error e) : bindRead (bindWrite b) = .error e := by
  unfold Reads at first
  have steps : (line :: rest).foldlM (fun r line => readLine (chomp line) r) r = .error e := by
    rw [List.foldlM_cons, refused]
    rfl
  rw [bindRead_lines texts, parts, List.foldlM_append, first]
  exact congrArg (· >>= _) steps

theorem memory_refused (texts : b.Texts) (quux : b.quux = true)
    (amount : amountUnits (roMainAmount b.boards) = none) :
    bindRead (bindWrite b) = .error (.mainMemorySize (roMainAmount b.boards)) := by
  refine bindRead_refused texts (sidecar_parts b) (reads_firstLines b) ?_
  rw [memoryLine, if_pos quux, readLine_entry 7 rfl, (graphic_amount _).chomp, readMainMemorySize, amount]

/-- The lines before QUUX's own. -/
def beforeQuux (b : Binding) : List Chars :=
  (comment.map String.toList ++ firstLines b) ++ memoryLine b :: (timeLines b ++
    [entry "revision" (decimal b.revision), entry "sync-cycle-ticks" (decimal b.syncK)])

theorem reads_beforeQuux (amount : b.quux = true → Amount b.boards) : ∃ r, Reads (beforeQuux b) unread r :=
  ⟨_, reads_append (reads_firstLines b) (reads_cons (reads_memory amount) (reads_append (reads_timeLines b _)
    (reads_cons (reads_revision b.revision) (reads_syncK b.syncK))))⟩

theorem timing_refused (texts : b.Texts) (quux : b.quux = true) (amount : Amount b.boards)
    (some_ : b.memoryTiming.val ≠ []) (unknown : chomp b.memoryTiming.val ∉ chkMemoryTimings) :
    bindRead (bindWrite b) = .error (.memoryTiming (chomp b.memoryTiming.val)) := by
  obtain ⟨r, first⟩ := reads_beforeQuux (b := b) fun _ => amount
  have parts : ∃ rest, sidecar b = beforeQuux b ++ entry "memory-timing" b.memoryTiming.val :: rest := by
    rw [sidecar_parts, if_pos quux, quuxLines, if_pos some_, beforeQuux]
    simp only [List.append_assoc, List.cons_append, List.nil_append]
    exact ⟨_, rfl⟩
  obtain ⟨rest, parts⟩ := parts
  refine bindRead_refused texts parts first ?_
  rw [readLine_entry 12 rfl, readMemoryTiming, if_pos unknown]

theorem video_refused (texts : b.Texts) (quux : b.quux = true) (amount : Amount b.boards)
    (none_ : b.memoryTiming.val = []) (width : b.videoWidth ≠ 0#32) (height : b.videoHeight = 0#32) :
    bindRead (bindWrite b) =
      .error (.videoSize (decimal b.videoWidth ++ 'x' :: decimal b.videoHeight)) := by
  obtain ⟨r, first⟩ := reads_beforeQuux (b := b) fun _ => amount
  have parts : ∃ rest, sidecar b = beforeQuux b ++
      entry "video-size" (decimal b.videoWidth ++ 'x' :: decimal b.videoHeight) :: rest := by
    rw [sidecar_parts, if_pos quux, quuxLines, if_neg (not_not.mpr none_), if_pos width, beforeQuux]
    simp only [List.append_assoc, List.cons_append, List.nil_append]
    exact ⟨_, rfl⟩
  obtain ⟨rest, parts⟩ := parts
  refine bindRead_refused texts parts first ?_
  rw [readLine_entry 13 rfl, Graphic.chomp (by simp), readVideoSize, sscanf_videoSize]
  exact if_pos (Or.inr height)

theorem chaos_refused (texts : b.Texts) (cadr : b.quux = false) (some_ : b.chaosAddress ≠ 0#32)
    (none_ : chkChaosAddress (Nat.toDigits 8 b.chaosAddress.toNat) = none) :
    bindRead (bindWrite b) = .error (.chaosAddress (Nat.toDigits 8 b.chaosAddress.toNat)) := by
  have memory : b.quux = true → Amount b.boards := fun quux => absurd quux (by rw [cadr]; decide)
  have first := reads_append (reads_firstLines b) (reads_cons (reads_memory memory) (reads_timeLines b _))
  have parts : ∃ rest, sidecar b = ((comment.map String.toList ++ firstLines b) ++ memoryLine b ::
      timeLines b) ++ entry "chaos-address" (Nat.toDigits 8 b.chaosAddress.toNat) :: rest := by
    rw [sidecar_parts, if_neg (by rw [cadr]; decide), if_pos (by rw [cadr]; simpa using some_)]
    simp only [List.append_assoc, List.cons_append, List.nil_append]
    exact ⟨_, rfl⟩
  obtain ⟨rest, parts⟩ := parts
  refine bindRead_refused texts parts first ?_
  rw [readLine_entry 17 rfl, (graphic_toDigits_eight _).chomp, readChaosAddress, none_]

end Whole

/-- What is written is read: all that a sidecar has but how the packs were made to hold still. -/
theorem bindRead_bindWrite {b : Binding} (told : b.Told) : bindRead (bindWrite b) = .ok b.recorded :=
  bindRead_reads told.texts (reads_sidecar told)

local instance packCount : NeZero 8 := ⟨by decide⟩

/-- A pack named with a space and an equals sign. -/
def onePack : Binding where
  __ := bindInit
  u := fun unit => if unit = 3 then
    some ⟨snprintf 1023 "./pack a=b.img".toList, 77, snprintf 64 "0f".toList, 815, 19, 17, .empty, 0, true⟩
    else none
  present := 1
  boards := 32

/-- A pack whose path has a space and an equals sign comes back. -/
theorem bindRead_bindWrite_one : bindRead (bindWrite onePack) = .ok onePack.recorded := by
  have is : ∀ unit p, onePack.u unit = some p → p = ⟨snprintf 1023 "./pack a=b.img".toList, 77,
      snprintf 64 "0f".toList, 815, 19, 17, .empty, 0, true⟩ := by
    intro unit p has
    unfold onePack at has
    dsimp only at has
    split at has
    · exact (Option.some.inj has).symm
    · exact nomatch has
  refine bindRead_bindWrite ⟨⟨fun unit p has => ?_, by decide, by decide, by decide, fun _ => by decide⟩,
    fun unit p has => ?_, fun quux => (nomatch quux), fun quux => (nomatch quux), fun quux => (nomatch quux),
    fun quux => (nomatch quux), fun _ some_ => absurd rfl some_⟩
  · rw [is unit p has]
    decide
  · rw [is unit p has]
    exact ⟨by decide, by decide, by decide, fun _ => by decide, fun some_ => absurd rfl some_⟩

/-- How the packs were made to hold still is not read back, and a text loses the carriage return it ends
with; and an amount of kilowords past 32 bits, a timing of no preset, a screen of no height and an address
of one half are refused. -/
theorem sidecar_lost :
    (∃ b, bindRead (bindWrite { bindInit with
        machineHaltedFirst := true, packsProgramStopped := true, taken := snprintf 63 "a\r".toList }) = .ok b ∧
      b.machineHaltedFirst = false ∧ b.packsProgramStopped = false ∧ b.taken.val = "a".toList) ∧
    (∃ e, bindRead (bindWrite { bindInit with quux := true, boards := 0x4000001 }) = .error e) ∧
    (∃ e, bindRead (bindWrite { bindInit with
      quux := true, memoryTiming := snprintf 7 "fast".toList }) = .error e) ∧
    (∃ e, bindRead (bindWrite { bindInit with quux := true, videoWidth := 1280 }) = .error e) ∧
    ∃ e, bindRead (bindWrite { bindInit with chaosAddress := 0o177 }) = .error e := by
  refine ⟨⟨_, bindRead_reads ?_ (reads_sidecar ?_), rfl, rfl, by decide⟩,
    ⟨_, memory_refused ?_ rfl (by decide)⟩, ⟨_, timing_refused ?_ rfl (Or.inl (by decide)) (by decide) (by decide)⟩,
    ⟨_, video_refused ?_ rfl (Or.inl (by decide)) rfl (by decide) rfl⟩,
    ⟨_, chaos_refused ?_ rfl (by decide) (by decide)⟩⟩
  · exact ⟨fun _ _ has => (nomatch has), by decide, by decide, by decide, fun _ => by decide⟩
  · exact ⟨⟨fun _ _ has => (nomatch has), by decide, by decide, by decide, fun _ => by decide⟩,
      fun _ _ has => (nomatch has), fun quux => (nomatch quux), fun quux => (nomatch quux),
      fun quux => (nomatch quux), fun quux => (nomatch quux), fun _ some_ => absurd rfl some_⟩
  all_goals exact ⟨fun _ _ has => (nomatch has), by decide, by decide, by decide, fun _ => by decide⟩

end MuirFpga.Checkpoint
