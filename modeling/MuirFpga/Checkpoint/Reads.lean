import MuirFpga.Checkpoint.Values
import Mathlib.Data.Fintype.Basic
import Mathlib.Tactic.FinCases

/-!
# The lines of a sidecar, read

What `bind_read` does at each line that `bind_write` prints.
-/

namespace MuirFpga.Checkpoint

open MuirFpga.Text

section Lines

/-- A text of no line's end and no string's end. -/
abbrev Plain (t : Chars) : Prop := ∀ c ∈ t, c ≠ '\n' ∧ c ≠ '\x00'

-- Before a search through all the characters.
instance (t : Chars) (x y : Char) : Decidable (∀ c ∈ t, c ≠ x ∧ c ≠ y) := List.decidableBAll _ t

/-- A text of characters past the blank. -/
def Graphic (t : Chars) : Prop := ∀ c ∈ t, 32 < c.toNat

variable {s t : Chars}

@[simp] theorem graphic_nil : Graphic [] := fun _ inside => nomatch inside

@[simp] theorem graphic_cons (c : Char) : Graphic (c :: t) ↔ 32 < c.toNat ∧ Graphic t :=
  List.forall_mem_cons

@[simp] theorem graphic_append : Graphic (s ++ t) ↔ Graphic s ∧ Graphic t := List.forall_mem_append

theorem Graphic.apart (graphic : Graphic t) {c : Char} (low : ¬ 32 < c.toNat) : c ∉ t :=
  fun inside => low (graphic c inside)

theorem Graphic.plain (graphic : Graphic t) : Plain t := by
  intro c inside
  constructor <;> rintro rfl <;> exact absurd inside (graphic.apart (by decide))

theorem Graphic.chomp (graphic : Graphic t) : chomp t = t := by
  refine chomp_self fun c last => ?_
  have inside := List.mem_of_getLast? last
  constructor <;> rintro rfl <;> exact absurd inside (graphic.apart (by decide))

theorem graphic_digit {c : Char} (digit : digitVal c < 16) : 32 < c.toNat := by
  by_contra low
  have apart : ∀ n ≤ 32, digitVal (Char.ofNat n) = 16 := by decide
  have none_ := apart c.toNat (by omega)
  rw [Char.ofNat_toNat] at none_
  omega

@[simp] theorem graphic_toDigits_ten (n : Nat) : Graphic (Nat.toDigits 10 n) := fun c inside =>
  graphic_digit (Nat.lt_of_lt_of_le (toDigits_digits (by decide) (by decide) n c inside) (by decide))

@[simp] theorem graphic_toDigits_eight (n : Nat) : Graphic (Nat.toDigits 8 n) := fun c inside =>
  graphic_digit (Nat.lt_of_lt_of_le (toDigits_digits (by decide) (by decide) n c inside) (by decide))

@[simp] theorem graphic_decimal {w : Nat} (x : BitVec w) : Graphic (decimal x) := graphic_toDigits_ten _

@[simp] theorem graphic_hexByte (x : BitVec 8) : Graphic (hexByte x) := fun c inside =>
  graphic_digit (hexByte_digits x c inside)

@[simp] theorem graphic_yesNo (answer : Bool) : Graphic (yesNo answer) := by
  cases answer <;> simp [yesNo]

@[simp] theorem graphic_ipv4 (a : BitVec 32) : Graphic (bindIpv4Text a) := by
  simp [bindIpv4Text]

@[simp] theorem graphic_mac (mac : Fin 6 → BitVec 8) : Graphic (bindMacText mac) := by
  simp [bindMacText]

@[simp] theorem graphic_amount (units : BitVec 32) : Graphic (roMainAmount units) := by
  unfold roMainAmount
  split <;> simp

theorem plain_buffer {n : Nat} (b : Buffer n) (one : '\n' ∉ b.val) : Plain b.val := fun _ inside =>
  ⟨fun newline => one (newline ▸ inside), fun zero => b.2.2 (zero ▸ inside)⟩

end Lines

section Reads

/-- Lines that take a reading to another. -/
def Reads (lines : List Chars) (r r' : Reading) : Prop :=
  lines.foldlM (fun r line => readLine (chomp line) r) r = .ok r'

variable {r r₁ r' : Reading} {line : Chars} {lines more : List Chars}

theorem reads_nil : Reads [] r r := rfl

theorem reads_append (first : Reads lines r r₁) (then_ : Reads more r₁ r') : Reads (lines ++ more) r r' := by
  unfold Reads at first then_ ⊢
  rw [List.foldlM_append, first]
  exact then_

theorem reads_cons (first : Reads [line] r r₁) (then_ : Reads more r₁ r') : Reads (line :: more) r r' :=
  reads_append first then_

theorem branches_keys : ∀ key ∈ branches.map Prod.fst,
    ':' ∉ key.toList ∧ key.toList.head? ≠ some '#' ∧ key.toList ≠ [] := by decide

theorem branches_once : (branches.map Prod.fst).Nodup := by decide

theorem branches_plain : ∀ branch ∈ branches, ':' ∉ branch.1.toList := fun branch inside =>
  (branches_keys branch.1 (List.mem_map_of_mem inside)).1

theorem readLine_keyed {key : String} (head : key.toList.head? ≠ some '#') (some_ : key.toList ≠ [])
    (val : Chars) (r : Reading) :
    readLine (chomp (entry key val)) r =
      match branches.findSome? fun branch => (field (entry key (chomp val)) branch.1).map branch.2 with
      | some read => read r
      | none => .ok r := by
  have chomped : chomp (entry key val) = entry key (chomp val) := by
    have parts : entry key val = (key.toList ++ [':']) ++ ' ' :: val := by simp [entry]
    rw [parts, chomp_mark _ (by decide)]
    simp [entry]
  obtain ⟨c, more, spelt⟩ := List.exists_cons_of_ne_nil some_
  have first : (entry key (chomp val)).head? ≠ some '#' := by
    rw [entry, spelt]
    rwa [spelt] at head
  rw [chomped, readLine]
  exact if_neg (not_or.mpr ⟨first, by simp [entry]⟩)

theorem readLine_entry (i : Nat) {key : String} {read : Chars → Read} (at_ : branches[i]? = some (key, read))
    (val : Chars) (r : Reading) : readLine (chomp (entry key val)) r = read (chomp val) r := by
  have inside := List.mem_of_getElem? at_
  obtain ⟨_, head, some_⟩ := branches_keys key (List.mem_map_of_mem (f := Prod.fst) inside)
  rw [readLine_keyed head some_, branch_taken branches branches_plain branches_once inside]

theorem reads_other {key : String} (colon : ':' ∉ key.toList) (head : key.toList.head? ≠ some '#')
    (some_ : key.toList ≠ []) (absent : key ∉ branches.map Prod.fst) (val : Chars) (r : Reading) :
    Reads [entry key val] r r := by
  unfold Reads
  rw [List.foldlM_cons, readLine_keyed head some_, branch_none branches colon branches_plain absent]
  rfl

theorem reads_value (i : Nat) {key : String} {read : Chars → Read} (at_ : branches[i]? = some (key, read))
    {val : Chars} (does : read (chomp val) r = .ok r') : Reads [entry key val] r r' := by
  unfold Reads
  rw [List.foldlM_cons, readLine_entry i at_, does]
  rfl

theorem reads_entry (i : Nat) {key : String} {read : Chars → Read} (at_ : branches[i]? = some (key, read))
    {val : Chars} (whole : chomp val = val) (does : read val r = .ok r') : Reads [entry key val] r r' :=
  reads_value i at_ (whole.symm ▸ does)

end Reads

section Parts

variable {r : Reading}

theorem comment_lines : ∀ line ∈ comment.map String.toList,
    line.length < 8191 ∧ Plain line ∧ ((chomp line).head? = some '#' ∨ chomp line = []) := by
  simp only [comment, List.map_cons, List.map_nil]
  -- A literal's characters, without its bytes.
  repeat rw [String.toList_ofList]
  decide

theorem reads_comment (r : Reading) : Reads (comment.map String.toList) r r := by
  have passed := fun line inside => (comment_lines line inside).2.2
  generalize comment.map String.toList = lines at passed
  induction lines with
  | nil => exact reads_nil
  | cons line lines ih =>
    refine reads_cons ?_ (ih fun other inside => passed other (List.mem_cons_of_mem line inside))
    have skipped : readLine (chomp line) r = .ok r := if_pos (passed line List.mem_cons_self)
    unfold Reads
    rw [List.foldlM_cons, skipped]
    rfl

theorem reads_format (r : Reading) :
    Reads [entry "format" "cadr-checkpoint-packs 1".toList] r { r with sawFormat := true } :=
  reads_entry 0 rfl (by decide) rfl

theorem reads_checkpoint (checkpoint : Buffer 511) :
    Reads [entry "checkpoint" checkpoint.val] r { r with b := { r.b with checkpoint := checkpoint.chomped } } := by
  refine reads_value 1 rfl ?_
  exact congrArg (fun text => Except.ok { r with b := { r.b with checkpoint := text } }) (snprintf_self checkpoint.chomped)

theorem reads_checkpointSha (sha : Buffer 64) :
    Reads [entry "checkpoint-sha256" sha.val] r { r with b := { r.b with checkpointSha := sha.chomped } } := by
  refine reads_value 2 rfl ?_
  exact congrArg (fun text => Except.ok { r with b := { r.b with checkpointSha := text } }) (snprintf_self sha.chomped)

theorem reads_checkpointBytes (n : BitVec 64) :
    Reads [entry "checkpoint-bytes" (decimal n)] r { r with b := { r.b with checkpointBytes := n } } := by
  refine reads_entry 3 rfl (graphic_decimal n).chomp ?_
  rw [sets, decimal, strtoul_printed]

theorem reads_taken (taken : Buffer 63) :
    Reads [entry "taken" taken.val] r { r with b := { r.b with taken := taken.chomped } } := by
  refine reads_value 4 rfl ?_
  exact congrArg (fun text => Except.ok { r with b := { r.b with taken := text } }) (snprintf_self taken.chomped)

theorem reads_machine (quux : Bool) :
    Reads [entry "machine" (if quux then "quux".toList else "cadr".toList)] r
      { r with b := { r.b with quux := quux } } := by
  cases quux <;> exact reads_entry 5 rfl (by decide) rfl

theorem reads_memory {quux : Bool} {units : BitVec 32} (amount : quux = true → Amount units) :
    Reads [if quux then entry "main-memory-size" (roMainAmount units) else entry "boards" (decimal units)] r
      { r with b := { r.b with boards := units } } := by
  cases quux with
  | true =>
    refine reads_entry 7 rfl (graphic_amount units).chomp ?_
    rw [readMainMemorySize, amountUnits_printed (amount rfl)]
  | false =>
    refine reads_entry 6 rfl (graphic_decimal units).chomp ?_
    rw [sets, decimal, strtoul_printed]

theorem reads_microcycles (n : BitVec 64) :
    Reads [entry "microcycles" (decimal n)] r { r with b := { r.b with microcycles := n } } := by
  refine reads_entry 8 rfl (graphic_decimal n).chomp ?_
  rw [sets, decimal, strtoul_printed]

theorem reads_ns (n : BitVec 64) : Reads [entry "ns" (decimal n)] r { r with b := { r.b with ns := n } } := by
  refine reads_entry 9 rfl (graphic_decimal n).chomp ?_
  rw [sets, decimal, strtoul_printed]

theorem reads_revision (n : BitVec 32) :
    Reads [entry "revision" (decimal n)] r { r with b := { r.b with revision := n } } := by
  refine reads_entry 10 rfl (graphic_decimal n).chomp ?_
  rw [sets, decimal, strtoul_printed]

theorem reads_syncK (n : BitVec 32) :
    Reads [entry "sync-cycle-ticks" (decimal n)] r { r with b := { r.b with syncK := n } } := by
  refine reads_entry 11 rfl (graphic_decimal n).chomp ?_
  rw [sets, decimal, strtoul_printed]

theorem reads_running (running : Bool) :
    Reads [entry "running" (yesNo running)] r { r with b := { r.b with running := some running } } := by
  cases running <;> exact reads_entry 18 rfl (by decide) rfl

theorem reads_memoryTiming {timing : Buffer 7} (known : timing.val ≠ [] → timing.val ∈ chkMemoryTimings)
    (fresh : r.b.memoryTiming = .empty) :
    Reads (if timing.val ≠ [] then [entry "memory-timing" timing.val] else []) r
      { r with b := { r.b with memoryTiming := timing } } := by
  split
  · rename_i some_
    have spelt := known some_
    have whole : chomp timing.val = timing.val := by
      have all : ∀ name ∈ chkMemoryTimings, chomp name = name := by decide
      exact all _ spelt
    refine reads_entry 12 rfl whole ?_
    rw [readMemoryTiming, if_neg (not_not.mpr spelt), snprintf_self]
  · rename_i none_
    have same : timing = r.b.memoryTiming := by
      rw [fresh]
      exact Subtype.ext (not_not.mp none_)
    rw [same]
    exact reads_nil

theorem sscanf_videoSize (width height : BitVec 32) :
    sscanf [.number 10 none, .literal 'x', .number 10 none] (decimal width ++ 'x' :: decimal height) =
      [width, height] := by
  have ends : Ends 10 ('x' :: decimal height) := ends_char (by decide)
  have last := sscanf_printed height [] ends_nil
  rw [List.append_nil] at last
  rw [decimal, sscanf_printed width _ ends, sscanf_literal, decimal, last]
  rfl

theorem reads_videoSize {width height : BitVec 32} (whole : width ≠ 0#32 → height ≠ 0#32)
    (fresh : r.b.videoWidth = 0#32) (fresh' : r.b.videoHeight = 0#32) :
    Reads (if width ≠ 0#32 then [entry "video-size" (decimal width ++ 'x' :: decimal height)] else []) r
      { r with b := { r.b with
        videoWidth := width, videoHeight := if width ≠ 0#32 then height else 0#32 } } := by
  by_cases some_ : width ≠ 0#32
  · rw [if_pos some_, if_pos some_]
    refine reads_entry 13 rfl (Graphic.chomp (by simp)) ?_
    rw [readVideoSize, sscanf_videoSize]
    exact if_neg (not_or.mpr ⟨some_, whole some_⟩)
  · rw [if_neg some_, if_neg some_, not_not.mp some_]
    obtain ⟨b, saw⟩ := r
    cases b
    dsimp only at fresh fresh'
    subst fresh fresh'
    exact reads_nil

theorem reads_ethernetMac (mac : Fin 6 → BitVec 8) :
    Reads [entry "ethernet-mac" (bindMacText mac)] r { r with b := { r.b with ethMac := mac, eth := true } } := by
  refine reads_entry 14 rfl (graphic_mac mac).chomp ?_
  have last := sscanf_hexByte (mac 5) [] []
  rw [List.append_nil] at last
  unfold readEthernetMac bindMacText
  dsimp only
  simp only [List.append_assoc, List.cons_append]
  rw [sscanf_hexByte, sscanf_literal, sscanf_hexByte, sscanf_literal, sscanf_hexByte, sscanf_literal,
    sscanf_hexByte, sscanf_literal, sscanf_hexByte, sscanf_literal, last]
  have bytes : (fun k : Fin 6 => (([(mac 0).setWidth 32, (mac 1).setWidth 32, (mac 2).setWidth 32,
      (mac 3).setWidth 32, (mac 4).setWidth 32, (mac 5).setWidth 32].getD k 0#32).setWidth 8)) = mac := by
    funext k
    fin_cases k <;> exact (BitVec.setWidth_setWidth_of_le (mac _) (by decide)).trans (BitVec.setWidth_eq _)
  exact congrArg (fun mac => Except.ok { r with b := { r.b with ethMac := mac, eth := true } }) bytes

theorem ipv4_byte (a : BitVec 32) : ¬ a >>> 24 > 255#32 ∧ ¬ (a >>> 16) &&& 0xFF#32 > 255#32 ∧
    ¬ (a >>> 8) &&& 0xFF#32 > 255#32 ∧ ¬ a &&& 0xFF#32 > 255#32 := by
  have masked : ∀ x : BitVec 32, ¬ x &&& 0xFF#32 > 255#32 := fun x => by
    rw [gt_iff_lt, BitVec.not_lt, BitVec.le_def, BitVec.toNat_and]
    exact Nat.and_le_right
  refine ⟨?_, masked _, masked _, masked _⟩
  have less := a.isLt
  rw [gt_iff_lt, BitVec.not_lt, BitVec.le_def, BitVec.toNat_ushiftRight, Nat.shiftRight_eq_div_pow]
  show a.toNat / 2 ^ 24 ≤ 255
  omega

theorem reads_ipGateway (a : BitVec 32) :
    Reads [entry "ip-gateway" (bindIpv4Text a)] r { r with b := { r.b with ethGateway := a, eth := true } } := by
  refine reads_entry 16 rfl (graphic_ipv4 a).chomp ?_
  obtain ⟨q0, q1, q2, q3⟩ := ipv4_byte a
  have scanned := sscanf_ipv4 a [] ends_nil
  rw [List.append_nil, List.append_nil] at scanned
  unfold readIpv4
  simp only [if_true, scanned]
  simp [sscanf, q0, q1, q2, q3, ipv4_bytes]

theorem reads_ipAddress (a : BitVec 32) {mask : BitVec 32} {len : Nat} (least : 1 ≤ len) (most : len ≤ 32)
    (is : mask = netmask len) :
    Reads [entry "ip-address" (bindIpv4Text a ++ '/' :: Nat.toDigits 10 (prefixOf mask))] r
      { r with b := { r.b with ethAddress := a, ethNetmask := mask, eth := true } } := by
  refine reads_entry 15 rfl (Graphic.chomp (by simp)) ?_
  obtain ⟨q0, q1, q2, q3⟩ := ipv4_byte a
  have length : (BitVec.ofNat 32 len).toNat = len := Nat.mod_eq_of_lt (by omega)
  have last := sscanf_printed (BitVec.ofNat 32 len) [] ends_nil
  rw [List.append_nil, length] at last
  have slash : Ends 10 ('/' :: Nat.toDigits 10 len) := ends_char (by decide)
  have scanned := sscanf_ipv4 a [.literal '/', .number 10 none] slash
  rw [sscanf_literal, last] at scanned
  have low : ¬ BitVec.ofNat 32 len < 1#32 := by
    rw [BitVec.lt_def, length]
    exact Nat.not_lt.mpr least
  have high : ¬ BitVec.ofNat 32 len > 32#32 := by
    rw [gt_iff_lt, BitVec.lt_def, length]
    exact Nat.not_lt.mpr most
  have masked : (if BitVec.ofNat 32 len = 32#32 then 0xFFFFFFFF#32
      else ~~~(0xFFFFFFFF#32 >>> (BitVec.ofNat 32 len).toNat)) = netmask len := by
    have same : BitVec.ofNat 32 len = 32#32 ↔ len = 32 := by
      rw [← BitVec.toNat_inj, length]
      rfl
    simp only [netmask, same, length]
  rw [is, prefixOf_netmask len most]
  unfold readIpv4
  simp only [Bool.false_eq_true, if_false, scanned]
  simp only [sscanf, List.cons_append, List.nil_append, List.length_cons, List.length_nil,
    List.getD_cons_zero, List.getD_cons_succ, q0, q1, q2, q3, low, high, or_self, ipv4_bytes, masked]
  simp

theorem reads_chaosAddress {quux : Bool} {a : BitVec 32}
    (whole : quux = false → a ≠ 0#32 → ChaosAddress a) (fresh : r.b.chaosAddress = 0#32) :
    Reads (if !quux && a != 0#32 then [entry "chaos-address" (Nat.toDigits 8 a.toNat)] else []) r
      { r with b := { r.b with chaosAddress := if quux then 0#32 else a } } := by
  have same : Reads [] r { r with b := { r.b with chaosAddress := 0#32 } } := by
    obtain ⟨b, saw⟩ := r
    cases b
    dsimp only at fresh
    subst fresh
    exact reads_nil
  cases quux with
  | true => exact same
  | false =>
    by_cases some_ : a = 0#32
    · subst some_
      exact same
    · rw [if_pos (by simpa using some_), if_neg (by decide)]
      refine reads_entry 17 rfl (graphic_toDigits_eight _).chomp ?_
      rw [readChaosAddress, chkChaosAddress_printed (whole rfl some_)]

end Parts

/-- A pack whose line tells what it is: its path has, after a space, no name of a field that its line
leaves out. -/
structure Pack.Told (p : Pack) : Prop where
  path : '\n' ∉ p.path.val
  digest : ∀ c ∈ p.sha256.val, c ≠ '\n' ∧ c ≠ ' '
  format : ∀ c ∈ p.format.val, c ≠ '\n' ∧ c ≠ ' '
  blocks : p.format.val = [] → ¬ " format=".toList <:+: p.path.val ∧ ¬ " blocks=".toList <:+: p.path.val
  geometry : p.format.val ≠ [] → ¬ " geometry=".toList <:+: p.path.val

/-- What a pack's line has of it: a format and its blocks, or a geometry. -/
def Pack.kept (p : Pack) : Pack :=
  if p.format.val = [] then { p with blocks := 0 }
  else { p with cylinders := 0, heads := 0, blocksPerTrack := 0 }

def Pack.chomped (p : Pack) : Pack := { p with path := p.path.chomped }

/-- What is read of a pack. -/
def Pack.recorded (p : Pack) : Pack := p.chomped.kept

section Packs

variable {p : Pack}

theorem decimal_length {w : Nat} (x : BitVec w) (most : w ≤ 64) : (decimal x).length ≤ 20 := by
  refine (Nat.length_toDigits_le_iff (by decide) (by decide)).mpr (Nat.lt_of_lt_of_le x.isLt ?_)
  exact Nat.le_trans (Nat.pow_le_pow_right (by decide) most) (by decide)

theorem spaceless {t : Chars} (graphic : Graphic t) : ' ' ∉ t := graphic.apart (by decide)

/-- The rest of a pack's line, after its key. -/
def packRest (unit : Fin bindUnits) (p : Pack) : Chars :=
  assigned "unit" (Nat.toDigits 10 unit) ++ (assigned "bytes" (decimal p.bytes) ++
    ((if p.format.val ≠ [] then
      assigned "format" p.format.val ++ assigned "blocks" (decimal p.blocks)
    else assigned "geometry"
      (decimal p.cylinders ++ ',' :: decimal p.heads ++ ',' :: decimal p.blocksPerTrack)) ++
    (assigned "read-only" (yesNo p.readOnly) ++ (assigned "sha256" p.sha256.val ++
    ("file=".toList ++ p.path.val)))))

theorem packLine_eq (unit : Fin bindUnits) (p : Pack) : packLine unit p = entry "pack" (packRest unit p) := by
  unfold packLine packRest
  simp only [List.append_assoc]

theorem sscanf_geometry (c h b : BitVec 32) :
    sscanf [.number 10 none, .literal ',', .number 10 none, .literal ',', .number 10 none]
      (decimal c ++ ',' :: decimal h ++ ',' :: decimal b) = [c, h, b] := by
  have comma : ∀ rest, Ends 10 (',' :: rest) := fun rest => ends_char (by decide)
  have last := sscanf_printed b [] ends_nil
  rw [List.append_nil] at last
  unfold decimal
  rw [List.append_assoc, List.cons_append, sscanf_printed _ _ (comma _), sscanf_literal,
    sscanf_printed _ _ (comma _), sscanf_literal, last]
  rfl

theorem yesNo_read (answer : Bool) : decide (some (yesNo answer) = some "yes".toList) = answer := by
  cases answer <;> decide

variable (unit : Fin bindUnits)

theorem readFields_geometry (told : p.Told) (none_ : p.format.val = []) :
    readFields (packRest unit p) p.path p.sha256 = p.kept := by
  have digits : ' ' ∉ Nat.toDigits 10 unit.val := spaceless (graphic_toDigits_ten _)
  have bytes : ' ' ∉ decimal p.bytes := spaceless (graphic_decimal _)
  have digest : ' ' ∉ p.sha256.val := fun inside => (told.digest _ inside).2 rfl
  have answer : ' ' ∉ yesNo p.readOnly := spaceless (graphic_yesNo _)
  have geometry : Graphic (decimal p.cylinders ++ ',' :: decimal p.heads ++ ',' :: decimal p.blocksPerTrack) :=
    by simp
  have short : (decimal p.cylinders ++ ',' :: decimal p.heads ++ ',' :: decimal p.blocksPerTrack).length <
      1024 := by
    have c := decimal_length p.cylinders (by decide)
    have h := decimal_length p.heads (by decide)
    have b := decimal_length p.blocksPerTrack (by decide)
    simp only [List.length_append, List.length_cons]
    omega
  have line : packRest unit p = assigned "unit" (Nat.toDigits 10 unit) ++ (assigned "bytes" (decimal p.bytes) ++
      (assigned "geometry"
        (decimal p.cylinders ++ ',' :: decimal p.heads ++ ',' :: decimal p.blocksPerTrack) ++
      (assigned "read-only" (yesNo p.readOnly) ++ (assigned "sha256" p.sha256.val ++
      ("file=".toList ++ p.path.val))))) := by
    rw [packRest, if_neg (not_not.mpr none_)]
  have hasBytes : subfield "bytes".toList 1024 (packRest unit p) = some (decimal p.bytes) := by
    rw [line, subfield_skip (by decide) digits, subfield_found (by decide) bytes
      (Nat.lt_of_le_of_lt (decimal_length _ (by decide)) (by decide))]
  have hasGeometry : subfield "geometry".toList 1024 (packRest unit p) =
      some (decimal p.cylinders ++ ',' :: decimal p.heads ++ ',' :: decimal p.blocksPerTrack) := by
    rw [line, subfield_skip (by decide) digits, subfield_skip (by decide) bytes,
      subfield_found (by decide) (spaceless geometry) short]
  have hasReadOnly : subfield "read-only".toList 1024 (packRest unit p) = some (yesNo p.readOnly) := by
    rw [line, subfield_skip (by decide) digits, subfield_skip (by decide) bytes,
      subfield_skip (by decide) (spaceless geometry), subfield_found (by decide) answer
      (by cases p.readOnly <;> decide)]
  have none' : ∀ name : String, name.toList ≠ "file".toList → Apart name "unit" → Apart name "bytes" → Apart name "geometry" →
      Apart name "read-only" → Apart name "sha256" → ¬ ' ' :: (name.toList ++ ['=']) <:+: p.path.val →
      subfield name.toList 1024 (packRest unit p) = none := by
    intro name file one two three four five stray
    rw [line, subfield_skip one digits, subfield_skip two bytes, subfield_skip three (spaceless geometry),
      subfield_skip four answer, subfield_skip five digest, subfield_stray file one.1 stray]
  have hasFormat := none' "format" (by decide) (by decide) (by decide) (by decide) (by decide) (by decide)
    (told.blocks none_).1
  have hasBlocks := none' "blocks" (by decide) (by decide) (by decide) (by decide) (by decide) (by decide)
    (told.blocks none_).2
  have spelt : strtoul 64 (decimal p.bytes) = p.bytes := strtoul_printed p.bytes
  have empty : Buffer.empty = p.format := Subtype.ext none_.symm
  unfold readFields Pack.kept
  rw [if_pos none_]
  simp only [hasBytes, hasGeometry, hasReadOnly, hasFormat, hasBlocks, sscanf_geometry, Option.elim_some,
    Option.elim_none, spelt, empty, yesNo_read]
  rfl

theorem readFields_format (told : p.Told) (some_ : p.format.val ≠ []) :
    readFields (packRest unit p) p.path p.sha256 = p.kept := by
  have digits : ' ' ∉ Nat.toDigits 10 unit.val := spaceless (graphic_toDigits_ten _)
  have bytes : ' ' ∉ decimal p.bytes := spaceless (graphic_decimal _)
  have blocks : ' ' ∉ decimal p.blocks := spaceless (graphic_decimal _)
  have digest : ' ' ∉ p.sha256.val := fun inside => (told.digest _ inside).2 rfl
  have format : ' ' ∉ p.format.val := fun inside => (told.format _ inside).2 rfl
  have answer : ' ' ∉ yesNo p.readOnly := spaceless (graphic_yesNo _)
  have line : packRest unit p = assigned "unit" (Nat.toDigits 10 unit) ++ (assigned "bytes" (decimal p.bytes) ++
      (assigned "format" p.format.val ++ (assigned "blocks" (decimal p.blocks) ++
      (assigned "read-only" (yesNo p.readOnly) ++ (assigned "sha256" p.sha256.val ++
      ("file=".toList ++ p.path.val)))))) := by
    rw [packRest, if_pos some_, List.append_assoc]
  have hasBytes : subfield "bytes".toList 1024 (packRest unit p) = some (decimal p.bytes) := by
    rw [line, subfield_skip (by decide) digits, subfield_found (by decide) bytes
      (Nat.lt_of_le_of_lt (decimal_length _ (by decide)) (by decide))]
  have hasFormat : subfield "format".toList 1024 (packRest unit p) = some p.format.val := by
    rw [line, subfield_skip (by decide) digits, subfield_skip (by decide) bytes,
      subfield_found (by decide) format (Nat.lt_of_le_of_lt p.format.2.1 (by decide))]
  have hasBlocks : subfield "blocks".toList 1024 (packRest unit p) = some (decimal p.blocks) := by
    rw [line, subfield_skip (by decide) digits, subfield_skip (by decide) bytes,
      subfield_skip (by decide) format, subfield_found (by decide) blocks
      (Nat.lt_of_le_of_lt (decimal_length _ (by decide)) (by decide))]
  have hasReadOnly : subfield "read-only".toList 1024 (packRest unit p) = some (yesNo p.readOnly) := by
    rw [line, subfield_skip (by decide) digits, subfield_skip (by decide) bytes,
      subfield_skip (by decide) format, subfield_skip (by decide) blocks, subfield_found (by decide) answer
      (by cases p.readOnly <;> decide)]
  have stray : ¬ ' ' :: ("geometry".toList ++ ['=']) <:+: p.path.val := told.geometry some_
  have hasGeometry : subfield "geometry".toList 1024 (packRest unit p) = none := by
    rw [line, subfield_skip (by decide) digits, subfield_skip (by decide) bytes,
      subfield_skip (by decide) format, subfield_skip (by decide) blocks,
      subfield_skip (by decide) answer, subfield_skip (by decide) digest,
      subfield_stray (by decide) (by decide) stray]
  have spelt : strtoul 64 (decimal p.bytes) = p.bytes := strtoul_printed p.bytes
  have spelt' : strtoul 64 (decimal p.blocks) = p.blocks := strtoul_printed p.blocks
  unfold readFields Pack.kept
  rw [if_neg some_]
  simp only [hasBytes, hasGeometry, hasReadOnly, hasFormat, hasBlocks, Option.elim_some, spelt, spelt',
    snprintf_self, yesNo_read, List.getD_nil]

theorem readFields_rest (told : p.Told) : readFields (packRest unit p) p.path p.sha256 = p.kept := by
  by_cases none_ : p.format.val = []
  · exact readFields_geometry unit told none_
  · exact readFields_format unit told none_

theorem subfield_late {name : String} {size : Nat} (told : p.Told)
    (apart : ∀ key ∈ ["unit", "bytes", "format", "blocks", "geometry", "read-only"], Apart name key) :
    subfield name.toList size (packRest unit p) =
      subfield name.toList size (assigned "sha256" p.sha256.val ++ ("file=".toList ++ p.path.val)) := by
  have format : ' ' ∉ p.format.val := fun inside => (told.format _ inside).2 rfl
  have geometry : Graphic (decimal p.cylinders ++ ',' :: decimal p.heads ++ ',' :: decimal p.blocksPerTrack) :=
    by simp
  rw [packRest, subfield_skip (apart _ (by simp)) (spaceless (graphic_toDigits_ten _)),
    subfield_skip (apart _ (by simp)) (spaceless (graphic_decimal _))]
  split
  · rw [List.append_assoc, subfield_skip (apart _ (by simp)) format,
      subfield_skip (apart _ (by simp)) (spaceless (graphic_decimal _)),
      subfield_skip (apart _ (by simp)) (spaceless (graphic_yesNo _))]
  · rw [subfield_skip (apart _ (by simp)) (spaceless geometry),
      subfield_skip (apart _ (by simp)) (spaceless (graphic_yesNo _))]

theorem Pack.Told.chomped (told : p.Told) : p.chomped.Told := by
  have inside : chomp p.path.val <+: p.path.val := List.rdropWhile_prefix _ _
  exact ⟨fun newline => told.path (inside.subset newline), told.digest, told.format,
    fun none_ => ⟨fun stray => (told.blocks none_).1 (stray.trans inside.isInfix),
      fun stray => (told.blocks none_).2 (stray.trans inside.isInfix)⟩,
    fun some_ stray => told.geometry some_ (stray.trans inside.isInfix)⟩

theorem chomp_rest (unit : Fin bindUnits) (p : Pack) : chomp (packRest unit p) = packRest unit p.chomped := by
  have parts : ∀ q : Pack, packRest unit q = (assigned "unit" (Nat.toDigits 10 unit) ++
      assigned "bytes" (decimal q.bytes) ++
      (if q.format.val ≠ [] then
        assigned "format" q.format.val ++ assigned "blocks" (decimal q.blocks)
      else assigned "geometry"
        (decimal q.cylinders ++ ',' :: decimal q.heads ++ ',' :: decimal q.blocksPerTrack)) ++
      assigned "read-only" (yesNo q.readOnly) ++ assigned "sha256" q.sha256.val ++
      "file".toList) ++ '=' :: q.path.val := by
    intro q
    unfold packRest
    simp only [List.append_assoc]
    rfl
  rw [parts, parts, chomp_mark _ (by decide)]
  rfl

theorem subfield_ends (told : p.Told) :
    subfield "unit".toList 1024 (packRest unit p) = some (Nat.toDigits 10 unit) ∧
      subfield "sha256".toList 65 (packRest unit p) = some p.sha256.val ∧
      subfield "file".toList 1024 (packRest unit p) = some p.path.val := by
  have digest : ' ' ∉ p.sha256.val := fun inside => (told.digest _ inside).2 rfl
  have short : (Nat.toDigits 10 unit.val).length < 1024 :=
    Nat.lt_of_le_of_lt ((Nat.length_toDigits_le_iff (by decide) (by decide)).mpr
      (Nat.lt_trans unit.isLt (by decide : 8 < 10 ^ 1))) (by decide)
  refine ⟨?_, ?_, ?_⟩
  · rw [packRest, subfield_found (by decide) (spaceless (graphic_toDigits_ten _)) short]
  · rw [subfield_late unit told (by decide), subfield_found (by decide) digest (Nat.lt_succ_of_le p.sha256.2.1)]
  · rw [subfield_late unit told (by decide), subfield_skip (by decide) digest, subfield_file,
      if_neg (Nat.not_le.mpr (Nat.lt_succ_of_le p.path.2.1))]

theorem reads_pack (told : p.Told) (r : Reading) :
    Reads [packLine unit p] r { r with b := { r.b with
      u := Function.update r.b.u unit (some p.recorded), present := r.b.present + 1#32 } } := by
  obtain ⟨hasUnit, hasDigest, hasFile⟩ := subfield_ends unit told.chomped
  have number : (BitVec.ofNat 32 unit).toNat = unit.val :=
    Nat.mod_eq_of_lt (Nat.lt_trans unit.isLt (by decide))
  have spelt : strtoul 32 (Nat.toDigits 10 unit) = BitVec.ofNat 32 unit := by
    have printed := strtoul_printed (BitVec.ofNat 32 unit)
    rwa [number] at printed
  rw [packLine_eq]
  refine reads_value 19 rfl ?_
  rw [chomp_rest]
  unfold readPack
  simp only [hasUnit, hasFile, hasDigest, spelt, snprintf_self, readFields_rest unit told.chomped, number]
  rw [dif_pos unit.isLt]
  rfl

end Packs

end MuirFpga.Checkpoint
