import MuirFpga.Checkpoint.Binding

/-!
# The pack binding, read back

`bind_read` of `pack_bind.c`, with what it calls of `readout.c` and `chk_rtl.c`. `unsigned long` is the
board's, of 32 bits.
-/

namespace MuirFpga.Checkpoint

open MuirFpga.Text

/-- `field`: the rest of a line of a key. -/
def field (line : Chars) (key : String) : Option Chars :=
  if key.toList ++ [':', ' '] <+: line then some (line.drop (key.toList.length + 2)) else none

/-- `subfield`, into a buffer of so many characters. -/
def subfield (name : Chars) (size : Nat) (p : Chars) : Option Chars :=
  match p with
  | [] => none
  | c :: more =>
    let p := c :: more
    let word := p.takeWhile (· ≠ ' ')
    if name ++ ['='] <+: word then
      -- A file runs to the end of the line.
      let v := (if name = "file".toList then p else word).drop (name.length + 1)
      if size ≤ v.length then none else some v
    else subfield name size ((p.dropWhile (· ≠ ' ')).drop 1)
termination_by p.length
decreasing_by
  have shorter := (List.dropWhile_sublist (p := fun c => decide (c ≠ ' ')) (l := c :: more)).length_le
  have all : ((c :: more).dropWhile fun c => decide (c ≠ ' ')).length ≤ more.length + 1 := shorter
  simp only [List.length_drop, List.length_cons]
  omega

/-- What ends in a unit, without it, if it has the three characters at least. -/
def unitStripped (text unit : Chars) : Option Chars :=
  if text.length < 3 ∨ text.drop (text.length - 2) ≠ unit then none
  else some (text.take (text.length - 2))

/-- `ro_parse_megawords`. -/
def roParseMegawords (text : Chars) : Option (BitVec 32) := do
  let digits ← unitStripped text "MW".toList
  let mw ← bounded 10 (fun mw => mw * mwUnits ≤ 0xFFFFFFFF) digits
  some (BitVec.ofNat 32 (mw * mwUnits))

/-- `amount_units`. -/
def amountUnits (text : Chars) : Option (BitVec 32) :=
  match roParseMegawords text with
  | some units => some units
  | none => do
    let digits ← unitStripped text "KW".toList
    let kw ← bounded 10 (fun kw => kw ≤ 0xFFFFFFFF) digits
    if kw = 0 ∨ kw % boardKilowords ≠ 0 then none else some (BitVec.ofNat 32 (kw / boardKilowords))

/-- `chk_memory_timings`, the names. -/
def chkMemoryTimings : List Chars := ["kria".toList, "arty".toList, "de25".toList]

/-- `chk_chaos_address`. -/
def chkChaosAddress (s : Chars) : Option (BitVec 32) := do
  let first := s.takeWhile (· ≠ ':')
  let v ← bounded 8 (· ≤ 0o177777) first
  if first = [] then none
  let a ← if ':' ∈ s then
      let second := s.drop (first.length + 1)
      if 0o377 < v then none
      else do
        let h ← bounded 8 (· ≤ 0o377) second
        if second = [] then none else some (v * 256 + h)
    else some v
  if a / 256 = 0 ∨ a % 256 = 0 then none else some (BitVec.ofNat 32 a)

/-- Why a sidecar is refused. -/
inductive Refusal where
  | format (v : Chars)
  | machine (v : Chars)
  | mainMemorySize (v : Chars)
  | memoryTiming (v : Chars)
  | videoSize (v : Chars)
  | ethernetMac (v : Chars)
  | ipv4 (v : Chars) (gateway : Bool)
  | chaosAddress (v : Chars)
  | packUnit
  | unitRange (u : BitVec 32)
  | packFile (u : BitVec 32)
  | formatLine

/-- What is read so far, and `saw_format`. -/
structure Reading where
  b : Binding
  sawFormat : Bool

abbrev Read := Reading → Except Refusal Reading

/-- A line that only sets fields. -/
def sets (set : Chars → Binding → Binding) (v : Chars) : Read := fun r => .ok { r with b := set v r.b }

def readFormat (v : Chars) : Read := fun r =>
  if v ≠ "cadr-checkpoint-packs 1".toList then .error (.format v) else .ok { r with sawFormat := true }

def readMachine (v : Chars) : Read := fun r =>
  if v ≠ "quux".toList ∧ v ≠ "cadr".toList then .error (.machine v)
  else .ok { r with b := { r.b with quux := v = "quux".toList } }

def readMainMemorySize (v : Chars) : Read := fun r =>
  match amountUnits v with
  | none => .error (.mainMemorySize v)
  | some units => .ok { r with b := { r.b with boards := units } }

def readMemoryTiming (v : Chars) : Read := fun r =>
  if v ∉ chkMemoryTimings then .error (.memoryTiming v)
  else .ok { r with b := { r.b with memoryTiming := snprintf 7 v } }

def readVideoSize (v : Chars) : Read := fun r =>
  match sscanf [.number 10 none, .literal 'x', .number 10 none] v with
  | [w, h] =>
    if w = 0#32 ∨ h = 0#32 then .error (.videoSize v)
    else .ok { r with b := { r.b with videoWidth := w, videoHeight := h } }
  | _ => .error (.videoSize v)

def readEthernetMac (v : Chars) : Read := fun r =>
  let two : Directive := .number 16 (some 2)
  match sscanf [two, .literal ':', two, .literal ':', two, .literal ':', two, .literal ':', two,
    .literal ':', two] v with
  | [m0, m1, m2, m3, m4, m5] => .ok { r with b := { r.b with
      ethMac := fun k => (([m0, m1, m2, m3, m4, m5].getD k 0#32).setWidth 8), eth := true } }
  | _ => .error (.ethernetMac v)

/-- The four bytes of an address. -/
def ipv4 (q0 q1 q2 q3 : BitVec 32) : BitVec 32 := q0 <<< 24 ||| q1 <<< 16 ||| q2 <<< 8 ||| q3

def readIpv4 (gateway : Bool) (v : Chars) : Read := fun r =>
  let bytes : List Directive := [.number 10 none, .literal '.', .number 10 none, .literal '.',
    .number 10 none, .literal '.', .number 10 none]
  let got := sscanf (if gateway then bytes else bytes ++ [.literal '/', .number 10 none]) v
  let q := fun k => got.getD k 0#32
  let len := got.getD 4 32#32
  if got.length ≠ (if gateway then 4 else 5) ∨ q 0 > 255#32 ∨ q 1 > 255#32 ∨ q 2 > 255#32 ∨
      q 3 > 255#32 ∨ len < 1#32 ∨ len > 32#32 then .error (.ipv4 v gateway)
  else
    let a := ipv4 (q 0) (q 1) (q 2) (q 3)
    let b := if gateway then { r.b with ethGateway := a } else { r.b with
      ethAddress := a
      ethNetmask := if len = 32#32 then 0xFFFFFFFF#32 else ~~~(0xFFFFFFFF#32 >>> len.toNat) }
    .ok { r with b := { b with eth := true } }

def readChaosAddress (v : Chars) : Read := fun r =>
  match chkChaosAddress v with
  | none => .error (.chaosAddress v)
  | some a => .ok { r with b := { r.b with chaosAddress := a } }

/-- What a pack's line has of a pack that need not be there. -/
def readFields (v : Chars) (path : Buffer 1023) (sha256 : Buffer 64) : Pack :=
  let sub := fun name => subfield name 1024 v
  let geometry := match sub "geometry".toList with
    | some buf => sscanf [.number 10 none, .literal ',', .number 10 none, .literal ',', .number 10 none] buf
    | none => []
  { path := path
    bytes := (sub "bytes".toList).elim 0 (strtoul 64)
    sha256 := sha256
    cylinders := geometry.getD 0 0
    heads := geometry.getD 1 0
    blocksPerTrack := geometry.getD 2 0
    format := (sub "format".toList).elim .empty (snprintf 15)
    blocks := (sub "blocks".toList).elim 0 (strtoul 64)
    readOnly := sub "read-only".toList = some "yes".toList }

def readPack (v : Chars) : Read := fun r =>
  match subfield "unit".toList 1024 v with
  | none => .error .packUnit
  | some buf =>
    let u := strtoul 32 buf
    if inside : u.toNat < bindUnits then
      match subfield "file".toList 1024 v, subfield "sha256".toList 65 v with
      | some path, some sha256 =>
        let p := readFields v (snprintf 1023 path) (snprintf 64 sha256)
        .ok { r with b := { r.b with
          u := Function.update r.b.u ⟨u.toNat, inside⟩ (some p), present := r.b.present + 1#32 } }
      | _, _ => .error (.packFile u)
    else .error (.unitRange u)

/-- The keys `bind_read` looks for, in its order, with what it does at each. -/
def branches : List (String × (Chars → Read)) :=
  [("format", readFormat),
   ("checkpoint", sets fun v b => { b with checkpoint := snprintf 511 v }),
   ("checkpoint-sha256", sets fun v b => { b with checkpointSha := snprintf 64 v }),
   ("checkpoint-bytes", sets fun v b => { b with checkpointBytes := strtoul 64 v }),
   ("taken", sets fun v b => { b with taken := snprintf 63 v }),
   ("machine", readMachine),
   ("boards", sets fun v b => { b with boards := strtoul 32 v }),
   ("main-memory-size", readMainMemorySize),
   ("microcycles", sets fun v b => { b with microcycles := strtoul 64 v }),
   ("ns", sets fun v b => { b with ns := strtoul 64 v }),
   ("revision", sets fun v b => { b with revision := strtoul 32 v }),
   ("sync-cycle-ticks", sets fun v b => { b with syncK := strtoul 32 v }),
   ("memory-timing", readMemoryTiming),
   ("video-size", readVideoSize),
   ("ethernet-mac", readEthernetMac),
   ("ip-address", readIpv4 false),
   ("ip-gateway", readIpv4 true),
   ("chaos-address", readChaosAddress),
   ("running", sets fun v b => { b with running := some (v = "yes".toList) }),
   ("pack", readPack)]

/-- A line, chomped. -/
def readLine (line : Chars) : Read := fun r =>
  if line.head? = some '#' ∨ line = [] then .ok r
  else
    match branches.findSome? fun branch => (field line branch.1).map branch.2 with
    | some read => read r
    | none => .ok r

/-- `bind_read`, of a file's text. -/
def bindRead (file : Chars) : Except Refusal Binding := do
  let r ← (fgets 8191 [] file).foldlM (fun r line => readLine (chomp (cString line)) r)
    ⟨{ bindInit with running := none }, false⟩
  if r.sawFormat then .ok r.b else .error .formatLine

end MuirFpga.Checkpoint
