import MuirFpga.Files.Lines

/-!
# The pack binding, written

`struct binding` of `pack_bind.h` and `bind_write` of `pack_bind.c`: the sidecar, which says what packs the
machine in a checkpoint was running on. A file that opens and takes every write is its text. What
`bind_verify` alone sets is left out.
-/

namespace MuirFpga.Checkpoint

open MuirFpga.Text

/-- `struct bind_pack`, of a drive that is present. -/
structure Pack where
  path : Buffer 1023
  bytes : BitVec 64
  sha256 : Buffer 64
  cylinders : BitVec 32
  heads : BitVec 32
  blocksPerTrack : BitVec 32
  format : Buffer 15
  blocks : BitVec 64
  readOnly : Bool

/-- `BIND_UNITS`. -/
abbrev bindUnits : Nat := 8

/-- `struct binding`. A `running` of none is the source's -1. -/
structure Binding where
  u : Fin bindUnits → Option Pack
  present : BitVec 32
  checkpoint : Buffer 511
  checkpointSha : Buffer 64
  checkpointBytes : BitVec 64
  taken : Buffer 63
  boards : BitVec 32
  microcycles : BitVec 64
  ns : BitVec 64
  machineHaltedFirst : Bool
  packsProgramStopped : Bool
  quux : Bool
  revision : BitVec 32
  syncK : BitVec 32
  videoWidth : BitVec 32
  videoHeight : BitVec 32
  memoryTiming : Buffer 7
  eth : Bool
  ethMac : Fin 6 → BitVec 8
  ethAddress : BitVec 32
  ethNetmask : BitVec 32
  ethGateway : BitVec 32
  running : Option Bool
  chaosAddress : BitVec 32

/-- `bind_init`. -/
def bindInit : Binding where
  u := fun _ => none
  present := 0
  checkpoint := .empty
  checkpointSha := .empty
  checkpointBytes := 0
  taken := .empty
  boards := 0
  microcycles := 0
  ns := 0
  machineHaltedFirst := false
  packsProgramStopped := false
  quux := false
  revision := 0
  syncK := 0
  videoWidth := 0
  videoHeight := 0
  memoryTiming := .empty
  eth := false
  ethMac := fun _ => 0
  ethAddress := 0
  ethNetmask := 0
  ethGateway := 0
  running := some false
  chaosAddress := 0

/-- `%u` and `%llu`. -/
def decimal {w : Nat} (x : BitVec w) : Chars := Nat.toDigits 10 x.toNat

/-- `%02x` of a byte. -/
def hexByte (x : BitVec 8) : Chars := [Nat.digitChar (x.toNat / 16), Nat.digitChar (x.toNat % 16)]

def yesNo (answer : Bool) : Chars := if answer then "yes".toList else "no".toList

/-- `RO_MW_UNITS`. -/
def mwUnits : Nat := 16

/-- `IMG_BOARD_WORDS`, in units of 1,024. -/
def boardKilowords : Nat := 64

/-- `ro_main_amount`. -/
def roMainAmount (units : BitVec 32) : Chars :=
  if units.toNat % mwUnits = 0 then Nat.toDigits 10 (units.toNat / mwUnits) ++ "MW".toList
  else Nat.toDigits 10 (units.toNat * boardKilowords) ++ "KW".toList

/-- `bind_mac_text`. -/
def bindMacText (mac : Fin 6 → BitVec 8) : Chars :=
  hexByte (mac 0) ++ ':' :: hexByte (mac 1) ++ ':' :: hexByte (mac 2) ++ ':' :: hexByte (mac 3) ++
    ':' :: hexByte (mac 4) ++ ':' :: hexByte (mac 5)

/-- `bind_ipv4_text`. -/
def bindIpv4Text (a : BitVec 32) : Chars :=
  decimal (a >>> 24) ++ '.' :: decimal ((a >>> 16) &&& 0xFF#32) ++
    '.' :: decimal ((a >>> 8) &&& 0xFF#32) ++ '.' :: decimal (a &&& 0xFF#32)

/-- `prefix_of`, from bit 31 down. -/
def prefixOf (netmask : BitVec 32) : Nat :=
  ((List.range 32).takeWhile fun n => netmask.getLsbD (31 - n)).length

/-- `IMG_QUUX_REVISION`. -/
def quuxRevision : BitVec 32 := 16#32

section Writing

variable (b : Binding)

/-- The drives present, by unit. -/
def Binding.drives : List (Fin bindUnits × Pack) :=
  (List.finRange bindUnits).filterMap fun unit => (b.u unit).map (unit, ·)

/-- `bind_resume_command`, into a buffer of 4,096. -/
def bindResumeCommand : Chars :=
  ((if b.quux then
      "quux --rtl".toList ++
      (if b.syncK ≠ 0#32 ∧ b.revision = quuxRevision then
        " --microcycle-ns ".toList ++ decimal (b.syncK / 2#32) ++
          if b.syncK % 2#32 ≠ 0#32 then ".5".toList else []
      else []) ++
      (if b.memoryTiming.val ≠ [] then " --memory-timing ".toList ++ b.memoryTiming.val else []) ++
      if b.videoWidth ≠ 0#32 then
        " --video-size ".toList ++ decimal b.videoWidth ++ 'x' :: decimal b.videoHeight
      else []
    else "cadr --rtl --timing-model fpga".toList) ++
    (b.drives.flatMap fun (unit, p) =>
      " --disk-pack ".toList ++ p.path.val ++ ',' :: Nat.toDigits 10 unit) ++
    (if !b.quux then " --main-memory-boards ".toList ++ decimal b.boards else []) ++
    (if !b.quux && b.chaosAddress != 0#32 then
      " --chaos-address ".toList ++ Nat.toDigits 8 b.chaosAddress.toNat
    else []) ++
    (if b.quux && b.eth then
      " --ethernet-mac ".toList ++ bindMacText b.ethMac ++ " --ip-address ".toList ++
        bindIpv4Text b.ethAddress ++ '/' :: Nat.toDigits 10 (prefixOf b.ethNetmask) ++
        " --ip-gateway ".toList ++ bindIpv4Text b.ethGateway
    else []) ++ " --resume ".toList ++ b.checkpoint.val).take 4095

/-- The comment a sidecar begins with. -/
def comment : List String :=
  ["# The disk packs the machine in the checkpoint beside this file was",
   "# running on, and what every byte of them was at the instant the",
   "# checkpoint was taken.",
   "#",
   "# **A CHECKPOINT DOES NOT CARRY ITS DISK.**  muir's format holds the",
   "# blocks a run has written and never the pack, so resuming this",
   "# checkpoint over a pack that has moved on restores a machine into a",
   "# disk it never had --- and NOTHING WILL SAY SO.  muir refuses a",
   "# missing drive and a wrong geometry, and has no way at all to notice",
   "# wrong contents: the disk controller recomputes a block's header and",
   "# checkwords as it moves it, so a block from another moment passes",
   "# every check the machine makes and is handed to the microcode as",
   "# good. What goes wrong afterwards is a Lisp world whose structures",
   "# point at the wrong pages, which looks like anything at all.",
   "#",
   "# BEFORE RESUMING, check each pack against the digest below:",
   "#     sha256sum <the pack>",
   "# or, with this file in hand,",
   "#     cadr-checkpoint --verify <this file>",
   "#",
   "# Its paths are the pack folder's.  Run the `resume:` line and",
   "# `--verify` from there, with the pack in it and this file and the",
   "# checkpoint in its `checkpoints/`, as the card holds them.",
   "#",
   "# One `key: value` a line.  A `pack:` line's fields are `name=value`",
   "# separated by single spaces, and `file=` is LAST because a path may",
   "# hold a space and nothing else may.",
   ""]

/-- A line of a key and its value. -/
def entry (key : String) (val : Chars) : Chars := key.toList ++ ':' :: ' ' :: val

/-- A field of a pack's line, before the next. -/
def assigned (name : String) (val : Chars) : Chars := name.toList ++ '=' :: val ++ [' ']

/-- A pack's line. -/
def packLine (unit : Fin bindUnits) (p : Pack) : Chars :=
  entry "pack" (assigned "unit" (Nat.toDigits 10 unit) ++ assigned "bytes" (decimal p.bytes) ++
    (if p.format.val ≠ [] then
      assigned "format" p.format.val ++ assigned "blocks" (decimal p.blocks)
    else assigned "geometry"
      (decimal p.cylinders ++ ',' :: decimal p.heads ++ ',' :: decimal p.blocksPerTrack)) ++
    assigned "read-only" (yesNo p.readOnly) ++ assigned "sha256" p.sha256.val ++
    "file=".toList ++ p.path.val)

/-- The lines of QUUX's. -/
def quuxLines : List Chars :=
  [entry "revision" (decimal b.revision), entry "sync-cycle-ticks" (decimal b.syncK)] ++
    (if b.memoryTiming.val ≠ [] then [entry "memory-timing" b.memoryTiming.val] else []) ++
    (if b.videoWidth ≠ 0#32 then
      [entry "video-size" (decimal b.videoWidth ++ 'x' :: decimal b.videoHeight)] else []) ++
    if b.eth then
      [entry "ethernet-mac" (bindMacText b.ethMac),
        entry "ip-address" (bindIpv4Text b.ethAddress ++ '/' :: Nat.toDigits 10 (prefixOf b.ethNetmask)),
        entry "ip-gateway" (bindIpv4Text b.ethGateway)]
    else []

/-- The lines of a sidecar. -/
def sidecar : List Chars :=
  comment.map String.toList ++
    [entry "format" "cadr-checkpoint-packs 1".toList,
      entry "checkpoint" b.checkpoint.val,
      entry "checkpoint-bytes" (decimal b.checkpointBytes),
      entry "checkpoint-sha256" b.checkpointSha.val,
      entry "taken" b.taken.val,
      entry "engine" "rtl".toList,
      entry "machine" (if b.quux then "quux".toList else "cadr".toList),
      if b.quux then entry "main-memory-size" (roMainAmount b.boards)
        else entry "boards" (decimal b.boards),
      entry "microcycles" (decimal b.microcycles),
      entry "ns" (decimal b.ns)] ++
    (if b.quux then quuxLines b else []) ++
    (if !b.quux && b.chaosAddress != 0#32 then
      [entry "chaos-address" (Nat.toDigits 8 b.chaosAddress.toNat)] else []) ++
    [entry "running" (yesNo (b.running = some true)),
      entry "machine-halted-first" (yesNo b.machineHaltedFirst),
      entry "packs-program-stopped" (if b.packsProgramStopped then "yes".toList else "unknown".toList),
      entry "packs" (decimal b.present)] ++
    (b.drives.map fun (unit, p) => packLine unit p) ++ [entry "resume" (bindResumeCommand b)]

/-- `bind_write`, the file. -/
def bindWrite : Chars := written (sidecar b)

end Writing

end MuirFpga.Checkpoint
