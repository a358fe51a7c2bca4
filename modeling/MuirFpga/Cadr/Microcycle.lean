import MuirFpga.Cadr.Datapath
import MuirFpga.Cadr.PhaseGen
import Mathlib.Logic.Function.Basic

/-!
# The CADR's microcycle, tick by tick

`cadr_microcycle`: the registers of the clock, the memories and their latches, the memory
cycle's control, MD and its three writers, and where a map or dispatch write lands. Each
register's next value is written as its process assigns it, the last assignment first. The
reset is the start of a run and not an input; the readout and the diagnostic bus's read
side drive nothing and are left out.
-/

namespace MuirFpga.Cadr

/-- The console's registers, as the spy registers hold them. -/
structure Spy where
  /-- RUN. -/
  run : Bool
  /-- STEP. -/
  step : Bool
  /-- NOP11. -/
  nop11 : Bool
  /-- IDEBUG. -/
  idebug : Bool
  /-- LDSTAT. -/
  ldstat : Bool
  /-- The debug IR. -/
  debugIr : BitVec 48
  /-- PROMDISABLE. -/
  promdisable : Bool
  /-- ERRSTOP. -/
  errstop : Bool
  /-- STATHENB. -/
  stathenb : Bool
  /-- The speed. -/
  modeSpeed : BitVec 2

/-- What the processor takes in one tick. -/
structure ProcIn where
  /-- `-BOOT`. -/
  nBoot : Bool
  /-- The console's registers. -/
  spy : Spy
  /-- `-MEMACK`. -/
  nMemack : Bool
  /-- `-MEMGRANT`. -/
  nMemgrant : Bool
  /-- `-LOADMD`. -/
  nLoadmd : Bool
  /-- The word off the bus. -/
  rdata : BitVec 32
  /-- The interrupt off the cables. -/
  sintr : Bool
  /-- A foreign master's `UB MD LOAD`. -/
  ubMdReq : Bool
  /-- Its word. -/
  ubMdData : BitVec 32

/-- The generator and the registers that follow it. -/
structure ClockRegs where
  /-- The generator. -/
  gen : PhaseGen
  /-- TPCLK a tick ago. -/
  tpclkQ : Bool
  /-- The first boundary has been. -/
  started : Bool
  /-- Ticks since the boundary, saturating. -/
  phaseT : Nat
  /-- The speed the generator takes. -/
  speed : BitVec 2
  /-- The speed synchronizer's first stage. -/
  speedA : BitVec 2
  /-- The write pulse a tick ago. -/
  nTpwpQ : Bool
  /-- The control store's write pulse a tick ago. -/
  nTpwpiramQ : Bool

/-- The memories and the latches that follow them. -/
structure Mems where
  /-- The boot PROM. -/
  prom : BitVec 10 → BitVec 48
  /-- Its word. -/
  promQ : BitVec 48
  /-- The control store. -/
  imem : BitVec 14 → BitVec 48
  /-- Its word. -/
  imemQ : BitVec 48
  /-- A memory. -/
  amem : BitVec 10 → BitVec 32
  /-- Its latch. -/
  amemQ : BitVec 32
  /-- M memory. -/
  mmem : BitVec 5 → BitVec 32
  /-- Its latch. -/
  mmemQ : BitVec 32
  /-- The PDL buffer. -/
  pdl : BitVec 10 → BitVec 32
  /-- Its latch. -/
  pdlQ : BitVec 32
  /-- The micro stack. -/
  spcm : BitVec 5 → BitVec 19
  /-- Its latch. -/
  spcQ : BitVec 19
  /-- The first-level map. -/
  l1Map : BitVec 11 → BitVec 5
  /-- The second-level map. -/
  l2Map : BitVec 10 → BitVec 24
  /-- The dispatch memory. -/
  dmem : BitVec 11 → BitVec 17

/-- The memory cycle's control. -/
structure Vctl where
  /-- MEMSTART. -/
  memstart : Bool
  /-- MBUSY. -/
  mbusy : Bool
  /-- MBUSY.SYNC. -/
  mbusySync : Bool
  /-- RDCYC. -/
  rdcyc : Bool
  /-- WRCYC. -/
  wrcyc : Bool
  /-- READ IN PROGRESS. -/
  rdInProgress : Bool
  /-- The map's word, latched. -/
  lvmo : BitVec 24
  /-- `-MEMACK` a tick ago. -/
  nMemackQ : Bool
  /-- Ticks to `-MFINISHD`. -/
  mfinishT : Nat
  /-- Ticks to `-RDFINISH`. -/
  rdfinishT : Nat
  /-- `MEMSTART AND VMAOK`, held. -/
  memgoQ : Bool
  /-- The instruction's half of `-WAIT`'s first term, held. -/
  destmemQ : Bool
  /-- Of the second. -/
  useMdQ : Bool
  /-- Of the third. -/
  ifetchQ : Bool
  /-- The address of the cycle started last. -/
  physR : BitVec 22
  /-- Its word. -/
  wdata : BitVec 32

/-- MD, the word a strobe left for the next boundary, and where a hung cycle's write is. -/
structure MdPath where
  /-- MD. -/
  md : BitVec 32
  /-- The word held. -/
  mdHeld : BitVec 32
  /-- A word is held. -/
  mdPending : Bool
  /-- `-LOADMD` a tick ago. -/
  nLoadmdQ : Bool
  /-- MD loaded at the end of the tick before. -/
  mdWeQ : Bool
  /-- An early write in the tick before. -/
  mwEarlyQ : Bool
  /-- And in the one before it. -/
  mwEarlyQ2 : Bool
  /-- The tick after a parked cycle's pulse. -/
  mwK1Q : Bool
  /-- The second after it, MD having moved at the pulse's end. -/
  mwLate2Q : Bool

/-- The trap and the run flip flops, on the master clock. -/
structure Olord where
  /-- The boot's trap. -/
  trap : Bool
  /-- PROMDISABLED. -/
  promdisabled : Bool
  /-- SRUN. -/
  srun : Bool
  /-- SSTEP. -/
  sstep : Bool
  /-- SSDONE. -/
  ssdone : Bool

/-- The processor's state. -/
structure Processor where
  /-- The clock. -/
  clock : ClockRegs
  /-- The registers of the cpu edge. -/
  regs : Regs
  /-- The memories. -/
  mems : Mems
  /-- The memory cycle. -/
  vctl : Vctl
  /-- MD. -/
  mdp : MdPath
  /-- The run flip flops. -/
  olord : Olord

namespace Processor

/-- `boundary`: TPCLK has risen. -/
def boundary (s : Processor) : Bool := s.clock.gen.tpclk && !s.clock.tpclkQ

/-- `mclk_edge`, `gen_edge`: the master clock. -/
def mclkEdge (s : Processor) : Bool := s.boundary && s.clock.started

/-- The instruction as the control decodes it. -/
def inst (i : ProcIn) (s : Processor) : Inst :=
  { regs := s.regs, trap := s.olord.trap, nop11 := i.spy.nop11 }

/-- `wait_`: `-WAIT`, as a positive level. -/
def wait (i : ProcIn) (s : Processor) : Bool :=
  (s.vctl.destmemQ && s.vctl.mbusySync) || (s.vctl.useMdQ && s.vctl.mbusy && i.nMemgrant)
    || (s.vctl.ifetchQ && s.vctl.mbusySync)

/-- `hang`: `-HANG`, as a positive level; a wait comes first. -/
def hang (i : ProcIn) (s : Processor) : Bool :=
  (s.inst i).useMd && s.vctl.rdInProgress && !s.wait i

/-- `stepping`: one step owed. -/
def stepping (s : Processor) : Bool := s.olord.sstep && !s.olord.ssdone

/-- `machrun`: MACHRUN. -/
def machrun (i : ProcIn) (s : Processor) : Bool :=
  s.stepping || (s.olord.srun && !(i.spy.errstop && s.regs.halted)
    && !(i.spy.stathenb && s.regs.statstop) && !s.wait i)

/-- `cpu_edge`: the master clock with the machine running. -/
def cpuEdge (i : ProcIn) (s : Processor) : Bool := s.mclkEdge && s.machrun i

/-- `mapi`: the address the map takes. -/
def mapi (s : Processor) : BitVec 16 :=
  if s.vctl.memstart then s.regs.vma.extractLsb' 8 16 else s.mdp.md.extractLsb' 8 16
/-- `adr0`: the first level's address. -/
def adr0 (s : Processor) : BitVec 11 := s.mapi.extractLsb' 5 11
/-- `adr1`: the second level's address. -/
def adr1 (s : Processor) : BitVec 10 := s.mems.l1Map s.adr0 ++ s.mapi.extractLsb' 0 5
/-- `adr1_w`: where a write puts the second level. -/
def adr1W (s : Processor) : BitVec 10 :=
  if s.regs.vma.getLsbD 26 then 0#5 ++ s.mapi.extractLsb' 0 5 else s.adr1
/-- `l1_store`: the entry a first-level write stores. -/
def l1Store (s : Processor) : BitVec 5 := s.regs.vma.extractLsb' 27 5
/-- `l2_store`: the entry a second-level write stores. -/
def l2Store (s : Processor) : BitVec 24 := s.regs.vma.extractLsb' 0 24
/-- `map_l1_en`: a write of the first level. -/
def mapL1En (s : Processor) : Bool := s.regs.vma.getLsbD 26
/-- `map_l2_en`: a write of the second level. -/
def mapL2En (s : Processor) : Bool := s.regs.vma.getLsbD 25
/-- `vmap`: the first level's word, the one being written passed around. -/
def vmap (s : Processor) : BitVec 5 :=
  if s.regs.wmapd && s.mapL1En then s.l1Store else s.mems.l1Map s.adr0
/-- `vmo`: the second level's word, the one being written passed around. -/
def vmo (s : Processor) : BitVec 24 :=
  if s.regs.wmapd && s.mapL2En then s.l2Store else s.mems.l2Map s.adr1
/-- `lvmo_eff`: the latch, transparent while MEMSTART is up. -/
def lvmoEff (s : Processor) : BitVec 24 := if s.vctl.memstart then s.vmo else s.vctl.lvmo
/-- `pfr`: a read is permitted. -/
def pfr (s : Processor) : Bool := s.lvmoEff.getLsbD 23
/-- `pfw`: a write is permitted. -/
def pfw (s : Processor) : Bool := !(!s.lvmoEff.getLsbD 22 && s.vctl.wrcyc)
/-- `vmaok`: the access is permitted. -/
def vmaok (s : Processor) : Bool := s.pfr && s.pfw
/-- `memgo`: a prepared and permitted cycle. -/
def memgo (s : Processor) : Bool := s.vctl.memstart && s.vmaok
/-- `memrq`: MEMRQ, a cycle is wanted. -/
def memrq (s : Processor) : Bool := s.vctl.memgoQ || s.vctl.mbusy

/-- `promenable`: the word comes from the boot PROM. -/
def promenable (i : ProcIn) (s : Processor) : Bool :=
  decide (s.regs.pc.toNat < 1024) && !s.olord.promdisabled && !s.regs.iwrited && !i.spy.idebug

/-- The I bus. -/
def iBus (i : ProcIn) (s : Processor) : BitVec 48 :=
  if i.spy.idebug then i.spy.debugIr
  else if s.promenable i then s.mems.promQ else s.mems.imemQ

/-- What the datapath stands on this tick. -/
def view (i : ProcIn) (s : Processor) : View :=
  { s.inst i with
    idebug := i.spy.idebug, ldstat := i.spy.ldstat, i := s.iBus i,
    a := (s.inst i).aPass s.mems.amemQ, mmemOut := (s.inst i).mPass s.mems.mmemQ,
    pdlQ := s.mems.pdlQ, spcQ := s.mems.spcQ, md := s.mdp.md, vmap := s.vmap, vmo := s.vmo,
    pfr := s.pfr, pfw := s.pfw, dmem := s.mems.dmem, sintr := i.sintr }

/-- `loadmd_edge`: the bus strobes a read's word. -/
def loadmdEdge (i : ProcIn) (s : Processor) : Bool :=
  !i.nLoadmd && s.mdp.nLoadmdQ && s.vctl.rdcyc
/-- `memack_edge`: the acknowledgment comes. -/
def memackEdge (i : ProcIn) (s : Processor) : Bool := !i.nMemack && s.vctl.nMemackQ

/-- `ub_md_take`: a foreign master's word is taken. -/
def ubMdTake (i : ProcIn) (s : Processor) : Bool :=
  i.ubMdReq && !s.mdp.mdPending && !s.vctl.mbusy && !(s.cpuEdge i && (s.inst i).destmdr)
    && !(s.machrun i && (s.clock.gen.penult || s.clock.gen.last))

/-- `md_we`: MD loads at the end of this tick. -/
def mdWe (i : ProcIn) (s : Processor) : Bool :=
  (s.loadmdEdge i && (s.mclkEdge || s.hang i))
    || (!s.loadmdEdge i && s.mdp.mdPending && (s.mclkEdge || s.hang i))
    || s.ubMdTake i || (s.cpuEdge i && (s.inst i).destmdr)

/-- `wp_end`: the write pulse has ended. -/
def wpEnd (s : Processor) : Bool := s.clock.gen.nTpwp && !s.clock.nTpwpQ
/-- `wp`: in a cycle the machine runs. -/
def wp (i : ProcIn) (s : Processor) : Bool := s.wpEnd && s.machrun i
/-- `iwe`: the control store is written. -/
def iwe (i : ProcIn) (s : Processor) : Bool :=
  s.regs.iwrited && !s.clock.gen.nTpwpiram && s.clock.nTpwpiramQ && s.machrun i

/-- `rd_holds`: the acknowledgment has come and READ IN PROGRESS outlasts this tick. -/
def rdHolds (s : Processor) : Bool := decide (2 ≤ s.vctl.rdfinishT)
/-- `mw_early`: a hung cycle's write, two ticks before the pulse ends. -/
def mwEarly (i : ProcIn) (s : Processor) : Bool :=
  s.clock.gen.penult && s.hang i && s.machrun i && s.rdHolds && !s.mdp.mdWeQ
/-- `wp_parked`: the pulse's end in a parked cycle whose write did not go early. -/
def wpParked (i : ProcIn) (s : Processor) : Bool :=
  s.wp i && !s.clock.gen.tpclk && !s.mdp.mwEarlyQ2
/-- `mw_late1`: a hung cycle's write, a tick after the pulse's end. -/
def mwLate1 (s : Processor) : Bool := s.mdp.mwK1Q && !s.mdp.mdWeQ
/-- `mw`: the tick the map and the dispatch memory are written. -/
def mw (i : ProcIn) (s : Processor) : Bool :=
  (s.wp i && s.clock.gen.tpclk) || s.mwEarly i || s.mwLate1 || s.mdp.mwLate2Q

/-- `vma_bus`: the low address bits on the cables. -/
def vmaBus (i : ProcIn) (s : Processor) : BitVec 8 :=
  if s.cpuEdge i && (s.inst i).vmaenb then (s.view i).vmas.extractLsb' 0 8
  else s.regs.vma.extractLsb' 0 8
/-- `phys_start`: the address a prepared cycle goes to. -/
def physStart (i : ProcIn) (s : Processor) : BitVec 22 := s.vmo.extractLsb' 0 14 ++ s.vmaBus i
/-- `phys`: the address on the cables. -/
def phys (i : ProcIn) (s : Processor) : BitVec 22 :=
  if s.vctl.memstart then s.physStart i else s.vctl.physR
/-- `md_bus`: the word a write carries. -/
def mdBus (i : ProcIn) (s : Processor) : BitVec 32 :=
  if s.cpuEdge i && (s.inst i).destmdr then (s.view i).ob else s.mdp.md

/-- `MFINISHD_T`: ticks from the acknowledgment to MBUSY's fall. -/
def mfinishdT : Nat := ticks 30 - 1
/-- `RD_FINISH_T`: ticks from the acknowledgment to READ IN PROGRESS's fall. -/
def rdFinishT : Nat := ticks 140 - 2

/-- A prepared cycle goes out at a master clock edge. -/
def starts (s : Processor) : Bool := s.mclkEdge && s.vctl.memstart

/-- The clock's next registers. -/
def clockNext (i : ProcIn) (s : Processor) : ClockRegs where
  gen := s.clock.gen.next (s.hang i) (s.inst i).ilong s.clock.speed
  tpclkQ := s.clock.gen.tpclk
  started := s.boundary || s.clock.started
  phaseT := if s.boundary then 1 else if s.clock.phaseT = 63 then 63 else s.clock.phaseT + 1
  speed := if s.clock.phaseT = ticks 60 - 1 then s.clock.speedA else s.clock.speed
  speedA := if s.clock.phaseT = ticks 60 - 1 then i.spy.modeSpeed else s.clock.speedA
  nTpwpQ := s.clock.gen.nTpwp
  nTpwpiramQ := s.clock.gen.nTpwpiram

/-- The registers `-BOOT` clears. -/
def bootRegs (r : Regs) : Regs :=
  { r with
    inop := false, spushd := false, iwrited := false, newlc := false, sintrD := false,
    nextInstrd := false, pwidx := false, pdlwrited := false, destspcd := false, imodd := false,
    lcByteMode := false, intEnable := false, sequenceBreak := false, progUnibusReset := false,
    wadr := 0#10, destd := false, destmd := false }

/-- The cpu edge's next registers. -/
def regsNext (i : ProcIn) (s : Processor) : Regs :=
  let moved := if s.cpuEdge i then (s.view i).regsNext else s.regs
  if i.nBoot then moved else bootRegs moved

/-- The next memories: the latches follow while CLK is high, the pulses write. -/
def memsNext (i : ProcIn) (s : Processor) : Mems where
  prom := s.mems.prom
  promQ := s.mems.prom (s.regs.pc.extractLsb' 0 10)
  imem := if s.iwe i then Function.update s.mems.imem s.regs.pc s.regs.iwr else s.mems.imem
  imemQ := s.mems.imem s.regs.pc
  amem := if s.wp i && s.regs.destd then Function.update s.mems.amem s.regs.wadr s.regs.l
    else s.mems.amem
  amemQ := if s.clock.gen.tpclk then s.mems.amem (s.inst i).aadr else s.mems.amemQ
  mmem := if s.wp i && s.regs.destmd then
      Function.update s.mems.mmem (s.regs.wadr.extractLsb' 0 5) s.regs.l
    else s.mems.mmem
  mmemQ := if s.clock.gen.tpclk then s.mems.mmem (s.inst i).madr else s.mems.mmemQ
  pdl := if s.wp i && s.regs.pdlwrited then
      Function.update s.mems.pdl (s.inst i).pdlaWrite s.regs.l
    else s.mems.pdl
  pdlQ := if s.clock.gen.tpclk then s.mems.pdl (s.inst i).pdlaRead else s.mems.pdlQ
  spcm := if s.wp i && s.regs.spushd then
      Function.update s.mems.spcm s.regs.spcptr (s.inst i).spcw
    else s.mems.spcm
  spcQ := if s.clock.gen.tpclk then s.mems.spcm s.regs.spcptr else s.mems.spcQ
  l1Map := if s.mw i && s.regs.wmapd && s.mapL1En then
      Function.update s.mems.l1Map s.adr0 s.l1Store
    else s.mems.l1Map
  l2Map := if s.mw i && s.regs.wmapd && s.mapL2En then
      Function.update s.mems.l2Map s.adr1W s.l2Store
    else s.mems.l2Map
  dmem := if s.mw i && (s.inst i).dispwr then
      Function.update s.mems.dmem (s.view i).dadr ((s.view i).a.extractLsb' 0 17)
    else s.mems.dmem

/-- The memory cycle's next control; `-BOOT` beats the edge, the edge the countdowns. -/
def vctlNext (i : ProcIn) (s : Processor) : Vctl where
  memstart := i.nBoot && (if s.cpuEdge i then (s.inst i).memop
    else !s.mclkEdge && s.vctl.memstart)
  mbusy := i.nBoot && ((s.starts && s.memgo)
    || (s.vctl.mbusy && !(s.vctl.mfinishT == 1 && !s.memackEdge i)))
  mbusySync := i.nBoot && (if s.mclkEdge then s.memgo || s.vctl.mbusy else s.vctl.mbusySync)
  rdcyc := i.nBoot && (if s.cpuEdge i && (s.inst i).memop then !(s.inst i).memwr else s.vctl.rdcyc)
  wrcyc := i.nBoot && (if s.cpuEdge i && (s.inst i).memop then (s.inst i).memwr else s.vctl.wrcyc)
  rdInProgress := (s.starts && s.memgo && s.vctl.rdcyc)
    || (s.vctl.rdInProgress && !(s.vctl.rdfinishT == 1 && !s.memackEdge i))
  lvmo := if s.starts then s.vmo else s.vctl.lvmo
  nMemackQ := i.nMemack
  mfinishT := if s.starts && s.vctl.memgoQ then 0
    else if s.memackEdge i then mfinishdT else s.vctl.mfinishT - 1
  rdfinishT := if s.starts && s.vctl.memgoQ && s.vctl.rdcyc then 0
    else if s.memackEdge i then rdFinishT else s.vctl.rdfinishT - 1
  memgoQ := s.memgo
  destmemQ := (s.inst i).destmem
  useMdQ := (s.inst i).useMd
  ifetchQ := (s.inst i).ifetch
  physR := if s.starts && s.memgo then s.physStart i else s.vctl.physR
  wdata := if s.starts && s.memgo then s.mdBus i else s.vctl.wdata

/-- MD and its path, next: the instruction's store, a foreign word, the strobe's word at once
or the held one at a boundary or under `-HANG`. -/
def mdNext (i : ProcIn) (s : Processor) : MdPath where
  md := if s.cpuEdge i && (s.inst i).destmdr then (s.view i).ob
    else if s.ubMdTake i then i.ubMdData
    else if s.loadmdEdge i && (s.mclkEdge || s.hang i) then i.rdata
    else if !s.loadmdEdge i && s.mdp.mdPending && (s.mclkEdge || s.hang i) then s.mdp.mdHeld
    else s.mdp.md
  mdHeld := if s.loadmdEdge i && !(s.mclkEdge || s.hang i) then i.rdata else s.mdp.mdHeld
  mdPending := !(s.mclkEdge || s.hang i) && (s.loadmdEdge i || s.mdp.mdPending)
  nLoadmdQ := i.nLoadmd
  mdWeQ := s.mdWe i
  mwEarlyQ := s.mwEarly i
  mwEarlyQ2 := s.mdp.mwEarlyQ
  mwK1Q := s.wpParked i
  mwLate2Q := s.mdp.mwK1Q && s.mdp.mdWeQ

/-- The run flip flops, next. -/
def olordNext (i : ProcIn) (s : Processor) : Olord where
  trap := !i.nBoot || (s.olord.trap && !(s.mclkEdge && s.olord.srun))
  promdisabled := if s.mclkEdge then i.spy.promdisable else s.olord.promdisabled
  srun := !i.nBoot || (if s.mclkEdge then i.spy.run else s.olord.srun)
  sstep := if s.mclkEdge then i.spy.step else s.olord.sstep
  ssdone := if s.mclkEdge then s.olord.sstep else s.olord.ssdone

/-- One tick of the processor. -/
def next (i : ProcIn) (s : Processor) : Processor where
  clock := s.clockNext i
  regs := s.regsNext i
  mems := s.memsNext i
  vctl := s.vctlNext i
  mdp := s.mdNext i
  olord := s.olordNext i

end Processor

end MuirFpga.Cadr
