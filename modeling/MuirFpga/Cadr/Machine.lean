import MuirFpga.Cadr.Microcycle
import MuirFpga.Cadr.Busint
import MuirFpga.Sync.Trace

/-!
# The processor on its bus interface

`cadr_machine` as far as a memory cycle needs it: the processor, the bus interface and the
console's registers on one clock. The interface's lines are gates on registers and on the
slave's answer, so they are made first and the processor takes them in the same tick. A
console's write is an input that lands only where `cadr_spy_registers` lets one land.
-/

namespace MuirFpga.Cadr

/-- The console's registers and their count of ticks since the boundary. -/
structure SpyRegs where
  /-- The registers. -/
  spy : Spy
  /-- Ticks since the boundary, saturating. -/
  phaseT : Nat

namespace SpyRegs

/-- `landing`: the two instants of a cycle a console's write lands at. -/
def landing (s : SpyRegs) (mclk : Bool) : Bool := mclk || s.phaseT == ticks 60 - 3

/-- A console's write on the registers: the register's number and the word. -/
def land (spy : Spy) (eadr : BitVec 4) (word : BitVec 16) : Spy :=
  match eadr.toNat with
  | 0 => { spy with debugIr := spy.debugIr.extractLsb' 16 32 ++ word }
  | 1 => { spy with
      debugIr := spy.debugIr.extractLsb' 32 16 ++ word ++ spy.debugIr.extractLsb' 0 16 }
  | 2 => { spy with debugIr := word ++ spy.debugIr.extractLsb' 0 32 }
  | 3 => { spy with
      run := word.getLsbD 0, step := word.getLsbD 1, nop11 := word.getLsbD 2,
      idebug := word.getLsbD 3, ldstat := word.getLsbD 4 }
  | 5 => { spy with
      modeSpeed := word.extractLsb' 0 2, errstop := word.getLsbD 2, stathenb := word.getLsbD 3,
      promdisable := word.getLsbD 5 }
  | _ => spy

/-- What `-BOOT` makes of the registers. -/
def boot (spy : Spy) : Spy :=
  { spy with
    run := true, step := false, nop11 := false, idebug := false, ldstat := false,
    promdisable := false, errstop := false, stathenb := false, modeSpeed := 0#2 }

/-- One tick of the registers: a write that stands lands at an instant for it. -/
def next (s : SpyRegs) (mclk nBoot : Bool) (console : Option (BitVec 4 × BitVec 16)) :
    SpyRegs where
  spy :=
    let landed := match console with
      | some (eadr, word) => if s.landing mclk then land s.spy eadr word else s.spy
      | none => s.spy
    if nBoot then landed else boot landed
  phaseT := if mclk then 0 else if s.phaseT = 63 then 63 else s.phaseT + 1

end SpyRegs

/-- What the machine takes in one tick. -/
structure MachIn where
  /-- `-BOOT`. -/
  nBoot : Bool
  /-- A console's write waiting to land. -/
  console : Option (BitVec 4 × BitVec 16)
  /-- The slaves. -/
  bus : BusIn
  /-- The word off the bus. -/
  rdata : BitVec 32
  /-- The interrupt off the cables. -/
  sintr : Bool
  /-- A foreign master's `UB MD LOAD`. -/
  ubMdReq : Bool
  /-- Its word. -/
  ubMdData : BitVec 32

/-- The processor, the bus interface and the console's registers. -/
structure Machine where
  /-- The processor. -/
  cpu : Processor
  /-- The bus interface. -/
  bus : Busint
  /-- The console's registers. -/
  spy : SpyRegs

namespace Machine

/-- The processor's inputs: the console's registers, and the interface's lines of this tick. -/
def procIn (i : MachIn) (s : Machine) : ProcIn where
  nBoot := i.nBoot
  spy := s.spy.spy
  nMemack := s.bus.nMemack i.bus s.cpu.memrq
  nMemgrant := s.bus.nMemgrant
  nLoadmd := s.bus.nLoadmd i.bus s.cpu.memrq
  rdata := i.rdata
  sintr := i.sintr
  ubMdReq := i.ubMdReq
  ubMdData := i.ubMdData

/-- One tick of the machine. -/
def next (i : MachIn) (s : Machine) : Machine where
  cpu := s.cpu.next (s.procIn i)
  bus := s.bus.next i.bus s.cpu.mclkEdge s.cpu.memrq s.cpu.vctl.wrcyc
  spy := s.spy.next s.cpu.mclkEdge i.nBoot i.console

/-- The registers in reset. -/
def resetRegs : Regs where
  pc := 0#14
  lpc := 0#14
  ir := 0#48
  iwr := 0#48
  inop := false
  iwrited := false
  halted := false
  statstop := false
  opcs := fun _ => 0#14
  st := 0#32
  l := 0#32
  wadr := 0#10
  destd := false
  destmd := false
  pwidx := false
  pdlwrited := false
  spushd := false
  destspcd := false
  reta := 0#14
  spcptr := 0#5
  pdlPtr := 0#10
  pdlIdx := 0#10
  lcQ := 0#26
  newlc := false
  nextInstrd := false
  sintrD := false
  imodd := false
  lcByteMode := false
  progUnibusReset := false
  intEnable := false
  sequenceBreak := false
  q := 0#32
  wmapd := false
  vma := 0#32
  dc := 0#10

/-- The processor in reset, over the memories as they stand; the no-auto-boot switch decides
SRUN. -/
def resetCpu (mems : Mems) (noAutoBoot : Bool) : Processor where
  clock :=
    { gen := PhaseGen.reset, tpclkQ := false, started := false, phaseT := 0, speed := 0#2,
      speedA := 0#2, nTpwpQ := true, nTpwpiramQ := true }
  regs := resetRegs
  mems := mems
  vctl :=
    { memstart := false, mbusy := false, mbusySync := false, rdcyc := false, wrcyc := false,
      rdInProgress := false, lvmo := 3#2 ++ 0#8 ++ BitVec.allOnes 14, nMemackQ := true,
      mfinishT := 0, rdfinishT := 0, memgoQ := false, destmemQ := false, useMdQ := false,
      ifetchQ := false, physR := 0#22, wdata := 0#32 }
  mdp :=
    { md := 0#32, mdHeld := 0#32, mdPending := false, nLoadmdQ := true, mdWeQ := false,
      mwEarlyQ := false, mwEarlyQ2 := false, mwK1Q := false, mwLate2Q := false }
  olord :=
    { trap := true, promdisabled := false, srun := !noAutoBoot, sstep := false, ssdone := false }

/-- The machine in reset. -/
def reset (mems : Mems) (noAutoBoot : Bool) : Machine where
  cpu := resetCpu mems noAutoBoot
  bus := Busint.reset
  spy :=
    { spy :=
        { run := !noAutoBoot, step := false, nop11 := false, idebug := false, ldstat := false,
          debugIr := 0#48, promdisable := false, errstop := false, stathenb := false,
          modeSpeed := 0#2 }
      phaseT := 0 }

/-- The machine at a clock of a run out of reset. -/
def at_ (mems : Mems) (noAutoBoot : Bool) (inputs : Nat → MachIn) (clock : Nat) : Machine :=
  Sync.trace next (reset mems noAutoBoot) inputs clock

/-- Memories with a boot PROM and a map that permits everything, the rest clear. -/
def bootMems (words : List (BitVec 48)) : Mems where
  prom := fun adr => words.getD adr.toNat 0#48
  promQ := 0#48
  imem := fun _ => 0#48
  imemQ := 0#48
  amem := fun _ => 0#32
  amemQ := 0#32
  mmem := fun _ => 0#32
  mmemQ := 0#32
  pdl := fun _ => 0#32
  pdlQ := 0#32
  spcm := fun _ => 0#19
  spcQ := 0#19
  l1Map := fun _ => 0#5
  l2Map := fun _ => BitVec.allOnes 24
  dmem := fun _ => 0#17

/-- The instruction that starts a read. -/
def startRead : BitVec 48 := 0x880000#48

/-- An instruction whose source is MD. -/
def readMd : BitVec 48 := 0xa8000000#48

/-- A tick with nothing at the machine but its slaves. -/
def quietIn (unibus devAck : Bool) : MachIn where
  nBoot := true
  console := none
  bus :=
    { devAck := devAck, devHold := false, unibus := unibus, selectDebug := false, ubSsyn := false }
  rdata := 0#32
  sintr := false
  ubMdReq := false
  ubMdData := 0#32

end Machine

end MuirFpga.Cadr
