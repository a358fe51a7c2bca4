import MuirFpga.Spy.Registers
import MuirFpga.Plumbing.DebugWindow

/-!
# The masters of the diagnostic bus

`cadr_console_bus` keeps three masters apart: the processor, the debug cable's `cadr_dbgin` and the console's
engine. The bus is taken with the processor's strobe down and held until its master lets go. The cable's lines
and the processor's are the world's, and so is the tick the console gives a cycle up in.
-/

namespace MuirFpga.Spy

open Sync

open Plumbing (Dbgin DbginConfig CableLines)

section Cable

theorem msyn_lead : 2 ≤ 10 := by decide

theorem release_lead : 1 ≤ 10 := by decide

/-- `cadr_dbgin`'s `MSYN_T` and `RELEASE_T`. -/
def dbginConfig : DbginConfig := ⟨10, 10, msyn_lead, release_lead⟩

/-- The cable's end asks for the bus. -/
def dbgReq (g : Dbgin) : Bool := g.cst ≠ .idle

/-- The lines of this master. -/
def dbgLines (l : CableLines) (g : Dbgin) : Lines where
  msyn := g.ubMsyn
  write := l.wr
  addr := g.modifier.extractLsb' 0 1 ++ g.address ++ (0 : BitVec 1)
  wdata := l.dbd

end Cable

section Engine

/-- A cycle one of the console's two sides asks for. -/
structure Asked where
  write : Bool
  eadr : BitVec 4
  wdata : Word

/-- `E_IDLE`, `E_GRANT`, `E_ACTIVE` and `E_DROP`. -/
inductive EState where
  | idle
  | grant
  | active
  | drop
deriving DecidableEq

/-- The console's diagnostic engine. -/
structure Engine where
  est : EState
  asked : Asked

namespace Engine

def reset : Engine := ⟨.idle, ⟨false, 0, 0⟩⟩

variable (s : Engine)

def conReq : Bool := s.est ≠ .idle

def lines : Lines where
  msyn := s.est = .active
  write := s.asked.write
  addr := 0o766000#18 ||| (0 : BitVec 13) ++ s.asked.eadr ++ (0 : BitVec 1)
  wdata := s.asked.wdata

/-- One tick. A cycle not answered is given up in a tick the world picks, where the engine counts `LOST_T`. -/
def next (ask : Option Asked) (giveUp gnt ssyn : Bool) : Engine where
  est := match s.est with
    | .idle => if ask.isSome then .grant else .idle
    | .grant => if gnt then .active else if giveUp then .drop else .grant
    | .active => if ssyn || giveUp then .drop else .active
    | .drop => if ssyn then .drop else .idle
  asked := match s.est, ask with
    | .idle, some asked => asked
    | _, _ => s.asked

end Engine

end Engine

section Bus

/-- The bus's masters. -/
inductive Master where
  | processor
  | debug
  | console

structure ConsoleBus where
  conOwn : Bool
  dbgOwn : Bool
  conQ : Lines
  conRdata : Word

namespace ConsoleBus

def reset : ConsoleBus := ⟨false, false, ⟨false, false, 0, 0⟩, 0⟩

variable (s : ConsoleBus)

def master : Master := if s.dbgOwn then .debug else if s.conOwn then .console else .processor

/-- What the register block sees. -/
def srLines (cpu dbg : Lines) : Lines := if s.dbgOwn then dbg else if s.conOwn then s.conQ else cpu

def cpuSsyn (ssyn : Bool) : Bool := if s.dbgOwn || s.conOwn then false else ssyn
def conSsyn (ssyn : Bool) : Bool := if s.conOwn && !s.dbgOwn then ssyn else false
def dbgSsyn (ssyn : Bool) : Bool := if s.dbgOwn then ssyn else false

def next (mclk cpuMsyn dbgReq conReq : Bool) (con : Lines) (rdata : Word) : ConsoleBus where
  dbgOwn := if s.dbgOwn then dbgReq else dbgReq && !cpuMsyn && !s.conOwn
  conOwn := if s.conOwn then conReq else conReq && !cpuMsyn && !dbgReq && !s.dbgOwn
  conQ := con
  conRdata := if mclk then rdata else s.conRdata

end ConsoleBus

end Bus

/-- What a tick brings. -/
structure SpyTick where
  mclk : Bool
  booting : Bool
  page : Option Bool
  spyRdata : Word
  cpu : Lines
  cable : CableLines
  ask : Option Asked
  giveUp : Bool

/-- The bus, its masters and the registers. -/
structure Shared where
  bus : ConsoleBus
  dbgin : Dbgin
  engine : Engine
  regs : Registers

namespace Shared

variable (sync : Bool) (i : SpyTick) (s : Shared)

/-- What the register block sees. -/
def sr : Lines := s.bus.srLines i.cpu (dbgLines i.cable s.dbgin)

def next : Shared where
  bus := s.bus.next i.mclk i.cpu.msyn (dbgReq s.dbgin) s.engine.conReq s.engine.lines i.spyRdata
  dbgin := s.dbgin.next dbginConfig i.cable ⟨false, 0, s.bus.dbgOwn, s.bus.dbgSsyn s.regs.ubSsyn, i.spyRdata⟩
  engine := s.engine.next i.ask i.giveUp s.bus.conOwn (s.bus.conSsyn s.regs.ubSsyn)
  regs := s.regs.next sync i.mclk (s.sr i) i.booting i.page

/-- The system as its reset leaves it. -/
def powerUp (noAutoBoot : Bool) : Shared := ⟨.reset, .reset, .reset, .reset noAutoBoot⟩

/-- A run: whether the machine's clock is the synchronous one, whether it waits for its boot button, and what each
tick brings. -/
structure SpyRun where
  sync : Bool
  noAutoBoot : Bool
  ticks : Nat → SpyTick

/-- The system at a clock. -/
def run (r : SpyRun) (clock : Nat) : Shared := trace (next r.sync) (powerUp r.noAutoBoot) r.ticks clock

end Shared

end MuirFpga.Spy
