import MuirFpga.Sync.Trace

/-!
# The diagnostic registers

`cadr_spy_registers`, the sixteen registers at `0o766000` as a slave of the Unibus: a write is taken off the bus
at its strobe and held for the machine's next look at the registers, a microcycle boundary or SPEEDCLK; one due
at SPEEDCLK or in the tick after lands there, off the bus. The words read are the processor's own.
-/

namespace MuirFpga.Spy

abbrev Word := BitVec 16

/-- What a master drives on the Unibus. -/
structure Lines where
  msyn : Bool
  write : Bool
  addr : BitVec 18
  wdata : Word

namespace Lines

variable (l : Lines)

/-- `selected`: one of the sixteen. -/
def selected : Bool := 0o766000 ≤ l.addr.toNat && l.addr.toNat < 0o766000 + 0o40

/-- `EADR<3:0>`. -/
def eadr : BitVec 4 := l.addr.extractLsb' 1 4

end Lines

/-- A word for one of the registers. -/
structure RegWrite where
  eadr : BitVec 4
  word : Word
deriving DecidableEq

section Console

/-- The machine's console state: the clock control register, the mode register and the debug IR. -/
structure ConsoleRegs where
  run : Bool
  step : Bool
  nop11 : Bool
  idebug : Bool
  ldstat : Bool
  debugIr : BitVec 48
  promdisable : Bool
  errstop : Bool
  stathenb : Bool
  modeSpeed : BitVec 2

namespace ConsoleRegs

variable (r : ConsoleRegs)

/-- The word lands in its own register: `REG_IR_LOW`, `REG_IR_MED`, `REG_IR_HIGH`, `REG_CLK` or `REG_MODE`. -/
def land (w : RegWrite) : ConsoleRegs :=
  match w.eadr.toNat with
  | 3 =>
    { r with
      run := w.word.getLsbD 0
      step := w.word.getLsbD 1
      nop11 := w.word.getLsbD 2
      idebug := w.word.getLsbD 3
      ldstat := w.word.getLsbD 4 }
  | 0 => { r with debugIr := r.debugIr.extractLsb' 16 32 ++ w.word }
  | 1 => { r with debugIr := r.debugIr.extractLsb' 32 16 ++ w.word ++ r.debugIr.extractLsb' 0 16 }
  | 2 => { r with debugIr := w.word ++ r.debugIr.extractLsb' 0 32 }
  | 5 =>
    { r with
      modeSpeed := w.word.extractLsb' 0 2
      errstop := w.word.getLsbD 2
      stathenb := w.word.getLsbD 3
      promdisable := w.word.getLsbD 5 }
  | _ => r

/-- `-BOOT`: RUN preset and the two 74S175s cleared. -/
def boot : ConsoleRegs where
  run := true
  step := false
  nop11 := false
  idebug := false
  ldstat := false
  debugIr := r.debugIr
  promdisable := false
  errstop := false
  stathenb := false
  modeSpeed := 0

end ConsoleRegs

end Console

def SSYN_T : Nat := 25
def STROBE_T : Nat := 15
def PULSE_T : Nat := 5
def SPEEDCLK_T : Nat := 6

structure Registers where
  running : Bool
  elapsed : Nat
  ubSsyn : Bool
  progReset : Bool
  progBoot : Bool
  console : ConsoleRegs
  phaseT : Nat
  pending : Bool
  held : RegWrite
  earlyTaken : Bool

namespace Registers

/-- The block as its reset leaves it, the machine running unless it waits for its boot button. -/
def reset (noAutoBoot : Bool) : Registers where
  running := false
  elapsed := 0
  ubSsyn := false
  progReset := false
  progBoot := false
  console :=
    { run := !noAutoBoot
      step := false
      nop11 := false
      idebug := false
      ldstat := false
      debugIr := 0
      promdisable := false
      errstop := false
      stathenb := false
      modeSpeed := 0 }
  phaseT := 0
  pending := false
  held := ⟨0, 0⟩
  earlyTaken := false

variable (sync mclk : Bool) (l : Lines) (s : Registers)

/-- The machine looks at its registers in this tick. -/
def landing : Bool := mclk || (!sync && s.phaseT = SPEEDCLK_T - 3)

/-- A write is on the bus, so many ticks in. -/
def writing (elapsed : Nat) : Bool := l.msyn && l.selected && l.write && s.running && s.elapsed = elapsed

def strobeDue : Bool := s.writing l (STROBE_T - 1) || s.writing l (STROBE_T - 2)

/-- The write due is landed here and not strobed again. -/
def early : Bool := !sync && !mclk && s.phaseT = SPEEDCLK_T - 3 && s.strobeDue l && !s.earlyTaken

/-- The write on the bus, and the one that lands where one does. -/
def onBus : RegWrite := ⟨l.eadr, l.wdata⟩
def landWord : RegWrite := if s.pending then s.held else onBus l
def lands : Option RegWrite :=
  if (s.pending && s.landing sync mclk) || s.early sync mclk l then some (s.landWord l) else none

/-- The strobe of a write, and the word held at it. -/
def strobes : Bool := s.writing l (STROBE_T - 1)
def captures : Bool := s.strobes l && !s.early sync mclk l && !s.earlyTaken

variable (booting : Bool) (page : Option Bool)

/-- The console state after a tick: a word lands, the page's error stop is written, and `-BOOT` comes last. -/
def consoleNext : ConsoleRegs :=
  let landed := match s.lands sync mclk l with
    | some w => s.console.land w
    | none => s.console
  let paged := match page with
    | some errstop => { landed with errstop }
    | none => landed
  if booting then paged.boot else paged

def next : Registers where
  running := if !l.msyn then false else if l.selected then true else s.running
  elapsed := if !l.msyn then 0 else if l.selected && s.elapsed ≠ 511 then s.elapsed + 1 else s.elapsed
  ubSsyn := if !l.msyn then false
    else if l.selected && s.running && SSYN_T - 1 ≤ s.elapsed then true else s.ubSsyn
  progReset := s.writing l PULSE_T && l.eadr = 5 && l.wdata.getLsbD 6
  progBoot := s.writing l PULSE_T && l.eadr = 5 && l.wdata.getLsbD 7
  console := s.consoleNext sync mclk l booting page
  phaseT := if mclk then 0 else if s.phaseT ≠ 63 then s.phaseT + 1 else s.phaseT
  pending := if booting then false else if s.captures sync mclk l then true
    else if (s.pending && s.landing sync mclk) || s.early sync mclk l then false else s.pending
  held := if s.captures sync mclk l then onBus l else s.held
  earlyTaken := if !l.msyn then false else if s.early sync mclk l then true else s.earlyTaken

end Registers

end MuirFpga.Spy
