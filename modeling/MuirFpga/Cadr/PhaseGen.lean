import Mathlib.Data.BitVec

/-!
# The clock generator

`cadr_phase_gen`: the ring that makes the read phase, the write pulses and the boundary of
every microcycle. Instants are counted in ticks of the grid; the taps are held one tick
early, as the source holds them. `hang` holds the next boundary off: the ring parks one
tick past its last.
-/

namespace MuirFpga.Cadr

/-- `cadr_tick_pkg::ticks`: nanoseconds to ticks of the 10 ns grid, rounded up. -/
def ticks (ns : Nat) : Nat := (ns + 10 - 1) / 10

/-- The generator's registers. -/
structure PhaseGen where
  /-- Ticks since `-TPR0`. -/
  phase : Nat
  /-- A cycle has started; low while reset is held. -/
  running : Bool
  /-- The tap that ends the read phase. -/
  tpclkOffAt : Nat
  /-- `-TPW30`. -/
  wpOnAt : Nat
  /-- `-TPW45`. -/
  wpiramOffAt : Nat
  /-- The last tick of the cycle. -/
  wrapAt : Nat
  /-- Where `-HANG` holds the ring. -/
  parkAt : Nat
  /-- The tick before the last. -/
  penultAt : Nat
  /-- The read phase's clock. -/
  tpclk : Bool
  /-- The source enable. -/
  tptse : Bool
  /-- The scratchpads' write pulse, active low. -/
  nTpwp : Bool
  /-- The control store's write pulse, active low. -/
  nTpwpiram : Bool

namespace PhaseGen

/-- `read_sel`: the read phase in ticks, off the speed and `ILONG`. -/
def readSel (speed : BitVec 2) (ilong : Bool) : Nat :=
  if speed = 3#2 then (if ilong then ticks (75 + 40) else ticks 75)
  else if speed = 2#2 then (if ilong then ticks (85 + 40) else ticks 85)
  else if speed = 1#2 then (if ilong then ticks (100 + 40) else ticks 100)
  else ticks 160

/-- The taps off a read phase of `read` ticks. -/
def withTaps (g : PhaseGen) (read : Nat) : PhaseGen :=
  { g with
    tpclkOffAt := read - 1
    wpOnAt := read + ticks 30 - 1
    wpiramOffAt := read + ticks 45 - 1
    wrapAt := read + ticks 60 - 1
    parkAt := read + ticks 60
    penultAt := read + ticks 60 - 2 }

/-- The generator held in reset: every output clear, the taps of normal speed. -/
def reset : PhaseGen :=
  withTaps
    { phase := 0, running := false, tpclkOffAt := 0, wpOnAt := 0, wpiramOffAt := 0, wrapAt := 0,
      parkAt := 0, penultAt := 0, tpclk := false, tptse := false, nTpwp := true,
      nTpwpiram := true } (ticks 85)

/-- `wrap`: the cycle's last tick, or the ring parked. -/
def wrap (g : PhaseGen) : Bool := g.phase == g.wrapAt || g.phase == g.parkAt

/-- `phase_next`: the boundary, the park, or the next tick. -/
def phaseNext (g : PhaseGen) (hang : Bool) : Nat :=
  if g.wrap then (if hang then g.parkAt else 0) else g.phase + 1

/-- One tick of the generator. -/
def next (g : PhaseGen) (hang ilong : Bool) (speed : BitVec 2) : PhaseGen :=
  if !g.running then { g with running := true, phase := 0, tpclk := true }
  else
    let taps := if g.phase = ticks 65 - 1 then g.withTaps (readSel speed ilong) else g
    { taps with
      phase := g.phaseNext hang
      tpclk := if g.phase = g.tpclkOffAt then false
        else if g.phaseNext hang = 0 then true else g.tpclk
      tptse := if g.phase = ticks 25 - 1 then true
        else if g.phase = ticks 5 - 1 then false else g.tptse
      nTpwp := if g.phase = g.wpOnAt then false else if g.wrap then true else g.nTpwp
      nTpwpiram := if g.phase = g.wpiramOffAt then true
        else if g.phase = g.tpclkOffAt then false else g.nTpwpiram }

/-- `penult`: the tick before the cycle's last. -/
def penult (g : PhaseGen) : Bool := g.running && g.phase == g.penultAt

/-- `last`: the cycle's last tick. -/
def last (g : PhaseGen) : Bool := g.running && g.phase == g.wrapAt

end PhaseGen

end MuirFpga.Cadr
