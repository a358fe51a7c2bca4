import MuirFpga.Cadr.PhaseGen

/-!
# The bus interface's memory cycle

`cadr_busint_xbus`: the request sampled at the master clock, the grant, the cycle on the
Xbus or the arbitration and the cycle on the Unibus, the acknowledgment, and the timer that
ends a cycle nothing answers. Counters are natural numbers with the source's saturation or
width written out.
-/

namespace MuirFpga.Cadr

/-- Where a cycle stands. -/
inductive BusState
  /-- No cycle. -/
  | idle
  /-- `-MEMRQ` is low and not yet sampled. -/
  | requested
  /-- Arbitrating for the Unibus. -/
  | arb
  /-- The Unibus transfer runs. -/
  | ub
  /-- The processor has the Xbus and the cycle runs. -/
  | granted
  /-- `-MEMACK` is up. -/
  | acked
  deriving DecidableEq

/-- The interface's registers. -/
structure Busint where
  /-- Nanoseconds into the oscillator's half period. -/
  vcoAcc : Nat
  /-- The oscillator. -/
  vco : Bool
  /-- The timer ended this cycle. -/
  nxm : Bool
  /-- The gated output has taken its first fall. -/
  tmrFell : Bool
  /-- Rises of the gated output since, four bits. -/
  tmrRises : Nat
  /-- Where the cycle stands. -/
  state : BusState
  /-- The arbitration's stage. -/
  stage : Nat
  /-- Ticks since `-SACK` went out, saturating. -/
  arbT : Nat
  /-- This machine has the Unibus. -/
  ubMaster : Bool
  /-- The Unibus slave has answered, or the timer for it. -/
  ssynSeen : Bool
  /-- When `-LMACK` is due. -/
  ubAckAt : Nat
  /-- When the MD strobe is due. -/
  ubMdAt : Nat
  /-- WRCYC latched for the cycle. -/
  write : Bool
  /-- Ticks since the grant, saturating. -/
  elapsed : Nat
  /-- The slave has answered a read. -/
  answered : Bool
  /-- Ticks since it did, saturating. -/
  sinceAnswer : Nat
  /-- The read's deskew is over. -/
  deskewed : Bool
  /-- The Unibus acknowledgment. -/
  ubAcked : Bool
  /-- The Unibus strobe of MD. -/
  ubLoadmd : Bool

/-- What the interface takes in one tick, the processor's lines apart. -/
structure BusIn where
  /-- The Xbus slave gives or takes the word. -/
  devAck : Bool
  /-- A slave that always answers has the cycle. -/
  devHold : Bool
  /-- The address is on the Unibus. -/
  unibus : Bool
  /-- The cycle is into the debug block. -/
  selectDebug : Bool
  /-- `-UB SSYN`. -/
  ubSsyn : Bool

namespace Busint

/-- `SETUP_T`: the grant to `-XBUS.RQ`. -/
def setupT : Nat := ticks 80
/-- `DESKEW_T`: a read's answer to its acknowledgment. -/
def deskewT : Nat := ticks 60
/-- `VCO_HALF_NS`: the timeout oscillator's half period. -/
def vcoHalfNs : Nat := 425
/-- `UB_SELECT_T`: `-SACK` to the grant. -/
def ubSelectT : Nat := ticks 200
/-- `UB_ADDRESS_T`: the grant to `-UB MSYN`. -/
def ubAddressT : Nat := ticks 100
/-- `UB_ACK_T`: `-UB SSYN` to `-LMACK`. -/
def ubAckT : Nat := ticks 150
/-- `UB_STROBE_T`: `-UB SSYN` to the MD strobe. -/
def ubStrobeT : Nat := ticks 100

/-- The interface in reset: the oscillator two ticks short of its first rise. -/
def reset : Busint where
  vcoAcc := vcoHalfNs - 2 * 10
  vco := false
  nxm := false
  tmrFell := false
  tmrRises := 0
  state := .idle
  stage := 0
  arbT := 0
  ubMaster := false
  ssynSeen := false
  ubAckAt := 0
  ubMdAt := 0
  write := false
  elapsed := 0
  answered := false
  sinceAnswer := 0
  deskewed := false
  ubAcked := false
  ubLoadmd := false

/-- `vco_toggle`: the oscillator's output moves at the end of this tick. -/
def vcoToggle (b : Busint) : Bool := decide (vcoHalfNs - 10 ≤ b.vcoAcc)

/-- `tmr_want`: the rises this cycle's timeout table asks for. -/
def tmrWant (i : BusIn) : Nat := if i.selectDebug then 14 else 6

/-- `nxm_due`: the last rise comes at the end of the next tick. -/
def nxmDue (i : BusIn) (b : Busint) : Bool :=
  b.tmrFell && !b.vco && !b.vcoToggle && (b.tmrRises + 1) % 16 == tmrWant i
    && decide (vcoHalfNs - 2 * 10 ≤ b.vcoAcc)

/-- `ack_standing`: the acknowledgment stands until `-MEMRQ` is lifted. -/
def ackStanding (memrq : Bool) (b : Busint) : Bool := b.state == .acked && memrq

/-- `dev_rq`: the request on the Xbus. -/
def devRq (memrq : Bool) (b : Busint) : Bool :=
  (b.state == .granted && decide (setupT - 1 ≤ b.elapsed)) || b.ackStanding memrq

/-- `ub_msyn`: the Unibus master's strobe. -/
def ubMsyn (b : Busint) : Bool := b.state == .ub && decide (ubAddressT - 1 ≤ b.elapsed)

/-- `answering`: the slave gives or takes the word this tick. -/
def answering (i : BusIn) (memrq : Bool) (b : Busint) : Bool :=
  b.state == .granted && b.devRq memrq && i.devAck

/-- `acked`: MEMACK. -/
def acked (i : BusIn) (memrq : Bool) (b : Busint) : Bool :=
  b.ackStanding memrq
    || (b.state == .granted && ((b.write && b.answering i memrq) || b.deskewed))
    || (b.state == .ub && b.ubAcked)

/-- `n_memgrant`: low while the processor has a bus. -/
def nMemgrant (b : Busint) : Bool :=
  !(b.state == .granted || b.state == .ub || b.state == .acked)

/-- `n_memack`. -/
def nMemack (i : BusIn) (memrq : Bool) (b : Busint) : Bool := !b.acked i memrq

/-- `n_loadmd`: with the acknowledgment on the Xbus, before it on the Unibus. -/
def nLoadmd (i : BusIn) (memrq : Bool) (b : Busint) : Bool :=
  !(b.acked i memrq || (b.state == .ub && b.ubLoadmd))

/-- The oscillator, which runs whatever the cycle does. -/
def oscillate (b : Busint) : Busint :=
  if b.vcoToggle then { b with vcoAcc := b.vcoAcc + 10 - vcoHalfNs, vco := !b.vco }
  else { b with vcoAcc := b.vcoAcc + 10 }

/-- The grant's clear of the cycle's counters. -/
def clearCycle (b : Busint) : Busint :=
  { b with
    elapsed := 0, answered := false, sinceAnswer := 0, ssynSeen := false, ubAckAt := 0,
    ubMdAt := 0, tmrFell := false, tmrRises := 0, nxm := false }

/-- A request sampled: the Xbus granted, or the Unibus arbitrated for. -/
def grant (i : BusIn) (b : Busint) : Busint :=
  if i.unibus then { b.clearCycle with state := .arb, stage := if b.ubMaster then 4 else 1 }
  else { b.clearCycle with state := .granted }

/-- The taps and the timer, which run in every state. -/
def taps (i : BusIn) (b : Busint) : Busint :=
  let deskewDue := b.answered && b.state == .granted && decide (deskewT - 1 ≤ b.sinceAnswer)
  let ubAckDue := b.ssynSeen && b.state == .ub && decide (b.ubAckAt ≤ b.elapsed)
  let ubMdDue := b.ssynSeen && b.state == .ub && decide (b.ubMdAt ≤ b.elapsed)
  let timing := b.state == .granted || b.state == .ub
  let falls := timing && b.vcoToggle && !b.tmrFell && b.vco
  let rises := timing && b.vcoToggle && b.tmrFell && !b.vco
  let ends := b.state == .granted && b.nxmDue i && !i.devHold
  { b with
    arbT := if b.arbT = 511 then 511 else b.arbT + 1
    deskewed := deskewDue
    ubAcked := ubAckDue
    ubLoadmd := ubMdDue
    tmrFell := falls || b.tmrFell
    tmrRises := if rises then (b.tmrRises + 1) % 16 else b.tmrRises
    state := if ends then .acked else b.state
    nxm := ends || b.nxm }

/-- One stage of the arbitration, at a master clock. -/
def arbitrate (b u : Busint) : Busint :=
  if b.stage = 1 then { u with stage := 2 }
  else if b.stage = 2 then { u with stage := 3, arbT := 0 }
  else if b.stage = 3 then
    (if ubSelectT ≤ b.arbT then { u with stage := 4, ubMaster := true } else u)
  else if b.stage = 4 then { u with stage := 5 }
  else { u with state := .ub, elapsed := 0 }

/-- `elapsed`, counting up to its saturation. -/
def elapse (b : Busint) : Nat := if b.elapsed = 2047 then 2047 else b.elapsed + 1

/-- One tick of the interface. -/
def next (i : BusIn) (mclk memrq wrcyc : Bool) (b : Busint) : Busint :=
  let u := b.taps i
  let stepped := match b.state with
    | .idle =>
      if memrq then
        (if mclk then { u with write := wrcyc }.grant i
          else { u with write := wrcyc, state := .requested })
      else u
    | .requested =>
      if mclk && !memrq then { u with state := .idle }
      else if mclk then u.grant i else u
    | .arb => if mclk then arbitrate b u else u
    | .ub =>
      let u := { u with elapsed := b.elapse }
      if b.acked i memrq then { u with state := .acked }
      else if b.ubMsyn && i.ubSsyn && !b.ssynSeen then
        { u with
          ssynSeen := true, ubAckAt := (b.elapsed + ubAckT - 1) % 2048,
          ubMdAt := (b.elapsed + ubStrobeT - 1) % 2048 }
      else if b.nxmDue i && !b.ssynSeen then
        { u with
          ssynSeen := true, nxm := true, ubAckAt := (b.elapsed + ubAckT) % 2048,
          ubMdAt := (b.elapsed + ubStrobeT) % 2048 }
      else u
    | .granted =>
      let u := { u with
        elapsed := b.elapse
        sinceAnswer := if b.answered && b.sinceAnswer ≠ 15 then b.sinceAnswer + 1
          else b.sinceAnswer }
      if b.acked i memrq then { u with state := .acked }
      else if b.answering i memrq && !b.answered then
        { u with answered := true, sinceAnswer := 1 }
      else u
    | .acked => if memrq then u else { u with state := .idle }
  { stepped with vcoAcc := b.oscillate.vcoAcc, vco := b.oscillate.vco }

end Busint

end MuirFpga.Cadr
