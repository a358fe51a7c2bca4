import MuirFpga.Disk.Controller
import MuirFpga.Sync.Trace

/-!
# The controller and its block store, together

A clock of both, and what it leaves alone in a clock that no reset, no command and no START comes in: the walk
then goes by its own state, and a slot the pack side does not write holds what it held.
-/

namespace MuirFpga.Disk

open Quux (Seam)

/-- The controller and the store it walks. -/
structure Machine where
  c : Controller
  s : Store

namespace Machine

/-- A clock of both. -/
def next (x : Input × Seam) (d : Machine) : Machine := ⟨d.c.next x.1 x.2 d.s, d.s.next x.2 d.c⟩

/-- Clock after clock, under what comes in. -/
def run (d : Machine) (inputs : Nat → Input × Seam) : Nat → Machine := Sync.trace next d inputs

/-- The walk is let alone: no reset, no `-XBUS INIT`, and no store acted on but of CLP or DA. -/
structure Undisturbed (x : Input × Seam) (d : Machine) : Prop where
  running : d.c.rstQ = false
  uninit : x.1.xbusInit = false
  noStart : d.c.face.stGo = true → d.c.face.stWhich = 1#2 ∨ d.c.face.stWhich = 2#2

/-- The pack side writes neither the slot's words nor what is beside them. -/
def Leaves (slot : BitVec 5) (x : Input × Seam) : Prop :=
  x.2.data = true ∨ x.2.beside = true → x.2.slot ≠ slot

/-- The words of a slot. -/
def words (d : Machine) (slot : BitVec 5) (k : BitVec 8) : BitVec 32 := d.s.ram (slot ++ k)

end Machine

namespace Controller

variable {c : Controller} {i : Input} {m : Seam} {s : Store} {x : Controller}

theorem streamStep_of_ne (apart : c.walk.chState ≠ .trd) : c.streamStep x = x := by
  have still : c.trkAdv = false := by
    unfold trkAdv
    rw [beq_eq_false_iff_ne.mpr apart, Bool.false_and]
  unfold streamStep
  rw [still]
  rfl

/-- Two controllers with one walk, the errors and what it found with it. -/
structure Alike (x y : Controller) : Prop where
  walk : x.walk = y.walk
  errors : x.errors = y.errors
  parser : x.parser = y.parser
  access : x.access = y.access
  eccReg : x.regs.eccReg = y.regs.eccReg
  lma : x.regs.lma = y.regs.lma

theorem Alike.refl (x : Controller) : Alike x x := ⟨rfl, rfl, rfl, rfl, rfl, rfl⟩

theorem Alike.trans {x y z : Controller} (first : Alike x y) (second : Alike y z) : Alike x z :=
  ⟨first.walk.trans second.walk, first.errors.trans second.errors, first.parser.trans second.parser,
    first.access.trans second.access, first.eccReg.trans second.eccReg, first.lma.trans second.lma⟩

theorem goStep_alike (noStart : c.face.stGo = true → c.face.stWhich = 1#2 ∨ c.face.stWhich = 2#2) :
    Alike (c.goStep i x) x := by
  unfold goStep
  by_cases go : c.face.stGo = true
  · rw [if_pos go]
    rcases noStart go with clp | da
    · rw [clp]
      exact ⟨rfl, rfl, rfl, rfl, rfl, rfl⟩
    · rw [da]
      exact ⟨rfl, rfl, rfl, rfl, rfl, rfl⟩
  · rw [if_neg go]
    exact .refl x

theorem takenStep_alike : Alike (c.takenStep i x) x := by
  unfold takenStep
  split_ifs <;> exact ⟨rfl, rfl, rfl, rfl, rfl, rfl⟩

end Controller

namespace Machine

variable {x : Input × Seam} {d : Machine}

/-- What a clock's own state makes, before a store is acted on. -/
def stated (x : Input × Seam) (d : Machine) : Controller :=
  d.c.stateStep x.1 x.2 d.s (d.c.streamStep (d.c.flow x.1 d.s))

namespace Undisturbed

variable (calm : Undisturbed x d)

include calm

theorem alike : Controller.Alike (d.next x).c (stated x d) := by
  have runs : (if d.c.rstQ then d.c.reset else d.c.runs x.1 x.2 d.s)
      = d.c.goStep x.1 (d.c.takenStep x.1 (stated x d)) := by
    rw [calm.running, if_neg Bool.false_ne_true]
    unfold Controller.runs Controller.initStep
    rw [calm.uninit]
    rfl
  have made : Controller.Alike (d.next x).c (if d.c.rstQ then d.c.reset else d.c.runs x.1 x.2 d.s) :=
    ⟨rfl, rfl, rfl, rfl, rfl, rfl⟩
  rw [runs] at made
  exact made.trans ((Controller.goStep_alike calm.noStart).trans Controller.takenStep_alike)

end Undisturbed

theorem stated_of_ne (apart : d.c.walk.chState ≠ .trd) :
    stated x d = d.c.stateStep x.1 x.2 d.s (d.c.flow x.1 d.s) := by
  unfold stated
  rw [Controller.streamStep_of_ne apart]

section Held

variable {slot : BitVec 5}

theorem slot_of_address {other : BitVec 5} {j k : BitVec 8} (same : slot ++ j = other ++ k) : slot = other := by
  have upper := congrArg (fun a : BitVec 13 => a.extractLsb' 8 5) same
  rwa [BitVec.extractLsb'_append_eq_left, BitVec.extractLsb'_append_eq_left] at upper

theorem words_next (leaves : Leaves slot x) (still : d.c.chbWe = false) : (d.next x).words slot = d.words slot := by
  funext k
  show Store.ramNext x.2 d.c d.s.ram (slot ++ k) = d.s.ram (slot ++ k)
  unfold Store.ramNext
  rw [still, if_neg Bool.false_ne_true]
  split
  · next written =>
    apply Function.update_of_ne
    intro same
    exact leaves (.inl written) (slot_of_address same).symm
  · rfl

theorem dck_next (leaves : Leaves slot x) (unfresh : d.c.walk.chDckWe = false) (unlaid : d.c.parser.trkMetaWe = false) :
    (d.next x).s.dck slot = d.s.dck slot := by
  show Store.besideNext x.2 2#2 d.c d.c.parser.psDck true d.s.dck slot = d.s.dck slot
  unfold Store.besideNext
  rw [unfresh, unlaid, if_neg Bool.false_ne_true, if_neg Bool.false_ne_true]
  split
  · next written =>
    split
    · exact Function.update_of_ne (leaves (.inr written)).symm _ _
    · rfl
  · rfl

end Held

end Machine

end MuirFpga.Disk
