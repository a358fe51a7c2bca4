import Mathlib.Data.BitVec

/-!
# Revision 15's EX datapath

`quux15_exec` as far as the words it puts on the output bus and in `Q`: the 74S181 array under page
ALUC4, the tag, the output select, `Q`'s step, the fixnum overflow flag, LC's adder, and BYTE's
rotator and masker. The conditions of a JUMP and the address of a DISPATCH are left out.
-/

namespace MuirFpga.Quux

/-- What EX runs: the word, its operands, LC and the divider's words. -/
structure ExecWord where
  ir : BitVec 48
  m : BitVec 40
  a : BitVec 40
  q : BitVec 40
  lc : BitVec 34
  byteMode : Bool
  mulOb : BitVec 32
  mulQ : BitVec 32
  divOb : BitVec 32
  divQ : BitVec 32

namespace ExecWord

variable (e : ExecWord)

/-- `mod40`, `rol40` and `mask40`: the ring of 40. -/
def mod40 (k : Nat) : Nat := if 80 ≤ k then k - 80 else if 40 ≤ k then k - 40 else k
def rol40 (v : BitVec 40) (k : Nat) : BitVec 40 :=
  let s := mod40 k
  if s = 0 then v else v <<< s ||| v >>> (40 - s)
def mask40 (right n : Nat) : BitVec 40 :=
  if 39 < right + n then 0 else (BitVec.allOnes 40 >>> (39 - n)) <<< right

/-- `lc_rotation`. -/
def lcRotation (rotate : Nat) : Nat :=
  let add :=
    if e.byteMode then
      match (e.lc.extractLsb' 0 2).toNat with
      | 0 => 16
      | 1 => 0
      | 2 => 32
      | _ => 24
    else if e.lc.getLsbD 1 then 0 else 24
  mod40 (rotate + add)

def cls : BitVec 2 := e.ir.extractLsb' 43 2
def iralu : Bool := e.cls == 0#2
def irjump : Bool := e.cls == 1#2

def isMul : Bool := e.iralu && e.ir.getLsbD 8 && e.ir.extractLsb' 3 2 == 2#2
def isDiv : Bool := e.iralu && e.ir.getLsbD 8 && e.ir.extractLsb' 3 2 == 3#2

-- page ALUC4
def specalu : Bool := e.ir.getLsbD 8 && e.iralu
def mulStep : Bool := e.specalu && e.ir.extractLsb' 3 2 == 0#2
def divStep : Bool := e.specalu && e.ir.extractLsb' 3 2 == 1#2
def divpos : Bool := e.q.getLsbD 0 || e.ir.getLsbD 6
def divsub : Bool := e.divStep && e.divpos
def divadd : Bool := e.divStep && (e.ir.getLsbD 5 || !e.divpos)
def mulnop : Bool := e.mulStep && !e.q.getLsbD 0
def aluadd : Bool := (e.divadd && !e.a.getLsbD 31) || (e.divsub && e.a.getLsbD 31) || e.mulStep
def alusub : Bool :=
  e.mulnop || (e.divsub && !e.a.getLsbD 31) || (e.divadd && e.a.getLsbD 31) || e.irjump

/-- `aluf`, `alumode` and `cin`. -/
def aluf : BitVec 4 :=
  match e.alusub, e.aluadd with
  | false, false =>
    BitVec.ofBool (e.ir.getLsbD 3) ++ BitVec.ofBool (e.ir.getLsbD 4) ++
      BitVec.ofBool (!e.ir.getLsbD 6) ++ BitVec.ofBool (!e.ir.getLsbD 5)
  | false, true => 0b1001#4
  | true, false => 0b0110#4
  | true, true => 0b1111#4
def alumode : Bool :=
  match e.alusub, e.aluadd with
  | false, false => !e.ir.getLsbD 7
  | false, true => false
  | true, false => false
  | true, true => true
def cin : Bool :=
  match e.alusub, e.aluadd with
  | false, false => e.ir.getLsbD 2
  | false, true => false
  | true, false => !e.irjump
  | true, true => true

/-- The fields, sign-extended to 33 bits. -/
def x : BitVec 33 := (e.m.extractLsb' 0 32).signExtend 33
def y : BitVec 33 := (e.a.extractLsb' 0 32).signExtend 33

/-- A logical function of the 74S181, by its number. -/
def logical {w : Nat} (aluf : BitVec 4) (x y : BitVec w) : BitVec w :=
  match aluf.toNat with
  | 0 => ~~~x
  | 1 => ~~~(x ||| y)
  | 2 => ~~~x &&& y
  | 3 => 0
  | 4 => ~~~(x &&& y)
  | 5 => ~~~y
  | 6 => x ^^^ y
  | 7 => x &&& ~~~y
  | 8 => ~~~x ||| y
  | 9 => ~~~(x ^^^ y)
  | 10 => y
  | 11 => x &&& y
  | 12 => BitVec.allOnes w
  | 13 => x ||| ~~~y
  | 14 => x ||| y
  | _ => x

/-- The two addends of an arithmetic function. -/
def addends (aluf : BitVec 4) (x y : BitVec 33) : BitVec 33 × BitVec 33 :=
  match aluf.toNat with
  | 0 => (x, 0)
  | 1 => (x ||| y, 0)
  | 2 => (x ||| ~~~y, 0)
  | 3 => (BitVec.allOnes 33, 0)
  | 4 => (x, x &&& ~~~y)
  | 5 => (x ||| y, x &&& ~~~y)
  | 6 => (x, ~~~y)
  | 7 => (x &&& ~~~y, BitVec.allOnes 33)
  | 8 => (x, x &&& y)
  | 9 => (x, y)
  | 10 => (x ||| ~~~y, x &&& y)
  | 11 => (x &&& y, BitVec.allOnes 33)
  | 12 => (x, x)
  | 13 => (x ||| y, x)
  | 14 => (x ||| ~~~y, x)
  | _ => (x, BitVec.allOnes 33)

def p : BitVec 33 := if e.alumode then logical e.aluf e.x e.y else (addends e.aluf e.x e.y).1
def s : BitVec 33 := if e.alumode then 0 else (addends e.aluf e.x e.y).2
def f : BitVec 33 := if e.alumode then e.p else e.p + e.s + (BitVec.ofBool e.cin).setWidth 33

/-- The tag. -/
def tx : BitVec 8 := e.m.extractLsb' 32 8
def ty : BitVec 8 := e.a.extractLsb' 32 8
def tf : BitVec 8 := logical e.aluf e.tx e.ty
def mtag : BitVec 40 := e.tx ++ 0#32
def aluOut : BitVec 40 := (if e.alumode then e.tf else e.tx) ++ e.f.extractLsb' 0 32

/-- `masked`. -/
def masked : BitVec 40 :=
  let low := (e.ir.extractLsb' 0 6).toNat
  let mask := mask40 low (e.ir.extractLsb' 6 4).toNat
  (rol40 e.m low &&& mask) ||| (e.a &&& ~~~mask)

def osel : BitVec 2 := e.ir.extractLsb' 12 2

/-- An ALU word's output bus. -/
def obAlu : BitVec 40 :=
  if e.isDiv then e.mtag ||| (0#8 ++ e.divOb)
  else if e.isMul then e.mtag ||| (0#8 ++ e.mulOb)
  else
    match e.osel.toNat with
    | 0 => e.masked
    | 1 => e.aluOut
    | 2 => e.mtag ||| (0#8 ++ e.f.extractLsb' 1 32)
    | _ => e.mtag ||| (0#8 ++ (e.aluOut.extractLsb' 0 31 ++ BitVec.ofBool (e.q.getLsbD 31)))

/-- `Q` after an ALU word. -/
def qAlu : BitVec 40 :=
  if e.isMul then e.q.extractLsb' 32 8 ++ e.mulQ
  else if e.isDiv then e.q.extractLsb' 32 8 ++ e.divQ
  else
    match (e.ir.extractLsb' 0 2).toNat with
    | 1 => e.q.extractLsb' 32 8 ++ (e.q.extractLsb' 0 31 ++ BitVec.ofBool (!e.aluOut.getLsbD 31))
    | 2 => e.q.extractLsb' 32 8 ++ (BitVec.ofBool (e.aluOut.getLsbD 0) ++ e.q.extractLsb' 1 31)
    | 3 => e.aluOut
    | _ => e.q

/-- A BYTE word's output bus. -/
def obByte : BitVec 40 :=
  let place := (e.ir.extractLsb' 0 6).toNat
  let bpos := if e.ir.extractLsb' 12 2 == 1#2 && e.ir.getLsbD 24 then e.lcRotation place else place
  let bright := if e.ir.getLsbD 13 then place else 0
  let bmask := mask40 bright (e.ir.extractLsb' 6 6).toNat
  let bm := if e.ir.getLsbD 12 then rol40 e.m bpos else e.m
  (bm &&& bmask) ||| (e.a &&& ~~~bmask)

/-- The output bus. -/
def ob : BitVec 40 := if e.cls == 3#2 then e.obByte else e.obAlu

end ExecWord

end MuirFpga.Quux
