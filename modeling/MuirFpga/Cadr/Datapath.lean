import Mathlib.Data.BitVec

/-!
# The CADR's instruction and datapath

The part of `cadr_microcycle` a microinstruction decides: the decode of `IR`, the sources
and the M bus, the shifter, masker and ALU, the jump condition, the next address and every
register that moves at the cpu edge. A `View` is what the logic stands on during one
microcycle: the registers, the words the latches hold, and the words other parts of the
machine put on its buses. The tick-level machine and the sequential one differ in where a
view comes from and in nothing here.
-/

namespace MuirFpga.Cadr

/-- A one-bit word. -/
abbrev flag (b : Bool) : BitVec 1 := BitVec.ofBool b

/-- The registers a microcycle's end moves. -/
structure Regs where
  /-- The microprogram counter. -/
  pc : BitVec 14
  /-- The last one. -/
  lpc : BitVec 14
  /-- The instruction register. -/
  ir : BitVec 48
  /-- The word a control-store write stores. -/
  iwr : BitVec 48
  /-- `INOP`: the instruction before nopped this one. -/
  inop : Bool
  /-- The instruction before writes the control store in this microcycle. -/
  iwrited : Bool
  /-- The instruction before was HALT-CONS. -/
  halted : Bool
  /-- The statistics counter ran out. -/
  statstop : Bool
  /-- The eight last PCs, the newest first. -/
  opcs : Fin 8 → BitVec 14
  /-- The statistics counter. -/
  st : BitVec 32
  /-- `L`: the output bus of the instruction before, for its delayed write. -/
  l : BitVec 32
  /-- The delayed write's scratchpad address. -/
  wadr : BitVec 10
  /-- The delayed write is of A. -/
  destd : Bool
  /-- The delayed write is of M too. -/
  destmd : Bool
  /-- The delayed PDL write is by the index. -/
  pwidx : Bool
  /-- A delayed PDL write stands. -/
  pdlwrited : Bool
  /-- A push stands. -/
  spushd : Bool
  /-- The push is of data. -/
  destspcd : Bool
  /-- The return address of the standing push. -/
  reta : BitVec 14
  /-- The micro stack's pointer. -/
  spcptr : BitVec 5
  /-- The PDL pointer. -/
  pdlPtr : BitVec 10
  /-- The PDL index. -/
  pdlIdx : BitVec 10
  /-- The location counter. -/
  lcQ : BitVec 26
  /-- LC was written and its word not fetched. -/
  newlc : Bool
  /-- The instruction before asked for the next macroinstruction. -/
  nextInstrd : Bool
  /-- The interrupt, registered. -/
  sintrD : Bool
  /-- The control store's word was modified. -/
  imodd : Bool
  /-- INTERRUPT-CONTROL's byte mode. -/
  lcByteMode : Bool
  /-- INTERRUPT-CONTROL's bus reset. -/
  progUnibusReset : Bool
  /-- INTERRUPT-CONTROL's enable. -/
  intEnable : Bool
  /-- INTERRUPT-CONTROL's sequence break. -/
  sequenceBreak : Bool
  /-- Q. -/
  q : BitVec 32
  /-- A map write stands. -/
  wmapd : Bool
  /-- VMA. -/
  vma : BitVec 32
  /-- The dispatch constant. -/
  dc : BitVec 10

/-- The instruction as the control decodes it: the registers and what nops it. -/
structure Inst where
  /-- The registers. -/
  regs : Regs
  /-- The boot's trap. -/
  trap : Bool
  /-- The console's own nop. -/
  nop11 : Bool

/-- What the logic stands on during one microcycle. -/
structure View extends Inst where
  /-- The debug IR is on the I bus. -/
  idebug : Bool
  /-- The statistics counter loads. -/
  ldstat : Bool
  /-- The I bus. -/
  i : BitVec 48
  /-- The A bus. -/
  a : BitVec 32
  /-- The M memory's word. -/
  mmemOut : BitVec 32
  /-- The PDL latch. -/
  pdlQ : BitVec 32
  /-- The micro stack's latch. -/
  spcQ : BitVec 19
  /-- MD. -/
  md : BitVec 32
  /-- The first-level map's word. -/
  vmap : BitVec 5
  /-- The second-level map's word. -/
  vmo : BitVec 24
  /-- A read is permitted. -/
  pfr : Bool
  /-- A write is permitted. -/
  pfw : Bool
  /-- The dispatch memory. -/
  dmem : BitVec 11 → BitVec 17
  /-- The interrupt off the cables. -/
  sintr : Bool

namespace Inst

/-- `IR`. -/
def ir (v : Inst) : BitVec 48 := v.regs.ir

/-- A bit of `IR`. -/
def irBit (v : Inst) (k : Nat) : Bool := v.regs.ir.getLsbD k

/-- A field of `IR`, its low bit and its width. -/
def irField (v : Inst) (low width : Nat) : BitVec width := v.regs.ir.extractLsb' low width

/-- `NOPA`: nopped by the instruction before or by the console. -/
def nopa (v : Inst) : Bool := v.regs.inop || v.nop11

/-- `NOP`: nopped, the trap counted. -/
def nop (v : Inst) : Bool := v.trap || v.nopa

/-- An ALU instruction. -/
def iralu (v : Inst) : Bool := !v.nop && v.irField 43 2 == 0#2

/-- A JUMP. -/
def irjump (v : Inst) : Bool := !v.nop && v.irField 43 2 == 1#2

/-- A DISPATCH. -/
def irdisp (v : Inst) : Bool := !v.nop && v.irField 43 2 == 2#2

/-- A BYTE instruction. -/
def irbyte (v : Inst) : Bool := !v.nop && v.irField 43 2 == 3#2

/-- A miscellaneous function, off `IR<11:10>`. -/
def funct (v : Inst) (k : BitVec 2) : Bool := !v.nop && v.irField 10 2 == k

/-- HALT-CONS. -/
def halt (v : Inst) : Bool := v.funct 1#2

/-- The instruction has a destination. -/
def dest (v : Inst) : Bool := v.iralu || v.irbyte

/-- Its destination is M. -/
def destm (v : Inst) : Bool := v.dest && !v.irBit 25

/-- A functional destination of the low group. -/
def lowGroup (v : Inst) (k : BitVec 3) : Bool :=
  (v.destm && !v.irBit 23 && !v.irBit 22) && v.irField 19 3 == k

/-- A functional destination of the middle group. -/
def midGroup (v : Inst) (k : BitVec 3) : Bool :=
  (v.destm && !v.irBit 23 && v.irBit 22) && v.irField 19 3 == k

/-- The destination is LC. -/
def destlc (v : Inst) : Bool := v.lowGroup 1#3
/-- The destination is INTERRUPT-CONTROL. -/
def destintctl (v : Inst) : Bool := v.lowGroup 2#3
/-- The destination is the PDL at the pointer. -/
def destpdltop (v : Inst) : Bool := v.midGroup 0#3
/-- The destination is a PDL push. -/
def destpdlP (v : Inst) : Bool := v.midGroup 1#3
/-- The destination is the PDL at the index. -/
def destpdlX (v : Inst) : Bool := v.midGroup 2#3
/-- The destination is the PDL index. -/
def destpdlx (v : Inst) : Bool := v.midGroup 3#3
/-- The destination is the PDL pointer. -/
def destpdlp (v : Inst) : Bool := v.midGroup 4#3
/-- The destination is a push of data on the micro stack. -/
def destspc (v : Inst) : Bool := v.midGroup 5#3
/-- The destination is the low half of the next instruction. -/
def destimod0 (v : Inst) : Bool := v.midGroup 6#3
/-- The destination is the high half of the next instruction. -/
def destimod1 (v : Inst) : Bool := v.midGroup 7#3

/-- A destination on the memory path. -/
def destmem (v : Inst) : Bool := v.destm && v.irBit 23
/-- The instruction starts a write. -/
def memwr (v : Inst) : Bool := v.destmem && v.irField 19 2 == 2#2
/-- The instruction starts a read. -/
def memrd (v : Inst) : Bool := v.destmem && v.irField 19 2 == 1#2
/-- The destination is VMA. -/
def destvma (v : Inst) : Bool := v.destmem && !v.irBit 22
/-- The destination is MD. -/
def destmdr (v : Inst) : Bool := v.destmem && v.irBit 22
/-- The instruction writes the map. -/
def wmap (v : Inst) : Bool := v.destmem && v.irField 19 2 == 3#2

/-- A functional source of the first group. -/
def groupA (v : Inst) (k : BitVec 3) : Bool := (v.irBit 31 && !v.irBit 29) && v.irField 26 3 == k
/-- A functional source of the second group. -/
def groupB (v : Inst) (k : BitVec 3) : Bool := (v.irBit 31 && v.irBit 29) && v.irField 26 3 == k

/-- The source is the dispatch constant. -/
def srcdc (v : Inst) : Bool := v.groupA 0#3
/-- The source is the micro stack's top. -/
def srcspc (v : Inst) : Bool := v.groupA 1#3
/-- The source is the PDL pointer. -/
def srcpdlptr (v : Inst) : Bool := v.groupA 2#3
/-- The source is the PDL index. -/
def srcpdlidx (v : Inst) : Bool := v.groupA 3#3
/-- The source is a PDL pop. -/
def srcpdlpop (v : Inst) : Bool := v.groupA 4#3
/-- The source is the PDL's top. -/
def srcpdltop (v : Inst) : Bool := v.groupA 5#3
/-- The source is OPC. -/
def srcopc (v : Inst) : Bool := v.groupA 6#3
/-- The source is Q. -/
def srcq (v : Inst) : Bool := v.groupA 7#3
/-- The source is VMA. -/
def srcvma (v : Inst) : Bool := v.groupB 0#3
/-- The source is the map. -/
def srcmap (v : Inst) : Bool := v.groupB 1#3
/-- The source is MD. -/
def srcmd (v : Inst) : Bool := v.groupB 2#3
/-- The source is LC. -/
def srclc (v : Inst) : Bool := v.groupB 3#3
/-- The source is a pop of the micro stack. -/
def srcspcpop (v : Inst) : Bool := v.groupB 4#3

/-- `USE.MD`: this instruction reads MD and neither a jump nor the console nops it. -/
def useMd (v : Inst) : Bool := v.srcmd && !v.nopa

/-- A dispatch write. -/
def dispwr (v : Inst) : Bool := v.irdisp && v.funct 2#2
/-- A dispatch that dispatches. -/
def dispenb (v : Inst) : Bool := v.irdisp && !v.funct 2#2

/-- `LC0B`: the low bit of LC in byte mode. -/
def lc0b (v : Inst) : Bool := v.regs.lcQ.getLsbD 0 && v.regs.lcByteMode
/-- LC's word is not the one in hand. -/
def haveWrongWord (v : Inst) : Bool := v.regs.newlc || v.destlc
/-- The next step of LC leaves its word. -/
def lastByteInWord (v : Inst) : Bool := !v.regs.lcQ.getLsbD 1 && !v.lc0b
/-- A fetch is due. -/
def needfetch (v : Inst) : Bool := v.haveWrongWord || v.lastByteInWord
/-- LC steps. -/
def lcinc (v : Inst) : Bool := v.regs.nextInstrd || (v.irdisp && v.irBit 24)
/-- The instruction starts a macroinstruction fetch. -/
def ifetch (v : Inst) : Bool := v.needfetch && v.lcinc
/-- The instruction starts a memory cycle. -/
def memop (v : Inst) : Bool := v.memrd || v.memwr || v.ifetch
/-- VMA loads. -/
def vmaenb (v : Inst) : Bool := v.destvma || v.ifetch

/-- `ILONG`: the instruction asks for a long read phase. -/
def ilong (v : Inst) : Bool := v.irBit 45 && !v.nopa
/-- The instruction counts in the statistics counter. -/
def statbit (v : Inst) : Bool := v.irBit 46 && !v.nopa

/-- A JUMP on a condition's absence. -/
def jfalse (v : Inst) : Bool := v.irjump && v.irBit 6
/-- A JUMP that returns. -/
def jret (v : Inst) : Bool := v.irjump && !v.irBit 8 && v.irBit 9
/-- One on a condition's absence. -/
def jretf (v : Inst) : Bool := v.jret && v.irBit 6
/-- WRITE-I-MEM. -/
def iwrite (v : Inst) : Bool := v.irjump && v.irBit 8 && v.irBit 9
/-- The instruction or a control-store write pops the micro stack. -/
def popj (v : Inst) : Bool := (v.irBit 42 && !v.nop) || v.regs.iwrited

/-- The delayed write's address as this instruction hands it on. -/
def wadrIn (v : Inst) : BitVec 10 :=
  if v.destm then 0#5 ++ v.irField 14 5 else v.irField 14 10

/-- The A memory's read address. -/
def aadr (v : Inst) : BitVec 10 := v.irField 32 10
/-- The M memory's read address. -/
def madr (v : Inst) : BitVec 5 := v.irField 26 5
/-- The PDL's read address. -/
def pdlaRead (v : Inst) : BitVec 10 := if v.irBit 30 then v.regs.pdlPtr else v.regs.pdlIdx
/-- The standing PDL write's address. -/
def pdlaWrite (v : Inst) : BitVec 10 := if v.regs.pwidx then v.regs.pdlIdx else v.regs.pdlPtr
/-- The word the standing push puts on the micro stack. -/
def spcw (v : Inst) : BitVec 19 :=
  if v.regs.destspcd then v.regs.l.extractLsb' 0 19 else 0#5 ++ v.regs.reta

/-- The A bus: the delayed write passed around, or the latch. -/
def aPass (v : Inst) (amemQ : BitVec 32) : BitVec 32 :=
  if v.regs.destd && v.regs.wadr == v.aadr then v.regs.l else amemQ
/-- The M memory's word: the delayed write passed around, or the latch. -/
def mPass (v : Inst) (mmemQ : BitVec 32) : BitVec 32 :=
  if v.regs.destmd && v.regs.wadr.extractLsb' 0 5 == v.madr then v.regs.l else mmemQ

/-- The instruction writes the PDL. -/
def pdlwrite (v : Inst) : Bool := v.destpdltop || v.destpdlX || v.destpdlP

end Inst

namespace View

/-- VMAOK: the access is permitted. -/
def vmaok (v : View) : Bool := v.pfr && v.pfw

/-- `MF`: the functional sources. -/
def mf (v : View) : BitVec 32 :=
  if v.srclc then
    flag v.needfetch ++ flag false ++ flag v.regs.lcByteMode ++ flag v.regs.progUnibusReset
      ++ flag v.regs.intEnable ++ flag v.regs.sequenceBreak ++ v.regs.lcQ.extractLsb' 1 25
      ++ flag v.lc0b
  else if v.srcopc then (v.regs.opcs 7).setWidth 32
  else if v.srcdc then v.regs.dc.setWidth 32
  else if v.srcpdlptr then v.regs.pdlPtr.setWidth 32
  else if v.srcpdlidx then v.regs.pdlIdx.setWidth 32
  else if v.srcq then v.regs.q
  else if v.srcmd then v.md
  else if v.srcvma then v.regs.vma
  else if v.srcmap then flag (!v.pfw) ++ flag (!v.pfr) ++ flag false ++ v.vmap ++ v.vmo
  else BitVec.allOnes 32

/-- The M bus. -/
def m (v : View) : BitVec 32 :=
  if !v.irBit 31 then v.mmemOut
  else if v.srcpdlpop || v.srcpdltop then v.pdlQ
  else if v.srcspc || v.srcspcpop then 0#3 ++ v.regs.spcptr ++ 0#5 ++ v.spcQ
  else v.mf

/-- LC picks the rotate. -/
def lcModifiesMrot (v : View) : Bool := v.irBit 10 && v.irBit 11
/-- The rotate's bit 4, LC's half counted. -/
def sh4 (v : View) : Bool :=
  !((!((v.regs.lcQ.getLsbD 1 ^^ v.lc0b) || !v.lcModifiesMrot)) ^^ !v.irBit 4)
/-- The rotate's bit 3, LC's quarter counted. -/
def sh3 (v : View) : Bool :=
  !(!v.irBit 3 ^^ (!(v.regs.lcQ.getLsbD 0 || !v.lcModifiesMrot) && v.regs.lcByteMode))
/-- The rotate's amount as the instruction and LC give it. -/
def amount (v : View) : BitVec 5 := flag v.sh4 ++ flag v.sh3 ++ v.irField 0 3
/-- The masker's right end. -/
def mskr (v : View) : BitVec 5 := if !v.irbyte || v.irBit 13 then v.amount else 0#5
/-- The shifter's rotate. -/
def shift (v : View) : BitVec 5 := if !v.irbyte || v.irBit 12 then v.amount else 0#5
/-- The masker's left end. -/
def mskl (v : View) : BitVec 5 := v.mskr + v.irField 5 5

/-- `R`: the M bus rotated left. -/
def r (v : View) : BitVec 32 := v.m.rotateLeft v.shift.toNat

/-- The mask. -/
def msk (v : View) : BitVec 32 :=
  (BitVec.allOnes 32 >>> (31#5 - v.mskl).toNat) &&& (BitVec.allOnes 32 <<< v.mskr.toNat)

/-- Multiply and divide steps. -/
def specalu (v : View) : Bool := v.irBit 8 && v.iralu
/-- A multiply step. -/
def mul (v : View) : Bool := v.specalu && v.irField 3 2 == 0#2
/-- A divide step. -/
def div (v : View) : Bool := v.specalu && v.irField 3 2 == 1#2
/-- The divide step subtracts the positive. -/
def divpos (v : View) : Bool := v.regs.q.getLsbD 0 || v.irBit 6
/-- A divide step's subtraction. -/
def divsub (v : View) : Bool := v.div && v.divpos
/-- A divide step's addition. -/
def divadd (v : View) : Bool := v.div && (v.irBit 5 || !v.divpos)
/-- A multiply step that adds nothing. -/
def mulnop (v : View) : Bool := v.mul && !v.regs.q.getLsbD 0
/-- The ALU adds. -/
def aluadd (v : View) : Bool :=
  (v.divadd && !v.a.getLsbD 31) || (v.divsub && v.a.getLsbD 31) || v.mul
/-- The ALU subtracts. -/
def alusub (v : View) : Bool :=
  v.mulnop || (v.divsub && !v.a.getLsbD 31) || (v.divadd && v.a.getLsbD 31) || v.irjump

/-- The ALU's function, mode and carry. -/
def aluControl (v : View) : BitVec 4 × Bool × Bool :=
  match v.alusub, v.aluadd with
  | false, false =>
    (flag (v.irBit 3) ++ flag (v.irBit 4) ++ flag (!v.irBit 6) ++ flag (!v.irBit 5),
      !v.irBit 7, v.irBit 2)
  | false, true => (9#4, false, false)
  | true, false => (6#4, false, !v.irjump)
  | true, true => (15#4, true, true)

end View

/-- The 74S181's logic functions, M high. -/
def aluLogic (f : BitVec 4) (x y : BitVec 33) : BitVec 33 :=
  match f.toNat with
  | 0 => ~~~x
  | 1 => ~~~(x ||| y)
  | 2 => ~~~x &&& y
  | 3 => 0
  | 4 => ~~~(x &&& y)
  | 5 => ~~~y
  | 6 => x ^^^ y
  | 7 => x &&& ~~~y
  | 8 => ~~~x ||| y
  | 9 => ~~~(x ^^^ y)
  | 10 => y
  | 11 => x &&& y
  | 12 => BitVec.allOnes 33
  | 13 => x ||| ~~~y
  | 14 => x ||| y
  | _ => x

/-- The 74S181's arithmetic functions, M low: the two addends the carry is added to. -/
def aluAddends (f : BitVec 4) (x y : BitVec 33) : BitVec 33 × BitVec 33 :=
  match f.toNat with
  | 0 => (x, 0)
  | 1 => (x ||| y, 0)
  | 2 => (x ||| ~~~y, 0)
  | 3 => (BitVec.allOnes 33, 0)
  | 4 => (x, x &&& ~~~y)
  | 5 => (x ||| y, x &&& ~~~y)
  | 6 => (x, ~~~y)
  | 7 => (x &&& ~~~y, BitVec.allOnes 33)
  | 8 => (x, x &&& y)
  | 9 => (x, y)
  | 10 => (x ||| ~~~y, x &&& y)
  | 11 => (x &&& y, BitVec.allOnes 33)
  | 12 => (x, x)
  | 13 => (x ||| y, x)
  | 14 => (x ||| ~~~y, x)
  | _ => (x, BitVec.allOnes 33)

namespace View

/-- `ALU<32:0>`: the nine slices as one array, both operands sign-extended. -/
def aluF (v : View) : BitVec 33 :=
  let x := flag (v.m.getLsbD 31) ++ v.m
  let y := flag (v.a.getLsbD 31) ++ v.a
  match v.aluControl with
  | (f, true, _) => aluLogic f x y
  | (f, false, carry) =>
    (aluAddends f x y).1 + (aluAddends f x y).2 + (flag carry).setWidth 33

/-- Every result bit is one. -/
def aeqm (v : View) : Bool := v.aluF.extractLsb' 0 32 == BitVec.allOnes 32

/-- The masker's merge of the rotated word over A. -/
def mo (v : View) : BitVec 32 := (v.msk &&& v.r) ||| (v.a &&& ~~~v.msk)

/-- `OB`: the output bus. -/
def ob (v : View) : BitVec 32 :=
  match v.irBit 13 && v.iralu, v.irBit 12 && v.iralu with
  | false, false => v.mo
  | false, true => v.aluF.extractLsb' 0 32
  | true, false => v.aluF.extractLsb' 1 32
  | true, true => v.aluF.extractLsb' 0 31 ++ flag (v.regs.q.getLsbD 31)

/-- The jump condition. -/
def jcond (v : View) : Bool :=
  let aluneg := !v.aeqm && v.aluF.getLsbD 32
  let pgfOrInt := !v.vmaok || (v.regs.sintrD && v.regs.intEnable)
  match (if v.irBit 5 then (v.irField 0 3).toNat else 0) with
  | 0 => v.r.getLsbD 0
  | 1 => aluneg
  | 2 => v.aluF.getLsbD 32
  | 3 => v.aeqm
  | 4 => !v.vmaok
  | 5 => pgfOrInt
  | 6 => pgfOrInt || v.regs.sequenceBreak
  | _ => true

/-- The dispatch mask. -/
def dmask (v : View) : BitVec 8 := (1#8 <<< (v.irField 5 3).toNat) - 1#8
/-- The dispatch address's low bit. -/
def daddr0 (v : View) : Bool :=
  (v.irBit 8 && v.vmo.getLsbD 18) || (v.irBit 9 && v.vmo.getLsbD 19)
    || (!(v.irBit 8 || v.irBit 9) && v.dmask.getLsbD 0 && v.r.getLsbD 0) || v.irBit 12
/-- The dispatch address. -/
def dadr (v : View) : BitVec 11 :=
  (v.irField 13 10 ++ flag v.daddr0)
    ||| ((v.dmask.extractLsb' 1 6 &&& v.r.extractLsb' 1 6) ++ 0#1).setWidth 11
/-- The dispatch word: a dispatch write reads the word it writes. -/
def dramQ (v : View) : BitVec 17 := if v.dispwr then v.a.extractLsb' 0 17 else v.dmem v.dadr
/-- The dispatch word's R. -/
def dr (v : View) : Bool := v.dramQ.getLsbD 16
/-- The dispatch word's P. -/
def dp (v : View) : Bool := v.dramQ.getLsbD 15
/-- The dispatch word's N. -/
def dn (v : View) : Bool := v.dramQ.getLsbD 14
/-- The dispatch word's address. -/
def dpc (v : View) : BitVec 14 := v.dramQ.extractLsb' 0 14

/-- A dispatch takes no POPJ. -/
def ignpopj (v : View) : Bool := v.irdisp && !v.dr

/-- `N`: the next instruction is nopped. -/
def n (v : View) : Bool :=
  v.trap || v.regs.iwrited || (v.dispenb && v.dn) || (v.jfalse && !v.jcond && v.irBit 7)
    || (v.irjump && !v.irBit 6 && v.jcond && v.irBit 7)

/-- The high select of the next address. -/
def pcs1 (v : View) : Bool :=
  !((v.popj && !v.ignpopj) || (v.jfalse && !v.jcond) || (v.irjump && !v.irBit 6 && v.jcond)
    || (v.dispenb && v.dr && !v.dp))
/-- The low select of the next address. -/
def pcs0 (v : View) : Bool :=
  !(v.popj || (v.dispenb && !(v.dr && v.dp)) || (v.jretf && !v.jcond)
    || (v.jret && !v.irBit 6 && v.jcond))

/-- The SPC bus: the standing push passed around, or the latch. -/
def spcv (v : View) : BitVec 19 := if v.regs.spushd then v.spcw else v.spcQ

/-- The micro stack pops. -/
def spop (v : View) : Bool :=
  (((v.srcspcpop && !v.nop) || v.popj) && !v.ignpopj) || (v.dispenb && v.dr && !v.dp)
    || (v.jret && !v.irBit 6 && v.jcond) || (v.jretf && !v.jcond)
/-- The micro stack is pushed. -/
def spush (v : View) : Bool :=
  v.destspc || (v.jfalse && v.irBit 8 && !v.jcond) || (v.dispenb && v.dp && !v.dr)
    || (v.irjump && !v.irBit 6 && v.irBit 8 && v.jcond)

/-- A return asks for the next macroinstruction. -/
def nextInstr (v : View) : Bool := v.spop && !(v.srcspcpop && !v.nop) && v.spcv.getLsbD 14

/-- The address a return takes, the main loop's bit counted. -/
def spcTarget (v : View) : BitVec 14 :=
  v.spcv.extractLsb' 2 12 ++ flag ((v.spcv.getLsbD 14 && !v.needfetch) || v.spcv.getLsbD 1)
    ++ flag (v.spcv.getLsbD 0)

/-- The PC plus one. -/
def ipc (v : View) : BitVec 14 := v.regs.pc + 1#14

/-- `NPC`. -/
def npc (v : View) : BitVec 14 :=
  if v.trap then 0#14
  else match v.pcs1, v.pcs0 with
    | false, false => v.spcTarget
    | false, true => v.irField 12 14
    | true, false => v.dpc
    | true, true => v.ipc

/-- The return address a push takes. -/
def retaIn (v : View) : BitVec 14 :=
  if v.n then (if v.irdisp && v.irBit 25 then v.regs.lpc else v.regs.pc) else v.ipc

/-- The next `IR`: the I bus with the output bus over the fields a destination modifies. -/
def irNext (v : View) : BitVec 48 :=
  let high := v.i.extractLsb' 26 22 ||| (if v.destimod1 then v.ob.extractLsb' 0 22 else 0#22)
  let low := v.i.extractLsb' 0 26 ||| (if v.destimod0 then v.ob.extractLsb' 0 26 else 0#26)
  high ++ low

/-- What VMA loads: a fetch's word address, or the output bus. -/
def vmas (v : View) : BitVec 32 :=
  if v.ifetch then (v.regs.lcQ.extractLsb' 2 24).setWidth 32 else v.ob

/-- The PDL pointer's next value. -/
def pdlPtrNext (v : View) : BitVec 10 :=
  if v.destpdlp then v.ob.extractLsb' 0 10
  else if (!v.nop && v.srcpdlpop) || v.destpdlP then
    (if !v.nop && v.srcpdlpop then v.regs.pdlPtr - 1#10 else v.regs.pdlPtr + 1#10)
  else v.regs.pdlPtr

/-- LC's next value. -/
def lcNext (v : View) : BitVec 26 :=
  if v.destlc then v.ob.extractLsb' 0 26
  else v.regs.lcQ + (flag v.lcinc).setWidth 26 + (flag (v.lcinc && !v.regs.lcByteMode)).setWidth 26

/-- Q's next value. -/
def qNext (v : View) : BitVec 32 :=
  match v.irBit 1 && v.iralu, v.irBit 0 && v.iralu with
  | false, false => v.regs.q
  | false, true => v.regs.q.extractLsb' 0 31 ++ flag (!v.aluF.getLsbD 31)
  | true, false => flag (v.aluF.getLsbD 0) ++ v.regs.q.extractLsb' 1 31
  | true, true => v.aluF.extractLsb' 0 32

/-- The registers as the cpu edge leaves them. -/
def regsNext (v : View) : Regs where
  pc := v.npc
  lpc := v.regs.pc
  ir := v.irNext
  iwr := v.a.extractLsb' 0 16 ++ v.m
  inop := v.n
  iwrited := v.iwrite
  halted := v.halt
  statstop := v.regs.st == BitVec.allOnes 32 && v.statbit
  opcs := fun k => if k = 0 then v.regs.pc else v.regs.opcs (k - 1)
  st := if v.ldstat then v.regs.iwr.extractLsb' 0 32
    else if v.statbit then v.regs.st + 1#32 else v.regs.st
  l := v.ob
  wadr := v.wadrIn
  destd := v.dest
  destmd := v.destm
  pwidx := v.destpdlX
  pdlwrited := v.pdlwrite
  spushd := v.spush
  destspcd := v.destspc
  reta := v.retaIn
  spcptr := if v.spush then v.regs.spcptr + 1#5
    else if v.spop then v.regs.spcptr - 1#5 else v.regs.spcptr
  pdlPtr := v.pdlPtrNext
  pdlIdx := if v.destpdlx then v.ob.extractLsb' 0 10 else v.regs.pdlIdx
  lcQ := v.lcNext
  newlc := v.haveWrongWord && !v.lcinc
  nextInstrd := v.nextInstr
  sintrD := v.sintr
  imodd := v.destimod0 || v.destimod1 || v.regs.iwrited || v.idebug
  lcByteMode := if v.destintctl then v.ob.getLsbD 29 else v.regs.lcByteMode
  progUnibusReset := if v.destintctl then v.ob.getLsbD 28 else v.regs.progUnibusReset
  intEnable := if v.destintctl then v.ob.getLsbD 27 else v.regs.intEnable
  sequenceBreak := if v.destintctl then v.ob.getLsbD 26 else v.regs.sequenceBreak
  q := v.qNext
  wmapd := v.wmap
  vma := if v.vmaenb then v.vmas else v.regs.vma
  dc := if v.irdisp then v.irField 32 10 else v.regs.dc

end View

end MuirFpga.Cadr
