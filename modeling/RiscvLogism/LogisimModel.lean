import RiscvLogism.BoardModel
import RiscvLogism.CircuitParts
import RiscvLogism.ControlModel

/-!
# The drawn processor

`riscv.circ`, the circuit from which the SystemVerilog core was developed.
It executes one instruction in every clock cycle, from a ROM and on a RAM of
256 words.  The RAM is addressed by the low byte of the ALU output itself, and
nothing stops at the all-zero word.  A net which no part drives shows the word
in `Undriven`.
-/

namespace RiscvLogism
namespace Logisim

open Parts

variable {w : ℕ}

/-- What is read from the unused inputs of the multiplexer in `ALU`, and from
the RAM while its output is disabled. -/
structure Undriven where
  aluOut : Word
  ramData : Word

/-! ## ControlUnit -/

structure ControlOutputs where
  memWrite : Bool
  aluOps : Option (BitVec 2)
  regWrite : Bool
  aluSrc : Bool
  memRead : Bool
  branch : Bool
  memtoReg : Bool
  jump : Bool
  deriving DecidableEq, Repr

namespace ControlUnit

variable (instruction : Word)

def opCode : BitVec 7 := instruction.extractLsb 6 0

def rtype : Bool := comparator (opCode instruction) 0x33#7
def itype : Bool := comparator (opCode instruction) 0x13#7
def stype : Bool := comparator (opCode instruction) 0x23#7
def btype : Bool := comparator (opCode instruction) 0x63#7
def jtype : Bool := comparator (opCode instruction) 0x6f#7
def loadType : Bool := comparator (opCode instruction) 0x03#7

/-- The fourth line of the encoder is not connected. -/
def aluOpsNumber : Option ℕ :=
  priorityEncoder
    [loadType instruction || itype instruction || jtype instruction ||
        stype instruction,
      btype instruction, rtype instruction, false]

end ControlUnit

open RiscvLogism.Logisim.ControlUnit in
def controlUnit (instruction : Word) : ControlOutputs where
  memWrite := stype instruction
  aluOps := (aluOpsNumber instruction).map (BitVec.ofNat 2)
  regWrite :=
    rtype instruction || itype instruction || loadType instruction ||
      jtype instruction
  aluSrc :=
    stype instruction || itype instruction || loadType instruction ||
      jtype instruction
  memRead := loadType instruction
  branch := btype instruction
  memtoReg := loadType instruction
  jump := jtype instruction

/-! ## ALUControlUnit -/

def aluControlUnit (aluOp : BitVec 2) (funct3 : BitVec 3) (funct7 : Bool) :
    BitVec 4 :=
  splitter
    [aluOp.getLsbD 1 && funct3.getLsbD 2 && !funct3.getLsbD 0,
      !aluOp.getLsbD 1 || !funct3.getLsbD 1,
      aluOp.getLsbD 0 ||
        (aluOp.getLsbD 1 && !funct3.getLsbD 2 && funct7),
      false]

namespace TruthTable

/-- A cell of `truthtable.txt`, where a dash stands for either bit. -/
abbrev Pattern := List (Option Bool)

def Pattern.admits (pattern : Pattern) (bits : BitVec w) : Bool :=
  (List.range w).all fun i =>
    (pattern.getD i none).all fun bit => bit == bits.getMsbD i

structure Row where
  aluOp : Pattern
  funct3 : Pattern
  funct7 : Pattern
  aluCuOut : Option (BitVec 4)

def Row.admits (row : Row) (aluOp : BitVec 2) (funct3 : BitVec 3)
    (funct7 : Bool) : Bool :=
  row.aluOp.admits aluOp && row.funct3.admits funct3 &&
    row.funct7.admits (BitVec.ofBool funct7)

/-- The table for which the gates above were drawn; a row whose output is
dashes has none. -/
def rows : List Row :=
  let o := some false
  let i := some true
  [⟨[o, o], [none, none, none], [none], some 0b0010#4⟩,
    ⟨[o, i], [none, none, none], [none], some 0b0110#4⟩,
    ⟨[i, o], [o, o, o], [o], some 0b0010#4⟩,
    ⟨[i, o], [o, o, o], [i], some 0b0110#4⟩,
    ⟨[i, o], [o, none, i], [none], none⟩,
    ⟨[i, o], [o, i, o], [none], none⟩,
    ⟨[i, o], [i, o, o], [none], some 0b0011#4⟩,
    ⟨[i, o], [i, o, i], [none], none⟩,
    ⟨[i, o], [i, i, o], [none], some 0b0001#4⟩,
    ⟨[i, o], [i, i, i], [none], some 0b0000#4⟩,
    ⟨[i, i], [none, none, none], [none], none⟩]

end TruthTable

/-! ## ALU -/

/-- The multiplexer `MUX_OUT`: inputs 4, 5 and those from 7 on are not
connected. -/
def alu (undriven x y : Word) (aluOpsIn : BitVec 4) : Word :=
  if aluOpsIn = 0#4 then x &&& y
  else if aluOpsIn = 1#4 then x ||| y
  else if aluOpsIn = 2#4 then x + y
  else if aluOpsIn = 3#4 then x ^^^ y
  else if aluOpsIn = 6#4 then x - y
  else undriven

def aluZero (aluOut : Word) : Bool := comparator aluOut 0#32

/-! ## ImmGen -/

namespace ImmGen

variable (instruction : Word)

def itypeImm : Word :=
  (splitter ([20, 21, 22, 23, 24, 25, 26, 27, 28, 29, 30, 31].map
    instruction.getLsbD)).signExtend 32

def stypeImm : Word :=
  (splitter ([7, 8, 9, 10, 11, 25, 26, 27, 28, 29, 30, 31].map
    instruction.getLsbD)).signExtend 32

def btypeImm : Word :=
  (splitter (false :: [8, 9, 10, 11, 25, 26, 27, 28, 29, 30, 7, 31].map
    instruction.getLsbD)).signExtend 32

def jtypeImm : Word :=
  (splitter (false ::
    [21, 22, 23, 24, 25, 26, 27, 28, 29, 30, 20, 12, 13, 14, 15, 16, 17, 18,
      19, 31].map instruction.getLsbD)).signExtend 32

end ImmGen

open RiscvLogism.Logisim.ImmGen in
/-- The select of the multiplexer has `ImmSel1` above `ImmSel2`. -/
def immGen (branch jump memWrite : Bool) (instruction : Word) : Word :=
  let immSel1 := branch || jump
  let immSel2 := jump || memWrite
  match immSel1, immSel2 with
  | false, false => itypeImm instruction
  | false, true => stypeImm instruction
  | true, false => btypeImm instruction
  | true, true => jtypeImm instruction

/-! ## PC -/

def pc (areset pcEnable loadAddress : Bool) (addressToLoad outputPc : Word) :
    Word :=
  register areset pcEnable
    (if loadAddress then addressToLoad else outputPc + 4#32) outputPc

/-! ## RegFile -/

def writeSignalReg (areset writeEna writeSig : Bool) (data dataOut : Word) :
    Word :=
  register areset (writeEna && writeSig) data dataOut

/-- The registers `x1` to `x31`; there is none on the line of `x0`. -/
@[ext] structure RegFile where
  regs : { index : RegIndex // index ≠ 0#5 } → Word

namespace RegFile

structure Inputs where
  writeRegAddr : RegIndex
  areset : Bool
  data : Word
  regWriteEna : Bool

/-- The input lines of the two multiplexers. -/
def line (regfile : RegFile) (index : RegIndex) : Word :=
  if hindex : index ≠ 0#5 then regfile.regs ⟨index, hindex⟩ else 0#32

def readRegOut (regfile : RegFile) (readRegAddr : RegIndex) : Word :=
  regfile.line readRegAddr

def clk (regfile : RegFile) (inputs : Inputs) : RegFile where
  regs := fun index =>
    writeSignalReg inputs.areset (decoder inputs.writeRegAddr index)
      inputs.regWriteEna inputs.data (regfile.regs index)

end RegFile

/-! ## main -/

/-- When the RAM shows the word at an address: the attribute of the component
is left at the default of the editor. -/
inductive RamRead where
  | asynchronous
  | synchronous (mode : ReadDuringWrite)
  deriving DecidableEq, Repr

abbrev Rom := BitVec 8 → Word

/-- The contents of the clocked parts; `ramOut` is the output register of a
RAM with synchronous reads, which is loaded only while the output is
enabled. -/
@[ext] structure Main where
  pc : Word
  regfile : RegFile
  ram : BitVec 8 → Word
  ramOut : Word

inductive Event where
  | clk (areset pcEnable : Bool)
  | aresetRise
  deriving DecidableEq, Repr

namespace Main

section Wires

variable (undriven : Undriven) (read : RamRead) (rom : Rom) (main : Main)

def romAddr : BitVec 8 := (main.pc >>> 2).extractLsb 7 0

def instruction : Word := rom main.romAddr

def control : ControlOutputs := controlUnit (main.instruction rom)

def immOut : Word :=
  immGen (main.control rom).branch (main.control rom).jump
    (main.control rom).memWrite (main.instruction rom)

def readRegOut1 : Word :=
  main.regfile.readRegOut ((main.instruction rom).extractLsb 19 15)

def readRegOut2 : Word :=
  main.regfile.readRegOut ((main.instruction rom).extractLsb 24 20)

def aluBMux : Word :=
  if (main.control rom).aluSrc then main.immOut rom else main.readRegOut2 rom

def aluOut : Word :=
  match (main.control rom).aluOps with
  | some aluOp =>
      alu undriven.aluOut (main.readRegOut1 rom) (main.aluBMux rom)
        (aluControlUnit aluOp ((main.instruction rom).extractLsb 14 12)
          ((main.instruction rom).getLsbD 30))
  | none => undriven.aluOut

def loadAddress : Bool :=
  ((aluZero (main.aluOut undriven rom) ^^ (main.instruction rom).getLsbD 12)
      && (main.control rom).branch) ||
    (main.control rom).jump

def addressToLoad : Word := main.pc + main.immOut rom

def ramAddr : BitVec 8 := (main.aluOut undriven rom).extractLsb 7 0

def ramData : Word :=
  if (main.control rom).memRead then
    match read with
    | .asynchronous => main.ram (main.ramAddr undriven rom)
    | .synchronous _ => main.ramOut
  else undriven.ramData

def memtoRegMux : Word :=
  if (main.control rom).memtoReg then main.ramData undriven read rom
  else main.aluOut undriven rom

def ramWritten : BitVec 8 → Word :=
  if (main.control rom).memWrite then
    Function.update main.ram (main.ramAddr undriven rom)
      (main.readRegOut2 rom)
  else main.ram

def ramSampled : Word :=
  if (main.control rom).memRead then
    match read with
    | .asynchronous => main.ramOut
    | .synchronous .newData =>
        main.ramWritten undriven rom (main.ramAddr undriven rom)
    | .synchronous .oldData => main.ram (main.ramAddr undriven rom)
  else main.ramOut

def regfileInputs (areset : Bool) : RegFile.Inputs where
  writeRegAddr := (main.instruction rom).extractLsb 11 7
  areset := areset
  data := main.memtoRegMux undriven read rom
  regWriteEna := (main.control rom).regWrite

def clk (areset pcEnable : Bool) : Main where
  pc := Logisim.pc areset pcEnable (main.loadAddress undriven rom)
    (main.addressToLoad rom) main.pc
  regfile := main.regfile.clk (main.regfileInputs undriven read rom areset)
  ram := main.ramWritten undriven rom
  ramOut := main.ramSampled undriven read rom

end Wires

/-- The button clears the registers at once; the RAM has no such input. -/
def aresetRise (main : Main) : Main where
  pc := 0#32
  regfile := { regs := fun _ => 0#32 }
  ram := main.ram
  ramOut := main.ramOut

def step (undriven : Undriven) (read : RamRead) (rom : Rom) (main : Main) :
    Event → Main
  | .clk areset pcEnable => main.clk undriven read rom areset pcEnable
  | .aresetRise => main.aresetRise

end Main

end Logisim
end RiscvLogism
