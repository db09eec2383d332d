import RiscvLogism.ClockedMachine
import RiscvLogism.CoreModel

/-!
# The core on the DE1-SoC board

The board copy of `main.sv` instantiates its own ALU and ALU control unit; the
program counter, the register file, the control unit and the immediate
generator are the same files.  `enable` is tied high, `areset` is the inverted
second key, and both memories are on-chip memories which the core gives 13-bit
word addresses and which share its clock.  Only their second ports are
connected to it; the first ports belong to the processor system, which does
not write during a run.  The program memory of the system has half of the
words, so that its image repeats here (`Soc.alone`).
-/

namespace RiscvLogism
namespace De1

/-! ## Arithmetic -/

/-- The `casez` table; the first matching line wins. -/
def aluControlUnit (aluOp : BitVec 2) (funct3 : BitVec 3)
    (funct7Bit5 : Bool) : BitVec 4 :=
  if aluOp = 0b00#2 then 0b0010#4
  else if aluOp = 0b01#2 then 0b0110#4
  else if aluOp = 0b10#2 ∧ funct3 = 0b000#3 ∧ funct7Bit5 = false then
    0b0010#4
  else if aluOp = 0b10#2 ∧ funct3 = 0b000#3 ∧ funct7Bit5 = true then
    0b0110#4
  else if aluOp = 0b10#2 ∧ funct3 = 0b100#3 then 0b0011#4
  else if aluOp = 0b10#2 ∧ funct3 = 0b110#3 then 0b0001#4
  else if aluOp = 0b10#2 ∧ funct3 = 0b111#3 then 0b0000#4
  else 0b0000#4

def aluOut (x y : Word) (aluOps : BitVec 4) : Word :=
  if aluOps = 0b0000#4 then x &&& y
  else if aluOps = 0b0001#4 then x ||| y
  else if aluOps = 0b0010#4 then x + y
  else if aluOps = 0b0011#4 then x ^^^ y
  else if aluOps = 0b0110#4 then x - y
  else 0#32

def aluZero (x y : Word) (aluOps : BitVec 4) : Bool :=
  aluOut x y aluOps == 0#32

def arithmetic : Arithmetic where
  aluCuOut := aluControlUnit
  aluZero := aluZero
  aluOut := aluOut

/-! ## The core -/

/-- The second key, which is low while it is pressed, and the words on the
memory ports. -/
structure Inputs where
  key1 : Bool
  imemData : Word
  dmemRdata : Word

def Inputs.areset (inputs : Inputs) : Bool := !inputs.key1

def Inputs.mainInputs (inputs : Inputs) : Main.Inputs where
  areset := inputs.areset
  enable := true
  imemData := inputs.imemData
  dmemRdata := inputs.dmemRdata

def always (main : Main) (inputs : Inputs) : Main :=
  main.always arithmetic inputs.mainInputs

abbrev MemoryIndex := BitVec 13

def imemAddr (main : Main) : MemoryIndex :=
  main.pcAddress.extractLsb 14 2

def dmemAddr (main : Main) (imemData : Word) : MemoryIndex :=
  (main.aluOut arithmetic imemData).extractLsb 14 2

def dmemWe (main : Main) (imemData : Word) : Bool :=
  (controlUnit imemData).memWrite && main.executeCycle

def dmemWdata (main : Main) (imemData : Word) : Word :=
  main.readRegOut2 imemData

def halt (imemData : Word) : Bool := (controlUnit imemData).haltDetected

end De1

/-! ## On-chip memories -/

/-- What a port of an on-chip memory shows after a clock edge at which it
writes: the vendor's memory block offers both. -/
inductive ReadDuringWrite where
  | newData
  | oldData
  deriving DecidableEq, Repr

/-- The contents, and the data of the second port.  The address of the port
is registered and its output is not. -/
structure OnchipMemory where
  mem : De1.MemoryIndex → Word
  readdata : Word

/-- The inputs of the second port, all byte lanes being enabled. -/
structure OnchipMemory.Inputs where
  address : De1.MemoryIndex
  chipselect : Bool
  write : Bool
  writedata : Word

namespace OnchipMemory

def wren (inputs : OnchipMemory.Inputs) : Bool :=
  inputs.chipselect && inputs.write

def posedgeClk (mode : ReadDuringWrite) (memory : OnchipMemory)
    (inputs : OnchipMemory.Inputs) : OnchipMemory where
  mem :=
    if wren inputs then
      Function.update memory.mem inputs.address inputs.writedata
    else memory.mem
  readdata :=
    match wren inputs, mode with
    | true, .newData => inputs.writedata
    | _, _ => memory.mem inputs.address

theorem posedgeClk_read {inputs : OnchipMemory.Inputs}
    (hwrite : wren inputs = false) (mode : ReadDuringWrite)
    (memory : OnchipMemory) :
    memory.posedgeClk mode inputs =
      { mem := memory.mem, readdata := memory.mem inputs.address } := by
  simp [posedgeClk, hwrite]

end OnchipMemory

/-! ## The board -/

structure Board where
  main : Main
  dataMemory : OnchipMemory
  programMemory : OnchipMemory

namespace Board

/-- A rising edge of `CLOCK_50`, or the second key being pressed between two
of them. -/
inductive Event where
  | clk (key1 : Bool)
  | key1Fall
  deriving DecidableEq, Repr

section Edges

variable (board : Board)

def imemData : Word := board.programMemory.readdata

def dmemRdata : Word := board.dataMemory.readdata

def de1Inputs (key1 : Bool) : De1.Inputs where
  key1 := key1
  imemData := board.imemData
  dmemRdata := board.dmemRdata

def dataInputs : OnchipMemory.Inputs where
  address := De1.dmemAddr board.main board.imemData
  chipselect := true
  write := De1.dmemWe board.main board.imemData
  writedata := De1.dmemWdata board.main board.imemData

def programInputs : OnchipMemory.Inputs where
  address := De1.imemAddr board.main
  chipselect := true
  write := false
  writedata := 0#32

def posedgeClk (mode : ReadDuringWrite) (key1 : Bool) : Board where
  main := De1.always board.main (board.de1Inputs key1)
  dataMemory := board.dataMemory.posedgeClk mode board.dataInputs
  programMemory := board.programMemory.posedgeClk mode board.programInputs

def negedgeKey1 : Board where
  main := De1.always board.main (board.de1Inputs false)
  dataMemory := board.dataMemory
  programMemory := board.programMemory

def step (mode : ReadDuringWrite) (board : Board) : Event → Board
  | .clk key1 => board.posedgeClk mode key1
  | .key1Fall => board.negedgeKey1

end Edges

def JustReset (mode : ReadDuringWrite) (board : Board) : Prop :=
  ∃ (powerUp : Board) (event : Event),
    (event = .clk false ∨ event = .key1Fall) ∧
      board = step mode powerUp event

def Reachable (mode : ReadDuringWrite) : Board → Prop :=
  Clocked.Reachable (step mode) (JustReset mode)

end Board

end RiscvLogism
