import RiscvLogism.OrderedDict
import Mathlib.Data.String.Basic

/-!
# The opcode package generator

The functions of `generator.py` which turn the instruction table into the
enumerations and the case statement of the generated package.  The table is a
dictionary from type names to dictionaries of instructions, and the generator
relies on dictionaries keeping the order of insertion.
-/

namespace RiscvLogism
namespace Generator

/-! ## The instruction table -/

structure Encoding where
  opcode : String
  funct3 : Option String
  funct7 : Option String
  deriving DecidableEq, Repr

/-- The entry of an instruction; `operation` may be missing. -/
structure InstrData where
  encoding : Encoding
  operation : Option String
  deriving DecidableEq, Repr

/-- `data["types"]`, every type reduced to its `instructions`. -/
abbrev Types := OrderedDict String (OrderedDict String InstrData)

structure Instruction where
  name : String
  type : String
  format : String
  description : String
  encoding : Encoding
  hasFunct3 : Bool
  hasFunct7 : Bool
  deriving DecidableEq, Repr

/-- `instr["encoding"]["opcode"]`. -/
abbrev Instruction.opcode (instr : Instruction) : String :=
  instr.encoding.opcode

def typeToFormat : OrderedDict String String where
  entries :=
    [("R_type", "FORMAT_R"), ("I_type", "FORMAT_I"), ("S_type", "FORMAT_S"),
      ("B_type", "FORMAT_B"), ("J_type", "FORMAT_J"), ("U_type", "FORMAT_U")]
  nodup := by decide

def opcodeToName : OrderedDict String String where
  entries :=
    [("0000011", "LOAD"), ("0000111", "LOAD_FP"), ("0001111", "MISC_MEM"),
      ("0010011", "OP_IMM"), ("0010111", "AUIPC"), ("0011011", "OP_IMM_32"),
      ("0100011", "STORE"), ("0100111", "STORE_FP"), ("0101111", "AMO"),
      ("0110011", "OP"), ("0110111", "LUI"), ("0111011", "OP_32"),
      ("1100011", "BRANCH"), ("1100111", "JALR"), ("1101111", "JAL"),
      ("1110011", "SYSTEM")]
  nodup := by decide

/-! ## Parsing -/

def formatOfType (typeName : String) : String :=
  (typeToFormat.get? typeName).getD "FORMAT_I"

def instruction (typeName instrName : String) (instrData : InstrData) :
    Instruction where
  name := instrName
  type := typeName
  format := formatOfType typeName
  description := instrData.operation.getD ""
  encoding := instrData.encoding
  hasFunct3 := instrData.encoding.funct3.isSome
  hasFunct7 := instrData.encoding.funct7.isSome

/-- The instructions in the order of the table. -/
def flatten (types : Types) : List Instruction :=
  types.entries.flatMap fun type =>
    type.2.entries.map fun instr => instruction type.1 instr.1 instr.2

def parseInstructions (types : Types) : List Instruction :=
  Sorting.sortedBy Instruction.opcode (flatten types)

/-! ## Tables -/

structure EnumEntry where
  name : String
  value : String
  instructions : List String
  deriving DecidableEq, Repr

def opcodeName (opcode : String) : String :=
  (opcodeToName.get? opcode).getD ("OPCODE_" ++ opcode)

def opcodeGroups (instructions : List Instruction) :
    OrderedDict String (List String) :=
  instructions.foldl
    (fun groups instr => groups.append instr.opcode instr.name)
    .empty

def buildOpcodeEnums (instructions : List Instruction) : List EnumEntry :=
  let groups := opcodeGroups instructions
  (Sorting.sortedBy id groups.keys).map fun opcode =>
    { name := opcodeName opcode
      value := opcode
      instructions := (groups.get? opcode).getD [] }

def funct3Groups (instructions : List Instruction) :
    OrderedDict String (List String) :=
  instructions.foldl
    (fun groups instr =>
      match instr.encoding.funct3 with
      | some funct3 => groups.append funct3 instr.name
      | none => groups)
    .empty

def label (names : List String) : String := "_".intercalate (names.take 2)

def buildFunct3Enums (instructions : List Instruction) : List EnumEntry :=
  let groups := funct3Groups instructions
  (Sorting.sortedBy id groups.keys).map fun funct3 =>
    let names := (groups.get? funct3).getD []
    { name := "FUNCT3_" ++ label names
      value := funct3
      instructions := names }

structure FormatCase where
  opcodeName : String
  format : String
  deriving DecidableEq, Repr

def opcodeToFormat (instructions : List Instruction) :
    OrderedDict String String :=
  instructions.foldl
    (fun dict instr => dict.set (opcodeName instr.opcode) instr.format)
    .empty

/-- The first argument is not used by the source either. -/
def buildFormatCaseEntries (_opcodeEnums : List EnumEntry)
    (instructions : List Instruction) : List FormatCase :=
  (opcodeToFormat instructions).entries.map fun entry =>
    { opcodeName := entry.1, format := entry.2 }

end Generator
end RiscvLogism
