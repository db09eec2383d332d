import RiscvLogism.ControlModel
import RiscvLogism.RegisterModel

/-!
# The two-cycle core

`main.sv`.  The state of the core is the program counter, the register file
and the phase bit `execute_cycle`; every other wire is a function of the state
and of the words on the two memory ports.  The repository holds two copies of
the core, which instantiate different versions of the ALU and of its control
unit, so the datapath takes that pair as a parameter.
-/

namespace RiscvLogism

/-- The ALU control unit and the ALU which a copy of `main` instantiates. -/
structure Arithmetic where
  aluCuOut : BitVec 2 → BitVec 3 → Bool → BitVec 4
  aluZero : Word → Word → BitVec 4 → Bool
  aluOut : Word → Word → BitVec 4 → Word

def rtl : Arithmetic where
  aluCuOut := aluControlUnit
  aluZero := fun x y aluOps => (alu x y aluOps).aluZero
  aluOut := fun x y aluOps => (alu x y aluOps).aluOut

@[ext] structure Main where
  pc : PC
  regfile : RegFile
  executeCycle : Bool

/-- The inputs sampled when the `always` blocks are triggered, by a rising
clock edge or by a rising edge of `areset`. -/
structure Main.Inputs where
  areset : Bool
  enable : Bool
  imemData : Word
  dmemRdata : Word

namespace Main

/-! ## Wires -/

section Wires

variable (arith : Arithmetic) (main : Main) (imemData : Word)

def pcAddress : Word := main.pc.pcAddress

def imemAddr : Word := main.pcAddress >>> 2

def halt (imemData : Word) : Bool := (controlUnit imemData).haltDetected

def immOut (imemData : Word) : Word :=
  immGen imemData (controlUnit imemData).branch (controlUnit imemData).jump
    (controlUnit imemData).memWrite

def readReg1Addr (imemData : Word) : RegIndex := imemData.extractLsb 19 15

def readReg2Addr (imemData : Word) : RegIndex := imemData.extractLsb 24 20

def writeAddr (imemData : Word) : RegIndex := imemData.extractLsb 11 7

def readRegOut1 : Word := main.regfile.readRegOut (readReg1Addr imemData)

def readRegOut2 : Word := main.regfile.readRegOut (readReg2Addr imemData)

def aluCuOut : BitVec 4 :=
  arith.aluCuOut (controlUnit imemData).aluOps (imemData.extractLsb 14 12)
    (imemData.getLsbD 30)

def aluBMux : Word :=
  if (controlUnit imemData).aluSrc then immOut imemData
  else main.readRegOut2 imemData

def aluZero : Bool :=
  arith.aluZero (main.readRegOut1 imemData) (main.aluBMux imemData)
    (aluCuOut arith imemData)

def aluOut : Word :=
  arith.aluOut (main.readRegOut1 imemData) (main.aluBMux imemData)
    (aluCuOut arith imemData)

def branchAddr : Word := main.pcAddress + immOut imemData

def jumpAddr : Word := main.pcAddress + immOut imemData

def branchTaken : Bool := main.aluZero arith imemData ^^ imemData.getLsbD 12

def loadAddress : Bool :=
  (controlUnit imemData).jump ||
    ((controlUnit imemData).branch && main.branchTaken arith imemData)

def addressToLoad : Word :=
  if (controlUnit imemData).jump then main.jumpAddr imemData
  else main.branchAddr imemData

def writeData (dmemRdata : Word) : Word :=
  if (controlUnit imemData).memtoReg then dmemRdata
  else main.aluOut arith imemData

def actualPcEnable (enable : Bool) : Bool := enable && main.executeCycle

def actualLoadAddress : Bool :=
  main.loadAddress arith imemData && main.executeCycle

def actualRegWrite : Bool :=
  (controlUnit imemData).regWrite && main.executeCycle

def dmemWe : Bool := (controlUnit imemData).memWrite && main.executeCycle

def dmemAddr : Word := main.aluOut arith imemData

def dmemWdata : Word := main.readRegOut2 imemData

end Wires

/-! ## State -/

def pcInputs (arith : Arithmetic) (main : Main) (inputs : Main.Inputs) :
    PC.Inputs where
  pcEnable := main.actualPcEnable inputs.enable
  areset := inputs.areset
  addressToLoad := main.addressToLoad inputs.imemData
  loadAddress := main.actualLoadAddress arith inputs.imemData
  halt := halt inputs.imemData

def regfileInputs (arith : Arithmetic) (main : Main)
    (inputs : Main.Inputs) : RegFile.Inputs where
  regWriteEnable := main.actualRegWrite inputs.imemData
  areset := inputs.areset
  data := main.writeData arith inputs.imemData inputs.dmemRdata
  writeAddr := writeAddr inputs.imemData

def always (arith : Arithmetic) (main : Main) (inputs : Main.Inputs) :
    Main where
  pc := main.pc.always (main.pcInputs arith inputs)
  regfile := main.regfile.always (main.regfileInputs arith inputs)
  executeCycle :=
    if inputs.areset then false
    else if inputs.enable then !main.executeCycle
    else main.executeCycle

def afterReset : Main where
  pc := { addr := 0#32 }
  regfile := { regs := fun _ => 0#32 }
  executeCycle := false

theorem imemAddr_congr {main main' : Main} (hpc : main.pc = main'.pc) :
    main.imemAddr = main'.imemAddr := by
  rw [imemAddr, imemAddr, pcAddress, pcAddress, hpc]

/-- The program counter is loaded at taken branches and at jumps only. -/
theorem loadAddress_cases {arith : Arithmetic} {main : Main}
    {imemData : Word} (hload : main.loadAddress arith imemData = true) :
    (ControlUnit.opcode imemData = ControlUnit.btype ∧
        main.branchTaken arith imemData = true) ∨
      ControlUnit.opcode imemData = ControlUnit.jtype := by
  unfold loadAddress at hload
  cases hjump : (controlUnit imemData).jump with
  | true => exact .inr (ControlUnit.opcode_of_jump hjump)
  | false =>
      rw [hjump, Bool.false_or, Bool.and_eq_true] at hload
      exact .inl ⟨ControlUnit.opcode_of_branch hload.1, hload.2⟩

section Always

variable {arith : Arithmetic} {main : Main} {inputs : Main.Inputs}

theorem always_areset (hreset : inputs.areset = true) :
    main.always arith inputs = afterReset := by
  have hpc :
      main.pc.always (main.pcInputs arith inputs) = { addr := 0#32 } :=
    PC.always_areset hreset
  have hregfile :
      main.regfile.always (main.regfileInputs arith inputs) =
        { regs := fun _ => 0#32 } :=
    RegFile.always_areset hreset
  simp [always, afterReset, hpc, hregfile, hreset]

theorem always_executeCycle (hreset : inputs.areset = false) :
    (main.always arith inputs).executeCycle =
      if inputs.enable then !main.executeCycle else main.executeCycle := by
  simp [always, hreset]

theorem always_regfile (hreset : inputs.areset = false) :
    (main.always arith inputs).regfile =
      if main.actualRegWrite inputs.imemData then
        main.regfile.write (writeAddr inputs.imemData)
          (main.writeData arith inputs.imemData inputs.dmemRdata)
      else main.regfile :=
  RegFile.always_of_not_areset hreset

theorem always_regfile_hold (hreset : inputs.areset = false)
    (hwrite : main.actualRegWrite inputs.imemData = false) :
    (main.always arith inputs).regfile = main.regfile := by
  rw [always_regfile hreset, hwrite]
  rfl

theorem always_fetch (hreset : inputs.areset = false)
    (hphase : main.executeCycle = false) :
    main.always arith inputs =
      { main with executeCycle := inputs.enable } := by
  apply Main.ext
  · apply PC.always_hold hreset
    simp [pcInputs, actualPcEnable, hphase]
  · rw [always_regfile hreset]
    simp [actualRegWrite, hphase]
  · rw [always_executeCycle hreset, hphase]
    cases inputs.enable <;> rfl

/-- In the execute phase the write port of the register file follows
`RegWrite`, whatever `enable` is. -/
theorem always_execute_regfile (hreset : inputs.areset = false)
    (hphase : main.executeCycle = true) :
    (main.always arith inputs).regfile =
      if (controlUnit inputs.imemData).regWrite then
        main.regfile.write (writeAddr inputs.imemData)
          (main.writeData arith inputs.imemData inputs.dmemRdata)
      else main.regfile := by
  rw [always_regfile hreset, actualRegWrite, hphase, Bool.and_true]

theorem always_stalled_pc (hreset : inputs.areset = false)
    (henable : inputs.enable = false) :
    (main.always arith inputs).pc = main.pc := by
  apply PC.always_hold hreset
  simp [pcInputs, actualPcEnable, henable]

theorem always_halt_pc (hreset : inputs.areset = false)
    (hhalt : halt inputs.imemData = true) :
    (main.always arith inputs).pc = main.pc := by
  apply PC.always_hold hreset
  simp [pcInputs, hhalt]

theorem addressToLoad_eq (main : Main) (imemData : Word) :
    main.addressToLoad imemData = main.pcAddress + immOut imemData := by
  unfold addressToLoad
  split_ifs <;> rfl

theorem always_execute_pc (hreset : inputs.areset = false)
    (henable : inputs.enable = true) (hphase : main.executeCycle = true)
    (hhalt : halt inputs.imemData = false) :
    (main.always arith inputs).pcAddress =
      if main.loadAddress arith inputs.imemData then
        main.pcAddress + immOut inputs.imemData
      else main.pcAddress + 4#32 := by
  have hgo :
      ((main.pcInputs arith inputs).pcEnable &&
        !(main.pcInputs arith inputs).halt) = true := by
    simp [pcInputs, actualPcEnable, henable, hphase, hhalt]
  have hload :
      main.actualLoadAddress arith inputs.imemData =
        main.loadAddress arith inputs.imemData := by
    rw [actualLoadAddress, hphase, Bool.and_true]
  rw [← addressToLoad_eq, ← hload]
  exact PC.always_advance main.pc hreset hgo

/-- The arithmetic acts on the state through the two outputs of the ALU. -/
theorem always_congr {arith' : Arithmetic}
    (hout : main.aluOut arith inputs.imemData =
      main.aluOut arith' inputs.imemData)
    (hzero : main.aluZero arith inputs.imemData =
      main.aluZero arith' inputs.imemData) :
    main.always arith inputs = main.always arith' inputs := by
  have htaken :
      main.loadAddress arith inputs.imemData =
        main.loadAddress arith' inputs.imemData := by
    rw [loadAddress, loadAddress, branchTaken, branchTaken, hzero]
  have hdata :
      main.writeData arith inputs.imemData inputs.dmemRdata =
        main.writeData arith' inputs.imemData inputs.dmemRdata := by
    rw [writeData, writeData, hout]
  have hpc : main.pcInputs arith inputs = main.pcInputs arith' inputs := by
    rw [pcInputs, pcInputs, actualLoadAddress, actualLoadAddress, htaken]
  have hregfile :
      main.regfileInputs arith inputs = main.regfileInputs arith' inputs := by
    rw [regfileInputs, regfileInputs, hdata]
  rw [always, always, hpc, hregfile]

end Always

end Main

end RiscvLogism
