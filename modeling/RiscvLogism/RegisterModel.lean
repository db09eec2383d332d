import RiscvLogism.AluModel
import Mathlib.Logic.Function.Basic
import Mathlib.Tactic.SplitIfs

/-!
# The program counter and the register file

`PC.sv` and `RegFile.sv`.  The body of an `always` block is one function of
the stored value and of the inputs sampled when the block is triggered.  The
trigger is a rising clock edge, or a rising edge of `areset`; in the second
case the sampled `areset` is high.
-/

namespace RiscvLogism

abbrev RegIndex := BitVec 5

structure PC.Inputs where
  pcEnable : Bool
  areset : Bool
  addressToLoad : Word
  loadAddress : Bool
  halt : Bool

structure PC where
  addr : Word
  deriving DecidableEq, Repr

namespace PC

def always (pc : PC) (inputs : PC.Inputs) : PC :=
  if inputs.areset then
    { addr := 0#32 }
  else if inputs.pcEnable && !inputs.halt then
    { addr :=
        if inputs.loadAddress then inputs.addressToLoad else pc.addr + 4#32 }
  else
    { addr := pc.addr }

def pcAddress (pc : PC) : Word := pc.addr

variable {pc : PC} {inputs : PC.Inputs}

theorem always_areset (hreset : inputs.areset = true) :
    pc.always inputs = { addr := 0#32 } := by
  simp [always, hreset]

theorem always_hold (hreset : inputs.areset = false)
    (hhold : (inputs.pcEnable && !inputs.halt) = false) :
    pc.always inputs = pc := by
  simp [always, hreset, hhold]

theorem always_advance (pc : PC) (hreset : inputs.areset = false)
    (hgo : (inputs.pcEnable && !inputs.halt) = true) :
    (pc.always inputs).addr =
      if inputs.loadAddress then inputs.addressToLoad
      else pc.addr + 4#32 := by
  simp [always, hreset, hgo]

end PC

structure RegFile.Inputs where
  regWriteEnable : Bool
  areset : Bool
  data : Word
  writeAddr : RegIndex

@[ext] structure RegFile where
  regs : RegIndex → Word

namespace RegFile

def always (regfile : RegFile) (inputs : RegFile.Inputs) : RegFile :=
  if inputs.areset then
    { regs := fun _ => 0#32 }
  else if inputs.regWriteEnable && inputs.writeAddr != 0#5 then
    { regs := Function.update regfile.regs inputs.writeAddr inputs.data }
  else
    regfile

def readRegOut (regfile : RegFile) (readRegAddr : RegIndex) : Word :=
  if readRegAddr = 0#5 then 0#32 else regfile.regs readRegAddr

/-- The effect of an enabled write port. -/
def write (regfile : RegFile) (rd : RegIndex) (data : Word) : RegFile :=
  if rd = 0#5 then regfile
  else { regs := Function.update regfile.regs rd data }

variable {regfile : RegFile} {inputs : RegFile.Inputs}

theorem always_areset (hreset : inputs.areset = true) :
    regfile.always inputs = { regs := fun _ => 0#32 } := by
  simp [always, hreset]

theorem always_of_not_areset (hreset : inputs.areset = false) :
    regfile.always inputs =
      if inputs.regWriteEnable then
        regfile.write inputs.writeAddr inputs.data
      else regfile := by
  unfold always write
  by_cases henable : inputs.regWriteEnable = true
  · by_cases hzero : inputs.writeAddr = 0#5 <;>
      simp [hreset, henable, hzero]
  · simp [hreset, henable]

@[simp] theorem readRegOut_zero (regfile : RegFile) :
    regfile.readRegOut 0#5 = 0#32 := rfl

@[simp] theorem write_zero (regfile : RegFile) (data : Word) :
    regfile.write 0#5 data = regfile := rfl

theorem write_regs_self {rd : RegIndex} (hrd : rd ≠ 0#5)
    (regfile : RegFile) (data : Word) :
    (regfile.write rd data).regs rd = data := by
  simp [write, hrd]

theorem write_regs_of_ne {rd index : RegIndex} (hne : index ≠ rd)
    (regfile : RegFile) (data : Word) :
    (regfile.write rd data).regs index = regfile.regs index := by
  unfold write
  split_ifs with hzero
  · rfl
  · simp [hne]

theorem readRegOut_write (regfile : RegFile) (rd index : RegIndex)
    (data : Word) :
    (regfile.write rd data).readRegOut index =
      if index = rd ∧ rd ≠ 0#5 then data else regfile.readRegOut index := by
  unfold readRegOut
  by_cases hzero : index = 0#5
  · subst hzero
    simp only [if_true]
    rw [if_neg]
    rintro ⟨heq, hne⟩
    exact hne heq.symm
  · simp only [if_neg hzero]
    by_cases heq : index = rd
    · subst heq
      simp [write_regs_self hzero, hzero]
    · simp [write_regs_of_ne heq, heq]

theorem readRegOut_write_of_ne {rd index : RegIndex} (hne : index ≠ rd)
    (regfile : RegFile) (data : Word) :
    (regfile.write rd data).readRegOut index = regfile.readRegOut index := by
  rw [readRegOut_write, if_neg]
  rintro ⟨hread, _⟩
  exact hne hread

@[simp] theorem write_write (regfile : RegFile) (rd : RegIndex)
    (first second : Word) :
    (regfile.write rd first).write rd second = regfile.write rd second := by
  unfold write
  split_ifs with hzero
  · rfl
  · simp

theorem write_inj {rd : RegIndex} (hrd : rd ≠ 0#5) (regfile : RegFile)
    (first second : Word) :
    regfile.write rd first = regfile.write rd second ↔ first = second := by
  constructor
  · intro hsame
    have hread := congrFun (congrArg regs hsame) rd
    rw [write_regs_self hrd, write_regs_self hrd] at hread
    exact hread
  · intro hsame
    rw [hsame]

end RegFile

end RiscvLogism
