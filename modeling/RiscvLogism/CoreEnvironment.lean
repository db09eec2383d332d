import RiscvLogism.ClockedMachine
import RiscvLogism.CoreModel

/-!
# The core between its memories

The comments of `main.sv` and the test bench describe two memories around
the core.  The instruction memory answers with the word at `imem_addr`, either
combinationally or through an output register.  The data memory is read
combinationally at `dmem_addr >> 2` and written on the rising edge when
`dmem_we` is high.  A `Bench` has the data memory attached and takes the
instruction word from outside; a `System` also has the instruction memory.
-/

namespace RiscvLogism

abbrev Memory := Word → Word

@[ext] structure Bench where
  main : Main
  ram : Memory

namespace Bench

variable (arith : Arithmetic) (bench : Bench) (imemData : Word)

def ramIndex : Word := bench.main.dmemAddr arith imemData >>> 2

def dmemRdata : Word := bench.ram (bench.ramIndex arith imemData)

def mainInputs (areset enable : Bool) : Main.Inputs where
  areset := areset
  enable := enable
  imemData := imemData
  dmemRdata := bench.dmemRdata arith imemData

def posedgeClk (areset enable : Bool) : Bench where
  main := bench.main.always arith
    (bench.mainInputs arith imemData areset enable)
  ram :=
    if bench.main.dmemWe imemData then
      Function.update bench.ram (bench.ramIndex arith imemData)
        (bench.main.dmemWdata imemData)
    else bench.ram

/-- One full instruction: a fetch edge with an arbitrary word on the
instruction port, then an execute edge with the instruction. -/
def fullInstruction (fetchWord instruction : Word) : Bench :=
  (bench.posedgeClk arith fetchWord false true).posedgeClk arith
    instruction false true

end Bench

inductive RomRead where
  | combinational
  | registered
  deriving DecidableEq, Repr

@[ext] structure System extends Bench where
  romOut : Word

namespace System

inductive Event where
  | clk (areset enable : Bool)
  | aresetRise
  deriving DecidableEq, Repr

def Event.isReset : Event → Bool
  | .clk areset _ => areset
  | .aresetRise => true

variable (arith : Arithmetic) (read : RomRead) (rom : Memory)

def imemData (system : System) : Word :=
  match read with
  | .combinational => rom system.main.imemAddr
  | .registered => system.romOut

def posedgeClk (system : System) (areset enable : Bool) : System where
  toBench := system.toBench.posedgeClk arith (system.imemData read rom)
    areset enable
  romOut := rom system.main.imemAddr

def posedgeAreset (system : System) : System where
  main := system.main.always arith
    (system.toBench.mainInputs arith (system.imemData read rom) true false)
  ram := system.ram
  romOut := system.romOut

def step (system : System) : Event → System
  | .clk areset enable => system.posedgeClk arith read rom areset enable
  | .aresetRise => system.posedgeAreset arith read rom

/-- The system just after a reset of the core: the two memories keep what
they hold. -/
def afterReset (romOut : Word) (ram : Memory) : System where
  main := Main.afterReset
  ram := ram
  romOut := romOut

/-- The state some reset event produces from an arbitrary power-up state. -/
def JustReset (system : System) : Prop :=
  ∃ (powerUp : System) (event : Event),
    event.isReset = true ∧ system = step arith read rom powerUp event

/-- Reachability from power-up through at least one reset, over any
interleaving of clock edges, stalls and resets. -/
def Reachable : System → Prop :=
  Clocked.Reachable (step arith read rom) (JustReset arith read rom)

/-- Some clock edge has passed since the last reset was released. -/
def Released (system : System) : Prop :=
  ∃ (before : System) (enable : Bool), Reachable arith read rom before ∧
    system = before.posedgeClk arith read rom false enable

def halt (system : System) : Bool :=
  Main.halt (system.imemData read rom)

def dmemWe (system : System) : Bool :=
  system.main.dmemWe (system.imemData read rom)

/-! ## Single events -/

section Events

variable {arith read rom} {system : System}

theorem step_isReset {event : Event} (hreset : event.isReset = true) :
    (step arith read rom system event).main = Main.afterReset := by
  cases event with
  | clk areset enable => exact Main.always_areset hreset
  | aresetRise => exact Main.always_areset rfl

theorem posedgeClk_fetch (hphase : system.main.executeCycle = false)
    (enable : Bool) :
    system.posedgeClk arith read rom false enable =
      { main := { system.main with executeCycle := enable }
        ram := system.ram
        romOut := rom system.main.imemAddr } := by
  have hmain :
      (system.posedgeClk arith read rom false enable).main =
        { system.main with executeCycle := enable } :=
    Main.always_fetch rfl hphase
  have hram :
      (system.posedgeClk arith read rom false enable).ram = system.ram := by
    simp [posedgeClk, Bench.posedgeClk, Main.dmemWe, hphase]
  apply System.ext
  · exact hmain
  · exact hram
  · rfl

theorem posedgeClk_executeCycle (enable : Bool) :
    (system.posedgeClk arith read rom false enable).main.executeCycle =
      if enable then !system.main.executeCycle
      else system.main.executeCycle :=
  Main.always_executeCycle rfl

theorem posedgeClk_stalled_pc :
    (system.posedgeClk arith read rom false false).main.pc =
      system.main.pc :=
  Main.always_stalled_pc rfl rfl

theorem posedgeClk_stalled_imemAddr :
    (system.posedgeClk arith read rom false false).main.imemAddr =
      system.main.imemAddr :=
  Main.imemAddr_congr posedgeClk_stalled_pc

theorem posedgeClk_halt_pc (hhalt : system.halt read rom = true)
    (enable : Bool) :
    (system.posedgeClk arith read rom false enable).main.pc =
      system.main.pc :=
  Main.always_halt_pc rfl hhalt

end Events

end System

end RiscvLogism
