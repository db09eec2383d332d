import RiscvLogism.CoreRuns
import RiscvLogism.PcAssertions

/-!
# The assertions on the core

The checks which the repository binds to `ControlUnit` and to `PC`, against
the instances inside the core.  The checks of the control unit name some of
its outputs for each type of instruction and fix exactly these.  The checks of
the program counter know nothing of the halt, so on the core they report every
program that stops.
-/

namespace RiscvLogism

/-! ## ControlUnit_assert -/

namespace ControlUnitAssert

variable (instruction : Word)

def opcode : BitVec 7 := instruction.extractLsb 6 0

def isR : Bool := opcode instruction == 0x33#7
def isI : Bool := opcode instruction == 0x13#7
def isS : Bool := opcode instruction == 0x23#7
def isB : Bool := opcode instruction == 0x63#7
def isJ : Bool := opcode instruction == 0x6f#7
def isL : Bool := opcode instruction == 0x03#7

def typeVector : List Bool :=
  [isR instruction, isI instruction, isS instruction, isB instruction,
    isJ instruction, isL instruction]

/-- `$onehot0`. -/
def onehot0 (bits : List Bool) : Bool := bits.count true ≤ 1

/-- The immediate assertions of the `always_comb` block. -/
@[mk_iff] structure Checks (outputs : ControlOutputs) : Prop where
  mutuallyExclusive : onehot0 (typeVector instruction) = true
  rType : isR instruction = true →
    outputs.regWrite = true ∧ outputs.memWrite = false ∧
      outputs.memRead = false ∧ outputs.aluSrc = false ∧
      outputs.aluOps = 0b10#2
  iType : isI instruction = true →
    outputs.regWrite = true ∧ outputs.memWrite = false ∧
      outputs.memRead = false ∧ outputs.aluSrc = true ∧
      outputs.aluOps = 0b00#2
  sType : isS instruction = true →
    outputs.regWrite = false ∧ outputs.memWrite = true ∧
      outputs.memRead = false ∧ outputs.aluSrc = true ∧
      outputs.aluOps = 0b00#2
  bType : isB instruction = true →
    outputs.regWrite = false ∧ outputs.memWrite = false ∧
      outputs.memRead = false ∧ outputs.branch = true ∧
      outputs.aluOps = 0b01#2
  jType : isJ instruction = true →
    outputs.regWrite = true ∧ outputs.jump = true ∧ outputs.aluSrc = true
  lType : isL instruction = true →
    outputs.regWrite = true ∧ outputs.memWrite = false ∧
      outputs.memRead = true ∧ outputs.memtoReg = true ∧
      outputs.aluSrc = true

inductive Signal where
  | regWrite
  | memWrite
  | memRead
  | memtoReg
  | aluSrc
  | aluOps
  | branch
  | jump
  deriving DecidableEq, Repr

def Signal.Agrees (outputs outputs' : ControlOutputs) : Signal → Prop
  | .regWrite => outputs.regWrite = outputs'.regWrite
  | .memWrite => outputs.memWrite = outputs'.memWrite
  | .memRead => outputs.memRead = outputs'.memRead
  | .memtoReg => outputs.memtoReg = outputs'.memtoReg
  | .aluSrc => outputs.aluSrc = outputs'.aluSrc
  | .aluOps => outputs.aluOps = outputs'.aluOps
  | .branch => outputs.branch = outputs'.branch
  | .jump => outputs.jump = outputs'.jump

/-- The outputs which the check for the type of a word names. -/
def watched : List Signal :=
  if isR instruction || isI instruction || isS instruction then
    [.regWrite, .memWrite, .memRead, .aluSrc, .aluOps]
  else if isB instruction then
    [.regWrite, .memWrite, .memRead, .branch, .aluOps]
  else if isJ instruction then [.regWrite, .jump, .aluSrc]
  else if isL instruction then
    [.regWrite, .memWrite, .memRead, .memtoReg, .aluSrc]
  else []

theorem mutuallyExclusive_of_word :
    onehot0 (typeVector instruction) = true := by
  unfold typeVector isR isI isS isB isJ isL
  generalize opcode instruction = op
  revert op
  decide +kernel

/-- A decoder passes the checks on a word if and only if it agrees with
`ControlUnit` on the outputs which they name there. -/
theorem control_unit_checks_iff (outputs : ControlOutputs) :
    Checks instruction outputs ↔
      ∀ signal ∈ watched instruction,
        signal.Agrees outputs (controlUnit instruction) := by
  have hexclusive := mutuallyExclusive_of_word instruction
  rw [checks_iff, and_iff_right hexclusive]
  unfold watched isR isI isS isB isJ isL
  by_cases hknown : ControlUnit.KnownOpcode (opcode instruction)
  · rcases hknown with hop | hop | hop | hop | hop | hop
    · rw [ControlUnit.controlUnit_rtype hop, hop]
      simp [Signal.Agrees, ControlUnit.rtype, ControlUnit.defaults]
    · rw [ControlUnit.controlUnit_itype hop, hop]
      simp [Signal.Agrees, ControlUnit.itype, ControlUnit.defaults]
    · rw [ControlUnit.controlUnit_loadType hop, hop]
      simp [Signal.Agrees, ControlUnit.loadType, ControlUnit.defaults]
    · rw [ControlUnit.controlUnit_stype hop, hop]
      simp [Signal.Agrees, ControlUnit.stype, ControlUnit.defaults]
    · rw [ControlUnit.controlUnit_btype hop, hop]
      simp [Signal.Agrees, ControlUnit.btype, ControlUnit.defaults]
    · rw [ControlUnit.controlUnit_jtype hop, hop]
      simp [Signal.Agrees, ControlUnit.jtype, ControlUnit.defaults]
  · simp only [ControlUnit.KnownOpcode, not_or] at hknown
    obtain ⟨hr, hi, hl, hs, hb, hj⟩ := hknown
    simp only [ControlUnit.rtype, ControlUnit.itype, ControlUnit.loadType,
      ControlUnit.stype, ControlUnit.btype, ControlUnit.jtype] at *
    simp [hr, hi, hl, hs, hb, hj]

end ControlUnitAssert

/-! ## PC_assert -/

namespace System

section Sampled

variable (read : RomRead) (rom : Memory)

/-- The inputs of the instance of `PC` at an edge without reset. -/
def pcEdge (system : System) (enable : Bool) : PC.Inputs × Bool :=
  (system.main.pcInputs rtl
    (system.toBench.mainInputs rtl (system.imemData read rom) false enable),
    false)

def pcEdges (system : System) (enables : List Bool) :
    List (PC.Inputs × Bool) :=
  Clocked.samples (edge read rom) (pcEdge read rom) system enables

def pcSample (system : System) (enable : Bool) : PcAssert.Sample where
  inputs := (pcEdge read rom system enable).1
  aresetPrev := false
  pcAddress := system.main.pcAddress

/-- The edge would retire the all-zero word. -/
def Stops (system : System) (enable : Bool) : Prop :=
  enable = true ∧ system.main.executeCycle = true ∧
    system.imemData read rom = 0#32

end Sampled

section Checks

variable {read : RomRead} {rom : Memory}

theorem samples_pcEdges (system : System) (enables : List Bool) :
    PcAssert.samples system.main.pc (pcEdges read rom system enables) =
      Clocked.samples (edge read rom) (pcSample read rom) system enables := by
  induction enables generalizing system with
  | nil => rfl
  | cons enable rest ih =>
      have hpc : (edge read rom system enable).main.pc =
          system.main.pc.always (pcEdge read rom system enable).1 := rfl
      have htail := ih (edge read rom system enable)
      rw [hpc] at htail
      exact congrArg (pcSample read rom system enable :: ·) htail

theorem haltHarmless_iff (system : System) (enable : Bool) :
    PcAssert.HaltHarmless (pcSample read rom system enable) ↔
      ¬ Stops read rom system enable := by
  let word := system.imemData read rom
  have hhalt : Main.halt word = true ↔ word = 0#32 := by
    rw [Main.halt, ControlUnit.controlUnit_haltDetected, beq_iff_eq]
  have hload : word = 0#32 →
      (system.main.actualLoadAddress rtl word) = false := by
    intro hzero
    rw [hzero]
    rfl
  have hstops :
      (system.main.actualPcEnable enable && Main.halt word) = true ↔
        Stops read rom system enable := by
    rw [Bool.and_eq_true, Main.actualPcEnable, Bool.and_eq_true, hhalt,
      and_assoc]
    rfl
  constructor
  · intro hharmless hstop
    have hloaded := (hharmless (hstops.mpr hstop)).1
    exact absurd hloaded (Bool.eq_false_iff.mp (hload hstop.2.2))
  · intro hgo hstop
    exact absurd (hstops.mp hstop) hgo

theorem checks_edge_iff (system : System) (enable enable' : Bool) :
    PcAssert.pc4Check (pcSample read rom system enable)
          (pcSample read rom (edge read rom system enable) enable') ∧
        PcAssert.loadCheck (pcSample read rom system enable)
          (pcSample read rom (edge read rom system enable) enable') ↔
      ¬ Stops read rom system enable := by
  rw [← haltHarmless_iff]
  exact PcAssert.checks_iff system.main.pc _ _ rfl rfl rfl rfl

/-- On a run without reset, with or without stalls, the checks on the program
counter hold if and only if no edge but perhaps the last retires the all-zero
word. -/
theorem assertionsHold_iff_along (system : System) (enables : List Bool) :
    PcAssert.AssertionsHold system.main.pc
        (pcEdges read rom system enables) ↔
      Clocked.Along (edge read rom)
        (fun system enable => ¬ Stops read rom system enable) system
        enables.dropLast := by
  let checks := fun now next : PcAssert.Sample =>
    PcAssert.pc4Check now next ∧ PcAssert.loadCheck now next
  have hedge : ∀ (system : System) (enable enable' : Bool),
      checks (pcSample read rom system enable)
          (pcSample read rom (edge read rom system enable) enable') ↔
        ¬ Stops read rom system enable :=
    checks_edge_iff
  rw [PcAssert.AssertionsHold, samples_pcEdges,
    ← Clocked.isChain_samples_iff hedge]
  simp only [List.isChain_iff_getElem, checks]
  constructor
  · rintro ⟨hpc4, hload⟩ i hi
    exact ⟨hpc4 i hi, hload i hi⟩
  · intro hboth
    exact ⟨fun i hi => (hboth i hi).1, fun i hi => (hboth i hi).2⟩

theorem not_stops_of_fetch {system : System}
    (hphase : system.main.executeCycle = false) (enable : Bool) :
    ¬ Stops read rom system enable := by
  rintro ⟨_, hexecute, _⟩
  rw [hphase] at hexecute
  contradiction

theorem stops_after_fetch_iff {system : System}
    (hphase : system.main.executeCycle = false) :
    Stops read rom (edge read rom system true) true ↔
      rom system.main.imemAddr = 0#32 := by
  have hexecute : (edge read rom system true).main.executeCycle = true :=
    (posedgeClk_executeCycle true).trans (by rw [hphase]; rfl)
  have hword : (edge read rom system true).imemData read rom =
      rom system.main.imemAddr :=
    imemData_after_fetch hphase
  rw [Stops, hexecute, hword]
  simp

theorem run_edge_even (system : System) (j : ℕ) :
    Clocked.run (edge read rom) system (List.replicate (2 * j) true) =
      (twoCycles rtl read rom)^[j] system := by
  rw [run_edge_replicate, Clocked.run_replicate_two_mul]
  rfl

/-- After a reset the checks on the program counter hold at `2 * k + 1` edges
if and only if none of the first `k` words is the all-zero word: a program
which halts violates them, whatever it consists of. -/
theorem pc_assertions_hold_iff_running (read : RomRead) (rom : Memory)
    (before : System) {event : Event} (hreset : event.isReset = true)
    (k : ℕ) :
    let system := step rtl read rom before event
    PcAssert.AssertionsHold system.main.pc
        (pcEdges read rom system (List.replicate (2 * k + 1) true)) ↔
      ∀ j < k,
        rom (((CoreIsa.step funcOp rom)^[j]
          (Isa.State.initial system.ram)).pc >>> 2) ≠ 0#32 := by
  intro system
  have hmain : system.main = Main.afterReset := step_isReset hreset
  have hphase : ∀ j,
      ((twoCycles rtl read rom)^[j] system).main.executeCycle = false := by
    intro j
    apply iterate_twoCycles_executeCycle j
    rw [hmain]
    rfl
  have hword : ∀ j,
      ((twoCycles rtl read rom)^[j] system).main.imemAddr =
        ((CoreIsa.step funcOp rom)^[j]
          (Isa.State.initial system.ram)).pc >>> 2 := by
    intro j
    rw [← isaState_run_of_afterReset read rom hmain j,
      ← run_edge_replicate, run_edge_even]
    rfl
  rw [assertionsHold_iff_along, List.dropLast_replicate,
    Nat.add_sub_cancel, Clocked.along_replicate_iff]
  constructor
  · intro hall j hj hzero
    apply hall (2 * j + 1) (by omega)
    rw [Clocked.run_replicate_succ, run_edge_even,
      stops_after_fetch_iff (hphase j), hword]
    exact hzero
  · intro hrunning i hi
    obtain ⟨j, hparity⟩ : ∃ j, i = 2 * j ∨ i = 2 * j + 1 :=
      ⟨i / 2, by omega⟩
    rcases hparity with rfl | rfl
    · rw [run_edge_even]
      exact not_stops_of_fetch (hphase j) true
    · rw [Clocked.run_replicate_succ, run_edge_even,
        stops_after_fetch_iff (hphase j), hword]
      exact hrunning j (by omega)

/-- One instruction, then the all-zero word. -/
theorem pc_assertions_hold_iff_running_once :
    let rom : Memory := fun index =>
      if index = 0#32 then 0x00100093#32 else 0#32
    let system := step rtl .registered rom (afterReset 0#32 fun _ => 0#32)
      .aresetRise
    PcAssert.AssertionsHold system.main.pc
        (pcEdges .registered rom system (List.replicate 5 true)) ↔
      ∀ j < 2,
        rom (((CoreIsa.step funcOp rom)^[j]
          (Isa.State.initial system.ram)).pc >>> 2) ≠ 0#32 := by
  intro rom system
  exact pc_assertions_hold_iff_running .registered rom _ rfl 2

end Checks

end System

end RiscvLogism
