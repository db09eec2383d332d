import RiscvLogism.CoreRuns

/-!
# The test bench of the core

`tb_utils.h` and `tb_CPU.cpp`.  The bench drives the pins of the core and has
them evaluated: registers change when an evaluation sees a rising edge of the
clock or of `areset`, outputs after every evaluation.  Its instruction memory
is put on the pins between evaluations, and its data memory is written after
the edge, while the core is still in the execute phase, and not on the edge.
The rows it compares are nevertheless the states of the interpreter, on a
memory of 256 words.
-/

namespace RiscvLogism
namespace TbCPU

/-! ## Pins and evaluation -/

/-- `Vmain`: the registers, the pins, and the two triggers as the last
evaluation saw them. -/
structure Dut where
  main : Main
  clk : Bool
  areset : Bool
  enable : Bool
  imemData : Word
  dmemRdata : Word
  clkSeen : Bool
  aresetSeen : Bool
  imemAddr : Word
  dmemAddr : Word
  dmemWdata : Word
  dmemWe : Bool

namespace Dut

def inputs (dut : Dut) : Main.Inputs where
  areset := dut.areset
  enable := dut.enable
  imemData := dut.imemData
  dmemRdata := dut.dmemRdata

def triggered (dut : Dut) : Bool :=
  dut.clk && !dut.clkSeen || dut.areset && !dut.aresetSeen

/-- The outputs follow the registers and the pins. -/
def settle (dut : Dut) (main : Main) : Dut :=
  { dut with
    main := main
    clkSeen := dut.clk
    aresetSeen := dut.areset
    imemAddr := main.imemAddr
    dmemAddr := main.dmemAddr rtl dut.imemData
    dmemWdata := main.dmemWdata dut.imemData
    dmemWe := main.dmemWe dut.imemData }

def eval (dut : Dut) : Dut :=
  dut.settle
    (if dut.triggered then dut.main.always rtl dut.inputs else dut.main)

def halfTick (dut : Dut) : Dut := { dut with clk := !dut.clk }.eval

def tick (dut : Dut) : Dut := dut.halfTick.halfTick

def reset (dut : Dut) : Dut :=
  { { dut with areset := true }.tick with areset := false }

/-- A constructed bench: all pins low, the registers arbitrary. -/
def powerUp (main : Main) : Dut :=
  { main := main
    clk := false
    areset := false
    enable := false
    imemData := 0#32
    dmemRdata := 0#32
    clkSeen := false
    aresetSeen := false
    imemAddr := 0#32
    dmemAddr := 0#32
    dmemWdata := 0#32
    dmemWe := false : Dut }.eval

end Dut

/-! ## The memories -/

/-- An index past the array is undefined in the bench and arbitrary here. -/
def romEval (rom : Memory) (dut : Dut) : Dut :=
  { dut with imemData := rom dut.imemAddr }

structure RAM where
  mem : BitVec 8 → Word

/-- Reads behind the array give zero. -/
def RAM.at (ram : RAM) (addr : Word) : Word :=
  if addr.toNat < 256 then ram.mem (addr.setWidth 8) else 0#32

def RAM.written (ram : RAM) (dut : Dut) : RAM :=
  let addr := dut.dmemAddr >>> 2
  if dut.dmemWe then
    if addr.toNat < 256 then
      { mem := Function.update ram.mem (addr.setWidth 8) dut.dmemWdata }
    else ram
  else ram

structure TestBench where
  dut : Dut
  ram : RAM

/-- `RAM::tick`. -/
def ramTick (tb : TestBench) : TestBench :=
  let ram := tb.ram.written tb.dut
  { dut := { tb.dut with
      dmemRdata := ram.at (tb.dut.dmemAddr >>> 2) }.eval
    ram := ram }

def cpuTick (rom : Memory) (tb : TestBench) : TestBench :=
  let fetch := ramTick
    { dut := romEval rom tb.dut.tick, ram := tb.ram }
  ramTick { dut := romEval rom fetch.dut.tick, ram := fetch.ram }

/-- The bench as its loop begins. -/
def start (rom : Memory) (main : Main) (ram : RAM) : TestBench where
  dut := romEval rom { Dut.powerUp main with enable := true }.reset
  ram := ram

/-- The bench as the loop checks a row. -/
def row (rom : Memory) (main : Main) (ram : RAM) (i : ℕ) : TestBench :=
  (cpuTick rom)^[i] (start rom main ram)

def TestBench.isaState (tb : TestBench) : Isa.State where
  pc := tb.dut.main.pcAddress
  regs := tb.dut.main.regfile.isaRegs
  ram := tb.ram.at

/-! ## One row -/

/-- Before a fetch edge, with the word at the program counter on the pins. -/
structure AtRow (rom : Memory) (tb : TestBench) : Prop where
  clk : tb.dut.clk = false
  clkSeen : tb.dut.clkSeen = false
  areset : tb.dut.areset = false
  enable : tb.dut.enable = true
  phase : tb.dut.main.executeCycle = false
  word : tb.dut.imemData = rom tb.dut.main.imemAddr

section Evaluations

variable {dut : Dut}

theorem eval_of_not_triggered (htrigger : dut.triggered = false) :
    dut.eval = dut.settle dut.main := by
  rw [Dut.eval, htrigger]
  rfl

/-- A full tick is one rising edge: the falling half evaluates the outputs
once more. -/
theorem tick_eq (hclk : dut.clk = false) (hseen : dut.clkSeen = false) :
    dut.tick = dut.settle (dut.main.always rtl dut.inputs) := by
  have hrise :
      dut.halfTick =
        { dut with clk := true }.settle
          (dut.main.always rtl dut.inputs) := by
    rw [Dut.halfTick, Dut.eval, hclk]
    simp [Dut.triggered, hseen]
    rfl
  rw [Dut.tick, hrise, Dut.halfTick, eval_of_not_triggered]
  · simp [Dut.settle, hclk]
  · simp [Dut.triggered, Dut.settle]

theorem ramTick_eq {ram : RAM} (hclk : dut.clk = false)
    (hreset : dut.areset = false) :
    ramTick { dut := dut, ram := ram } =
      { dut := { dut with
          dmemRdata := (ram.written dut).at (dut.dmemAddr >>> 2) }.settle
            dut.main
        ram := ram.written dut } := by
  rw [ramTick, eval_of_not_triggered]
  simp [Dut.triggered, hclk, hreset]

end Evaluations

/-! ## The limited memory -/

/-- The core between the two edges of an instruction, with the word its data
memory puts on the pins. -/
def fetched (tb : TestBench) (rdata : Word) : Bench where
  main := { tb.dut.main with executeCycle := true }
  ram := fun _ => rdata

/-- The data memory after the fetch tick: a store has already happened. -/
def RAM.after (ram : RAM) (main : Main) (word : Word) : RAM :=
  match CoreIsa.store main.regfile.isaRegs word with
  | some (addr, data) =>
      if (addr >>> 2).toNat < 256 then
        { mem := Function.update ram.mem ((addr >>> 2).setWidth 8) data }
      else ram
  | none => ram

theorem RAM.written_eq (ram : RAM) {dut : Dut} {main : Main} {word : Word}
    (hphase : main.executeCycle = true)
    (hwe : dut.dmemWe = main.dmemWe word)
    (haddr : dut.dmemAddr = main.dmemAddr rtl word)
    (hdata : dut.dmemWdata = main.dmemWdata word) :
    ram.written dut = ram.after main word := by
  rw [RAM.written, RAM.after, ← rtl_implements.store_eq, hwe, haddr, hdata,
    Main.dmemWe, hphase, Bool.and_true]
  cases (controlUnit word).memWrite with
  | true => rfl
  | false => rfl

section Row

variable {rom : Memory} {tb : TestBench}

theorem fetch_tick_eq (hrow : AtRow rom tb) :
    romEval rom tb.dut.tick =
      tb.dut.settle { tb.dut.main with executeCycle := true } := by
  have hmain :
      tb.dut.main.always rtl tb.dut.inputs =
        { tb.dut.main with executeCycle := true } := by
    rw [Main.always_fetch hrow.areset hrow.phase]
    change { tb.dut.main with executeCycle := tb.dut.enable } = _
    rw [hrow.enable]
  have hword :
      rom ({ tb.dut.main with executeCycle := true } : Main).imemAddr =
        tb.dut.imemData := hrow.word.symm
  rw [tick_eq hrow.clk hrow.clkSeen, hmain]
  simp only [romEval, Dut.settle, hword]

/-- The bench between the two ticks of `cpu_tick`. -/
def between (tb : TestBench) (ram : RAM) (rdata : Word) : TestBench where
  dut := { tb.dut.settle { tb.dut.main with executeCycle := true } with
    dmemRdata := rdata }.settle { tb.dut.main with executeCycle := true }
  ram := ram

theorem fetch_ramTick_eq (hrow : AtRow rom tb) :
    let word := rom tb.dut.main.imemAddr
    let ram := tb.ram.after tb.dut.main word
    ramTick { dut := romEval rom tb.dut.tick, ram := tb.ram } =
      between tb ram
        (ram.at (tb.dut.main.dmemAddr rtl word >>> 2)) := by
  intro word ram
  let dut := tb.dut.settle { tb.dut.main with executeCycle := true }
  have hwritten : tb.ram.written dut = ram := by
    have hafter : tb.ram.written dut =
        tb.ram.after { tb.dut.main with executeCycle := true }
          tb.dut.imemData :=
      tb.ram.written_eq rfl rfl rfl rfl
    rw [hafter, hrow.word]
    rfl
  have haddr : dut.dmemAddr = tb.dut.main.dmemAddr rtl word := by
    change ({ tb.dut.main with executeCycle := true } : Main).dmemAddr rtl
      tb.dut.imemData = _
    rw [hrow.word]
    rfl
  have hclk : dut.clk = false := hrow.clk
  have hreset : dut.areset = false := hrow.areset
  have hram := @ramTick_eq dut tb.ram hclk hreset
  rw [hwritten, haddr] at hram
  rw [fetch_tick_eq hrow]
  exact hram

theorem execute_tick_eq (hrow : AtRow rom tb) (ram : RAM) (rdata : Word) :
    (between tb ram rdata).dut.tick =
      (between tb ram rdata).dut.settle
        ((fetched tb rdata).executed rtl
          (rom tb.dut.main.imemAddr)).main := by
  have hinputs :
      (between tb ram rdata).dut.inputs =
        (fetched tb rdata).mainInputs rtl (rom tb.dut.main.imemAddr) false
          true := by
    change (Main.Inputs.mk tb.dut.areset tb.dut.enable tb.dut.imemData
      rdata) = _
    rw [hrow.areset, hrow.enable, hrow.word]
    rfl
  have hexecute :
      (fetched tb rdata).posedgeClk rtl (rom tb.dut.main.imemAddr) false
          true =
        (fetched tb rdata).executed rtl (rom tb.dut.main.imemAddr) :=
    Bench.posedgeClk_execute rfl _
  have hclk : (between tb ram rdata).dut.clk = false := hrow.clk
  have hseen : (between tb ram rdata).dut.clkSeen = false := hrow.clk
  rw [tick_eq hclk hseen, hinputs, ← hexecute]
  rfl

/-- One `cpu_tick`: what the execute edge does with the word at the program
counter, after the data memory has taken a store and answered. -/
theorem cpuTick_eq (hrow : AtRow rom tb) :
    let word := rom tb.dut.main.imemAddr
    let ram := tb.ram.after tb.dut.main word
    let rdata := ram.at (tb.dut.main.dmemAddr rtl word >>> 2)
    let next := ((fetched tb rdata).executed rtl word).main
    (cpuTick rom tb).dut.main = next ∧ (cpuTick rom tb).ram = ram ∧
      AtRow rom (cpuTick rom tb) := by
  intro word ram rdata next
  let dut := romEval rom ((between tb ram rdata).dut.settle next)
  have htick :
      cpuTick rom tb = ramTick { dut := dut, ram := ram } := by
    have hmiddle := fetch_ramTick_eq hrow
    have hsecond := execute_tick_eq hrow ram rdata
    rw [cpuTick, hmiddle, hsecond]
    rfl
  have hwe : dut.dmemWe = false := by
    change ((controlUnit _).memWrite && next.executeCycle) = false
    exact Bool.and_false _
  have hwritten : ram.written dut = ram := by
    rw [RAM.written, hwe]
    rfl
  have hclk : dut.clk = false := hrow.clk
  have hreset : dut.areset = false := hrow.areset
  rw [htick, ramTick_eq hclk hreset, hwritten]
  refine ⟨rfl, rfl, ?_⟩
  exact ⟨hclk, hclk, hreset, hrow.enable, rfl, rfl⟩

theorem AtRow.cpuTick (hrow : AtRow rom tb) :
    AtRow rom (cpuTick rom tb) :=
  (cpuTick_eq hrow).2.2

end Row

end TbCPU
end RiscvLogism
