import RiscvLogism.BoardLoads
import RiscvLogism.CoreRuns

/-!
# The instruction set of the board

On the board a load does not read at the address it computes: it reads at
the address which the ALU computes for the word executed before it, from the
registers as that word leaves them.  This file states the machine a programmer
of the board really has, with the word last executed as a part of its state,
and proves that the board runs it: two edges of the clock for each
instruction, for every program image, after any reset and for both behaviours
of the memory ports.
-/

namespace RiscvLogism

/-! ## Arithmetic -/

def De1.operation (funct3 : BitVec 3) (funct7Bit5 : Bool) : AluOp :=
  if De1.CommonFunct3 funct3 then funcOp funct3 funct7Bit5 else .and

theorem De1.arithmetic_implements :
    De1.arithmetic.Implements De1.operation := by
  constructor
  · intro x y _ _
    rfl
  · intro x y _ _
    rfl
  · intro x y funct3 funct7Bit5
    by_cases hcommon : De1.CommonFunct3 funct3
    · rw [De1.operation, if_pos hcommon]
      exact De1.aluOut_func_code hcommon x y funct7Bit5
    · rw [De1.operation, if_neg hcommon]
      exact De1.aluOut_func_default hcommon x y funct7Bit5
  · intro x y aluOps
    rfl

/-! ## The machine -/

def Isa.Regs.regfile (regs : Isa.Regs) : RegFile where
  regs := regs.get

@[simp] theorem Isa.Regs.readRegOut_regfile (regs : Isa.Regs)
    (index : RegIndex) : regs.regfile.readRegOut index = regs.get index := by
  unfold RegFile.readRegOut
  split_ifs with hzero
  · rw [hzero, regs.get_zero]
  · rfl

namespace Delayed

/-- The architectural state of the board, with the word on the instruction
port: the one executed last, or after a reset an arbitrary one. -/
@[ext] structure State where
  pc : Word
  regs : Isa.Regs
  mem : De1.MemoryIndex → Word
  shown : Word

def State.initial (mem : De1.MemoryIndex → Word) (shown : Word) : State where
  pc := 0#32
  regs := .zeros
  mem := mem
  shown := shown

/-- The index at which the data memory reads while a word is shown. -/
def sampled (regs : Isa.Regs) (shown : Word) : De1.MemoryIndex :=
  (Board.aluResult regs.regfile shown).extractLsb 14 2

def State.loaded (state : State) : Word :=
  state.mem (sampled state.regs state.shown)

/-- The state a word sees, whatever address it would like to load from. -/
def State.seen (state : State) : Isa.State where
  pc := state.pc
  regs := state.regs
  ram := fun _ => state.loaded

def stored (state : State) (word : Word) : De1.MemoryIndex → Word :=
  match CoreIsa.store state.regs word with
  | some (address, data) =>
      Function.update state.mem (address.extractLsb 14 2) data
  | none => state.mem

def exec (state : State) (word : Word) : State :=
  let next := CoreIsa.exec De1.operation state.seen word
  { pc := next.pc
    regs := next.regs
    mem := stored state word
    shown := word }

def step (rom : De1.MemoryIndex → Word) (state : State) : State :=
  exec state (rom (state.pc.extractLsb 14 2))

end Delayed

/-! ## The board runs it -/

namespace Board

theorem aluResult_isaRegs (regfile : RegFile) (word : Word) :
    aluResult regfile.isaRegs.regfile word = aluResult regfile word := by
  unfold aluResult
  simp only [Isa.Regs.readRegOut_regfile, RegFile.isaRegs_get]

def delayed (board : Board) : Delayed.State where
  pc := board.main.pcAddress
  regs := board.main.regfile.isaRegs
  mem := board.dataMemory.mem
  shown := board.imemData

/-- The core and a data memory which holds the word on the data port
everywhere. -/
def bench (board : Board) : Bench where
  main := board.main
  ram := fun _ => board.dmemRdata

section Edges

variable {mode : ReadDuringWrite} {board : Board}

theorem main_posedgeClk_execute (hphase : board.main.executeCycle = true) :
    (board.posedgeClk mode true).main =
      (board.bench.executed De1.arithmetic board.imemData).main := by
  have hedge :
      board.bench.posedgeClk De1.arithmetic board.imemData false true =
        board.bench.executed De1.arithmetic board.imemData :=
    Bench.posedgeClk_execute hphase _
  rw [← hedge]
  rfl

theorem dataMemory_posedgeClk_execute
    (hphase : board.main.executeCycle = true) :
    (board.posedgeClk mode true).dataMemory.mem =
      Delayed.stored board.delayed board.imemData := by
  have hwren :
      OnchipMemory.wren board.dataInputs =
        (controlUnit board.imemData).memWrite := by
    simp [OnchipMemory.wren, dataInputs, De1.dmemWe, hphase]
  have hmem :
      (board.posedgeClk mode true).dataMemory.mem =
        if (controlUnit board.imemData).memWrite then
          Function.update board.dataMemory.mem
            (De1.dmemAddr board.main board.imemData)
            (De1.dmemWdata board.main board.imemData)
        else board.dataMemory.mem := by
    rw [← hwren]
    rfl
  have hstore :
      CoreIsa.store board.delayed.regs board.imemData =
        if (controlUnit board.imemData).memWrite then
          some (board.main.dmemAddr De1.arithmetic board.imemData,
            board.main.dmemWdata board.imemData)
        else none :=
    (De1.arithmetic_implements.store_eq board.main board.imemData).symm
  rw [hmem, Delayed.stored, hstore]
  cases hwrite : (controlUnit board.imemData).memWrite with
  | true => rfl
  | false => rfl

theorem programMemory_mem_step (event : Event) :
    (step mode board event).programMemory.mem = board.programMemory.mem := by
  cases event with
  | clk key1 => rfl
  | key1Fall => rfl

theorem programMemory_mem_run (events : List Event) :
    (Clocked.run (step mode) board events).programMemory.mem =
      board.programMemory.mem := by
  induction events generalizing board with
  | nil => rfl
  | cons event rest ih => exact ih.trans (programMemory_mem_step event)

theorem sampled_delayed :
    Delayed.sampled board.delayed.regs board.delayed.shown =
      De1.dmemAddr board.main board.imemData := by
  rw [dmemAddr_eq_staleIndex, staleIndex, ← aluResult_isaRegs]
  rfl

/-- The state in which the word about to be executed finds the board. -/
theorem isaState_bench_fetched (hphase : board.main.executeCycle = false) :
    (board.posedgeClk mode true).bench.isaState = board.delayed.seen := by
  have hloaded :
      (board.posedgeClk mode true).dmemRdata = board.delayed.loaded := by
    rw [posedgeClk_fetch hphase, Delayed.State.loaded, sampled_delayed]
    rfl
  unfold bench Bench.isaState Delayed.State.seen
  rw [hloaded, posedgeClk_fetch hphase]
  rfl

def twoEdges (mode : ReadDuringWrite) (board : Board) : Board :=
  (board.posedgeClk mode true).posedgeClk mode true

theorem executeCycle_twoEdges (hphase : board.main.executeCycle = false) :
    (board.twoEdges mode).main.executeCycle = false := by
  rw [twoEdges, executeCycle_posedgeClk, executeCycle_posedgeClk, hphase]
  rfl

theorem delayed_twoEdges (hphase : board.main.executeCycle = false) :
    (board.twoEdges mode).delayed =
      Delayed.step board.programMemory.mem board.delayed := by
  let middle := board.posedgeClk mode true
  have hmiddle : middle =
      { main := { board.main with executeCycle := true }
        dataMemory :=
          { mem := board.dataMemory.mem
            readdata := board.dataMemory.mem
              (De1.dmemAddr board.main board.imemData) }
        programMemory :=
          { mem := board.programMemory.mem
            readdata := board.programMemory.mem
              (De1.imemAddr board.main) } } := posedgeClk_fetch hphase
  have hexecute : middle.main.executeCycle = true := by
    rw [hmiddle]
  have hword : middle.imemData =
      board.programMemory.mem (board.delayed.pc.extractLsb 14 2) := by
    rw [hmiddle]
    rfl
  have hmain :
      (board.twoEdges mode).main =
        (middle.bench.executed De1.arithmetic middle.imemData).main :=
    main_posedgeClk_execute hexecute
  have hmem :
      (board.twoEdges mode).dataMemory.mem =
        Delayed.stored middle.delayed middle.imemData :=
    dataMemory_posedgeClk_execute hexecute
  have hstate :
      (middle.bench.executed De1.arithmetic middle.imemData).isaState =
        CoreIsa.exec De1.operation board.delayed.seen middle.imemData := by
    rw [middle.bench.isaState_executed_word De1.arithmetic_implements,
      isaState_bench_fetched hphase]
  have hstored :
      Delayed.stored middle.delayed middle.imemData =
        Delayed.stored board.delayed middle.imemData := by
    unfold Delayed.stored
    rw [hmiddle]
    rfl
  rw [Delayed.step, Delayed.exec, ← hword]
  apply Delayed.State.ext
  · exact (congrArg Main.pcAddress hmain).trans
      (congrArg Isa.State.pc hstate)
  · exact (congrArg (fun main : Main => main.regfile.isaRegs) hmain).trans
      (congrArg Isa.State.regs hstate)
  · exact hmem.trans hstored
  · rw [hword]
    change middle.programMemory.mem (De1.imemAddr middle.main) = _
    rw [hmiddle]
    rfl

theorem executeCycle_run_even (k : ℕ)
    (hphase : board.main.executeCycle = false) :
    (Clocked.run (step mode) board
      (List.replicate (2 * k) (.clk true))).main.executeCycle = false := by
  induction k with
  | zero => exact hphase
  | succ k ih =>
      rw [show 2 * (k + 1) = 2 * k + 1 + 1 by omega,
        Clocked.run_replicate_succ, Clocked.run_replicate_succ]
      exact executeCycle_twoEdges ih

theorem delayed_iterate_twoEdges (k : ℕ)
    (hphase : board.main.executeCycle = false) :
    ((twoEdges mode)^[k] board).delayed =
      (Delayed.step board.programMemory.mem)^[k] board.delayed := by
  refine Clocked.iterate_commutes
    (fun now : Board => now.main.executeCycle = false ∧
      now.programMemory.mem = board.programMemory.mem)
    (fun now : Board => now.delayed) ?_ ?_ k ⟨hphase, rfl⟩
  · rintro now ⟨hfetch, hrom⟩
    exact ⟨executeCycle_twoEdges hfetch, hrom⟩
  · rintro now ⟨hfetch, hrom⟩
    rw [delayed_twoEdges hfetch, hrom]

theorem delayed_of_afterReset (hmain : board.main = Main.afterReset) :
    board.delayed =
      Delayed.State.initial board.dataMemory.mem board.imemData := by
  have hisa := System.isaState_afterReset 0#32 fun _ => 0#32
  apply Delayed.State.ext
  · rw [delayed, hmain]
    rfl
  · rw [delayed, hmain]
    exact congrArg Isa.State.regs hisa
  · rfl
  · rfl

end Edges

def Event.isReset : Event → Bool
  | .clk key1 => !key1
  | .key1Fall => true

theorem main_step_isReset {mode : ReadDuringWrite} {board : Board}
    {event : Event} (hreset : event.isReset = true) :
    (step mode board event).main = Main.afterReset := by
  cases event with
  | clk key1 =>
      cases key1 with
      | false => exact main_posedgeClk_reset
      | true => contradiction
  | key1Fall => exact main_negedgeKey1

theorem run_refines_delayed_of_reset (mode : ReadDuringWrite) (before : Board)
    {event : Event} (hreset : event.isReset = true) (k : ℕ) :
    let board := step mode before event
    (Clocked.run (step mode) board
        (List.replicate (2 * k) (.clk true))).delayed =
      (Delayed.step before.programMemory.mem)^[k]
        (Delayed.State.initial board.dataMemory.mem board.imemData) := by
  intro board
  have hmain : board.main = Main.afterReset := main_step_isReset hreset
  have hphase : board.main.executeCycle = false := by
    rw [hmain]
    rfl
  have hrom : board.programMemory.mem = before.programMemory.mem :=
    programMemory_mem_step event
  rw [Clocked.run_replicate_two_mul, ← delayed_of_afterReset hmain, ← hrom]
  exact delayed_iterate_twoEdges k hphase

/-- After a reset at any moment, in any state of the board and with any
program image, the board is after `2k` edges in the state of the machine with
the delayed load after `k` instructions; the image does not change. -/
theorem run_refines_delayed (mode : ReadDuringWrite) (before : Board)
    {event : Event} (hreset : event.isReset = true) (k : ℕ) :
    let board := step mode before event
    let now := Clocked.run (step mode) board
      (List.replicate (2 * k) (.clk true))
    now.programMemory.mem = before.programMemory.mem ∧
      now.delayed =
        (Delayed.step before.programMemory.mem)^[k]
          (Delayed.State.initial board.dataMemory.mem board.imemData) := by
  intro board now
  constructor
  · exact (programMemory_mem_run _).trans (programMemory_mem_step event)
  · exact run_refines_delayed_of_reset mode before hreset k

theorem run_refines_delayed_indexed :
    let board := step .oldData (indexed 0x00402083#32) .key1Fall
    (Clocked.run (step .oldData) board
        (List.replicate 4 (.clk true))).delayed =
      (Delayed.step (indexed 0x00402083#32).programMemory.mem)^[2]
        (Delayed.State.initial board.dataMemory.mem board.imemData) := by
  intro board
  exact (run_refines_delayed .oldData (indexed 0x00402083#32) rfl 2).2

end Board
end RiscvLogism
