import RiscvLogism.BoardSemantics
import RiscvLogism.PcAlignment

/-!
# What always holds on the board

In every state which edges of the clock and presses of the second key can
reach, in any order, the word being executed is the word of the program image
at the program counter, the program counter is even, and only a store in an
execute phase changes a word of the data memory.  The LED lights at a halting
word only, and a board at a halting word stays as it is until the key is
pressed.
-/

namespace RiscvLogism
namespace Board

/-! ## Reachable states -/

section Reachable

variable {mode : ReadDuringWrite} {board : Board}

theorem step_pcMove (event : Event) :
    PcMove board.main board.imemData
      (step mode board event).main.pcAddress := by
  cases event with
  | clk key1 =>
      exact board.main.always_pcMove (board.de1Inputs key1).mainInputs
  | key1Fall =>
      exact board.main.always_pcMove (board.de1Inputs false).mainInputs

theorem Reachable.imemData_eq (hreach : Reachable mode board)
    (hphase : board.main.executeCycle = true) :
    board.imemData = board.programMemory.mem (De1.imemAddr board.main) := by
  obtain ⟨before, hbefore⟩ := exists_fetchBefore hreach hphase
  exact hbefore.imemData_eq

theorem Reachable.even (hreach : Reachable mode board) :
    BitFields.Aligned 1 board.main.pcAddress := by
  apply Clocked.Reachable.invariant _ _ hreach
  · rintro started ⟨powerUp, event, hreset, rfl⟩
    have hmain : (step mode powerUp event).main = Main.afterReset := by
      apply main_step_isReset
      rcases hreset with rfl | rfl
      · rfl
      · rfl
    rw [hmain]
    exact BitFields.aligned_zero 1
  · intro before event hpc
    exact (step_pcMove event).aligned (by omega) hpc
      fun _ => transfersAligned_one _

theorem dataMemory_step_of_fetch (hphase : board.main.executeCycle = false)
    (event : Event) :
    (step mode board event).dataMemory.mem = board.dataMemory.mem := by
  have hclosed : OnchipMemory.wren board.dataInputs = false := by
    simp [OnchipMemory.wren, dataInputs, De1.dmemWe, hphase]
  cases event with
  | clk key1 =>
      change (board.dataMemory.posedgeClk mode board.dataInputs).mem =
        board.dataMemory.mem
      rw [OnchipMemory.posedgeClk_read hclosed]
  | key1Fall => rfl

theorem dataMemory_step_of_execute (mode : ReadDuringWrite)
    (hphase : board.main.executeCycle = true) (event : Event) :
    (step mode board event).dataMemory.mem = board.dataMemory.mem ∨
      (step mode board event).dataMemory.mem =
        Delayed.stored board.delayed board.imemData := by
  cases event with
  | clk key1 => exact .inr (dataMemory_posedgeClk_execute hphase)
  | key1Fall => exact .inl rfl

/-- The program image never changes, and a word of the data memory changes at
an event only if the event is an edge which executes a store of the new value
to that word, the store being the word of the image at the program counter. -/
theorem memories_change_by_stores_only (hreach : Reachable mode board)
    (event : Event) :
    (step mode board event).programMemory.mem = board.programMemory.mem ∧
      ∀ index,
        (step mode board event).dataMemory.mem index ≠
            board.dataMemory.mem index →
          let word := board.programMemory.mem (De1.imemAddr board.main)
          (∃ key1, event = .clk key1) ∧
            board.main.executeCycle = true ∧
            Isa.opcode word = ControlUnit.stype ∧
            index = (board.main.regfile.readRegOut (Isa.rs1 word) +
              (Isa.immS word).signExtend 32).extractLsb 14 2 ∧
            (step mode board event).dataMemory.mem index =
              board.main.regfile.readRegOut (Isa.rs2 word) := by
  refine ⟨programMemory_mem_step event, ?_⟩
  intro index hchanged word
  have hclk : ∃ key1, event = .clk key1 := by
    cases event with
    | clk key1 => exact ⟨key1, rfl⟩
    | key1Fall => exact absurd rfl hchanged
  cases hphase : board.main.executeCycle with
  | false =>
      rw [dataMemory_step_of_fetch hphase] at hchanged
      contradiction
  | true =>
      have hword : board.imemData = word := hreach.imemData_eq hphase
      rcases dataMemory_step_of_execute mode hphase event with
        hsame | hstored
      · rw [hsame] at hchanged
        contradiction
      · rw [hstored, hword, Delayed.stored, CoreIsa.store] at hchanged ⊢
        by_cases hop : Isa.opcode word = 0b0100011#7
        · simp only [if_pos hop] at hchanged ⊢
          by_cases hindex :
              index = (board.delayed.regs.get (Isa.rs1 word) +
                (Isa.immS word).signExtend 32).extractLsb 14 2
          · refine ⟨hclk, trivial, hop, hindex, ?_⟩
            rw [hindex, Function.update_self]
            rfl
          · rw [Function.update_of_ne hindex] at hchanged
            exact absurd rfl hchanged
        · simp only [if_neg hop] at hchanged
          exact absurd rfl hchanged

end Reachable

theorem memories_change_by_stores_only_secondExecute :
    let board := secondExecute 0x00102223#32
    let next := step .newData board (.clk true)
    next.programMemory.mem = board.programMemory.mem ∧
      next.dataMemory.mem 1#13 =
        board.main.regfile.readRegOut 1#5 := by
  have hafter :
      (step .newData (secondExecute 0x00102223#32)
        (.clk true)).dataMemory.mem 1#13 = 0#32 := by
    decide +kernel
  intro board next
  have hreach := reachable_secondExecute 0x00102223#32
  have hword :
      board.programMemory.mem (De1.imemAddr board.main) =
        0x00102223#32 := (hreach.imemData_eq rfl).symm
  have hbefore : board.dataMemory.mem 1#13 = 1#32 := rfl
  have hchanged :
      next.dataMemory.mem 1#13 ≠ board.dataMemory.mem 1#13 := by
    rw [show next.dataMemory.mem 1#13 = 0#32 from hafter, hbefore]
    decide
  obtain ⟨himage, hdata⟩ :=
    memories_change_by_stores_only hreach (.clk true)
  have hstored := (hdata 1#13 hchanged).2.2.2.2
  rw [hword] at hstored
  exact ⟨himage, hstored⟩

/-- No stale word is executed and the program counter is even, over any
interleaving of clock edges and key presses after the first reset. -/
theorem executes_image_word (mode : ReadDuringWrite) {board : Board}
    (hreach : Reachable mode board) (events : List Event) :
    let now := Clocked.run (step mode) board events
    (now.main.executeCycle = true →
      now.imemData =
        board.programMemory.mem (now.main.pcAddress.extractLsb 14 2)) ∧
      now.main.pcAddress.toNat % 2 = 0 := by
  intro now
  have hnow : Reachable mode now := hreach.run events
  constructor
  · intro hphase
    have hword := hnow.imemData_eq hphase
    rw [programMemory_mem_run] at hword
    exact hword
  · exact Nat.mod_eq_zero_of_dvd hnow.even

theorem executes_image_word_secondExecute :
    let now := Clocked.run (step .newData) (secondExecute 0x0000006f#32)
      [.clk true, .clk true]
    now.imemData = 0x0000006f#32 ∧ now.main.pcAddress.toNat % 2 = 0 := by
  intro now
  obtain ⟨hword, heven⟩ :=
    executes_image_word .newData (reachable_secondExecute 0x0000006f#32)
      [.clk true, .clk true]
  exact ⟨hword rfl, heven⟩

/-! ## Halting -/

/-- `LEDR[2]`. -/
def ledHalt (board : Board) : Bool := De1.halt board.imemData

theorem ledHalt_iff (board : Board) :
    board.ledHalt = true ↔ board.imemData = 0#32 := by
  rw [ledHalt, De1.halt, ControlUnit.controlUnit_haltDetected, beq_iff_eq]

def imageWord (board : Board) : Word :=
  board.programMemory.mem (De1.imemAddr board.main)

theorem imemData_posedgeClk (mode : ReadDuringWrite) (board : Board)
    (key1 : Bool) :
    (board.posedgeClk mode key1).imemData = board.imageWord := rfl

/-- The board is at a halting word, with these contents. -/
structure FrozenAt (frozen : Board) (board : Board) : Prop where
  word : board.main.executeCycle = true → board.imemData = 0#32
  next : board.imageWord = 0#32
  pc : board.main.pc = frozen.main.pc
  regfile : board.main.regfile = frozen.main.regfile
  mem : board.dataMemory.mem = frozen.dataMemory.mem

section Frozen

variable {mode : ReadDuringWrite} {frozen board : Board}

theorem FrozenAt.main_posedgeClk (mode : ReadDuringWrite)
    (hfrozen : FrozenAt frozen board) :
    (board.posedgeClk mode true).main.pc = board.main.pc ∧
      (board.posedgeClk mode true).main.regfile = board.main.regfile := by
  cases hphase : board.main.executeCycle with
  | false =>
      rw [posedgeClk_fetch hphase]
      exact ⟨rfl, rfl⟩
  | true =>
      have hword := hfrozen.word hphase
      have hhalt : Main.halt board.imemData = true := by
        rw [hword]
        rfl
      have hwrite : board.main.actualRegWrite board.imemData = false := by
        rw [hword]
        rfl
      exact ⟨Main.always_halt_pc rfl hhalt,
        Main.always_regfile_hold rfl hwrite⟩

theorem FrozenAt.mem_posedgeClk (mode : ReadDuringWrite)
    (hfrozen : FrozenAt frozen board) :
    (board.posedgeClk mode true).dataMemory.mem =
      board.dataMemory.mem := by
  cases hphase : board.main.executeCycle with
  | false =>
      rw [posedgeClk_fetch hphase]
  | true =>
      rw [dataMemory_posedgeClk_execute hphase, hfrozen.word hphase]
      rfl

theorem FrozenAt.posedgeClk (hfrozen : FrozenAt frozen board) :
    FrozenAt frozen (board.posedgeClk mode true) := by
  obtain ⟨hpc, hregfile⟩ := hfrozen.main_posedgeClk mode
  have hmem := hfrozen.mem_posedgeClk mode
  constructor
  · intro _
    rw [imemData_posedgeClk]
    exact hfrozen.next
  · have hnext : (board.posedgeClk mode true).imageWord = board.imageWord := by
      unfold imageWord De1.imemAddr Main.pcAddress
      rw [hpc]
      rfl
    rw [hnext]
    exact hfrozen.next
  · rw [hpc, hfrozen.pc]
  · rw [hregfile, hfrozen.regfile]
  · rw [hmem, hfrozen.mem]

theorem FrozenAt.run (hfrozen : FrozenAt frozen board) (n : ℕ) :
    FrozenAt frozen
      (Clocked.run (step mode) board (List.replicate n (.clk true))) := by
  induction n generalizing board with
  | zero => exact hfrozen
  | succ n ih => exact ih hfrozen.posedgeClk

theorem FrozenAt.ledHalt_run (hfrozen : FrozenAt frozen board) {n : ℕ}
    (hpos : 0 < n) :
    (Clocked.run (step mode) board
      (List.replicate n (.clk true))).ledHalt = true := by
  obtain ⟨m, rfl⟩ : ∃ m, n = m + 1 := ⟨n - 1, by omega⟩
  have hlast :
      Clocked.run (step mode) board (List.replicate (m + 1) (.clk true)) =
        (Clocked.run (step mode) board
          (List.replicate m (.clk true))).posedgeClk mode true :=
    Clocked.run_replicate_succ _ _ _ _
  rw [ledHalt_iff, hlast, imemData_posedgeClk]
  exact (hfrozen.run m).next

end Frozen

/-- Once the word of the image at the program counter is zero, in either
phase, nothing changes any more and the LED is lit after every edge; and the
LED is lit after an edge only if that word is zero.  The key is released at
these edges. -/
theorem led_sound_and_permanent {mode : ReadDuringWrite} {board : Board}
    (hreach : Reachable mode board) :
    ((board.posedgeClk mode true).ledHalt = true →
      (board.posedgeClk mode true).imageWord = 0#32) ∧
    (board.imageWord = 0#32 →
      ∀ n : ℕ,
        let later := Clocked.run (step mode) board
          (List.replicate n (.clk true))
        later.main.pcAddress = board.main.pcAddress ∧
          later.main.regfile = board.main.regfile ∧
          later.dataMemory.mem = board.dataMemory.mem ∧
          (0 < n → later.ledHalt = true)) := by
  have hfrozen : board.imageWord = 0#32 → FrozenAt board board := by
    intro hnext
    refine ⟨?_, hnext, rfl, rfl, rfl⟩
    intro hphase
    exact (hreach.imemData_eq hphase).trans hnext
  constructor
  · intro hled
    have hnext : board.imageWord = 0#32 := (ledHalt_iff _).mp hled
    exact (hfrozen hnext).posedgeClk.next
  · intro hnext n later
    have hlater : FrozenAt board later := (hfrozen hnext).run n
    exact ⟨congrArg PC.pcAddress hlater.pc, hlater.regfile, hlater.mem,
      (hfrozen hnext).ledHalt_run⟩

theorem led_sound_and_permanent_secondExecute :
    let board := secondExecute 0x00000000#32
    (board.posedgeClk .newData true).imageWord = 0#32 ∧
      ∀ n : ℕ,
        (Clocked.run (step .newData) board
          (List.replicate n (.clk true))).main.pcAddress = 4#32 := by
  intro board
  obtain ⟨hled, hpermanent⟩ :=
    led_sound_and_permanent (reachable_secondExecute 0x00000000#32)
  refine ⟨hled rfl, ?_⟩
  intro n
  exact (hpermanent rfl n).1

end Board
end RiscvLogism
