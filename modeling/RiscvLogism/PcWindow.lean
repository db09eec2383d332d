import RiscvLogism.BoardModel
import RiscvLogism.LogisimModel

/-!
# The part of the program counter that matters

No register but the program counter depends on it: branches and jumps are
relative, and a jump links no address.  The bits above the address of the
instruction memory are therefore never seen, on the board and in the drawing,
over any sequence of edges and resets.
-/

namespace RiscvLogism

/-! ## Low bits -/

/-- Two words with the same `n` low bits. -/
def SameLow (n : ℕ) (x y : Word) : Prop := x.setWidth n = y.setWidth n

namespace SameLow

variable {n : ℕ} {x y : Word}

theorem add (hsame : SameLow n x y) (hn : n ≤ 32) (offset : Word) :
    SameLow n (x + offset) (y + offset) := by
  rw [SameLow, BitVec.setWidth_add x offset hn,
    BitVec.setWidth_add y offset hn, hsame]

theorem extractLsb (hsame : SameLow n x y) {hi lo : ℕ} (hlo : lo ≤ hi)
    (hhi : hi < n) : x.extractLsb hi lo = y.extractLsb hi lo := by
  apply BitVec.eq_of_getLsbD_eq
  intro i hi'
  have hbit := congrArg (fun low => low.getLsbD (lo + i)) hsame
  have hlt : lo + i < n := by omega
  simp only [BitVec.getLsbD_setWidth, hlt, decide_true, Bool.true_and]
    at hbit
  simp only [BitVec.getLsbD_extractLsb, hbit]

theorem add_multiple (x multiple : Word) (hn : n ≤ 32) :
    SameLow n (x + multiple <<< n) x := by
  apply BitVec.eq_of_toNat_eq
  have hdvd : 2 ^ n ∣ 2 ^ 32 := Nat.pow_dvd_pow 2 hn
  rw [BitVec.toNat_setWidth, BitVec.toNat_setWidth, BitVec.toNat_add,
    BitVec.toNat_shiftLeft, Nat.shiftLeft_eq, Nat.add_mod_mod,
    Nat.mod_mod_of_dvd _ hdvd, Nat.add_mul_mod_self_right]

end SameLow

/-! ## The board -/

theorem PC.sameLow_always {n : ℕ} (hn : n ≤ 32) {pc pc' : PC}
    (hpc : SameLow n pc.addr pc'.addr) (inputs : PC.Inputs)
    {addressToLoad : Word}
    (hload : SameLow n inputs.addressToLoad addressToLoad) :
    SameLow n (pc.always inputs).addr
      (pc'.always { inputs with addressToLoad := addressToLoad }).addr := by
  unfold PC.always
  dsimp only
  split_ifs
  · rfl
  · exact hload
  · exact hpc.add hn 4#32
  · exact hpc

/-- The cores differ in the higher bits of the program counter at most. -/
structure Main.SameBelow (n : ℕ) (main main' : Main) : Prop where
  pc : SameLow n main.pcAddress main'.pcAddress
  regfile : main.regfile = main'.regfile
  executeCycle : main.executeCycle = main'.executeCycle

theorem Main.SameBelow.always {n : ℕ} (hn : n ≤ 32) {arith : Arithmetic}
    {main main' : Main} (hsame : Main.SameBelow n main main')
    (inputs : Main.Inputs) :
    Main.SameBelow n (main.always arith inputs)
      (main'.always arith inputs) := by
  obtain ⟨⟨addr⟩, regfile, executeCycle⟩ := main
  obtain ⟨⟨addr'⟩, _, _⟩ := main'
  obtain ⟨hpc, rfl, rfl⟩ := hsame
  let main : Main := ⟨⟨addr⟩, regfile, executeCycle⟩
  let main' : Main := ⟨⟨addr'⟩, regfile, executeCycle⟩
  have hload : SameLow n (main.addressToLoad inputs.imemData)
      (main'.addressToLoad inputs.imemData) := by
    rw [Main.addressToLoad_eq, Main.addressToLoad_eq]
    exact hpc.add hn _
  constructor
  · exact PC.sameLow_always hn hpc (main.pcInputs arith inputs) hload
  · rfl
  · rfl

namespace Board

structure SameBelow (board board' : Board) : Prop where
  main : Main.SameBelow 15 board.main board'.main
  dataMemory : board.dataMemory = board'.dataMemory
  programMemory : board.programMemory = board'.programMemory

theorem SameBelow.step {mode : ReadDuringWrite} {board board' : Board}
    (hsame : SameBelow board board') (event : Event) :
    SameBelow (Board.step mode board event)
      (Board.step mode board' event) := by
  obtain ⟨main, dataMemory, programMemory⟩ := board
  obtain ⟨main', _, _⟩ := board'
  obtain ⟨hmain, rfl, rfl⟩ := hsame
  have hnext : ∀ inputs : De1.Inputs, Main.SameBelow 15
      (De1.always main inputs) (De1.always main' inputs) :=
    fun inputs => hmain.always (by omega) inputs.mainInputs
  have himem : De1.imemAddr main = De1.imemAddr main' :=
    hmain.pc.extractLsb (by omega) (by omega)
  obtain ⟨⟨addr⟩, regfile, executeCycle⟩ := main
  obtain ⟨⟨addr'⟩, _, _⟩ := main'
  obtain ⟨_, rfl, rfl⟩ := hmain
  let board : Board :=
    ⟨⟨⟨addr⟩, regfile, executeCycle⟩, dataMemory, programMemory⟩
  let board' : Board :=
    ⟨⟨⟨addr'⟩, regfile, executeCycle⟩, dataMemory, programMemory⟩
  have hdata : board.dataInputs = board'.dataInputs := rfl
  cases event with
  | clk key1 =>
      constructor
      · exact hnext (board.de1Inputs key1)
      · exact congrArg (dataMemory.posedgeClk mode) hdata
      · exact congrArg
          (fun address => programMemory.posedgeClk mode
            { address := address, chipselect := true, write := false
              writedata := 0#32 })
          himem
  | key1Fall => exact ⟨hnext _, rfl, rfl⟩

/-- The board with a program counter which is higher by a number of address
spaces of the memories. -/
def shifted (board : Board) (spaces : Word) : Board where
  main :=
    { board.main with pc := { addr := board.main.pc.addr + spaces <<< 15 } }
  dataMemory := board.dataMemory
  programMemory := board.programMemory

/-- The 17 high bits of the program counter have no effect on the board: over
any sequence of edges and resets the memories and the registers are the same
with other high bits, and the low bits of the program counter too. -/
theorem board_sees_pc_window (mode : ReadDuringWrite) (board : Board)
    (spaces : Word) (events : List Event) :
    SameBelow
      (Clocked.run (Board.step mode) (board.shifted spaces) events)
      (Clocked.run (Board.step mode) board events) := by
  have hstart : SameBelow (board.shifted spaces) board := by
    obtain ⟨⟨⟨addr⟩, regfile, executeCycle⟩, dataMemory, programMemory⟩ :=
      board
    exact ⟨⟨.add_multiple addr spaces (by omega), rfl, rfl⟩, rfl, rfl⟩
  have hstep : ∀ (board board' : Board) (event : Event),
      SameBelow board board' →
        SameBelow (Board.step mode board event)
          (Board.step mode board' event) :=
    fun _ _ event hsame => hsame.step event
  exact Clocked.run_related_of_step hstep hstart events

end Board

/-! ## The drawing -/

namespace Logisim

/-- The drawings differ in the bits of the program counter above the address
of the ROM at most. -/
structure Main.SameBelow (main main' : Main) : Prop where
  pc : SameLow 10 main.pc main'.pc
  regfile : main.regfile = main'.regfile
  ram : main.ram = main'.ram
  ramOut : main.ramOut = main'.ramOut

theorem pc_sameLow {n : ℕ} (hn : n ≤ 32) {addr addr' : Word}
    (haddr : SameLow n addr addr') {addressToLoad addressToLoad' : Word}
    (hload : SameLow n addressToLoad addressToLoad')
    (areset pcEnable loadAddress : Bool) :
    SameLow n (pc areset pcEnable loadAddress addressToLoad addr)
      (pc areset pcEnable loadAddress addressToLoad' addr') := by
  unfold pc Parts.register
  split_ifs
  · rfl
  · exact hload
  · exact haddr.add hn 4#32
  · exact haddr

namespace Main

variable {undriven : Undriven} {read : RamRead} {rom : Rom}

theorem romAddr_of_sameLow {main main' : Main}
    (hpc : SameLow 10 main.pc main'.pc) : main.romAddr = main'.romAddr := by
  have hwindow : ∀ addr : Word,
      (addr >>> 2).extractLsb 7 0 = addr.extractLsb 9 2 := by
    intro addr
    apply BitVec.eq_of_toNat_eq
    simp [BitVec.extractLsb_toNat]
  rw [romAddr, romAddr, hwindow, hwindow]
  exact hpc.extractLsb (by omega) (by omega)

namespace SameBelow

variable {main main' : Main} (hsame : SameBelow main main')

include hsame

theorem instruction_eq : main.instruction rom = main'.instruction rom :=
  congrArg rom (romAddr_of_sameLow hsame.pc)

theorem immOut_eq : main.immOut rom = main'.immOut rom := by
  unfold immOut control
  rw [hsame.instruction_eq]

theorem readRegOut2_eq : main.readRegOut2 rom = main'.readRegOut2 rom := by
  unfold readRegOut2
  rw [hsame.instruction_eq, hsame.regfile]

theorem aluOut_eq : main.aluOut undriven rom = main'.aluOut undriven rom := by
  unfold aluOut aluBMux readRegOut1 control
  rw [hsame.immOut_eq, hsame.readRegOut2_eq, hsame.instruction_eq,
    hsame.regfile]

theorem loadAddress_eq :
    main.loadAddress undriven rom = main'.loadAddress undriven rom := by
  unfold loadAddress control
  rw [hsame.aluOut_eq, hsame.instruction_eq]

theorem ramWritten_eq :
    main.ramWritten undriven rom = main'.ramWritten undriven rom := by
  unfold ramWritten ramAddr control
  rw [hsame.aluOut_eq, hsame.readRegOut2_eq, hsame.instruction_eq, hsame.ram]

theorem ramSampled_eq :
    main.ramSampled undriven read rom =
      main'.ramSampled undriven read rom := by
  unfold ramSampled ramAddr control
  rw [hsame.ramWritten_eq, hsame.aluOut_eq, hsame.instruction_eq, hsame.ram,
    hsame.ramOut]

theorem regfileInputs_eq (areset : Bool) :
    main.regfileInputs undriven read rom areset =
      main'.regfileInputs undriven read rom areset := by
  unfold regfileInputs memtoRegMux ramData ramAddr control
  rw [hsame.aluOut_eq, hsame.instruction_eq, hsame.ram, hsame.ramOut]

theorem step (event : Event) :
    SameBelow (Main.step undriven read rom main event)
      (Main.step undriven read rom main' event) := by
  cases event with
  | clk areset pcEnable =>
      have haddress : SameLow 10 (main.addressToLoad rom)
          (main'.addressToLoad rom) := by
        unfold addressToLoad
        rw [hsame.immOut_eq]
        exact hsame.pc.add (by omega) _
      have hload :
          main.loadAddress undriven rom = main'.loadAddress undriven rom :=
        hsame.loadAddress_eq
      have hnext := pc_sameLow (show 10 ≤ 32 by omega) hsame.pc haddress
        areset pcEnable (main.loadAddress undriven rom)
      constructor
      · change SameLow 10 _ (Logisim.pc _ _ (main'.loadAddress _ _) _ _)
        rw [← hload]
        exact hnext
      · change main.regfile.clk _ = main'.regfile.clk _
        rw [hsame.regfile, hsame.regfileInputs_eq]
      · exact hsame.ramWritten_eq
      · exact hsame.ramSampled_eq
  | aresetRise => exact ⟨rfl, rfl, hsame.ram, hsame.ramOut⟩

theorem run (events : List Event) :
    SameBelow (Clocked.run (Main.step undriven read rom) main events)
      (Clocked.run (Main.step undriven read rom) main' events) := by
  have hstep : ∀ (main main' : Main) (event : Event),
      SameBelow main main' →
        SameBelow (Main.step undriven read rom main event)
          (Main.step undriven read rom main' event) :=
    fun _ _ event hsame => hsame.step event
  exact Clocked.run_related_of_step hstep hsame events

end SameBelow

/-- The drawing with a program counter which is higher by a number of address
spaces of the ROM. -/
def shifted (main : Main) (spaces : Word) : Main :=
  { main with pc := main.pc + spaces <<< 10 }

/-- The 22 high bits of the program counter have no effect on the drawing:
over any sequence of edges and resets the registers and the RAM are the same
with other high bits, and the low bits of the program counter too. -/
theorem drawing_sees_pc_window (undriven : Undriven) (read : RamRead)
    (rom : Rom) (main : Main) (spaces : Word) (events : List Event) :
    SameBelow
      (Clocked.run (Main.step undriven read rom) (main.shifted spaces) events)
      (Clocked.run (Main.step undriven read rom) main events) := by
  have hstart : SameBelow (main.shifted spaces) main :=
    ⟨.add_multiple _ spaces (by omega), rfl, rfl, rfl⟩
  exact hstart.run events

end Main

end Logisim

end RiscvLogism
