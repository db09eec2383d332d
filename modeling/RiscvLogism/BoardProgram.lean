import RiscvLogism.BoardSafety
import RiscvLogism.LoadPriming
import RiscvLogism.SummationProgram
import Mathlib.Tactic.IntervalCases

/-!
# The summation program on the board

The memory initialisation file of the board holds the summation program.  Its
only load follows a store to the same address, so that the image passes the
check, for all values its first two instructions put into `x1` and `x2`.  From
any reset the board leaves the sum in the first word of the data memory and
five more than the sum in `x5`, lights the LED and stops.
-/

namespace RiscvLogism
namespace Summation

open Priming

/-! ## The image -/

/-- `ADDI` with `x0` as its source. -/
def loadImmediate (rd : BitVec 5) (imm : BitVec 12) : Word :=
  Isa.layout (imm.extractLsb 11 5) (imm.extractLsb 4 0) 0#5 0b000#3 rd
    0b0010011#7

theorem decode_loadImmediate (rd : BitVec 5) (imm : BitVec 12) :
    Isa.decode (loadImmediate rd imm) = some (.addi rd 0#5 imm) := by
  have himm : Isa.immI (loadImmediate rd imm) = imm := by
    rw [Isa.immI_eq_fields, loadImmediate, Isa.funct7_layout,
      Isa.rs2_layout, BitVec.extractLsb, BitVec.extractLsb,
      BitVec.extractLsb'_append_extractLsb'_eq_extractLsb' (by omega)]
    exact BitVec.extractLsb'_eq_self
  rw [Isa.decode, himm, loadImmediate]
  simp

/-- The image which puts `start` into `x1` and `count` into `x2`; the file
of the board has 0 and 100, the test bench 0 and 10. -/
def image (start count : BitVec 12) : List Word :=
  loadImmediate 1#5 start :: loadImmediate 2#5 count :: words.drop 2

example : image 0#12 10#12 = words := by decide

section Image

variable (start count : BitVec 12)

theorem checkIndex_loadImmediate {words : List Word}
    {index next : De1.MemoryIndex} {rd : BitVec 5} {imm : BitVec 12}
    (hword : wordAt words index = loadImmediate rd imm)
    (hnext : (index.setWidth 32 <<< 2 + 4#32 : Word).extractLsb 14 2 = next)
    (hprimes :
      primes (loadImmediate rd imm) (wordAt words next) = true) :
    checkIndex words index = true := by
  have hindices : nextIndices index (loadImmediate rd imm) = [next] := by
    rw [nextIndices, decode_loadImmediate, ← hnext]
    rfl
  have hcommon : De1.CommonWord (loadImmediate rd imm) := by
    intro hop
    have hopcode : ControlUnit.opcode (loadImmediate rd imm) =
        0b0010011#7 := Isa.opcode_layout _ _ _ _ _ _
    rw [hopcode] at hop
    contradiction
  have hrunnable : Isa.Runnable (loadImmediate rd imm) := by
    right
    rw [decode_loadImmediate]
    rfl
  rw [checkIndex, hword, hindices]
  simp [checkWord, hrunnable, hcommon, decode_loadImmediate, offsetAligned,
    hprimes]

theorem wordAt_image {index : De1.MemoryIndex}
    (hindex : 2 ≤ index.toNat) :
    wordAt (image start count) index = wordAt words index := by
  obtain ⟨n, hn⟩ : ∃ n, index.toNat = n + 2 := ⟨index.toNat - 2, by omega⟩
  rw [wordAt, wordAt, hn]
  rfl

/-- Behind the first two words nothing of the image depends on them. -/
theorem checkIndex_image {index : De1.MemoryIndex}
    (hindex : 2 ≤ index.toNat)
    (hnext : (nextIndices index (wordAt words index)).all
      (fun next => decide (2 ≤ next.toNat)) = true)
    (hcheck : checkIndex words index = true) :
    checkIndex (image start count) index = true := by
  rw [checkIndex, Bool.and_eq_true] at hcheck ⊢
  rw [wordAt_image start count hindex]
  refine ⟨hcheck.1, List.all_eq_true.mpr ?_⟩
  intro next hmem
  have hlow := of_decide_eq_true (List.all_eq_true.mp hnext next hmem)
  rw [wordAt_image start count hlow]
  exact List.all_eq_true.mp hcheck.2 next hmem

theorem checkIndex_words :
    (List.range 13).all (fun i =>
      decide (i < 2) ||
        ((nextIndices (BitVec.ofNat 13 i)
            (wordAt words (BitVec.ofNat 13 i))).all
          (fun next => decide (2 ≤ next.toNat)) &&
        checkIndex words (BitVec.ofNat 13 i))) = true := by
  decide +kernel

theorem check_image : check (image start count) = true := by
  have hfirst :
      wordAt (image start count) 0#13 = loadImmediate 1#5 start := rfl
  have hsecond :
      wordAt (image start count) 1#13 = loadImmediate 2#5 count := rfl
  have hthird : primes (loadImmediate 2#5 count)
      (wordAt (image start count) 2#13) = true := by
    have hword : Isa.decode (wordAt (image start count) 2#13) =
        some (.op .add 1#5 1#5 2#5) := by
      rw [wordAt_image start count (by decide)]
      decide
    rw [primes, hword]
  have hsecond_primes : ∀ earlier,
      primes earlier (loadImmediate 2#5 count) = true := by
    intro earlier
    rw [primes, decode_loadImmediate]
  rw [check, Bool.and_eq_true]
  constructor
  · rw [hfirst, primes, decode_loadImmediate]
  · apply List.all_eq_true.mpr
    intro i hi
    have hlt : i < 13 := List.mem_range.mp hi
    rcases Nat.lt_or_ge i 2 with hlow | hhigh
    · interval_cases i
      · refine checkIndex_loadImmediate hfirst
          (show _ = 1#13 by decide) ?_
        rw [hsecond]
        exact hsecond_primes _
      · exact checkIndex_loadImmediate hsecond
          (show _ = 2#13 by decide) hthird
    · have hclosed :=
        List.all_eq_true.mp checkIndex_words i (List.mem_range.mpr hlt)
      have hnot : decide (i < 2) = false := decide_eq_false (by omega)
      rw [hnot, Bool.false_or, Bool.and_eq_true] at hclosed
      have hindex : 2 ≤ (BitVec.ofNat 13 i).toNat := by
        rw [BitVec.toNat_ofNat]
        omega
      exact checkIndex_image start count hindex hclosed.1 hclosed.2

/-! ## The program on the reference -/

def boardRom : Memory := unindexed (wordAt (image start count))

theorem boardRom_of_mem {pc : Word} (hpc : pc ∈ addresses) :
    boardRom start count (pc >>> 2) = tbRom (pc >>> 2) := by
  simp only [addresses, List.mem_cons, List.not_mem_nil, or_false] at hpc
  rcases hpc with rfl | rfl | rfl | rfl | rfl | rfl | rfl | rfl | rfl <;> rfl

theorem step_of_mem {state : Isa.State} (hpc : state.pc ∈ addresses) :
    Isa.step (boardRom start count) state = Isa.step tbRom state := by
  rw [Isa.step, Isa.step, boardRom_of_mem start count hpc]

theorem holds_tbRom : Holds tbRom := fun _ _ => rfl

theorem iterate_of_mem (k : ℕ) {state : Isa.State}
    (hpc : state.pc ∈ addresses) :
    (Isa.step (boardRom start count))^[k] state =
      (Isa.step tbRom)^[k] state := by
  refine Clocked.iterate_commutes
    (fun state : Isa.State => state.pc ∈ addresses) id ?_ ?_ k hpc
  · intro now hnow
    rw [step_of_mem start count hnow]
    exact holds_tbRom.step_pc_mem hnow
  · intro now hnow
    exact step_of_mem start count hnow

theorem step_start (state : Isa.State) (hpc : state.pc = 0#32) :
    Isa.step (boardRom start count) state =
      { state with
        pc := 4#32
        regs := state.regs.set 1#5 (start.signExtend 32) } := by
  have hword : boardRom start count (0#32 >>> 2) = loadImmediate 1#5 start :=
    rfl
  rw [Isa.step, hpc, hword, Isa.execWord, decode_loadImmediate]
  simp [Isa.exec, hpc, Isa.Regs.get_zero]

theorem step_count (state : Isa.State) (hpc : state.pc = 4#32) :
    Isa.step (boardRom start count) state =
      { state with
        pc := 8#32
        regs := state.regs.set 2#5 (count.signExtend 32) } := by
  have hword : boardRom start count (4#32 >>> 2) = loadImmediate 2#5 count :=
    rfl
  rw [Isa.step, hpc, hword, Isa.execWord, decode_loadImmediate]
  simp [Isa.exec, hpc, Isa.Regs.get_zero]

theorem iterate_setup (ram : Memory) :
    (Isa.step (boardRom start count))^[2] (Isa.State.initial ram) =
      looping .zeros ram 0x8#32 (start.signExtend 32)
        (count.signExtend 32) := by
  have hfirst := step_start start count (Isa.State.initial ram) rfl
  simp only [Function.iterate_succ_apply, Function.iterate_zero_apply]
  rw [hfirst, step_count start count _ rfl]
  rfl

/-- From reset: two instructions of setup, three for each summand and five
after the loop. -/
theorem iterate_image (ram : Memory) (hpos : count ≠ 0#12) :
    let summand : Word := count.signExtend 32
    let sum := total (start.signExtend 32) summand
    (Isa.step (boardRom start count))^[3 * summand.toNat + 7]
        (Isa.State.initial ram) =
      { pc := 0x34#32,
        regs := (((Isa.Regs.zeros.set 1#5 sum).set 2#5 0#32).set 3#5
          0#32).set 5#5 (sum + 5#32),
        ram := Function.update ram 0#32 sum } := by
  intro summand sum
  have hsummand : summand ≠ 0#32 := by
    intro hzero
    exact hpos ((BitFields.signExtend_eq_zero_iff (by omega) count).mp hzero)
  have hmem : (looping .zeros ram 0x8#32 (start.signExtend 32)
      summand).pc ∈ addresses := by
    change 0x8#32 ∈ addresses
    decide
  rw [show 3 * summand.toNat + 7 = (3 * summand.toNat + 5) + 2 by omega,
    Function.iterate_add_apply, iterate_setup,
    iterate_of_mem start count _ hmem]
  exact iterate_until_halt .zeros ram (start.signExtend 32) holds_tbRom
    hsummand

/-! ## The data accesses -/

/-- The program is where it can be, and `x3` is zero before the store and
the load. -/
structure AtZero (state : Isa.State) : Prop where
  pc : state.pc = 0#32 ∨ state.pc = 4#32 ∨ state.pc ∈ addresses
  base : state.pc = 0x18#32 ∨ state.pc = 0x1c#32 →
    state.regs.get 3#5 = 0#32

theorem step_clear_base {state : Isa.State} (hpc : state.pc = 0x14#32) :
    (Isa.step tbRom state).regs.get 3#5 = 0#32 := by
  have hinstr :
      Isa.decode (tbRom (0x14#32 >>> 2)) = some (.addi 3#5 0#5 0#12) := by
    decide
  rw [holds_tbRom.step 0x14#32 hpc (by decide) hinstr]
  simp [Isa.exec, Isa.Regs.get_zero]

theorem step_store_base {state : Isa.State} (hpc : state.pc = 0x18#32) :
    (Isa.step tbRom state).regs = state.regs := by
  have hinstr :
      Isa.decode (tbRom (0x18#32 >>> 2)) = some (.sw 3#5 1#5 0#12) := by
    decide
  rw [holds_tbRom.step 0x18#32 hpc (by decide) hinstr]
  rfl

/-- The store and the load follow the instruction that clears `x3` and the
store. -/
theorem pc_before_access {state : Isa.State} (hpc : state.pc ∈ addresses)
    (hnext : (Isa.step tbRom state).pc = 0x18#32 ∨
      (Isa.step tbRom state).pc = 0x1c#32) :
    state.pc = 0x14#32 ∨ state.pc = 0x18#32 := by
  have hclosed :
      (((Isa.decode (tbRom (state.pc >>> 2))).elim [state.pc]
        (Isa.Instr.successors state.pc)).all fun next =>
          decide (next = 0x18#32 ∨ next = 0x1c#32 →
            state.pc = 0x14#32 ∨ state.pc = 0x18#32)) = true :=
    of_mem_addresses (P := fun pc =>
      (((Isa.decode (tbRom (pc >>> 2))).elim [pc]
        (Isa.Instr.successors pc)).all fun next =>
          decide (next = 0x18#32 ∨ next = 0x1c#32 →
            pc = 0x14#32 ∨ pc = 0x18#32)) = true)
      (by decide) hpc
  have hmem : (Isa.step tbRom state).pc ∈
      (Isa.decode (tbRom (state.pc >>> 2))).elim [state.pc]
        (Isa.Instr.successors state.pc) := by
    rw [Isa.step, Isa.execWord]
    cases Isa.decode (tbRom (state.pc >>> 2)) with
    | none => exact List.mem_singleton_self _
    | some instr => exact Isa.exec_pc_mem_successors state instr
  exact of_decide_eq_true (List.all_eq_true.mp hclosed _ hmem) hnext

theorem AtZero.of_setup {state : Isa.State}
    (hpc : state.pc = 4#32 ∨ state.pc = 8#32) : AtZero state := by
  constructor
  · rcases hpc with hpc | hpc
    · exact .inr (.inl hpc)
    · right
      right
      rw [hpc]
      decide
  · intro haccess
    rcases hpc with hpc | hpc
    · rw [hpc] at haccess
      exact absurd haccess (by decide)
    · rw [hpc] at haccess
      exact absurd haccess (by decide)

theorem AtZero.step {state : Isa.State} (hzero : AtZero state) :
    AtZero (Isa.step (boardRom start count) state) := by
  rcases hzero.pc with hpc | hpc | hpc
  · rw [step_start start count state hpc]
    exact .of_setup (.inl rfl)
  · rw [step_count start count state hpc]
    exact .of_setup (.inr rfl)
  · rw [step_of_mem start count hpc]
    refine ⟨.inr (.inr (holds_tbRom.step_pc_mem hpc)), ?_⟩
    intro hnext
    rcases pc_before_access hpc hnext with hclear | hstore
    · exact step_clear_base hclear
    · rw [step_store_base hstore]
      exact hzero.base (.inl hstore)

theorem AtZero.access {state : Isa.State} (hzero : AtZero state)
    {instr : Isa.Instr} {base : BitVec 5} {offset : BitVec 12}
    (hdecode : Isa.decode (boardRom start count (state.pc >>> 2)) =
      some instr)
    (haccess : instr.access = some (base, offset)) :
    state.regs.get base + offset.signExtend 32 = 0#32 := by
  rcases hzero.pc with hpc | hpc | hpc
  · have hword : boardRom start count (0#32 >>> 2) =
        loadImmediate 1#5 start := rfl
    rw [hpc, hword, decode_loadImmediate] at hdecode
    obtain rfl := Option.some.inj hdecode
    contradiction
  · have hword : boardRom start count (4#32 >>> 2) =
        loadImmediate 2#5 count := rfl
    rw [hpc, hword, decode_loadImmediate] at hdecode
    obtain rfl := Option.some.inj hdecode
    contradiction
  · have hclosed :
        ((Isa.decode (tbRom (state.pc >>> 2))).bind
          Isa.Instr.access).all (fun access =>
            decide ((state.pc = 0x18#32 ∨ state.pc = 0x1c#32) ∧
              access = (3#5, 0#12))) = true :=
      of_mem_addresses (P := fun pc =>
        ((Isa.decode (tbRom (pc >>> 2))).bind
          Isa.Instr.access).all (fun access =>
            decide ((pc = 0x18#32 ∨ pc = 0x1c#32) ∧
              access = (3#5, 0#12))) = true)
        (by decide) hpc
    rw [boardRom_of_mem start count hpc] at hdecode
    rw [hdecode, Option.bind_some, haccess] at hclosed
    obtain ⟨hat, hpair⟩ := of_decide_eq_true hclosed
    obtain ⟨rfl, rfl⟩ := Prod.mk.inj hpair
    rw [hzero.base hat]
    rfl

theorem AtZero.inside {state : Isa.State} (hzero : AtZero state) :
    Inside (boardRom start count) state := by
  intro instr base offset hdecode haccess
  rw [hzero.access start count hdecode haccess]
  decide

theorem atZero_iterate (ram : Memory) (k : ℕ) :
    AtZero ((Isa.step (boardRom start count))^[k]
      (Isa.State.initial ram)) := by
  induction k with
  | zero =>
      refine ⟨.inl rfl, ?_⟩
      intro _
      rfl
  | succ k ih =>
      rw [Function.iterate_succ_apply']
      exact ih.step start count

theorem inside_iterate (ram : Memory) (k : ℕ) :
    Inside (boardRom start count)
      ((Isa.step (boardRom start count))^[k] (Isa.State.initial ram)) :=
  (atZero_iterate start count ram k).inside start count

end Image

/-! ## The program on the board -/

/-- The summation program on the board from any reset, for every start value
and every non-zero count which fit into the immediates: the number of edges
after which it is done, what it leaves, and that it stays done. -/
theorem summation_program_on_board (mode : ReadDuringWrite)
    (start count : BitVec 12) (hpos : count ≠ 0#12) {before : Board}
    (hprogram : before.programMemory.mem = wordAt (image start count))
    {event : Board.Event} (hreset : event.isReset = true) :
    let board := Board.step mode before event
    let summand : Word := count.signExtend 32
    let sum := total (start.signExtend 32) summand
    let after := fun k => Clocked.run (Board.step mode) board
      (List.replicate k (.clk true))
    ∀ n,
      let now := after (6 * summand.toNat + 14 + n)
      now.main.pcAddress = 0x34#32 ∧
        now.main.regfile.readRegOut 1#5 = sum ∧
        now.main.regfile.readRegOut 5#5 = sum + 5#32 ∧
        now.dataMemory.mem 0#13 = sum ∧
        (∀ index, index ≠ 0#13 →
          now.dataMemory.mem index = board.dataMemory.mem index) ∧
        (0 < n → now.ledHalt = true) := by
  intro board summand sum after n now
  let done := after (6 * summand.toNat + 14)
  have hedges :
      6 * summand.toNat + 14 = 2 * (3 * summand.toNat + 7) := by omega
  have hphase : done.main.executeCycle = false := by
    change (after (6 * summand.toNat + 14)).main.executeCycle = false
    rw [hedges]
    apply Board.executeCycle_run_even
    have hmain : board.main = Main.afterReset :=
      Board.main_step_isReset hreset
    rw [hmain]
    rfl
  let final : Isa.State :=
    { pc := 0x34#32
      regs := (((Isa.Regs.zeros.set 1#5 sum).set 2#5 0#32).set 3#5
        0#32).set 5#5 (sum + 5#32)
      ram := Function.update (unindexed board.dataMemory.mem) 0#32 sum }
  have hshows : done.Shows final := by
    have hfinal := iterate_image start count
      (unindexed board.dataMemory.mem) hpos
    change (after (6 * summand.toNat + 14)).Shows _
    rw [hedges, show final = _ from hfinal.symm]
    apply Board.run_shows_of_check mode (check_image start count) hprogram
      hreset
    intro j _
    exact inside_iterate start count _ j
  have himage : done.imageWord = 0#32 := by
    have hmem : done.programMemory.mem = wordAt (image start count) :=
      (Board.programMemory_mem_run _).trans
        ((Board.programMemory_mem_step event).trans hprogram)
    have hindex : De1.imemAddr done.main = 0xd#13 := by
      have hpc : done.main.pcAddress = 0x34#32 := hshows.pc
      rw [De1.imemAddr, hpc]
      decide
    rw [Board.imageWord, hmem, hindex,
      wordAt_image start count (by decide)]
    rfl
  have hfrozen : Board.FrozenAt done done := by
    refine ⟨?_, himage, rfl, rfl, rfl⟩
    rw [hphase]
    intro hexecute
    contradiction
  have hnow : now = Clocked.run (Board.step mode) done
      (List.replicate n (.clk true)) :=
    Clocked.run_replicate_add _ _ _ _ _
  have hlater : Board.FrozenAt done now := by
    rw [hnow]
    exact hfrozen.run n
  have hread : ∀ index : RegIndex,
      now.main.regfile.readRegOut index = final.regs.get index := by
    intro index
    rw [← hshows.regs, ← hlater.regfile]
    rfl
  have hram : ∀ index : De1.MemoryIndex,
      now.dataMemory.mem index = final.ram (index.setWidth 32) := by
    intro index
    rw [hlater.mem]
    exact hshows.ram index
  refine ⟨?_, ?_, ?_, ?_, ?_, ?_⟩
  · exact (congrArg PC.pcAddress hlater.pc).trans hshows.pc
  · rw [hread]
    simp [final]
  · rw [hread]
    simp [final]
  · have hzero : (0#13 : De1.MemoryIndex).setWidth 32 = (0#32 : Word) := rfl
    rw [hram, hzero]
    simp [final]
  · intro index hindex
    have hne : index.setWidth 32 ≠ (0#32 : Word) := by
      intro hzero
      apply hindex
      have hback := congrArg (BitVec.setWidth 13) hzero
      rw [BitVec.setWidth_setWidth_of_le _ (by omega)] at hback
      simpa using hback
    rw [hram]
    change Function.update (unindexed board.dataMemory.mem) 0#32 sum
      (index.setWidth 32) = _
    rw [Function.update_of_ne hne, unindexed,
      BitVec.setWidth_setWidth_of_le _ (by omega), BitVec.setWidth_eq]
  · intro hlate
    rw [hnow]
    exact hfrozen.ledHalt_run hlate

/-- The board with `onchip_mem.mif` in its program memory. -/
def mifBoard (mem : De1.MemoryIndex → Word) : Board where
  main := Main.afterReset
  dataMemory := { mem := mem, readdata := 0#32 }
  programMemory :=
    { mem := wordAt (image 0#12 100#12), readdata := 0#32 }

theorem summation_program_on_board_of_mif :
    let board := Board.step .newData (mifBoard fun _ => 7#32) .key1Fall
    let summand : Word := (100#12).signExtend 32
    let sum := total ((0#12).signExtend 32) summand
    let after := fun k => Clocked.run (Board.step .newData) board
      (List.replicate k (.clk true))
    sum = 5050#32 ∧ 6 * summand.toNat + 14 = 614 ∧
      ∀ n,
        (after (6 * summand.toNat + 14 + n)).dataMemory.mem 0#13 = sum ∧
          (0 < n →
            (after (6 * summand.toNat + 14 + n)).ledHalt = true) := by
  intro board summand sum after
  refine ⟨by decide, by decide, ?_⟩
  intro n
  obtain ⟨_, _, _, hmem, _, hled⟩ :=
    summation_program_on_board .newData 0#12 100#12 (by decide)
      (show (mifBoard fun _ => 7#32).programMemory.mem = _ from rfl)
      (show Board.Event.key1Fall.isReset = true from rfl) n
  exact ⟨hmem, hled⟩

theorem checked_program_refines_isa_of_mif :
    let board := Board.step .oldData (mifBoard fun _ => 7#32) (.clk false)
    let isa := fun j : ℕ => (Isa.step (boardRom 0#12 100#12))^[j]
      (Isa.State.initial (unindexed board.dataMemory.mem))
    (Clocked.run (Board.step .oldData) board
      (List.replicate 201 (.clk true))).Shows (isa 100) := by
  intro board isa
  exact Board.checked_program_refines_isa .oldData (check_image 0#12 100#12)
    (show (mifBoard fun _ => 7#32).programMemory.mem = _ from rfl)
    (show (Board.Event.clk false).isReset = true from rfl) 201
    fun j _ => inside_iterate 0#12 100#12 _ j

end Summation
end RiscvLogism
