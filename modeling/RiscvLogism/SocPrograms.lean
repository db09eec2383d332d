import RiscvLogism.SocIsolation

/-!
# Programs beside the processor system

A program which passes the check runs in the system as RV32I prescribes, while
the processor system is free to use all words which the reference neither
fetches nor loads.
-/

namespace RiscvLogism
namespace Soc

open Priming

/-- The next instruction of the reference and, for a load, its data. -/
structure Covers (reserved : Reserved) (rom : Memory) (isa : Isa.State) :
    Prop where
  fetched : reserved.program (isa.pc.extractLsb 14 2)
  loaded : ∀ rd base offset,
    Isa.decode (rom (isa.pc >>> 2)) = some (.lw rd base offset) →
      reserved.data
        ((isa.regs.get base + offset.signExtend 32).extractLsb 14 2)

theorem opcode_of_memtoReg {word : Word}
    (hload : (controlUnit word).memtoReg = true) :
    Isa.opcode word = 0b0000011#7 := by
  rcases ControlUnit.knownOpcode_of_signal ControlOutputs.memtoReg
    (fun _ => rfl) hload with hop | hop | hop | hop | hop | hop
  · rw [ControlUnit.controlUnit_rtype hop] at hload
    contradiction
  · rw [ControlUnit.controlUnit_itype hop] at hload
    contradiction
  · exact hop
  · rw [ControlUnit.controlUnit_stype hop] at hload
    contradiction
  · rw [ControlUnit.controlUnit_btype hop] at hload
    contradiction
  · rw [ControlUnit.controlUnit_jtype hop] at hload
    contradiction

theorem exists_load {word : Word} (hrunnable : Isa.Runnable word)
    (hload : (controlUnit word).memtoReg = true) :
    ∃ rd base offset, Isa.decode word = some (.lw rd base offset) := by
  have hop := opcode_of_memtoReg hload
  cases hdecode : Isa.decode word with
  | none =>
      rcases hrunnable with hzero | hsome
      · rw [hzero] at hop
        contradiction
      · rw [hdecode] at hsome
        contradiction
  | some instr =>
      have hinstr := executedInstr_of_decode hdecode
      have hlw : executedInstr word =
          some (.lw (Isa.rd word) (Isa.rs1 word) (Isa.immI word)) := by
        simp [executedInstr, hop]
      rw [hlw] at hinstr
      obtain rfl := Option.some.inj hinstr
      exact ⟨_, _, _, rfl⟩

section Edges

variable {reserved : Reserved} {image : De1.MemoryIndex → Word}
  {isa : Isa.State} {board : Board}

theorem uses_of_fetch (hcovers : Covers reserved (unindexed image) isa)
    (hrunnable : Isa.Runnable (unindexed image (isa.pc >>> 2)))
    (htracks : Tracks (unindexed image) isa board.delayed)
    (himage : board.programMemory.mem = image) : Uses reserved board := by
  have hindex : De1.imemAddr board.main = isa.pc.extractLsb 14 2 :=
    congrArg (BitVec.extractLsb 14 2) htracks.pc
  have hword : board.programMemory.mem (De1.imemAddr board.main) =
      unindexed image (isa.pc >>> 2) := by
    rw [himage, hindex, unindexed_pc]
  constructor
  · rw [hindex]
    exact hcovers.fetched
  · intro _ hload
    rw [hword] at hload
    obtain ⟨rd, base, offset, hdecode⟩ := exists_load hrunnable hload
    have hprimed := htracks.primed rd base offset hdecode
    rw [Board.sampled_delayed] at hprimed
    rw [hprimed]
    exact hcovers.loaded rd base offset hdecode

theorem uses_of_execute {mode : ReadDuringWrite}
    (huses : Uses reserved board)
    (hphase : board.main.executeCycle = false) :
    Uses reserved (board.posedgeClk mode true) := by
  rw [Board.posedgeClk_fetch hphase]
  refine ⟨huses.fetched, ?_⟩
  intro hfetch
  contradiction

end Edges

theorem along_uses (mode : ReadDuringWrite) {reserved : Reserved}
    {board : Board} (hmain : board.main = Main.afterReset)
    (hfirst : primes 0#32 (board.programMemory.mem 0#13) = true) (k : ℕ) :
    let rom := unindexed board.programMemory.mem
    let isa := fun j : ℕ => (Isa.step rom)^[j]
      (Isa.State.initial (unindexed board.dataMemory.mem))
    (∀ j < k, Covered rom (isa j)) →
      (∀ j < k, Covers reserved rom (isa j)) →
        Clocked.Along (Board.step mode) (fun board _ => Uses reserved board)
          board (List.replicate (2 * k) (.clk true)) := by
  intro rom isa hcovered hcovers
  have hphase : board.main.executeCycle = false := by
    rw [hmain]
    rfl
  have heven : ∀ j < k, Uses reserved
      (Clocked.run (Board.step mode) board
        (List.replicate (2 * j) (.clk true))) := by
    intro j hj
    have htracks := Board.run_tracks_of_covered mode hmain hfirst j
      fun j' hj' => hcovered j' (hj'.trans hj)
    exact uses_of_fetch (hcovers j hj) (hcovered j hj).runnable htracks
      (Board.programMemory_mem_run _)
  rw [Clocked.along_replicate_iff]
  intro i hi
  have hj : i / 2 < k := by omega
  rcases Nat.mod_two_eq_zero_or_one i with hmod | hmod
  · have hi : i = 2 * (i / 2) := by omega
    rw [hi]
    exact heven _ hj
  · have hi : i = 2 * (i / 2) + 1 := by omega
    rw [hi, Clocked.run_replicate_succ]
    exact uses_of_execute (heven _ hj) (Board.executeCycle_run_even _ hphase)

/-- There is a board without a processor system which the core follows, and
which keeps up with the reference. -/
theorem run_follows_reference (mode : ReadDuringWrite)
    {words : List Word} (hcheck : check words = true)
    {reserved : Reserved} {soc : Soc} (hmain : soc.main = Main.afterReset)
    {edges : List Hps} {k : ℕ} (hlength : edges.length = 2 * k)
    (hprogram : ∀ index, reserved.program index →
      soc.programMemory.mem (index.setWidth 12) = wordAt words index)
    (hquiet : ∀ hps ∈ edges, hps.Respects reserved) :
    let rom := unindexed (wordAt words)
    let isa := fun j : ℕ => (Isa.step rom)^[j]
      (Isa.State.initial (unindexed soc.dataMemory.mem))
    (∀ j < k, Inside rom (isa j) ∧ Covers reserved rom (isa j)) →
      ∃ board : Board, Tracks rom (isa k) board.delayed ∧
        Follows reserved
          (Clocked.run (step mode) soc (edges.map (.clk true))) board := by
  intro rom isa hinside
  let board : Board :=
    { soc.alone with
      programMemory := { mem := wordAt words, readdata := soc.imemData } }
  have hcovered : ∀ j < k, Covered rom (isa j) :=
    fun j hj => covered_of_check hcheck (hinside j hj).1
  have hfirst : primes 0#32 (wordAt words 0#13) = true := by
    rw [check, Bool.and_eq_true] at hcheck
    exact hcheck.1
  have hboard : board.main = Main.afterReset := hmain
  have huses := along_uses mode hboard hfirst k hcovered
    fun j hj => (hinside j hj).2
  have hedges := board_edges edges
  rw [hlength] at hedges
  rw [← hedges] at huses
  have hstart : Follows reserved soc board :=
    { follows_alone reserved soc with program := hprogram }
  have hfollows := hstart.run mode (respects_edges hquiet) huses
  rw [hedges] at hfollows
  exact ⟨_, Board.run_tracks_of_covered mode hboard hfirst k hcovered,
    hfollows⟩

/-- A program which passes the check, and whose data accesses stay within the
memory, runs in the system from any reset on as RV32I prescribes, whatever the
processor system does with the words which the reference neither fetches nor
loads, while the second ports are not being reset.  Only the fetched words of
the program need to be there. -/
theorem checked_program_beside_hps (mode : ReadDuringWrite)
    {words : List Word} (hcheck : check words = true)
    (reserved : Reserved) (before : Soc) {event : Event}
    (hreset : event.board.isReset = true) {edges : List Hps} {k : ℕ}
    (hlength : edges.length = 2 * k) :
    let soc := step mode before event
    let rom := unindexed (wordAt words)
    let isa := fun j : ℕ => (Isa.step rom)^[j]
      (Isa.State.initial (unindexed soc.dataMemory.mem))
    (∀ index, reserved.program index →
      soc.programMemory.mem (index.setWidth 12) = wordAt words index) →
    (∀ j < k, Inside rom (isa j) ∧ Covers reserved rom (isa j)) →
    (∀ hps ∈ edges, hps.Respects reserved) →
      let now := Clocked.run (step mode) soc (edges.map (.clk true))
      now.main.pcAddress = (isa k).pc ∧
        now.main.regfile.isaRegs = (isa k).regs ∧
        ∀ index, reserved.data index →
          now.dataMemory.mem index = (isa k).ram (index.setWidth 32) := by
  intro soc rom isa hprogram hinside hquiet now
  have hmain : soc.main = Main.afterReset :=
    main_step_isReset mode before hreset
  obtain ⟨board, htracks, hfollows⟩ := run_follows_reference mode hcheck
    hmain hlength hprogram hquiet hinside
  refine ⟨?_, ?_, ?_⟩
  · rw [hfollows.main]
    exact htracks.pc
  · rw [hfollows.main]
    exact htracks.regs
  · intro index hindex
    exact (hfollows.data index hindex).trans (htracks.ram index)

/-! ## The summation program -/

open Summation

/-- The words of the program up to the zero word at which it stops, and the
word of the data memory for the sum. -/
def sumReserved : Reserved where
  program := fun index => index.toNat < 14
  data := fun index => index = 0#13

theorem covers_of_atZero (start count : BitVec 12) {isa : Isa.State}
    (hzero : AtZero isa) :
    Covers sumReserved (boardRom start count) isa := by
  constructor
  · change (isa.pc.extractLsb 14 2).toNat < 14
    rcases hzero.pc with hpc | hpc | hpc
    · rw [hpc]
      decide
    · rw [hpc]
      decide
    · exact of_mem_addresses
        (P := fun pc => (pc.extractLsb 14 2).toNat < 14) (by decide) hpc
  · intro rd base offset hdecode
    change BitVec.extractLsb 14 2 _ = 0#13
    rw [hzero.access start count hdecode rfl]
    decide

theorem iterate_image_add (start count : BitVec 12) (ram : Memory)
    (hpos : count ≠ 0#12) (n : ℕ) :
    let summand : Word := count.signExtend 32
    let sum := total (start.signExtend 32) summand
    (Isa.step (boardRom start count))^[3 * summand.toNat + 7 + n]
        (Isa.State.initial ram) =
      { pc := 0x34#32,
        regs := (((Isa.Regs.zeros.set 1#5 sum).set 2#5 0#32).set 3#5
          0#32).set 5#5 (sum + 5#32),
        ram := Function.update ram 0#32 sum } := by
  intro summand sum
  have hfinal : (Isa.step (boardRom start count))^[3 * summand.toNat + 7]
      (Isa.State.initial ram) = _ := iterate_image start count ram hpos
  rw [Nat.add_comm, Function.iterate_add_apply, hfinal]
  apply Function.iterate_fixed
  rw [step_of_mem start count (show (0x34#32 : Word) ∈ addresses by decide)]
  exact holds_tbRom.step_halted rfl

theorem wordAt_of_sumReserved {mem : BitVec 12 → Word} {words : List Word}
    (hmem : ∀ index : BitVec 12, index.toNat < 14 →
      mem index = words.getD index.toNat 0#32)
    {index : De1.MemoryIndex} (hindex : sumReserved.program index) :
    mem (index.setWidth 12) = wordAt words index := by
  have hlow : index.toNat < 14 := hindex
  have hsame : (index.setWidth 12).toNat = index.toNat := by
    rw [BitVec.toNat_setWidth]
    omega
  rw [hmem _ (by omega), hsame, wordAt]

theorem respects_sumReserved {hps : Hps} (hrunning : hps.resetReq2 = false)
    (hprogram : ∀ index, hps.program.writes index = true → 14 ≤ index.toNat)
    (hdata : hps.data.writes 0#13 = false) : hps.Respects sumReserved := by
  refine ⟨?_, ?_, hrunning⟩
  · intro index hindex
    have hlow : index.toNat < 14 := hindex
    cases hwrite : hps.program.writes (index.setWidth 12) with
    | false => rfl
    | true =>
        have hhigh := hprogram _ hwrite
        rw [BitVec.toNat_setWidth] at hhigh
        omega
  · rintro _ rfl
    exact hdata

/-- The summation program in the system from any reset, for every start value
and every non-zero count which fit into the immediates: whatever the processor
system writes to the other words of both memories, and when, the program comes
to its end after the same number of edges with the same sum, if the second
ports are not being reset. -/
theorem summation_program_beside_hps (mode : ReadDuringWrite)
    (start count : BitVec 12) (hpos : count ≠ 0#12) (before : Soc)
    {event : Event} (hreset : event.board.isReset = true)
    {edges : List Hps} {n : ℕ}
    (hlength : edges.length =
      2 * (3 * (count.signExtend 32 : Word).toNat + 7 + n)) :
    let soc := step mode before event
    let sum := total (start.signExtend 32) (count.signExtend 32)
    (∀ index : BitVec 12, index.toNat < 14 →
      soc.programMemory.mem index =
        (image start count).getD index.toNat 0#32) →
    (∀ hps ∈ edges, hps.resetReq2 = false ∧
      (∀ index, hps.program.writes index = true → 14 ≤ index.toNat) ∧
        hps.data.writes 0#13 = false) →
      let now := Clocked.run (step mode) soc (edges.map (.clk true))
      now.main.pcAddress = 0x34#32 ∧
        now.main.regfile.readRegOut 1#5 = sum ∧
        now.main.regfile.readRegOut 5#5 = sum + 5#32 ∧
        now.dataMemory.mem 0#13 = sum := by
  intro soc sum hprogram hquiet now
  have hwords : ∀ index, sumReserved.program index →
      soc.programMemory.mem (index.setWidth 12) =
        wordAt (image start count) index :=
    fun _ hindex => wordAt_of_sumReserved hprogram hindex
  have hrespects : ∀ hps ∈ edges, hps.Respects sumReserved := by
    intro hps hmem
    obtain ⟨hrunning, hleft, hdata⟩ := hquiet hps hmem
    exact respects_sumReserved hrunning hleft hdata
  have hcovers : ∀ j < 3 * (count.signExtend 32 : Word).toNat + 7 + n,
      Inside (boardRom start count) _ ∧
        Covers sumReserved (boardRom start count) _ :=
    fun j _ =>
      ⟨inside_iterate start count (unindexed soc.dataMemory.mem) j,
        covers_of_atZero start count
          (atZero_iterate start count (unindexed soc.dataMemory.mem) j)⟩
  obtain ⟨board, htracks, hfollows⟩ := run_follows_reference mode
    (check_image start count) (main_step_isReset mode before hreset)
    hlength hwords hrespects hcovers
  have hfinal := iterate_image_add start count
    (unindexed soc.dataMemory.mem) hpos n
  have hpc : board.main.pcAddress = 0x34#32 :=
    htracks.pc.trans (congrArg Isa.State.pc hfinal)
  let regs : Isa.Regs := (((Isa.Regs.zeros.set 1#5 sum).set 2#5 0#32).set 3#5
    0#32).set 5#5 (sum + 5#32)
  have hregs : board.main.regfile.isaRegs = regs :=
    htracks.regs.trans (congrArg Isa.State.regs hfinal)
  have hram : board.dataMemory.mem 0#13 = _ :=
    (htracks.ram 0#13).trans
      (congrArg (fun state => state.ram 0#32) hfinal)
  have hread : ∀ index : RegIndex,
      now.main.regfile.readRegOut index = regs.get index := by
    intro index
    rw [hfollows.main, ← hregs]
    rfl
  refine ⟨?_, ?_, ?_, ?_⟩
  · rw [hfollows.main]
    exact hpc
  · rw [hread]
    simp [regs]
  · rw [hread]
    simp [regs]
  · refine (hfollows.data 0#13 rfl).trans (hram.trans ?_)
    exact Function.update_self 0#32 sum (unindexed soc.dataMemory.mem)

/-- The system with `onchip_mem.mif` in its program memory. -/
def mifSoc : Soc where
  main := Main.afterReset
  dataMemory :=
    { mem := fun _ => 7#32, readdata := 0#32, readdata2 := 0#32 }
  programMemory :=
    { mem := fun index => (image 0#12 100#12).getD index.toNat 0#32
      readdata := 0#32, readdata2 := 0#32 }

theorem high_of_load {index : BitVec 12}
    (hwrite : (Hps.load 4000#12 1#32).program.writes index = true) :
    14 ≤ index.toNat := by
  have hindex : 4000#12 = index :=
    eq_of_beq (Bool.and_eq_true_iff.mp hwrite).2
  rw [← hindex]
  decide

/-- The processor system keeps writing behind the program. -/
theorem checked_program_beside_hps_of_mif :
    let soc := step .oldData mifSoc .key1Fall
    let edges := List.replicate 200 (Hps.load 4000#12 1#32)
    let isa := fun j : ℕ => (Isa.step (boardRom 0#12 100#12))^[j]
      (Isa.State.initial (unindexed soc.dataMemory.mem))
    (Clocked.run (step .oldData) soc
      (edges.map (.clk true))).main.pcAddress = (isa 100).pc := by
  intro soc edges isa
  have hprogram : ∀ index, sumReserved.program index →
      soc.programMemory.mem (index.setWidth 12) =
        wordAt (image 0#12 100#12) index :=
    fun _ hindex => wordAt_of_sumReserved (fun _ _ => rfl) hindex
  have hquiet : ∀ hps ∈ edges, hps.Respects sumReserved := by
    intro hps hmem
    obtain rfl := List.eq_of_mem_replicate hmem
    exact respects_sumReserved rfl (fun _ => high_of_load) rfl
  have hcovers : ∀ j < 100, Inside (boardRom 0#12 100#12) (isa j) ∧
      Covers sumReserved (boardRom 0#12 100#12) (isa j) :=
    fun j _ => ⟨inside_iterate 0#12 100#12 _ j,
      covers_of_atZero 0#12 100#12 (atZero_iterate 0#12 100#12 _ j)⟩
  exact (checked_program_beside_hps .oldData (check_image 0#12 100#12)
    sumReserved mifSoc (show (Event.board .key1Fall).isReset = true from rfl)
    (show edges.length = 2 * 100 from List.length_replicate) hprogram hcovers
    hquiet).1

theorem summation_program_beside_hps_of_mif :
    let soc := step .newData mifSoc .key1Fall
    let edges := fun n => List.replicate (2 * (3 * 100 + 7 + n))
      (Hps.load 4000#12 1#32)
    total 0#32 100#32 = 5050#32 ∧ ∀ n,
      (Clocked.run (step .newData) soc
        ((edges n).map (.clk true))).dataMemory.mem 0#13 =
          total 0#32 100#32 := by
  intro soc edges
  refine ⟨by decide, ?_⟩
  intro n
  have hlength : (edges n).length =
      2 * (3 * ((100#12).signExtend 32 : Word).toNat + 7 + n) :=
    List.length_replicate
  have hquiet : ∀ hps ∈ edges n, hps.resetReq2 = false ∧
      (∀ index, hps.program.writes index = true → 14 ≤ index.toNat) ∧
        hps.data.writes 0#13 = false := by
    intro hps hmem
    obtain rfl := List.eq_of_mem_replicate hmem
    exact ⟨rfl, fun _ => high_of_load, rfl⟩
  exact (summation_program_beside_hps .newData 0#12 100#12 (by decide)
    mifSoc (show (Event.board .key1Fall).isReset = true from rfl) hlength
    (fun _ _ => rfl) hquiet).2.2.2

end Soc
end RiscvLogism
