import RiscvLogism.BoardSemantics

/-!
# Programs the board runs correctly

The delayed load of the board is harmless when the instruction before a load
makes the ALU compute the address of the load: when it is an `ADDI`, an `LW`
or a `SW` with the same base register and the same offset.  A program in which
every load is primed in this way, which uses the operations both copies of the
core have and stays within the memory, runs on the board as RV32I prescribes.
The condition on the program is decided by a pass over its image.
-/

namespace RiscvLogism

/-! ## Indices -/

theorem extractLsb_eq_setWidth (address : Word) :
    address.extractLsb 14 2 = (address >>> 2).setWidth 13 := by
  apply BitVec.eq_of_toNat_eq
  simp [BitVec.extractLsb_toNat]

theorem setWidth_extractLsb {address : Word}
    (hinside : (address >>> 2).toNat < 2 ^ 13) :
    (address.extractLsb 14 2).setWidth 32 = address >>> 2 := by
  rw [extractLsb_eq_setWidth]
  apply BitVec.eq_of_toNat_eq
  rw [BitVec.toNat_setWidth, BitVec.toNat_setWidth, Nat.mod_eq_of_lt hinside]
  omega

theorem setWidth_eq_iff {address : Word}
    (hinside : (address >>> 2).toNat < 2 ^ 13) (index : De1.MemoryIndex) :
    index.setWidth 32 = address >>> 2 ↔
      index = address.extractLsb 14 2 := by
  rw [← setWidth_extractLsb hinside]
  constructor
  · intro hsame
    have hback := congrArg (BitVec.setWidth 13) hsame
    rw [BitVec.setWidth_setWidth_of_le _ (by omega),
      BitVec.setWidth_setWidth_of_le _ (by omega)] at hback
    simpa using hback
  · intro hsame
    rw [hsame]

theorem extractLsb_add {address offset : Word}
    (haligned : offset.toNat % 4 = 0) :
    (address + offset).extractLsb 14 2 =
      address.extractLsb 14 2 + offset.extractLsb 14 2 := by
  apply BitVec.eq_of_toNat_eq
  simp only [BitVec.extractLsb_toNat, BitVec.toNat_add,
    Nat.shiftRight_eq_div_pow]
  omega

/-! ## The address an instruction computes -/

/-- The base register and the offset whose sum the ALU computes. -/
def Isa.Instr.address : Isa.Instr → Option (BitVec 5 × BitVec 12)
  | .addi _ rs1 imm => some (rs1, imm)
  | .lw _ rs1 imm => some (rs1, imm)
  | .sw rs1 _ imm => some (rs1, imm)
  | .op .. | .beq .. | .bne .. | .jal .. => none

/-- The base register and the offset of a data access. -/
def Isa.Instr.access : Isa.Instr → Option (BitVec 5 × BitVec 12)
  | .lw _ rs1 imm => some (rs1, imm)
  | .sw rs1 _ imm => some (rs1, imm)
  | .op .. | .addi .. | .beq .. | .bne .. | .jal .. => none

section Decoded

variable {word : Word} {instr : Isa.Instr}

theorem sampled_of_address (regs : Isa.Regs)
    (hdecode : Isa.decode word = some instr) {base : BitVec 5}
    {offset : BitVec 12} (haddress : instr.address = some (base, offset)) :
    Delayed.sampled regs word =
      (regs.get base + offset.signExtend 32).extractLsb 14 2 := by
  have hinstr := executedInstr_of_decode hdecode
  unfold executedInstr at hinstr
  split_ifs at hinstr with hr hi hl hs hb hbit hj
  all_goals
    obtain rfl := Option.some.inj hinstr
    simp [Isa.Instr.address] at haddress
  · obtain ⟨rfl, rfl⟩ := haddress
    have hop : ControlUnit.opcode word = 0b0010011#7 := hi
    simp [Delayed.sampled, Board.aluResult, hop, ControlUnit.rtype,
      ControlUnit.itype]
  · obtain ⟨rfl, rfl⟩ := haddress
    have hop : ControlUnit.opcode word = 0b0000011#7 := hl
    simp [Delayed.sampled, Board.aluResult, hop, ControlUnit.rtype,
      ControlUnit.itype, ControlUnit.loadType]
  · obtain ⟨rfl, rfl⟩ := haddress
    have hop : ControlUnit.opcode word = 0b0100011#7 := hs
    simp [Delayed.sampled, Board.aluResult, hop, ControlUnit.rtype,
      ControlUnit.itype, ControlUnit.loadType, ControlUnit.stype]

theorem instr_of_commonWord (hcommon : De1.CommonWord word) :
    CoreIsa.instr De1.operation word = executedInstr word := by
  by_cases hop : Isa.opcode word = 0b0110011#7
  · have hfunct3 : De1.CommonFunct3 (Isa.funct3 word) := hcommon hop
    rw [CoreIsa.instr_rtype hop, De1.operation, if_pos hfunct3,
      executedInstr, if_pos hop]
  · exact CoreIsa.instr_of_not_rtype hop

end Decoded

/-! ## One instruction -/

namespace Priming

/-- A later word which is a load finds the address it needs on the data
memory when the earlier word was executed just before it. -/
def primes (earlier later : Word) : Bool :=
  match Isa.decode later with
  | some (.lw _ base offset) =>
      (Isa.decode earlier).bind Isa.Instr.address == some (base, offset)
  | _ => true

/-- The address of a data access of the next instruction lies within the
memory of the board. -/
def Inside (rom : Memory) (state : Isa.State) : Prop :=
  ∀ instr base offset,
    Isa.decode (rom (state.pc >>> 2)) = some instr →
      instr.access = some (base, offset) →
        ((state.regs.get base + offset.signExtend 32) >>> 2).toNat < 2 ^ 13

/-- What the board needs in order to execute one instruction as RV32I
prescribes and to be ready for the next one. -/
structure Covered (rom : Memory) (state : Isa.State) : Prop where
  runnable : Isa.Runnable (rom (state.pc >>> 2))
  common : De1.CommonWord (rom (state.pc >>> 2))
  inside : Inside rom state
  primed : primes (rom (state.pc >>> 2))
    (rom ((Isa.step rom state).pc >>> 2)) = true

/-- An image of the board as a memory with 32-bit word addresses. -/
def unindexed (image : De1.MemoryIndex → Word) : Memory :=
  fun index => image (index.setWidth 13)

/-- The board has the registers and the data of the reference, and if the
next instruction is a load its data memory has sampled the right address. -/
structure Tracks (rom : Memory) (isa : Isa.State)
    (board : Delayed.State) : Prop where
  pc : board.pc = isa.pc
  regs : board.regs = isa.regs
  ram : ∀ index : De1.MemoryIndex,
    board.mem index = isa.ram (index.setWidth 32)
  primed : ∀ rd base offset,
    Isa.decode (rom (isa.pc >>> 2)) = some (.lw rd base offset) →
      Delayed.sampled board.regs board.shown =
        (isa.regs.get base + offset.signExtend 32).extractLsb 14 2

section Step

variable {image : De1.MemoryIndex → Word} {isa : Isa.State}
  {board : Delayed.State}

theorem unindexed_pc (pc : Word) :
    unindexed image (pc >>> 2) = image (pc.extractLsb 14 2) := by
  rw [unindexed, extractLsb_eq_setWidth]

theorem Tracks.exec_instr {rom : Memory} (htracks : Tracks rom isa board)
    (hinside : Inside rom isa) {instr : Isa.Instr}
    (hdecode : Isa.decode (rom (isa.pc >>> 2)) = some instr) :
    (Isa.exec board.seen instr).pc = (Isa.exec isa instr).pc ∧
      (Isa.exec board.seen instr).regs = (Isa.exec isa instr).regs := by
  cases instr with
  | lw rd base offset =>
      have hbound := hinside _ base offset hdecode rfl
      have hloaded : board.loaded =
          isa.ram ((isa.regs.get base + offset.signExtend 32) >>> 2) := by
        rw [Delayed.State.loaded, htracks.primed rd base offset hdecode,
          htracks.ram, setWidth_extractLsb hbound]
      simp [Isa.exec, Delayed.State.seen, htracks.pc, htracks.regs, hloaded]
  | op | addi | sw | beq | bne | jal =>
      simp [Isa.exec, Delayed.State.seen, htracks.pc, htracks.regs]

theorem Tracks.stored {rom : Memory} (htracks : Tracks rom isa board)
    (hinside : Inside rom isa) {instr : Isa.Instr}
    (hdecode : Isa.decode (rom (isa.pc >>> 2)) = some instr)
    (index : De1.MemoryIndex) :
    Delayed.stored board (rom (isa.pc >>> 2)) index =
      (Isa.exec isa instr).ram (index.setWidth 32) := by
  have hstore := CoreIsa.store_of_instr
    ((CoreIsa.instr_funcOp _).trans (executedInstr_of_decode hdecode))
    board.regs
  rw [Delayed.stored, hstore]
  cases instr with
  | sw base rs2 offset =>
      have hbound := hinside _ base offset hdecode rfl
      have hindex := setWidth_eq_iff hbound index
      simp only [Isa.Instr.stored, Isa.exec, Function.update_apply,
        htracks.regs, hindex, htracks.ram]
  | op | addi | lw | beq | bne | jal =>
      simp only [Isa.Instr.stored, Isa.exec]
      exact htracks.ram index

theorem Tracks.step (htracks : Tracks (unindexed image) isa board)
    (hcovered : Covered (unindexed image) isa) :
    Tracks (unindexed image) (Isa.step (unindexed image) isa)
      (Delayed.step image board) := by
  have hword : image (board.pc.extractLsb 14 2) =
      unindexed image (isa.pc >>> 2) := by
    rw [htracks.pc, unindexed_pc]
  have hprimed := hcovered.primed
  rw [Delayed.step, hword]
  cases hdecode : Isa.decode (unindexed image (isa.pc >>> 2)) with
  | none =>
      have hzero : unindexed image (isa.pc >>> 2) = 0#32 := by
        rcases hcovered.runnable with hzero | hsome
        · exact hzero
        · rw [hdecode] at hsome
          contradiction
      have hstep : Isa.step (unindexed image) isa = isa := by
        rw [Isa.step, Isa.execWord, hdecode]
      rw [hstep, hzero, Delayed.exec, CoreIsa.exec_zero]
      refine ⟨htracks.pc, htracks.regs, htracks.ram, ?_⟩
      intro rd base offset hload
      rw [hdecode] at hload
      contradiction
  | some instr =>
      have hlink : instr.isLink = false := by
        rcases hcovered.runnable with hzero | hsome
        · rw [hzero, Isa.decode_zero] at hdecode
          contradiction
        · simpa [hdecode] using hsome
      have hinstr :
          CoreIsa.instr De1.operation (unindexed image (isa.pc >>> 2)) =
            some instr := by
        rw [instr_of_commonWord hcovered.common]
        exact executedInstr_of_decode hdecode
      have hstep : Isa.step (unindexed image) isa = Isa.exec isa instr := by
        rw [Isa.step, Isa.execWord, hdecode]
      obtain ⟨hpc, hregs⟩ := htracks.exec_instr hcovered.inside hdecode
      rw [hstep] at hprimed ⊢
      rw [Delayed.exec, CoreIsa.exec_of_not_link hinstr hlink]
      refine ⟨hpc, hregs, htracks.stored hcovered.inside hdecode, ?_⟩
      intro rd base offset hload
      rw [primes, hload, hdecode] at hprimed
      have haddress : instr.address = some (base, offset) := by
        simpa using hprimed
      rw [← hregs]
      exact sampled_of_address _ hdecode haddress

end Step

theorem Tracks.run {image : De1.MemoryIndex → Word} {isa : Isa.State}
    {board : Delayed.State} (htracks : Tracks (unindexed image) isa board)
    (k : ℕ)
    (hcovered : ∀ j < k, Covered (unindexed image)
      ((Isa.step (unindexed image))^[j] isa)) :
    Tracks (unindexed image) ((Isa.step (unindexed image))^[k] isa)
      ((Delayed.step image)^[k] board) :=
  Clocked.iterate_related
    (fun _ _ hside hrel => Tracks.step hrel hside) htracks k hcovered

theorem tracks_initial {image : De1.MemoryIndex → Word}
    (mem : De1.MemoryIndex → Word) (shown : Word)
    (hfirst : primes 0#32 (image 0#13) = true) :
    Tracks (unindexed image) (Isa.State.initial (unindexed mem))
      (Delayed.State.initial mem shown) := by
  refine ⟨rfl, rfl, ?_, ?_⟩
  · intro index
    change mem index = mem ((index.setWidth 32).setWidth 13)
    rw [BitVec.setWidth_setWidth_of_le _ (by omega)]
    simp
  · intro rd base offset hload
    have hzero : (0#32 : Word).extractLsb 14 2 = 0#13 := by decide
    rw [unindexed_pc] at hload
    change Isa.decode (image ((0#32 : Word).extractLsb 14 2)) = _ at hload
    rw [hzero] at hload
    rw [primes, hload, Isa.decode_zero] at hfirst
    contradiction

/-! ## The pass over an image -/

/-- Only offsets of whole words keep the low bits of the program counter. -/
def offsetAligned : Isa.Instr → Bool
  | .beq _ _ imm | .bne _ _ imm => decide (BitFields.Aligned 2 imm)
  | .jal _ imm => decide (BitFields.Aligned 2 imm)
  | .op .. | .addi .. | .lw .. | .sw .. => true

def wordAt (words : List Word) (index : De1.MemoryIndex) : Word :=
  words.getD index.toNat 0#32

/-- The indices of the words which may be executed after the word at an
index. -/
def nextIndices (index : De1.MemoryIndex) (word : Word) :
    List De1.MemoryIndex :=
  match Isa.decode word with
  | some instr =>
      (instr.successors (index.setWidth 32 <<< 2)).map
        (BitVec.extractLsb 14 2)
  | none => []

instance (word : Word) : Decidable (De1.CommonWord word) :=
  inferInstanceAs (Decidable (_ → _))

def checkWord (word : Word) : Bool :=
  decide (Isa.Runnable word) && decide (De1.CommonWord word) &&
    (Isa.decode word).all offsetAligned

def checkIndex (words : List Word) (index : De1.MemoryIndex) : Bool :=
  checkWord (wordAt words index) &&
    (nextIndices index (wordAt words index)).all fun next =>
      primes (wordAt words index) (wordAt words next)

def check (words : List Word) : Bool :=
  primes 0#32 (wordAt words 0#13) &&
    (List.range words.length).all fun i =>
      checkIndex words (BitVec.ofNat 13 i)

section Check

variable {words : List Word}

theorem wordAt_of_length_le {index : De1.MemoryIndex}
    (hlength : words.length ≤ index.toNat) :
    wordAt words index = 0#32 := by
  rw [wordAt, List.getD_eq_getElem?_getD, List.getElem?_eq_none hlength]
  rfl

theorem checkIndex_of_check (hcheck : check words = true)
    (index : De1.MemoryIndex) : checkIndex words index = true := by
  rw [check, Bool.and_eq_true] at hcheck
  by_cases hlength : index.toNat < words.length
  · have hindex := List.all_eq_true.mp hcheck.2 index.toNat
      (List.mem_range.mpr hlength)
    simpa using hindex
  · have hword : checkWord 0#32 = true := by decide
    rw [checkIndex, wordAt_of_length_le (by omega), hword, nextIndices,
      Isa.decode_zero]
    rfl

theorem extractLsb_wordAddress (index : De1.MemoryIndex) :
    (index.setWidth 32 <<< 2 : Word).extractLsb 14 2 = index := by
  apply BitVec.eq_of_toNat_eq
  simp only [BitVec.extractLsb_toNat, BitVec.toNat_shiftLeft,
    BitVec.toNat_setWidth, Nat.shiftRight_eq_div_pow, Nat.shiftLeft_eq]
  omega

theorem extractLsb_mem_nextIndices {pc next word : Word}
    {instr : Isa.Instr} (hdecode : Isa.decode word = some instr)
    (haligned : offsetAligned instr = true)
    (hnext : next ∈ instr.successors pc) :
    next.extractLsb 14 2 ∈ nextIndices (pc.extractLsb 14 2) word := by
  let base : Word := (pc.extractLsb 14 2).setWidth 32 <<< 2
  have hsame : ∀ offset : Word, BitFields.Aligned 2 offset →
      (pc + offset).extractLsb 14 2 = (base + offset).extractLsb 14 2 := by
    intro offset hoffset
    have hmod : offset.toNat % 4 = 0 := Nat.mod_eq_zero_of_dvd hoffset
    rw [extractLsb_add hmod, extractLsb_add hmod, extractLsb_wordAddress]
  have hfour := hsame 4#32 (by decide)
  rw [nextIndices, hdecode]
  cases instr with
  | op | addi | lw | sw =>
      obtain rfl := List.mem_singleton.mp hnext
      rw [hfour]
      exact List.mem_singleton_self _
  | beq rs1 rs2 imm | bne rs1 rs2 imm =>
      have himm : BitFields.Aligned 2 imm := of_decide_eq_true haligned
      have htaken :=
        hsame _ (himm.signExtend (v := 32) (by omega) (by omega))
      simp only [Isa.Instr.successors, List.mem_cons, List.not_mem_nil,
        or_false] at hnext
      rcases hnext with rfl | rfl
      · rw [htaken]
        exact List.mem_cons_self
      · rw [hfour]
        exact List.mem_cons_of_mem _ List.mem_cons_self
  | jal rd imm =>
      have himm : BitFields.Aligned 2 imm := of_decide_eq_true haligned
      have htaken :=
        hsame _ (himm.signExtend (v := 32) (by omega) (by omega))
      obtain rfl := List.mem_singleton.mp hnext
      rw [htaken]
      exact List.mem_singleton_self _

/-- The pass establishes everything but the bound on the data addresses, for
every state and not only for those the program reaches. -/
theorem covered_of_check (hcheck : check words = true) {isa : Isa.State}
    (hinside : Inside (unindexed (wordAt words)) isa) :
    Covered (unindexed (wordAt words)) isa := by
  have hindex := checkIndex_of_check hcheck (isa.pc.extractLsb 14 2)
  have hword :
      unindexed (wordAt words) (isa.pc >>> 2) =
        wordAt words (isa.pc.extractLsb 14 2) := unindexed_pc isa.pc
  rw [checkIndex, checkWord, ← hword] at hindex
  simp only [Bool.and_eq_true, decide_eq_true_eq] at hindex
  obtain ⟨⟨⟨hrunnable, hcommon⟩, haligned⟩, hpairs⟩ := hindex
  refine ⟨hrunnable, hcommon, hinside, ?_⟩
  cases hdecode : Isa.decode (unindexed (wordAt words) (isa.pc >>> 2)) with
  | none =>
      have hstep : Isa.step (unindexed (wordAt words)) isa = isa := by
        rw [Isa.step, Isa.execWord, hdecode]
      rw [hstep, primes, hdecode]
  | some instr =>
      have hstep : Isa.step (unindexed (wordAt words)) isa =
          Isa.exec isa instr := by
        rw [Isa.step, Isa.execWord, hdecode]
      have halign : offsetAligned instr = true := by
        simpa [hdecode] using haligned
      have hmem := extractLsb_mem_nextIndices hdecode halign
        (Isa.exec_pc_mem_successors isa instr)
      rw [hstep, unindexed_pc (Isa.exec isa instr).pc]
      exact List.all_eq_true.mp hpairs _ hmem

end Check

end Priming

/-! ## Runs of the board -/

namespace Board

open Priming

/-- The board shows the program counter, the registers and the data of the
reference. -/
structure Shows (board : Board) (isa : Isa.State) : Prop where
  pc : board.main.pcAddress = isa.pc
  regs : board.main.regfile.isaRegs = isa.regs
  ram : ∀ index : De1.MemoryIndex,
    board.dataMemory.mem index = isa.ram (index.setWidth 32)

theorem run_tracks_of_covered (mode : ReadDuringWrite) {board : Board}
    (hmain : board.main = Main.afterReset)
    (hfirst : primes 0#32 (board.programMemory.mem 0#13) = true) (k : ℕ) :
    let rom := unindexed board.programMemory.mem
    let isa := fun j : ℕ => (Isa.step rom)^[j]
      (Isa.State.initial (unindexed board.dataMemory.mem))
    (∀ j < k, Covered rom (isa j)) →
      Tracks rom (isa k) (Clocked.run (step mode) board
        (List.replicate (2 * k) (.clk true))).delayed := by
  intro rom isa hcovered
  have hphase : board.main.executeCycle = false := by
    rw [hmain]
    rfl
  have hrun : (Clocked.run (step mode) board
      (List.replicate (2 * k) (.clk true))).delayed = _ :=
    (congrArg delayed (Clocked.run_replicate_two_mul _ _ _ _)).trans
      (delayed_iterate_twoEdges k hphase)
  rw [hrun, delayed_of_afterReset hmain]
  exact (tracks_initial board.dataMemory.mem board.imemData hfirst).run k
    hcovered

theorem run_shows_of_covered (mode : ReadDuringWrite) (before : Board)
    {event : Event} (hreset : event.isReset = true)
    (hfirst : primes 0#32 (before.programMemory.mem 0#13) = true) (k : ℕ) :
    let board := step mode before event
    let rom := unindexed before.programMemory.mem
    let isa := fun j : ℕ => (Isa.step rom)^[j]
      (Isa.State.initial (unindexed board.dataMemory.mem))
    (∀ j < k, Covered rom (isa j)) →
      (Clocked.run (step mode) board
        (List.replicate (2 * k) (.clk true))).Shows (isa k) := by
  intro board rom isa hcovered
  have hrom : board.programMemory.mem = before.programMemory.mem :=
    programMemory_mem_step event
  have hrun := run_tracks_of_covered mode
    (show board.main = Main.afterReset from main_step_isReset hreset)
    (by rw [hrom]; exact hfirst) k
  rw [hrom] at hrun
  have htracks := hrun hcovered
  exact ⟨htracks.pc, htracks.regs, htracks.ram⟩

theorem run_shows_of_check (mode : ReadDuringWrite)
    {words : List Word} (hcheck : check words = true) {before : Board}
    (hprogram : before.programMemory.mem = wordAt words) {event : Event}
    (hreset : event.isReset = true) (k : ℕ) :
    let board := step mode before event
    let rom := unindexed (wordAt words)
    let isa := fun j : ℕ => (Isa.step rom)^[j]
      (Isa.State.initial (unindexed board.dataMemory.mem))
    (∀ j < k, Inside rom (isa j)) →
      (Clocked.run (step mode) board
        (List.replicate (2 * k) (.clk true))).Shows (isa k) := by
  intro board rom isa hinside
  have hfirst : primes 0#32 (before.programMemory.mem 0#13) = true := by
    rw [check, Bool.and_eq_true] at hcheck
    rw [hprogram]
    exact hcheck.1
  have hrun := run_shows_of_covered mode before hreset hfirst k
  rw [hprogram] at hrun
  apply hrun
  intro j hj
  exact covered_of_check hcheck (hinside j hj)

theorem Shows.posedgeClk_fetch (mode : ReadDuringWrite) {board : Board}
    {isa : Isa.State} (hshows : board.Shows isa)
    (hphase : board.main.executeCycle = false) :
    (board.posedgeClk mode true).Shows isa := by
  rw [Board.posedgeClk_fetch hphase]
  exact ⟨hshows.pc, hshows.regs, hshows.ram⟩

/-- A program which passes the check and whose data accesses stay within the
memory runs on the board as RV32I prescribes, after any reset and for any
contents of the data memory: after any number of edges the board shows the
state of the reference after half as many steps. -/
theorem checked_program_refines_isa (mode : ReadDuringWrite)
    {words : List Word} (hcheck : check words = true) {before : Board}
    (hprogram : before.programMemory.mem = wordAt words) {event : Event}
    (hreset : event.isReset = true) (n : ℕ) :
    let board := step mode before event
    let rom := unindexed (wordAt words)
    let isa := fun j : ℕ => (Isa.step rom)^[j]
      (Isa.State.initial (unindexed board.dataMemory.mem))
    (∀ j < n / 2, Inside rom (isa j)) →
      (Clocked.run (step mode) board
        (List.replicate n (.clk true))).Shows (isa (n / 2)) := by
  intro board rom isa hinside
  have heven := run_shows_of_check mode hcheck hprogram hreset (n / 2)
    hinside
  rcases Nat.mod_two_eq_zero_or_one n with hmod | hmod
  · have hn : n = 2 * (n / 2) := by omega
    rw [← hn] at heven
    exact heven
  · have hn : n = 2 * (n / 2) + 1 := by omega
    have hphase : board.main.executeCycle = false := by
      have hmain : board.main = Main.afterReset := main_step_isReset hreset
      rw [hmain]
      rfl
    have hodd := heven.posedgeClk_fetch mode
      (executeCycle_run_even (n / 2) hphase)
    rw [hn, Clocked.run_replicate_succ, ← hn]
    exact hodd

end Board

end RiscvLogism
