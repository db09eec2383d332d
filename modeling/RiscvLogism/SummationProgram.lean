import RiscvLogism.IsaRefinement
import Mathlib.Tactic.Ring

/-!
# The summation program

The image which the test bench of the core and the memory of the board both
hold adds up the integers from `n` down to one in a loop of three
instructions, stores and reloads the sum, adds five to it and halts.  The loop
is analysed in the interpreter and carried to the core by the refinement.
-/

namespace RiscvLogism
namespace Summation

/-! ## The image -/

def words : List Word :=
  [0x00000093#32, 0x00a00113#32, 0x002080b3#32, 0xfff10113#32,
    0xfe011ce3#32, 0x00000193#32, 0x0011a023#32, 0x0001a283#32,
    0x0100006f#32, 0x00000013#32, 0x00000013#32, 0x00000013#32,
    0x00528293#32]

/-- `ROM` of `tb_CPU.cpp`; an entry without initialiser is zero. -/
def tbRom : Memory := fun index => words.getD index.toNat 0#32

/-- The first two words set up the summands and may differ from image to
image. -/
def Holds (rom : Memory) : Prop :=
  ∀ index : Word, 2 ≤ index.toNat → rom index = tbRom index

/-- The program counters from the head of the loop to the halting word. -/
def addresses : List Word :=
  [0x8#32, 0xc#32, 0x10#32, 0x14#32, 0x18#32, 0x1c#32, 0x20#32, 0x30#32,
    0x34#32]

section Image

variable {rom : Memory}

theorem of_mem_addresses {P : Word → Prop} [DecidablePred P]
    (hall : (addresses.all fun pc => decide (P pc)) = true) {pc : Word}
    (hpc : pc ∈ addresses) : P pc :=
  of_decide_eq_true (List.all_eq_true.mp hall pc hpc)

theorem Holds.word (hrom : Holds rom) {pc : Word} (hpc : pc ∈ addresses) :
    rom (pc >>> 2) = tbRom (pc >>> 2) := by
  apply hrom
  exact of_mem_addresses (P := fun pc => 2 ≤ (pc >>> 2).toNat)
    (by decide) hpc

theorem Holds.runnable (hrom : Holds rom) {pc : Word}
    (hpc : pc ∈ addresses) : Isa.Runnable (rom (pc >>> 2)) := by
  rw [hrom.word hpc]
  exact of_mem_addresses (P := fun pc => Isa.Runnable (tbRom (pc >>> 2)))
    (by decide) hpc

theorem Holds.step (hrom : Holds rom) {state : Isa.State} (pc : Word)
    (hstate : state.pc = pc) (hpc : pc ∈ addresses) {instr : Isa.Instr}
    (hinstr : Isa.decode (tbRom (pc >>> 2)) = some instr) :
    Isa.step rom state = Isa.exec state instr := by
  rw [Isa.step, hstate, hrom.word hpc, Isa.execWord, hinstr]

theorem Holds.step_halted (hrom : Holds rom) {state : Isa.State}
    (hpc : state.pc = 0x34#32) : Isa.step rom state = state := by
  have hmem : (0x34#32 : Word) ∈ addresses := by decide
  have hdecode : Isa.decode (tbRom (0x34#32 >>> 2)) = none := by decide
  rw [Isa.step, hpc, hrom.word hmem, Isa.execWord, hdecode]

end Image

/-! ## The loop -/

/-- `x1` and `x2` hold the running sum and the next summand. -/
def looping (regs : Isa.Regs) (ram : Memory) (pc sum summand : Word) :
    Isa.State where
  pc := pc
  regs := (regs.set 1#5 sum).set 2#5 summand
  ram := ram

section Loop

variable {rom : Memory} (regs : Isa.Regs) (ram : Memory)
  (sum summand : Word)

theorem step_add (hrom : Holds rom) :
    Isa.step rom (looping regs ram 0x8#32 sum summand) =
      looping regs ram 0xc#32 (sum + summand) summand := by
  have hinstr :
      Isa.decode (tbRom (0x8#32 >>> 2)) =
        some (.op .add 1#5 1#5 2#5) := by decide
  rw [hrom.step 0x8#32 rfl (by decide) hinstr]
  simp [looping, Isa.exec, AluOp.denote, Isa.Regs.set_comm]

theorem step_decrement (hrom : Holds rom) :
    Isa.step rom (looping regs ram 0xc#32 sum summand) =
      looping regs ram 0x10#32 sum (summand - 1#32) := by
  have hinstr :
      Isa.decode (tbRom (0xc#32 >>> 2)) =
        some (.addi 2#5 2#5 0xfff#12) := by decide
  have hminus : summand + (0xfff#12).signExtend 32 = summand - 1#32 :=
    (BitVec.sub_eq_add_neg summand 1#32).symm
  rw [hrom.step 0xc#32 rfl (by decide) hinstr]
  simp only [looping, Isa.exec]
  rw [Isa.Regs.get_set_self _ (by decide), hminus, Isa.Regs.set_set]
  rfl

theorem step_branch (hrom : Holds rom) :
    Isa.step rom (looping regs ram 0x10#32 sum summand) =
      looping regs ram (if summand = 0#32 then 0x14#32 else 0x8#32) sum
        summand := by
  have hinstr :
      Isa.decode (tbRom (0x10#32 >>> 2)) =
        some (.bne 2#5 0#5 0x1ff8#13) := by decide
  have hread :
      (looping regs ram 0x10#32 sum summand).regs.get 2#5 = summand :=
    Isa.Regs.get_set_self _ (by decide) summand
  have hback : 0x10#32 + (0x1ff8#13).signExtend 32 = 0x8#32 := by decide
  rw [hrom.step 0x10#32 rfl (by decide) hinstr]
  simp only [Isa.exec, hread, Isa.Regs.get_zero]
  by_cases hdone : summand = 0#32
  · rw [if_neg (not_not_intro hdone), if_pos hdone]
    rfl
  · rw [if_pos hdone, if_neg hdone]
    simp only [looping, hback]

theorem iterate_three (hrom : Holds rom) :
    (Isa.step rom)^[3] (looping regs ram 0x8#32 sum summand) =
      looping regs ram (if summand - 1#32 = 0#32 then 0x14#32 else 0x8#32)
        (sum + summand) (summand - 1#32) := by
  simp only [Function.iterate_succ_apply, Function.iterate_zero_apply]
  rw [step_add regs ram sum summand hrom,
    step_decrement regs ram (sum + summand) summand hrom,
    step_branch regs ram (sum + summand) (summand - 1#32) hrom]

end Loop

/-- `sum + (1 + 2 + ⋯ + count)` modulo `2 ^ 32`. -/
def total (sum summand : Word) : Word :=
  BitVec.ofNat 32
    (sum.toNat + summand.toNat * (summand.toNat + 1) / 2)

theorem triangle_succ (m : ℕ) :
    (m + 1) * (m + 1 + 1) / 2 = (m + 1) + m * (m + 1) / 2 := by
  have hsplit : (m + 1) * (m + 1 + 1) = m * (m + 1) + 2 * (m + 1) := by
    ring
  rw [hsplit, Nat.add_mul_div_left _ _ (by omega), Nat.add_comm]

theorem toNat_sub_one {summand : Word} {m : ℕ}
    (hcount : summand.toNat = m + 1) : (summand - 1#32).toNat = m := by
  have hlt := summand.isLt
  rw [BitVec.toNat_sub]
  change (2 ^ 32 - 1 + summand.toNat) % 2 ^ 32 = m
  omega

theorem total_step {summand : Word} {m : ℕ}
    (hcount : summand.toNat = m + 1) (sum : Word) :
    total (sum + summand) (summand - 1#32) = total sum summand := by
  have hsplit := triangle_succ m
  apply BitVec.eq_of_toNat_eq
  simp only [total, BitVec.toNat_ofNat]
  rw [toNat_sub_one hcount, hcount, hsplit, BitVec.toNat_add, hcount,
    Nat.mod_add_mod, Nat.add_assoc]

theorem iterate_loop {rom : Memory} (hrom : Holds rom) (regs : Isa.Regs)
    (ram : Memory) (m : ℕ) (sum summand : Word)
    (hcount : summand.toNat = m + 1) :
    (Isa.step rom)^[3 * (m + 1)] (looping regs ram 0x8#32 sum summand) =
      looping regs ram 0x14#32 (total sum summand) 0#32 := by
  induction m generalizing sum summand with
  | zero =>
      have hone : summand = 1#32 := BitVec.eq_of_toNat_eq hcount
      subst hone
      rw [iterate_three regs ram sum 1#32 hrom]
      rfl
  | succ m ih =>
      have hcount' : (summand - 1#32).toNat = m + 1 :=
        toNat_sub_one hcount
      have hmore : summand - 1#32 ≠ 0#32 := by
        intro hzero
        rw [hzero] at hcount'
        exact absurd hcount' (by simp)
      rw [show 3 * (m + 1 + 1) = 3 * (m + 1) + 3 by omega,
        Function.iterate_add_apply, iterate_three regs ram sum summand hrom,
        if_neg hmore, ih _ _ hcount', total_step hcount]

/-! ## After the loop -/

section Tail

variable {rom : Memory} (regs : Isa.Regs) (ram : Memory)

theorem step_clear (hrom : Holds rom) :
    Isa.step rom { pc := 0x14#32, regs := regs, ram := ram } =
      { pc := 0x18#32, regs := regs.set 3#5 0#32, ram := ram } := by
  have hinstr :
      Isa.decode (tbRom (0x14#32 >>> 2)) = some (.addi 3#5 0#5 0#12) := by
    decide
  rw [hrom.step 0x14#32 rfl (by decide) hinstr]
  simp [Isa.exec, Isa.Regs.get_zero]

theorem step_store (hrom : Holds rom) :
    Isa.step rom
        { pc := 0x18#32, regs := regs.set 3#5 0#32, ram := ram } =
      { pc := 0x1c#32, regs := regs.set 3#5 0#32,
        ram := Function.update ram 0#32 (regs.get 1#5) } := by
  have hinstr :
      Isa.decode (tbRom (0x18#32 >>> 2)) = some (.sw 3#5 1#5 0#12) := by
    decide
  rw [hrom.step 0x18#32 rfl (by decide) hinstr]
  simp [Isa.exec]

theorem step_load (hrom : Holds rom) :
    Isa.step rom
        { pc := 0x1c#32, regs := regs.set 3#5 0#32, ram := ram } =
      { pc := 0x20#32, regs := (regs.set 3#5 0#32).set 5#5 (ram 0#32),
        ram := ram } := by
  have hinstr :
      Isa.decode (tbRom (0x1c#32 >>> 2)) = some (.lw 5#5 3#5 0#12) := by
    decide
  rw [hrom.step 0x1c#32 rfl (by decide) hinstr]
  simp [Isa.exec]

theorem step_jump (hrom : Holds rom) :
    Isa.step rom { pc := 0x20#32, regs := regs, ram := ram } =
      { pc := 0x30#32, regs := regs, ram := ram } := by
  have hinstr :
      Isa.decode (tbRom (0x20#32 >>> 2)) = some (.jal 0#5 16#21) := by
    decide
  rw [hrom.step 0x20#32 rfl (by decide) hinstr]
  simp [Isa.exec]

theorem step_addFive (hrom : Holds rom) :
    Isa.step rom { pc := 0x30#32, regs := regs, ram := ram } =
      { pc := 0x34#32, regs := regs.set 5#5 (regs.get 5#5 + 5#32),
        ram := ram } := by
  have hinstr :
      Isa.decode (tbRom (0x30#32 >>> 2)) = some (.addi 5#5 5#5 5#12) := by
    decide
  rw [hrom.step 0x30#32 rfl (by decide) hinstr]
  simp [Isa.exec]

theorem iterate_tail (hrom : Holds rom) :
    (Isa.step rom)^[5] { pc := 0x14#32, regs := regs, ram := ram } =
      { pc := 0x34#32,
        regs := (regs.set 3#5 0#32).set 5#5 (regs.get 1#5 + 5#32),
        ram := Function.update ram 0#32 (regs.get 1#5) } := by
  simp only [Function.iterate_succ_apply, Function.iterate_zero_apply]
  rw [step_clear regs ram hrom, step_store regs ram hrom,
    step_load regs _ hrom, step_jump _ _ hrom, step_addFive _ _ hrom]
  simp

end Tail

section Program

variable {rom : Memory} (regs : Isa.Regs) (ram : Memory) (sum : Word)
  {summand : Word}

theorem iterate_until_exit (hrom : Holds rom) (hpos : summand ≠ 0#32) :
    (Isa.step rom)^[3 * summand.toNat]
        (looping regs ram 0x8#32 sum summand) =
      looping regs ram 0x14#32 (total sum summand) 0#32 := by
  obtain ⟨m, hm⟩ : ∃ m, summand.toNat = m + 1 := by
    apply Nat.exists_eq_succ_of_ne_zero
    intro hzero
    exact hpos (BitVec.eq_of_toNat_eq hzero)
  rw [hm]
  exact iterate_loop hrom regs ram m sum summand hm

theorem iterate_until_halt (hrom : Holds rom) (hpos : summand ≠ 0#32) :
    (Isa.step rom)^[3 * summand.toNat + 5]
        (looping regs ram 0x8#32 sum summand) =
      { pc := 0x34#32,
        regs := (((regs.set 1#5 (total sum summand)).set 2#5 0#32).set 3#5
          0#32).set 5#5 (total sum summand + 5#32),
        ram := Function.update ram 0#32 (total sum summand) } := by
  have hsum :
      ((regs.set 1#5 (total sum summand)).set 2#5 0#32).get 1#5 =
        total sum summand := by
    simp
  have htail := iterate_tail
    ((regs.set 1#5 (total sum summand)).set 2#5 0#32) ram hrom
  rw [hsum] at htail
  rw [Nat.add_comm, Function.iterate_add_apply,
    iterate_until_exit regs ram sum hrom hpos]
  exact htail

end Program

/-! ## On the core -/

theorem Holds.step_pc_mem {rom : Memory} (hrom : Holds rom)
    {state : Isa.State} (hpc : state.pc ∈ addresses) :
    (Isa.step rom state).pc ∈ addresses := by
  have hclosed :
      (((Isa.decode (tbRom (state.pc >>> 2))).elim []
        (Isa.Instr.successors state.pc)).all (· ∈ addresses)) = true :=
    of_mem_addresses (P := fun pc =>
      (((Isa.decode (tbRom (pc >>> 2))).elim []
        (Isa.Instr.successors pc)).all (· ∈ addresses)) = true)
      (by decide) hpc
  rw [Isa.step, hrom.word hpc, Isa.execWord]
  cases hdecode : Isa.decode (tbRom (state.pc >>> 2)) with
  | none => exact hpc
  | some instr =>
      rw [hdecode] at hclosed
      have hnext := List.all_eq_true.mp hclosed _
        (Isa.exec_pc_mem_successors state instr)
      exact of_decide_eq_true hnext

section Core

variable {read : RomRead} {rom : Memory} {system : System}

theorem isaState_iterate_twoCycles (hrom : Holds rom) (k : ℕ)
    (hphase : system.main.executeCycle = false)
    (hpc : system.main.pcAddress ∈ addresses) :
    ((System.twoCycles rtl read rom)^[k] system).isaState =
      (Isa.step rom)^[k] system.isaState := by
  have hstep : ∀ system : System,
      system.main.executeCycle = false ∧
          system.isaState.pc ∈ addresses →
        (system.twoCycles rtl read rom).isaState =
          Isa.step rom system.isaState := by
    rintro system ⟨hfetch, hmem⟩
    exact System.isaState_twoCycles_of_runnable hfetch (hrom.runnable hmem)
  apply Clocked.iterate_commutes
    (fun system : System =>
      system.main.executeCycle = false ∧ system.isaState.pc ∈ addresses)
    (fun system : System => system.isaState) _ hstep k ⟨hphase, hpc⟩
  rintro system ⟨hfetch, hmem⟩
  refine ⟨System.twoCycles_executeCycle hfetch, ?_⟩
  rw [hstep system ⟨hfetch, hmem⟩]
  exact hrom.step_pc_mem hmem

/-- The state after `k` enabled edges from a fetch phase: an odd edge only
fetches. -/
theorem isaState_run (hrom : Holds rom) (k : ℕ)
    (hphase : system.main.executeCycle = false)
    (hpc : system.main.pcAddress ∈ addresses) :
    (Clocked.run (System.step rtl read rom) system
        (List.replicate k (.clk false true))).isaState =
      (Isa.step rom)^[k / 2] system.isaState := by
  have heven :
      Clocked.run (System.step rtl read rom) system
          (List.replicate (2 * (k / 2)) (.clk false true)) =
        (System.twoCycles rtl read rom)^[k / 2] system :=
    Clocked.run_replicate_two_mul _ _ _ _
  have hstate :
      ((System.twoCycles rtl read rom)^[k / 2] system).isaState =
        (Isa.step rom)^[k / 2] system.isaState :=
    isaState_iterate_twoCycles hrom (k / 2) hphase hpc
  rcases Nat.mod_two_eq_zero_or_one k with hmod | hmod
  · have hk : k = 2 * (k / 2) := by omega
    rw [hk, Nat.mul_div_cancel_left _ (by omega), heven, hstate]
  · have hk : k = 2 * (k / 2) + 1 := by omega
    have hdiv : (2 * (k / 2) + 1) / 2 = k / 2 := by omega
    have hfetch :
        ((System.twoCycles rtl read rom)^[k / 2]
          system).main.executeCycle = false :=
      System.iterate_twoCycles_executeCycle (k / 2) hphase
    rw [hk, hdiv, Clocked.run_replicate_succ, heven, ← hstate]
    exact System.isaState_posedgeClk_fetch hfetch true

end Core

/-- The summation program on the core, from the head of the loop with `x1`
and `x2` arbitrary and `x2` not zero: the loop takes three instructions for
each summand, the tail five, and then nothing changes. -/
theorem summation_program_correct (read : RomRead) {rom : Memory}
    (hrom : Holds rom) {system : System}
    (hphase : system.main.executeCycle = false)
    (hpc : system.main.pcAddress = 0x8#32)
    (hcount : system.main.regfile.readRegOut 2#5 ≠ 0#32) :
    let regs := system.main.regfile.isaRegs
    let n := regs.get 2#5
    let sum := total (regs.get 1#5) n
    let after := fun k => Clocked.run (System.step rtl read rom) system
      (List.replicate k (.clk false true))
    (after (6 * n.toNat)).isaState =
        { pc := 0x14#32, regs := (regs.set 1#5 sum).set 2#5 0#32,
          ram := system.ram } ∧
      (after (6 * n.toNat + 10)).isaState =
        { pc := 0x34#32,
          regs := (((regs.set 1#5 sum).set 2#5 0#32).set 3#5 0#32).set 5#5
            (sum + 5#32),
          ram := Function.update system.ram 0#32 sum } ∧
      ∀ k, (after (6 * n.toNat + 10 + k)).isaState =
        (after (6 * n.toNat + 10)).isaState := by
  intro regs n sum after
  have hmem : system.main.pcAddress ∈ addresses := by
    rw [hpc]
    decide
  have hpos : n ≠ 0#32 := hcount
  have hstart :
      system.isaState =
        looping regs system.ram 0x8#32 (regs.get 1#5) n := by
    apply Isa.State.ext
    · exact hpc
    · change regs = (regs.set 1#5 (regs.get 1#5)).set 2#5 (regs.get 2#5)
      rw [Isa.Regs.set_get, Isa.Regs.set_get]
    · rfl
  have hafter : ∀ k, (after k).isaState =
      (Isa.step rom)^[k / 2] system.isaState := by
    intro k
    exact isaState_run hrom k hphase hmem
  have hfinish : (after (6 * n.toNat + 10)).isaState =
      { pc := 0x34#32,
        regs := (((regs.set 1#5 sum).set 2#5 0#32).set 3#5 0#32).set 5#5
          (sum + 5#32),
        ram := Function.update system.ram 0#32 sum } := by
    have hsteps : (6 * n.toNat + 10) / 2 = 3 * n.toNat + 5 := by omega
    rw [hafter, hsteps, hstart]
    exact iterate_until_halt regs system.ram _ hrom hpos
  refine ⟨?_, hfinish, ?_⟩
  · have hsteps : 6 * n.toNat / 2 = 3 * n.toNat := by omega
    rw [hafter, hsteps, hstart]
    exact iterate_until_exit regs system.ram _ hrom hpos
  · intro k
    have hsteps :
        (6 * n.toNat + 10 + k) / 2 =
          k / 2 + (6 * n.toNat + 10) / 2 := by omega
    rw [hafter, hsteps, Function.iterate_add_apply, ← hafter]
    apply Function.iterate_fixed
    apply hrom.step_halted
    rw [hfinish]

/-- `1 + 2 + 3`, with the image of the test bench. -/
theorem summation_program_correct_of_three :
    let system : System :=
      { main :=
          { pc := { addr := 0x8#32 }
            regfile :=
              { regs := fun index => if index = 2#5 then 3#32 else 0#32 }
            executeCycle := false }
        ram := fun _ => 0#32
        romOut := 0#32 }
    let after := fun k =>
      Clocked.run (System.step rtl .combinational tbRom) system
        (List.replicate k (.clk false true))
    (after 18).main.pcAddress = 0x14#32 ∧
      (after 18).main.regfile.readRegOut 1#5 = 6#32 ∧
      (after 28).ram 0#32 = 6#32 ∧
      ∀ k, (after (28 + k)).main.pcAddress = 0x34#32 := by
  intro system after
  have hrom : Holds tbRom := fun _ _ => rfl
  obtain ⟨hloop, htail, hrest⟩ :=
    summation_program_correct .combinational hrom
      (show system.main.executeCycle = false from rfl)
      (show system.main.pcAddress = 0x8#32 from rfl)
      (show system.main.regfile.readRegOut 2#5 ≠ 0#32 by decide)
  have hsum :
      total (system.main.regfile.isaRegs.get 1#5)
        (system.main.regfile.isaRegs.get 2#5) = 6#32 := by
    change total 0#32 3#32 = 6#32
    decide
  refine ⟨congrArg Isa.State.pc hloop, ?_, ?_, ?_⟩
  · have hregs := congrArg (fun state => state.regs.get 1#5) hloop
    exact hregs.trans hsum
  · have hram := congrArg (fun state => state.ram 0#32) htail
    exact hram.trans hsum
  · intro k
    exact (congrArg Isa.State.pc (hrest k)).trans
      (congrArg Isa.State.pc htail)

end Summation
end RiscvLogism
