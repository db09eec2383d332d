import RiscvLogism.BoardProgram
import RiscvLogism.LogisimRuns
import RiscvLogism.PcWindow

/-!
# The summation program in the drawing

The drawn ROM holds `sum1_10`.  It is the program of the board up to the base
register of its load.  The drawing does not stop at the zero words behind it
but runs through all of them, and then through the program again, because the
ROM repeats in the address space; each pass stores the same sum.
-/

namespace RiscvLogism
namespace Logisim

open Summation

/-! ## The image -/

/-- The image which puts `start` into `x1` and `count` into `x2`. -/
def sumImage (start count : BitVec 12) : List Word :=
  [loadImmediate 1#5 start, loadImmediate 2#5 count, 0x002080b3#32,
    0xfff10113#32, 0xfe011ce3#32, 0x00000193#32, 0x0011a023#32,
    0x00012283#32, 0x0100006f#32, 0x00000013#32, 0x00000013#32,
    0x00000013#32, 0x00528293#32]

/-- The immediates in the file. -/
example : (sumImage 0#12 10#12).take 2 = [0x00000093#32, 0x00a00113#32] := by
  decide

def sumRom (start count : BitVec 12) : Rom :=
  fun index => (sumImage start count).getD index.toNat 0#32

theorem commonWord_loadImmediate (rd : BitVec 5) (imm : BitVec 12) :
    De1.CommonWord (loadImmediate rd imm) := by
  intro hop
  have hopcode : RiscvLogism.ControlUnit.opcode (loadImmediate rd imm) =
      0b0010011#7 := Isa.opcode_layout _ _ _ _ _ _
  rw [hopcode] at hop
  contradiction

theorem driven_sumRom (start count : BitVec 12) (index : BitVec 8) :
    Driven (sumRom start count index) := by
  have hrest : ∀ word ∈ (sumImage start count).drop 2, Driven word := by
    have hclosed :
        (((sumImage start count).drop 2).all
          fun word => decide (Driven word)) = true := by
      change (List.all [_, _, _, _, _, _, _, _, _, _, _] _) = true
      decide
    intro word hword
    exact of_decide_eq_true (List.all_eq_true.mp hclosed word hword)
  have hall : ∀ word ∈ sumImage start count, Driven word := by
    intro word hword
    rcases List.mem_cons.mp hword with rfl | hword
    · exact Single.driven_of_common (commonWord_loadImmediate _ _)
    · rcases List.mem_cons.mp hword with rfl | hword
      · exact Single.driven_of_common (commonWord_loadImmediate _ _)
      · exact hrest word hword
  rw [sumRom, List.getD_eq_getElem?_getD]
  cases hget : (sumImage start count)[index.toNat]? with
  | some word => exact hall word (List.mem_of_getElem? hget)
  | none =>
      change Driven 0#32
      decide

namespace Single

/-! ## One instruction -/

/-- The drawing and the interpreter have the same program counter and the
same registers. -/
structure Beside (isa : Isa.State) (ram : BitVec 8 → Word) (shown : Word)
    (single : State) : Prop where
  pc : single.pc = isa.pc
  regs : single.regs = isa.regs
  ram : single.ram = ram
  shown : single.shown = shown

section Step

variable (undriven : Undriven) (read : RamRead) {rom : Rom}
  {single : State} {word : Word} {instr : Isa.Instr}

theorem instr_of_decode (hcommon : De1.CommonWord word)
    (hdecode : Isa.decode word = some instr) :
    CoreIsa.instr operation word = some instr := by
  rw [instr_of_common hcommon, CoreIsa.instr_funcOp]
  exact executedInstr_of_decode hdecode

theorem step_of_decode
    (hword : rom ((single.pc >>> 2).extractLsb 7 0) = word)
    (hcommon : De1.CommonWord word)
    (hdecode : Isa.decode word = some instr)
    (hlink : instr.isLink = false) :
    let next := Isa.exec (seen undriven read single word) instr
    (step undriven read rom single).pc = next.pc ∧
      (step undriven read rom single).regs = next.regs := by
  intro next
  have hne : word ≠ 0#32 := by
    intro hzero
    rw [hzero, Isa.decode_zero] at hdecode
    contradiction
  have hinstr := instr_of_decode hcommon hdecode
  rw [step, hword]
  unfold exec
  dsimp only
  rw [if_neg hne, CoreIsa.exec_of_not_link hinstr hlink]
  exact ⟨rfl, rfl⟩

theorem ram_step_of_decode
    (hword : rom ((single.pc >>> 2).extractLsb 7 0) = word)
    (hcommon : De1.CommonWord word)
    (hdecode : Isa.decode word = some instr) :
    (step undriven read rom single).ram =
      match instr.stored single.regs with
      | some (address, data) =>
          Function.update single.ram (address.extractLsb 7 0) data
      | none => single.ram := by
  have hinstr := instr_of_decode hcommon hdecode
  have hram : (step undriven read rom single).ram = stored single word := by
    rw [step, hword]
    rfl
  rw [hram, ← CoreIsa.store_of_instr hinstr]
  rfl

theorem exec_of_access_none (haccess : instr.access = none)
    {state state' : Isa.State} (hpc : state.pc = state'.pc)
    (hregs : state.regs = state'.regs) :
    (Isa.exec state instr).pc = (Isa.exec state' instr).pc ∧
      (Isa.exec state instr).regs = (Isa.exec state' instr).regs := by
  cases instr with
  | lw => contradiction
  | sw => contradiction
  | op => simp only [Isa.exec, hpc, hregs, and_self]
  | addi => simp only [Isa.exec, hpc, hregs, and_self]
  | beq => simp only [Isa.exec, hpc, hregs, and_self]
  | bne => simp only [Isa.exec, hpc, hregs, and_self]
  | jal => simp only [Isa.exec, hpc, hregs, and_self]

theorem stored_of_access_none (haccess : instr.access = none)
    (regs : Isa.Regs) : instr.stored regs = none := by
  cases instr with
  | sw => contradiction
  | _ => rfl

theorem not_load_of_access_none (hdecode : Isa.decode word = some instr)
    (haccess : instr.access = none) : Isa.opcode word ≠ 0b0000011#7 := by
  intro hop
  have hinstr := executedInstr_of_decode hdecode
  rw [executedInstr, if_neg (by rw [hop]; decide),
    if_neg (by rw [hop]; decide), if_pos hop] at hinstr
  obtain rfl := Option.some.inj hinstr
  contradiction

theorem shown_step
    (hword : rom ((single.pc >>> 2).extractLsb 7 0) = word) :
    (step undriven read rom single).shown =
      sampled undriven read single word := by
  rw [step, hword]
  rfl

theorem shown_step_of_not_load
    (hword : rom ((single.pc >>> 2).extractLsb 7 0) = word)
    (hop : Isa.opcode word ≠ 0b0000011#7) :
    (step undriven read rom single).shown = single.shown := by
  rw [shown_step undriven read hword]
  exact if_neg hop

/-- An instruction which uses no RAM. -/
theorem Beside.step {isa : Isa.State} {ram : BitVec 8 → Word} {shown : Word}
    (hbeside : Beside isa ram shown single)
    (hword : rom ((single.pc >>> 2).extractLsb 7 0) = word)
    (hcommon : De1.CommonWord word)
    (hdecode : Isa.decode word = some instr)
    (hlink : instr.isLink = false) (haccess : instr.access = none) :
    Beside (Isa.exec isa instr) ram shown
      (Single.step undriven read rom single) := by
  obtain ⟨hpc, hregs⟩ :=
    step_of_decode undriven read hword hcommon
      hdecode hlink
  have hsame := exec_of_access_none haccess
    (show (seen undriven read single word).pc = isa.pc from hbeside.pc)
    hbeside.regs
  constructor
  · exact hpc.trans hsame.1
  · exact hregs.trans hsame.2
  · rw [ram_step_of_decode undriven read hword hcommon hdecode,
      stored_of_access_none haccess]
    exact hbeside.ram
  · have hop := not_load_of_access_none hdecode haccess
    exact (shown_step_of_not_load undriven read hword hop).trans
      hbeside.shown

theorem step_zero
    (hword : rom ((single.pc >>> 2).extractLsb 7 0) = 0#32) :
    (step undriven read rom single).pc = single.pc + 4#32 ∧
      (step undriven read rom single).regs = single.regs ∧
      (step undriven read rom single).ram = single.ram ∧
      (step undriven read rom single).shown = single.shown := by
  rw [step, hword]
  exact ⟨rfl, rfl, rfl, rfl⟩

end Step

/-! ## The loop -/

/-- The program counters of the words which are those of the board and use no
RAM. -/
def quiet : List Word :=
  [0x8#32, 0xc#32, 0x10#32, 0x14#32, 0x20#32, 0x30#32]

section Loop

variable (undriven : Undriven) (read : RamRead) (start count : BitVec 12)
  {ram : BitVec 8 → Word} {shown : Word} {single : State}

theorem Beside.step_quiet {isa : Isa.State}
    (hbeside : Beside isa ram shown single)
    (hpc : isa.pc ∈ quiet) :
    Beside (Isa.step tbRom isa) ram shown
      (Single.step undriven read (sumRom start count) single) := by
  have hword : sumRom start count ((single.pc >>> 2).extractLsb 7 0) =
      tbRom (isa.pc >>> 2) := by
    rw [hbeside.pc]
    generalize isa.pc = pc at hpc
    simp only [quiet, List.mem_cons, List.not_mem_nil, or_false] at hpc
    rcases hpc with rfl | rfl | rfl | rfl | rfl | rfl <;> rfl
  have hclosed : (quiet.all fun pc =>
      decide (De1.CommonWord (tbRom (pc >>> 2))) &&
        (Isa.decode (tbRom (pc >>> 2))).any fun instr =>
          !instr.isLink && instr.access.isNone) = true := by
    decide
  have hat := List.all_eq_true.mp hclosed isa.pc hpc
  rw [Bool.and_eq_true, Option.any_eq_true_iff_get] at hat
  obtain ⟨hcommon, hsome, hinstr⟩ := hat
  rw [Bool.and_eq_true, Bool.not_eq_true', Option.isNone_iff_eq_none]
    at hinstr
  have hdecode : Isa.decode (tbRom (isa.pc >>> 2)) =
      some ((Isa.decode (tbRom (isa.pc >>> 2))).get hsome) :=
    (Option.some_get hsome).symm
  rw [Isa.step, Isa.execWord, hdecode]
  exact hbeside.step undriven read hword (of_decide_eq_true hcommon)
    hdecode hinstr.1 hinstr.2

variable {regs : Isa.Regs} {data : Memory}

/-- An instruction of the setup. -/
theorem Beside.step_loadImmediate {pc : Word}
    (hbeside : Beside ⟨pc, regs, data⟩ ram shown single) {rd : BitVec 5}
    {imm : BitVec 12}
    (hword : sumRom start count ((pc >>> 2).extractLsb 7 0) =
      loadImmediate rd imm) :
    Beside ⟨pc + 4#32, regs.set rd (imm.signExtend 32), data⟩ ram shown
      (Single.step undriven read (sumRom start count) single) := by
  have hsingle : sumRom start count ((single.pc >>> 2).extractLsb 7 0) =
      loadImmediate rd imm := by
    rw [hbeside.pc]
    exact hword
  have hexec : Isa.exec ⟨pc, regs, data⟩ (.addi rd 0#5 imm) =
      ⟨pc + 4#32, regs.set rd (imm.signExtend 32), data⟩ := by
    simp [Isa.exec, Isa.Regs.get_zero]
  rw [← hexec]
  exact hbeside.step undriven read hsingle (commonWord_loadImmediate _ _)
    (decode_loadImmediate _ _) rfl rfl

theorem Beside.setup
    (hbeside : Beside ⟨0#32, regs, data⟩ ram shown single) :
    Beside
      (looping regs data 0x8#32 (start.signExtend 32)
        (count.signExtend 32))
      ram shown
      ((Single.step undriven read (sumRom start count))^[2] single) := by
  have hstart : sumRom start count ((0#32 >>> 2 : Word).extractLsb 7 0) =
      loadImmediate 1#5 start := rfl
  have hcount : sumRom start count ((4#32 >>> 2 : Word).extractLsb 7 0) =
      loadImmediate 2#5 count := rfl
  exact (hbeside.step_loadImmediate undriven read start count
    hstart).step_loadImmediate undriven read start count hcount

theorem Beside.steps_quiet {isa : Isa.State}
    (hbeside : Beside isa ram shown single) (k : ℕ)
    (hpc : ∀ j < k, ((Isa.step tbRom)^[j] isa).pc ∈ quiet) :
    Beside ((Isa.step tbRom)^[k] isa) ram shown
      ((Single.step undriven read (sumRom start count))^[k] single) := by
  have hstep : ∀ (isa : Isa.State) (single : State), isa.pc ∈ quiet →
      Beside isa ram shown single →
        Beside (Isa.step tbRom isa) ram shown
          (Single.step undriven read (sumRom start count) single) :=
    fun _ _ hquiet hrel => hrel.step_quiet undriven read start count hquiet
  exact Clocked.iterate_related hstep hbeside k hpc

theorem Beside.three {sum summand : Word}
    (hbeside : Beside (looping regs data 0x8#32 sum summand) ram shown
      single) :
    Beside
      (looping regs data (if summand - 1#32 = 0#32 then 0x14#32 else 0x8#32)
        (sum + summand) (summand - 1#32))
      ram shown
      ((Single.step undriven read (sumRom start count))^[3] single) := by
  rw [← iterate_three regs data sum summand holds_tbRom]
  apply hbeside.steps_quiet undriven read start count
  intro j hj
  have hcases : j = 0 ∨ j = 1 ∨ j = 2 := by omega
  have hadd := step_add regs data sum summand holds_tbRom
  rcases hcases with rfl | rfl | rfl
  · exact List.mem_cons_self
  · rw [Function.iterate_one, hadd]
    exact List.mem_cons_of_mem _ List.mem_cons_self
  · rw [Function.iterate_succ_apply, Function.iterate_one, hadd,
      step_decrement regs data (sum + summand) summand holds_tbRom]
    exact List.mem_cons_of_mem _
      (List.mem_cons_of_mem _ List.mem_cons_self)

/-- Three cycles for each summand. -/
theorem Beside.loop {m : ℕ} {sum summand : Word}
    (hcount : summand.toNat = m + 1)
    (hbeside : Beside (looping regs data 0x8#32 sum summand) ram shown
      single) :
    Beside (looping regs data 0x14#32 (total sum summand) 0#32) ram shown
      ((Single.step undriven read (sumRom start count))^[3 * (m + 1)]
        single) := by
  induction m generalizing sum summand single with
  | zero =>
      have hone : summand = 1#32 := BitVec.eq_of_toNat_eq hcount
      subst hone
      exact hbeside.three undriven read start count
  | succ m ih =>
      have hcount' : (summand - 1#32).toNat = m + 1 :=
        toNat_sub_one hcount
      have hmore : summand - 1#32 ≠ 0#32 := by
        intro hzero
        rw [hzero] at hcount'
        exact absurd hcount' (by simp)
      have hnext := hbeside.three undriven read start count
      rw [if_neg hmore] at hnext
      rw [show 3 * (m + 1 + 1) = 3 * (m + 1) + 3 by omega,
        Function.iterate_add_apply, ← total_step hcount]
      exact ih hcount' hnext

end Loop

/-! ## After the loop -/

/-- The word which the load takes, the sum being stored in the cycle before
it. -/
def reloaded (read : RamRead) (shown sum : Word) : Word :=
  match read with
  | .asynchronous => sum
  | .synchronous _ => shown

/-- What the load leaves in the output register of the RAM. -/
def resampled (read : RamRead) (shown sum : Word) : Word :=
  match read with
  | .asynchronous => shown
  | .synchronous _ => sum

section Tail

variable (undriven : Undriven) (read : RamRead) (start count : BitVec 12)
  {ram : BitVec 8 → Word} {shown : Word} {single : State} {regs : Isa.Regs}
  {data : Memory}

theorem ramAddr_load (hzero : regs.get 2#5 = 0#32) :
    ramAddr undriven regs 0x00012283#32 = 0#8 := by
  have haccess : access regs 0x00012283#32 = some 0#32 := by
    rw [access, if_pos (by decide)]
    change some (regs.get 2#5 + 0#32) = _
    rw [hzero]
    rfl
  exact ramAddr_of_access haccess

theorem Beside.step_store
    (hbeside : Beside ⟨0x18#32, regs, data⟩ ram shown single)
    (hbase : regs.get 3#5 = 0#32) :
    Beside ⟨0x1c#32, regs, data⟩
      (Function.update ram 0#8 (regs.get 1#5)) shown
      (Single.step undriven read (sumRom start count) single) := by
  have hword : sumRom start count ((single.pc >>> 2).extractLsb 7 0) =
      0x0011a023#32 := by
    rw [hbeside.pc]
    exact (rfl : sumRom start count
      ((0x18#32 >>> 2 : Word).extractLsb 7 0) = _)
  have hdecode : Isa.decode 0x0011a023#32 = some (.sw 3#5 1#5 0#12) := by
    decide
  obtain ⟨hpc, hregs⟩ :=
    step_of_decode undriven read hword (by decide)
      hdecode rfl
  have hstored := ram_step_of_decode undriven read hword (by decide) hdecode
  have hkept := shown_step_of_not_load undriven read hword (by decide)
  constructor
  · simpa [Isa.exec, seen, hbeside.pc] using hpc
  · simpa [Isa.exec, seen, hbeside.regs] using hregs
  · simpa [Isa.Instr.stored, hbeside.regs, hbeside.ram, hbase] using hstored
  · exact hkept.trans hbeside.shown

/-- A clocked RAM shows the word which the last load before this one has
addressed. -/
theorem Beside.step_load
    (hbeside : Beside ⟨0x1c#32, regs, data⟩ ram shown single)
    (hbase : regs.get 2#5 = 0#32) :
    Beside ⟨0x20#32, regs.set 5#5 (reloaded read shown (ram 0#8)), data⟩ ram
      (resampled read shown (ram 0#8))
      (Single.step undriven read (sumRom start count) single) := by
  have hword : sumRom start count ((single.pc >>> 2).extractLsb 7 0) =
      0x00012283#32 := by
    rw [hbeside.pc]
    exact (rfl : sumRom start count
      ((0x1c#32 >>> 2 : Word).extractLsb 7 0) = _)
  have hdecode : Isa.decode 0x00012283#32 = some (.lw 5#5 2#5 0#12) := by
    decide
  obtain ⟨hpc, hregs⟩ :=
    step_of_decode undriven read hword (by decide)
      hdecode rfl
  have hkept := ram_step_of_decode undriven read hword (by decide) hdecode
  have hat : single.ram (ramAddr undriven single.regs 0x00012283#32) =
      ram 0#8 := by
    rw [hbeside.regs, ramAddr_load undriven hbase, hbeside.ram]
  have hloaded : loaded undriven read single 0x00012283#32 =
      reloaded read shown (ram 0#8) := by
    rw [← hat, ← hbeside.shown]
    cases read <;> rfl
  have hsampled : sampled undriven read single 0x00012283#32 =
      resampled read shown (ram 0#8) := by
    unfold sampled
    rw [if_pos (by decide), hat, hbeside.shown]
    cases read <;> rfl
  constructor
  · simpa [Isa.exec, seen, hbeside.pc] using hpc
  · simpa [Isa.exec, seen, hbeside.regs, hloaded] using hregs
  · exact hkept.trans hbeside.ram
  · exact (shown_step undriven read hword).trans hsampled

/-- The cycles from the loop to the first zero word. -/
theorem Beside.tail
    (hbeside : Beside ⟨0x14#32, regs, data⟩ ram shown single)
    (hzero : regs.get 2#5 = 0#32) :
    let sum := regs.get 1#5
    let value := reloaded read shown sum + 5#32
    Beside ⟨0x34#32, (regs.set 3#5 0#32).set 5#5 value, data⟩
      (Function.update ram 0#8 sum) (resampled read shown sum)
      ((Single.step undriven read (sumRom start count))^[5] single) := by
  intro sum value
  have hcleared : Beside ⟨0x18#32, regs.set 3#5 0#32, data⟩ ram shown
      (Single.step undriven read (sumRom start count) single) := by
    rw [← step_clear regs data holds_tbRom]
    exact hbeside.step_quiet undriven read start count
      (show (0x14#32 : Word) ∈ quiet by decide)
  have hstored := hcleared.step_store undriven read start count (by simp)
  have hloaded := hstored.step_load undriven read start count
    (by simpa using hzero)
  have hjumped := hloaded.step_quiet undriven read start count
    (show (0x20#32 : Word) ∈ quiet by decide)
  rw [step_jump _ _ holds_tbRom] at hjumped
  have hadded := hjumped.step_quiet undriven read start count
    (show (0x30#32 : Word) ∈ quiet by decide)
  rw [step_addFive _ _ holds_tbRom] at hadded
  simpa [sum, value] using hadded

end Tail

/-! ## One pass -/

section Pass

variable (undriven : Undriven) (read : RamRead) (start count : BitVec 12)
  {ram : BitVec 8 → Word} {shown : Word} {single : State} {regs : Isa.Regs}
  {data : Memory}

theorem sumRom_behind {index : BitVec 8} (hindex : 13 ≤ index.toNat) :
    sumRom start count index = 0#32 := by
  have hnone : (sumImage start count)[index.toNat]? = none :=
    List.getElem?_eq_none hindex
  rw [sumRom, List.getD_eq_getElem?_getD, hnone]
  rfl

/-- The zero words behind the program. -/
theorem Beside.skip
    (hbeside : Beside ⟨0x34#32, regs, data⟩ ram shown single)
    {i : ℕ} (hi : i ≤ 243) :
    Beside ⟨0x34#32 + BitVec.ofNat 32 (4 * i), regs, data⟩ ram shown
      ((Single.step undriven read (sumRom start count))^[i] single) := by
  induction i with
  | zero => exact hbeside
  | succ i ih =>
      have hbefore := ih (by omega)
      have hindex : 13 ≤ (((0x34#32 + BitVec.ofNat 32 (4 * i) : Word) >>>
          2).extractLsb 7 0).toNat := by
        simp only [BitVec.extractLsb_toNat, BitVec.toNat_ushiftRight,
          BitVec.toNat_add, BitVec.toNat_ofNat, Nat.shiftRight_eq_div_pow]
        omega
      have hword := sumRom_behind start count hindex
      have hpc : 0x34#32 + BitVec.ofNat 32 (4 * i) =
          ((Single.step undriven read (sumRom start count))^[i] single).pc :=
        hbefore.pc.symm
      have hnext : 0x34#32 + BitVec.ofNat 32 (4 * (i + 1)) =
          0x34#32 + BitVec.ofNat 32 (4 * i) + 4#32 := by
        rw [Nat.mul_succ, BitVec.ofNat_add, BitVec.add_assoc]
      rw [hpc] at hword
      obtain ⟨hpc', hregs, hram, hshown⟩ := step_zero undriven read hword
      rw [Function.iterate_succ_apply', hnext]
      constructor
      · rw [hpc', hpc]
      · exact hregs.trans hbefore.regs
      · exact hram.trans hbefore.ram
      · exact hshown.trans hbefore.shown

/-- The registers after a pass whose load has seen `value`. -/
def summed (regs : Isa.Regs) (sum value : Word) : Isa.Regs :=
  (((regs.set 1#5 sum).set 2#5 0#32).set 3#5 0#32).set 5#5 (value + 5#32)

theorem summed_summed (regs : Isa.Regs) (sum value value' : Word) :
    summed (summed regs sum value) sum value' = summed regs sum value' := by
  apply Isa.Regs.ext
  funext index
  simp only [summed, Isa.Regs.get_set]
  split_ifs <;> rfl

theorem Beside.pass (hpos : count ≠ 0#12)
    (hbeside : Beside ⟨0#32, regs, data⟩ ram shown single) :
    let summand : Word := count.signExtend 32
    let sum := total (start.signExtend 32) summand
    Beside ⟨0x400#32, summed regs sum (reloaded read shown sum), data⟩
      (Function.update ram 0#8 sum) (resampled read shown sum)
      ((Single.step undriven read (sumRom start count))^[
        3 * summand.toNat + 250] single) := by
  intro summand sum
  obtain ⟨m, hm⟩ : ∃ m, summand.toNat = m + 1 := by
    apply Nat.exists_eq_succ_of_ne_zero
    intro hzero
    have hsummand : summand = 0#32 := BitVec.eq_of_toNat_eq hzero
    exact hpos
      ((BitFields.signExtend_eq_zero_iff (by omega) count).mp hsummand)
  have hget : ((regs.set 1#5 sum).set 2#5 0#32).get 1#5 = sum := by simp
  have hsetup := hbeside.setup undriven read start count
  have hloop := hsetup.loop undriven read start count hm
  have htail := hloop.tail undriven read start count (by simp)
  rw [hget] at htail
  have hskip := htail.skip undriven read start count (show 243 ≤ 243 by rfl)
  rw [← Function.iterate_add_apply, ← Function.iterate_add_apply,
    ← Function.iterate_add_apply] at hskip
  rw [hm, show 3 * (m + 1) + 250 = 243 + 5 + 3 * (m + 1) + 2 by omega]
  exact hskip

end Pass

end Single

/-! ## All passes -/

namespace Main

section Passes

variable (undriven : Undriven) (read : RamRead) (start count : BitVec 12)

/-- From any address that the ROM cannot tell from zero. -/
theorem run_pass (hpos : count ≠ 0#12) {main : Main}
    (hpc : SameLow 10 main.pc 0#32) :
    let summand : Word := count.signExtend 32
    let sum := total (start.signExtend 32) summand
    let after := Clocked.run (step undriven read (sumRom start count)) main
      (List.replicate (3 * summand.toNat + 250) (.clk false true))
    SameLow 10 after.pc 0#32 ∧
      after.regfile.isaRegs =
        Single.summed main.regfile.isaRegs sum
          (Single.reloaded read main.ramOut sum) ∧
      after.ram = Function.update main.ram 0#8 sum ∧
      after.ramOut = Single.resampled read main.ramOut sum := by
  intro summand sum after
  let atZero : Main := { main with pc := 0#32 }
  have hsame : SameBelow main atZero := ⟨hpc, rfl, rfl, rfl⟩
  have hafter : SameBelow after _ := hsame.run _
  have hrun := single_run undriven read (sumRom start count)
    (driven_sumRom start count) atZero (3 * summand.toNat + 250)
  have hstart : Single.Beside ⟨0#32, main.regfile.isaRegs, fun _ => 0#32⟩
      main.ram main.ramOut atZero.single := ⟨rfl, rfl, rfl, rfl⟩
  have hpass : Single.Beside ⟨0x400#32, _, _⟩ _ _ _ :=
    hstart.pass undriven read start count hpos
  rw [← hrun] at hpass
  refine ⟨?_, ?_, ?_, ?_⟩
  · have hend : SameLow 10 _ 0x400#32 :=
      congrArg (BitVec.setWidth 10) hpass.pc
    exact hafter.pc.trans hend
  · exact (congrArg RegFile.isaRegs hafter.regfile).trans hpass.regs
  · exact hafter.ram.trans hpass.ram
  · exact hafter.ramOut.trans hpass.shown

/-- With a clocked RAM every pass but the first loads the sum which the pass
before it has left in the output register. -/
theorem run_passes (hpos : count ≠ 0#12) {main : Main}
    (hpc : SameLow 10 main.pc 0#32) (m : ℕ) :
    let summand : Word := count.signExtend 32
    let sum := total (start.signExtend 32) summand
    let after := Clocked.run (step undriven read (sumRom start count)) main
      (List.replicate ((3 * summand.toNat + 250) * (m + 1))
        (.clk false true))
    SameLow 10 after.pc 0#32 ∧
      after.regfile.isaRegs =
        Single.summed main.regfile.isaRegs sum
          (if m = 0 then Single.reloaded read main.ramOut sum else sum) ∧
      after.ram = Function.update main.ram 0#8 sum ∧
      after.ramOut = Single.resampled read main.ramOut sum := by
  intro summand sum after
  induction m with
  | zero =>
      have hafter : after =
          Clocked.run (step undriven read (sumRom start count)) main
            (List.replicate (3 * summand.toNat + 250) (.clk false true)) := by
        change Clocked.run _ _ (List.replicate (_ * (0 + 1)) _) = _
        rw [Nat.zero_add, Nat.mul_one]
      rw [hafter]
      exact run_pass undriven read start count hpos hpc
  | succ m ih =>
      let before := Clocked.run (step undriven read (sumRom start count))
        main (List.replicate ((3 * summand.toNat + 250) * (m + 1))
          (.clk false true))
      obtain ⟨hlow, hregs, hram, hout⟩ := ih
      have hpass := run_pass undriven read start count hpos hlow
      have hafter : after =
          Clocked.run (step undriven read (sumRom start count)) before
            (List.replicate (3 * summand.toNat + 250) (.clk false true)) := by
        change Clocked.run _ _ (List.replicate (_ * (m + 1 + 1)) _) = _
        rw [Nat.mul_succ]
        exact Clocked.run_replicate_add _ _ _ _ _
      have hreload : Single.reloaded read before.ramOut sum = sum := by
        rw [show before.ramOut = _ from hout]
        cases read <;> rfl
      have hresample : Single.resampled read before.ramOut sum =
          Single.resampled read main.ramOut sum := by
        rw [show before.ramOut = _ from hout]
        cases read <;> rfl
      rw [hafter]
      refine ⟨hpass.1, ?_, ?_, hpass.2.2.2.trans hresample⟩
      · refine hpass.2.1.trans ?_
        rw [if_neg (Nat.succ_ne_zero m), hreload,
          show before.regfile.isaRegs = _ from hregs, Single.summed_summed]
      · refine hpass.2.2.1.trans ?_
        rw [show before.ram = _ from hram, Function.update_idem]

end Passes

/-- The program of the drawn ROM from any reset, for every start value and
every non-zero count which fit into the immediates: after every pass through
the ROM the sum is in the first word of the RAM, the other words are as they
were, and `x5` is five more than the sum.  Only after the first pass on a
clocked RAM it is five more than the word which the reset has left in the
output register, because nothing else loads that register before. -/
theorem sum1_10_repeats (undriven : Undriven) (read : RamRead)
    (start count : BitVec 12) (hpos : count ≠ 0#12) (before : Main)
    {event : Event} (hreset : event.isReset = true) :
    let main := step undriven read (sumRom start count) before event
    let summand : Word := count.signExtend 32
    let sum := total (start.signExtend 32) summand
    ∀ m,
      let now := Clocked.run (step undriven read (sumRom start count)) main
        (List.replicate ((3 * summand.toNat + 250) * (m + 1))
          (.clk false true))
      now.pc.extractLsb 9 0 = 0#10 ∧
        now.regfile.readRegOut 1#5 = sum ∧
        now.regfile.readRegOut 5#5 =
          (if read ≠ .asynchronous ∧ m = 0 then main.ramOut else sum) +
            5#32 ∧
        now.ram = Function.update main.ram 0#8 sum := by
  intro main summand sum m now
  have hsingle : main.single = Single.State.initial main.ram main.ramOut :=
    single_of_reset undriven read (sumRom start count) hreset
  have hpc : SameLow 10 main.pc 0#32 := by
    rw [show main.pc = 0#32 from congrArg Single.State.pc hsingle]
    rfl
  have hzeros : main.regfile.isaRegs = Isa.Regs.zeros :=
    congrArg Single.State.regs hsingle
  obtain ⟨hlow, hregs, hram, _⟩ :=
    run_passes undriven read start count hpos hpc m
  rw [hzeros] at hregs
  have hread : ∀ index : RegIndex, now.regfile.readRegOut index = _ :=
    fun index => congrArg (fun regs => Isa.Regs.get regs index) hregs
  refine ⟨hlow.extractLsb (by omega) (by omega), ?_, ?_, hram⟩
  · rw [hread]
    simp [Single.summed, sum, summand]
  · have hvalue :
        (if m = 0 then Single.reloaded read main.ramOut sum else sum) =
          if read ≠ .asynchronous ∧ m = 0 then main.ramOut else sum := by
      cases read with
      | asynchronous => simp [Single.reloaded]
      | synchronous mode => simp [Single.reloaded]
    rw [hread, ← hvalue]
    simp [Single.summed, sum, summand]

/-- The immediates of the file, and a clocked RAM which shows a seven. -/
theorem sum1_10_repeats_of_file :
    let undriven : Undriven := { aluOut := 7#32, ramData := 7#32 }
    let before : Main :=
      { pc := 8#32, regfile := { regs := fun _ => 7#32 }
        ram := fun _ => 1#32, ramOut := 7#32 }
    let main := step undriven (.synchronous .oldData) (sumRom 0#12 10#12)
      before .aresetRise
    let summand : Word := (10#12).signExtend 32
    let sum := total ((0#12).signExtend 32) summand
    sum = 55#32 ∧ 3 * summand.toNat + 250 = 280 ∧
      ∀ m,
        let now := Clocked.run
          (step undriven (.synchronous .oldData) (sumRom 0#12 10#12)) main
          (List.replicate ((3 * summand.toNat + 250) * (m + 1))
            (.clk false true))
        now.ram = Function.update (fun _ => 1#32) 0#8 sum ∧
          now.regfile.readRegOut 5#5 =
            (if m = 0 then 7#32 else sum) + 5#32 := by
  intro undriven before main summand sum
  refine ⟨by decide, by decide, ?_⟩
  intro m now
  obtain ⟨_, _, hloaded, hram⟩ :=
    sum1_10_repeats undriven (.synchronous .oldData) 0#12 10#12 (by decide)
      before (show Event.aresetRise.isReset = true from rfl) m
  refine ⟨hram, hloaded.trans ?_⟩
  simp [before, step, aresetRise, sum, summand]

end Main

end Logisim
end RiscvLogism
