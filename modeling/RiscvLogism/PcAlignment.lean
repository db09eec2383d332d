import RiscvLogism.FetchInvariant

/-!
# Alignment of the program counter

The core never compares the low bits of the program counter with anything: it
drops them when it addresses the instruction memory.  They stay zero because
the counter moves by four or by the offset of a branch or a jump, and by that
offset only in an execute phase, when the word on the port is the word of the
memory at the counter.
-/

namespace RiscvLogism

/-! ## One trigger -/

/-- The values which one trigger of the `always` block of `PC.sv` may leave in
the program counter. -/
inductive PcMove (main : Main) (word : Word) : Word → Prop
  | reset : PcMove main word 0#32
  | hold : PcMove main word main.pcAddress
  | advance : PcMove main word (main.pcAddress + 4#32)
  | transfer (hphase : main.executeCycle = true)
      (hop : Isa.opcode word = ControlUnit.btype ∨
        Isa.opcode word = ControlUnit.jtype) :
      PcMove main word (main.pcAddress + Main.immOut word)

theorem PcMove.of_pc_eq {main next : Main} {word : Word}
    (hpc : next.pc = main.pc) : PcMove main word next.pcAddress := by
  rw [Main.pcAddress, hpc]
  exact .hold

theorem Main.always_pcMove {arith : Arithmetic} (main : Main)
    (inputs : Main.Inputs) :
    PcMove main inputs.imemData (main.always arith inputs).pcAddress := by
  by_cases hreset : inputs.areset = true
  · rw [always_areset hreset]
    exact .reset
  rw [Bool.not_eq_true] at hreset
  by_cases henable : inputs.enable = true
  · cases hphase : main.executeCycle with
    | false =>
        apply PcMove.of_pc_eq
        rw [always_fetch hreset hphase]
    | true =>
        cases hhalt : halt inputs.imemData with
        | true => exact PcMove.of_pc_eq (always_halt_pc hreset hhalt)
        | false =>
            rw [always_execute_pc hreset henable hphase hhalt]
            by_cases hload : main.loadAddress arith inputs.imemData = true
            · rw [if_pos hload]
              exact .transfer hphase
                ((loadAddress_cases hload).imp_left And.left)
            · rw [if_neg hload]
              exact .advance
  · rw [Bool.not_eq_true] at henable
    exact PcMove.of_pc_eq (always_stalled_pc hreset henable)

/-! ## Aligned moves -/

def TransfersAligned (k : ℕ) (word : Word) : Prop :=
  (Isa.opcode word = ControlUnit.btype →
      BitFields.Aligned k (Isa.immB word)) ∧
    (Isa.opcode word = ControlUnit.jtype →
      BitFields.Aligned k (Isa.immJ word))

theorem transfersAligned_one (word : Word) : TransfersAligned 1 word :=
  ⟨fun _ => BitFields.aligned_append_zero 1 _,
    fun _ => BitFields.aligned_append_zero 1 _⟩

theorem TransfersAligned.immOut {k : ℕ} (hk : k ≤ 2) {word : Word}
    (haligned : TransfersAligned k word)
    (hop : Isa.opcode word = ControlUnit.btype ∨
      Isa.opcode word = ControlUnit.jtype) :
    BitFields.Aligned k (Main.immOut word) := by
  rcases hop with hb | hj
  · rw [Bench.immOut_btype hb]
    exact (haligned.1 hb).signExtend (by omega) (by omega)
  · rw [Bench.immOut_jtype hj]
    exact (haligned.2 hj).signExtend (by omega) (by omega)

theorem PcMove.aligned {k : ℕ} (hk : k ≤ 2) {main : Main} {word next : Word}
    (hmove : PcMove main word next)
    (hpc : BitFields.Aligned k main.pcAddress)
    (hword : main.executeCycle = true → TransfersAligned k word) :
    BitFields.Aligned k next := by
  cases hmove with
  | reset => exact BitFields.aligned_zero k
  | hold => exact hpc
  | advance =>
      have hfour : BitFields.Aligned k 4#32 := by
        have hdvd : 2 ^ k ∣ 2 ^ 2 := Nat.pow_dvd_pow 2 hk
        exact hdvd
      exact hpc.add (by omega) hfour
  | transfer hphase hop =>
      exact hpc.add (by omega) ((hword hphase).immOut hk hop)

/-! ## The invariant -/

namespace System

section Alignment

variable {arith : Arithmetic} {read : RomRead} {rom : Memory}
  {system : System}

theorem step_pcMove (event : Event) :
    PcMove system.main (system.imemData read rom)
      (step arith read rom system event).main.pcAddress := by
  cases event with
  | clk areset enable =>
      exact system.main.always_pcMove
        (system.toBench.mainInputs arith (system.imemData read rom) areset
          enable)
  | aresetRise =>
      exact system.main.always_pcMove
        (system.toBench.mainInputs arith (system.imemData read rom) true
          false)

theorem Reachable.imemData_eq (hreach : Reachable arith read rom system)
    (hphase : system.main.executeCycle = true) :
    system.imemData read rom = rom system.main.imemAddr := by
  cases read with
  | combinational => rfl
  | registered => exact Reachable.fetched hreach hphase

theorem Reachable.aligned {k : ℕ} (hk : k ≤ 2)
    (hrom : ∀ index, TransfersAligned k (rom index))
    (hreach : Reachable arith read rom system) :
    BitFields.Aligned k system.main.pcAddress := by
  apply Clocked.Reachable.invariant_of_reachable _ _ hreach
  · rintro started ⟨powerUp, event, hreset, rfl⟩
    rw [step_isReset hreset]
    exact BitFields.aligned_zero k
  · intro before event hbefore hpc
    apply PcMove.aligned hk (step_pcMove event) hpc
    intro hphase
    rw [Reachable.imemData_eq hbefore hphase]
    exact hrom _

end Alignment

theorem imemAddr_mul_four {main : Main}
    (haligned : BitFields.Aligned 2 main.pcAddress) :
    main.imemAddr * 4#32 = main.pcAddress := by
  apply BitVec.eq_of_toNat_eq
  have hmul : main.imemAddr.toNat * 4 = main.pcAddress.toNat :=
    haligned.ushiftRight_mul
  rw [BitVec.toNat_mul]
  have hlt := main.pcAddress.isLt
  change main.imemAddr.toNat * 4 % 2 ^ 32 = main.pcAddress.toNat
  rw [hmul, Nat.mod_eq_of_lt hlt]

/-- The program counter is even in every reachable state.  If the branches
and jumps of the instruction memory have offsets divisible by four, its two
low bits are zero and the address of the instruction memory determines it. -/
theorem pc_alignment_invariant (read : RomRead) (rom : Memory) :
    (∀ system : System, Reachable rtl read rom system →
      system.main.pcAddress.toNat % 2 = 0) ∧
    ((∀ index,
        (Isa.opcode (rom index) = 0x63#7 →
          (4 : ℤ) ∣ (Isa.immB (rom index)).toInt) ∧
        (Isa.opcode (rom index) = 0x6f#7 →
          (4 : ℤ) ∣ (Isa.immJ (rom index)).toInt)) →
      (∀ system : System, Reachable rtl read rom system →
        system.main.pcAddress.extractLsb 1 0 = 0#2 ∧
          system.main.imemAddr * 4#32 = system.main.pcAddress) ∧
      (∀ system system' : System, Reachable rtl read rom system →
        Reachable rtl read rom system' →
        system.main.imemAddr = system'.main.imemAddr →
          system.main.pcAddress = system'.main.pcAddress)) := by
  constructor
  · intro system hreach
    have heven : BitFields.Aligned 1 system.main.pcAddress :=
      hreach.aligned (by omega) fun index => transfersAligned_one _
    exact Nat.mod_eq_zero_of_dvd heven
  · intro hoffsets
    have hrom : ∀ index, TransfersAligned 2 (rom index) := by
      intro index
      obtain ⟨hb, hj⟩ := hoffsets index
      constructor
      · intro hop
        exact (BitFields.aligned_iff_dvd_toInt (by omega) _).mpr (hb hop)
      · intro hop
        exact (BitFields.aligned_iff_dvd_toInt (by omega) _).mpr (hj hop)
    have haligned : ∀ system : System, Reachable rtl read rom system →
        BitFields.Aligned 2 system.main.pcAddress := by
      intro system hreach
      exact Reachable.aligned (by omega) hrom hreach
    refine ⟨?_, ?_⟩
    · intro system hreach
      refine ⟨?_, imemAddr_mul_four (haligned system hreach)⟩
      exact (BitFields.aligned_iff_extractLsb' 2 _).mp
        (haligned system hreach)
    · intro system system' hreach hreach' hsame
      rw [← imemAddr_mul_four (haligned system hreach), hsame,
        imemAddr_mul_four (haligned system' hreach')]

theorem pc_alignment_invariant_of_backward_jump :
    let rom : Memory := fun index =>
      if index = 0#32 then 0x0080006f#32 else 0xffdff06f#32
    let system :=
      Clocked.run (step rtl .registered rom)
        (step rtl .registered rom (afterReset 0#32 fun _ => 0#32)
          .aresetRise)
        [.clk false true, .clk false true, .clk false false]
    system.main.pcAddress.toNat % 2 = 0 ∧
      system.main.pcAddress.extractLsb 1 0 = 0#2 ∧
      system.main.imemAddr * 4#32 = system.main.pcAddress := by
  intro rom system
  have hstart :
      Reachable rtl .registered rom
        (step rtl .registered rom (afterReset 0#32 fun _ => 0#32)
          .aresetRise) :=
    .start ⟨afterReset 0#32 fun _ => 0#32, .aresetRise, rfl, rfl⟩
  have hreach : Reachable rtl .registered rom system := hstart.run _
  have hoffsets : ∀ index,
      (Isa.opcode (rom index) = 0x63#7 →
        (4 : ℤ) ∣ (Isa.immB (rom index)).toInt) ∧
      (Isa.opcode (rom index) = 0x6f#7 →
        (4 : ℤ) ∣ (Isa.immJ (rom index)).toInt) := by
    intro index
    by_cases hindex : index = 0#32
    · simp only [rom, if_pos hindex]
      decide
    · simp only [rom, if_neg hindex]
      decide
  obtain ⟨heven, haligned⟩ := pc_alignment_invariant .registered rom
  exact ⟨heven system hreach, (haligned hoffsets).1 system hreach⟩

end System
end RiscvLogism
