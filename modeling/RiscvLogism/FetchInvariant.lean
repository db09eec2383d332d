import RiscvLogism.InstructionEffect

/-!
# The executed word and the halting word

With an output register on the instruction memory, the word on the
instruction port lags the program counter by one edge.  The phase bit exists
to hide that: in every execute phase the register holds the word at the
current program counter, whatever stalls and resets came before.  Two
consequences concern `halt`, which is decoded from the port in both phases: it
is only ever raised at a halting word, and from then on nothing changes.
-/

namespace RiscvLogism
namespace System

section Invariant

variable {arith : Arithmetic} {rom : Memory} {system : System}

def Fetched (rom : Memory) (system : System) : Prop :=
  system.main.executeCycle = true →
    system.romOut = rom system.main.imemAddr

theorem fetched_of_fetch (hphase : system.main.executeCycle = false) :
    system.Fetched rom := by
  intro hexecute
  rw [hphase] at hexecute
  contradiction

theorem fetched_afterReset (hreset : system.main = Main.afterReset) :
    system.Fetched rom := by
  apply fetched_of_fetch
  rw [hreset]
  rfl

/-- An edge without reset re-establishes the invariant by itself: a phase
which is still, or newly, the execute phase has the same program counter as
the state whose address the memory has just sampled. -/
theorem fetched_posedgeClk (enable : Bool) :
    (system.posedgeClk arith .registered rom false enable).Fetched rom := by
  cases hphase : system.main.executeCycle with
  | false =>
      intro _
      rw [posedgeClk_fetch hphase]
      rfl
  | true =>
      cases enable with
      | true =>
          apply fetched_of_fetch
          rw [posedgeClk_executeCycle, hphase]
          rfl
      | false =>
          intro _
          rw [posedgeClk_stalled_imemAddr]
          rfl

theorem fetched_step (event : Event) :
    (step arith .registered rom system event).Fetched rom := by
  cases hreset : event.isReset with
  | true => exact fetched_afterReset (step_isReset hreset)
  | false =>
      cases event with
      | clk areset enable =>
          cases areset with
          | true => contradiction
          | false => exact fetched_posedgeClk enable
      | aresetRise => contradiction

theorem Reachable.fetched
    (hreach : Reachable arith .registered rom system) :
    system.Fetched rom := by
  apply Clocked.Reachable.invariant _ _ hreach
  · rintro started ⟨powerUp, event, hreset, rfl⟩
    exact fetched_step event
  · intro before event _
    exact fetched_step event

end Invariant

/-- In every reachable execute phase the core sees the word at its program
counter. -/
theorem imemData_eq_rom_of_reachable (rom : Memory) {system : System}
    (hreach : Reachable rtl .registered rom system)
    (hphase : system.main.executeCycle = true) :
    system.imemData .registered rom =
      rom (system.main.pcAddress >>> 2) :=
  Reachable.fetched hreach hphase

theorem imemData_eq_rom_after_jump :
    let rom : Memory := fun index =>
      if index = 0#32 then 0x0080006f#32 else 0x00100093#32
    let system :=
      Clocked.run (step rtl .registered rom)
        (step rtl .registered rom (afterReset 0#32 fun _ => 0#32)
          .aresetRise)
        [.clk false true, .clk false true, .clk false true,
          .clk false false]
    system.imemData .registered rom =
      rom (system.main.pcAddress >>> 2) := by
  intro rom system
  have hstart :
      Reachable rtl .registered rom
        (step rtl .registered rom (afterReset 0#32 fun _ => 0#32)
          .aresetRise) :=
    .start ⟨afterReset 0#32 fun _ => 0#32, .aresetRise, rfl, rfl⟩
  exact imemData_eq_rom_of_reachable rom (hstart.run _) rfl

/-! ## Halting -/

section Halting

variable {arith : Arithmetic} {rom : Memory} {system : System}

theorem halt_iff (read : RomRead) :
    system.halt read rom = true ↔ system.imemData read rom = 0#32 := by
  unfold halt Main.halt
  rw [ControlUnit.controlUnit_haltDetected]
  simp

theorem released_halt_sound
    (hreleased : Released arith .registered rom system)
    (hhalt : system.halt .registered rom = true) :
    rom (system.main.pcAddress >>> 2) = 0#32 := by
  obtain ⟨before, enable, hreach, rfl⟩ := hreleased
  have hout :
      (before.posedgeClk arith .registered rom false enable).romOut =
        0#32 :=
    (halt_iff .registered).mp hhalt
  have hsampled : rom before.main.imemAddr = 0#32 := hout
  cases hphase : before.main.executeCycle with
  | false =>
      rw [posedgeClk_fetch hphase]
      exact hsampled
  | true =>
      have hword : before.imemData .registered rom = 0#32 :=
        (Reachable.fetched hreach hphase).trans hsampled
      have hpc :
          (before.posedgeClk arith .registered rom false enable).main.pc =
            before.main.pc :=
        posedgeClk_halt_pc ((halt_iff .registered).mpr hword) enable
      have haddress :
          (before.posedgeClk arith .registered rom false
            enable).main.pcAddress = before.main.pcAddress :=
        congrArg PC.pcAddress hpc
      rw [haddress]
      exact hsampled

structure StoppedAt (rom : Memory) (pc : PC) (regfile : RegFile)
    (system : System) : Prop where
  word : system.romOut = 0#32
  next : rom system.main.imemAddr = 0#32
  pc_eq : system.main.pc = pc
  regfile_eq : system.main.regfile = regfile

theorem StoppedAt.dmemWe {pc : PC} {regfile : RegFile}
    (hstopped : system.StoppedAt rom pc regfile) :
    system.dmemWe .registered rom = false := by
  have hword : system.imemData .registered rom = 0#32 := hstopped.word
  rw [System.dmemWe, Main.dmemWe, hword]
  rfl

theorem StoppedAt.posedgeClk {pc : PC} {regfile : RegFile}
    (hstopped : system.StoppedAt rom pc regfile) (enable : Bool) :
    (system.posedgeClk arith .registered rom false enable).StoppedAt rom pc
      regfile := by
  have hword : system.imemData .registered rom = 0#32 := hstopped.word
  have hpc :
      (system.posedgeClk arith .registered rom false enable).main.pc =
        system.main.pc :=
    posedgeClk_halt_pc ((halt_iff .registered).mpr hword) enable
  have hregfile :
      (system.posedgeClk arith .registered rom false enable).main.regfile =
        system.main.regfile := by
    have hwrite :
        system.main.actualRegWrite (system.imemData .registered rom) =
          false := by
      rw [hword]
      rfl
    exact Main.always_regfile_hold rfl hwrite
  constructor
  · exact hstopped.next
  · have haddress :
        (system.posedgeClk arith .registered rom false
          enable).main.imemAddr = system.main.imemAddr :=
      Main.imemAddr_congr hpc
    rw [haddress]
    exact hstopped.next
  · rw [hpc]
    exact hstopped.pc_eq
  · rw [hregfile]
    exact hstopped.regfile_eq

theorem StoppedAt.run {pc : PC} {regfile : RegFile}
    (hstopped : system.StoppedAt rom pc regfile) (enables : List Bool) :
    (Clocked.run (step arith .registered rom) system
      (enables.map (Event.clk false))).StoppedAt rom pc regfile := by
  apply Clocked.run_invariant_of_forall
    (fun event => ∃ enable, event = Event.clk false enable) _ hstopped
  · intro event hmem
    obtain ⟨enable, _, rfl⟩ := List.mem_map.mp hmem
    exact ⟨enable, rfl⟩
  · rintro before event ⟨enable, rfl⟩ hbefore
    exact hbefore.posedgeClk enable

end Halting

def StaysInPlace (main : Main) (word : Word) : Prop :=
  (Isa.opcode word = ControlUnit.btype ∧
      Bench.branchCondition main word = true ∧ Isa.immB word = 0#13) ∨
    (Isa.opcode word = ControlUnit.jtype ∧ Isa.immJ word = 0#21)

theorem staysInPlace_of_loadAddress {main : Main} {word : Word}
    (hload : main.loadAddress rtl word = true)
    (himm : Main.immOut word = 0#32) : StaysInPlace main word := by
  rcases Main.loadAddress_cases hload with ⟨hop, htaken⟩ | hop
  · refine .inl ⟨hop, ?_, ?_⟩
    · rw [← Bench.branchTaken_btype main hop]
      exact htaken
    · rw [Bench.immOut_btype hop] at himm
      exact (BitFields.signExtend_eq_zero_iff (by omega) _).mp himm
  · refine .inr ⟨hop, ?_⟩
    rw [Bench.immOut_jtype hop] at himm
    exact (BitFields.signExtend_eq_zero_iff (by omega) _).mp himm

theorem word_of_pc_unchanged {bench : Bench} {word : Word}
    (hphase : bench.main.executeCycle = true)
    (hsame :
      (bench.posedgeClk rtl word false true).main.pcAddress =
        bench.main.pcAddress) :
    word = 0#32 ∨ StaysInPlace bench.main word := by
  rw [Bench.posedgeClk_execute hphase] at hsame
  have hnext :
      (if Main.halt word then bench.main.pcAddress
        else if bench.main.loadAddress rtl word then
          bench.main.pcAddress + Main.immOut word
        else bench.main.pcAddress + 4#32) = bench.main.pcAddress :=
    hsame
  split_ifs at hnext with hhalt hload
  · left
    rw [Main.halt, ControlUnit.controlUnit_haltDetected] at hhalt
    exact beq_iff_eq.mp hhalt
  · right
    have himm := (BitFields.add_eq_self_iff _ _).mp hnext
    exact staysInPlace_of_loadAddress hload himm
  · have hfour := (BitFields.add_eq_self_iff _ _).mp hnext
    contradiction

/-- In every state which some clock edge has reached since the last reset:
`halt` is raised only at a halting word; from an execute phase at a halting
word on, no registers change and no store happens; and an enabled execute
edge keeps the program counter only at a halting word or at a taken transfer
of control to itself. -/
theorem halt_sound_and_permanent (rom : Memory) {system : System}
    (hreleased : Released rtl .registered rom system) :
    (system.halt .registered rom = true →
      rom (system.main.pcAddress >>> 2) = 0#32) ∧
    (system.main.executeCycle = true →
      rom (system.main.pcAddress >>> 2) = 0#32 →
        ∀ enables : List Bool,
          let later :=
            Clocked.run (step rtl .registered rom) system
              (enables.map (Event.clk false))
          later.main.pcAddress = system.main.pcAddress ∧
            later.main.regfile = system.main.regfile ∧
            later.dmemWe .registered rom = false) ∧
    (system.main.executeCycle = true →
      (system.posedgeClk rtl .registered rom false
          true).main.pcAddress = system.main.pcAddress →
        rom (system.main.pcAddress >>> 2) = 0#32 ∨
          StaysInPlace system.main
            (rom (system.main.pcAddress >>> 2))) := by
  have hfetched : system.Fetched rom := by
    obtain ⟨before, enable, _, rfl⟩ := hreleased
    exact fetched_posedgeClk enable
  refine ⟨released_halt_sound hreleased, ?_, ?_⟩
  · intro hphase hword enables later
    have hstopped :
        system.StoppedAt rom system.main.pc system.main.regfile :=
      ⟨(hfetched hphase).trans hword, hword, rfl, rfl⟩
    have hlater : later.StoppedAt rom system.main.pc system.main.regfile :=
      hstopped.run enables
    exact ⟨congrArg PC.pcAddress hlater.pc_eq, hlater.regfile_eq,
      hlater.dmemWe⟩
  · intro hphase hsame
    have hword :
        system.imemData .registered rom =
          rom (system.main.pcAddress >>> 2) :=
      hfetched hphase
    rw [← hword]
    exact word_of_pc_unchanged hphase hsame

theorem halt_sound_and_permanent_of_zero_rom :
    let rom : Memory := fun _ => 0#32
    let system :=
      (step rtl .registered rom (afterReset 0x13#32 fun _ => 0#32)
        .aresetRise).posedgeClk rtl .registered rom false true
    rom (system.main.pcAddress >>> 2) = 0#32 ∧
      (∀ enables : List Bool,
        let later :=
          Clocked.run (step rtl .registered rom) system
            (enables.map (Event.clk false))
        later.main.pcAddress = system.main.pcAddress ∧
          later.main.regfile = system.main.regfile ∧
          later.dmemWe .registered rom = false) ∧
      (rom (system.main.pcAddress >>> 2) = 0#32 ∨
        StaysInPlace system.main
          (rom (system.main.pcAddress >>> 2))) := by
  intro rom system
  have hstart :
      Reachable rtl .registered rom
        (step rtl .registered rom (afterReset 0x13#32 fun _ => 0#32)
          .aresetRise) :=
    .start ⟨_, .aresetRise, rfl, rfl⟩
  have hreleased : Released rtl .registered rom system :=
    ⟨_, true, hstart, rfl⟩
  have hphase : system.main.executeCycle = true := rfl
  have hword : rom (system.main.pcAddress >>> 2) = 0#32 := rfl
  have hhalt : system.halt .registered rom = true :=
    (halt_iff .registered).mpr rfl
  have hpc :
      (system.posedgeClk rtl .registered rom false true).main.pc =
        system.main.pc := posedgeClk_halt_pc hhalt true
  have hsame :
      (system.posedgeClk rtl .registered rom false true).main.pcAddress =
        system.main.pcAddress := congrArg PC.pcAddress hpc
  obtain ⟨hsound, hpermanent, hstays⟩ :=
    halt_sound_and_permanent rom hreleased
  exact ⟨hsound hhalt, hpermanent hphase hword, hstays hphase hsame⟩

end System
end RiscvLogism
