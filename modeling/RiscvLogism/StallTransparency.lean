import RiscvLogism.IsaRefinement
import Mathlib.Data.List.Count

/-!
# Stalls

`enable` gates the program counter and the phase, but neither write port: a
stalled execute edge already writes the destination register and the data
memory, and the instruction is executed again on the next edge.  Storing twice
is harmless.  Writing a register twice is harmless when the instruction,
executed with its own result in the destination register, yields the same
result.  Under this condition the stalled edges of a run can be deleted.
-/

namespace RiscvLogism

/-! ## Executing a word twice -/

/-- The value a word with the register write enabled writes to its
destination. -/
def writeBack (regfile : RegFile) (ram : Memory) (word : Word) : Word :=
  let x := regfile.readRegOut (Isa.rs1 word)
  let y := regfile.readRegOut (Isa.rs2 word)
  if ControlUnit.opcode word = ControlUnit.rtype then
    (funcOp (Isa.funct3 word) (word.getLsbD 30)).denote x y
  else if ControlUnit.opcode word = ControlUnit.loadType then
    ram ((x + (Isa.immI word).signExtend 32) >>> 2)
  else if ControlUnit.opcode word = ControlUnit.jtype then
    x + (Isa.immJ word).signExtend 32
  else x + (Isa.immI word).signExtend 32

/-- A word which writes a register writes the same value when it is executed
again after the write. -/
def Settles (regfile : RegFile) (ram : Memory) (word : Word) : Prop :=
  (controlUnit word).regWrite = true → Isa.rd word ≠ 0#5 →
    writeBack
        (regfile.write (Isa.rd word) (writeBack regfile ram word)) ram word =
      writeBack regfile ram word

theorem settles_of_not_read (regfile : RegFile) (ram : Memory) {word : Word}
    (hrs1 : Isa.rs1 word ≠ Isa.rd word)
    (hrs2 : ControlUnit.opcode word = ControlUnit.rtype →
      Isa.rs2 word ≠ Isa.rd word) :
    Settles regfile ram word := by
  intro _ _
  have hfirst := RegFile.readRegOut_write_of_ne hrs1 regfile
  unfold writeBack
  by_cases hop : ControlUnit.opcode word = ControlUnit.rtype
  · have hsecond := RegFile.readRegOut_write_of_ne (hrs2 hop) regfile
    simp only [hop, if_true, hfirst, hsecond]
  · simp only [hop, if_false, hfirst]

namespace Bench

variable {bench : Bench} {word : Word}

theorem writeData_eq_writeBack
    (hwrite : (controlUnit word).regWrite = true) :
    bench.main.writeData rtl word (bench.dmemRdata rtl word) =
      writeBack bench.main.regfile bench.ram word := by
  rcases ControlUnit.opcode_of_regWrite hwrite with hop | hop | hop | hop
  · have hcontrol := ControlUnit.controlUnit_rtype hop
    have hout := bench.aluOut_rtype hop
    simp [Main.writeData, hcontrol, ControlUnit.defaults, writeBack, hop,
      hout]
  · have hcontrol := ControlUnit.controlUnit_itype hop
    have hout := bench.aluOut_add (by rw [hcontrol]) (by rw [hcontrol]; rfl)
    rw [immOut_itype hop] at hout
    simp [Main.writeData, hcontrol, ControlUnit.defaults, writeBack, hop,
      hout, ControlUnit.itype, ControlUnit.rtype, ControlUnit.loadType,
      ControlUnit.jtype]
  · have hcontrol := ControlUnit.controlUnit_loadType hop
    have hout := bench.aluOut_add (by rw [hcontrol]) (by rw [hcontrol]; rfl)
    rw [immOut_loadType hop] at hout
    simp [Main.writeData, hcontrol, writeBack, hop, dmemRdata, ramIndex,
      Main.dmemAddr, hout, ControlUnit.rtype, ControlUnit.loadType]
  · have hcontrol := ControlUnit.controlUnit_jtype hop
    have hout := bench.aluOut_add (by rw [hcontrol]) (by rw [hcontrol]; rfl)
    rw [immOut_jtype hop] at hout
    simp [Main.writeData, hcontrol, ControlUnit.defaults, writeBack, hop,
      hout, ControlUnit.rtype, ControlUnit.loadType, ControlUnit.jtype]

theorem executed_regfile :
    (bench.executed rtl word).main.regfile =
      if (controlUnit word).regWrite then
        bench.main.regfile.write (Isa.rd word)
          (writeBack bench.main.regfile bench.ram word)
      else bench.main.regfile := by
  by_cases hwrite : (controlUnit word).regWrite = true
  · rw [if_pos hwrite, ← writeData_eq_writeBack hwrite]
    simp only [executed, retired, hwrite, if_true]
    rfl
  · simp [executed, retired, hwrite]

theorem executed_of_regWrite (hwrite : (controlUnit word).regWrite = true) :
    bench.executed rtl word =
      retired
        (if Main.halt word then bench.main.pcAddress
          else if (controlUnit word).jump then
            bench.main.pcAddress + Main.immOut word
          else bench.main.pcAddress + 4#32)
        (bench.main.regfile.write (Isa.rd word)
          (writeBack bench.main.regfile bench.ram word))
        bench.ram := by
  obtain ⟨hstore, hbranch⟩ := ControlUnit.not_memWrite_of_regWrite hwrite
  rw [← writeData_eq_writeBack hwrite]
  simp [executed, Main.loadAddress, hwrite, hstore, hbranch]
  rfl

theorem posedgeClk_stalled_execute (arith : Arithmetic)
    (hphase : bench.main.executeCycle = true) :
    bench.posedgeClk arith word false false =
      { main :=
          { pc := bench.main.pc
            regfile := (bench.executed arith word).main.regfile
            executeCycle := true }
        ram := (bench.executed arith word).ram } := by
  apply Bench.ext
  · apply Main.ext
    · exact Main.always_stalled_pc rfl rfl
    · exact Main.always_execute_regfile rfl hphase
    · exact (Main.always_executeCycle rfl).trans hphase
  · simp only [posedgeClk, Main.dmemWe, hphase, Bool.and_true, executed,
      retired]

section Stalled

variable (hphase : bench.main.executeCycle = true)

include hphase

theorem executed_stalled_of_not_regWrite
    (hwrite : (controlUnit word).regWrite = false) :
    (bench.posedgeClk rtl word false false).executed rtl word =
      bench.executed rtl word := by
  have hmain :
      (bench.posedgeClk rtl word false false).main = bench.main := by
    rw [posedgeClk_stalled_execute rtl hphase, executed_regfile, hwrite]
    apply Main.ext
    · rfl
    · rfl
    · exact hphase.symm
  have hram :
      (bench.posedgeClk rtl word false false).ram =
        (bench.executed rtl word).ram := by
    rw [posedgeClk_stalled_execute rtl hphase]
  simp only [executed, hmain, hwrite, hram, ramIndex, retired]
  cases hstore : (controlUnit word).memWrite with
  | false => simp
  | true => simp

theorem executed_stalled_of_regWrite
    (hwrite : (controlUnit word).regWrite = true) :
    (bench.posedgeClk rtl word false false).executed rtl word =
      { bench.executed rtl word with
        main :=
          { (bench.executed rtl word).main with
            regfile :=
              bench.main.regfile.write (Isa.rd word)
                (writeBack
                  (bench.main.regfile.write (Isa.rd word)
                    (writeBack bench.main.regfile bench.ram word))
                  bench.ram word) } } := by
  rw [executed_of_regWrite hwrite, posedgeClk_stalled_execute rtl hphase,
    executed_of_regWrite hwrite]
  simp only [retired, RegFile.write_write]
  rfl

/-- A stalled edge before an enabled one is invisible exactly when the word
settles. -/
theorem executed_stalled_iff :
    (bench.posedgeClk rtl word false false).executed rtl word =
        bench.executed rtl word ↔
      Settles bench.main.regfile bench.ram word := by
  cases hwrite : (controlUnit word).regWrite with
  | false =>
      refine iff_of_true (executed_stalled_of_not_regWrite hphase hwrite) ?_
      intro hwrite'
      rw [hwrite] at hwrite'
      contradiction
  | true =>
      rw [executed_stalled_of_regWrite hphase hwrite]
      by_cases hrd : Isa.rd word = 0#5
      · refine iff_of_true ?_ (fun _ hne => absurd hrd hne)
        rw [executed_of_regWrite hwrite, hrd]
        rfl
      · constructor
        · intro hsame _ _
          have hregfile :=
            congrArg (fun bench : Bench => bench.main.regfile) hsame
          rw [executed_of_regWrite hwrite] at hregfile
          exact (RegFile.write_inj hrd _ _ _).mp hregfile
        · intro hsettles
          rw [hsettles hwrite hrd, executed_of_regWrite hwrite]
          rfl

end Stalled

end Bench

/-! ## Runs with stalls -/

namespace System

section Stalls

variable (read : RomRead) (rom : Memory)

def edge (system : System) (enable : Bool) : System :=
  system.posedgeClk rtl read rom false enable

/-- The architectural states just after the edges at which an instruction
retires. -/
def retirements (system : System) (enables : List Bool) : List Isa.State :=
  Clocked.observed (edge read rom)
    (fun system enable => system.main.executeCycle && enable)
    (fun system => system.isaState) system enables

/-- The run retires what the run without its stalled edges retires. -/
def StallTransparent (romOut : Word) (ram : Memory) (enables : List Bool) :
    Prop :=
  retirements read rom (afterReset romOut ram) enables =
    retirements read rom (afterReset romOut ram)
      (List.replicate (enables.count true) true)

def StallSettles (system : System) (enable : Bool) : Prop :=
  enable = false → system.main.executeCycle = true →
    Settles system.main.regfile system.ram (system.imemData read rom)

/-- The first state is the second one after some more stalled edges.  In an
execute phase the two may differ in what these edges have written already, but
they execute the same word to the same effect. -/
inductive UpToStalls : System → System → Prop
  | fetch {stalled plain : System}
      (hphase : stalled.main.executeCycle = false)
      (hmain : stalled.main = plain.main) (hram : stalled.ram = plain.ram) :
      UpToStalls stalled plain
  | execute {stalled plain : System}
      (hphase : stalled.main.executeCycle = true)
      (hphase' : plain.main.executeCycle = true)
      (hfetched : stalled.imemData read rom = rom stalled.main.imemAddr)
      (hword : plain.imemData read rom = stalled.imemData read rom)
      (hresult :
        stalled.toBench.executed rtl (stalled.imemData read rom) =
          plain.toBench.executed rtl (stalled.imemData read rom)) :
      UpToStalls stalled plain

end Stalls

section Steps

variable {read : RomRead} {rom : Memory} {stalled plain : System}

theorem edge_execute (hphase : plain.main.executeCycle = true) :
    (plain.edge read rom true).toBench =
      plain.toBench.executed rtl (plain.imemData read rom) :=
  Bench.posedgeClk_execute hphase _

theorem imemData_edge_stalled {system : System}
    (hfetched : system.imemData read rom = rom system.main.imemAddr) :
    (system.edge read rom false).imemData read rom =
      system.imemData read rom := by
  rw [hfetched]
  cases read with
  | combinational => exact congrArg rom posedgeClk_stalled_imemAddr
  | registered => rfl

theorem UpToStalls.enabled_edge (hrel : UpToStalls read rom stalled plain) :
    UpToStalls read rom (stalled.edge read rom true)
        (plain.edge read rom true) ∧
      stalled.main.executeCycle = plain.main.executeCycle ∧
      (stalled.main.executeCycle = true →
        (stalled.edge read rom true).isaState =
          (plain.edge read rom true).isaState) := by
  cases hrel with
  | fetch hphase hmain hram =>
      have hphase' : plain.main.executeCycle = false := by
        rw [← hmain, hphase]
      have hsame : stalled.edge read rom true = plain.edge read rom true := by
        unfold edge
        rw [posedgeClk_fetch hphase, posedgeClk_fetch hphase', hmain, hram]
      have hnext : (plain.edge read rom true).main.executeCycle = true := by
        rw [edge, posedgeClk_executeCycle, hphase']
        rfl
      have haddress :
          (plain.edge read rom true).main.imemAddr = plain.main.imemAddr := by
        rw [edge, posedgeClk_fetch hphase']
        rfl
      have hfetched :
          (plain.edge read rom true).imemData read rom =
            rom (plain.edge read rom true).main.imemAddr := by
        rw [haddress]
        exact imemData_after_fetch hphase'
      rw [hsame]
      refine ⟨.execute hnext hnext hfetched rfl rfl, by rw [hmain], ?_⟩
      intro _
      rfl
  | execute hphase hphase' _ hword hresult =>
      have hbench :
          (stalled.edge read rom true).toBench =
            (plain.edge read rom true).toBench := by
        rw [edge_execute hphase, edge_execute hphase', hword]
        exact hresult
      have hnext : (stalled.edge read rom true).main.executeCycle = false := by
        rw [edge, posedgeClk_executeCycle, hphase]
        rfl
      refine ⟨?_, hphase.trans hphase'.symm, ?_⟩
      · exact .fetch hnext (congrArg Bench.main hbench)
          (congrArg Bench.ram hbench)
      · intro _
        exact congrArg Bench.isaState hbench

theorem UpToStalls.stalled_edge (hrel : UpToStalls read rom stalled plain)
    (hsettles : stalled.StallSettles read rom false) :
    UpToStalls read rom (stalled.edge read rom false) plain := by
  cases hrel with
  | fetch hphase hmain hram =>
      have hkeep :
          { stalled.main with executeCycle := false } = plain.main := by
        rw [← hmain]
        exact Main.ext rfl rfl hphase.symm
      rw [edge, posedgeClk_fetch hphase]
      exact .fetch rfl hkeep hram
  | execute hphase hphase' hfetched hword hresult =>
      have hkeep := imemData_edge_stalled hfetched
      have hnext : (stalled.edge read rom false).main.executeCycle = true := by
        rw [edge, posedgeClk_executeCycle, hphase]
        rfl
      have hfetched' :
          (stalled.edge read rom false).imemData read rom =
            rom (stalled.edge read rom false).main.imemAddr := by
        rw [hkeep, edge, posedgeClk_stalled_imemAddr, hfetched]
      have hagain :
          (stalled.edge read rom false).toBench.executed rtl
              (stalled.imemData read rom) =
            stalled.toBench.executed rtl (stalled.imemData read rom) :=
        (Bench.executed_stalled_iff hphase).mpr (hsettles rfl hphase)
      refine .execute hnext hphase' hfetched' (hword.trans hkeep.symm) ?_
      rw [hkeep, hagain]
      exact hresult

end Steps

/-- Stalling is transparent in every run whose stalled execute edges execute
words which settle. -/
theorem stall_transparent (read : RomRead) (rom : Memory) (romOut : Word)
    (ram : Memory) (enables : List Bool)
    (hsettles :
      Clocked.Along (edge read rom) (StallSettles read rom)
        (afterReset romOut ram) enables) :
    StallTransparent read rom romOut ram enables := by
  have hstart :
      UpToStalls read rom (afterReset romOut ram) (afterReset romOut ram) :=
    .fetch rfl rfl rfl
  unfold StallTransparent retirements
  rw [← List.filter_beq]
  refine Clocked.observed_filter ?_ ?_ hstart hsettles
  · intro stalled plain enable hkeep hrel
    obtain rfl : enable = true := by simpa using hkeep
    obtain ⟨hnext, hphase, hview⟩ := hrel.enabled_edge
    refine ⟨hnext, by rw [hphase], ?_⟩
    intro hretire
    exact hview (by simpa using hretire)
  · intro stalled plain enable hdrop hside hrel
    obtain rfl : enable = false := by simpa using hdrop
    exact ⟨hrel.stalled_edge hside, Bool.and_false _⟩

theorem stall_transparent_addi :
    StallTransparent .registered (fun _ => 0x00110093#32) 0#32
      (fun _ => 0#32) [true, false, true] := by
  refine stall_transparent .registered _ _ _ _ ⟨?_, ?_, ?_, trivial⟩
  · intro henable
    contradiction
  · intro _ _
    apply settles_of_not_read
    · decide
    · intro hop
      contradiction
  · intro henable
    contradiction

/-- A program of which every word is `ADDI x1, x1, 1`, stalled once in an
execute phase: the stalled edge increments, too. -/
theorem not_stallTransparent_increment :
    ¬ StallTransparent .registered (fun _ => 0x00108093#32) 0#32
      (fun _ => 0#32) [true, false, true] := by
  intro htransparent
  have hregister :=
    congrArg (List.map fun state : Isa.State => state.regs.get 1#5)
      htransparent
  have hwrong : ([2#32] : List Word) = [1#32] := hregister
  simp at hwrong

end System
end RiscvLogism
