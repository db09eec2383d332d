import RiscvLogism.CoreSemantics
import RiscvLogism.FetchInvariant
import RiscvLogism.StallTransparency

/-!
# Runs of the core on arbitrary words

With the interpreter of the circuit in place of the RV32I reference, the
refinement needs no condition on the program.  It starts at any reset, in
whatever state that reset finds the system; it survives stalls wherever the
stalled word settles; the two ways of reading the instruction memory are
indistinguishable; and the sequence of writes on the data port is the sequence
of stores of the interpreter, none of them lost or repeated.
-/

namespace RiscvLogism
namespace System

/-! ## Enabled runs -/

section Enabled

variable {read : RomRead} {rom : Memory} {system : System}

theorem isaState_twoCycles_core
    (hphase : system.main.executeCycle = false) :
    (system.twoCycles rtl read rom).isaState =
      CoreIsa.step funcOp rom system.isaState := by
  rw [twoCycles_toBench hphase,
    system.toBench.isaState_executed_word rtl_implements]
  rfl

theorem isaState_iterate_twoCycles_core (k : ℕ)
    (hphase : system.main.executeCycle = false) :
    ((twoCycles rtl read rom)^[k] system).isaState =
      (CoreIsa.step funcOp rom)^[k] system.isaState :=
  Clocked.iterate_commutes
    (fun system : System => system.main.executeCycle = false)
    (fun system : System => system.isaState)
    (fun _ hfetch => twoCycles_executeCycle hfetch)
    (fun _ hfetch => isaState_twoCycles_core hfetch)
    k hphase

theorem eq_afterReset (hmain : system.main = Main.afterReset) :
    system = afterReset system.romOut system.ram :=
  System.ext hmain rfl rfl

end Enabled

theorem isaState_run_of_afterReset (read : RomRead) (rom : Memory)
    {system : System} (hmain : system.main = Main.afterReset) (k : ℕ) :
    (Clocked.run (step rtl read rom) system
        (List.replicate (2 * k) (.clk false true))).isaState =
      (CoreIsa.step funcOp rom)^[k] (Isa.State.initial system.ram) := by
  have hinitial : system.isaState = Isa.State.initial system.ram := by
    rw [eq_afterReset hmain]
    exact isaState_afterReset _ _
  rw [Clocked.run_replicate_two_mul, ← hinitial]
  apply isaState_iterate_twoCycles_core k
  rw [hmain]
  rfl

/-- A reset at any moment, in any state, starts the program over on the data
the memory then holds, whatever words the program consists of. -/
theorem run_after_reset_refines_core (read : RomRead) (rom : Memory)
    (before : System) {event : Event} (hreset : event.isReset = true)
    (k : ℕ) :
    let system := step rtl read rom before event
    (Clocked.run (step rtl read rom) system
        (List.replicate (2 * k) (.clk false true))).isaState =
      (CoreIsa.step funcOp rom)^[k] (Isa.State.initial system.ram) := by
  intro system
  exact isaState_run_of_afterReset read rom (step_isReset hreset) k

/-- A reset while the execute phase of a linking jump is stalled. -/
theorem run_after_reset_refines_core_mid_instruction :
    let rom : Memory := fun _ => 0x008000ef#32
    let before : System :=
      Clocked.run (step rtl .registered rom)
        (afterReset 0#32 fun index => index)
        [.clk false true, .clk false false]
    let system := step rtl .registered rom before (.clk true true)
    (Clocked.run (step rtl .registered rom) system
        (List.replicate 6 (.clk false true))).isaState =
      (CoreIsa.step funcOp rom)^[3] (Isa.State.initial system.ram) := by
  intro rom before system
  exact run_after_reset_refines_core .registered rom before rfl 3

/-! ## Stalled runs -/

section Stalled

variable {read : RomRead} {rom : Memory}

theorem run_edge_replicate (system : System) (n : ℕ) :
    Clocked.run (edge read rom) system (List.replicate n true) =
      Clocked.run (step rtl read rom) system
        (List.replicate n (.clk false true)) := by
  induction n generalizing system with
  | zero => rfl
  | succ n ih => exact ih _

theorem run_upToStalls {system : System} {enables : List Bool}
    (hphase : system.main.executeCycle = false)
    (hsettles :
      Clocked.Along (edge read rom) (StallSettles read rom) system
        enables) :
    UpToStalls read rom (Clocked.run (edge read rom) system enables)
      (Clocked.run (edge read rom) system
        (List.replicate (enables.count true) true)) := by
  rw [← List.filter_beq]
  apply Clocked.run_filter_related _ _ (.fetch hphase rfl rfl) hsettles
  · intro stalled plain enable hkeep hrel
    obtain rfl : enable = true := by simpa using hkeep
    exact hrel.enabled_edge.1
  · intro stalled plain enable hdrop hside hrel
    obtain rfl : enable = false := by simpa using hdrop
    exact hrel.stalled_edge hside

theorem UpToStalls.executeCycle_eq {stalled plain : System}
    (hrel : UpToStalls read rom stalled plain) :
    stalled.main.executeCycle = plain.main.executeCycle := by
  cases hrel with
  | fetch _ hmain _ => rw [hmain]
  | execute hphase hphase' _ _ _ => rw [hphase, hphase']

theorem UpToStalls.isaState_eq {stalled plain : System}
    (hrel : UpToStalls read rom stalled plain)
    (hphase : stalled.main.executeCycle = false) :
    stalled.isaState = plain.isaState := by
  cases hrel with
  | fetch _ hmain hram => rw [show stalled.toBench = plain.toBench from
      Bench.ext hmain hram]
  | execute hphase' _ _ _ _ =>
      rw [hphase] at hphase'
      contradiction

end Stalled

/-- Two enabled edges make one instruction, however many stalled edges lie
between them: after an even number of enabled edges the core is in the state
of the interpreter, and after an odd number the next enabled edge takes it
there. -/
theorem stalled_run_refines_core (read : RomRead) (rom : Memory)
    (romOut : Word) (ram : Memory) (enables : List Bool)
    (hsettles :
      Clocked.Along (edge read rom) (StallSettles read rom)
        (afterReset romOut ram) enables) :
    let now := Clocked.run (edge read rom) (afterReset romOut ram) enables
    let retired := fun k : ℕ =>
      (CoreIsa.step funcOp rom)^[k] (Isa.State.initial ram)
    (enables.count true % 2 = 0 →
      now.main.executeCycle = false ∧
        now.isaState = retired (enables.count true / 2)) ∧
    (enables.count true % 2 = 1 →
      now.main.executeCycle = true ∧
        (now.edge read rom true).isaState =
          retired (enables.count true / 2 + 1)) := by
  intro now retired
  have hplain : ∀ k, Clocked.run (edge read rom) (afterReset romOut ram)
      (List.replicate (2 * k) true) =
        (twoCycles rtl read rom)^[k] (afterReset romOut ram) := by
    intro k
    rw [run_edge_replicate, Clocked.run_replicate_two_mul]
    rfl
  have hretired : ∀ k,
      ((twoCycles rtl read rom)^[k] (afterReset romOut ram)).isaState =
        retired k := by
    intro k
    rw [isaState_iterate_twoCycles_core k rfl, isaState_afterReset]
  have hfetch : ∀ k,
      ((twoCycles rtl read rom)^[k]
        (afterReset romOut ram)).main.executeCycle = false := by
    intro k
    exact iterate_twoCycles_executeCycle k rfl
  have hstart : (afterReset romOut ram).main.executeCycle = false := rfl
  have hrel := run_upToStalls hstart hsettles
  constructor
  · intro heven
    have hcount :
        enables.count true = 2 * (enables.count true / 2) := by omega
    rw [hcount, hplain] at hrel
    have hphase : now.main.executeCycle = false := by
      rw [hrel.executeCycle_eq, hfetch]
    refine ⟨hphase, ?_⟩
    rw [hrel.isaState_eq hphase, hretired]
  · intro hodd
    have hcount :
        enables.count true = 2 * (enables.count true / 2) + 1 := by omega
    rw [hcount, run_edge_replicate, Clocked.run_replicate_succ,
      ← run_edge_replicate, hplain] at hrel
    have hphase : now.main.executeCycle = true := by
      rw [hrel.executeCycle_eq]
      exact (posedgeClk_executeCycle true).trans (by rw [hfetch]; rfl)
    refine ⟨hphase, ?_⟩
    rw [(hrel.enabled_edge).2.2 hphase, ← hretired,
      Function.iterate_succ_apply']
    rfl

theorem stalled_run_refines_core_addi :
    let rom : Memory := fun _ => 0x00110093#32
    let now := Clocked.run (edge .registered rom)
      (afterReset 0#32 fun _ => 0#32) [false, true, false, true]
    now.isaState =
      (CoreIsa.step funcOp rom)^[1] (Isa.State.initial fun _ => 0#32) := by
  intro rom now
  have hstall : ∀ system : System,
      system.imemData .registered rom = 0x00110093#32 →
        system.StallSettles .registered rom false := by
    intro system hword _ _
    rw [hword]
    apply settles_of_not_read
    · decide
    · intro hop
      contradiction
  have hgo : ∀ system : System, system.StallSettles .registered rom true := by
    intro system henable
    contradiction
  have hfetch : (afterReset 0#32 fun _ => 0#32).StallSettles .registered rom
      false := by
    intro _ hphase
    contradiction
  exact ((stalled_run_refines_core .registered rom 0#32 (fun _ => 0#32)
    [false, true, false, true]
    ⟨hfetch, hgo _, hstall _ rfl, hgo _, trivial⟩).1 rfl).2

/-! ## The latency of the instruction memory -/

section Latency

variable {arith : Arithmetic} {rom : Memory} {fast slow : System}

/-- The same core and data, read without and with an output register on the
instruction memory.  The words on the two ports differ in fetch phases. -/
structure SameUpToLatency (rom : Memory) (fast slow : System) : Prop where
  main : slow.main = fast.main
  ram : slow.ram = fast.ram
  fetched : slow.Fetched rom

theorem SameUpToLatency.imemData_eq
    (hsame : SameUpToLatency rom fast slow)
    (hphase : fast.main.executeCycle = true) :
    slow.imemData .registered rom = fast.imemData .combinational rom := by
  have hphase' : slow.main.executeCycle = true := by
    rw [hsame.main, hphase]
  have hfetched : slow.romOut = rom slow.main.imemAddr :=
    hsame.fetched hphase'
  rw [hsame.main] at hfetched
  exact hfetched

theorem SameUpToLatency.dmemWe_eq
    (hsame : SameUpToLatency rom fast slow) :
    slow.dmemWe .registered rom = fast.dmemWe .combinational rom := by
  unfold dmemWe Main.dmemWe
  rw [hsame.main]
  cases hphase : fast.main.executeCycle with
  | false => rw [Bool.and_false, Bool.and_false]
  | true => rw [hsame.imemData_eq hphase]

theorem SameUpToLatency.posedgeClk
    (hsame : SameUpToLatency rom fast slow) (enable : Bool) :
    SameUpToLatency rom
      (fast.posedgeClk arith .combinational rom false enable)
      (slow.posedgeClk arith .registered rom false enable) := by
  have hnext :
      (slow.posedgeClk arith .registered rom false enable).Fetched rom :=
    fetched_posedgeClk enable
  cases hphase : fast.main.executeCycle with
  | false =>
      have hphase' : slow.main.executeCycle = false := by
        rw [hsame.main, hphase]
      refine ⟨?_, ?_, hnext⟩
      · rw [posedgeClk_fetch hphase, posedgeClk_fetch hphase', hsame.main]
      · rw [posedgeClk_fetch hphase, posedgeClk_fetch hphase', hsame.ram]
  | true =>
      have hbench : slow.toBench = fast.toBench :=
        Bench.ext hsame.main hsame.ram
      have hedge :
          (slow.posedgeClk arith .registered rom false enable).toBench =
            (fast.posedgeClk arith .combinational rom false
              enable).toBench := by
        unfold System.posedgeClk
        rw [hbench, hsame.imemData_eq hphase]
      exact ⟨congrArg Bench.main hedge, congrArg Bench.ram hedge, hnext⟩

theorem SameUpToLatency.posedgeClk_reset
    (hsame : SameUpToLatency rom fast slow) (enable : Bool) :
    SameUpToLatency rom
      (fast.posedgeClk arith .combinational rom true enable)
      (slow.posedgeClk arith .registered rom true enable) := by
  have hmain : ∀ read (system : System),
      (system.posedgeClk arith read rom true enable).main =
        Main.afterReset := by
    intro read system
    exact Main.always_areset rfl
  refine ⟨?_, ?_, fetched_afterReset (hmain _ _)⟩
  · rw [hmain, hmain]
  · have hbench : slow.toBench = fast.toBench :=
      Bench.ext hsame.main hsame.ram
    unfold System.posedgeClk Bench.posedgeClk
    rw [hbench]
    cases hphase : fast.main.executeCycle with
    | false => simp [Main.dmemWe, hphase]
    | true => rw [hsame.imemData_eq hphase]

theorem SameUpToLatency.step (hsame : SameUpToLatency rom fast slow)
    (event : Event) :
    SameUpToLatency rom (step arith .combinational rom fast event)
      (step arith .registered rom slow event) := by
  cases event with
  | clk areset enable =>
      cases areset with
      | false => exact hsame.posedgeClk enable
      | true => exact hsame.posedgeClk_reset enable
  | aresetRise =>
      have hmain : ∀ read (system : System),
          (system.posedgeAreset arith read rom).main = Main.afterReset := by
        intro read system
        exact Main.always_areset rfl
      refine ⟨?_, hsame.ram, fetched_afterReset (hmain _ _)⟩
      exact (hmain _ _).trans (hmain _ _).symm

end Latency

/-- Over any interleaving of edges, stalls and resets, the core and its data
memory go through the same states for both ways of reading the instruction
memory, and write the same data to the same addresses at the same edges. -/
theorem rom_latency_transparent (arith : Arithmetic) (rom : Memory)
    (romOut romOut' : Word) (ram : Memory) (events : List Event) :
    let fast := Clocked.run (step arith .combinational rom)
      (afterReset romOut ram) events
    let slow := Clocked.run (step arith .registered rom)
      (afterReset romOut' ram) events
    slow.main = fast.main ∧ slow.ram = fast.ram ∧
      slow.dmemWe .registered rom = fast.dmemWe .combinational rom ∧
      (fast.dmemWe .combinational rom = true →
        slow.main.dmemAddr arith (slow.imemData .registered rom) =
            fast.main.dmemAddr arith (fast.imemData .combinational rom) ∧
          slow.main.dmemWdata (slow.imemData .registered rom) =
            fast.main.dmemWdata (fast.imemData .combinational rom)) := by
  intro fast slow
  have hstart :
      SameUpToLatency rom (afterReset romOut ram)
        (afterReset romOut' ram) :=
    ⟨rfl, rfl, fetched_afterReset rfl⟩
  have hsame : SameUpToLatency rom fast slow :=
    Clocked.run_related_of_step
      (fun _ _ event hrel => hrel.step event) hstart events
  refine ⟨hsame.main, hsame.ram, hsame.dmemWe_eq, ?_⟩
  intro hwrite
  have hphase : fast.main.executeCycle = true := by
    rw [dmemWe, Main.dmemWe, Bool.and_eq_true] at hwrite
    exact hwrite.2
  rw [hsame.imemData_eq hphase, hsame.main]
  exact ⟨rfl, rfl⟩

/-! ## The writes on the data port -/

section Writes

variable {read : RomRead} {rom : Memory} {system : System}

/-- The address and the data which the data memory takes at an event. -/
def busWrite (arith : Arithmetic) (read : RomRead) (rom : Memory)
    (system : System) : Event → Option (Word × Word)
  | .clk _ _ =>
      if system.dmemWe read rom then
        some (system.main.dmemAddr arith (system.imemData read rom),
          system.main.dmemWdata (system.imemData read rom))
      else none
  | .aresetRise => none

theorem busWrite_fetch (hphase : system.main.executeCycle = false)
    (event : Event) : system.busWrite rtl read rom event = none := by
  cases event with
  | clk areset enable => simp [busWrite, dmemWe, Main.dmemWe, hphase]
  | aresetRise => rfl

theorem busWrite_execute (hphase : system.main.executeCycle = true)
    (areset enable : Bool) :
    system.busWrite rtl read rom (.clk areset enable) =
      CoreIsa.store system.isaState.regs (system.imemData read rom) := by
  rw [Bench.isaState_regs, ← rtl_implements.store_eq]
  simp only [busWrite, dmemWe, Main.dmemWe, hphase, Bool.and_true]

end Writes

/-- After a reset in any state, the writes on the data port in the first `2k`
enabled edges are the stores among the first `k` instructions, in order. -/
theorem busWrites_eq_stores (read : RomRead) (rom : Memory)
    (before : System) {event : Event} (hreset : event.isReset = true)
    (k : ℕ) :
    let system := step rtl read rom before event
    Clocked.emitted (step rtl read rom) (busWrite rtl read rom) system
        (List.replicate (2 * k) (.clk false true)) =
      Clocked.emitted (fun state (_ : Unit) => CoreIsa.step funcOp rom state)
        (fun state _ =>
          CoreIsa.store state.regs (rom (state.pc >>> 2)))
        (Isa.State.initial system.ram) (List.replicate k ()) := by
  intro system
  have hmain : system.main = Main.afterReset := step_isReset hreset
  have hphase : system.main.executeCycle = false := by
    rw [hmain]
    rfl
  have hinitial : system.isaState = Isa.State.initial system.ram := by
    rw [eq_afterReset hmain]
    exact isaState_afterReset _ _
  rw [← hinitial]
  refine Clocked.emitted_two_steps
    (fun system : System => system.main.executeCycle = false)
    (fun system : System => system.isaState) ?_ ?_ ?_ ?_ k hphase
  · intro now hfetch
    exact twoCycles_executeCycle hfetch
  · intro now hfetch
    exact isaState_twoCycles_core hfetch
  · intro now hfetch
    exact busWrite_fetch hfetch _
  · intro now hfetch
    have hexecute :
        (now.posedgeClk rtl read rom false true).main.executeCycle =
          true := by
      rw [posedgeClk_executeCycle, hfetch]
      rfl
    have hstate :
        (now.posedgeClk rtl read rom false true).isaState = now.isaState :=
      isaState_posedgeClk_fetch hfetch true
    rw [step, busWrite_execute hexecute, hstate, imemData_after_fetch hfetch]
    rfl

theorem busWrites_eq_stores_twice :
    let rom : Memory := fun index =>
      if index = 0#32 then 0x00102223#32 else 0xffdff06f#32
    let system := step rtl .combinational rom
      (afterReset 0#32 fun _ => 0#32) .aresetRise
    Clocked.emitted (step rtl .combinational rom)
        (busWrite rtl .combinational rom) system
        (List.replicate 6 (.clk false true)) =
      Clocked.emitted (fun state (_ : Unit) => CoreIsa.step funcOp rom state)
        (fun state _ =>
          CoreIsa.store state.regs (rom (state.pc >>> 2)))
        (Isa.State.initial system.ram) (List.replicate 3 ()) := by
  intro rom system
  exact busWrites_eq_stores .combinational rom _ rfl 3

end System
end RiscvLogism
