import RiscvLogism.BoardProgram
import RiscvLogism.ResetDeterminism
import RiscvLogism.SocModel

/-!
# Sharing the memories with the processor system

The processor system may write to the memories at any edge.  As long as it
leaves the words alone which the core fetches and loads, the core does what it
does on the board without it, whatever becomes of all other words and of the
accesses which collide there.
-/

namespace RiscvLogism
/-- Only a load depends on the word on the data port. -/
theorem Main.always_of_not_memtoReg (arith : Arithmetic) (main : Main)
    {inputs : Main.Inputs}
    (hload : (controlUnit inputs.imemData).memtoReg = false)
    (dmemRdata : Word) :
    main.always arith { inputs with dmemRdata := dmemRdata } =
      main.always arith inputs := by
  have hdata : main.writeData arith inputs.imemData dmemRdata =
      main.writeData arith inputs.imemData inputs.dmemRdata := by
    simp [Main.writeData, hload]
  have hregfile :
      main.regfileInputs arith { inputs with dmemRdata := dmemRdata } =
        main.regfileInputs arith inputs := by
    simp only [Main.regfileInputs, hdata]
  rw [Main.always, Main.always, hregfile]
  rfl

namespace Soc

/-! ## Reserved words -/

/-- Words of the memories which belong to the core. -/
structure Reserved where
  program : De1.MemoryIndex → Prop
  data : De1.MemoryIndex → Prop

/-- The processor system writes to no word of the core, and the second ports
are not being reset. -/
structure Hps.Respects (reserved : Reserved) (hps : Hps) : Prop where
  program : ∀ index, reserved.program index →
    hps.program.writes (index.setWidth 12) = false
  data : ∀ index, reserved.data index → hps.data.writes index = false
  running : hps.resetReq2 = false

def Event.Respects (reserved : Reserved) : Event → Prop
  | .clk _ hps => hps.Respects reserved
  | .key1Fall => True

def Event.board : Event → Board.Event
  | .clk key1 _ => .clk key1
  | .key1Fall => .key1Fall

/-- The core uses its own words only.  Of the data memory it uses the word
which is read at the end of a fetch phase if a load follows. -/
structure Uses (reserved : Reserved) (board : Board) : Prop where
  fetched : reserved.program (De1.imemAddr board.main)
  loaded : board.main.executeCycle = false →
    (controlUnit
        (board.programMemory.mem (De1.imemAddr board.main))).memtoReg = true →
      reserved.data (De1.dmemAddr board.main board.imemData)

/-- The core in the system and the core on the board alone are in the same
state, and its words are the same. -/
structure Follows (reserved : Reserved) (soc : Soc) (board : Board) :
    Prop where
  main : soc.main = board.main
  imemData : soc.imemData = board.imemData
  program : ∀ index, reserved.program index →
    soc.programMemory.mem (index.setWidth 12) = board.programMemory.mem index
  data : ∀ index, reserved.data index →
    soc.dataMemory.mem index = board.dataMemory.mem index
  loaded : board.main.executeCycle = true →
    (controlUnit board.imemData).memtoReg = true →
      soc.dmemRdata = board.dmemRdata

section Edges

variable {mode : ReadDuringWrite} {hps : Hps}

theorem dataMemory_posedgeClk (soc : Soc) (key1 : Bool)
    (hrunning : hps.resetReq2 = false) {index : De1.MemoryIndex}
    (hleft : hps.data.writes index = false) :
    (soc.posedgeClk mode key1 hps).dataMemory.mem index =
      if De1.dmemWe soc.main soc.imemData &&
          De1.dmemAddr soc.main soc.imemData == index then
        De1.dmemWdata soc.main soc.imemData
      else soc.dataMemory.mem index := by
  have hmem : (soc.posedgeClk mode key1 hps).dataMemory.mem index = _ :=
    DualPort.mem_posedgeClk mode soc.dataMemory hps.dataCollision hleft
  have hwrites : (soc.dataPort2 hps.resetReq2).writes index =
      (De1.dmemWe soc.main soc.imemData &&
        De1.dmemAddr soc.main soc.imemData == index) := by
    rw [hrunning]
    simp [Port.writes, Port.clocken, Port.wren, dataPort2]
  rw [hmem, hwrites]
  exact if_congr Iff.rfl (lanes_all _ _) rfl

theorem imemData_posedgeClk (soc : Soc) (key1 : Bool)
    (hrunning : hps.resetReq2 = false)
    (hleft : hps.program.writes ((De1.imemAddr soc.main).setWidth 12) =
      false) :
    (soc.posedgeClk mode key1 hps).imemData =
      soc.programMemory.mem ((De1.imemAddr soc.main).setWidth 12) := by
  have hclock : (soc.programPort2 hps.resetReq2).clocken = true := by
    simp [Port.clocken, programPort2, hrunning]
  exact DualPort.readdata2_posedgeClk mode soc.programMemory
    hps.programCollision hclock rfl hleft

theorem dmemRdata_posedgeClk_fetch (soc : Soc) (key1 : Bool)
    (hphase : soc.main.executeCycle = false)
    (hrunning : hps.resetReq2 = false)
    (hleft : hps.data.writes (De1.dmemAddr soc.main soc.imemData) = false) :
    (soc.posedgeClk mode key1 hps).dmemRdata =
      soc.dataMemory.mem (De1.dmemAddr soc.main soc.imemData) := by
  have hclock : (soc.dataPort2 hps.resetReq2).clocken = true := by
    simp [Port.clocken, dataPort2, hrunning]
  have hread : (soc.dataPort2 hps.resetReq2).wren = false := by
    simp [Port.wren, dataPort2, De1.dmemWe, hphase]
  exact DualPort.readdata2_posedgeClk mode soc.dataMemory
    hps.dataCollision hclock hread hleft

theorem board_dataMemory_posedgeClk (board : Board) (key1 : Bool)
    (index : De1.MemoryIndex) :
    (board.posedgeClk mode key1).dataMemory.mem index =
      if De1.dmemWe board.main board.imemData &&
          De1.dmemAddr board.main board.imemData == index then
        De1.dmemWdata board.main board.imemData
      else board.dataMemory.mem index := by
  have hwren : OnchipMemory.wren board.dataInputs =
      De1.dmemWe board.main board.imemData := by
    simp [OnchipMemory.wren, Board.dataInputs]
  have hmem : (board.posedgeClk mode key1).dataMemory.mem =
      if De1.dmemWe board.main board.imemData then
        Function.update board.dataMemory.mem
          (De1.dmemAddr board.main board.imemData)
          (De1.dmemWdata board.main board.imemData)
      else board.dataMemory.mem := by
    rw [← hwren]
    rfl
  rw [hmem]
  cases hwe : De1.dmemWe board.main board.imemData with
  | false => rfl
  | true =>
      simp only [if_true, Function.update_apply, Bool.true_and, beq_iff_eq]
      exact if_congr eq_comm rfl rfl

end Edges

namespace Follows

variable {reserved : Reserved} {soc : Soc} {board : Board}
  (hfollows : Follows reserved soc board)

include hfollows

theorem always_eq (key1 : Bool) :
    De1.always soc.main (soc.de1Inputs key1) =
      De1.always board.main (board.de1Inputs key1) := by
  rw [hfollows.main]
  cases hload : (controlUnit board.imemData).memtoReg with
  | true =>
      apply Main.always_eq_of_sameWhenExecuting
      refine ⟨rfl, rfl, ?_⟩
      intro hphase
      exact ⟨hfollows.imemData, hfollows.loaded hphase hload⟩
  | false =>
      have hinputs : (soc.de1Inputs key1).mainInputs =
          { (board.de1Inputs key1).mainInputs with
            dmemRdata := soc.dmemRdata } := by
        simp [de1Inputs, Board.de1Inputs, De1.Inputs.mainInputs,
          De1.Inputs.areset, hfollows.imemData]
      rw [De1.always, hinputs]
      exact Main.always_of_not_memtoReg _ _ hload _

theorem posedgeClk (mode : ReadDuringWrite) (key1 : Bool)
    (huses : Uses reserved board) {hps : Hps}
    (hrespects : hps.Respects reserved) :
    Follows reserved (soc.posedgeClk mode key1 hps)
      (board.posedgeClk mode key1) := by
  have hclosed : (soc.programPort2 hps.resetReq2).write = false := rfl
  have hfetched : hps.program.writes
      ((De1.imemAddr soc.main).setWidth 12) = false := by
    rw [hfollows.main]
    exact hrespects.program _ huses.fetched
  constructor
  · exact hfollows.always_eq key1
  · refine (imemData_posedgeClk soc key1 hrespects.running hfetched).trans ?_
    rw [hfollows.main]
    exact hfollows.program _ huses.fetched
  · intro index hindex
    have hmem : (soc.posedgeClk mode key1 hps).programMemory.mem
        (index.setWidth 12) = _ :=
      DualPort.mem_posedgeClk mode soc.programMemory hps.programCollision
        (hrespects.program index hindex)
    rw [hmem, Port.not_writes_of_not_write hclosed]
    exact hfollows.program index hindex
  · intro index hindex
    rw [dataMemory_posedgeClk soc key1 hrespects.running
      (hrespects.data index hindex), board_dataMemory_posedgeClk,
      hfollows.main, hfollows.imemData, hfollows.data index hindex]
  · intro hexecute hload
    cases key1 with
    | false =>
        rw [Board.main_posedgeClk_reset] at hexecute
        contradiction
    | true =>
        have hphase : board.main.executeCycle = false := by
          rw [Board.executeCycle_posedgeClk] at hexecute
          simpa using hexecute
        rw [Board.posedgeClk_fetch hphase] at hload ⊢
        have hreserved := huses.loaded hphase hload
        have haddr : De1.dmemAddr soc.main soc.imemData =
            De1.dmemAddr board.main board.imemData := by
          rw [hfollows.main, hfollows.imemData]
        have hleft := hrespects.data _ hreserved
        rw [← haddr] at hleft
        rw [dmemRdata_posedgeClk_fetch soc true
          (hfollows.main ▸ hphase) hrespects.running hleft, haddr]
        exact hfollows.data _ hreserved

/-- A press of the key reaches no memory. -/
theorem negedgeKey1 : Follows reserved soc.negedgeKey1 board.negedgeKey1 := by
  constructor
  · exact hfollows.always_eq false
  · exact hfollows.imemData
  · exact hfollows.program
  · exact hfollows.data
  · intro hexecute
    rw [Board.main_negedgeKey1] at hexecute
    contradiction

theorem step (mode : ReadDuringWrite) (huses : Uses reserved board)
    {event : Event} (hrespects : event.Respects reserved) :
    Follows reserved (Soc.step mode soc event)
      (Board.step mode board event.board) := by
  cases event with
  | clk key1 hps => exact hfollows.posedgeClk mode key1 huses hrespects
  | key1Fall => exact hfollows.negedgeKey1

end Follows

theorem Follows.run {reserved : Reserved} (mode : ReadDuringWrite)
    {soc : Soc} {board : Board} (hfollows : Follows reserved soc board)
    {events : List Event}
    (hrespects : ∀ event ∈ events, event.Respects reserved)
    (huses : Clocked.Along (Board.step mode)
      (fun board _ => Uses reserved board) board
      (events.map Event.board)) :
    Follows reserved (Clocked.run (Soc.step mode) soc events)
      (Clocked.run (Board.step mode) board (events.map Event.board)) := by
  induction events generalizing soc board with
  | nil => exact hfollows
  | cons event rest ih =>
      have hnext := hfollows.step mode huses.1
        (hrespects event (List.mem_cons_self ..))
      refine ih hnext ?_ huses.2
      intro later hlater
      exact hrespects later (List.mem_cons_of_mem _ hlater)

theorem board_edges (edges : List Hps) :
    (edges.map (Event.clk true)).map Event.board =
      List.replicate edges.length (.clk true) := by
  rw [List.map_map]
  exact List.map_const' ..

theorem respects_edges {reserved : Reserved} {edges : List Hps}
    (hquiet : ∀ hps ∈ edges, hps.Respects reserved) :
    ∀ event ∈ edges.map (Event.clk true), event.Respects reserved := by
  intro event hevent
  obtain ⟨hps, hmem, rfl⟩ := List.mem_map.mp hevent
  exact hquiet hps hmem

/-! ## The core alone -/

/-- The board in the state of the system; its program memory repeats the one
of the system, which has half its size. -/
def alone (soc : Soc) : Board where
  main := soc.main
  dataMemory := { mem := soc.dataMemory.mem, readdata := soc.dmemRdata }
  programMemory :=
    { mem := fun index => soc.programMemory.mem (index.setWidth 12)
      readdata := soc.imemData }

theorem follows_alone (reserved : Reserved) (soc : Soc) :
    Follows reserved soc soc.alone where
  main := rfl
  imemData := rfl
  program := fun _ _ => rfl
  data := fun _ _ => rfl
  loaded := fun _ _ => rfl

/-- Whatever the processor system does over any interleaving of clock edges
and presses of the key, as long as it leaves some words of the memories alone,
the second ports are not being reset and the core on the board without it
would fetch and load only these words, the core does the same with it as
without it, and these words are the same. -/
theorem hps_does_not_disturb (mode : ReadDuringWrite) (reserved : Reserved)
    (soc : Soc) {events : List Event}
    (hrespects : ∀ event ∈ events, event.Respects reserved)
    (huses : Clocked.Along (Board.step mode)
      (fun board _ => Uses reserved board) soc.alone
      (events.map Event.board)) :
    let now := Clocked.run (Soc.step mode) soc events
    let alone := Clocked.run (Board.step mode) soc.alone
      (events.map Event.board)
    now.main = alone.main ∧ now.imemData = alone.imemData ∧
      (∀ index, reserved.program index →
        now.programMemory.mem (index.setWidth 12) =
          alone.programMemory.mem index) ∧
      ∀ index, reserved.data index →
        now.dataMemory.mem index = alone.dataMemory.mem index := by
  intro now alone
  have hnow : Follows reserved now alone :=
    (follows_alone reserved soc).run mode hrespects huses
  exact ⟨hnow.main, hnow.imemData, hnow.program, hnow.data⟩

/-- The first word of the program is an increment; the word which is being
written is another one. -/
theorem hps_does_not_disturb_addi :
    let soc : Soc :=
      { main := Main.afterReset
        dataMemory :=
          { mem := fun _ => 7#32, readdata := 0#32, readdata2 := 0#32 }
        programMemory :=
          { mem := fun _ => 0x00108093#32, readdata := 0#32
            readdata2 := 0#32 } }
    let events := [.clk true (.load 5#12 0#32), .clk true (.load 9#12 0#32)]
    let now := Clocked.run (Soc.step .newData) soc events
    let alone := Clocked.run (Board.step .newData) soc.alone
      (events.map Event.board)
    now.main = alone.main ∧ now.imemData = alone.imemData := by
  intro soc events now alone
  let reserved : Reserved :=
    { program := fun index => index = 0#13, data := fun _ => False }
  have hrespects : ∀ event ∈ events, event.Respects reserved := by
    intro event hevent
    simp only [events, List.mem_cons, List.not_mem_nil, or_false] at hevent
    rcases hevent with rfl | rfl
    · refine ⟨?_, fun _ hdata => hdata.elim, rfl⟩
      rintro _ rfl
      rfl
    · refine ⟨?_, fun _ hdata => hdata.elim, rfl⟩
      rintro _ rfl
      rfl
  have huses : Clocked.Along (Board.step .newData)
      (fun board _ => Uses reserved board) soc.alone
      (events.map Event.board) := by
    have hsecond : De1.imemAddr (Board.step .newData soc.alone
        (.clk true)).main = 0#13 := by
      decide +kernel
    have hfirst : De1.imemAddr soc.alone.main = 0#13 := by decide +kernel
    refine ⟨⟨hfirst, ?_⟩, ⟨⟨hsecond, ?_⟩, trivial⟩⟩
    · intro _ hload
      have hword : (controlUnit 0x00108093#32).memtoReg = true := hload
      exact absurd hword (by decide)
    · intro hfetch
      contradiction
  obtain ⟨hmain, himem, _⟩ :=
    hps_does_not_disturb .newData reserved soc hrespects huses
  exact ⟨hmain, himem⟩

/-! ## Loading a program -/

/-- The lanes and the data which the processor system writes to a word of the
program memory. -/
def Event.programWrite (index : BitVec 12) :
    Event → Option (BitVec 4 × Word)
  | .clk _ hps =>
      if hps.program.writes index then
        some (hps.program.byteenable, hps.program.writedata)
      else none
  | .key1Fall => none

/-- The program which a sequence of events leaves in the memory. -/
def loaded (soc : Soc) (events : List Event) (index : BitVec 12) : Word :=
  (events.filterMap (Event.programWrite index)).foldl
    (fun old write => lanes write.1 old write.2)
    (soc.programMemory.mem index)

theorem programMemory_step (mode : ReadDuringWrite) (soc : Soc)
    (event : Event) (index : BitVec 12) :
    (step mode soc event).programMemory.mem index =
      match event.programWrite index with
      | some write => lanes write.1 (soc.programMemory.mem index) write.2
      | none => soc.programMemory.mem index := by
  cases event with
  | clk key1 hps =>
      have hclosed : (soc.programPort2 hps.resetReq2).writes index = false :=
        Port.not_writes_of_not_write rfl index
      have hmem : (step mode soc (.clk key1 hps)).programMemory.mem index =
          if hps.program.writes index then
            lanes hps.program.byteenable (soc.programMemory.mem index)
              hps.program.writedata
          else soc.programMemory.mem index := by
        simp [step, posedgeClk, DualPort.posedgeClk, hclosed]
      rw [hmem, Event.programWrite]
      cases hps.program.writes index <;> rfl
  | key1Fall => rfl

/-- No write of the processor system to the program memory is lost, repeated
or reordered, whatever the core does in the meantime. -/
theorem programMemory_run (mode : ReadDuringWrite) (soc : Soc)
    (events : List Event) :
    (Clocked.run (step mode) soc events).programMemory.mem =
      loaded soc events := by
  funext index
  induction events generalizing soc with
  | nil => rfl
  | cons event rest ih =>
      rw [Clocked.run_cons, ih, loaded, loaded, programMemory_step]
      cases hwrite : event.programWrite index with
      | some write => simp [hwrite]
      | none => simp [hwrite]

def Reserved.everything : Reserved where
  program := fun _ => True
  data := fun _ => True

theorem uses_everything (mode : ReadDuringWrite) (board : Board)
    (events : List Board.Event) :
    Clocked.Along (Board.step mode)
      (fun board _ => Uses Reserved.everything board) board events := by
  induction events generalizing board with
  | nil => trivial
  | cons event rest ih => exact ⟨⟨trivial, fun _ _ => trivial⟩, ih _⟩

theorem main_step_isReset (mode : ReadDuringWrite) (soc : Soc)
    {event : Event} (hreset : event.board.isReset = true) :
    (step mode soc event).main = Main.afterReset := by
  cases event with
  | clk key1 hps =>
      obtain rfl : key1 = false := by
        simpa [Event.board, Board.Event.isReset] using hreset
      exact Main.always_areset rfl
  | key1Fall => exact Main.always_areset rfl

/-- A reset finds the board as it is if it was reset before. -/
theorem alone_negedgeKey1 {soc : Soc} (hmain : soc.main = Main.afterReset) :
    soc.alone.negedgeKey1 = soc.alone := by
  have hreset : De1.always soc.alone.main (soc.alone.de1Inputs false) =
      soc.alone.main := (Main.always_areset rfl).trans hmain.symm
  rw [Board.negedgeKey1, hreset]

/-- The processor system may load a program at any time, also while the core
runs.  After a reset the core executes what was loaded, as the board alone
executes this image, while the processor system does not write and the second
ports are not being reset. -/
theorem loaded_program_runs (mode : ReadDuringWrite) (before : Soc)
    (loading : List Event) {event : Event}
    (hreset : event.board.isReset = true) {edges : List Hps}
    (hquiet : ∀ hps ∈ edges, hps.Respects .everything) {k : ℕ}
    (hlength : edges.length = 2 * k) :
    let soc := Clocked.run (step mode) before (loading ++ [event])
    let now := Clocked.run (step mode) soc (edges.map (.clk true))
    let image : De1.MemoryIndex → Word := fun index =>
      loaded before (loading ++ [event]) (index.setWidth 12)
    let final := (Delayed.step image)^[k]
      (Delayed.State.initial soc.dataMemory.mem soc.imemData)
    now.main.pcAddress = final.pc ∧
      now.main.regfile.isaRegs = final.regs ∧
      now.dataMemory.mem = final.mem := by
  intro soc now image final
  have hsoc : soc = step mode
      (Clocked.run (step mode) before loading) event :=
    List.foldl_concat ..
  have hmain : soc.main = Main.afterReset := by
    rw [hsoc]
    exact main_step_isReset mode _ hreset
  have hprogram : soc.alone.programMemory.mem = image := by
    funext index
    change soc.programMemory.mem (index.setWidth 12) = _
    rw [show soc.programMemory.mem = _ from programMemory_run mode _ _]
  have hedges := board_edges edges
  rw [hlength] at hedges
  have hfollows : Follows .everything now _ :=
    (follows_alone .everything soc).run mode (respects_edges hquiet)
      (uses_everything mode _ _)
  have hrun := Board.run_refines_delayed_of_reset mode soc.alone
    (show Board.Event.key1Fall.isReset = true from rfl) k
  rw [show Board.step mode soc.alone .key1Fall = soc.alone from
    alone_negedgeKey1 hmain, hprogram] at hrun
  rw [hedges] at hfollows
  refine ⟨?_, ?_, ?_⟩
  · rw [hfollows.main]
    exact congrArg Delayed.State.pc hrun
  · rw [hfollows.main]
    exact congrArg Delayed.State.regs hrun
  · refine Eq.trans ?_ (congrArg Delayed.State.mem hrun)
    funext index
    exact hfollows.data index trivial

/-- An increment of `x1`, loaded while the core is running. -/
theorem loaded_program_runs_addi :
    let before : Soc :=
      { main := { pc := { addr := 8#32 }, regfile := { regs := fun _ => 7#32 }
                  executeCycle := true }
        dataMemory :=
          { mem := fun _ => 7#32, readdata := 0#32, readdata2 := 0#32 }
        programMemory :=
          { mem := fun _ => 0#32, readdata := 0#32, readdata2 := 0#32 } }
    let idle : Hps := { Hps.load 0#12 0#32 with program := .idle 12 }
    let loading := [.clk true (.load 0#12 0x00108093#32), .key1Fall]
    let now := Clocked.run (step .oldData)
      (Clocked.run (step .oldData) before loading)
      [.clk true idle, .clk true idle]
    now.main.pcAddress = 4#32 ∧ now.main.regfile.readRegOut 1#5 = 1#32 := by
  intro before idle loading now
  have hquiet : ∀ hps ∈ [idle, idle], hps.Respects .everything := by
    intro hps hmem
    obtain rfl : hps = idle := by simpa using hmem
    exact ⟨fun _ _ => rfl, fun _ _ => rfl, rfl⟩
  obtain ⟨hpc, hregs, _⟩ := loaded_program_runs .oldData before
    [.clk true (.load 0#12 0x00108093#32)]
    (show (Event.board .key1Fall).isReset = true from rfl) hquiet
    (show [idle, idle].length = 2 * 1 from rfl)
  constructor
  · refine hpc.trans ?_
    decide +kernel
  · refine (congrArg (fun regs => Isa.Regs.get regs 1#5) hregs).trans ?_
    decide +kernel

end Soc
end RiscvLogism
