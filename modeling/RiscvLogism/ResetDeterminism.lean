import RiscvLogism.ClockedMachine
import RiscvLogism.CoreModel

/-!
# What the core cannot remember

Two runs of the core which are reset together, are stalled together and see
the same words in their execute phases are equal from the first reset on,
whatever the core held at power-up and whatever the memory ports show in the
fetch phases.
-/

namespace RiscvLogism
namespace Main

/-- The inputs of two runs at one event agree as far as the phase of the core
demands. -/
def SameWhenExecuting (main : Main) (inputs inputs' : Main.Inputs) : Prop :=
  inputs.areset = inputs'.areset ∧ inputs.enable = inputs'.enable ∧
    (main.executeCycle = true →
      inputs.imemData = inputs'.imemData ∧
        inputs.dmemRdata = inputs'.dmemRdata)

theorem always_eq_of_sameWhenExecuting (arith : Arithmetic) (main : Main)
    {inputs inputs' : Main.Inputs}
    (hsame : main.SameWhenExecuting inputs inputs') :
    main.always arith inputs = main.always arith inputs' := by
  obtain ⟨hareset, henable, hwords⟩ := hsame
  cases hreset : inputs.areset with
  | true =>
      rw [always_areset hreset, always_areset (hareset.symm.trans hreset)]
  | false =>
      cases hphase : main.executeCycle with
      | false =>
          rw [always_fetch hreset hphase,
            always_fetch (hareset.symm.trans hreset) hphase, henable]
      | true =>
          obtain ⟨himem, hdmem⟩ := hwords hphase
          have heq : inputs = inputs' := by
            cases inputs
            cases inputs'
            simp_all
          rw [heq]

theorem run_eq_of_sameWhenExecuting (arith : Arithmetic)
    (powerUp powerUp' : Main) {first first' : Main.Inputs}
    (hfirst : first.areset = true) (hfirst' : first'.areset = true)
    {events events' : List Main.Inputs}
    (hpaired :
      Clocked.Paired (always arith) SameWhenExecuting
        (powerUp.always arith first) events events') :
    Clocked.run (always arith) powerUp (first :: events) =
      Clocked.run (always arith) powerUp' (first' :: events') := by
  have hstart :
      powerUp.always arith first = powerUp'.always arith first' := by
    rw [always_areset hfirst, always_areset hfirst']
  refine Clocked.run_related ?_ hstart hpaired
  rintro main main' inputs inputs' hsame rfl
  exact always_eq_of_sameWhenExecuting arith main hsame

theorem dmem_eq_of_sameWhenExecuting (arith : Arithmetic) (main : Main)
    {inputs inputs' : Main.Inputs}
    (hsame : main.SameWhenExecuting inputs inputs') :
    main.dmemWe inputs.imemData = main.dmemWe inputs'.imemData ∧
      (main.dmemWe inputs.imemData = true →
        main.dmemAddr arith inputs.imemData =
            main.dmemAddr arith inputs'.imemData ∧
          main.dmemWdata inputs.imemData =
            main.dmemWdata inputs'.imemData) := by
  cases hphase : main.executeCycle with
  | false =>
      have hclosed : ∀ word, main.dmemWe word = false := by
        intro word
        rw [dmemWe, hphase, Bool.and_false]
      constructor
      · rw [hclosed, hclosed]
      · intro hwrite
        rw [hclosed] at hwrite
        contradiction
  | true =>
      obtain ⟨himem, _⟩ := hsame.2.2 hphase
      rw [himem]
      exact ⟨rfl, fun _ => ⟨rfl, rfl⟩⟩

/-- From the first reset on, the two runs agree on everything the core
stores and on everything it writes to the data memory. -/
theorem reset_hides_history (powerUp powerUp' : Main)
    {first first' : Main.Inputs}
    (hfirst : first.areset = true) (hfirst' : first'.areset = true)
    {events events' : List Main.Inputs}
    (hpaired :
      Clocked.Paired (always rtl) SameWhenExecuting
        (powerUp.always rtl first) events events') :
    let now := Clocked.run (always rtl) powerUp (first :: events)
    let now' := Clocked.run (always rtl) powerUp' (first' :: events')
    now.pcAddress = now'.pcAddress ∧
      now.imemAddr = now'.imemAddr ∧
      now.executeCycle = now'.executeCycle ∧
      (∀ index, now.regfile.regs index = now'.regfile.regs index) ∧
      ∀ inputs inputs', now.SameWhenExecuting inputs inputs' →
        now.dmemWe inputs.imemData = now'.dmemWe inputs'.imemData ∧
          (now.dmemWe inputs.imemData = true →
            now.dmemAddr rtl inputs.imemData =
                now'.dmemAddr rtl inputs'.imemData ∧
              now.dmemWdata inputs.imemData =
                now'.dmemWdata inputs'.imemData) := by
  intro now now'
  have heq : now = now' :=
    run_eq_of_sameWhenExecuting rtl powerUp powerUp' hfirst hfirst' hpaired
  rw [← heq]
  refine ⟨rfl, rfl, rfl, fun _ => rfl, ?_⟩
  intro inputs inputs' hsame
  exact dmem_eq_of_sameWhenExecuting rtl now hsame

theorem reset_hides_history_of_one_fetch :
    let powerUp : Main :=
      { pc := { addr := 0x40#32 }
        regfile := { regs := fun _ => 7#32 }
        executeCycle := true }
    let first : Main.Inputs := ⟨true, true, 0x00100093#32, 1#32⟩
    let first' : Main.Inputs := ⟨true, false, 0#32, 2#32⟩
    let fetch : Main.Inputs := ⟨false, true, 0x00100093#32, 3#32⟩
    let fetch' : Main.Inputs := ⟨false, true, 0#32, 4#32⟩
    let now := Clocked.run (always rtl) powerUp [first, fetch]
    let now' := Clocked.run (always rtl) afterReset [first', fetch']
    now.pcAddress = now'.pcAddress ∧
      now.imemAddr = now'.imemAddr ∧
      now.executeCycle = now'.executeCycle ∧
      (∀ index, now.regfile.regs index = now'.regfile.regs index) ∧
      ∀ inputs inputs', now.SameWhenExecuting inputs inputs' →
        now.dmemWe inputs.imemData = now'.dmemWe inputs'.imemData ∧
          (now.dmemWe inputs.imemData = true →
            now.dmemAddr rtl inputs.imemData =
                now'.dmemAddr rtl inputs'.imemData ∧
              now.dmemWdata inputs.imemData =
                now'.dmemWdata inputs'.imemData) := by
  intro powerUp first first' fetch fetch'
  have hsame :
      (powerUp.always rtl first).SameWhenExecuting fetch fetch' := by
    refine ⟨rfl, rfl, ?_⟩
    intro hphase
    rw [always_areset rfl] at hphase
    contradiction
  exact reset_hides_history powerUp afterReset rfl rfl ⟨hsame, trivial⟩

end Main
end RiscvLogism
