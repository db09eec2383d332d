import RiscvLogism.BitFields
import RiscvLogism.RegisterModel
import Mathlib.Data.List.Chain

/-!
# The assertions bound to the program counter

`PC_assert.sv` samples the ports of `PC` at every rising clock edge and
relates consecutive samples.  It does not see `halt`, to which the program
counter reacts.  On traces without reset the two assertions hold exactly as
long as no enabled edge is halted, up to the case of a halted load of the
address which the counter already holds.
-/

namespace RiscvLogism
namespace PcAssert

/-- The values at one rising edge: the inputs of `PC`, the value which the
latch `areset_prev` took at the preceding falling edge, and the program
counter before the edge. -/
structure Sample where
  inputs : PC.Inputs
  aresetPrev : Bool
  pcAddress : Word

def pc4Check (now next : Sample) : Prop :=
  (!now.inputs.areset && now.inputs.pcEnable && !now.inputs.loadAddress) =
      true →
    next.pcAddress = now.pcAddress + 4#32

/-- `disable iff`: the attempt is abandoned when either signal is high at
one of its two edges. -/
def disabled (now next : Sample) : Bool :=
  now.inputs.areset || now.aresetPrev || next.inputs.areset ||
    next.aresetPrev

def loadCheck (now next : Sample) : Prop :=
  disabled now next = false →
    (now.inputs.pcEnable && now.inputs.loadAddress) = true →
      next.pcAddress = now.inputs.addressToLoad

/-- The samples along a sequence of rising edges.  An edge carries the inputs
of `PC` and the value of `areset_prev`. -/
def samples (pc : PC) : List (PC.Inputs × Bool) → List Sample
  | [] => []
  | (inputs, aresetPrev) :: rest =>
      { inputs := inputs
        aresetPrev := aresetPrev
        pcAddress := pc.pcAddress } :: samples (pc.always inputs) rest

def AssertionsHold (pc : PC) (edges : List (PC.Inputs × Bool)) : Prop :=
  (samples pc edges).IsChain pc4Check ∧ (samples pc edges).IsChain loadCheck

def AresetLow (edges : List (PC.Inputs × Bool)) : Prop :=
  ∀ edge ∈ edges, edge.1.areset = false ∧ edge.2 = false

/-- An enabled edge is not halted, or it would load the address which the
counter holds anyway. -/
def HaltHarmless (now : Sample) : Prop :=
  (now.inputs.pcEnable && now.inputs.halt) = true →
    now.inputs.loadAddress = true ∧
      now.inputs.addressToLoad = now.pcAddress

theorem checks_iff (pc : PC) (now next : Sample)
    (hnow : now.pcAddress = pc.addr)
    (hnext : next.pcAddress = (pc.always now.inputs).addr)
    (hareset : now.inputs.areset = false)
    (hlow : disabled now next = false) :
    pc4Check now next ∧ loadCheck now next ↔ HaltHarmless now := by
  cases hgo : now.inputs.pcEnable && !now.inputs.halt with
  | true =>
      rw [PC.always_advance pc hareset hgo] at hnext
      rw [Bool.and_eq_true, Bool.not_eq_true'] at hgo
      obtain ⟨henable, hhalt⟩ := hgo
      have hharmless : HaltHarmless now := by
        simp [HaltHarmless, hhalt]
      refine iff_of_true ⟨?_, ?_⟩ hharmless
      · intro hcheck
        have hload : now.inputs.loadAddress = false := by
          simpa [hareset, henable] using hcheck
        rw [hnext, hload, hnow]
        rfl
      · intro _ hcheck
        have hload : now.inputs.loadAddress = true := by
          simpa [henable] using hcheck
        rw [hnext, hload]
        rfl
  | false =>
      rw [PC.always_hold hareset hgo, ← hnow] at hnext
      cases henable : now.inputs.pcEnable with
      | false => simp [pc4Check, loadCheck, HaltHarmless, henable]
      | true =>
          have hhalt : now.inputs.halt = true := by
            simpa [henable] using hgo
          cases hload : now.inputs.loadAddress with
          | false =>
              have hmoved : now.pcAddress ≠ now.pcAddress + 4#32 := by
                intro hsame
                have hfour :=
                  (BitFields.add_eq_self_iff _ _).mp hsame.symm
                contradiction
              simp [pc4Check, loadCheck, HaltHarmless, henable, hhalt,
                hload, hareset, hnext, hmoved]
          | true =>
              simp [pc4Check, loadCheck, HaltHarmless, henable, hhalt,
                hload, hlow, hnext, eq_comm]

/-- On a trace without reset the assertions hold if and only if every edge
which has a successor is harmless. -/
theorem assertionsHold_iff (pc : PC) (edges : List (PC.Inputs × Bool))
    (hlow : AresetLow edges) :
    AssertionsHold pc edges ↔
      (samples pc edges).IsChain fun now _ => HaltHarmless now := by
  unfold AssertionsHold
  induction edges generalizing pc with
  | nil => simp [samples]
  | cons edge rest ih =>
      cases rest with
      | nil => simp [samples]
      | cons edge' rest' =>
          have hrest : AresetLow (edge' :: rest') :=
            fun later hlater => hlow later (List.mem_cons_of_mem _ hlater)
          have hfirst := hlow edge (List.mem_cons_self ..)
          have hsecond :=
            hlow edge' (List.mem_cons_of_mem _ (List.mem_cons_self ..))
          have htail := ih (pc.always edge.1) hrest
          let now : Sample := ⟨edge.1, edge.2, pc.pcAddress⟩
          let next : Sample :=
            ⟨edge'.1, edge'.2, (pc.always edge.1).pcAddress⟩
          have henabled : disabled now next = false := by
            simp [now, next, disabled, hfirst, hsecond]
          have hpair := checks_iff pc now next rfl rfl hfirst.1 henabled
          simp only [samples, List.isChain_cons_cons] at htail ⊢
          rw [← hpair, ← htail]
          constructor
          · rintro ⟨⟨hpc4, hpc4s⟩, hload, hloads⟩
            exact ⟨⟨hpc4, hload⟩, hpc4s, hloads⟩
          · rintro ⟨⟨hpc4, hload⟩, hpc4s, hloads⟩
            exact ⟨⟨hpc4, hpc4s⟩, hload, hloads⟩

def twoEdges (loadAddress halt : Bool) : List (PC.Inputs × Bool) :=
  let inputs : PC.Inputs :=
    { pcEnable := true
      areset := false
      addressToLoad := 0x32#32
      loadAddress := loadAddress
      halt := halt }
  [(inputs, false), (inputs, false)]

theorem assertionsHold_iff_twoEdges :
    AssertionsHold { addr := 0x24#32 } (twoEdges true false) ↔
      (samples { addr := 0x24#32 } (twoEdges true false)).IsChain
        fun now _ => HaltHarmless now :=
  assertionsHold_iff _ _ (by unfold AresetLow twoEdges; simp)

/-- The last check of the test bench, followed by one more edge. -/
theorem not_assertionsHold_halted_load :
    AresetLow (twoEdges true true) ∧
      ¬ AssertionsHold { addr := 0x24#32 } (twoEdges true true) := by
  constructor
  · unfold AresetLow twoEdges
    simp
  · rintro ⟨_, hload⟩
    have hcheck := (List.isChain_cons_cons.mp hload).1
    have hloaded : (0x24#32 : Word) = 0x32#32 := hcheck rfl rfl
    contradiction

end PcAssert
end RiscvLogism
