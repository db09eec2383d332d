import Mathlib.Data.Nat.Notation
import Mathlib.Logic.Function.Basic
import Mathlib.Tactic.SplitIfs

/-!
# Parts of drawn circuits

Comparators, encoders, decoders, splitters and registers as a schematic
editor offers them.  A part is a function of what is on its inputs; the output
of a part which drives nothing is an option.  This file is independent of any
particular circuit.
-/

namespace Parts

variable {w n : ℕ}

/-- The `=` output. -/
def comparator (x y : BitVec w) : Bool := x == y

/-- A splitter which joins single bits, the lowest first. -/
abbrev splitter (bits : List Bool) : BitVec bits.length :=
  BitVec.ofBoolListLE bits

/-- The number of the highest active line. -/
def priorityEncoder : List Bool → Option ℕ
  | [] => none
  | line :: lines =>
      match priorityEncoder lines with
      | some number => some (number + 1)
      | none => if line then some 0 else none

def decoder (select line : BitVec n) : Bool := line == select

/-- What a register holds after a rising clock edge. -/
def register (clear enable : Bool) (d q : BitVec w) : BitVec w :=
  if clear then 0#w else if enable then d else q

/-! ## Registers -/

theorem register_open (enable : Bool) (d q : BitVec w) :
    register false enable d q = if enable then d else q := rfl

/-- Registers whose enables are the lines of one decoder behave as a memory
with one write port. -/
theorem registers_of_decoder {Line : Type*} (number : Line → BitVec n)
    (select : BitVec n) (write : Bool) (d : BitVec w)
    (q : Line → BitVec w) (line : Line) :
    register false (decoder select (number line) && write) d (q line) =
      if number line = select ∧ write = true then d else q line := by
  rw [register_open, decoder]
  by_cases hline : number line = select
  · simp [hline]
  · simp [hline]

end Parts
