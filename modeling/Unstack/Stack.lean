import Unstack.Text.Numeral

/-!
# The evaluation stack

Lowering needs only the depth of the evaluation stack: the slot at depth `n` is register `n`. The
deepest that a stack has been is kept as well, since it is the number of registers needed.
-/

namespace Unstack

/-- A register, which stands for one slot of the evaluation stack; the bottom slot is number 0. -/
structure Register where
  index : Nat
deriving DecidableEq, Repr

/-- The name of a register. -/
def Register.name (register : Register) : String := "v" ++ Numeral.decimal register.index

/-- The registers of `count` slots, the deepest of them `base`. -/
def Register.run (base count : Nat) : List Register := (List.range' base count).map Register.mk

/-- The depth of an evaluation stack and the greatest depth it has had. -/
structure EvalStack where
  depth : Nat := 0
  peak : Nat := 0
deriving DecidableEq, Repr

namespace EvalStack

/-- A stack that already holds `depth` values. -/
def ofDepth (depth : Nat) : EvalStack := ⟨depth, depth⟩

/-- The stack at another depth. -/
def setDepth (stack : EvalStack) (depth : Nat) : EvalStack := ⟨depth, max stack.peak depth⟩

/-- Takes `count` values and gives their registers, the deepest first; there must be so many. -/
def pop? (stack : EvalStack) (count : Nat) : Option (List Register × EvalStack) :=
  if count ≤ stack.depth then
    some (Register.run (stack.depth - count) count, { stack with depth := stack.depth - count })
  else none

/-- Puts `count` values on the stack and gives their registers, the deepest first. -/
def push (stack : EvalStack) (count : Nat) : List Register × EvalStack :=
  (Register.run stack.depth count, stack.setDepth (stack.depth + count))

/-- Drops everything. -/
def clear (stack : EvalStack) : EvalStack := { stack with depth := 0 }

end EvalStack

end Unstack
