import Unstack.Stack

/-!
# The evaluation stack in machine words

A stack that is handed on from call to call counts in words of 64 bits, and adds to its depth without a
check. It does what the stack of numbers does while the depth fits into a word. Values beyond that get
no registers, and the depth starts again from zero.
-/

namespace Unstack

/-- The depth of an evaluation stack and the greatest depth it has had, in words. -/
structure WordStack where
  depth : UInt64 := 0
  peak : UInt64 := 0
deriving DecidableEq, Repr

/-- The registers of the slots from `first` on and below `stop`. -/
def Register.between (first stop : UInt64) : List Register :=
  Register.run first.toNat (stop.toNat - first.toNat)

namespace WordStack

/-- A stack that already holds `depth` values. -/
def ofDepth (depth : UInt64) : WordStack := ⟨depth, depth⟩

/-- The stack at another depth. -/
def setDepth (stack : WordStack) (depth : UInt64) : WordStack := ⟨depth, max stack.peak depth⟩

/-- Takes `count` values and gives their registers, the deepest first; there must be so many. -/
def pop? (stack : WordStack) (count : Nat) : Option (List Register × WordStack) :=
  if count ≤ stack.depth.toNat then
    let rest := stack.depth - .ofNat count
    some (Register.between rest stack.depth, { stack with depth := rest })
  else none

/-- Puts `count` values on the stack and gives their registers, the deepest first. The sum may not fit
into a word; it then wraps around. -/
def push (stack : WordStack) (count : Nat) : List Register × WordStack :=
  let grown := stack.depth + .ofNat count
  (Register.between stack.depth grown, stack.setDepth grown)

/-- Drops everything. -/
def clear (stack : WordStack) : WordStack := { stack with depth := 0 }

end WordStack

end Unstack
