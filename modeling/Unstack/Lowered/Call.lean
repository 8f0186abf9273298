import Unstack.Lowered
import Unstack.Stack.Word

/-!
# Lowering on a shared stack

Instructions can also be lowered by single calls on one stack, each of any method, and from any depth
that a word can hold. A call changes the stack as it goes; a fault ends it without undoing anything, and
the next call goes on with the stack as it is then.
-/

namespace Unstack

/-- What is done on a stack in place. What was changed before a fault stays changed. -/
abbrev OnStack := ExceptT LowerError (StateM WordStack)

/-- An instruction to lower, with the signature of the method in which it stands. -/
structure Call where
  method : Signature
  instruction : Instruction
deriving DecidableEq, Repr

namespace Call

/-- Takes the values of an instruction and gives the registers that are read. -/
def take (i : Instruction) : Pops → OnStack (List Register)
  | .all => do
    modify WordStack.clear
    return []
  | .count required => do
    match (← get).pop? required with
    | some (inputs, rest) =>
      set rest
      return inputs
    | none => throw (.unbalanced i.offset i.opcode.name (← get).depth.toNat required)

/-- Lowers the instruction of a call. -/
def lower (call : Call) : OnStack Lowered := do
  let effect ← Effect.of call.instruction call.method
  let inputs ← take call.instruction effect.pops
  let outputs ← modifyGet (WordStack.push · effect.pushes)
  return ⟨call.instruction, inputs, outputs⟩

/-- The result of a call on a stack, and the stack that it leaves. -/
def on (call : Call) (stack : WordStack) : Except LowerError Lowered × WordStack :=
  call.lower.run.run stack

end Call

/-- The stack that calls leave which are made one after the other, also behind a call that fails. -/
def WordStack.after (stack : WordStack) (calls : List Call) : WordStack :=
  calls.foldl (fun stack call => (call.on stack).2) stack

end Unstack
