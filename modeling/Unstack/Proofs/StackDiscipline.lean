import Unstack.Lowered.Call
import Unstack.Proofs.RegisterCount
import Mathlib.Data.List.Infix
import Mathlib.Order.Bounds.Basic

/-!
# The discipline of a shared stack

Calls that lower instructions on one stack, one after the other, keep to it whatever they are and
however many of them fail. A call checks all that can fail before it changes the stack, so that one that
fails leaves no trace. One that succeeds reads the slots on top of the stack, writes from the deepest of
these on, and leaves the depth that this gives, if a word can hold it. The peak is the greatest depth
that there has been, and so every register that was ever named is below it.

A depth that does not fit into a word wraps around: a full stack that is given one more value is empty
and names no register for it. A call adds two values at most, so that this cannot happen to a stack
whose first depth leaves room for twice as many values as there are calls.
-/

namespace Unstack

/-- An instruction leaves at most two values. -/
theorem Effect.pushes_le_two {i : Instruction} {method : Signature} {e : Effect}
    (h : Effect.of i method = .ok e) : e.pushes ≤ 2 := by
  have hpushes : Effect.pushesOf i = some e.pushes := by
    unfold Effect.of at h
    split at h
    · next hknown =>
      cases h
      exact hknown
    · cases h
  generalize e.pushes = m at hpushes
  unfold Effect.pushesOf at hpushes
  split at hpushes
  · cases hpushes
    decide
  · cases hpushes
    decide
  · cases hpushes
    decide
  · split at hpushes
    · obtain ⟨callee, -, rfl⟩ := Option.map_eq_some_iff.mp hpushes
      split
      · decide
      · decide
    · cases hpushes

namespace WordStack

/-- The stack with its counts as numbers. -/
def view (stack : WordStack) : EvalStack := ⟨stack.depth.toNat, stack.peak.toNat⟩

/-- A stack is at the depth that it was set to. -/
@[simp] theorem depth_setDepth (stack : WordStack) (depth : UInt64) :
    (stack.setDepth depth).depth = depth := rfl

/-- The peak is raised to a depth as a number is. -/
@[simp] theorem peak_setDepth (stack : WordStack) (depth : UInt64) :
    (stack.setDepth depth).peak.toNat = max stack.peak.toNat depth.toNat := by
  have hmax : (stack.setDepth depth).peak = if stack.peak ≤ depth then depth else stack.peak := rfl
  rw [hmax, Nat.max_def]
  simp only [UInt64.le_iff_toNat_le]
  split
  · rfl
  · rfl

/-- The depth is set in words as it is in numbers. -/
@[simp] theorem view_setDepth (stack : WordStack) (depth : UInt64) :
    (stack.setDepth depth).view = stack.view.setDepth depth.toNat := by
  simp [view, EvalStack.setDepth]

/-- A stack gives up the values that it holds, and is then as deep as the numbers say. -/
theorem pop?_eq (stack : WordStack) (count : Nat) :
    stack.pop? count = if count ≤ stack.depth.toNat then
      some (Register.run (stack.depth.toNat - count) count,
        { stack with depth := .ofNat (stack.depth.toNat - count) })
    else none := by
  unfold pop?
  split
  · next h =>
    have hrest : stack.depth - .ofNat count = .ofNat (stack.depth.toNat - count) := by
      rw [UInt64.ofNat_sub h, UInt64.ofNat_toNat]
    have hlt : stack.depth.toNat - count < UInt64.size :=
      Nat.lt_of_le_of_lt (Nat.sub_le _ _) stack.depth.toNat_lt
    simp only [hrest, Register.between, UInt64.toNat_ofNat_of_lt' hlt, Nat.sub_sub_self h]
  · rfl

/-- A stack takes values, and names registers for them if a word can hold the depth that they make. -/
theorem push_eq (stack : WordStack) {count : Nat} (hcount : count < UInt64.size) :
    stack.push count =
      (if stack.depth.toNat + count < UInt64.size then Register.run stack.depth.toNat count else [],
        stack.setDepth (.ofNat (stack.depth.toNat + count))) := by
  have hgrown : stack.depth + .ofNat count = .ofNat (stack.depth.toNat + count) := by
    rw [UInt64.ofNat_add, UInt64.ofNat_toNat]
  have hwraps : (UInt64.ofNat (stack.depth.toNat + count)).toNat =
      (stack.depth.toNat + count) % UInt64.size := UInt64.toNat_ofNat'
  have hlt : stack.depth.toNat < UInt64.size := stack.depth.toNat_lt
  simp only [push, hgrown, Register.between, hwraps]
  split
  · next hfits => rw [Nat.mod_eq_of_lt hfits, Nat.add_sub_cancel_left]
  · next hfull =>
    -- the sum that wraps around is not above the depth, so that the registers between them are none
    have hwrapped : (stack.depth.toNat + count) % UInt64.size =
        stack.depth.toNat + count - UInt64.size := by
      rw [Nat.mod_eq_sub_mod (Nat.not_lt.mp hfull), Nat.mod_eq_of_lt (by omega)]
    have hnone : (stack.depth.toNat + count) % UInt64.size - stack.depth.toNat = 0 := by omega
    rw [hnone]
    rfl

end WordStack

namespace Call

/-- What follows a part that succeeds starts from the stack that it left; a fault ends both. -/
theorem run_bind {α β : Type} (first : OnStack α) (next : α → OnStack β) (stack : WordStack) :
    (first >>= next).run.run stack = match first.run.run stack with
      | (.ok a, left) => (next a).run.run left
      | (.error fault, left) => (.error fault, left) := by
  simp only [ExceptT.run_bind, StateT.run_bind]
  obtain ⟨result, left⟩ := first.run.run stack
  cases result with
  | ok a => rfl
  | error fault => rfl

/-- Taking values that are not there changes nothing. -/
theorem run_take_count (i : Instruction) (required : Nat) (stack : WordStack) :
    (take i (.count required)).run.run stack = match stack.pop? required with
      | some (inputs, rest) => (.ok inputs, rest)
      | none => (.error (.unbalanced i.offset i.opcode.name stack.depth.toNat required), stack) := by
  rw [take, run_bind]
  change StateT.run (ExceptT.run (match stack.pop? required with
    | some (inputs, rest) => _
    | none => _)) stack = _
  cases stack.pop? required with
  | none => rfl
  | some taken => rfl

/-- A call lowers its instruction as a step does on numbers, and leaves the stack alone if the step
fails. Only where a word cannot hold the depth that the step leaves does it name no outputs. -/
theorem on_eq (call : Call) (stack : WordStack) :
    call.on stack = match Lowered.step call.method stack.view call.instruction with
      | .ok (l, left) =>
        (.ok { l with outputs := if left.depth < UInt64.size then l.outputs else [] },
          stack.setDepth (.ofNat left.depth))
      | .error fault => (.error fault, stack) := by
  unfold Lowered.step on lower
  cases heffect : Effect.of call.instruction call.method with
  | error fault => rfl
  | ok e =>
    have hpushes : e.pushes < UInt64.size :=
      Nat.lt_of_le_of_lt (Effect.pushes_le_two heffect) (by decide)
    obtain ⟨pops, pushes⟩ := e
    rw [run_bind]
    cases pops with
    | all =>
      change (Except.ok (⟨call.instruction, [], (stack.clear.push pushes).1⟩ : Lowered),
        (stack.clear.push pushes).2) = _
      rw [WordStack.push_eq _ hpushes]
      rfl
    | count required =>
      change StateT.run (ExceptT.run (take call.instruction (.count required) >>= _)) stack = _
      rw [run_bind, run_take_count, WordStack.pop?_eq]
      by_cases hfits : required ≤ stack.depth.toNat
      · have htaken : stack.view.pop? required =
            some (Register.run (stack.depth.toNat - required) required,
              { stack.view with depth := stack.depth.toNat - required }) := if_pos hfits
        have hlt : stack.depth.toNat - required < UInt64.size :=
          Nat.lt_of_le_of_lt (Nat.sub_le _ _) stack.depth.toNat_lt
        simp only [if_pos hfits, htaken]
        change (Except.ok (⟨call.instruction, _, (WordStack.push _ pushes).1⟩ : Lowered),
          (WordStack.push _ pushes).2) = _
        rw [WordStack.push_eq _ hpushes]
        simp only [UInt64.toNat_ofNat_of_lt' hlt]
        rfl
      · have hlacks : stack.view.pop? required = none := if_neg hfits
        simp only [if_neg hfits, hlacks]
        rfl

end Call

namespace WordStack

/-- Without calls a stack is left as it is. -/
@[simp] theorem after_nil (stack : WordStack) : stack.after [] = stack := rfl

/-- Lowering a run of code on numbers leaves the stack that calls leave on words, as long as a word can
hold the number of registers. -/
theorem view_after_of_run {method : Signature} {stack : WordStack} {code : List Instruction}
    {ls : List Lowered} {final : EvalStack} (hstack : stack.view.depth ≤ stack.view.peak)
    (hrun : Lowered.run method stack.view code = .ok (ls, final)) (hroom : final.peak < UInt64.size) :
    (stack.after (code.map (Call.mk method))).view = final := by
  induction code generalizing stack ls with
  | nil =>
    cases hrun
    rfl
  | cons i rest ih =>
    rw [Lowered.run] at hrun
    cases hstep : Lowered.step method stack.view i with
    | error fault => simp [hstep] at hrun
    | ok result =>
      obtain ⟨l, left⟩ := result
      cases hrest : Lowered.run method left rest with
      | error fault => simp [hstep, hrest] at hrun
      | ok results =>
        simp only [hstep, hrest, Except.ok.injEq, Prod.mk.injEq] at hrun
        obtain ⟨-, rfl⟩ := hrun
        have hsound := (Lowered.step_raises hstack hstep).sound
        have hgrows := ((Lowered.run_raises hsound hrest).least _).mp (Nat.le_refl _)
        have hword : left.depth < UInt64.size := Nat.lt_of_le_of_lt (Nat.le_trans hsound hgrows.1) hroom
        obtain ⟨e, -, -, -, rfl⟩ := (Lowered.step_eq_ok_iff _ _ _ _ _).mp hstep
        have hview : ((Call.mk method i).on stack).2.view =
            stack.view.setDepth (e.left stack.view.depth) := by
          rw [Call.on_eq, hstep, view_setDepth]
          exact congrArg _ (UInt64.toNat_ofNat_of_lt' hword)
        refine ih ?_ (hview ▸ hrest)
        rw [hview]
        exact hsound

/-- The `pop` of the handler fails on the empty stack, and the calls behind it go on. -/
example : (ofDepth 0).after (guardedLoop.map (Call.mk procedure)) = ⟨0, 1⟩ := by decide

end WordStack

end Unstack
