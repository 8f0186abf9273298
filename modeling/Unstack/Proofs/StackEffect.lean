import Unstack.Lowered
import Mathlib.Data.List.Basic

/-!
# One lowering step, by stack depth

An effect applied at a stack depth fixes the registers that an instruction reads and writes and the
depth that it leaves. A lowering step computes just that, and the peak of the stack only ever grows
by the depth left; so instructions that follow each other can be lowered knowing the depth before
each of them, and the peak is the least bound of all these depths.
-/

namespace Unstack

namespace Effect

/-- The stack holds all that the effect takes. -/
def Fits (e : Effect) (depth : Nat) : Prop :=
  match e.pops with
  | .count required => required ≤ depth
  | .all => True

/-- The depth of the stack once the operands are taken. -/
def base (e : Effect) (depth : Nat) : Nat :=
  match e.pops with
  | .count required => depth - required
  | .all => 0

/-- The depth of the stack that the effect leaves. -/
def left (e : Effect) (depth : Nat) : Nat := e.base depth + e.pushes

/-- The registers that are read at a depth; emptying the stack reads none. -/
def inputs (e : Effect) (depth : Nat) : List Register :=
  match e.pops with
  | .count required => Register.run (depth - required) required
  | .all => []

/-- An instruction with this effect in register form at a depth. -/
def lowered (e : Effect) (depth : Nat) (i : Instruction) : Lowered :=
  ⟨i, e.inputs depth, Register.run (e.base depth) e.pushes⟩

instance (e : Effect) (depth : Nat) : Decidable (e.Fits depth) :=
  match e with
  | ⟨.count required, _⟩ => inferInstanceAs (Decidable (required ≤ depth))
  | ⟨.all, _⟩ => inferInstanceAs (Decidable True)

/-- Taking operands never deepens the stack. -/
theorem base_le (e : Effect) (depth : Nat) : e.base depth ≤ depth := by
  obtain ⟨pops, pushes⟩ := e
  cases pops with
  | all => exact Nat.zero_le _
  | count required => exact Nat.sub_le _ _

/-- An effect is not known exactly if it is not known what is taken or what is left, and the fault says
of which instruction. -/
theorem of_eq_error_iff (i : Instruction) (method : Signature) (e : LowerError) :
    of i method = .error e ↔
      (popsOf i method = none ∨ pushesOf i = none) ∧
        e = .unknownEffect i.offset i.opcode.name := by
  unfold of
  cases popsOf i method with
  | none => simp [eq_comm]
  | some pops =>
    cases pushesOf i with
    | none => simp [eq_comm]
    | some pushes => simp

end Effect

/-- A stack is at the depth that it was set to. -/
@[simp] theorem EvalStack.depth_setDepth (stack : EvalStack) (depth : Nat) :
    (stack.setDepth depth).depth = depth := rfl

/-- The peak is raised to a depth that is set. -/
@[simp] theorem EvalStack.peak_setDepth (stack : EvalStack) (depth : Nat) :
    (stack.setDepth depth).peak = max stack.peak depth := rfl

/-- A stack that is at its depth already is unchanged, as long as its peak is not below it. -/
theorem EvalStack.setDepth_self (stack : EvalStack) (h : stack.depth ≤ stack.peak) :
    stack.setDepth stack.depth = stack := by
  simp [EvalStack.setDepth, Nat.max_eq_left h]

namespace Lowered

/-- A step succeeds exactly if the effect is known and fits; it then leaves what the effect says. -/
theorem step_eq_ok_iff (method : Signature) (stack : EvalStack) (i : Instruction) (l : Lowered)
    (left : EvalStack) :
    step method stack i = .ok (l, left) ↔
      ∃ e, Effect.of i method = .ok e ∧ e.Fits stack.depth ∧ l = e.lowered stack.depth i ∧
        left = stack.setDepth (e.left stack.depth) := by
  unfold step
  cases heffect : Effect.of i method with
  | error e => simp
  | ok e =>
    obtain ⟨pops, pushes⟩ := e
    cases pops with
    | all =>
      simp [EvalStack.clear, EvalStack.push, EvalStack.setDepth, Effect.Fits, Effect.lowered,
        Effect.left, Effect.base, Effect.inputs, eq_comm]
    | count required =>
      by_cases hfits : required ≤ stack.depth
      · simp [EvalStack.pop?, EvalStack.push, EvalStack.setDepth, Effect.Fits, Effect.lowered,
          Effect.left, Effect.base, Effect.inputs, hfits, eq_comm]
      · simp [EvalStack.pop?, Effect.Fits, hfits]

/-- A step fails exactly if the effect is not known, or takes more than there is. -/
theorem step_eq_error_iff (method : Signature) (stack : EvalStack) (i : Instruction)
    (e : LowerError) :
    step method stack i = .error e ↔
      Effect.of i method = .error e ∨
        ∃ required pushes, Effect.of i method = .ok ⟨.count required, pushes⟩ ∧
          stack.depth < required ∧
          e = .unbalanced i.offset i.opcode.name stack.depth required := by
  unfold step
  cases heffect : Effect.of i method with
  | error e => simp
  | ok e =>
    obtain ⟨pops, pushes⟩ := e
    cases pops with
    | all => simp
    | count required =>
      by_cases hfits : required ≤ stack.depth
      · simp [EvalStack.pop?, hfits, Nat.not_lt.mpr hfits]
      · simp [EvalStack.pop?, hfits, Nat.not_le.mp hfits, eq_comm]

/-- An instruction in register form at a depth. -/
def atDepth (method : Signature) (depth : Nat) (i : Instruction) : Lowered :=
  match Effect.of i method with
  | .ok e => e.lowered depth i
  | .error _ => ⟨i, [], []⟩

/-- A known effect decides the register form. -/
theorem atDepth_of_effect (method : Signature) (depth : Nat) (i : Instruction) (e : Effect)
    (h : Effect.of i method = .ok e) : atDepth method depth i = e.lowered depth i := by
  simp [atDepth, h]

/-- All depths before and after the instructions are at most `bound`, when `depths` gives the depth
before each of them. -/
def DepthsWithin (method : Signature) (depths : Nat → Nat) (code : List Instruction) (bound : Nat) :
    Prop :=
  ∀ j i, code[j]? = some i →
    depths j ≤ bound ∧ ∀ e, Effect.of i method = .ok e → e.left (depths j) ≤ bound

/-- Depths of a first instruction and of the ones behind it. -/
theorem depthsWithin_cons (method : Signature) (depths : Nat → Nat) (i : Instruction)
    (rest : List Instruction) (e : Effect) (heffect : Effect.of i method = .ok e) (bound : Nat) :
    DepthsWithin method depths (i :: rest) bound ↔
      depths 0 ≤ bound ∧ e.left (depths 0) ≤ bound ∧
        DepthsWithin method (fun j => depths (j + 1)) rest bound := by
  constructor
  · intro h
    obtain ⟨hbefore, hafter⟩ := h 0 i rfl
    exact ⟨hbefore, hafter e heffect, fun j i' hi' => h (j + 1) i' hi'⟩
  · rintro ⟨hbefore, hafter, hrest⟩ j i' hi'
    cases j with
    | zero =>
      obtain rfl : i = i' := by simpa using hi'
      refine ⟨hbefore, fun e' he' => ?_⟩
      obtain rfl : e = e' := by simpa [heffect] using he'
      exact hafter
    | succ j => exact hrest j i' hi'

/-- Instructions that follow each other, each leaving the depth before the next, are lowered at
these depths; the peak is the least bound of the depths on the way. -/
theorem run_at_depths (method : Signature) (depths : Nat → Nat) (code : List Instruction)
    (stack : EvalStack) (hstart : code ≠ [] → stack.depth = depths 0)
    (hpeak : stack.depth ≤ stack.peak)
    (hcode : ∀ j i, code[j]? = some i → ∃ e, Effect.of i method = .ok e ∧ e.Fits (depths j) ∧
      (j + 1 < code.length → depths (j + 1) = e.left (depths j))) :
    ∃ final, run method stack code =
        .ok (code.mapIdx fun j i => atDepth method (depths j) i, final) ∧
      (∀ last, code.getLast? = some last → ∃ e, Effect.of last method = .ok e ∧
        final.depth = e.left (depths (code.length - 1))) ∧
      ∀ bound, final.peak ≤ bound ↔
        stack.peak ≤ bound ∧ DepthsWithin method depths code bound := by
  induction code generalizing stack depths with
  | nil =>
    refine ⟨stack, rfl, by simp, fun bound => ?_⟩
    simp [DepthsWithin]
  | cons i rest ih =>
    obtain ⟨e, heffect, hfits, hnext⟩ := hcode 0 i rfl
    have hdepth : stack.depth = depths 0 := hstart (List.cons_ne_nil _ _)
    have hstep : step method stack i =
        .ok (e.lowered (depths 0) i, stack.setDepth (e.left (depths 0))) :=
      (step_eq_ok_iff _ _ _ _ _).mpr ⟨e, heffect, by rwa [hdepth], by rw [hdepth], by rw [hdepth]⟩
    obtain ⟨final, hrun, hlast, hbound⟩ := ih (fun j => depths (j + 1))
      (stack.setDepth (e.left (depths 0)))
      (fun hrest => (hnext (by simpa using List.length_pos_iff.mpr hrest)).symm)
      (Nat.le_max_right _ _)
      (fun j i' hi' => by
        obtain ⟨e', heffect', hfits', hnext'⟩ := hcode (j + 1) i' hi'
        exact ⟨e', heffect', hfits', fun hj => hnext' (by simpa using hj)⟩)
    refine ⟨final, ?_, ?_, fun bound => ?_⟩
    · rw [run, hstep]
      simp only [hrun, List.mapIdx_cons, atDepth_of_effect method (depths 0) i e heffect]
    · intro last hl
      cases rest with
      | nil =>
        obtain rfl : i = last := by simpa using hl
        have hfinal : final = stack.setDepth (e.left (depths 0)) := by
          simpa [run] using hrun.symm
        exact ⟨e, heffect, by rw [hfinal]; rfl⟩
      | cons i' rest => exact hlast last (by simpa using hl)
    · rw [hbound, depthsWithin_cons method depths i rest e heffect]
      rw [EvalStack.peak_setDepth, Nat.max_le, and_assoc]
      constructor
      · rintro ⟨hp, hl, hrest⟩
        exact ⟨hp, by omega, hl, hrest⟩
      · rintro ⟨hp, -, hl, hrest⟩
        exact ⟨hp, hl, hrest⟩

end Lowered

end Unstack
