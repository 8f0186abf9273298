import Unstack.Proofs.Agreement
import Unstack.Proofs.Machine

/-!
# Lowered code runs as the body does

A body runs on an evaluation stack, its listing on registers. On a depth-consistent body the stack
before an instruction always has the depth of the instruction, and the registers hold it slot by slot
as long as each instruction is lowered at its depth. Registers above the depth may hold anything.
-/

namespace Unstack

universe u v

/-- A run of registers is its deepest one and a run above it. -/
theorem Register.run_succ (base count : Nat) :
    Register.run base (count + 1) = ⟨base⟩ :: Register.run (base + 1) count := by
  simp [Register.run, List.range'_succ]

/-- A run has as many registers as it counts. -/
@[simp] theorem Register.length_run (base count : Nat) :
    (Register.run base count).length = count := by
  simp [Register.run]

/-- Lowering at depths keeps the instructions. -/
theorem Lowered.map_source_atDepths (method : Signature) (depths : Nat → Nat)
    (body : List Instruction) :
    (body.mapIdx fun j i => atDepth method (depths j) i).map source = body := by
  apply List.ext_getElem?
  intro j
  have hsource : ∀ i, (atDepth method (depths j) i).source = i := by
    intro i
    unfold atDepth
    cases Effect.of i method <;> rfl
  rw [List.getElem?_map, List.getElem?_mapIdx, Option.map_map]
  cases body[j]? with
  | none => rfl
  | some i => exact congrArg some (hsource i)

namespace Machine

variable {σ : Type u} {V : Type v}

/-- The operands that are on the stack, bottom first, and what is below them. -/
def take? (stack : List V) : Pops → Option (List V × List V)
  | .count required =>
    if required ≤ stack.length then
      some (stack.drop (stack.length - required), stack.take (stack.length - required))
    else none
  | .all => some ([], [])

/-- The effect of the instruction at a position. -/
def effect? (body : List Instruction) (method : Signature) (k : Nat) : Option Effect :=
  body[k]?.bind fun i => (Effect.of i method).toOption

/-- An evaluation stack, bottom first: instructions take their operands from the top and put their
results there. -/
def Storage.stack (body : List Instruction) (method : Signature) : Storage V (List V) where
  operands k stack := (effect? body method k).bind fun e => (take? stack e.pops).map (·.1)
  retire k stack results := (effect? body method k).bind fun e =>
    if results.length = e.pushes then (take? stack e.pops).map (·.2 ++ results) else none
  reset values := values
  holds stack depth := stack.length == depth

/-- Puts values into registers, all at once. -/
def write (file : Register → Option V) (registers : List Register) (values : List V) :
    Register → Option V :=
  fun register => ((registers.zip values).lookup register).or (file register)

/-- A file of registers: lowered instructions read their inputs and write their outputs. -/
def Storage.registers (code : List Lowered) : Storage V (Register → Option V) where
  operands k file := code[k]?.bind fun l => l.inputs.mapM file
  retire k file results := code[k]?.bind fun l =>
    if results.length = l.outputs.length then some (write file l.outputs results) else none
  reset values := fun register => values[register.index]?
  holds _ _ := true

/-- The lowest registers hold the stack. -/
def Holds (file : Register → Option V) (stack : List V) : Prop :=
  ∀ j value, stack[j]? = some value → file ⟨j⟩ = some value

/-- Reading the registers from a slot up to the top of the stack gives that part of the stack. -/
theorem Holds.mapM_run {file : Register → Option V} {stack : List V} (h : Holds file stack)
    (count base : Nat) (htop : base + count = stack.length) :
    (Register.run base count).mapM file = some (stack.drop base) := by
  induction count generalizing base with
  | zero =>
    rw [List.drop_of_length_le (by omega)]
    rfl
  | succ count ih =>
    have hbase : base < stack.length := by omega
    rw [Register.run_succ, List.mapM_cons, h base _ (List.getElem?_eq_getElem hbase),
      ih (base + 1) (by omega), List.drop_eq_getElem_cons hbase]
    rfl

/-- What a run of registers is given. -/
theorem lookup_run_zip (base : Nat) (values : List V) (j : Nat) :
    ((Register.run base values.length).zip values).lookup ⟨j⟩ =
      if base ≤ j then values[j - base]? else none := by
  induction values generalizing base with
  | nil => simp
  | cons value rest ih =>
    rw [List.length_cons, Register.run_succ, List.zip_cons_cons, List.lookup_cons, ih]
    by_cases hj : j = base
    · subst hj
      simp
    · have hne : ((⟨j⟩ : Register) == ⟨base⟩) = false := by simpa using hj
      rw [hne]
      by_cases hle : base + 1 ≤ j
      · have hsub : j - base = (j - (base + 1)) + 1 := by omega
        rw [if_pos hle, if_pos (by omega), hsub, List.getElem?_cons_succ]
      · rw [if_neg hle, if_neg (by omega)]

/-- Results written above a slot are held there, with the stack below it. -/
theorem Holds.write {file : Register → Option V} {stack : List V} (h : Holds file stack)
    (base : Nat) (hbase : base ≤ stack.length) (results : List V) :
    Holds (write file (Register.run base results.length) results) (stack.take base ++ results) := by
  intro j value hj
  have hlength : (stack.take base).length = base := by
    rw [List.length_take, Nat.min_eq_left hbase]
  rw [Machine.write, lookup_run_zip]
  by_cases hle : base ≤ j
  · rw [List.getElem?_append_right (by omega), hlength] at hj
    rw [if_pos hle, hj, Option.some_or]
  · rw [List.getElem?_append_left (by omega), List.getElem?_take_of_lt (by omega)] at hj
    rw [if_neg hle, Option.none_or]
    exact h j value hj

/-- Operands that fit are taken, down to the base of the effect. -/
theorem take?_of_fits (e : Effect) (stack : List V) (h : e.Fits stack.length) :
    ∃ operands, take? stack e.pops = some (operands, stack.take (e.base stack.length)) ∧
      ∀ file, Holds file stack → (e.inputs stack.length).mapM file = some operands := by
  obtain ⟨pops, pushes⟩ := e
  cases pops with
  | all => exact ⟨[], rfl, fun _ _ => rfl⟩
  | count required =>
    have hfits : required ≤ stack.length := h
    refine ⟨stack.drop (stack.length - required), if_pos hfits, fun file hfile => ?_⟩
    exact hfile.mapM_run required _ (Nat.sub_add_cancel hfits)

/-- The stack has the depth of the instruction, and the registers hold it. -/
structure Mirrors (depths : Nat → Nat) (k : Nat) (stack : List V) (file : Register → Option V) :
    Prop where
  depth : stack.length = depths k
  holds : Holds file stack

variable {body : List Instruction} {regions : List Region} {method : Signature}
  {depths : Nat → Nat}

/-- The runtime resumes at the depth of the instruction. -/
theorem depth_of_resumeDepth? (hd : DepthConsistent body regions method depths) {k count : Nat}
    {i : Instruction} (hi : body[k]? = some i)
    (h : resumeDepth? body regions i.offset = some count) : depths k = count := by
  unfold resumeDepth? at h
  cases hentry : Region.entryDepthAt regions i.offset with
  | some depth =>
    obtain rfl : depth = count := by simpa [hentry] using h
    exact hd.entry k i depth hi hentry
  | none =>
    simp only [hentry] at h
    split at h
    · rename_i hleaves
      obtain rfl : 0 = count := by simpa using h
      obtain ⟨leaving, hmem, hpop, hpush, htarget⟩ := hleaves
      obtain ⟨j, hj⟩ := List.mem_iff_getElem?.mp hmem
      have heffect : Effect.of leaving method = .ok ⟨.all, 0⟩ := by
        simp [Effect.of, Effect.popsOf, Effect.pushesOf, hpop, hpush]
      exact hd.flow j k leaving i _ hj hi ⟨leaving, i, hj, hi, .inr htarget⟩ hentry heffect
    · contradiction

/-- The effect at a position is that of the instruction there. -/
theorem effect?_eq_some {k : Nat} {i : Instruction} {e : Effect} (hi : body[k]? = some i)
    (heffect : Effect.of i method = .ok e) : effect? body method k = some e := by
  simp [effect?, hi, heffect, Except.toOption]

/-- The lowered instruction at a position is the instruction there at its depth. -/
theorem getElem?_atDepths {k : Nat} {i : Instruction} {e : Effect} (hi : body[k]? = some i)
    (heffect : Effect.of i method = .ok e) :
    (body.mapIdx fun j i => Lowered.atDepth method (depths j) i)[k]? =
      some (e.lowered (depths k) i) := by
  rw [List.getElem?_mapIdx, hi, Option.map_some, Lowered.atDepth_of_effect method _ i e heffect]

/-- Registers mirror the stack wherever control flows after results that an instruction may leave. -/
theorem mirrors_of_flow (hd : DepthConsistent body regions method depths) {k j : Nat}
    {i target : Instruction} {e : Effect} {left : List V} {file : Register → Option V}
    (hi : body[k]? = some i) (heffect : Effect.of i method = .ok e)
    (htarget : body[j]? = some target) (hflow : FlowsTo body k j)
    (hlength : left.length = e.left (depths k)) (hholds : Holds file left)
    (hentered : ∀ depth, Region.entryDepthAt regions target.offset = some depth →
      (left.length == depth) = true) : Mirrors depths j left file := by
  refine ⟨?_, hholds⟩
  cases hentry : Region.entryDepthAt regions target.offset with
  | none => rw [hlength, hd.flow k j i target e hi htarget hflow hentry heffect]
  | some depth =>
    have hdepth : left.length = depth := by simpa using hentered depth hentry
    rw [hdepth, hd.entry j target depth htarget hentry]

/-- Registers mirror the stack wherever a depth-consistent body goes. -/
theorem keeps_mirrors (hd : DepthConsistent body regions method depths)
    (meaning : Instruction → σ → List V → Reply σ V) :
    Keeps ⟨body, regions, meaning⟩ (.stack body method)
      (.registers (body.mapIdx fun j i => .atDepth method (depths j) i)) (Mirrors depths) where
  operands k i stack file hi hmirrors := by
    obtain ⟨e, heffect, hfits⟩ := hd.effect k i hi
    rw [← hmirrors.depth] at hfits
    obtain ⟨operands, htake, hread⟩ := take?_of_fits e stack hfits
    refine ⟨operands, ?_, ?_⟩
    · simp only [Storage.stack, effect?_eq_some hi heffect, Option.bind_some, htake, Option.map_some]
    · simp only [Storage.registers, getElem?_atDepths hi heffect, Option.bind_some]
      rw [← hmirrors.depth]
      exact hread file hmirrors.holds
  retire k i stack file results hi hmirrors := by
    obtain ⟨e, heffect, hfits⟩ := hd.effect k i hi
    rw [← hmirrors.depth] at hfits
    obtain ⟨operands, htake, -⟩ := take?_of_fits e stack hfits
    simp only [Storage.stack, Storage.registers, effect?_eq_some hi heffect,
      getElem?_atDepths hi heffect, Option.bind_some, Effect.lowered, Register.length_run, htake,
      Option.map_some, ← hmirrors.depth]
    by_cases hcount : results.length = e.pushes
    · rw [if_pos hcount, if_pos hcount, ← hcount]
      have hbase := e.base_le stack.length
      refine .some fun j target htarget hflow => mirrors_of_flow hd hi heffect htarget hflow ?_
        (hmirrors.holds.write _ hbase results)
      rw [List.length_append, List.length_take, Nat.min_eq_left hbase, hcount, ← hmirrors.depth]
      rfl
    · rw [if_neg hcount, if_neg hcount]
      exact .none
  reset k i values hi hdepth :=
    ⟨(depth_of_resumeDepth? hd hi hdepth).symm, fun j value hj => hj⟩
  holds _ _ := rfl

end Machine

/-- Lowering keeps the meaning of a depth-consistent body. Whatever its instructions mean, both
strategies give a listing that runs on registers as the body runs on the evaluation stack: from a
state in which the registers hold the stack, the same instructions are run with the same operands and
stores, the run ends in the same way, and until then the registers hold the stack. Only control that
flows into a handler at a depth that is not the handler's is not followed. -/
theorem lower_preserves_runs {σ : Type u} {V : Type v} {body : List Instruction}
    {regions : List Region} {method : Signature} {depths : Nat → Nat} (hw : WellFormed body regions)
    (hd : DepthConsistent body regions method depths) (strategy : Strategy)
    (meaning : Instruction → σ → List V → Machine.Reply σ V) {s : Machine.State σ (List V)}
    {r : Machine.State σ (Register → Option V)}
    (hsr : Machine.Alike body (Machine.Mirrors depths) s r) :
    ∃ listing, lower strategy body regions method = .ok listing ∧ ∀ count,
      Machine.Follows (Machine.Alike body (Machine.Mirrors depths))
        (Machine.run ⟨body, regions, meaning⟩ (.stack body method) count s)
        (Machine.run ⟨listing.instructions.map Lowered.source, regions, meaning⟩
          (.registers listing.instructions) count r) := by
  obtain ⟨i, hi⟩ := hsr.present
  have hne : body ≠ [] := List.ne_nil_of_mem (List.mem_of_getElem? hi)
  obtain ⟨registers, hlower, -⟩ := lower_at_depths strategy hw hd hne
  refine ⟨_, hlower, fun count => ?_⟩
  simp only [Lowered.map_source_atDepths]
  exact (Machine.keeps_mirrors hd meaning).run count hsr

/-- A meaning for the guarded loop: the store counts the rounds that are left, and the test of the
last round raises an exception. -/
def countdown (i : Instruction) (rounds : Nat) (operands : List Nat) : Machine.Reply Nat Nat :=
  match i.opcode.name, operands with
  | "ldc.i4.0", [] => .next rounds [rounds]
  | "brtrue.s", [1] => .resume rounds 5 operands
  | "brtrue.s", [_] => .branch (rounds - 1) [] 0
  | "pop", [_] => .next rounds []
  | "leave.s", [] => .branch rounds [] 0
  | _, _ => .finish rounds

/-- The guarded loop runs two rounds, its handler and the return. -/
example :
    (Machine.run ⟨guardedLoop, guardedLoopRegions, countdown⟩ (.stack guardedLoop procedure) 20
      ⟨0, 2, []⟩).1.map (·.source.offset) = [0, 1, 0, 1, 5, 6, 8] := by
  decide

/-- The listing of the guarded loop runs as the loop does, from an empty stack and an empty file. -/
theorem lower_preserves_runs_guardedLoop :
    WellFormed guardedLoop guardedLoopRegions ∧
      DepthConsistent guardedLoop guardedLoopRegions procedure guardedLoopDepths ∧
      Machine.Alike guardedLoop (Machine.Mirrors guardedLoopDepths)
        (⟨0, 2, []⟩ : Machine.State Nat (List Nat)) ⟨0, 2, fun _ => none⟩ ∧
      ∃ listing, lower .graphTraversal guardedLoop guardedLoopRegions procedure = .ok listing ∧
        ∀ count, Machine.Follows (Machine.Alike guardedLoop (Machine.Mirrors guardedLoopDepths))
          (Machine.run ⟨guardedLoop, guardedLoopRegions, countdown⟩ (.stack guardedLoop procedure)
            count ⟨0, 2, []⟩)
          (Machine.run ⟨listing.instructions.map Lowered.source, guardedLoopRegions, countdown⟩
            (.registers listing.instructions) count ⟨0, 2, fun _ => none⟩) := by
  have hstart : Machine.Alike guardedLoop (Machine.Mirrors guardedLoopDepths)
      (⟨0, 2, []⟩ : Machine.State Nat (List Nat)) ⟨0, 2, fun _ => none⟩ :=
    ⟨rfl, rfl, ⟨_, rfl⟩, rfl, by simp [Machine.Holds]⟩
  exact ⟨guardedLoop_wellFormed, guardedLoop_depthConsistent, hstart,
    lower_preserves_runs guardedLoop_wellFormed guardedLoop_depthConsistent .graphTraversal countdown
      hstart⟩

end Unstack
