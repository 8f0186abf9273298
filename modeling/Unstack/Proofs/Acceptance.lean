import Unstack.Lowering.Forward
import Unstack.Proofs.Construction
import Unstack.Proofs.StackEffect

/-!
# Both strategies accept the same shapes

The graph looks for branches that dangle before it looks at regions. The forward pass looks at
regions first, and at the targets of a branch only once it has lowered the branch. Apart from that
order the two refuse the same bodies: the pass finds no fault of shape in a body that has a graph, and
fails on every body that has none. It then names the fault of the graph, or one that it meets before
it: a boundary that dangles, or an instruction that it cannot lower.
-/

namespace Unstack

/-- The faults that a single instruction can have: its effect is not known, or it takes more than
there is. -/
inductive StackFault (i : Instruction) : LowerError → Prop
  | unknownEffect : StackFault i (.unknownEffect i.offset i.opcode.name)
  | unbalanced (depth required : Nat) (h : depth < required) :
    StackFault i (.unbalanced i.offset i.opcode.name depth required)

/-- A step fails with a fault of its instruction. -/
theorem Lowered.stackFault_of_step {method : Signature} {stack : EvalStack} {i : Instruction}
    {e : LowerError} (h : Lowered.step method stack i = .error e) : StackFault i e := by
  rcases (Lowered.step_eq_error_iff method stack i e).mp h with hunknown | ⟨required, _, -, hlt, rfl⟩
  · obtain ⟨-, rfl⟩ := (Effect.of_eq_error_iff i method e).mp hunknown
    exact .unknownEffect
  · exact .unbalanced stack.depth required hlt

namespace Forward

/-- An offset is among the starts exactly if the test for an instruction start finds it. -/
theorem contains_starts (body : List Instruction) (offset : Offset) :
    (starts body).contains offset = isStart body offset := by
  rw [Bool.eq_iff_iff, isStart_iff]
  simp [starts]

/-- The pass looks for the boundary that dangles by the rules. -/
theorem danglingBoundary?_eq {body : List Instruction} {stop : Offset}
    (hstop : endOfBody? body = some stop) (regions : List Region) :
    danglingBoundary? (starts body) stop regions = Graph.danglingBoundary? body regions := by
  rw [danglingBoundary?, Graph.danglingBoundary?, hstop]
  congr
  funext boundary
  rw [contains_starts, Bool.eq_iff_iff]
  simp [and_comm, ne_comm]

/-- Lowering a body with instructions looks for a boundary that dangles and then lowers them. -/
theorem lower_of_ne_nil {body : List Instruction} (hne : body ≠ []) (regions : List Region)
    (method : Signature) :
    lower body regions method =
      match Graph.danglingBoundary? body regions with
      | some boundary => .error (.malformed (.danglingBoundary boundary))
      | none =>
        (lowerFrom (starts body) regions method {} body).map fun (ls, final) => ⟨ls, final.peak⟩ := by
  unfold lower
  cases hstop : endOfBody? body with
  | none => exact absurd (by simpa [endOfBody?] using hstop) hne
  | some stop =>
    have hsame := danglingBoundary?_eq hstop regions
    cases hfound : Graph.danglingBoundary? body regions with
    | some boundary => simp only [hsame, hfound]
    | none => simp only [hsame, hfound]

/-- What the pass knows behind an instruction that has left a stack. -/
def Progress.next (p : Progress) (i : Instruction) (left : EvalStack) : Progress :=
  ⟨left, i.branchTargets.foldl (record i.offset left.depth) p.recorded, i.fallsThrough⟩

/-- The pass over instructions without a look at where their targets lie. -/
def pass (regions : List Region) (method : Signature) :
    Progress → List Instruction → Except LowerError Progress
  | p, [] => .ok p
  | p, i :: rest =>
    match Lowered.step method (enter regions p i.offset) i with
    | .error e => .error e
    | .ok (_, left) => pass regions method (p.next i left) rest

section Steps

variable {body : List Instruction} {regions : List Region} {method : Signature} {p : Progress}
  {i : Instruction} {rest : List Instruction} {l : Lowered} {left : EvalStack}

/-- An instruction that cannot be lowered ends the pass. -/
theorem pass_fault {e : LowerError}
    (hstep : Lowered.step method (enter regions p i.offset) i = .error e) :
    pass regions method p (i :: rest) = .error e := by
  rw [pass, hstep]

/-- Behind an instruction that is lowered the pass goes on. -/
theorem pass_next (hstep : Lowered.step method (enter regions p i.offset) i = .ok (l, left)) :
    pass regions method p (i :: rest) = pass regions method (p.next i left) rest := by
  rw [pass, hstep]

/-- An instruction that cannot be lowered ends lowering. -/
theorem lowerFrom_fault {e : LowerError}
    (hstep : Lowered.step method (enter regions p i.offset) i = .error e) :
    lowerFrom (starts body) regions method p (i :: rest) = .error e := by
  rw [lowerFrom, hstep]

/-- A target that dangles ends lowering once its branch is lowered. -/
theorem lowerFrom_stray {t : Offset}
    (hstep : Lowered.step method (enter regions p i.offset) i = .ok (l, left))
    (htarget : i.branchTargets.find? (!isStart body ·) = some t) :
    lowerFrom (starts body) regions method p (i :: rest) =
      .error (.malformed (.danglingTarget i.offset t)) := by
  rw [lowerFrom, hstep]
  simp only [contains_starts, htarget]

/-- Behind an instruction that is lowered and has no target that dangles, lowering goes on. -/
theorem lowerFrom_next (hstep : Lowered.step method (enter regions p i.offset) i = .ok (l, left))
    (htargets : i.branchTargets.find? (!isStart body ·) = none) :
    lowerFrom (starts body) regions method p (i :: rest) =
      (lowerFrom (starts body) regions method (p.next i left) rest).map fun (ls, final) =>
        (l :: ls, final) := by
  rw [lowerFrom, hstep]
  simp only [contains_starts, htargets, Progress.next]
  split <;> rename_i hrest <;> rw [hrest] <;> rfl

end Steps

section Pass

variable {body : List Instruction} {regions : List Region} {method : Signature}

/-- The pass fails at the first instruction that cannot be lowered where the pass comes to it. -/
theorem exists_fault_of_pass {p : Progress} {code : List Instruction} {e : LowerError}
    (h : pass regions method p code = .error e) :
    ∃ before i after q, code = before ++ i :: after ∧ pass regions method p before = .ok q ∧
      Lowered.step method (enter regions q i.offset) i = .error e := by
  induction code generalizing p with
  | nil => cases h
  | cons i rest ih =>
    cases hstep : Lowered.step method (enter regions p i.offset) i with
    | error e' =>
      rw [pass_fault hstep] at h
      cases h
      exact ⟨[], i, rest, p, rfl, rfl, hstep⟩
    | ok result =>
      rw [pass_next hstep] at h
      obtain ⟨before, j, after, q, rfl, hpass, hfails⟩ := ih h
      exact ⟨i :: before, j, after, q, rfl, (pass_next hstep).trans hpass, hfails⟩

/-- Where no target dangles, lowering is the pass: both fail alike, and end on one stack. -/
theorem lowerFrom_of_targets (regions : List Region) (method : Signature) (p : Progress)
    (rest : List Instruction)
    (htargets : ∀ i ∈ rest, i.branchTargets.find? (!isStart body ·) = none) :
    (lowerFrom (starts body) regions method p rest).map Prod.snd =
      (pass regions method p rest).map Progress.stack := by
  induction rest generalizing p with
  | nil => rfl
  | cons i rest ih =>
    rw [List.forall_mem_cons] at htargets
    cases hstep : Lowered.step method (enter regions p i.offset) i with
    | error e =>
      rw [lowerFrom_fault hstep, pass_fault hstep]
      rfl
    | ok result =>
      rw [lowerFrom_next hstep htargets.1, pass_next hstep, ← ih _ htargets.2]
      cases lowerFrom (starts body) regions method (p.next i result.2) rest with
      | error e => rfl
      | ok result => rfl

/-- The first branch that dangles is reported, if the pass comes through it. -/
theorem lowerFrom_of_dangling (p : Progress) (front back : List Instruction) (branch : Instruction)
    (t : Offset) (hfront : ∀ i ∈ front, i.branchTargets.find? (!isStart body ·) = none)
    (hbranch : branch.branchTargets.find? (!isStart body ·) = some t) :
    lowerFrom (starts body) regions method p (front ++ branch :: back) =
      match pass regions method p (front ++ [branch]) with
      | .error e => .error e
      | .ok _ => .error (.malformed (.danglingTarget branch.offset t)) := by
  induction front generalizing p with
  | nil =>
    rw [List.nil_append, List.nil_append]
    cases hstep : Lowered.step method (enter regions p branch.offset) branch with
    | error e => rw [lowerFrom_fault hstep, pass_fault hstep]
    | ok result =>
      rw [lowerFrom_stray hstep hbranch, pass_next hstep]
      rfl
  | cons i front ih =>
    rw [List.forall_mem_cons] at hfront
    rw [List.cons_append, List.cons_append]
    cases hstep : Lowered.step method (enter regions p i.offset) i with
    | error e => rw [lowerFrom_fault hstep, pass_fault hstep]
    | ok result =>
      rw [lowerFrom_next hstep hfront.1, pass_next hstep, ih _ hfront.2]
      cases pass regions method (p.next i result.2) (front ++ [branch]) with
      | error e => rfl
      | ok q => rfl

/-- A pass fails with a fault of one of its instructions, so never with one of shape. -/
theorem pass_ne_malformed (p : Progress) (code : List Instruction) (cause : GraphError) :
    pass regions method p code ≠ .error (.malformed cause) := by
  intro h
  obtain ⟨before, i, after, q, -, -, hfails⟩ := exists_fault_of_pass h
  cases Lowered.stackFault_of_step hfails

/-- Lowering fails at a branch that dangles, or at an instruction that cannot be lowered. -/
theorem lowerFrom_error_cases {p : Progress} {rest : List Instruction} {e : LowerError}
    (h : lowerFrom (starts body) regions method p rest = .error e) :
    ∃ i ∈ rest, (∃ t, e = .malformed (.danglingTarget i.offset t)) ∨
      ∃ stack, Lowered.step method stack i = .error e := by
  induction rest generalizing p with
  | nil => cases h
  | cons i rest ih =>
    cases hstep : Lowered.step method (enter regions p i.offset) i with
    | error e' =>
      rw [lowerFrom_fault hstep] at h
      cases h
      exact ⟨i, List.mem_cons_self, .inr ⟨_, hstep⟩⟩
    | ok result =>
      cases htarget : i.branchTargets.find? (!isStart body ·) with
      | some t =>
        rw [lowerFrom_stray hstep htarget] at h
        cases h
        exact ⟨i, List.mem_cons_self, .inl ⟨t, rfl⟩⟩
      | none =>
        rw [lowerFrom_next hstep htarget] at h
        cases hrest : lowerFrom (starts body) regions method (p.next i result.2) rest with
        | error e' =>
          rw [hrest] at h
          cases h
          obtain ⟨j, hj, hfails⟩ := ih hrest
          exact ⟨j, List.mem_cons_of_mem i hj, hfails⟩
        | ok result' =>
          rw [hrest] at h
          cases h

/-- A body cannot be lowered if it has no instructions, if a boundary or a branch dangles, or if one of
its instructions cannot be lowered. -/
theorem lower_error_cases {e : LowerError} (h : lower body regions method = .error e) :
    (body = [] ∧ e = .malformed .emptyMethod) ∨
      (∃ offset, e = .malformed (.danglingBoundary offset)) ∨
      ∃ i ∈ body, (∃ t, e = .malformed (.danglingTarget i.offset t)) ∨
        ∃ stack, Lowered.step method stack i = .error e := by
  by_cases hne : body = []
  · subst hne
    cases h
    exact .inl ⟨rfl, rfl⟩
  · right
    rw [lower_of_ne_nil hne] at h
    cases hboundary : Graph.danglingBoundary? body regions with
    | some offset =>
      rw [hboundary] at h
      cases h
      exact .inl ⟨offset, rfl⟩
    | none =>
      rw [hboundary] at h
      right
      cases hlower : lowerFrom (starts body) regions method {} body with
      | error e' =>
        rw [hlower] at h
        cases h
        exact lowerFrom_error_cases hlower
      | ok result =>
        rw [hlower] at h
        cases h

/-- A boundary that dangles is reported before anything is lowered. -/
theorem lower_of_danglingBoundary (hne : body ≠ []) {offset : Offset}
    (hboundary : Graph.danglingBoundary? body regions = some offset) :
    lower body regions method = .error (.malformed (.danglingBoundary offset)) := by
  rw [lower_of_ne_nil hne, hboundary]

/-- With no boundary that dangles, the first branch that does is reported if the pass comes through
it, and else what the pass fails with on the way. -/
theorem lower_of_danglingTarget (method : Signature) (hne : body ≠ [])
    (hboundary : Graph.danglingBoundary? body regions = none) {source target : Offset}
    (htarget : Graph.danglingTarget? body = some (source, target)) :
    ∃ front branch back, body = front ++ branch :: back ∧ target ∈ branch.branchTargets ∧
      branch.offset = source ∧
      (∀ q, pass regions method {} (front ++ [branch]) = .ok q →
        lower body regions method = .error (.malformed (.danglingTarget source target))) ∧
      ∀ e, pass regions method {} (front ++ [branch]) = .error e →
        lower body regions method = .error e := by
  obtain ⟨front, branch, back, hbody, rfl, hfind, hfront⟩ :=
    (Graph.danglingTarget?_eq_some_iff body source target).mp htarget
  have hlower : lowerFrom (starts body) regions method {} body = _ :=
    (congrArg _ hbody).trans (lowerFrom_of_dangling {} front back branch target hfront hfind)
  refine ⟨front, branch, back, hbody, List.mem_of_find?_eq_some hfind, rfl, fun q hq => ?_,
    fun e he => ?_⟩
  · rw [hq] at hlower
    simp [lower_of_ne_nil hne, hboundary, hlower, Except.map]
  · rw [he] at hlower
    simp [lower_of_ne_nil hne, hboundary, hlower, Except.map]

/-- With nothing that dangles, lowering fails as the pass does. -/
theorem lower_of_shape (hne : body ≠ [])
    (hboundary : Graph.danglingBoundary? body regions = none)
    (htargets : Graph.danglingTarget? body = none) (e : LowerError) :
    lower body regions method = .error e ↔ pass regions method {} body = .error e := by
  have hshape : ∀ i ∈ body, i.branchTargets.find? (!isStart body ·) = none := by
    intro i hi
    rw [Graph.find_target_eq_none_iff]
    exact (Graph.danglingTarget?_eq_none_iff body).mp htargets i hi
  have hpass := lowerFrom_of_targets regions method {} body hshape
  simp only [lower_of_ne_nil hne, hboundary]
  revert hpass
  cases lowerFrom (starts body) regions method {} body with
  | error e' =>
    cases pass regions method {} body with
    | error e'' =>
      intro hpass
      obtain rfl : e' = e'' := by simpa [Except.map] using hpass
      simp [Except.map]
    | ok q => simp [Except.map]
  | ok result =>
    cases pass regions method {} body with
    | error e'' => simp [Except.map]
    | ok q => simp [Except.map]

end Pass

/-- Lowering refuses a target of the branch behind `front` once the pass has come through the branch,
or it fails with the fault of an instruction up to there that the pass cannot lower. -/
def RefusesBranch (body : List Instruction) (regions : List Region) (method : Signature)
    (front : List Instruction) (branch : Instruction) (target : Offset) : Prop :=
  (∃ q, pass regions method {} (front ++ [branch]) = .ok q) ∧
      lower body regions method = .error (.malformed (.danglingTarget branch.offset target)) ∨
    ∃ before i after q e, front ++ [branch] = before ++ i :: after ∧
      pass regions method {} before = .ok q ∧
      Lowered.step method (enter regions q i.offset) i = .error e ∧ StackFault i e ∧
      lower body regions method = .error e

/-- How the verdict of the forward pass on a body goes with that of the graph. -/
structure AcceptsAlike (body : List Instruction) (regions : List Region) (method : Signature) :
    Prop where
  /-- In a body that has a graph the pass finds no fault of shape. -/
  accepted : ∀ g, Graph.build body regions = .ok g → ∀ cause,
    lower body regions method ≠ .error (.malformed cause)
  /-- The pass fails on a body that has no graph. -/
  refused : ∀ cause, Graph.build body regions = .error cause →
    ∃ e, lower body regions method = .error e
  /-- Both miss instructions in the same bodies. -/
  empty : lower body regions method = .error (.malformed .emptyMethod) ↔
    Graph.build body regions = .error .emptyMethod
  /-- The pass reports the first boundary that dangles, whatever else is wrong. -/
  boundary : Graph.build body regions ≠ .error .emptyMethod → ∀ offset,
    Graph.FirstDangling body regions offset →
      lower body regions method = .error (.malformed (.danglingBoundary offset))
  /-- With no such boundary, a body with instructions is refused for a branch that dangles, and by the
  pass for the same branch, unless the pass fails on the way through it. -/
  target : ∀ cause, Graph.build body regions = .error cause → cause ≠ .emptyMethod →
    (∀ offset, ¬Graph.FirstDangling body regions offset) →
    ∃ front branch back t, body = front ++ branch :: back ∧ t ∈ branch.branchTargets ∧
      cause = .danglingTarget branch.offset t ∧ RefusesBranch body regions method front branch t

section Verdicts

variable {body : List Instruction} {regions : List Region}

/-- The pass misses instructions exactly in the body that has none. -/
theorem lower_eq_emptyMethod_iff (body : List Instruction) (regions : List Region)
    (method : Signature) :
    lower body regions method = .error (.malformed .emptyMethod) ↔ body = [] := by
  constructor
  · intro h
    rcases lower_error_cases h with ⟨hnil, -⟩ | ⟨_, hboundary⟩ | ⟨i, -, ⟨_, htarget⟩ | ⟨_, hstep⟩⟩
    · exact hnil
    · cases hboundary
    · cases htarget
    · cases Lowered.stackFault_of_step hstep
  · intro hnil
    subst hnil
    rfl

/-- The graph misses instructions exactly in the body that has none. -/
theorem build_eq_emptyMethod_iff (hinc : Increasing body) (regions : List Region) :
    Graph.build body regions = .error .emptyMethod ↔ body = [] := by
  rw [Graph.build_eq_error_iff hinc]
  simp

/-- With no boundary that dangles, a body with instructions that has no graph is refused for the
branch that the graph names, or on the way through it. -/
theorem exists_refused_branch (method : Signature) (hinc : Increasing body) (hne : body ≠ [])
    {cause : GraphError} (hcause : Graph.build body regions = .error cause)
    (hboundary : Graph.danglingBoundary? body regions = none) :
    ∃ front branch back t, body = front ++ branch :: back ∧ t ∈ branch.branchTargets ∧
      cause = .danglingTarget branch.offset t ∧
      RefusesBranch body regions method front branch t := by
  rcases (Graph.build_eq_error_iff hinc regions cause).mp hcause with ⟨hnil, -⟩ | ⟨-, hdangles⟩
  · exact absurd hnil hne
  · rcases hdangles with ⟨source, t, htarget, rfl⟩ | ⟨-, offset, hoffset, -⟩
    · obtain ⟨front, branch, back, hbody, ht, rfl, hthrough, hfails⟩ :=
        lower_of_danglingTarget method hne hboundary htarget
      refine ⟨front, branch, back, t, hbody, ht, rfl, ?_⟩
      cases hpass : pass regions method {} (front ++ [branch]) with
      | ok q => exact .inl ⟨⟨q, hpass⟩, hthrough q hpass⟩
      | error e =>
        obtain ⟨before, i, after, q, hcode, hbefore, hstep⟩ := exists_fault_of_pass hpass
        exact .inr ⟨before, i, after, q, e, hcode, hbefore, hstep,
          Lowered.stackFault_of_step hstep, hfails e hpass⟩
    · simp [hboundary] at hoffset

/-- With increasing offsets, whatever the regions and the method, the forward pass accepts the shapes
that have a graph and refuses the others. -/
theorem forwardPass_acceptsAlike (hinc : Increasing body) (regions : List Region)
    (method : Signature) : AcceptsAlike body regions method where
  accepted g hg cause h := by
    obtain ⟨hne, htargets, hboundaries, -⟩ := (Graph.build_eq_ok_iff hinc regions g).mp hg
    rw [← Graph.danglingTarget?_eq_none_iff] at htargets
    rw [← Graph.danglingBoundary?_eq_none_iff] at hboundaries
    exact pass_ne_malformed _ _ _ ((lower_of_shape hne hboundaries htargets _).mp h)
  refused cause hcause := by
    by_cases hne : body = []
    · exact ⟨_, (lower_eq_emptyMethod_iff body regions method).mpr hne⟩
    · cases hboundary : Graph.danglingBoundary? body regions with
      | some offset => exact ⟨_, lower_of_danglingBoundary hne hboundary⟩
      | none =>
        obtain ⟨front, branch, back, t, -, -, -, hrefuses⟩ :=
          exists_refused_branch method hinc hne hcause hboundary
        rcases hrefuses with ⟨-, hlower⟩ | ⟨_, _, _, _, e, -, -, -, -, hlower⟩
        · exact ⟨_, hlower⟩
        · exact ⟨e, hlower⟩
  empty :=
    (lower_eq_emptyMethod_iff body regions method).trans (build_eq_emptyMethod_iff hinc regions).symm
  boundary hne offset hoffset := by
    rw [Ne, build_eq_emptyMethod_iff hinc] at hne
    exact lower_of_danglingBoundary hne
      ((Graph.danglingBoundary?_eq_some_iff body regions offset).mpr hoffset)
  target cause hcause hne hnone := by
    have hbody : body ≠ [] := by
      intro hnil
      rw [(build_eq_emptyMethod_iff hinc regions).mpr hnil] at hcause
      exact hne (Except.error.inj hcause).symm
    apply exists_refused_branch method hinc hbody hcause
    rw [Option.eq_none_iff_forall_not_mem]
    intro offset hoffset
    exact hnone offset ((Graph.danglingBoundary?_eq_some_iff body regions offset).mp hoffset)

end Verdicts

/-- A branch out of the body, behind an instruction that finds nothing to take. -/
def strayBranch : List Instruction :=
  [⟨0, ⟨"pop", 0x26, .next, .pop1, .push0, .inlineNone⟩, .none⟩,
    ⟨1, ⟨"br.s", 0x2B, .branch, .pop0, .push0, .shortInlineBrTarget⟩, .target 7⟩]

/-- The graph refuses the branch, and the pass the instruction before it; with a region that dangles
as well, the pass refuses the region. -/
theorem strayBranch_acceptsAlike :
    Increasing strayBranch ∧ Graph.build strayBranch [] = .error (.danglingTarget 1 7) ∧
      (∃ front branch back t, strayBranch = front ++ branch :: back ∧ t ∈ branch.branchTargets ∧
        GraphError.danglingTarget 1 7 = .danglingTarget branch.offset t ∧
        RefusesBranch strayBranch [] procedure front branch t) ∧
      lower strayBranch [] procedure = .error (.unbalanced 0 "pop" 0 1) ∧
      Graph.build strayBranch guardedLoopRegions = .error (.danglingTarget 1 7) ∧
      lower strayBranch guardedLoopRegions procedure = .error (.malformed (.danglingBoundary 5)) := by
  have hnone : ∀ offset, ¬Graph.FirstDangling strayBranch [] offset := by
    intro offset hoffset
    cases (Graph.danglingBoundary?_eq_some_iff strayBranch [] offset).mpr hoffset
  have hfirst : Graph.FirstDangling strayBranch guardedLoopRegions 5 :=
    (Graph.danglingBoundary?_eq_some_iff strayBranch guardedLoopRegions 5).mp rfl
  have hinc : Increasing strayBranch := by decide
  have hplain : Graph.build strayBranch [] = .error (.danglingTarget 1 7) := by
    rw [Graph.build_eq_checked hinc]
    rfl
  have hbuild : Graph.build strayBranch guardedLoopRegions = .error (.danglingTarget 1 7) := by
    rw [Graph.build_eq_checked hinc]
    rfl
  refine ⟨hinc, hplain, ?_, rfl, hbuild, ?_⟩
  · exact (forwardPass_acceptsAlike hinc [] procedure).target _ hplain (by simp) hnone
  · exact (forwardPass_acceptsAlike hinc guardedLoopRegions procedure).boundary
      (by simp [hbuild]) 5 hfirst

end Forward

end Unstack
