import Unstack.Proofs.Acceptance
import Unstack.Proofs.ForwardDepths

/-!
# The depth rule of the forward pass

The forward pass carries one stack, a flag, and a table of the depths that branches have left at
places ahead. The depth at which it comes to an instruction needs none of these: it is given by a rule
on the instructions before, each with the depth that it leaves. An entry point has its own depth.
Behind an instruction that goes on, the depth is what that one leaves. Elsewhere it is what the first
branch to this place leaves, among the instructions before, or zero if there is no such branch.

Whatever the body, the pass follows this rule as far as it comes, and where it fails for want of
operands, it fails at the first instruction that takes more than the rule gives it.
-/

namespace Unstack.Forward

/-- The depth that an instruction leaves when it finds `depth` values, if its effect is known and it
finds its operands. -/
def leaves? (method : Signature) (i : Instruction) (depth : Nat) : Option Nat :=
  match Effect.of i method with
  | .error _ => none
  | .ok e => if e.Fits depth then some (e.left depth) else none

/-- The depth at an offset, behind instructions that are given with the depths that they leave. -/
def depthBehind (regions : List Region) (earlier : List (Instruction × Nat)) (offset : Offset) :
    Nat :=
  match Region.entryDepthAt regions offset, earlier.getLast? with
  | some depth, _ => depth
  | none, none => 0
  | none, some (before, left) =>
    if before.fallsThrough then left
    else ((earlier.find? fun branch => branch.1.branchTargets.contains offset).map (·.2)).getD 0

/-- The instructions of a stretch of code, behind earlier ones, with the depths that they leave. There
are none once an instruction has no effect or does not find its operands. -/
def trace? (regions : List Region) (method : Signature) :
    List (Instruction × Nat) → List Instruction → Option (List (Instruction × Nat))
  | earlier, [] => some earlier
  | earlier, i :: rest =>
    match leaves? method i (depthBehind regions earlier i.offset) with
    | none => none
    | some left => trace? regions method (earlier ++ [(i, left)]) rest

/-- The depth before instruction `j` of a body, if every instruction before it has an effect and finds
its operands. -/
def ruleDepth? (body : List Instruction) (regions : List Region) (method : Signature) (j : Nat) :
    Option Nat :=
  match trace? regions method [] (body.take j), body[j]? with
  | some earlier, some i => some (depthBehind regions earlier i.offset)
  | _, _ => none

/-- Instruction `j` takes `required` values, and the rule gives it only `depth`. -/
def Underflows (body : List Instruction) (regions : List Region) (method : Signature)
    (j depth required : Nat) : Prop :=
  ruleDepth? body regions method j = some depth ∧ depth < required ∧
    ∃ i pushes, body[j]? = some i ∧ Effect.of i method = .ok ⟨.count required, pushes⟩

/-- Instruction `j` has no effect, or takes more than the rule gives it. -/
def FaultyAt (body : List Instruction) (regions : List Region) (method : Signature) (j : Nat) : Prop :=
  (∃ i e, body[j]? = some i ∧ Effect.of i method = .error e) ∨
    ∃ depth required, Underflows body regions method j depth required

/-- What the forward pass makes of a body by the depth rule. -/
structure KeepsDepthRule (body : List Instruction) (regions : List Region) (method : Signature) :
    Prop where
  /-- A lowered instruction has the registers of its effect at the depth that the rule gives. -/
  lowered : ∀ listing, lower body regions method = .ok listing →
    listing.instructions.length = body.length ∧
      ∀ j i, body[j]? = some i → ∃ depth e, ruleDepth? body regions method j = some depth ∧
        Effect.of i method = .ok e ∧ e.Fits depth ∧
        listing.instructions[j]? = some (e.lowered depth i)
  /-- A lack of operands is reported of the first instruction that takes more than the rule gives. -/
  unbalanced : ∀ offset mnemonic depth required,
    lower body regions method = .error (.unbalanced offset mnemonic depth required) →
      ∃ j i, body[j]? = some i ∧ i.offset = offset ∧ i.opcode.name = mnemonic ∧
        Underflows body regions method j depth required ∧
        ∀ n < j, ∀ depth' required', ¬Underflows body regions method n depth' required'
  /-- A body that has a graph is refused exactly for an instruction that has no effect or takes more
  than the rule gives. -/
  fails_iff : ∀ g, Graph.build body regions = .ok g →
    ((∃ e, lower body regions method = .error e) ↔ ∃ j, FaultyAt body regions method j)

section Rule

variable {body : List Instruction} {regions : List Region} {method : Signature}

/-- An instruction leaves nothing exactly if it has no effect or takes more than there is. -/
theorem leaves?_eq_none_iff (method : Signature) (i : Instruction) (depth : Nat) :
    leaves? method i depth = none ↔
      (∃ e, Effect.of i method = .error e) ∨
        ∃ required pushes, Effect.of i method = .ok ⟨.count required, pushes⟩ ∧ depth < required := by
  unfold leaves?
  cases Effect.of i method with
  | error e => simp
  | ok e =>
    obtain ⟨pops, pushes⟩ := e
    cases pops with
    | all => simp [Effect.Fits]
    | count required =>
      by_cases hfits : required ≤ depth
      · simp [Effect.Fits, hfits, Nat.not_lt.mpr hfits]
      · simp [Effect.Fits, hfits, Nat.not_le.mp hfits]

/-- A step leaves what the rule says of its instruction. -/
theorem leaves?_of_step {stack : EvalStack} {i : Instruction} {l : Lowered} {left : EvalStack}
    (h : Lowered.step method stack i = .ok (l, left)) :
    leaves? method i stack.depth = some left.depth := by
  obtain ⟨e, heffect, hfits, -, rfl⟩ := (Lowered.step_eq_ok_iff method stack i l left).mp h
  simp [leaves?, heffect, hfits]

/-- One more instruction is traced behind the others. -/
theorem trace?_append_singleton (earlier : List (Instruction × Nat)) (code : List Instruction)
    (i : Instruction) :
    trace? regions method earlier (code ++ [i]) =
      (trace? regions method earlier code).bind fun later =>
        (leaves? method i (depthBehind regions later i.offset)).map fun left =>
          later ++ [(i, left)] := by
  induction code generalizing earlier with
  | nil =>
    rw [List.nil_append, trace?]
    cases hleaves : leaves? method i (depthBehind regions earlier i.offset) with
    | none => simp [trace?, hleaves]
    | some left => simp [trace?, hleaves]
  | cons first code ih =>
    rw [List.cons_append, trace?, trace?]
    cases leaves? method first (depthBehind regions earlier first.offset) with
    | none => rfl
    | some left => exact ih (earlier ++ [(first, left)])

/-- The rule gives an instruction the depth behind the trace of those before it. -/
theorem ruleDepth?_of_trace? {j : Nat} {i : Instruction} {earlier : List (Instruction × Nat)}
    (htrace : trace? regions method [] (body.take j) = some earlier) (hi : body[j]? = some i) :
    ruleDepth? body regions method j = some (depthBehind regions earlier i.offset) := by
  simp [ruleDepth?, htrace, hi]

/-- Behind a trace, an instruction leaves nothing exactly if it is faulty. -/
theorem leaves?_eq_none_iff_faultyAt {j : Nat} {i : Instruction}
    {earlier : List (Instruction × Nat)}
    (htrace : trace? regions method [] (body.take j) = some earlier) (hi : body[j]? = some i) :
    leaves? method i (depthBehind regions earlier i.offset) = none ↔
      FaultyAt body regions method j := by
  unfold FaultyAt Underflows
  rw [leaves?_eq_none_iff, ruleDepth?_of_trace? htrace hi, hi]
  simp only [Option.some.injEq]
  constructor
  · rintro (⟨e, hunknown⟩ | ⟨required, pushes, heffect, hlt⟩)
    · exact .inl ⟨i, e, rfl, hunknown⟩
    · exact .inr ⟨_, required, rfl, hlt, i, pushes, rfl, heffect⟩
  · rintro (⟨_, e, rfl, hunknown⟩ | ⟨_, required, rfl, hlt, _, pushes, rfl, heffect⟩)
    · exact .inl ⟨e, hunknown⟩
    · exact .inr ⟨required, pushes, heffect, hlt⟩

/-- Only an instruction of the body can be faulty. -/
theorem FaultyAt.lt_length {j : Nat} (h : FaultyAt body regions method j) : j < body.length := by
  rcases h with ⟨i, e, hi, -⟩ | ⟨depth, required, -, -, i, pushes, hi, -⟩
  · exact (List.getElem?_eq_some_iff.mp hi).1
  · exact (List.getElem?_eq_some_iff.mp hi).1

/-- The first instructions of a body have no trace exactly if one of them is faulty. -/
theorem trace?_take_eq_none_iff (body : List Instruction) (regions : List Region)
    (method : Signature) (j : Nat) :
    trace? regions method [] (body.take j) = none ↔ ∃ n < j, FaultyAt body regions method n := by
  induction j with
  | zero => simp [trace?]
  | succ j ih =>
    cases hi : body[j]? with
    | none =>
      have hend : ¬FaultyAt body regions method j := by
        intro hfault
        have hj := hfault.lt_length
        rw [List.getElem?_eq_none_iff] at hi
        omega
      rw [List.take_add_one, hi, Option.toList_none, List.append_nil, ih]
      constructor
      · rintro ⟨n, hn, hfault⟩
        exact ⟨n, Nat.lt_succ_of_lt hn, hfault⟩
      · rintro ⟨n, hn, hfault⟩
        rcases Nat.lt_succ_iff_lt_or_eq.mp hn with hlt | rfl
        · exact ⟨n, hlt, hfault⟩
        · exact absurd hfault hend
    | some i =>
      rw [List.take_add_one, hi, Option.toList_some, trace?_append_singleton]
      cases htrace : trace? regions method [] (body.take j) with
      | none =>
        obtain ⟨n, hn, hfault⟩ := ih.mp htrace
        simp only [Option.bind_none, true_iff]
        exact ⟨n, Nat.lt_succ_of_lt hn, hfault⟩
      | some earlier =>
        have hsound : ∀ n < j, ¬FaultyAt body regions method n := by
          intro n hn hfault
          have hnone := ih.mpr ⟨n, hn, hfault⟩
          rw [htrace] at hnone
          cases hnone
        rw [Option.bind_some, Option.map_eq_none_iff, leaves?_eq_none_iff_faultyAt htrace hi]
        constructor
        · intro hfault
          exact ⟨j, Nat.lt_succ_self j, hfault⟩
        · rintro ⟨n, hn, hfault⟩
          rcases Nat.lt_succ_iff_lt_or_eq.mp hn with hlt | rfl
          · exact absurd hfault (hsound n hlt)
          · exact hfault

end Rule

section Pass

variable {body : List Instruction} {regions : List Region} {method : Signature}

/-- Lowering that succeeds has lowered every instruction where the pass comes to it. -/
theorem exists_step_of_lowerFrom {p : Progress} {rest : List Instruction} {ls : List Lowered}
    {final : EvalStack} (h : lowerFrom (starts body) regions method p rest = .ok (ls, final)) :
    ls.length = rest.length ∧ ∀ j i, rest[j]? = some i → ∃ q l left,
      pass regions method p (rest.take j) = .ok q ∧
        Lowered.step method (enter regions q i.offset) i = .ok (l, left) ∧ ls[j]? = some l := by
  induction rest generalizing p ls with
  | nil =>
    cases h
    exact ⟨rfl, fun j i hi => by simp at hi⟩
  | cons first rest ih =>
    cases hstep : Lowered.step method (enter regions p first.offset) first with
    | error e =>
      rw [lowerFrom_fault hstep] at h
      cases h
    | ok result =>
      obtain ⟨l, left⟩ := result
      cases htarget : first.branchTargets.find? (!isStart body ·) with
      | some t =>
        rw [lowerFrom_stray hstep htarget] at h
        cases h
      | none =>
        rw [lowerFrom_next hstep htarget] at h
        cases hrest : lowerFrom (starts body) regions method (p.next first left) rest with
        | error e =>
          rw [hrest] at h
          cases h
        | ok result =>
          rw [hrest] at h
          cases h
          obtain ⟨hlength, hplaces⟩ := ih hrest
          refine ⟨congrArg (· + 1) hlength, fun j i hi => ?_⟩
          cases j with
          | zero =>
            obtain rfl : first = i := by simpa using hi
            exact ⟨p, l, left, rfl, hstep, rfl⟩
          | succ j =>
            obtain ⟨q, l', left', hpass, hstep', hl'⟩ := hplaces j i (by simpa using hi)
            exact ⟨q, l', left', (pass_next hstep).trans hpass, hstep', by simpa using hl'⟩

/-- Lowering that succeeds comes to the end of the body, and counts the registers of the peak there. -/
theorem exists_final_of_lower {listing : Listing} (h : lower body regions method = .ok listing) :
    ∃ final, lowerFrom (starts body) regions method {} body = .ok (listing.instructions, final) ∧
      listing.registers = final.peak := by
  unfold lower at h
  split at h
  · cases h
  · split at h
    · cases h
    · cases hlower : lowerFrom (starts body) regions method {} body with
      | error e =>
        rw [hlower] at h
        cases h
      | ok result =>
        rw [hlower] at h
        cases h
        exact ⟨result.2, rfl, rfl⟩

/-- Lowering that fails otherwise than on the shape of the body fails at an instruction to which the
pass comes. -/
theorem exists_fault_of_lower {e : LowerError} (h : lower body regions method = .error e)
    (hshape : ∀ cause, e ≠ .malformed cause) :
    ∃ front i back q, body = front ++ i :: back ∧ pass regions method {} front = .ok q ∧
      Lowered.step method (enter regions q i.offset) i = .error e := by
  by_cases hne : body = []
  · rw [(lower_eq_emptyMethod_iff body regions method).mpr hne] at h
    cases h
    exact absurd rfl (hshape _)
  · cases hboundary : Graph.danglingBoundary? body regions with
    | some offset =>
      rw [lower_of_danglingBoundary hne hboundary] at h
      cases h
      exact absurd rfl (hshape _)
    | none =>
      cases htarget : Graph.danglingTarget? body with
      | none => exact exists_fault_of_pass ((lower_of_shape hne hboundary htarget e).mp h)
      | some pair =>
        obtain ⟨front, branch, back, hbody, -, -, hthrough, hfails⟩ :=
          lower_of_danglingTarget method hne hboundary htarget
        cases hpass : pass regions method {} (front ++ [branch]) with
        | ok q =>
          rw [hthrough q hpass] at h
          cases h
          exact absurd rfl (hshape _)
        | error e' =>
          rw [hfails e' hpass] at h
          cases h
          obtain ⟨before, i, after, q, hcode, hbefore, hstep⟩ := exists_fault_of_pass hpass
          refine ⟨before, i, after ++ back, q, ?_, hbefore, hstep⟩
          rw [hbody, List.append_cons, hcode, List.append_assoc, List.cons_append]

end Pass

/-- What the pass knows behind instructions with the depths that they leave: the stack and the flag
come from the last of them, and what is recorded at a place ahead of them all comes from the first
branch to it. -/
structure Follows (earlier : List (Instruction × Nat)) (p : Progress) : Prop where
  stack : p.stack.depth = (earlier.getLast?.map (·.2)).getD 0
  goesOn : p.goesOn = (earlier.getLast?.map (·.1.fallsThrough)).getD true
  recorded : ∀ offset, (∀ entry ∈ earlier, entry.1.offset < offset) →
    p.recorded.lookup offset =
      (earlier.find? fun branch => branch.1.branchTargets.contains offset).map (·.2)

section Follow

variable {body : List Instruction} {regions : List Region} {method : Signature}
  {earlier : List (Instruction × Nat)} {p : Progress}

/-- At the start nothing is behind the pass. -/
theorem follows_start : Follows [] {} := ⟨rfl, rfl, fun _ _ => rfl⟩

/-- The pass enters an instruction at the depth of the rule. -/
theorem Follows.depth_enter (h : Follows earlier p) {offset : Offset}
    (hbehind : ∀ entry ∈ earlier, entry.1.offset < offset) :
    (enter regions p offset).depth = depthBehind regions earlier offset := by
  unfold enter depthBehind
  rw [h.goesOn, h.recorded offset hbehind]
  cases Region.entryDepthAt regions offset with
  | some depth => rfl
  | none =>
    have hstack := h.stack
    cases hlast : earlier.getLast? with
    | none => simpa [hlast] using hstack
    | some entry =>
      cases hfalls : entry.1.fallsThrough with
      | true => simpa [hlast, hfalls] using hstack
      | false => simp [hfalls]

/-- One instruction further, the pass still follows. -/
theorem Follows.next (h : Follows earlier p) (i : Instruction) (left : EvalStack) :
    Follows (earlier ++ [(i, left.depth)]) (p.next i left) where
  stack := by simp [Progress.next]
  goesOn := by simp [Progress.next]
  recorded offset hbehind := by
    have hearlier : ∀ entry ∈ earlier, entry.1.offset < offset := fun entry hentry =>
      hbehind entry (List.mem_append_left _ hentry)
    have hahead : i.offset < offset := hbehind (i, left.depth) (by simp)
    change (i.branchTargets.foldl (record i.offset left.depth) p.recorded).lookup offset = _
    rw [lookup_foldl_record, h.recorded offset hearlier, List.find?_append, Option.map_or]
    by_cases htarget : offset ∈ i.branchTargets
    · simp [htarget, hahead]
    · simp [htarget]

/-- Where the pass comes to, the code before has a trace, and the pass follows it. -/
theorem Follows.trace?_of_pass (h : Follows earlier p) {code : List Instruction} {q : Progress}
    (hinc : Increasing (earlier.map Prod.fst ++ code)) (hpass : pass regions method p code = .ok q) :
    ∃ later, trace? regions method earlier code = some later ∧ Follows later q ∧
      later.map Prod.fst = earlier.map Prod.fst ++ code := by
  induction code generalizing earlier p with
  | nil =>
    cases hpass
    exact ⟨earlier, rfl, h, by simp⟩
  | cons i rest ih =>
    have hbehind : ∀ entry ∈ earlier, entry.1.offset < i.offset := by
      intro entry hentry
      exact (List.pairwise_append.mp hinc).2.2 entry.1 (List.mem_map_of_mem hentry) i
        List.mem_cons_self
    cases hstep : Lowered.step method (enter regions p i.offset) i with
    | error e =>
      rw [pass_fault hstep] at hpass
      cases hpass
    | ok result =>
      rw [pass_next hstep] at hpass
      have hleaves := leaves?_of_step hstep
      rw [h.depth_enter hbehind] at hleaves
      have hcode : (earlier ++ [(i, result.2.depth)]).map Prod.fst ++ rest =
          earlier.map Prod.fst ++ i :: rest := by simp
      obtain ⟨later, htrace, hfollows, hlater⟩ := ih (h.next i result.2) (hcode ▸ hinc) hpass
      exact ⟨later, by rw [trace?, hleaves]; exact htrace, hfollows, hlater.trans hcode⟩

/-- The pass comes to an instruction at the depth of the rule. -/
theorem depth_enter_of_pass (hinc : Increasing body) {j : Nat} {i : Instruction} {q : Progress}
    (hi : body[j]? = some i) (hpass : pass regions method {} (body.take j) = .ok q) :
    ruleDepth? body regions method j = some (enter regions q i.offset).depth ∧
      ∀ n < j, ¬FaultyAt body regions method n := by
  have htake : Increasing (body.take j) := List.Pairwise.take hinc
  obtain ⟨later, htrace, hfollows, hlater⟩ := follows_start.trace?_of_pass htake hpass
  have hbehind : ∀ entry ∈ later, entry.1.offset < i.offset := by
    intro entry hentry
    have hmem : entry.1 ∈ body.take j := by
      have hfst := List.mem_map_of_mem (f := Prod.fst) hentry
      rwa [hlater] at hfst
    obtain ⟨n, hn⟩ := List.getElem?_of_mem hmem
    rw [List.getElem?_take] at hn
    split at hn
    · rename_i hlt
      exact hinc.offset_lt hn hi hlt
    · cases hn
  refine ⟨?_, fun n hn hfault => ?_⟩
  · rw [hfollows.depth_enter hbehind]
    exact ruleDepth?_of_trace? htrace hi
  · have hnone := (trace?_take_eq_none_iff body regions method j).mpr ⟨n, hn, hfault⟩
    rw [htrace] at hnone
    cases hnone

end Follow

section Main

variable {body : List Instruction} {regions : List Region}

/-- Where lowering succeeds, every instruction has its registers at the depth of the rule. -/
theorem lowered_at_ruleDepth (hinc : Increasing body) {method : Signature} {listing : Listing}
    (h : lower body regions method = .ok listing) :
    listing.instructions.length = body.length ∧
      ∀ j i, body[j]? = some i → ∃ depth e, ruleDepth? body regions method j = some depth ∧
        Effect.of i method = .ok e ∧ e.Fits depth ∧
        listing.instructions[j]? = some (e.lowered depth i) := by
  obtain ⟨final, hlower, -⟩ := exists_final_of_lower h
  obtain ⟨hlength, hplaces⟩ := exists_step_of_lowerFrom hlower
  refine ⟨hlength, fun j i hi => ?_⟩
  obtain ⟨q, l, left, hpass, hstep, hl⟩ := hplaces j i hi
  obtain ⟨e, heffect, hfits, rfl, -⟩ := (Lowered.step_eq_ok_iff method _ i l left).mp hstep
  exact ⟨_, e, (depth_enter_of_pass hinc hi hpass).1, heffect, hfits, hl⟩

/-- Where lowering lacks operands, its instruction is the first to take more than the rule gives. -/
theorem first_underflow_of_lower (hinc : Increasing body) {method : Signature} {offset : Offset}
    {mnemonic : String} {depth required : Nat}
    (h : lower body regions method = .error (.unbalanced offset mnemonic depth required)) :
    ∃ j i, body[j]? = some i ∧ i.offset = offset ∧ i.opcode.name = mnemonic ∧
      Underflows body regions method j depth required ∧
      ∀ n < j, ∀ depth' required', ¬Underflows body regions method n depth' required' := by
  obtain ⟨front, i, back, q, hbody, hpass, hstep⟩ :=
    exists_fault_of_lower h (fun cause hcause => by cases hcause)
  have hi : body[front.length]? = some i := by simp [hbody]
  have hfront : body.take front.length = front := by simp [hbody]
  obtain ⟨hrule, hsound⟩ := depth_enter_of_pass hinc hi (hfront.symm ▸ hpass)
  rcases (Lowered.step_eq_error_iff method _ i _).mp hstep with hunknown | hlacks
  · obtain ⟨-, hother⟩ := (Effect.of_eq_error_iff i method _).mp hunknown
    cases hother
  · obtain ⟨_, pushes, heffect, hlt, hfault⟩ := hlacks
    cases hfault
    refine ⟨front.length, i, hi, rfl, rfl, ⟨hrule, hlt, i, pushes, hi, heffect⟩, ?_⟩
    intro n hn depth' required' hunder
    exact hsound n hn (.inr ⟨depth', required', hunder⟩)

/-- The pass comes through a body exactly if no instruction is faulty. -/
theorem exists_pass_error_iff (hinc : Increasing body) (regions : List Region) (method : Signature) :
    (∃ e, pass regions method {} body = .error e) ↔ ∃ j, FaultyAt body regions method j := by
  constructor
  · rintro ⟨e, h⟩
    obtain ⟨front, i, back, q, hbody, hpass, hstep⟩ := exists_fault_of_pass h
    have hi : body[front.length]? = some i := by simp [hbody]
    have hfront : body.take front.length = front := by simp [hbody]
    obtain ⟨hrule, -⟩ := depth_enter_of_pass hinc hi (hfront.symm ▸ hpass)
    refine ⟨front.length, ?_⟩
    rcases (Lowered.step_eq_error_iff method _ i e).mp hstep with hunknown | hlacks
    · exact .inl ⟨i, e, hi, hunknown⟩
    · obtain ⟨required, pushes, heffect, hlt, -⟩ := hlacks
      exact .inr ⟨_, required, hrule, hlt, i, pushes, hi, heffect⟩
  · rintro ⟨j, hfault⟩
    cases hpass : pass regions method {} body with
    | error e => exact ⟨e, rfl⟩
    | ok q =>
      obtain ⟨later, htrace, -⟩ := follows_start.trace?_of_pass hinc hpass
      have hj : j < body.length := hfault.lt_length
      have hnone := (trace?_take_eq_none_iff body regions method body.length).mpr ⟨j, hj, hfault⟩
      rw [List.take_length, htrace] at hnone
      cases hnone

/-- With increasing offsets the forward pass keeps to the depth rule, whatever the regions and the
method. -/
theorem lower_keepsDepthRule (hinc : Increasing body) (regions : List Region) (method : Signature) :
    KeepsDepthRule body regions method where
  lowered _ := lowered_at_ruleDepth hinc
  unbalanced _ _ _ _ := first_underflow_of_lower hinc
  fails_iff g hg := by
    obtain ⟨hne, htargets, hboundaries, -⟩ := (Graph.build_eq_ok_iff hinc regions g).mp hg
    rw [← Graph.danglingTarget?_eq_none_iff] at htargets
    rw [← Graph.danglingBoundary?_eq_none_iff] at hboundaries
    rw [← exists_pass_error_iff hinc regions method]
    exact exists_congr (lower_of_shape hne hboundaries htargets)

end Main

/-- Two branches to one place, with nothing and with one value left, and a place that wants one. -/
def rivalBranches : List Instruction :=
  [⟨0, ⟨"ldc.i4.0", 0x16, .next, .pop0, .push1, .inlineNone⟩, .none⟩,
    ⟨1, ⟨"brtrue.s", 0x2D, .condBranch, .pop1, .push0, .shortInlineBrTarget⟩, .target 6⟩,
    ⟨3, ⟨"ldc.i4.0", 0x16, .next, .pop0, .push1, .inlineNone⟩, .none⟩,
    ⟨4, ⟨"br.s", 0x2B, .branch, .pop0, .push0, .shortInlineBrTarget⟩, .target 6⟩,
    ⟨6, ⟨"pop", 0x26, .next, .pop1, .push0, .inlineNone⟩, .none⟩]

/-- The first of the rival branches decides, so that the place finds nothing. The guarded loop, with its
handler and its dead branch, is lowered at the depths of the rule. -/
theorem rivalBranches_keepsDepthRule :
    Increasing rivalBranches ∧
      lower rivalBranches [] procedure = .error (.unbalanced 6 "pop" 0 1) ∧
      (∃ j i, rivalBranches[j]? = some i ∧ i.offset = 6 ∧ i.opcode.name = "pop" ∧
        Underflows rivalBranches [] procedure j 0 1 ∧
        ∀ n < j, ∀ depth required, ¬Underflows rivalBranches [] procedure n depth required) ∧
      (∃ j, FaultyAt rivalBranches [] procedure j) ∧
      Increasing guardedLoop ∧
      ∃ listing, lower guardedLoop guardedLoopRegions procedure = .ok listing ∧
        listing.instructions.length = guardedLoop.length ∧
        ∀ j i, guardedLoop[j]? = some i → ∃ depth e,
          ruleDepth? guardedLoop guardedLoopRegions procedure j = some depth ∧
            Effect.of i procedure = .ok e ∧ e.Fits depth ∧
            listing.instructions[j]? = some (e.lowered depth i) := by
  have hinc : Increasing rivalBranches := by decide
  have hlower : lower rivalBranches [] procedure = .error (.unbalanced 6 "pop" 0 1) := rfl
  have hrivals := lower_keepsDepthRule hinc [] procedure
  have hloop := lower_keepsDepthRule guardedLoop_wellFormed.increasing guardedLoopRegions procedure
  refine ⟨hinc, hlower, hrivals.unbalanced _ _ _ _ hlower, ?_, guardedLoop_wellFormed.increasing, ?_⟩
  · exact (hrivals.fails_iff _ (Graph.build_eq_connect hinc rfl)).mp ⟨_, hlower⟩
  · exact ⟨_, rfl, hloop.lowered _ rfl⟩

end Unstack.Forward
