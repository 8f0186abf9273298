import Unstack.Proofs.Acceptance

/-!
# Depth-consistent bodies and the forward pass

A body is depth-consistent if one depth can be given to every instruction such that control finds
that depth wherever it comes from: the rule of ECMA-335 (III.1.7.5) for code that can be verified in
one pass. The forward pass then lowers every instruction at its depth. It knows that depth from the
instruction before, from the first branch that came past, or as zero, and the invariant of the pass
is that all it has recorded are depths of branches it has passed.
-/

namespace Unstack

/-- One depth for every instruction, which agrees with all ways of reaching it. Handlers and filters
are entered at their own depth, whatever flows into them. -/
structure DepthConsistent (body : List Instruction) (regions : List Region) (method : Signature)
    (depths : Nat → Nat) : Prop where
  /-- The runtime enters handlers and filters at their entry depth. -/
  entry : ∀ j i depth, body[j]? = some i →
    Region.entryDepthAt regions i.offset = some depth → depths j = depth
  /-- The method starts on an empty stack. -/
  start : ∀ i, body[0]? = some i → Region.entryDepthAt regions i.offset = none → depths 0 = 0
  /-- Every effect is known and finds its operands. -/
  effect : ∀ j i, body[j]? = some i → ∃ e, Effect.of i method = .ok e ∧ e.Fits (depths j)
  /-- Control arrives at the depth that it left, except where the runtime sets the depth. -/
  flow : ∀ j k i target e, body[j]? = some i → body[k]? = some target → FlowsTo body j k →
    Region.entryDepthAt regions target.offset = none → Effect.of i method = .ok e →
    depths k = e.left (depths j)
  /-- Where the instruction before does not go on and no branch has come past, the stack is empty. -/
  unreached : ∀ k i, 0 < k → body[k]? = some i → Region.entryDepthAt regions i.offset = none →
    (∀ before, body[k - 1]? = some before → before.fallsThrough = false) →
    (∀ j before, j < k → body[j]? = some before → i.offset ∉ before.branchTargets) → depths k = 0

/-- The depths of the guarded loop: its test and its handler find one value. -/
def guardedLoopDepths (j : Nat) : Nat := if j = 1 ∨ j = 3 then 1 else 0

/-- The guarded loop is depth-consistent. -/
theorem guardedLoop_depthConsistent :
    DepthConsistent guardedLoop guardedLoopRegions procedure guardedLoopDepths where
  entry := by
    have h : ∀ j : Fin guardedLoop.length,
        ∀ depth ∈ Region.entryDepthAt guardedLoopRegions guardedLoop[j].offset,
          guardedLoopDepths j = depth := by decide
    intro j i depth hi hdepth
    obtain ⟨hj, rfl⟩ := List.getElem?_eq_some_iff.mp hi
    exact h ⟨j, hj⟩ depth hdepth
  start _ _ _ := rfl
  effect := by
    have h : ∀ j : Fin guardedLoop.length,
        ∃ e ∈ (Effect.of guardedLoop[j] procedure).toOption, e.Fits (guardedLoopDepths j) := by
      decide
    intro j i hi
    obtain ⟨hj, rfl⟩ := List.getElem?_eq_some_iff.mp hi
    obtain ⟨e, heffect, hfits⟩ := h ⟨j, hj⟩
    refine ⟨e, ?_, hfits⟩
    cases hresult : Effect.of guardedLoop[j] procedure <;> simp_all [Except.toOption]
  flow := by
    have h : ∀ j k : Fin guardedLoop.length,
        (guardedLoop[j].fallsThrough = true ∧ k.val = j.val + 1 ∨
          guardedLoop[k].offset ∈ guardedLoop[j].branchTargets) →
        Region.entryDepthAt guardedLoopRegions guardedLoop[k].offset = none →
        ∀ e ∈ (Effect.of guardedLoop[j] procedure).toOption,
          guardedLoopDepths k = e.left (guardedLoopDepths j) := by decide
    rintro j k i target e hi htarget ⟨i', target', hi', htarget', hflow⟩ hentry heffect
    obtain ⟨hj, rfl⟩ := List.getElem?_eq_some_iff.mp hi
    obtain ⟨hk, rfl⟩ := List.getElem?_eq_some_iff.mp htarget
    obtain rfl := Option.some.inj (hi.symm.trans hi')
    obtain rfl := Option.some.inj (htarget.symm.trans htarget')
    exact h ⟨j, hj⟩ ⟨k, hk⟩ hflow hentry e (by simp [heffect, Except.toOption])
  unreached k i _ hi hentry hbefore _ := by
    by_cases hdepth : k = 1 ∨ k = 3
    · rcases hdepth with rfl | rfl
      · exact absurd (hbefore _ rfl) (by decide)
      · obtain rfl := Option.some.inj hi
        contradiction
    · exact if_neg hdepth

namespace Forward

/-- Branches are recorded at the offsets ahead that nothing was recorded for. -/
theorem lookup_record (source : Offset) (depth : Nat) (recorded : List (Offset × Nat))
    (target offset : Offset) :
    (record source depth recorded target).lookup offset =
      (recorded.lookup offset).or (if target = offset ∧ source < offset then some depth else none) := by
  unfold record
  by_cases htarget : target = offset
  · subst htarget
    cases hlookup : recorded.lookup target with
    | none => by_cases hahead : source < target <;> simp [hahead, hlookup]
    | some d => simp [hlookup]
  · have hne : (offset == target) = false := by simpa using Ne.symm htarget
    split <;> simp [List.lookup_cons, hne, htarget]

/-- The targets of one branch are recorded together; an earlier record stays. -/
theorem lookup_foldl_record (source : Offset) (depth : Nat) (recorded : List (Offset × Nat))
    (targets : List Offset) (offset : Offset) :
    (targets.foldl (record source depth) recorded).lookup offset =
      (recorded.lookup offset).or
        (if offset ∈ targets ∧ source < offset then some depth else none) := by
  induction targets generalizing recorded with
  | nil => simp
  | cons target targets ih =>
    rw [List.foldl_cons, ih, lookup_record, Option.or_assoc]
    by_cases htarget : target = offset
    · subst htarget
      by_cases hahead : source < target <;> simp [hahead]
    · simp [htarget, Ne.symm htarget]

/-- What the pass knows before instruction `n` is true: of the stack, if the instruction before goes
on, and of the branches it has passed, all of which it has recorded. -/
structure Tracks (body : List Instruction) (regions : List Region) (method : Signature)
    (depths : Nat → Nat) (n : Nat) (p : Progress) : Prop where
  peak : p.stack.depth ≤ p.stack.peak
  goesOn : p.goesOn = true → ∀ i, body[n]? = some i →
    Region.entryDepthAt regions i.offset = none → p.stack.depth = depths n
  stops : p.goesOn = false → 0 < n ∧ ∀ before, body[n - 1]? = some before →
    before.fallsThrough = false
  recorded : ∀ offset depth, p.recorded.lookup offset = some depth → ∃ j before e,
    body[j]? = some before ∧ offset ∈ before.branchTargets ∧ Effect.of before method = .ok e ∧
      depth = e.left (depths j)
  passed : ∀ j before offset, j < n → body[j]? = some before → offset ∈ before.branchTargets →
    before.offset < offset → (p.recorded.lookup offset).isSome = true

section Pass

variable {body : List Instruction} {regions : List Region} {method : Signature}
  {depths : Nat → Nat} {n : Nat} {p : Progress}

/-- The pass starts on an empty stack and has passed nothing. -/
theorem tracks_start (hd : DepthConsistent body regions method depths) :
    Tracks body regions method depths 0 {} where
  peak := Nat.le_refl 0
  goesOn _ i hi hentry := (hd.start i hi hentry).symm
  stops h := by simp at h
  recorded _ _ h := by simp at h
  passed _ _ _ hj := by omega

/-- The pass enters every instruction at its depth. -/
theorem Tracks.enter_eq (h : Tracks body regions method depths n p) (hinc : Increasing body)
    (hd : DepthConsistent body regions method depths) {i : Instruction} (hi : body[n]? = some i) :
    enter regions p i.offset = p.stack.setDepth (depths n) := by
  unfold enter
  cases hentry : Region.entryDepthAt regions i.offset with
  | some depth => simp [hd.entry n i depth hi hentry]
  | none =>
    cases hon : p.goesOn with
    | true =>
      have hdepth := h.goesOn hon i hi hentry
      simp only [if_true]
      rw [← hdepth, EvalStack.setDepth_self p.stack h.peak]
    | false =>
      simp only [Bool.false_eq_true, if_false]
      obtain ⟨hpos, hstop⟩ := h.stops hon
      congr 1
      cases hlookup : p.recorded.lookup i.offset with
      | some depth =>
        obtain ⟨j, before, e, hbefore, htarget, heffect, rfl⟩ := h.recorded i.offset depth hlookup
        exact (hd.flow j n before i e hbefore hi ⟨before, i, hbefore, hi, .inr htarget⟩ hentry
          heffect).symm
      | none =>
        refine (hd.unreached n i hpos hi hentry hstop fun j before hj hbefore htarget => ?_).symm
        have hrecorded := h.passed j before i.offset hj hbefore htarget
          (hinc.offset_lt hbefore hi hj)
        simp [hlookup] at hrecorded

/-- One instruction further, the pass still knows the truth. -/
theorem Tracks.next (h : Tracks body regions method depths n p)
    (hd : DepthConsistent body regions method depths) {i : Instruction} (hi : body[n]? = some i)
    {e : Effect} (heffect : Effect.of i method = .ok e) (stack : EvalStack) :
    Tracks body regions method depths (n + 1)
      ⟨stack.setDepth (e.left (depths n)),
        i.branchTargets.foldl (record i.offset (e.left (depths n))) p.recorded, i.fallsThrough⟩ where
  peak := Nat.le_max_right _ _
  goesOn hon target htarget hentry :=
    (hd.flow n (n + 1) i target e hi htarget ⟨i, target, hi, htarget, .inl ⟨hon, rfl⟩⟩ hentry
      heffect).symm
  stops hon := by
    refine ⟨Nat.succ_pos n, fun before hbefore => ?_⟩
    obtain rfl : i = before := by simpa [hi] using hbefore
    exact hon
  recorded offset depth hlookup := by
    rw [lookup_foldl_record] at hlookup
    cases hold : p.recorded.lookup offset with
    | some d =>
      obtain rfl : d = depth := by simpa [hold] using hlookup
      exact h.recorded offset d hold
    | none =>
      rw [hold, Option.none_or] at hlookup
      split at hlookup
      · rename_i hnew
        exact ⟨n, i, e, hi, hnew.1, heffect, by simpa using hlookup.symm⟩
      · contradiction
  passed j before offset hj hbefore htarget hahead := by
    rw [lookup_foldl_record]
    rcases Nat.lt_succ_iff_lt_or_eq.mp hj with hlt | rfl
    · have hold := h.passed j before offset hlt hbefore htarget hahead
      simp [Option.isSome_or, hold]
    · obtain rfl : i = before := by simpa [hi] using hbefore
      simp [htarget, hahead]

/-- From instruction `n` on, the pass lowers every instruction at its depth, and its peak is the
least bound of the peak so far and of the depths to come. -/
theorem lowerFrom_at_depths (hw : WellFormed body regions)
    (hd : DepthConsistent body regions method depths) (rest : List Instruction)
    (hrest : rest = body.drop n) (h : Tracks body regions method depths n p) :
    ∃ final, lowerFrom (starts body) regions method p rest =
        .ok (rest.mapIdx fun j i => .atDepth method (depths (n + j)) i, final) ∧
      ∀ bound, final.peak ≤ bound ↔
        p.stack.peak ≤ bound ∧ Lowered.DepthsWithin method (fun j => depths (n + j)) rest bound := by
  induction rest generalizing n p with
  | nil => exact ⟨p.stack, rfl, fun bound => by simp [Lowered.DepthsWithin]⟩
  | cons i rest ih =>
    have hi : body[n]? = some i := by
      rw [← List.head?_drop, ← hrest]
      rfl
    have htail : rest = body.drop (n + 1) := by
      rw [← List.tail_drop, ← hrest]
      rfl
    obtain ⟨e, heffect, hfits⟩ := hd.effect n i hi
    have hstep : Lowered.step method (enter regions p i.offset) i =
        .ok (e.lowered (depths n) i, (p.stack.setDepth (depths n)).setDepth (e.left (depths n))) := by
      rw [h.enter_eq hw.increasing hd hi]
      exact (Lowered.step_eq_ok_iff _ _ _ _ _).mpr ⟨e, heffect, hfits, rfl, rfl⟩
    obtain ⟨final, hlower, hbound⟩ := ih htail (h.next hd hi heffect (p.stack.setDepth (depths n)))
    have hplace : ∀ j, n + 1 + j = n + (j + 1) := fun j => by omega
    refine ⟨final, ?_, fun bound => ?_⟩
    · rw [lowerFrom, hstep]
      simp only [contains_starts, hw.find_target_eq_none (List.mem_of_getElem? hi),
        EvalStack.depth_setDepth, hlower, List.mapIdx_cons, Nat.add_zero,
          Lowered.atDepth_of_effect _ _ _ _ heffect, hplace]
    · rw [hbound, Lowered.depthsWithin_cons method _ i rest e heffect]
      simp only [EvalStack.peak_setDepth, Nat.max_le, and_assoc, Nat.add_zero, hplace]

end Pass

/-- The forward pass lowers a depth-consistent body at its depths. -/
theorem lower_at_depths {body : List Instruction} {regions : List Region} {method : Signature}
    {depths : Nat → Nat} (hw : WellFormed body regions)
    (hd : DepthConsistent body regions method depths) (hne : body ≠ []) :
    ∃ registers, lower body regions method =
        .ok ⟨body.mapIdx fun j i => .atDepth method (depths j) i, registers⟩ ∧
      ∀ bound, registers ≤ bound ↔ Lowered.DepthsWithin method depths body bound := by
  obtain ⟨final, hlower, hbound⟩ := lowerFrom_at_depths hw hd body rfl (tracks_start hd)
  simp only [Nat.zero_add] at hlower hbound
  refine ⟨final.peak, ?_, fun bound => by simpa using hbound bound⟩
  simp [lower_of_ne_nil hne, hw.danglingBoundary?_eq_none, hlower, Except.map]

end Forward

end Unstack
