import Unstack.Proofs.Agreement

/-!
# Lowering keeps the instructions and their order

Both strategies give one lowered instruction for every instruction of the body, in program order. For
the forward pass this follows the pass. The walk lowers blocks in the order in which it reaches
them; that nothing is lost or doubled rests on three facts: the blocks cut the body, every block is
recorded once the roots are done, and a block is recorded only once, at its own place.
-/

namespace Unstack

/-- A step lowers the instruction it is given. -/
theorem Lowered.step_source (method : Signature) (stack : EvalStack) (i : Instruction) (l : Lowered)
    (left : EvalStack) (h : Lowered.step method stack i = .ok (l, left)) : l.source = i := by
  obtain ⟨e, -, -, rfl, -⟩ := (Lowered.step_eq_ok_iff method stack i l left).mp h
  rfl

/-- Instructions that follow each other are lowered in their order. -/
theorem Lowered.run_sources (method : Signature) (stack : EvalStack) (code : List Instruction)
    (ls : List Lowered) (final : EvalStack) (h : Lowered.run method stack code = .ok (ls, final)) :
    ls.map Lowered.source = code := by
  induction code generalizing stack ls with
  | nil =>
    obtain ⟨rfl, -⟩ : [] = ls ∧ stack = final := by simpa [Lowered.run] using h
    rfl
  | cons i rest ih =>
    rw [Lowered.run] at h
    cases hstep : Lowered.step method stack i with
    | error e => simp [hstep] at h
    | ok result =>
      obtain ⟨l, left⟩ := result
      cases hrest : Lowered.run method left rest with
      | error e => simp [hstep, hrest] at h
      | ok result =>
        obtain ⟨ls', final'⟩ := result
        obtain ⟨rfl, rfl⟩ : l :: ls' = ls ∧ final' = final := by simpa [hstep, hrest] using h
        rw [List.map_cons, step_source method stack i l left hstep, ih left ls' hrest]

/-- The forward pass lowers the rest of a body in its order. -/
theorem Forward.lowerFrom_sources (starts : List Offset) (regions : List Region)
    (method : Signature) (p : Forward.Progress) (rest : List Instruction) (ls : List Lowered)
    (final : EvalStack) (h : Forward.lowerFrom starts regions method p rest = .ok (ls, final)) :
    ls.map Lowered.source = rest := by
  induction rest generalizing p ls with
  | nil =>
    obtain ⟨rfl, -⟩ : [] = ls ∧ p.stack = final := by simpa [Forward.lowerFrom] using h
    rfl
  | cons i rest ih =>
    rw [Forward.lowerFrom] at h
    split at h
    · contradiction
    · rename_i l left hstep
      split at h
      · contradiction
      · dsimp only at h
        split at h
        · contradiction
        · rename_i ls' final' hrest
          obtain ⟨rfl, rfl⟩ : l :: ls' = ls ∧ final' = final := by simpa using h
          rw [List.map_cons, Lowered.step_source _ _ _ _ _ hstep, ih _ ls' hrest]

/-- The walk records every block as its own instructions in order. -/
theorem Traversal.records_sources (g : Graph) (method : Signature) :
    Traversal.WalkInvariant g method
      (fun _ w => w.Records g fun _ block ls => ls.map Lowered.source = block.instructions)
      (fun _ => True) where
  start := Traversal.Walk.records_start g _ 0
  root _ _ _ _ _ _ hw := hw
  skip _ _ _ _ _ hw := hw
  lower k depth rest w block hblock _ hw := by
    cases hrun : Lowered.run method (.ofDepth (entryDepth block depth)) block.instructions with
    | error e => trivial
    | ok result =>
      exact hw.close hblock
        (Lowered.run_sources method _ block.instructions result.1 result.2 hrun) result.2.peak

/-- A body that is lowered through its graph has one, and the walk of it succeeds. -/
theorem Traversal.exists_graph_of_lower {body : List Instruction} {regions : List Region}
    {method : Signature} {listing : Listing}
    (h : Unstack.lower .graphTraversal body regions method = .ok listing) :
    ∃ g, Graph.build body regions = .ok g ∧ Traversal.lower g method = .ok listing := by
  unfold Unstack.lower at h
  cases hbuild : Graph.build body regions with
  | error e => simp [hbuild] at h
  | ok g =>
    rw [hbuild] at h
    exact ⟨g, rfl, h⟩

/-- The walk of a built graph lowers the body in its order. -/
theorem Traversal.sources_of_build {body : List Instruction} {regions : List Region} {g : Graph}
    (hbuild : Graph.build body regions = .ok g) {method : Signature} {listing : Listing}
    (h : Traversal.lower g method = .ok listing) :
    listing.instructions.map Lowered.source = body := by
  have hrule := Traversal.lower_rule (Traversal.records_sources g method)
    (fun _ _ => Graph.index_of_build hbuild)
  rw [h] at hrule
  obtain ⟨w, hrecords, hlength, hclosed, rfl⟩ := hrule
  have hblocks : (w.lowered.filterMap id).map (List.map Lowered.source) =
      g.blocks.map Block.instructions := by
    refine (hrecords.map_eq_mapIdx hlength hclosed).trans ?_
    apply List.ext_getElem?
    intro k
    rw [List.getElem?_mapIdx, List.getElem?_map]
  rw [List.map_flatten, hblocks]
  exact Graph.flatten_of_build hbuild

/-- The sources of a listing are the instructions of the body, each once and in program order,
whichever strategy made it. -/
theorem lower_sources (strategy : Strategy) (body : List Instruction) (regions : List Region)
    (method : Signature) (listing : Listing)
    (h : lower strategy body regions method = .ok listing) :
    listing.instructions.map Lowered.source = body := by
  cases strategy with
  | forwardPass =>
    simp only [lower, Forward.lower] at h
    split at h
    · contradiction
    · split at h
      · contradiction
      · cases hpass : Forward.lowerFrom (Forward.starts body) regions method {} body with
        | error e => simp [hpass, Except.map] at h
        | ok result =>
          obtain rfl : ⟨result.1, result.2.peak⟩ = listing := by simpa [hpass, Except.map] using h
          exact Forward.lowerFrom_sources _ regions method {} body result.1 result.2 hpass
  | graphTraversal =>
    obtain ⟨g, hbuild, hwalk⟩ := Traversal.exists_graph_of_lower h
    exact Traversal.sources_of_build hbuild hwalk

/-- The guarded loop in register form. -/
def guardedLoopLowered : List Lowered :=
  guardedLoop.zipWith (fun i slots => ⟨i, slots.1, slots.2⟩)
    [([], [⟨0⟩]), ([⟨0⟩], []), ([], []), ([⟨0⟩], []), ([], []), ([], []), ([], [])]

/-- The walk comes to the handler of the guarded loop and to the code behind the return last, and
lists them in their places. -/
theorem lower_sources_guardedLoop :
    ∃ registers, lower .graphTraversal guardedLoop guardedLoopRegions procedure =
        .ok ⟨guardedLoopLowered, registers⟩ ∧
      guardedLoopLowered.map Lowered.source = guardedLoop := by
  obtain ⟨registers, hlower, -⟩ := lower_at_depths .graphTraversal guardedLoop_wellFormed
    guardedLoop_depthConsistent (List.cons_ne_nil _ _)
  have hlowered : (guardedLoop.mapIdx fun j i => .atDepth procedure (guardedLoopDepths j) i) =
      guardedLoopLowered := by decide
  rw [hlowered] at hlower
  exact ⟨registers, hlower, lower_sources .graphTraversal _ _ _ _ hlower⟩

end Unstack
