import Unstack.Lowering
import Unstack.Proofs.TraversalDepths
import Mathlib.Order.Basic

/-!
# The two strategies agree on depth-consistent bodies

Both strategies lower every instruction of a depth-consistent body at its depth, and both need as
many registers as the least bound of these depths. So they give the same listing. A body without
instructions is the one exception: it meets every condition, and both strategies refuse it.
-/

namespace Unstack

variable {body : List Instruction} {regions : List Region} {method : Signature}
  {depths : Nat → Nat}

/-- Each strategy lowers a depth-consistent body at its depths. -/
theorem lower_at_depths (strategy : Strategy) (hw : WellFormed body regions)
    (hd : DepthConsistent body regions method depths) (hne : body ≠ []) :
    ∃ registers, lower strategy body regions method =
        .ok ⟨body.mapIdx fun j i => .atDepth method (depths j) i, registers⟩ ∧
      ∀ bound, registers ≤ bound ↔ Lowered.DepthsWithin method depths body bound := by
  cases strategy with
  | forwardPass => exact Forward.lower_at_depths hw hd hne
  | graphTraversal =>
    obtain ⟨registers, hlower, hbound⟩ := Traversal.lower_at_depths hw hd
    refine ⟨registers, ?_, hbound⟩
    simp only [lower, hw.build_eq_connect hne]
    exact hlower

/-- On a depth-consistent body with an instruction both strategies succeed, with the same lowered
instructions and the same number of registers. -/
theorem strategies_agree (hw : WellFormed body regions)
    (hd : ∃ depths, DepthConsistent body regions method depths) (hne : body ≠ []) :
    ∃ listing, lower .forwardPass body regions method = .ok listing ∧
      lower .graphTraversal body regions method = .ok listing := by
  obtain ⟨depths, hd⟩ := hd
  obtain ⟨m, hforward, hm⟩ := lower_at_depths .forwardPass hw hd hne
  obtain ⟨n, htraversal, hn⟩ := lower_at_depths .graphTraversal hw hd hne
  have hregisters : m = n := eq_of_forall_ge_iff fun bound => (hm bound).trans (hn bound).symm
  subst hregisters
  exact ⟨_, hforward, htraversal⟩

/-- The strategies agree on the guarded loop. -/
theorem strategies_agree_guardedLoop :
    WellFormed guardedLoop guardedLoopRegions ∧
      (∃ depths, DepthConsistent guardedLoop guardedLoopRegions procedure depths) ∧
      guardedLoop ≠ [] ∧
      ∃ listing, lower .forwardPass guardedLoop guardedLoopRegions procedure = .ok listing ∧
        lower .graphTraversal guardedLoop guardedLoopRegions procedure = .ok listing :=
  ⟨guardedLoop_wellFormed, ⟨_, guardedLoop_depthConsistent⟩, List.cons_ne_nil _ _,
    strategies_agree guardedLoop_wellFormed ⟨_, guardedLoop_depthConsistent⟩ (List.cons_ne_nil _ _)⟩

/-- The body without instructions meets the conditions, and no strategy lowers it. -/
theorem strategies_refuse_nil :
    WellFormed [] [] ∧ (∃ depths, DepthConsistent [] [] procedure depths) ∧
      ∀ strategy, lower strategy [] [] procedure = .error (.malformed .emptyMethod) := by
  refine ⟨⟨List.Pairwise.nil, by simp, by simp, by simp⟩,
    ⟨fun _ => 0, ⟨by simp, by simp, by simp, by simp, by simp⟩⟩, fun strategy => ?_⟩
  cases strategy <;> rfl

end Unstack
