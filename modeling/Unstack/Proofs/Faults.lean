import Unstack.Proofs.Body

/-!
# What keeps a body from having a graph

A branch dangles if it has a target at which no instruction starts, a region boundary if it is
neither such a start nor the end of the body. The searches for the first of either kind find just
these.
-/

namespace Unstack.Graph

variable {body : List Instruction} {regions : List Region}

/-- No instruction starts at the offset, and the body does not end there. -/
def Dangles (body : List Instruction) (offset : Offset) : Prop :=
  (∀ i ∈ body, i.offset ≠ offset) ∧ endOfBody? body ≠ some offset

/-- The offset is the first region boundary that dangles, the regions taken in order and the
boundaries of each in order. -/
def FirstDangling (body : List Instruction) (regions : List Region) (offset : Offset) : Prop :=
  ∃ earlier later, regions.flatMap Region.boundaries = earlier ++ offset :: later ∧
    Dangles body offset ∧ ∀ boundary ∈ earlier, ¬Dangles body boundary

/-- The test for an instruction start fails where no instruction starts. -/
theorem isStart_eq_false_iff (body : List Instruction) (offset : Offset) :
    isStart body offset = false ↔ ∀ i ∈ body, i.offset ≠ offset := by
  rw [← Bool.not_eq_true, isStart_iff]
  simp

/-- The test for a boundary that dangles. -/
theorem not_start_or_end_iff (body : List Instruction) (offset : Offset) :
    (!(isStart body offset || endOfBody? body == some offset)) = true ↔ Dangles body offset := by
  simp [Dangles, isStart_eq_false_iff]

/-- The first boundary that dangles is found. -/
theorem danglingBoundary?_eq_some_iff (body : List Instruction) (regions : List Region)
    (offset : Offset) :
    danglingBoundary? body regions = some offset ↔ FirstDangling body regions offset := by
  unfold danglingBoundary? FirstDangling
  rw [List.find?_eq_some_iff_append, not_start_or_end_iff]
  constructor
  · rintro ⟨hdangles, earlier, later, hboundaries, hearlier⟩
    refine ⟨earlier, later, hboundaries, hdangles, fun boundary hboundary hboth => ?_⟩
    have hfound := hearlier boundary hboundary
    rw [(not_start_or_end_iff body boundary).mpr hboth] at hfound
    contradiction
  · rintro ⟨earlier, later, hboundaries, hdangles, hearlier⟩
    refine ⟨hdangles, earlier, later, hboundaries, fun boundary hboundary => ?_⟩
    rw [Bool.not_eq_true', ← Bool.not_eq_true, not_start_or_end_iff]
    exact hearlier boundary hboundary

/-- No boundary is found exactly if none dangles. -/
theorem danglingBoundary?_eq_none_iff (body : List Instruction) (regions : List Region) :
    danglingBoundary? body regions = none ↔
      ∀ region ∈ regions, ∀ boundary ∈ region.boundaries, ¬Dangles body boundary := by
  unfold danglingBoundary?
  rw [List.find?_eq_none]
  simp only [not_start_or_end_iff, List.mem_flatMap]
  constructor
  · intro h region hregion boundary hboundary
    exact h boundary ⟨region, hregion, hboundary⟩
  · rintro h boundary ⟨region, hregion, hboundary⟩
    exact h region hregion boundary hboundary

/-- An instruction has no target that is found to dangle exactly if all its targets are starts. -/
theorem find_target_eq_none_iff (body : List Instruction) (i : Instruction) :
    i.branchTargets.find? (!isStart body ·) = none ↔
      ∀ t ∈ i.branchTargets, isStart body t = true := by
  rw [List.find?_eq_none]
  simp

/-- The first branch that dangles is found, with the first of its targets that does. -/
theorem danglingTarget?_eq_some_iff (body : List Instruction) (source target : Offset) :
    danglingTarget? body = some (source, target) ↔
      ∃ front branch back, body = front ++ branch :: back ∧ branch.offset = source ∧
        branch.branchTargets.find? (!isStart body ·) = some target ∧
        ∀ i ∈ front, i.branchTargets.find? (!isStart body ·) = none := by
  unfold danglingTarget?
  rw [List.findSome?_eq_some_iff]
  simp only [Option.map_eq_some_iff, Option.map_eq_none_iff, Prod.mk.injEq]
  constructor
  · rintro ⟨front, branch, back, hbody, ⟨t, hfind, hsource, rfl⟩, hfront⟩
    exact ⟨front, branch, back, hbody, hsource, hfind, hfront⟩
  · rintro ⟨front, branch, back, hbody, hsource, hfind, hfront⟩
    exact ⟨front, branch, back, hbody, ⟨target, hfind, hsource, rfl⟩, hfront⟩

/-- No branch is found exactly if all targets are instruction starts. -/
theorem danglingTarget?_eq_none_iff (body : List Instruction) :
    danglingTarget? body = none ↔
      ∀ i ∈ body, ∀ t ∈ i.branchTargets, isStart body t = true := by
  unfold danglingTarget?
  rw [List.findSome?_eq_none_iff]
  simp only [Option.map_eq_none_iff, find_target_eq_none_iff]

end Unstack.Graph
