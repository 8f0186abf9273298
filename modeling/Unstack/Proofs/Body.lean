import Unstack.Outcome
import Unstack.Proofs.GraphRules
import Mathlib.Data.List.Pairwise

/-!
# Well formed bodies and the flow between their instructions

What both lowering strategies ask of a method body: offsets increase, branches and regions name
places in it, and only instructions that transfer control carry targets. With increasing offsets an
offset stands for one instruction, so that flow can be told by offsets as well as by positions.
-/

namespace Unstack

/-- The offsets of a body increase strictly. -/
def Increasing (body : List Instruction) : Prop := body.Pairwise fun a b => a.offset < b.offset

instance (body : List Instruction) : Decidable (Increasing body) :=
  inferInstanceAs (Decidable (body.Pairwise fun a b => a.offset < b.offset))

/-- The shape of decoded and assembled bodies: branch targets are instructions of the body, region
boundaries are instructions or the end of the body, and an instruction that simply goes on has no
targets. -/
structure WellFormed (body : List Instruction) (regions : List Region) : Prop where
  increasing : Increasing body
  targets : ∀ i ∈ body, ∀ t ∈ i.branchTargets, ∃ target ∈ body, target.offset = t
  boundaries : ∀ region ∈ regions, ∀ b ∈ region.boundaries,
    (∃ i ∈ body, i.offset = b) ∨ endOfBody? body = some b
  carriers : ∀ i ∈ body, i.branchTargets ≠ [] → i.flowKind ≠ .fallthrough

/-- Control may pass from instruction `j` of a body to instruction `k`: by going on, or by a branch. -/
def FlowsTo (body : List Instruction) (j k : Nat) : Prop :=
  ∃ i target, body[j]? = some i ∧ body[k]? = some target ∧
    (i.fallsThrough = true ∧ k = j + 1 ∨ target.offset ∈ i.branchTargets)

/-- Earlier instructions have smaller offsets. -/
theorem Increasing.offset_lt {body : List Instruction} (h : Increasing body) {j k : Nat}
    {a b : Instruction} (ha : body[j]? = some a) (hb : body[k]? = some b) (hjk : j < k) :
    a.offset < b.offset := by
  obtain ⟨hj, rfl⟩ := List.getElem?_eq_some_iff.mp ha
  obtain ⟨hk, rfl⟩ := List.getElem?_eq_some_iff.mp hb
  exact List.pairwise_iff_getElem.mp h j k hj hk hjk

/-- An offset is that of one instruction only. -/
theorem Increasing.index_unique {body : List Instruction} (h : Increasing body) {j k : Nat}
    {a b : Instruction} (ha : body[j]? = some a) (hb : body[k]? = some b)
    (hoffset : a.offset = b.offset) : j = k := by
  by_contra hne
  rcases Nat.lt_or_gt_of_ne hne with hlt | hgt
  · exact Nat.ne_of_lt (h.offset_lt ha hb hlt) hoffset
  · exact Nat.ne_of_gt (h.offset_lt hb ha hgt) hoffset

/-- A body that ends somewhere has an instruction. -/
theorem ne_nil_of_endOfBody? {body : List Instruction} {stop : Offset}
    (hstop : endOfBody? body = some stop) : body ≠ [] := by
  rintro rfl
  cases hstop

/-- Every instruction starts before the body ends. -/
theorem Increasing.offset_lt_end {body : List Instruction} (h : Increasing body) {stop : Offset}
    (hstop : endOfBody? body = some stop) {i : Instruction} (hi : i ∈ body) : i.offset < stop := by
  obtain ⟨last, hlast, rfl⟩ := Option.map_eq_some_iff.mp hstop
  have hend : last.offset < last.nextOffset := Nat.lt_add_of_pos_right last.width_pos
  rw [List.getLast?_eq_getElem?] at hlast
  obtain ⟨j, hj⟩ := List.getElem?_of_mem hi
  have hlength := (List.getElem?_eq_some_iff.mp hj).1
  rcases Nat.lt_or_ge j (body.length - 1) with hbefore | hsame
  · exact Nat.lt_trans (h.offset_lt hj hlast hbefore) hend
  · obtain rfl : j = body.length - 1 := by omega
    obtain rfl : i = last := by simpa [hj] using hlast
    exact hend

/-- The test for an instruction start finds the instruction. -/
theorem isStart_iff (body : List Instruction) (offset : Offset) :
    isStart body offset = true ↔ ∃ i ∈ body, i.offset = offset := by
  simp [isStart]

/-- Every entry point of a region is one of its boundaries. -/
theorem Region.mem_boundaries_of_entryPoint (region : Region) (offset : Offset) (depth : Nat)
    (h : (offset, depth) ∈ region.entryPoints) : offset ∈ region.boundaries := by
  rcases List.mem_cons.mp h with hhandler | hfilter
  · obtain ⟨rfl, rfl⟩ := Prod.mk.inj hhandler
    simp [Region.boundaries]
  · obtain ⟨o, ho, heq⟩ := List.mem_map.mp hfilter
    obtain ⟨rfl, rfl⟩ := Prod.mk.inj heq
    exact List.mem_append_right _ ho

/-- A place that the runtime enters is a region boundary. -/
theorem Region.mem_boundaries_of_entryDepthAt (regions : List Region) (offset : Offset) (depth : Nat)
    (h : entryDepthAt regions offset = some depth) : offset ∈ regions.flatMap boundaries := by
  obtain ⟨entry, hlast, rfl⟩ := Option.map_eq_some_iff.mp h
  obtain ⟨hentry, hoffset⟩ := List.mem_filter.mp (List.mem_of_getLast? hlast)
  obtain ⟨region, hregion, hpoint⟩ := List.mem_flatMap.mp hentry
  obtain rfl : entry.1 = offset := beq_iff_eq.mp hoffset
  exact List.mem_flatMap.mpr
    ⟨region, hregion, region.mem_boundaries_of_entryPoint entry.1 entry.2 hpoint⟩

/-- A graph has the body that it was built from. -/
theorem Graph.body_of_build {body : List Instruction} {regions : List Region} {g : Graph}
    (h : Graph.build body regions = .ok g) : g.body = body := by
  unfold Graph.build at h
  cases hstop : endOfBody? body with
  | none => simp [hstop] at h
  | some stop =>
    rw [hstop] at h
    obtain ⟨leaders, -, rfl⟩ := (Outcome.map_eq_ok_iff _ _ g).mp h
    rfl

namespace WellFormed

variable {body : List Instruction} {regions : List Region}

/-- No branch of a well formed body dangles. -/
theorem find_target_eq_none (h : WellFormed body regions) {i : Instruction} (hi : i ∈ body) :
    i.branchTargets.find? (!isStart body ·) = none := by
  rw [List.find?_eq_none]
  intro t ht
  simpa using (isStart_iff body t).mpr (h.targets i hi t ht)

/-- No boundary of a well formed body dangles. -/
theorem danglingBoundary?_eq_none (h : WellFormed body regions) :
    Graph.danglingBoundary? body regions = none := by
  unfold Graph.danglingBoundary?
  rw [List.find?_eq_none]
  intro b hb
  obtain ⟨region, hregion, hb⟩ := List.mem_flatMap.mp hb
  rcases h.boundaries region hregion b hb with hstart | hend
  · simp [(isStart_iff body b).mpr hstart]
  · simp [hend]

/-- A well formed body with an instruction has no fault. -/
theorem fault?_eq_none (h : WellFormed body regions) (hne : body ≠ []) :
    Graph.fault? body regions = none := by
  have htargets : Graph.danglingTarget? body = none := by
    unfold Graph.danglingTarget?
    rw [List.findSome?_eq_none_iff]
    intro i hi
    rw [h.find_target_eq_none hi]
    rfl
  simp [Graph.fault?, hne, htargets, h.danglingBoundary?_eq_none]

end WellFormed

/-- A loop under a handler: both leave to the return, and behind it stands a loop that nothing
reaches. -/
def guardedLoop : List Instruction :=
  [⟨0, ⟨"ldc.i4.0", 0x16, .next, .pop0, .push1, .inlineNone⟩, .none⟩,
    ⟨1, ⟨"brtrue.s", 0x2D, .condBranch, .pop1, .push0, .shortInlineBrTarget⟩, .target 0⟩,
    ⟨3, ⟨"leave.s", 0xDE, .branch, .popAll, .push0, .shortInlineBrTarget⟩, .target 8⟩,
    ⟨5, ⟨"pop", 0x26, .next, .pop1, .push0, .inlineNone⟩, .none⟩,
    ⟨6, ⟨"leave.s", 0xDE, .branch, .popAll, .push0, .shortInlineBrTarget⟩, .target 8⟩,
    ⟨8, ⟨"ret", 0x2A, .ret, .varPop, .push0, .inlineNone⟩, .none⟩,
    ⟨9, ⟨"br.s", 0x2B, .branch, .pop0, .push0, .shortInlineBrTarget⟩, .target 9⟩]

/-- The handler of the guarded loop. -/
def guardedLoopRegions : List Region :=
  [{ kind := .catches, tryStart := 0, tryEnd := 5, handlerStart := 5, handlerEnd := 8 }]

/-- The signature of a method that takes and returns nothing. -/
def procedure : Signature := { returnType := Signature.voidName }

/-- The guarded loop has the shape of a decoded body. -/
theorem guardedLoop_wellFormed : WellFormed guardedLoop guardedLoopRegions where
  increasing := by decide
  targets := by decide
  boundaries := by decide
  carriers := by decide

end Unstack
