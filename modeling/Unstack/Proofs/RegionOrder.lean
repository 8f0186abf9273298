import Unstack.Lowering
import Unstack.Proofs.RegionStarts

/-!
# The order of regions

The leaders of a body are entered into a map region by region: boundaries if they are missing, entry
points over what is there. Listing the regions in another order makes the same entries in another order.
Two entries may change places unless they write different depths to one place, and that is excluded
where all the entry points at one offset have the same depth. So the map is the same, and with it the
graph; and the forward pass, which asks only at which depth an offset is entered, gives the same listing.
Only which of several dangling boundaries is named may differ.
-/

namespace Unstack

namespace Region

variable {regions others : List Region}

/-- Entry points at one offset have the same depth. -/
def EntriesAgree (regions : List Region) : Prop :=
  ∀ entry ∈ regions.flatMap entryPoints, ∀ other ∈ regions.flatMap entryPoints,
    entry.1 = other.1 → entry.2 = other.2

instance (regions : List Region) : Decidable (EntriesAgree regions) :=
  inferInstanceAs (Decidable (∀ entry ∈ regions.flatMap entryPoints,
    ∀ other ∈ regions.flatMap entryPoints, entry.1 = other.1 → entry.2 = other.2))

/-- Where entry points agree, the entry depth at an offset is that of any entry point there. -/
theorem EntriesAgree.entryDepthAt_eq_some_iff (hagree : EntriesAgree regions) (offset : Offset)
    (depth : Nat) :
    entryDepthAt regions offset = some depth ↔ (offset, depth) ∈ regions.flatMap entryPoints := by
  constructor
  · intro h
    obtain ⟨earlier, later, hentries, -⟩ := (Region.entryDepthAt_eq_some_iff _ _ _).mp h
    rw [hentries]
    exact List.mem_append_right earlier List.mem_cons_self
  · intro hmem
    obtain ⟨region, hregion, hentry⟩ := List.mem_flatMap.mp hmem
    have hstart : offset ∈ region.entries := by
      rw [← map_fst_entryPoints]
      exact List.mem_map_of_mem hentry
    -- the last entry point at the offset is another one perhaps, but has the same depth
    obtain ⟨last, hlast, earlier, later, hentries, -⟩ := exists_lastEntry hregion hstart
    have hmem' : (offset, last) ∈ regions.flatMap entryPoints := by
      rw [hentries]
      exact List.mem_append_right earlier List.mem_cons_self
    have hdepth : last = depth := hagree (offset, last) hmem' (offset, depth) hmem rfl
    rw [hlast, hdepth]

/-- Lists with the same regions have the same parts of regions. -/
theorem mem_flatMap_congr (hsame : ∀ region, region ∈ regions ↔ region ∈ others) {α : Type}
    (parts : Region → List α) (a : α) : a ∈ regions.flatMap parts ↔ a ∈ others.flatMap parts := by
  simp only [List.mem_flatMap, hsame]

/-- Lists with the same regions agree alike on their entry points. -/
theorem EntriesAgree.congr (hagree : EntriesAgree regions)
    (hsame : ∀ region, region ∈ regions ↔ region ∈ others) : EntriesAgree others := by
  intro entry hentry other hother
  exact hagree entry ((mem_flatMap_congr hsame entryPoints entry).mpr hentry) other
    ((mem_flatMap_congr hsame entryPoints other).mpr hother)

/-- The runtime enters each offset at the same depth whatever the order of the regions. -/
theorem EntriesAgree.entryDepthAt_congr (hagree : EntriesAgree regions)
    (hsame : ∀ region, region ∈ regions ↔ region ∈ others) :
    entryDepthAt regions = entryDepthAt others := by
  funext offset
  apply Option.ext
  intro depth
  rw [hagree.entryDepthAt_eq_some_iff, (hagree.congr hsame).entryDepthAt_eq_some_iff]
  exact mem_flatMap_congr hsame entryPoints (offset, depth)

end Region

/-- Lists with the same items have both an item that passes a test, though it need not be the same one,
or neither has. -/
theorem find?_same {α : Type} {items others : List α} (hsame : ∀ a, a ∈ items ↔ a ∈ others)
    (test : α → Bool) :
    (∃ a b, items.find? test = some a ∧ others.find? test = some b) ∨
      items.find? test = none ∧ others.find? test = none := by
  have hnone : items.find? test = none ↔ others.find? test = none := by
    simp only [List.find?_eq_none, hsame]
  cases hfirst : items.find? test with
  | none => exact .inr ⟨rfl, hnone.mp hfirst⟩
  | some a =>
    cases hother : others.find? test with
    | none => cases hfirst.symm.trans (hnone.mpr hother)
    | some b => exact .inl ⟨a, b, rfl, rfl⟩

namespace Graph

variable {regions others : List Region}

namespace Leaders

variable {body : Array Instruction}

/-- An entry with a depth is for an entry point of a region. -/
theorem exists_point_of_depth {entry : Nat × Option Nat} (h : entry ∈ allEntries body regions)
    {depth : Nat} (hdepth : depth ∈ entry.2) :
    ∃ offset, (offset, depth) ∈ regions.flatMap Region.entryPoints ∧
      indexOf? body offset = some entry.1 := by
  rcases List.mem_append.mp h with hcode | hregions
  · obtain ⟨item, -, hitem⟩ := List.mem_flatMap.mp hcode
    rw [((mem_instructionEntries_iff item entry).mp hitem).1] at hdepth
    cases hdepth
  · obtain ⟨region, hregion, hmem⟩ := List.mem_flatMap.mp hregions
    rcases (mem_regionEntries_iff region entry).mp hmem with
      ⟨boundary, -, -, hnone⟩ | ⟨⟨offset, depth'⟩, hpoint, hplace, hsome⟩
    · rw [hnone] at hdepth
      cases hdepth
    · obtain rfl : depth' = depth := Option.some.inj (hsome.symm.trans hdepth)
      exact ⟨offset, List.mem_flatMap.mpr ⟨region, hregion, hpoint⟩, hplace⟩

/-- Where entry points agree, no place is written with two depths. -/
theorem depths_agree (hagree : Region.EntriesAgree regions) :
    ∀ a ∈ allEntries body regions, ∀ b ∈ allEntries body regions, a.1 = b.1 →
      ∀ depth ∈ a.2, ∀ depth' ∈ b.2, depth = depth' := by
  intro a ha b hb hplace depth hdepth depth' hdepth'
  obtain ⟨offset, hpoint, hfound⟩ := exists_point_of_depth ha hdepth
  obtain ⟨offset', hpoint', hfound'⟩ := exists_point_of_depth hb hdepth'
  -- both offsets are that of the instruction at the place
  obtain ⟨i, hi, rfl⟩ := of_indexOf?_eq_some hfound
  obtain ⟨i', hi', rfl⟩ := of_indexOf?_eq_some hfound'
  rw [hplace, hi', Option.some.injEq] at hi
  exact hagree _ hpoint _ hpoint' (congrArg Instruction.offset hi.symm)

/-- The leaders are the same whatever the order of the regions: the entries are made in another order,
and those for one place may change theirs. -/
theorem collected_perm (hperm : regions.Perm others) (hagree : Region.EntriesAgree regions) :
    collected body regions = collected body others :=
  foldl_put_perm ((hperm.flatMap_right _).append_left _) (depths_agree hagree) _

end Leaders

/-- A body has the same graph or the same fault whatever the order of the regions, unless a boundary
dangles. -/
theorem build_perm (body : List Instruction) (hperm : regions.Perm others)
    (hagree : Region.EntriesAgree regions) :
    (∃ boundary other, build body regions = .error (.danglingBoundary boundary) ∧
        build body others = .error (.danglingBoundary other)) ∨
      build body regions = build body others := by
  unfold build
  cases endOfBody? body with
  | none => exact .inr rfl
  | some stop =>
    simp only [Leaders.collect_eq, Leaders.collected_perm hperm hagree, Leaders.fault?]
    cases body.toArray.toList.findSome? _ with
    | some e => exact .inr rfl
    | none =>
      rcases find?_same (Region.mem_flatMap_congr (fun _ => hperm.mem_iff) Region.boundaries)
        (fun boundary => (indexOf? body.toArray boundary).isNone && boundary != stop) with
        ⟨boundary, other, hfirst, hother⟩ | ⟨hfirst, hother⟩
      · left
        refine ⟨boundary, other, ?_, ?_⟩
        · rw [hfirst]
          rfl
        · rw [hother]
          rfl
      · right
        rw [hfirst, hother]

end Graph

namespace Forward

variable {body : List Instruction} {regions others : List Region}

/-- The pass asks of the regions only at which depths they are entered. -/
theorem lowerFrom_congr (hdepths : Region.entryDepthAt regions = Region.entryDepthAt others)
    (starts : List Offset) (method : Signature) (p : Progress) (rest : List Instruction) :
    lowerFrom starts regions method p rest = lowerFrom starts others method p rest := by
  have henter : enter regions = enter others := by
    funext p offset
    simp only [enter, hdepths]
  induction rest generalizing p with
  | nil => rfl
  | cons i rest ih => simp only [lowerFrom, henter, ih]

/-- The pass gives the same listing or the same fault whatever the order of the regions, unless a
boundary dangles. -/
theorem lower_congr (hsame : ∀ region, region ∈ regions ↔ region ∈ others)
    (hagree : Region.EntriesAgree regions) (method : Signature) :
    (∃ boundary other,
        lower body regions method = .error (.malformed (.danglingBoundary boundary)) ∧
          lower body others method = .error (.malformed (.danglingBoundary other))) ∨
      lower body regions method = lower body others method := by
  unfold lower
  cases endOfBody? body with
  | none => exact .inr rfl
  | some stop =>
    rcases find?_same (Region.mem_flatMap_congr hsame Region.boundaries)
      (fun boundary => boundary != stop && !(starts body).contains boundary) with
      ⟨boundary, other, hfirst, hother⟩ | ⟨hfirst, hother⟩
    · left
      refine ⟨boundary, other, ?_, ?_⟩
      · simp only [danglingBoundary?, hfirst]
      · simp only [danglingBoundary?, hother]
    · right
      simp only [danglingBoundary?, hfirst, hother, lowerFrom_congr (hagree.entryDepthAt_congr hsame)]

end Forward

/-- Two lists of regions serve a body alike: it has the same graph with both, its forward pass ends in
the same way, and so does the walk of its graph. Where a boundary dangles, one does with the other list
too. -/
structure ServeAlike (body : List Instruction) (regions others : List Region) : Prop where
  built :
    (∃ boundary other, Graph.build body regions = .error (.danglingBoundary boundary) ∧
        Graph.build body others = .error (.danglingBoundary other)) ∨
      Graph.build body regions = Graph.build body others
  passed : ∀ method,
    (∃ boundary other,
        Forward.lower body regions method = .error (.malformed (.danglingBoundary boundary)) ∧
          Forward.lower body others method = .error (.malformed (.danglingBoundary other))) ∨
      Forward.lower body regions method = Forward.lower body others method
  walked : ∀ g h method, Graph.build body regions = .ok g → Graph.build body others = .ok h →
    Traversal.lower g method = Traversal.lower h method

/-- The order of regions does not matter if entry points at one offset have the same depth. -/
theorem permuted_serveAlike (body : List Instruction) {regions others : List Region}
    (hperm : regions.Perm others) (hagree : Region.EntriesAgree regions) :
    ServeAlike body regions others where
  built := Graph.build_perm body hperm hagree
  passed := Forward.lower_congr (fun _ => hperm.mem_iff) hagree
  walked g h method hg hh := by
    rcases Graph.build_perm body hperm hagree with ⟨boundary, other, hfirst, -⟩ | hsame
    · rw [hg] at hfirst
      cases hfirst
    · rw [hg, hh] at hsame
      cases hsame
      rfl

/-- The overlapping regions of the guarded loop, where one handler ends at the other, may be listed the
other way round: the six blocks, their edges and the depths at which they are entered are the same. -/
theorem guardedLoop_serveAlike :
    Graph.filteredRegions.Perm Graph.filteredRegions.reverse ∧
      Graph.filteredRegions ≠ Graph.filteredRegions.reverse ∧
      Region.EntriesAgree Graph.filteredRegions ∧
      ServeAlike guardedLoop Graph.filteredRegions Graph.filteredRegions.reverse ∧
      ∃ g, Graph.build guardedLoop Graph.filteredRegions = .ok g ∧
        Graph.build guardedLoop Graph.filteredRegions.reverse = .ok g ∧
        g.blocks.map (fun block => (block.start?, block.predecessors, block.successors,
            block.entryDepth)) =
          [(some 0, [1], [1], none), (some 1, [0], [0, 2], none), (some 3, [1], [4], some 1),
            (some 5, [], [4], some 1), (some 8, [2, 3], [], some 0), (some 9, [5], [5], none)] := by
  have hperm := (List.reverse_perm Graph.filteredRegions).symm
  have hagree : Region.EntriesAgree Graph.filteredRegions := by decide
  have hinc := guardedLoop_wellFormed.increasing
  refine ⟨hperm, by decide, hagree, permuted_serveAlike guardedLoop hperm hagree,
    Graph.connect guardedLoop Graph.filteredRegions, Graph.build_eq_connect hinc rfl, ?_, by decide⟩
  rw [Graph.build_eq_checked hinc]
  rfl

-- where two regions share a handler and differ in its depth, the last one listed decides
example : Region.entryDepthAt Graph.sharedHandler 5 ≠
    Region.entryDepthAt Graph.sharedHandler.reverse 5 := by decide

end Unstack
