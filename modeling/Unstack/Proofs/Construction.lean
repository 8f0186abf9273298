import Unstack.Proofs.Assembling
import Unstack.Proofs.BlockStarts
import Unstack.Proofs.Faults

/-!
# Building keeps to the rules

Where offsets increase, binary search finds an instruction at its offset. So the checks made while
leaders are collected fail where the rules find a fault, and the leaders are the places at which the
rules cut the body, each with the depth of the last entry point there. Two ascending lists of the same
places are the same, so that the slices between the leaders are the segments; the table of block numbers
then leads every target to the segment that starts there, and the graph is the one that the rules make.
-/

namespace Unstack.Graph

variable {body : List Instruction} {regions : List Region}

section Lookup

/-- With increasing offsets the place of an instruction is found by its offset. -/
theorem indexOf?_eq_some_iff (hinc : Increasing body) (offset : Offset) (place : Nat) :
    indexOf? body.toArray offset = some place ↔ ∃ i, body[place]? = some i ∧ i.offset = offset := by
  have hkeys : ∀ k < body.toArray.size, ∃ key, body.toArray[k]?.map Instruction.offset = some key := by
    intro k hk
    exact ⟨_, by rw [List.getElem?_toArray, List.getElem?_eq_getElem hk, Option.map_some]⟩
  have hascend : ∀ (j k : Nat) (a b : Offset), j < k → body.toArray[j]?.map Instruction.offset = some a →
      body.toArray[k]?.map Instruction.offset = some b → a < b := by
    intro j k a b hjk hj hk
    rw [List.getElem?_toArray] at hj hk
    obtain ⟨first, hfirst, rfl⟩ := Option.map_eq_some_iff.mp hj
    obtain ⟨second, hsecond, rfl⟩ := Option.map_eq_some_iff.mp hk
    exact hinc.offset_lt hfirst hsecond hjk
  rw [indexOf?, Search.bisect_keys_eq_some_iff hkeys hascend, List.getElem?_toArray,
    Option.map_eq_some_iff]
  constructor
  · exact fun h => h.2
  · rintro ⟨i, hi, hoffset⟩
    exact ⟨(List.getElem?_eq_some_iff.mp hi).1, i, hi, hoffset⟩

/-- The place of an instruction is found by its offset and by no other. -/
theorem indexOf?_eq_some_iff_of_getElem? (hinc : Increasing body) {place : Nat} {i : Instruction}
    (hi : body[place]? = some i) (offset : Offset) :
    indexOf? body.toArray offset = some place ↔ offset = i.offset := by
  rw [indexOf?_eq_some_iff hinc, hi]
  simp [eq_comm]

/-- Nothing is found where no instruction starts. -/
theorem isNone_indexOf? (hinc : Increasing body) (offset : Offset) :
    (indexOf? body.toArray offset).isNone = !isStart body offset := by
  rw [Bool.eq_iff_iff, Bool.not_eq_true', isStart_eq_false_iff, Option.isNone_iff_eq_none,
    Option.eq_none_iff_forall_ne_some]
  constructor
  · intro hnone i hi hoffset
    obtain ⟨place, hplace⟩ := List.getElem?_of_mem hi
    exact hnone place ((indexOf?_eq_some_iff hinc offset place).mpr ⟨i, hplace, hoffset⟩)
  · intro hnone place hplace
    obtain ⟨i, hi, hoffset⟩ := (indexOf?_eq_some_iff hinc offset place).mp hplace
    exact hnone i (List.mem_of_getElem? hi) hoffset

end Lookup

section Faults

/-- The checks of collecting find the fault that the rules find. -/
theorem leaders_fault?_eq (hinc : Increasing body) {stop : Offset} (hstop : endOfBody? body = some stop)
    (regions : List Region) : Leaders.fault? body.toArray stop regions = fault? body regions := by
  have hne := ne_nil_of_endOfBody? hstop
  have htargets : (body.findSome? fun i =>
      (i.branchTargets.find? (!isStart body ·)).map (GraphError.danglingTarget i.offset)) =
        (danglingTarget? body).map fun branch => .danglingTarget branch.1 branch.2 := by
    rw [danglingTarget?, List.map_findSome?]
    congr
    funext i
    rw [Function.comp_apply, Option.map_map]
    rfl
  have hboundaries : ((regions.flatMap Region.boundaries).find? fun boundary =>
      !isStart body boundary && boundary != stop) = danglingBoundary? body regions := by
    rw [danglingBoundary?, hstop]
    congr
    funext boundary
    rw [Bool.eq_iff_iff]
    simp [ne_comm]
  simp only [Leaders.fault?, isNone_indexOf? hinc, htargets, hboundaries, fault?,
    List.isEmpty_iff, if_neg hne]
  cases danglingTarget? body with
  | some branch => rfl
  | none => rfl

end Faults

section Leaders

/-- The leaders are the places at which the rules start a block. -/
theorem has_collected_iff (hinc : Increasing body) {place : Nat} {i : Instruction}
    (hi : body[place]? = some i) :
    (Leaders.collected body.toArray regions).Has place ↔ (connect body regions).StartsBlock place := by
  have hfound := indexOf?_eq_some_iff_of_getElem? hinc hi
  rw [startsBlock_iff_rule hi, Leaders.collected, Leaders.has_foldl_put_iff, Leaders.has_singleton_iff]
  apply or_congr_right
  constructor
  · rintro ⟨entry, hentry, rfl⟩
    rcases List.mem_append.mp hentry with hcode | hregions
    · obtain ⟨⟨branch, before⟩, hitem, hmem⟩ := List.mem_flatMap.mp hcode
      have hbranch := List.mem_zipIdx_iff_getElem?.mp hitem
      obtain ⟨-, ⟨t, ht, hplace⟩ | ⟨hkind, hnext, -⟩⟩ :=
        (Leaders.mem_instructionEntries_iff _ entry).mp hmem
      · obtain rfl := (hfound t).mp hplace
        exact .inl ⟨branch, List.mem_of_getElem? hbranch, ht⟩
      · exact .inr (.inr ⟨before, branch, hnext, hbranch, hkind⟩)
    · obtain ⟨region, hregion, hmem⟩ := List.mem_flatMap.mp hregions
      rcases (Leaders.mem_regionEntries_iff region entry).mp hmem with
        ⟨boundary, hboundary, hplace, -⟩ | ⟨point, hpoint, hplace, -⟩
      · obtain rfl := (hfound boundary).mp hplace
        exact .inr (.inl ⟨region, hregion, hboundary⟩)
      · rw [← (hfound point.1).mp hplace]
        exact .inr (.inl ⟨region, hregion,
          region.mem_boundaries_of_entryPoint point.1 point.2 hpoint⟩)
  · rintro (⟨branch, hbranch, ht⟩ | ⟨region, hregion, hboundary⟩ | ⟨before, branch, rfl, hbranch, hkind⟩)
    · obtain ⟨n, hn⟩ := List.getElem?_of_mem hbranch
      refine ⟨(place, none), List.mem_append_left _ (List.mem_flatMap.mpr ⟨(branch, n), ?_, ?_⟩), rfl⟩
      · exact List.mem_zipIdx_iff_getElem?.mpr hn
      · exact (Leaders.mem_instructionEntries_iff _ _).mpr
          ⟨rfl, .inl ⟨i.offset, ht, (hfound i.offset).mpr rfl⟩⟩
    · refine ⟨(place, none), List.mem_append_right _ (List.mem_flatMap.mpr ⟨region, hregion, ?_⟩), rfl⟩
      exact (Leaders.mem_regionEntries_iff _ _).mpr
        (.inl ⟨i.offset, hboundary, (hfound i.offset).mpr rfl, rfl⟩)
    · refine ⟨(before + 1, none),
        List.mem_append_left _ (List.mem_flatMap.mpr ⟨(branch, before), ?_, ?_⟩), rfl⟩
      · exact List.mem_zipIdx_iff_getElem?.mpr hbranch
      · exact (Leaders.mem_instructionEntries_iff _ _).mpr
          ⟨rfl, .inr ⟨hkind, rfl, (List.getElem?_eq_some_iff.mp hi).1⟩⟩

/-- A leader has the depth at which the runtime enters its instruction. -/
theorem depthAt_collected (hinc : Increasing body) {place : Nat} {i : Instruction}
    (hi : body[place]? = some i) :
    (Leaders.collected body.toArray regions).depthAt place = Region.entryDepthAt regions i.offset := by
  have hnone : Leaders.depthAt (.singleton 0 none) place = none := by
    rw [Leaders.depthAt, OrderedMap.get?_singleton]
    split <;> rfl
  have hpoints : (fun point : Offset × Nat => indexOf? body.toArray point.1 == some place) =
      fun point => point.1 == i.offset := by
    funext point
    rw [Bool.eq_iff_iff, beq_iff_eq, beq_iff_eq]
    exact indexOf?_eq_some_iff_of_getElem? hinc hi point.1
  rw [Leaders.collected, Leaders.depthAt_foldl_put, Leaders.depthsAt_allEntries, hnone, Option.or_none,
    hpoints, List.getLast?_map]
  rfl

/-- The segments of a body start at places of it. -/
theorem startOf_lt_length {k : Nat} (hk : k < (segments body regions).length) :
    ∃ i, body[startOf (segments body regions) k]? = some i ∧
      (segments body regions)[k][0]? = some i := by
  have hsegment := List.getElem?_eq_getElem hk
  have hpos := List.length_pos_iff.mpr (segment_ne_nil hsegment)
  have hfirst := List.getElem?_eq_getElem hpos
  exact ⟨_, getElem?_segment hsegment hfirst, hfirst⟩

/-- The leaders are the starts of the segments, in order. -/
theorem map_fst_entries_collected (hinc : Increasing body) (hne : body ≠ [])
    (regions : List Region) :
    (Leaders.collected body.toArray regions).entries.map Prod.fst =
      (List.range (segments body regions).length).map (startOf (segments body regions)) := by
  have hcovers := Leaders.covers_collected hne regions
  have hleaders : ((Leaders.collected body.toArray regions).entries.map Prod.fst).Pairwise (· < ·) :=
    List.pairwise_map.mpr (Leaders.collected body.toArray regions).ascending
  have hstarts : ((List.range (segments body regions).length).map
      (startOf (segments body regions))).Pairwise (· < ·) := by
    rw [List.pairwise_map]
    apply List.pairwise_lt_range.imp_of_mem
    intro j k hj _ hjk
    exact startOf_lt (List.getElem?_eq_getElem (List.mem_range.mp hj)) hjk
  apply hleaders.eq_of_mem_iff hstarts
  intro place
  have hplace : place ∈ (Leaders.collected body.toArray regions).entries.map Prod.fst ↔
      (Leaders.collected body.toArray regions).Has place := by
    rw [Leaders.has_iff_exists_entry, List.mem_map]
    simp
  rw [hplace, List.mem_map]
  simp only [List.mem_range]
  rw [← startsBlock_iff]
  constructor
  · intro hhas
    have hlt : place < body.length := hcovers.within place hhas
    exact (has_collected_iff hinc (List.getElem?_eq_getElem hlt)).mp hhas
  · intro hblock
    obtain ⟨k, hk, rfl⟩ := (startsBlock_iff body regions place).mp hblock
    obtain ⟨i, hi, -⟩ := startOf_lt_length hk
    exact (has_collected_iff hinc hi).mpr hblock

end Leaders

section Linking

/-- There are as many leaders as segments. -/
theorem length_entries_collected (hinc : Increasing body) (hne : body ≠ []) (regions : List Region) :
    (Leaders.collected body.toArray regions).entries.length = (segments body regions).length := by
  simpa using congrArg List.length (map_fst_entries_collected hinc hne regions)

/-- The entry of a leader is the start of its segment, with the depth at which the runtime enters it. -/
theorem getElem?_entries_collected (hinc : Increasing body) (hne : body ≠ []) (regions : List Region)
    (k : Nat) :
    (Leaders.collected body.toArray regions).entries[k]? =
      (segments body regions)[k]?.map fun segment =>
        (startOf (segments body regions) k,
          (segment.head?.map (·.offset)).bind (Region.entryDepthAt regions)) := by
  have hplaces := congrArg (·[k]?) (map_fst_entries_collected hinc hne regions)
  simp only [List.getElem?_map] at hplaces
  by_cases hk : k < (segments body regions).length
  · rw [List.getElem?_range hk, Option.map_some] at hplaces
    obtain ⟨⟨place, depth⟩, hentry, hplace⟩ := Option.map_eq_some_iff.mp hplaces
    obtain rfl : place = startOf (segments body regions) k := hplace
    obtain ⟨i, hi, hfirst⟩ := startOf_lt_length hk
    have hdepth : depth = Region.entryDepthAt regions i.offset := by
      have hget := (OrderedMap.mem_entries_iff _ _ _).mp (List.mem_of_getElem? hentry)
      rw [← depthAt_collected hinc hi, Leaders.depthAt, hget]
      rfl
    rw [hentry, List.getElem?_eq_getElem hk, Option.map_some, List.head?_eq_getElem?, hfirst, hdepth]
    rfl
  · have hlength := length_entries_collected hinc hne regions
    rw [List.getElem?_eq_none (by omega), List.getElem?_eq_none (Nat.not_lt.mp hk), Option.map_none]

/-- The slice of a leader ends with its segment. -/
theorem stopOf_collected (hinc : Increasing body) {k : Nat} {segment : List Instruction}
    (hsegment : (segments body regions)[k]? = some segment) :
    stopOf body.toArray (Leaders.collected body.toArray regions).entries k =
      startOf (segments body regions) k + segment.length := by
  have hne : body ≠ [] := by
    rintro rfl
    cases hsegment
  rw [stopOf, getElem?_entries_collected hinc hne, ← startOf_succ hsegment]
  cases hnext : (segments body regions)[k + 1]? with
  | some next => rfl
  | none =>
    -- the last segment ends with the body
    rw [startOf, List.take_of_length_le (List.getElem?_eq_none_iff.mp hnext), segments_flatten]
    rfl

/-- The slice of a leader is its segment. -/
theorem toList_extract_collected (hinc : Increasing body) {k : Nat} {segment : List Instruction}
    (hsegment : (segments body regions)[k]? = some segment) :
    (body.toArray.extract (startOf (segments body regions) k)
      (stopOf body.toArray (Leaders.collected body.toArray regions).entries k)).toList = segment := by
  have hdrop : body.drop (startOf (segments body regions) k) =
      segment ++ ((segments body regions).drop (k + 1)).flatten := by
    have hsplit := flatten_eq_append hsegment
    rw [segments_flatten] at hsplit
    exact (congrArg (List.drop _) hsplit).trans List.drop_left
  rw [stopOf_collected hinc hsegment, Array.toList_extract, List.extract_eq_take_drop,
    Nat.add_sub_cancel_left, List.toList_toArray, hdrop, List.take_left]

/-- The table leads a target to the segment that starts there. -/
theorem targetBlock?_collected (hinc : Increasing body) {branch : Instruction} (hbranch : branch ∈ body)
    {t : Offset} (ht : t ∈ branch.branchTargets) :
    targetBlock? body.toArray
        (blockTable body.toArray (Leaders.collected body.toArray regions).entries) t =
      segmentAt? (segments body regions) t := by
  have hne : body ≠ [] := List.ne_nil_of_mem hbranch
  rw [targetBlock?]
  cases hplace : indexOf? body.toArray t with
  | none =>
    rw [Option.bind_none, eq_comm, Option.eq_none_iff_forall_ne_some]
    intro k hk
    obtain ⟨segment, first, hsegment, hfirst, hoffset⟩ := (segmentAt?_eq_some_iff hinc t k).mp hk
    have hfound := (indexOf?_eq_some_iff hinc t _).mpr ⟨first, getElem?_segment hsegment hfirst, hoffset⟩
    rw [hplace] at hfound
    cases hfound
  | some place =>
    obtain ⟨i, hi, rfl⟩ := (indexOf?_eq_some_iff hinc t place).mp hplace
    have hstarts : (connect body regions).StartsBlock place :=
      (startsBlock_iff_rule hi).mpr (.inr (.inl ⟨branch, hbranch, ht⟩))
    obtain ⟨k, hk, rfl⟩ := (startsBlock_iff body regions place).mp hstarts
    obtain ⟨first, hplace', hfirst⟩ := startOf_lt_length hk
    obtain rfl : i = first := Option.some.inj (hi.symm.trans hplace')
    have hentry := getElem?_entries_collected hinc hne regions k
    rw [List.getElem?_eq_getElem hk, Option.map_some] at hentry
    have htable := (Leaders.covers_collected hne regions).getElem?_blockTable hentry
    rw [Option.bind_some, htable, eq_comm, segmentAt?_eq_some_iff hinc]
    exact ⟨_, i, List.getElem?_eq_getElem hk, hfirst, rfl⟩

/-- A slice with its successors is the block of its segment, but for its predecessors. -/
theorem getElem?_linked_collected (hinc : Increasing body) (hne : body ≠ []) (regions : List Region)
    (k : Nat) :
    (linked body.toArray (Leaders.collected body.toArray regions))[k]? =
      (segments body regions)[k]?.map fun segment =>
        { blockOf regions (segments body regions) k segment with predecessors := [] } := by
  rw [linked, List.getElem?_map, slices, List.getElem?_mapIdx, getElem?_entries_collected hinc hne,
    length_entries_collected hinc hne]
  cases hsegment : (segments body regions)[k]? with
  | none => rfl
  | some segment =>
    simp only [Option.map_some, Option.some.injEq, toList_extract_collected hinc hsegment]
    have htargets : ∀ t ∈ (segment.getLast?.map Instruction.branchTargets).getD [],
        targetBlock? body.toArray
            (blockTable body.toArray (Leaders.collected body.toArray regions).entries) t =
          segmentAt? (segments body regions) t := by
      intro t ht
      cases hlast : segment.getLast? with
      | none => simp [hlast] at ht
      | some last =>
        rw [hlast] at ht
        have hplace := getElem?_segment hsegment (List.getLast?_eq_getElem?.symm.trans hlast)
        exact targetBlock?_collected hinc (List.mem_of_getElem? hplace) ht
    rw [linkForward, foldl_addSuccessor]
    simp only [Block.last?, List.filterMap_congr htargets]
    rfl

/-- With increasing offsets the graph of the leaders is the one that the rules make. -/
theorem assemble_collected (hinc : Increasing body) (hne : body ≠ []) (regions : List Region) :
    assemble body.toArray (Leaders.collected body.toArray regions) = connect body regions := by
  have hedges : ∀ m, successorsAt (linked body.toArray (Leaders.collected body.toArray regions)) m =
      (((segments body regions).zipIdx.map fun entry =>
        successorsOf (segments body regions) entry.2 entry.1)[m]?).getD [] := by
    intro m
    rw [successorsAt, getElem?_linked_collected hinc hne, List.getElem?_map, List.getElem?_zipIdx,
      Option.map_map, Option.map_map]
    simp [blockOf, Function.comp_def]
  have hblocks : (assemble body.toArray (Leaders.collected body.toArray regions)).blocks =
      (connect body regions).blocks := by
    apply List.ext_getElem?
    intro k
    rw [getElem?_assemble, getElem?_linked_collected hinc hne, connect_blocks, List.getElem?_mapIdx,
      Option.map_map]
    congr
    funext segment
    simp [blockOf, predecessorsOf, hedges, length_entries_collected hinc hne]
  exact congrArg (Graph.mk body) hblocks

end Linking

section Build

variable {g : Graph}

/-- With increasing offsets, building reports the fault that the rules find, or else makes the graph
of the rules. -/
theorem build_eq_checked (hinc : Increasing body) (regions : List Region) :
    build body regions = Outcome.checked (fault? body regions) (connect body regions) := by
  unfold build
  cases hstop : endOfBody? body with
  | none =>
    obtain rfl : body = [] := by simpa [endOfBody?] using hstop
    rfl
  | some stop =>
    have hne := ne_nil_of_endOfBody? hstop
    simp only [Leaders.collect_eq, Outcome.map_checked, leaders_fault?_eq hinc hstop,
      assemble_collected hinc hne]

/-- A body without a fault has the graph of the rules. -/
theorem build_eq_connect (hinc : Increasing body) (hfault : fault? body regions = none) :
    build body regions = .ok (connect body regions) := by
  rw [build_eq_checked hinc, hfault]
  rfl

/-- A graph that is built is the one that the rules make. -/
theorem eq_connect_of_build (h : build body regions = .ok g) (hinc : Increasing body) :
    g = connect body regions := by
  rw [build_eq_checked hinc] at h
  cases hfault : fault? body regions with
  | some e =>
    rw [hfault] at h
    cases h
  | none =>
    rw [hfault] at h
    cases h
    rfl

/-- A body has a graph exactly if it has an instruction, all targets are instruction starts and no
boundary dangles. -/
theorem build_eq_ok_iff (hinc : Increasing body) (regions : List Region) (g : Graph) :
    build body regions = .ok g ↔
      body ≠ [] ∧ (∀ i ∈ body, ∀ t ∈ i.branchTargets, isStart body t = true) ∧
        (∀ region ∈ regions, ∀ boundary ∈ region.boundaries, ¬Dangles body boundary) ∧
        g = connect body regions := by
  rw [← danglingTarget?_eq_none_iff, ← danglingBoundary?_eq_none_iff, build_eq_checked hinc]
  unfold fault?
  cases body with
  | nil => simp [Outcome.checked]
  | cons i rest =>
    cases danglingTarget? (i :: rest) with
    | some pair => simp [Outcome.checked]
    | none =>
      cases danglingBoundary? (i :: rest) regions with
      | some boundary => simp [Outcome.checked]
      | none => simp [Outcome.checked, eq_comm]

/-- Why a body has no graph: it has no instruction, or a branch dangles, or none does and a boundary
dangles. -/
theorem build_eq_error_iff (hinc : Increasing body) (regions : List Region) (cause : GraphError) :
    build body regions = .error cause ↔
      body = [] ∧ cause = .emptyMethod ∨
        body ≠ [] ∧ ((∃ source target, danglingTarget? body = some (source, target) ∧
            cause = .danglingTarget source target) ∨
          danglingTarget? body = none ∧ ∃ offset, danglingBoundary? body regions = some offset ∧
            cause = .danglingBoundary offset) := by
  rw [build_eq_checked hinc]
  unfold fault?
  cases body with
  | nil => simp [Outcome.checked, eq_comm]
  | cons i rest =>
    cases danglingTarget? (i :: rest) with
    | some pair => simp [Outcome.checked, Prod.ext_iff, and_assoc, eq_comm]
    | none =>
      cases danglingBoundary? (i :: rest) regions with
      | some boundary => simp [Outcome.checked, eq_comm]
      | none => simp [Outcome.checked]

/-- A body that has a graph is well formed if its offsets increase and no instruction that simply goes
on has targets. -/
theorem wellFormed_of_build (h : build body regions = .ok g) (hinc : Increasing body)
    (hcarriers : ∀ i ∈ body, i.branchTargets ≠ [] → i.flowKind ≠ .fallthrough) :
    WellFormed body regions := by
  obtain ⟨-, htargets, hboundaries, -⟩ := (build_eq_ok_iff hinc regions g).mp h
  refine ⟨hinc, fun i hi t ht => (isStart_iff body t).mp (htargets i hi t ht), ?_, hcarriers⟩
  intro region hregion boundary hboundary
  have hplace := hboundaries region hregion boundary hboundary
  unfold Dangles at hplace
  by_contra hno
  rw [not_or] at hno
  exact hplace ⟨fun i hi hoffset => hno.1 ⟨i, hi, hoffset⟩, hno.2⟩

/-- A graph that is built from a body with increasing offsets partitions it. -/
theorem build_partitions (h : Graph.build body regions = .ok g) (hinc : Increasing body) :
    g.Partitions body regions := by
  rw [eq_connect_of_build h hinc]
  exact connect_partitions body regions

end Build

/-- Two regions with one handler, of which the second says how it is entered. -/
def sharedHandler : List Region :=
  [{ kind := .catches, tryStart := 0, tryEnd := 3, handlerStart := 5, handlerEnd := 8 },
    { kind := .finalizes, tryStart := 0, tryEnd := 5, handlerStart := 5, handlerEnd := 8 }]

/-- The guarded loop is cut into five blocks, of which the third is the shared handler. -/
theorem guardedLoop_partitions :
    ∃ g, Graph.build guardedLoop sharedHandler = .ok g ∧ Increasing guardedLoop ∧
      g.Partitions guardedLoop sharedHandler ∧
      g.blocks.map (fun block => (block.index, block.instructions.length, block.entryDepth)) =
        [(0, 2, none), (1, 1, none), (2, 2, some 0), (3, 1, none), (4, 1, none)] := by
  have hinc := guardedLoop_wellFormed.increasing
  have hbuild : Graph.build guardedLoop sharedHandler = .ok (connect guardedLoop sharedHandler) :=
    build_eq_connect hinc rfl
  exact ⟨_, hbuild, hinc, build_partitions hbuild hinc, rfl⟩

end Unstack.Graph

namespace Unstack

/-- A well formed body with an instruction has the graph of the rules. -/
theorem WellFormed.build_eq_connect {body : List Instruction} {regions : List Region}
    (h : WellFormed body regions) (hne : body ≠ []) :
    Graph.build body regions = .ok (Graph.connect body regions) :=
  Graph.build_eq_connect h.increasing (h.fault?_eq_none hne)

end Unstack
