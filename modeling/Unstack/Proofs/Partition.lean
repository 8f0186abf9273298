import Unstack.Proofs.Body
import Mathlib.Data.List.SplitBy

/-!
# The cut of a body into blocks

The segments of a body join to the body again, so an instruction of the body is at some place of
some segment. Inside a segment control just goes on, and nothing names a place there; where a block
flows to another, its last instruction does. A block of the graph is its segment with the edges
that the last instruction gives.
-/

namespace Unstack.Graph

section Rows

variable {α : Type}

/-- The place in the joined segments at which segment `k` starts. -/
def startOf (segments : List (List α)) (k : Nat) : Nat := (segments.take k).flatten.length

/-- The first segment starts the body. -/
@[simp] theorem startOf_zero (segments : List (List α)) : startOf segments 0 = 0 := by
  simp [startOf]

/-- The segments behind the first start as far behind it as without it. -/
theorem startOf_cons_succ (first : List α) (rest : List (List α)) (k : Nat) :
    startOf (first :: rest) (k + 1) = first.length + startOf rest k := by
  simp [startOf]

/-- A segment ends where the next one starts. -/
theorem startOf_succ {segments : List (List α)} {k : Nat} {segment : List α}
    (h : segments[k]? = some segment) :
    startOf segments (k + 1) = startOf segments k + segment.length := by
  simp [startOf, List.take_add_one, h]

/-- Later segments start later. -/
theorem startOf_mono (segments : List (List α)) {k m : Nat} (h : k ≤ m) :
    startOf segments k ≤ startOf segments m := by
  obtain ⟨n, rfl⟩ := Nat.exists_eq_add_of_le h
  simp [startOf, List.take_add]

/-- The joined segments around one of them. -/
theorem flatten_eq_append {segments : List (List α)} {k : Nat} {segment : List α}
    (h : segments[k]? = some segment) :
    segments.flatten = (segments.take k).flatten ++ (segment ++ (segments.drop (k + 1)).flatten) := by
  obtain ⟨hk, rfl⟩ := List.getElem?_eq_some_iff.mp h
  conv_lhs => rw [← List.take_append_drop k segments, List.drop_eq_getElem_cons hk]
  rw [List.flatten_append, List.flatten_cons]

/-- The items of a segment stand in the joined segments from its start on. -/
theorem getElem?_flatten_startOf {segments : List (List α)} {k : Nat} {segment : List α}
    (h : segments[k]? = some segment) {j : Nat} {i : α} (hi : segment[j]? = some i) :
    segments.flatten[startOf segments k + j]? = some i := by
  have hj : j < segment.length := (List.getElem?_eq_some_iff.mp hi).1
  rw [flatten_eq_append h, startOf, List.getElem?_append_right (Nat.le_add_right _ _),
    Nat.add_sub_cancel_left, List.getElem?_append_left hj, hi]

/-- Every item of the joined segments is at a place of a segment. -/
theorem exists_place (segments : List (List α)) {n : Nat} {i : α}
    (h : segments.flatten[n]? = some i) :
    ∃ k segment j, segments[k]? = some segment ∧ segment[j]? = some i ∧
      n = startOf segments k + j := by
  induction segments generalizing n with
  | nil => simp at h
  | cons first rest ih =>
    rw [List.flatten_cons] at h
    by_cases hn : n < first.length
    · rw [List.getElem?_append_left hn] at h
      exact ⟨0, first, n, rfl, h, by simp⟩
    · rw [List.getElem?_append_right (by omega)] at h
      obtain ⟨k, segment, j, hk, hj, hplace⟩ := ih h
      refine ⟨k + 1, segment, j, hk, hj, ?_⟩
      rw [startOf_cons_succ]
      omega

end Rows

section Segments

variable {body : List Instruction} {regions : List Region}

/-- The segments join to the body. -/
theorem segments_flatten (body : List Instruction) (regions : List Region) :
    (segments body regions).flatten = body :=
  List.flatten_splitBy _ _

/-- No segment is empty. -/
theorem segment_ne_nil {k : Nat} {segment : List Instruction}
    (h : (segments body regions)[k]? = some segment) : segment ≠ [] :=
  List.ne_nil_of_mem_splitBy (List.mem_of_getElem? h)

/-- No block ends between two instructions of one segment. -/
theorem segment_unsplit {k : Nat} {segment : List Instruction}
    (h : (segments body regions)[k]? = some segment) {j : Nat} {before after : Instruction}
    (hbefore : segment[j]? = some before) (hafter : segment[j + 1]? = some after) :
    splits (marks body regions) before after = false := by
  have hchain := List.isChain_of_mem_splitBy (List.mem_of_getElem? h)
  obtain ⟨hj, rfl⟩ := List.getElem?_eq_some_iff.mp hafter
  obtain ⟨_, rfl⟩ := List.getElem?_eq_some_iff.mp hbefore
  simpa using List.isChain_iff_getElem.mp hchain j hj

/-- An instruction of the body by its place in a segment. -/
theorem getElem?_segment {k : Nat} {segment : List Instruction}
    (h : (segments body regions)[k]? = some segment) {j : Nat} {i : Instruction}
    (hi : segment[j]? = some i) : body[startOf (segments body regions) k + j]? = some i := by
  simpa only [segments_flatten] using getElem?_flatten_startOf h hi

/-- Segments start strictly one after the other. -/
theorem startOf_lt {k m : Nat} {segment : List Instruction}
    (h : (segments body regions)[k]? = some segment) (hkm : k < m) :
    startOf (segments body regions) k < startOf (segments body regions) m := by
  have hpos : 0 < segment.length := List.length_pos_iff.mpr (segment_ne_nil h)
  have hnext := startOf_mono (segments body regions) hkm
  rw [startOf_succ h] at hnext
  omega

/-- The segment that starts at an offset is found by that offset. -/
theorem segmentAt?_eq_some_iff (hinc : Increasing body) (offset : Offset) (k : Nat) :
    segmentAt? (segments body regions) offset = some k ↔
      ∃ segment first, (segments body regions)[k]? = some segment ∧ segment[0]? = some first ∧
        first.offset = offset := by
  unfold segmentAt?
  rw [List.findIdx?_eq_some_iff_getElem]
  constructor
  · rintro ⟨hk, hstart, -⟩
    obtain ⟨first, hfirst, hoffset⟩ := Option.map_eq_some_iff.mp (beq_iff_eq.mp hstart)
    exact ⟨_, first, List.getElem?_eq_getElem hk, by rwa [← List.head?_eq_getElem?], hoffset⟩
  · rintro ⟨segment, first, hsegment, hfirst, hoffset⟩
    obtain ⟨hk, rfl⟩ := List.getElem?_eq_some_iff.mp hsegment
    refine ⟨hk, by simp [List.head?_eq_getElem?, hfirst, hoffset], fun j hjk hj => ?_⟩
    obtain ⟨other, hother, hsame⟩ := Option.map_eq_some_iff.mp (beq_iff_eq.mp hj)
    rw [List.head?_eq_getElem?] at hother
    -- two segments with one start offset would start at one place of the body
    have hsegj := List.getElem?_eq_getElem (Nat.lt_trans hjk hk)
    have hplace := hinc.index_unique (getElem?_segment hsegj hother)
      (getElem?_segment hsegment hfirst) (hsame.trans hoffset.symm)
    have hlt := startOf_lt hsegj hjk
    omega

/-- The segments after a segment: those that its last instruction branches to, and the next one if
it goes on. -/
theorem mem_successorsOf (segments : List (List Instruction)) (k : Nat)
    (segment : List Instruction) (m : Nat) :
    m ∈ successorsOf segments k segment ↔ ∃ last, segment.getLast? = some last ∧
      (last.fallsThrough = true ∧ k + 1 < segments.length ∧ m = k + 1 ∨
        ∃ t ∈ last.branchTargets, segmentAt? segments t = some m) := by
  unfold successorsOf fallthroughOf
  cases hlast : segment.getLast? with
  | none => simp
  | some last =>
    by_cases honward : last.fallsThrough = true ∧ k + 1 < segments.length
    · by_cases hm : m = k + 1
      · simp [honward, hm]
      · simp [honward, hm, Ne.symm hm]
    · rw [if_neg (by simpa using honward)]
      have hnot : ¬(last.fallsThrough = true ∧ k + 1 < segments.length ∧ m = k + 1) :=
        fun h => honward ⟨h.1, h.2.1⟩
      simp [hnot]

/-- Inside a segment control just goes on, to a place that the runtime does not enter. -/
theorem flowsTo_inside {k : Nat} {segment : List Instruction}
    (h : (segments body regions)[k]? = some segment) {j : Nat} {before after : Instruction}
    (hbefore : segment[j]? = some before) (hafter : segment[j + 1]? = some after) :
    FlowsTo body (startOf (segments body regions) k + j) (startOf (segments body regions) k + (j + 1)) ∧
      Region.entryDepthAt regions after.offset = none := by
  have hunsplit := segment_unsplit h hbefore hafter
  simp only [splits, Bool.or_eq_false_iff, bne_eq_false_iff_eq] at hunsplit
  obtain ⟨hkind, hmark⟩ := hunsplit
  refine ⟨⟨before, after, getElem?_segment h hbefore, getElem?_segment h hafter, .inl ⟨?_, rfl⟩⟩, ?_⟩
  · rw [Instruction.fallsThrough, hkind]
    rfl
  · cases hentry : Region.entryDepthAt regions after.offset with
    | none => rfl
    | some depth =>
      have hboundary := Region.mem_boundaries_of_entryDepthAt regions after.offset depth hentry
      have hmem : after.offset ∈ marks body regions := List.mem_append_right _ hboundary
      simp [hmem] at hmark

/-- An instruction with targets ends its segment. -/
theorem getLast?_of_targets (hw : WellFormed body regions) {k : Nat} {segment : List Instruction}
    (h : (segments body regions)[k]? = some segment) {j : Nat} {i : Instruction}
    (hi : segment[j]? = some i) (htargets : i.branchTargets ≠ []) : segment.getLast? = some i := by
  have hj : j < segment.length := (List.getElem?_eq_some_iff.mp hi).1
  have hbody : i ∈ body := List.mem_of_getElem? (getElem?_segment h hi)
  rcases Nat.lt_or_ge (j + 1) segment.length with hnext | hend
  · have hunsplit := segment_unsplit h hi (List.getElem?_eq_getElem hnext)
    simp only [splits, Bool.or_eq_false_iff, bne_eq_false_iff_eq] at hunsplit
    exact absurd hunsplit.1 (hw.carriers i hbody htargets)
  · rw [List.getLast?_eq_getElem?, show segment.length - 1 = j by omega, hi]

/-- Control passes along an edge from the end of one segment to the start of the other. -/
theorem flowsTo_edge (hinc : Increasing body) {k m : Nat} {segment : List Instruction}
    (h : (segments body regions)[k]? = some segment)
    (hm : m ∈ successorsOf (segments body regions) k segment) :
    ∃ target first, (segments body regions)[m]? = some target ∧ target[0]? = some first ∧
      FlowsTo body (startOf (segments body regions) k + (segment.length - 1))
        (startOf (segments body regions) m) := by
  obtain ⟨last, hlast, hedge⟩ := (mem_successorsOf _ _ _ _).mp hm
  rw [List.getLast?_eq_getElem?] at hlast
  have hlength : 0 < segment.length := List.length_pos_iff.mpr (segment_ne_nil h)
  have hplace := getElem?_segment h hlast
  rcases hedge with ⟨hfalls, hnext, rfl⟩ | ⟨t, ht, hsegment⟩
  · have htarget := List.getElem?_eq_getElem hnext
    have hpos := List.length_pos_iff.mpr (segment_ne_nil htarget)
    have hfirst := List.getElem?_eq_getElem hpos
    refine ⟨_, _, htarget, hfirst, last, _, hplace, getElem?_segment htarget hfirst, .inl ⟨hfalls, ?_⟩⟩
    rw [startOf_succ h]
    omega
  · obtain ⟨target, first, htarget, hfirst, rfl⟩ := (segmentAt?_eq_some_iff hinc t m).mp hsegment
    exact ⟨target, first, htarget, hfirst, last, first, hplace, getElem?_segment htarget hfirst,
      .inr ht⟩

/-- Where control comes to the start of a segment from before it, there is an edge from a segment
before it. -/
theorem exists_edge_before (hw : WellFormed body regions) {j k : Nat} {segment : List Instruction}
    {first : Instruction} (h : (segments body regions)[k]? = some segment)
    (hfirst : segment[0]? = some first) (hj : j < startOf (segments body regions) k)
    (hflow : FlowsTo body j (startOf (segments body regions) k)) :
    ∃ m before, m < k ∧ (segments body regions)[m]? = some before ∧
      k ∈ successorsOf (segments body regions) m before := by
  obtain ⟨i, target, hi, htarget, hway⟩ := hflow
  obtain rfl : first = target := by simpa [htarget] using (getElem?_segment h hfirst).symm
  rw [← segments_flatten body regions] at hi
  obtain ⟨m, before, place, hm, hplace, rfl⟩ := exists_place _ hi
  have hmk : m < k := by
    by_contra hle
    have := startOf_mono (segments body regions) (Nat.not_lt.mp hle)
    omega
  refine ⟨m, before, hmk, hm, (mem_successorsOf _ _ _ _).mpr ?_⟩
  have hk : k < (segments body regions).length := (List.getElem?_eq_some_iff.mp h).1
  rcases hway with ⟨hfalls, hnext⟩ | htargets
  · -- the place after `i` starts segment `k`, so `i` ends segment `m` and `k` comes right after
    have hlength : place < before.length := (List.getElem?_eq_some_iff.mp hplace).1
    have hend := startOf_succ hm
    have hadjacent : k = m + 1 := by
      by_contra hne
      have hget := List.getElem?_eq_getElem (show m + 1 < (segments body regions).length by omega)
      have := startOf_lt hget (show m + 1 < k by omega)
      omega
    subst hadjacent
    refine ⟨i, ?_, .inl ⟨hfalls, hk, rfl⟩⟩
    rw [List.getLast?_eq_getElem?, show before.length - 1 = place by omega, hplace]
  · refine ⟨i, getLast?_of_targets hw hm hplace (List.ne_nil_of_mem htargets), .inr ?_⟩
    exact ⟨first.offset, htargets,
      (segmentAt?_eq_some_iff hw.increasing _ _).mpr ⟨segment, first, h, hfirst, rfl⟩⟩

end Segments

/-- The block of segment `k`. -/
def blockOf (regions : List Region) (segments : List (List Instruction)) (k : Nat)
    (segment : List Instruction) : Block where
  index := k
  instructions := segment
  predecessors :=
    predecessorsOf (segments.zipIdx.map fun (segment, k) => successorsOf segments k segment) k
  successors := successorsOf segments k segment
  fallthrough := fallthroughOf segments.length k segment
  entryDepth := (segment.head?.map (·.offset)).bind (Region.entryDepthAt regions)

/-- The blocks of a graph are the blocks of its segments, in order. -/
theorem connect_blocks (body : List Instruction) (regions : List Region) :
    (connect body regions).blocks =
      (segments body regions).mapIdx (blockOf regions (segments body regions)) := by
  apply List.ext_getElem?
  intro k
  cases hk : (segments body regions)[k]? with
  | none => simp [connect, List.getElem?_eq_none_iff.mp hk]
  | some segment => simp [connect, blockOf, List.getElem?_zip_eq_some, hk]

/-- A block of a graph by its segment. -/
theorem getElem?_connect_blocks (body : List Instruction) (regions : List Region) (k : Nat)
    (block : Block) :
    (connect body regions).blocks[k]? = some block ↔ ∃ segment,
      (segments body regions)[k]? = some segment ∧
        block = blockOf regions (segments body regions) k segment := by
  rw [connect_blocks, List.getElem?_mapIdx, Option.map_eq_some_iff]
  simp only [eq_comm]

/-- The block at a place of a built graph has the number of the place. -/
theorem connect_index (body : List Instruction) (regions : List Region) (k : Nat)
    (block : Block) (h : (connect body regions).blocks[k]? = some block) : block.index = k := by
  rw [connect_blocks, List.getElem?_mapIdx] at h
  obtain ⟨segment, -, rfl⟩ := Option.map_eq_some_iff.mp h
  rfl

/-- The runtime enters a block as it enters its first instruction. -/
theorem blockOf_entryDepth (regions : List Region) (segments : List (List Instruction)) (k : Nat)
    (segment : List Instruction) (first : Instruction) (h : segment[0]? = some first) :
    (blockOf regions segments k segment).entryDepth = Region.entryDepthAt regions first.offset := by
  simp [blockOf, List.head?_eq_getElem?, h]

end Unstack.Graph
