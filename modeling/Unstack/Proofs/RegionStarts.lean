import Unstack.Proofs.Edges

/-!
# Where regions start

A region starts in three places: its protected range, its handler and its filter. The check of the
regions treats these like the ends of the ranges, and lets each be the end of the body, which is right
for an end only. So a start is the start of a block, and a handler or a filter is entered with a depth
there, unless the body ends at it: then there is a graph all the same, and no block of it is that
handler. A start that is no instruction and not the end of the body leaves no graph.
-/

namespace Unstack

namespace Region

/-- Where the code starts that the runtime enters by itself. -/
def entries (region : Region) : List Offset := region.handlerStart :: region.filterStart.toList

/-- Where the parts of the region start. -/
def starts (region : Region) : List Offset := region.tryStart :: region.entries

/-- The entry points of a region are its handler and its filter. -/
theorem map_fst_entryPoints (region : Region) : region.entryPoints.map Prod.fst = region.entries := by
  simp [entryPoints, entries, Function.comp_def]

/-- The starts of a region are among its boundaries. -/
theorem mem_boundaries_of_mem_starts {region : Region} {start : Offset} (h : start ∈ region.starts) :
    start ∈ region.boundaries := by
  simp only [starts, entries, List.mem_cons] at h
  rcases h with rfl | rfl | hfilter
  · simp [boundaries]
  · simp [boundaries]
  · exact List.mem_append_right _ hfilter

/-- Where a region has an entry there is a last one. -/
theorem exists_lastEntry {regions : List Region} {region : Region} (hregion : region ∈ regions)
    {start : Offset} (hstart : start ∈ region.entries) :
    ∃ depth, entryDepthAt regions start = some depth ∧ LastEntry regions start depth := by
  rw [← map_fst_entryPoints] at hstart
  obtain ⟨entry, hentry, rfl⟩ := List.mem_map.mp hstart
  cases hdepth : entryDepthAt regions entry.1 with
  | none =>
    have hnone := (entryDepthAt_eq_none_iff regions entry.1).mp hdepth
    exact absurd rfl (hnone region hregion entry hentry)
  | some depth => exact ⟨depth, rfl, (entryDepthAt_eq_some_iff regions entry.1 depth).mp hdepth⟩

end Region

namespace Graph

variable {body : List Instruction} {regions : List Region} {g : Graph}

/-- The starts of the regions of a body are code, but for those at its end. -/
structure RegionStarts (body : List Instruction) (regions : List Region) : Prop where
  /-- A start is the start of a block exactly if the body does not end there. -/
  started : ∀ g, build body regions = .ok g → ∀ region ∈ regions, ∀ start ∈ region.starts,
    (∃ k, g.StartsAt k start) ↔ endOfBody? body ≠ some start
  /-- The block of a handler or of a filter has the depth of the last entry there. -/
  entered : ∀ g, build body regions = .ok g → ∀ region ∈ regions, ∀ start ∈ region.entries,
    ∀ block ∈ g.blocks, block.start? = some start →
      ∃ depth, block.entryDepth = some depth ∧ Region.LastEntry regions start depth
  /-- There is no graph if a start is neither an instruction nor the end of the body. -/
  refused : ∀ region ∈ regions, ∀ start ∈ region.starts, isStart body start = false →
    endOfBody? body ≠ some start → ∃ cause, build body regions = .error cause

/-- Where a block starts there is an instruction. -/
theorem StartsAt.exists_instruction (hinc : Increasing body) {k : Nat} {offset : Offset}
    (h : (connect body regions).StartsAt k offset) : ∃ i ∈ body, i.offset = offset := by
  rw [startsAt_iff hinc, segmentAt?_eq_some_iff hinc] at h
  obtain ⟨segment, first, hsegment, hfirst, hoffset⟩ := h
  exact ⟨first, List.mem_of_getElem? (getElem?_segment hsegment hfirst), hoffset⟩

/-- A boundary of a region is the start of a block exactly if the body does not end there. -/
theorem exists_startsAt_boundary_iff (h : build body regions = .ok g) (hinc : Increasing body)
    {region : Region} (hregion : region ∈ regions) {boundary : Offset}
    (hboundary : boundary ∈ region.boundaries) :
    (∃ k, g.StartsAt k boundary) ↔ endOfBody? body ≠ some boundary := by
  obtain rfl := eq_connect_of_build h hinc
  constructor
  · rintro ⟨k, hstarts⟩ hend
    obtain ⟨i, hi, rfl⟩ := hstarts.exists_instruction hinc
    exact Nat.lt_irrefl _ (hinc.offset_lt_end hend hi)
  · intro hend
    have hplace := ((build_eq_ok_iff hinc regions _).mp h).2.2.1 region hregion boundary hboundary
    -- a boundary that does not dangle and is not the end is an instruction
    have hinstruction : ∃ i ∈ body, i.offset = boundary := by
      by_contra hnone
      exact hplace ⟨fun i hi hoffset => hnone ⟨i, hi, hoffset⟩, hend⟩
    obtain ⟨i, hi, rfl⟩ := hinstruction
    obtain ⟨n, hn⟩ := List.getElem?_of_mem hi
    have hblock : (connect body regions).StartsBlock n :=
      (startsBlock_iff_rule hn).mpr (.inr (.inr (.inl ⟨region, hregion, hboundary⟩)))
    obtain ⟨k, hk⟩ := exists_segmentAt? hinc hn hblock
    exact ⟨k, (startsAt_iff hinc k i.offset).mpr hk⟩

/-- A boundary that dangles leaves no graph. -/
theorem exists_error_of_dangles (hinc : Increasing body) {region : Region}
    (hregion : region ∈ regions) {boundary : Offset} (hboundary : boundary ∈ region.boundaries)
    (hdangles : Dangles body boundary) :
    ∃ cause, build body regions = .error cause := by
  cases hbuild : build body regions with
  | error cause => exact ⟨cause, rfl⟩
  | ok g =>
    have hplaces := ((build_eq_ok_iff hinc regions g).mp hbuild).2.2.1
    exact absurd hdangles (hplaces region hregion boundary hboundary)

/-- The regions of a body with increasing offsets start in its code or at its end. -/
theorem increasing_regionStarts (hinc : Increasing body) (regions : List Region) :
    RegionStarts body regions where
  started g h region hregion start hstart :=
    exists_startsAt_boundary_iff h hinc hregion (Region.mem_boundaries_of_mem_starts hstart)
  entered g h region hregion start hstart block hblock hfirst := by
    obtain rfl := eq_connect_of_build h hinc
    obtain ⟨first, hhead, rfl⟩ := Option.map_eq_some_iff.mp hfirst
    rw [List.head?_eq_getElem?] at hhead
    rw [connect_entryDepth hblock hhead]
    exact Region.exists_lastEntry hregion hstart
  refused region hregion start hstart hno hend := by
    have hdangles : Dangles body start := ⟨(isStart_eq_false_iff body start).mp hno, hend⟩
    exact exists_error_of_dangles hinc hregion (Region.mem_boundaries_of_mem_starts hstart) hdangles

/-- Two regions that overlap in the guarded loop: one has a filter inside the range of the other, whose
handler goes to the end of the body. -/
def filteredRegions : List Region :=
  [{ kind := .filters, tryStart := 0, tryEnd := 3, handlerStart := 5, handlerEnd := 8,
      filterStart := some 3 },
    { kind := .finalizes, tryStart := 1, tryEnd := 8, handlerStart := 8, handlerEnd := 11 }]

/-- The guarded loop has a graph under the overlapping regions, and each of their starts is a block. -/
theorem guardedLoop_regionStarts :
    Increasing guardedLoop ∧
      build guardedLoop filteredRegions = .ok (connect guardedLoop filteredRegions) ∧
      RegionStarts guardedLoop filteredRegions ∧
      (connect guardedLoop filteredRegions).blocks.map
          (fun block => (block.start?, block.entryDepth)) =
        [(some 0, none), (some 1, none), (some 3, some 1), (some 5, some 1), (some 8, some 0),
          (some 9, none)] :=
  ⟨guardedLoop_wellFormed.increasing, build_eq_connect guardedLoop_wellFormed.increasing rfl,
    increasing_regionStarts guardedLoop_wellFormed.increasing filteredRegions, by decide⟩

/-- A single return. -/
def loneReturn : List Instruction :=
  [⟨0, ⟨"ret", 0x2A, .ret, .varPop, .push0, .inlineNone⟩, .none⟩]

/-- A region whose handler is to start where the single return ends. -/
def lateHandler : Region where
  kind := .catches
  tryStart := 0
  tryEnd := 1
  handlerStart := 1
  handlerEnd := 1

/-- A handler at the end of the body is lost: no instruction starts there, and the graph that is built
all the same has no block there and none that is entered. -/
theorem lateHandler_lost :
    Increasing loneReturn ∧ isStart loneReturn lateHandler.handlerStart = false ∧
      ∃ g, build loneReturn [lateHandler] = .ok g ∧
        ∀ block ∈ g.blocks,
          block.start? ≠ some lateHandler.handlerStart ∧ block.entryDepth = none := by
  have hinc : Increasing loneReturn := by decide
  exact ⟨hinc, by decide, connect loneReturn [lateHandler], build_eq_connect hinc rfl, by decide⟩

end Graph

end Unstack
