import Unstack.Proofs.RegionStarts

/-!
# Blocks by their offsets

The block that starts at an offset is looked up by binary search, which is right as long as the starts
of the blocks ascend. They do because the blocks are the body cut into pieces and the offsets of the
body ascend. So the lookup finds the block at its start and nothing anywhere else, and in particular it
finds a block for every branch target and every boundary of a region that is not the end of the body.
-/

namespace Unstack

namespace Graph

variable {body : List Instruction} {regions : List Region} {g : Graph}

/-- Every block of a graph starts at an offset. -/
theorem exists_startsAt {k : Nat} (hk : k < (connect body regions).blocks.length) :
    ∃ offset, (connect body regions).StartsAt k offset := by
  have hblock := List.getElem?_eq_getElem hk
  obtain ⟨segment, hsegment, heq⟩ := (getElem?_connect_blocks body regions k _).mp hblock
  obtain ⟨first, hfirst⟩ := Option.ne_none_iff_exists'.mp
    (fun hnone => segment_ne_nil hsegment (List.head?_eq_none_iff.mp hnone))
  refine ⟨first.offset, _, hblock, ?_⟩
  rw [heq]
  change segment.head?.map Instruction.offset = some first.offset
  rw [hfirst, Option.map_some]

/-- Later blocks start at greater offsets. -/
theorem StartsAt.lt (hinc : Increasing body) {j k : Nat} {a b : Offset}
    (hj : (connect body regions).StartsAt j a) (hk : (connect body regions).StartsAt k b)
    (hjk : j < k) : a < b := by
  rw [startsAt_iff hinc, segmentAt?_eq_some_iff hinc] at hj hk
  obtain ⟨segment, first, hsegment, hfirst, rfl⟩ := hj
  obtain ⟨segment', first', hsegment', hfirst', rfl⟩ := hk
  exact hinc.offset_lt (getElem?_segment hsegment hfirst) (getElem?_segment hsegment' hfirst')
    (startOf_lt hsegment hjk)

/-- A block starts at an offset exactly if the start at its place is that offset. -/
theorem startsAt_iff_bind (g : Graph) (k : Nat) (offset : Offset) :
    g.StartsAt k offset ↔ g.blocks[k]?.bind Block.start? = some offset := by
  rw [Option.bind_eq_some_iff]
  rfl

/-- The lookup finds a block exactly at the offset at which it starts. -/
theorem blockAt?_eq_some_iff (h : build body regions = .ok g) (hinc : Increasing body)
    (offset : Offset) (k : Nat) : g.blockAt? offset = some k ↔ g.StartsAt k offset := by
  obtain rfl := eq_connect_of_build h hinc
  have hkeys : ∀ j < (connect body regions).blocks.length,
      ∃ start, (connect body regions).blocks[j]?.bind Block.start? = some start := by
    intro j hj
    obtain ⟨start, hstart⟩ := exists_startsAt hj
    exact ⟨start, (startsAt_iff_bind _ j start).mp hstart⟩
  have hascend : ∀ (i j : Nat) (a b : Offset), i < j →
      (connect body regions).blocks[i]?.bind Block.start? = some a →
      (connect body regions).blocks[j]?.bind Block.start? = some b → a < b := by
    intro i j a b hij hi hj
    exact StartsAt.lt hinc ((startsAt_iff_bind _ i a).mpr hi) ((startsAt_iff_bind _ j b).mpr hj) hij
  have hsearch := Search.bisect_keys_eq_some_iff hkeys hascend offset k
  simp only [blockAt?, List.getElem?_toArray, List.size_toArray]
  rw [hsearch, ← startsAt_iff_bind, and_iff_right_iff_imp]
  rintro ⟨block, hblock, -⟩
  exact (List.getElem?_eq_some_iff.mp hblock).1

/-- What the lookup by offset gives in the graph of a body. -/
structure FindsStarts (g : Graph) (body : List Instruction) (regions : List Region) : Prop where
  /-- A block is found exactly at the offset at which it starts. -/
  found : ∀ offset k, g.blockAt? offset = some k ↔ g.StartsAt k offset
  /-- Nothing is found exactly where no block starts. -/
  missed : ∀ offset, g.blockAt? offset = none ↔ ∀ k, ¬g.StartsAt k offset
  /-- Every branch target of the body is found. -/
  targets : ∀ branch ∈ body, ∀ t ∈ branch.branchTargets, ∃ k, g.blockAt? t = some k
  /-- Every boundary of a region is found, unless the body ends there. -/
  boundaries : ∀ region ∈ regions, ∀ boundary ∈ region.boundaries,
    (∃ k, g.blockAt? boundary = some k) ↔ endOfBody? body ≠ some boundary

/-- In the graph of a body with increasing offsets, the lookup finds just the starts of the blocks. -/
theorem build_findsStarts (h : build body regions = .ok g) (hinc : Increasing body) :
    g.FindsStarts body regions := by
  have hfound := blockAt?_eq_some_iff h hinc
  refine
    { found := hfound
      missed := fun offset => ?_
      targets := fun branch hbranch t ht => ?_
      boundaries := fun region hregion boundary hboundary => ?_ }
  · rw [Option.eq_none_iff_forall_ne_some]
    exact forall_congr' fun k => not_congr (hfound offset k)
  · obtain ⟨k, hk⟩ := exists_block_of_target h hinc hbranch ht
    rw [← startsAt_iff hinc, ← eq_connect_of_build h hinc, ← hfound] at hk
    exact ⟨k, hk⟩
  · simp only [hfound]
    exact exists_startsAt_boundary_iff h hinc hregion hboundary

/-- The guarded loop under overlapping regions has six blocks. Each is found at its start; nothing is
found inside an instruction, inside a block, at the end of the body or beyond it. -/
theorem guardedLoop_findsStarts :
    build guardedLoop filteredRegions = .ok (connect guardedLoop filteredRegions) ∧
      Increasing guardedLoop ∧
      (connect guardedLoop filteredRegions).FindsStarts guardedLoop filteredRegions ∧
      (List.range 13).map (connect guardedLoop filteredRegions).blockAt? =
        [some 0, some 1, none, some 2, none, some 3, none, none, some 4, some 5, none, none, none] :=
  have hinc := guardedLoop_wellFormed.increasing
  have hbuild : build guardedLoop filteredRegions = .ok (connect guardedLoop filteredRegions) :=
    build_eq_connect hinc rfl
  ⟨hbuild, hinc, build_findsStarts hbuild hinc, by decide +kernel⟩

end Graph

end Unstack
