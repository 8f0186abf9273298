import Unstack.Proofs.Partition

/-!
# Where blocks start and how they are entered

The rules cut a body exactly at the first instruction, at branch targets, at region boundaries and
behind instructions that do not simply go on. A block that starts at an entry point of a region
carries the depth of the last one there, in the order of the regions and with the handler of a
region before its filter.
-/

namespace Unstack

namespace Region

/-- The last of the entry points at an offset has this depth. -/
def LastEntry (regions : List Region) (offset : Offset) (depth : Nat) : Prop :=
  ∃ earlier later, regions.flatMap entryPoints = earlier ++ (offset, depth) :: later ∧
    ∀ entry ∈ later, entry.1 ≠ offset

/-- The entry depth at an offset is that of the last entry point there. -/
theorem entryDepthAt_eq_some_iff (regions : List Region) (offset : Offset) (depth : Nat) :
    entryDepthAt regions offset = some depth ↔ LastEntry regions offset depth := by
  unfold entryDepthAt LastEntry
  rw [List.getLast?_filter, Option.map_eq_some_iff]
  constructor
  · rintro ⟨entry, hfind, rfl⟩
    obtain ⟨hoffset, later, earlier, hreverse, hlater⟩ := List.find?_eq_some_iff_append.mp hfind
    obtain rfl : entry.1 = offset := beq_iff_eq.mp hoffset
    refine ⟨earlier.reverse, later.reverse, ?_, fun other hother => ?_⟩
    · rw [← List.reverse_reverse (regions.flatMap entryPoints), hreverse]
      simp
    · simpa using hlater other (List.mem_reverse.mp hother)
  · rintro ⟨earlier, later, hentries, hlater⟩
    refine ⟨(offset, depth), List.find?_eq_some_iff_append.mpr ⟨beq_self_eq_true _, later.reverse,
      earlier.reverse, ?_, fun other hother => ?_⟩, rfl⟩
    · rw [hentries]
      simp
    · simpa using hlater other (List.mem_reverse.mp hother)

/-- There is no entry depth at an offset exactly if no region has an entry point there. -/
theorem entryDepthAt_eq_none_iff (regions : List Region) (offset : Offset) :
    entryDepthAt regions offset = none ↔
      ∀ region ∈ regions, ∀ entry ∈ region.entryPoints, entry.1 ≠ offset := by
  unfold entryDepthAt
  rw [Option.map_eq_none_iff, List.getLast?_eq_none_iff, List.filter_eq_nil_iff]
  constructor
  · intro h region hregion entry hentry hoffset
    exact h entry (List.mem_flatMap.mpr ⟨region, hregion, hentry⟩) (beq_iff_eq.mpr hoffset)
  · intro h entry hentry hoffset
    obtain ⟨region, hregion, hentry⟩ := List.mem_flatMap.mp hentry
    exact h region hregion entry hentry (beq_iff_eq.mp hoffset)

end Region

namespace Graph

variable {body : List Instruction} {regions : List Region}

/-- A block of the graph starts with instruction `n` of the body. -/
def StartsBlock (g : Graph) (n : Nat) : Prop :=
  ∃ before block after, g.blocks = before ++ block :: after ∧
    (before.flatMap Block.instructions).length = n

/-- A block ends between two instructions if a branch or a region names the second, or the first does
not simply go on. -/
theorem splits_iff (before after : Instruction) :
    splits (marks body regions) before after = true ↔
      (∃ branch ∈ body, after.offset ∈ branch.branchTargets) ∨
        (∃ region ∈ regions, after.offset ∈ region.boundaries) ∨
        before.flowKind ≠ .fallthrough := by
  simp only [splits, marks, Bool.or_eq_true, bne_iff_ne, List.contains_eq_mem, decide_eq_true_eq,
    List.mem_append, List.mem_flatMap]
  rw [or_comm, or_assoc]

/-- The blocks of a graph hold the segments. -/
theorem connect_map_instructions (body : List Instruction) (regions : List Region) :
    (connect body regions).blocks.map Block.instructions = segments body regions := by
  rw [connect_blocks]
  apply List.ext_getElem?
  intro k
  simp [blockOf, Function.comp_def]

/-- Blocks start where segments start. -/
theorem startsBlock_iff (body : List Instruction) (regions : List Region) (n : Nat) :
    (connect body regions).StartsBlock n ↔
      ∃ k < (segments body regions).length, startOf (segments body regions) k = n := by
  have hsegments := connect_map_instructions body regions
  unfold StartsBlock startOf
  rw [← hsegments, List.length_map]
  constructor
  · rintro ⟨before, block, after, hblocks, rfl⟩
    refine ⟨before.length, ?_, ?_⟩
    · rw [hblocks, List.length_append, List.length_cons]
      omega
    · rw [← List.map_take, hblocks, List.take_left, ← List.flatMap_def]
  · rintro ⟨k, hk, rfl⟩
    refine ⟨(connect body regions).blocks.take k, (connect body regions).blocks[k],
      (connect body regions).blocks.drop (k + 1), ?_, ?_⟩
    · rw [← List.drop_eq_getElem_cons hk, List.take_append_drop]
    · rw [← List.map_take, ← List.flatMap_def]

/-- A block ends between neighbouring segments. -/
theorem segment_splits {k : Nat} {segment next : List Instruction} {before after : Instruction}
    (h : (segments body regions)[k]? = some segment)
    (hnext : (segments body regions)[k + 1]? = some next)
    (hbefore : segment.getLast? = some before) (hafter : next[0]? = some after) :
    splits (marks body regions) before after = true := by
  have hchain : (segments body regions).IsChain fun a b => ∃ ha hb,
      (!splits (marks body regions) (a.getLast ha) (b.head hb)) = false :=
    List.isChain_getLast_head_splitBy (fun before after => !splits (marks body regions) before after)
      body
  obtain ⟨hk, rfl⟩ := List.getElem?_eq_some_iff.mp h
  obtain ⟨hk', rfl⟩ := List.getElem?_eq_some_iff.mp hnext
  obtain ⟨ha, hb, hsplit⟩ := List.isChain_iff_getElem.mp hchain k hk'
  rw [List.getLast?_eq_some_getLast ha, Option.some.injEq] at hbefore
  rw [← List.head?_eq_getElem?, List.head?_eq_some_head hb, Option.some.injEq] at hafter
  rw [hbefore, hafter] at hsplit
  simpa using hsplit

/-- The first instruction of the body starts a block. -/
theorem startsBlock_zero (hne : body ≠ []) : (connect body regions).StartsBlock 0 := by
  rw [startsBlock_iff]
  refine ⟨0, ?_, startOf_zero _⟩
  rw [List.length_pos_iff]
  exact List.splitBy_ne_nil.mpr hne

/-- A place inside a segment starts no block. -/
theorem not_startsBlock_inside {k j : Nat} {segment : List Instruction}
    (h : (segments body regions)[k]? = some segment) (hj : j + 1 < segment.length) :
    ¬(connect body regions).StartsBlock (startOf (segments body regions) k + (j + 1)) := by
  rw [startsBlock_iff]
  rintro ⟨k', -, hplace⟩
  rcases Nat.lt_or_ge k k' with hlt | hge
  · have hnext := startOf_mono (segments body regions) hlt
    rw [startOf_succ h] at hnext
    omega
  · have := startOf_mono (segments body regions) hge
    omega

/-- The instruction behind another one starts a block exactly if a block ends between them. -/
theorem startsBlock_succ_iff {m : Nat} {before after : Instruction} (hbefore : body[m]? = some before)
    (hafter : body[m + 1]? = some after) :
    (connect body regions).StartsBlock (m + 1) ↔
      splits (marks body regions) before after = true := by
  obtain ⟨k, segment, j, hk, hj, hplace⟩ :=
    exists_place (segments body regions) ((segments_flatten body regions).symm ▸ hafter)
  rw [hplace]
  cases j with
  | zero =>
    -- `after` is the first of segment `k`, and `before` the last of the one in front of it
    cases k with
    | zero => simp at hplace
    | succ k =>
      have hk' : k < (segments body regions).length :=
        Nat.lt_of_succ_lt (List.getElem?_eq_some_iff.mp hk).1
      have hfront := List.getElem?_eq_getElem hk'
      have hpos := List.length_pos_iff.mpr (segment_ne_nil hfront)
      have hlast := List.getLast?_eq_some_getLast (segment_ne_nil hfront)
      have hsame := getElem?_segment hfront (List.getLast?_eq_getElem?.symm.trans hlast)
      have hm : startOf (segments body regions) k + ((segments body regions)[k].length - 1) = m := by
        rw [startOf_succ hfront] at hplace
        omega
      rw [hm, hbefore, Option.some.injEq] at hsame
      rw [← hsame] at hlast
      refine iff_of_true ?_ (segment_splits hfront hk hlast hj)
      exact (startsBlock_iff body regions _).mpr ⟨k + 1, (List.getElem?_eq_some_iff.mp hk).1, rfl⟩
  | succ j =>
    have hlength := (List.getElem?_eq_some_iff.mp hj).1
    have hfront := List.getElem?_eq_getElem (Nat.lt_of_succ_lt hlength)
    have hsame := getElem?_segment hk hfront
    have hm : startOf (segments body regions) k + j = m := by omega
    rw [hm, hbefore, Option.some.injEq] at hsame
    rw [← hsame] at hfront
    refine iff_of_false (not_startsBlock_inside hk hlength) ?_
    rw [segment_unsplit hk hfront hj]
    exact Bool.false_ne_true

/-- An instruction starts a block exactly if it is the first of the body, a branch or a region names
it, or the instruction before it does not simply go on. -/
theorem startsBlock_iff_rule {n : Nat} {i : Instruction} (hi : body[n]? = some i) :
    (connect body regions).StartsBlock n ↔
      n = 0 ∨ (∃ branch ∈ body, i.offset ∈ branch.branchTargets) ∨
        (∃ region ∈ regions, i.offset ∈ region.boundaries) ∨
        ∃ m before, n = m + 1 ∧ body[m]? = some before ∧ before.flowKind ≠ .fallthrough := by
  cases n with
  | zero =>
    have hne : body ≠ [] := List.ne_nil_of_mem (List.mem_of_getElem? hi)
    exact iff_of_true (startsBlock_zero hne) (.inl rfl)
  | succ m =>
    have hm : m < body.length := Nat.lt_of_succ_lt (List.getElem?_eq_some_iff.mp hi).1
    have hbefore := List.getElem?_eq_getElem hm
    rw [startsBlock_succ_iff hbefore hi, splits_iff]
    simp [hbefore]

/-- What a graph is to its body and the regions: its blocks are numbered in order, none is empty, and
together they are the body; they start exactly where the rules for blocks say, and each carries the
depth of the last entry point at its start. -/
structure Partitions (g : Graph) (body : List Instruction) (regions : List Region) : Prop where
  numbered : ∀ (k : Nat) (block : Block), g.blocks[k]? = some block → block.index = k
  nonempty : ∀ block ∈ g.blocks, block.instructions ≠ []
  joined : g.blocks.flatMap Block.instructions = body
  starts : ∀ n i, body[n]? = some i → (g.StartsBlock n ↔
    n = 0 ∨ (∃ branch ∈ body, i.offset ∈ branch.branchTargets) ∨
      (∃ region ∈ regions, i.offset ∈ region.boundaries) ∨
      ∃ m before, n = m + 1 ∧ body[m]? = some before ∧ before.flowKind ≠ .fallthrough)
  entered : ∀ block ∈ g.blocks, ∀ first, block.instructions[0]? = some first → ∀ depth,
    block.entryDepth = some depth ↔ Region.LastEntry regions first.offset depth
  unentered : ∀ block ∈ g.blocks, ∀ first, block.instructions[0]? = some first →
    (block.entryDepth = none ↔
      ∀ region ∈ regions, ∀ entry ∈ region.entryPoints, entry.1 ≠ first.offset)

/-- A block of a graph is entered as its first instruction is. -/
theorem connect_entryDepth {block : Block} {first : Instruction}
    (hblock : block ∈ (connect body regions).blocks) (hfirst : block.instructions[0]? = some first) :
    block.entryDepth = Region.entryDepthAt regions first.offset := by
  obtain ⟨k, hk⟩ := List.getElem?_of_mem hblock
  obtain ⟨segment, -, rfl⟩ := (getElem?_connect_blocks body regions k block).mp hk
  exact blockOf_entryDepth regions _ k segment first hfirst

/-- The graph made by the rules partitions its body. -/
theorem connect_partitions (body : List Instruction) (regions : List Region) :
    (connect body regions).Partitions body regions := by
  have hsegments := connect_map_instructions body regions
  refine
    { numbered := connect_index body regions
      nonempty := fun block hblock => ?_
      joined := ?_
      starts := fun n i hi => startsBlock_iff_rule hi
      entered := fun block hblock first hfirst depth => ?_
      unentered := fun block hblock first hfirst => ?_ }
  · have hsegment : block.instructions ∈ segments body regions :=
      hsegments ▸ List.mem_map_of_mem hblock
    exact List.ne_nil_of_mem_splitBy hsegment
  · rw [List.flatMap_def, hsegments, segments_flatten]
  · rw [connect_entryDepth hblock hfirst]
    exact Region.entryDepthAt_eq_some_iff regions first.offset depth
  · rw [connect_entryDepth hblock hfirst]
    exact Region.entryDepthAt_eq_none_iff regions first.offset

end Graph

end Unstack
