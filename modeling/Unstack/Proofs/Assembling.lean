import Unstack.Proofs.LeaderMap
import Unstack.Proofs.Partition
import Mathlib.Data.List.Nodup

/-!
# Slicing and linking

What the second half of building makes of the leaders, whatever the offsets of the body. The leaders
ascend from the first instruction, so that the slices between them join to the body, and the table of
block numbers has the number of a slice wherever the slice is. The loop over the targets of a block
leaves out repetitions, and since a block then has no successor twice, the loop that enters every edge
at its end gives each block its predecessors once and in ascending order.
-/

namespace Unstack.Graph

open OrderedMap

/-- The leaders are places of the body, and the first place is among them. -/
structure Leaders.Covers (leaders : Leaders) (body : Array Instruction) : Prop where
  first : leaders.Has 0
  within : ∀ place, leaders.Has place → place < body.size

namespace Leaders

/-- The leaders are the keys of the entries. -/
theorem has_iff_exists_entry (leaders : Leaders) (place : Nat) :
    leaders.Has place ↔ ∃ depth, (place, depth) ∈ leaders.entries := by
  simp only [Has, Option.isSome_iff_exists, mem_entries_iff]

/-- The first place alone is the only leader at the start. -/
theorem has_singleton_iff (place : Nat) : Has (.singleton 0 none) place ↔ place = 0 := by
  rw [Has, get?_singleton]
  by_cases hplace : place = 0 <;> simp [hplace]

/-- The leaders of a body with an instruction cover it. -/
theorem covers_collected {body : List Instruction} (hne : body ≠ []) (regions : List Region) :
    (collected body.toArray regions).Covers body.toArray where
  first := by
    rw [collected, has_foldl_put_iff, has_singleton_iff]
    exact .inl rfl
  within place hplace := by
    rw [collected, has_foldl_put_iff, has_singleton_iff] at hplace
    rcases hplace with rfl | ⟨entry, hentry, rfl⟩
    · exact List.length_pos_iff.mpr hne
    · exact lt_size_of_mem_allEntries hentry

end Leaders

/-- A graph is assembled from leaders of its body. -/
theorem exists_assemble_of_build {body : List Instruction} {regions : List Region} {g : Graph}
    (h : build body regions = .ok g) :
    ∃ leaders : Leaders, leaders.Covers body.toArray ∧ g = assemble body.toArray leaders := by
  unfold build at h
  cases hstop : endOfBody? body with
  | none => simp [hstop] at h
  | some stop =>
    simp only [hstop, Leaders.collect_eq, Outcome.map_checked] at h
    cases hfault : Leaders.fault? body.toArray stop regions with
    | some e =>
      rw [hfault] at h
      cases h
    | none =>
      rw [hfault] at h
      cases h
      exact ⟨_, Leaders.covers_collected (ne_nil_of_endOfBody? hstop) regions, rfl⟩

section Slices

variable {body : Array Instruction} {leaders : Leaders} {k : Nat} {entry : Nat × Option Nat}

/-- Later leaders are at later places. -/
theorem entries_lt {j : Nat} {other : Nat × Option Nat} (hk : leaders.entries[k]? = some entry)
    (hj : leaders.entries[j]? = some other) (hkj : k < j) : entry.1 < other.1 := by
  obtain ⟨hk', rfl⟩ := List.getElem?_eq_some_iff.mp hk
  obtain ⟨hj', rfl⟩ := List.getElem?_eq_some_iff.mp hj
  exact List.pairwise_iff_getElem.mp leaders.ascending k j hk' hj' hkj

/-- The first leader is the first place. -/
theorem Leaders.Covers.entries_zero (h : leaders.Covers body) :
    ∃ depth, leaders.entries[0]? = some (0, depth) := by
  obtain ⟨depth, hmem⟩ := (Leaders.has_iff_exists_entry leaders 0).mp h.first
  obtain ⟨j, hj⟩ := List.getElem?_of_mem hmem
  cases j with
  | zero => exact ⟨depth, hj⟩
  | succ j =>
    have hfirst := List.getElem?_eq_getElem (Nat.zero_lt_of_lt (List.getElem?_eq_some_iff.mp hj).1)
    exact absurd (entries_lt hfirst hj (Nat.succ_pos j)) (Nat.not_lt_zero _)

/-- A slice ends where the next leader is. -/
theorem stopOf_eq {next : Nat × Option Nat} (hnext : leaders.entries[k + 1]? = some next) :
    stopOf body leaders.entries k = next.1 := by
  rw [stopOf, hnext]
  rfl

/-- A slice ends behind its leader. -/
theorem Leaders.Covers.lt_stopOf (h : leaders.Covers body) (hk : leaders.entries[k]? = some entry) :
    entry.1 < stopOf body leaders.entries k := by
  cases hnext : leaders.entries[k + 1]? with
  | some next =>
    rw [stopOf_eq hnext]
    exact entries_lt hk hnext (Nat.lt_succ_self k)
  | none =>
    rw [stopOf, hnext]
    apply h.within
    exact (Leaders.has_iff_exists_entry leaders entry.1).mpr ⟨entry.2, List.mem_of_getElem? hk⟩

/-- Rows that are as long as the slices start where the leaders are. -/
theorem Leaders.Covers.startOf_rows (h : leaders.Covers body) {α : Type}
    {row : Nat → Nat × Option Nat → List α}
    (hlength : ∀ k entry, leaders.entries[k]? = some entry →
      (row k entry).length = stopOf body leaders.entries k - entry.1)
    (hk : leaders.entries[k]? = some entry) : startOf (leaders.entries.mapIdx row) k = entry.1 := by
  induction k generalizing entry with
  | zero =>
    obtain ⟨depth, hfirst⟩ := h.entries_zero
    rw [hfirst] at hk
    cases hk
    exact startOf_zero _
  | succ k ih =>
    have hlength' : k < leaders.entries.length :=
      Nat.lt_of_succ_lt (List.getElem?_eq_some_iff.mp hk).1
    have hbefore := List.getElem?_eq_getElem hlength'
    have hrow : (leaders.entries.mapIdx row)[k]? = some (row k leaders.entries[k]) := by
      rw [List.getElem?_mapIdx, hbefore, Option.map_some]
    have hstop : stopOf body leaders.entries k = entry.1 := stopOf_eq hk
    have hlt := h.lt_stopOf hbefore
    rw [startOf_succ hrow, ih hbefore, hlength _ _ hbefore]
    omega

/-- The slices at ascending places join to what is behind the first of them. -/
theorem flatten_extract (body : Array Instruction) (starts : List (Nat × Option Nat))
    (hstarts : starts.Pairwise fun a b => a.1 < b.1) :
    (starts.mapIdx fun k entry => (body.extract entry.1 (stopOf body starts k)).toList).flatten =
      (starts.head?.map fun entry => body.toList.drop entry.1).getD [] := by
  induction starts with
  | nil => rfl
  | cons entry rest ih =>
    obtain ⟨hfirst, hrest⟩ := List.pairwise_cons.mp hstarts
    rw [List.mapIdx_cons, List.flatten_cons]
    refine (congrArg _ (ih hrest)).trans ?_
    rw [Array.toList_extract, List.extract_eq_take_drop]
    cases rest with
    | nil =>
      rw [List.take_of_length_le (by simp [stopOf])]
      simp
    | cons next rest =>
      have hlt : entry.1 < next.1 := hfirst next List.mem_cons_self
      have hdrop : body.toList.drop next.1 = (body.toList.drop entry.1).drop (next.1 - entry.1) := by
        rw [List.drop_drop, Nat.add_sub_cancel' (Nat.le_of_lt hlt)]
      change (body.toList.drop entry.1).take (next.1 - entry.1) ++ body.toList.drop next.1 =
        body.toList.drop entry.1
      rw [hdrop, List.take_append_drop]

/-- The slices join to the body. -/
theorem Leaders.Covers.flatten_slices (h : leaders.Covers body) :
    ((slices body leaders.entries).map Block.instructions).flatten = body.toList := by
  obtain ⟨depth, hfirst⟩ := h.entries_zero
  have hjoined := flatten_extract body leaders.entries leaders.ascending
  rw [List.head?_eq_getElem?, hfirst] at hjoined
  have hmap : (slices body leaders.entries).map Block.instructions =
      leaders.entries.mapIdx fun k entry =>
        (body.extract entry.1 (stopOf body leaders.entries k)).toList := by
    apply List.ext_getElem?
    intro k
    simp [slices, Function.comp_def]
  rw [hmap]
  exact hjoined

/-- The table has the number of a slice at its leader. -/
theorem Leaders.Covers.getElem?_blockTable (h : leaders.Covers body)
    (hk : leaders.entries[k]? = some entry) :
    (blockTable body leaders.entries)[entry.1]? = some k := by
  have hlt := h.lt_stopOf hk
  have hrow : (leaders.entries.mapIdx fun k entry =>
      List.replicate (stopOf body leaders.entries k - entry.1) k)[k]? =
        some (List.replicate (stopOf body leaders.entries k - entry.1) k) := by
    rw [List.getElem?_mapIdx, hk, Option.map_some]
  have hitem : (List.replicate (stopOf body leaders.entries k - entry.1) k)[0]? = some k := by
    rw [List.getElem?_replicate, if_pos (Nat.sub_pos_of_lt hlt)]
  have hplace := getElem?_flatten_startOf hrow hitem
  rw [h.startOf_rows (fun k entry _ => List.length_replicate) hk] at hplace
  exact (List.getElem?_toArray ..).trans hplace

end Slices

section Successors

variable {body : Array Instruction} {table : Array Nat} {onward : Option Nat}

/-- The block of a target by the table. -/
def targetBlock? (body : Array Instruction) (table : Array Nat) (target : Offset) : Option Nat :=
  (indexOf? body target).bind (table[·]?)

/-- The loop over the targets leaves out repetitions and the block that is fallen into. -/
theorem foldl_addSuccessor (targets : List Offset) :
    targets.foldl (addSuccessor body table onward) [] =
      (targets.filterMap (targetBlock? body table)).eraseDups.filter fun k => onward != some k := by
  induction targets using List.reverseRecOn with
  | nil => rfl
  | append_singleton targets target ih =>
    rw [List.foldl_append, List.foldl_cons, List.foldl_nil, ih, List.filterMap_append,
      List.eraseDups_append, List.filter_append, addSuccessor, List.filterMap_cons, List.filterMap_nil]
    have hblock : (indexOf? body target).bind (table[·]?) = targetBlock? body table target := rfl
    rw [hblock]
    generalize targets.filterMap (targetBlock? body table) = names
    cases targetBlock? body table target with
    | none => simp [List.removeAll]
    | some k =>
      by_cases honward : onward = some k
      · simp [List.removeAll, honward, List.filter_cons]
      · by_cases hmem : k ∈ names
        · simp [List.removeAll, honward, hmem]
        · simp [List.removeAll, honward, hmem, List.eraseDups_cons]

/-- What the loop over the targets keeps: no block twice, and not the one that is fallen into. -/
def Distinct (onward : Option Nat) (successors : List Nat) : Prop :=
  successors.Nodup ∧ ∀ k ∈ successors, onward ≠ some k

/-- A target adds no block twice. -/
theorem Distinct.addSuccessor {successors : List Nat} (h : Distinct onward successors)
    (target : Offset) : Distinct onward (addSuccessor body table onward successors target) := by
  unfold Graph.addSuccessor
  split
  · split
    · rename_i k _ hnew
      simp only [Bool.and_eq_true, bne_iff_ne, Bool.not_eq_true', List.contains_eq_mem,
        decide_eq_false_iff_not] at hnew
      refine ⟨?_, fun m hm => ?_⟩
      · exact List.nodup_append.mpr ⟨h.1, List.nodup_singleton k, fun m hm m' hm' hsame =>
          hnew.2 (List.mem_singleton.mp hm' ▸ hsame ▸ hm)⟩
      · rcases List.mem_append.mp hm with hold | hlast
        · exact h.2 m hold
        · rw [List.mem_singleton.mp hlast]
          exact hnew.1
    · exact h
  · exact h

/-- A block that is given its successors has none twice. -/
theorem nodup_linkForward (body : Array Instruction) (table : Array Nat) (count : Nat) (block : Block) :
    (linkForward body table count block).successors.Nodup := by
  have hrun : ∀ (onward : Option Nat) (targets : List Offset) (successors : List Nat),
      Distinct onward successors →
        Distinct onward (targets.foldl (addSuccessor body table onward) successors) := by
    intro onward targets
    induction targets with
    | nil => exact fun successors h => h
    | cons target targets ih => exact fun successors h => ih _ (h.addSuccessor target)
  obtain ⟨hnodup, honward⟩ := hrun (linkForward body table count block).fallthrough
    ((block.last?.map Instruction.branchTargets).getD []) [] ⟨List.nodup_nil, by simp⟩
  refine List.nodup_append.mpr ⟨hnodup, ?_, fun k hk m hm hkm => ?_⟩
  · split <;> simp
  · exact honward k hk (hkm ▸ Option.mem_toList.mp hm)

end Successors

section Predecessors

/-- The successors of block `k`, none if there is no such block. -/
def successorsAt (blocks : List Block) (k : Nat) : List Nat :=
  (blocks[k]?.map Block.successors).getD []

/-- The edges from block `k` that are entered at their ends reach each block once at most. -/
theorem getElem?_foldl_addPredecessor (k : Nat) {successors : List Nat} (hnodup : successors.Nodup)
    (blocks : List Block) (j : Nat) :
    (successors.foldl (addPredecessor k) blocks)[j]? = blocks[j]?.map fun block =>
      { block with predecessors := block.predecessors ++ if j ∈ successors then [k] else [] } := by
  induction successors generalizing blocks with
  | nil => simp
  | cons s successors ih =>
    obtain ⟨hnot, hrest⟩ := List.nodup_cons.mp hnodup
    rw [List.foldl_cons, ih hrest, addPredecessor, List.getElem?_modify]
    cases hblock : blocks[j]? with
    | none => rfl
    | some block =>
      by_cases hj : s = j
      · subst hj
        simp [hnot]
      · simp [hj, Ne.symm hj]

/-- Blocks that only get more predecessors keep their successors. -/
theorem successorsAt_of_more {blocks others : List Block} {more : Nat → List Nat}
    (h : ∀ j, others[j]? = blocks[j]?.map fun block : Block =>
      { block with predecessors := block.predecessors ++ more j }) (k : Nat) :
    successorsAt others k = successorsAt blocks k := by
  rw [successorsAt, h k, Option.map_map]
  rfl

/-- After the edges from the first blocks are entered at their ends, a block has those of these blocks
as predecessors that lead to it. -/
theorem getElem?_foldl_linkBack {blocks : List Block}
    (hnodup : ∀ block ∈ blocks, block.successors.Nodup) (count j : Nat) :
    ((List.range count).foldl linkBack blocks)[j]? = blocks[j]?.map fun block =>
      { block with predecessors := block.predecessors ++
          (List.range count).filter fun k => (successorsAt blocks k).contains j } := by
  induction count generalizing j with
  | zero => simp
  | succ count ih =>
    rw [List.range_succ, List.foldl_append, List.foldl_cons, List.foldl_nil]
    have hsame := successorsAt_of_more ih count
    have hdistinct : (successorsAt blocks count).Nodup := by
      unfold successorsAt
      cases hblock : blocks[count]? with
      | none => exact List.nodup_nil
      | some block => exact hnodup block (List.mem_of_getElem? hblock)
    rw [linkBack]
    change (List.foldl _ _ (successorsAt _ count))[j]? = _
    rw [hsame, getElem?_foldl_addPredecessor count hdistinct, ih, Option.map_map]
    congr
    funext block
    simp [List.filter_append, List.filter_cons]

end Predecessors

section Assembled

variable {body : Array Instruction} {leaders : Leaders}

/-- The slices with their successors. -/
def linked (body : Array Instruction) (leaders : Leaders) : List Block :=
  (slices body leaders.entries).map
    (linkForward body (blockTable body leaders.entries) leaders.entries.length)

/-- A block of an assembled graph is a slice with its successors, and with the blocks that lead to it
as predecessors. -/
theorem getElem?_assemble (body : Array Instruction) (leaders : Leaders) (k : Nat) :
    (assemble body leaders).blocks[k]? = (linked body leaders)[k]?.map fun block =>
      { block with predecessors :=
          (List.range leaders.entries.length).filter fun m =>
            (successorsAt (linked body leaders) m).contains k } := by
  have hnodup : ∀ block ∈ linked body leaders, block.successors.Nodup := by
    intro block hblock
    obtain ⟨slice, -, rfl⟩ := List.mem_map.mp hblock
    exact nodup_linkForward _ _ _ slice
  refine (getElem?_foldl_linkBack hnodup leaders.entries.length k).trans ?_
  -- a slice starts without predecessors
  have hfresh : ∀ block ∈ linked body leaders, block.predecessors = [] := by
    intro block hblock
    obtain ⟨slice, hslice, rfl⟩ := List.mem_map.mp hblock
    obtain ⟨j, hj, rfl⟩ := List.mem_mapIdx.mp hslice
    rfl
  cases hblock : (linked body leaders)[k]? with
  | none => rfl
  | some block => simp [hfresh block (List.mem_of_getElem? hblock)]

/-- The blocks of an assembled graph have the numbers of their places. -/
theorem index_assemble {k : Nat} {block : Block} (hk : (assemble body leaders).blocks[k]? = some block) :
    block.index = k := by
  rw [getElem?_assemble, linked, List.getElem?_map, slices, List.getElem?_mapIdx] at hk
  simp only [Option.map_map, Option.map_eq_some_iff] at hk
  obtain ⟨entry, -, rfl⟩ := hk
  rfl

/-- The blocks of an assembled graph hold the slices. -/
theorem map_instructions_assemble (body : Array Instruction) (leaders : Leaders) :
    (assemble body leaders).blocks.map Block.instructions =
      (slices body leaders.entries).map Block.instructions := by
  apply List.ext_getElem?
  intro k
  rw [List.getElem?_map, getElem?_assemble, linked, List.getElem?_map, List.getElem?_map, Option.map_map,
    Option.map_map]
  rfl

/-- The successors of a block do not depend on the edges entered at their ends. -/
theorem successorsAt_assemble (body : Array Instruction) (leaders : Leaders) (k : Nat) :
    successorsAt (assemble body leaders).blocks k = successorsAt (linked body leaders) k := by
  rw [successorsAt, getElem?_assemble, Option.map_map]
  rfl

end Assembled

section Built

variable {body : List Instruction} {regions : List Region} {g : Graph} {k : Nat} {block : Block}

/-- The blocks of a graph have the numbers of their places. -/
theorem index_of_build (h : build body regions = .ok g) (hk : g.blocks[k]? = some block) :
    block.index = k := by
  obtain ⟨leaders, -, rfl⟩ := exists_assemble_of_build h
  exact index_assemble hk

/-- The blocks of a graph join to the body. -/
theorem flatten_of_build (h : build body regions = .ok g) :
    (g.blocks.map Block.instructions).flatten = body := by
  obtain ⟨leaders, hcovers, rfl⟩ := exists_assemble_of_build h
  rw [map_instructions_assemble]
  exact hcovers.flatten_slices

/-- The instructions of a block are instructions of the body. -/
theorem mem_body_of_mem_block (h : build body regions = .ok g) (hblock : block ∈ g.blocks)
    {i : Instruction} (hi : i ∈ block.instructions) : i ∈ body := by
  rw [← flatten_of_build h]
  exact List.mem_flatten.mpr ⟨block.instructions, List.mem_map_of_mem hblock, hi⟩

/-- The predecessors of a block are the blocks that lead to it. -/
theorem mem_predecessors_iff (h : build body regions = .ok g) (hk : g.blocks[k]? = some block)
    (m : Nat) :
    m ∈ block.predecessors ↔ ∃ before, g.blocks[m]? = some before ∧ k ∈ before.successors := by
  obtain ⟨leaders, -, rfl⟩ := exists_assemble_of_build h
  have hlength : (assemble body.toArray leaders).blocks.length = leaders.entries.length := by
    have hmap := congrArg List.length (map_instructions_assemble body.toArray leaders)
    simpa [slices] using hmap
  rw [getElem?_assemble] at hk
  obtain ⟨slice, -, rfl⟩ := Option.map_eq_some_iff.mp hk
  simp only [List.mem_filter, List.mem_range, List.contains_eq_mem, decide_eq_true_eq,
    ← successorsAt_assemble, ← hlength]
  unfold successorsAt
  constructor
  · rintro ⟨hm, hmem⟩
    have hblock := List.getElem?_eq_getElem hm
    rw [hblock] at hmem
    exact ⟨_, hblock, hmem⟩
  · rintro ⟨before, hbefore, hmem⟩
    rw [hbefore]
    exact ⟨(List.getElem?_eq_some_iff.mp hbefore).1, hmem⟩

end Built

end Unstack.Graph
