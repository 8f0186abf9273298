import Unstack.Proofs.Construction

/-!
# The edges between blocks

A block has an edge to every block that its last instruction names, each once and in the order in
which it names them first, and behind these to the block that it falls into. Targets are looked up
by offset in the finished blocks. That the lookup never fails rests on where blocks start: a target
is the start of an instruction, and an instruction that a branch names starts a block.
-/

namespace Unstack.Graph

variable {body : List Instruction} {regions : List Region}

/-- Block `k` of the graph starts at the offset. -/
def StartsAt (g : Graph) (k : Nat) (offset : Offset) : Prop :=
  ∃ block, g.blocks[k]? = some block ∧ block.start? = some offset

/-- The targets name block `k` before they name block `m`: a first part of them names `k` and does not
name `m`. -/
def NamesBefore (g : Graph) (targets : List Offset) (k m : Nat) : Prop :=
  ∃ front, front <+: targets ∧ (∃ t ∈ front, g.StartsAt k t) ∧ ∀ t ∈ front, ¬g.StartsAt m t

/-- The edges of block `k` of a graph, given its last instruction. -/
structure HasEdges (g : Graph) (k : Nat) (block : Block) (last : Instruction) : Prop where
  /-- The block falls into the next one, if it goes on and there is one. -/
  onward : ∀ m, block.fallthrough = some m ↔
    last.fallsThrough = true ∧ k + 1 < g.blocks.length ∧ m = k + 1
  /-- The blocks named by the last instruction come in the order in which they are named first, without
  the block that is fallen into, which comes last. -/
  successors : ∃ jumps, block.successors = jumps ++ block.fallthrough.toList ∧
    (∀ m, m ∈ jumps ↔
      (∃ t ∈ last.branchTargets, g.StartsAt m t) ∧ block.fallthrough ≠ some m) ∧
    jumps.Pairwise (g.NamesBefore last.branchTargets)
  distinct : block.successors.Nodup
  /-- Every target is the start of a successor. -/
  targets : ∀ t ∈ last.branchTargets, ∃ m ∈ block.successors, g.StartsAt m t
  predecessors : block.predecessors.Pairwise (· < ·) ∧
    ∀ m, m ∈ block.predecessors ↔ ∃ before, g.blocks[m]? = some before ∧ k ∈ before.successors
  exit : block ∈ g.exits ↔
    last.branchTargets = [] ∧ (last.fallsThrough = false ∨ k + 1 = g.blocks.length)

/-- A block starts at an offset exactly if the lookup by offset finds its segment. -/
theorem startsAt_iff (hinc : Increasing body) (k : Nat) (offset : Offset) :
    (connect body regions).StartsAt k offset ↔
      segmentAt? (segments body regions) offset = some k := by
  rw [segmentAt?_eq_some_iff hinc]
  unfold StartsAt Block.start?
  constructor
  · rintro ⟨block, hblock, hstart⟩
    obtain ⟨segment, hsegment, rfl⟩ := (getElem?_connect_blocks body regions k block).mp hblock
    obtain ⟨first, hfirst, hoffset⟩ := Option.map_eq_some_iff.mp hstart
    exact ⟨segment, first, hsegment, List.head?_eq_getElem?.symm.trans hfirst, hoffset⟩
  · rintro ⟨segment, first, hsegment, hfirst, rfl⟩
    refine ⟨_, (getElem?_connect_blocks body regions k _).mpr ⟨segment, hsegment, rfl⟩, ?_⟩
    change segment.head?.map Instruction.offset = some first.offset
    rw [List.head?_eq_getElem?, hfirst, Option.map_some]

/-- An instruction that starts a block is found by its offset. -/
theorem exists_segmentAt? (hinc : Increasing body) {n : Nat} {i : Instruction}
    (hi : body[n]? = some i) (hstarts : (connect body regions).StartsBlock n) :
    ∃ k, segmentAt? (segments body regions) i.offset = some k := by
  obtain ⟨k, hk, rfl⟩ := (startsBlock_iff body regions n).mp hstarts
  have hsegment := List.getElem?_eq_getElem hk
  have hpos := List.length_pos_iff.mpr (segment_ne_nil hsegment)
  have hfirst := List.getElem?_eq_getElem hpos
  have hsame := getElem?_segment hsegment hfirst
  rw [Nat.add_zero, hi, Option.some.injEq] at hsame
  refine ⟨k, (segmentAt?_eq_some_iff hinc i.offset k).mpr ⟨_, _, hsegment, hfirst, ?_⟩⟩
  rw [hsame]

/-- In a body that has a graph, every target is the start of a block. -/
theorem exists_block_of_target {g : Graph} (h : build body regions = .ok g) (hinc : Increasing body)
    {branch : Instruction} (hbranch : branch ∈ body) {t : Offset} (ht : t ∈ branch.branchTargets) :
    ∃ k, segmentAt? (segments body regions) t = some k := by
  have hstart := ((build_eq_ok_iff hinc regions g).mp h).2.1 branch hbranch t ht
  obtain ⟨target, htarget, rfl⟩ := (isStart_iff body t).mp hstart
  obtain ⟨n, hn⟩ := List.getElem?_of_mem htarget
  apply exists_segmentAt? hinc hn
  exact (startsBlock_iff_rule hn).mpr (.inr (.inl ⟨branch, hbranch, ht⟩))

/-- Removing repetitions keeps items in the order in which they come first: of any two, a first part
of the list has the one and not yet the other. -/
theorem pairwise_eraseDups (items : List Nat) :
    items.eraseDups.Pairwise fun a b => ∃ front, front <+: items ∧ a ∈ front ∧ b ∉ front := by
  cases items with
  | nil => simp
  | cons a rest =>
    rw [List.eraseDups_cons, List.pairwise_cons]
    constructor
    · intro b hb
      have hne : b ≠ a := by simpa using (List.mem_filter.mp (List.mem_eraseDups.mp hb)).2
      exact ⟨[a], List.prefix_append [a] rest, List.mem_singleton_self a, by simpa using hne⟩
    · apply (pairwise_eraseDups (rest.filter fun b => !b == a)).imp_of_mem
      intro b c _ hc hbefore
      obtain ⟨front, hfront, hb, hnot⟩ := hbefore
      -- the first part of what differs from `a` comes from a first part of the rest
      obtain ⟨whole, hwhole, rfl⟩ := List.prefix_filter_iff.mp hfront
      have hdiffers := (List.mem_filter.mp (List.mem_eraseDups.mp hc)).2
      refine ⟨a :: whole, (List.prefix_cons_inj a).mpr hwhole, ?_, ?_⟩
      · exact List.mem_cons_of_mem a (List.mem_filter.mp hb).1
      · intro hmem
        rcases List.mem_cons.mp hmem with rfl | hlater
        · simp at hdiffers
        · exact hnot (List.mem_filter.mpr ⟨hlater, hdiffers⟩)
termination_by items.length
decreasing_by exact Nat.lt_succ_of_le (List.length_filter_le _ _)

/-- The blocks that an instruction names, in the order of its targets and each once. -/
theorem pairwise_names (hinc : Increasing body) (targets : List Offset) :
    (targets.filterMap (segmentAt? (segments body regions))).eraseDups.Pairwise
      ((connect body regions).NamesBefore targets) := by
  apply (pairwise_eraseDups _).imp
  intro k m hbefore
  obtain ⟨front, hfront, hk, hm⟩ := hbefore
  obtain ⟨part, hpart, rfl⟩ := List.prefix_filterMap_iff.mp hfront
  obtain ⟨t, ht, hnames⟩ := List.mem_filterMap.mp hk
  refine ⟨part, hpart, ⟨t, ht, (startsAt_iff hinc k t).mpr hnames⟩, fun t' ht' hstart => ?_⟩
  exact hm (List.mem_filterMap.mpr ⟨t', ht', (startsAt_iff hinc m t').mp hstart⟩)

/-- Nothing is named before itself. -/
theorem NamesBefore.ne {g : Graph} {targets : List Offset} {k m : Nat}
    (h : g.NamesBefore targets k m) : k ≠ m := by
  intro hkm
  subst hkm
  obtain ⟨front, -, ⟨t, ht, hstart⟩, hnot⟩ := h
  exact hnot t ht hstart

/-- The predecessors of a segment are the segments with an edge to it. -/
theorem mem_predecessorsOf (edges : List (List Nat)) (k m : Nat) :
    m ∈ predecessorsOf edges k ↔ ∃ successors, edges[m]? = some successors ∧ k ∈ successors := by
  rw [predecessorsOf, List.mem_filter, List.mem_range, List.contains_eq_mem, decide_eq_true_eq]
  constructor
  · rintro ⟨hm, hk⟩
    rw [List.getElem?_eq_getElem hm, Option.getD_some] at hk
    exact ⟨_, List.getElem?_eq_getElem hm, hk⟩
  · rintro ⟨successors, hm, hk⟩
    rw [hm, Option.getD_some]
    exact ⟨(List.getElem?_eq_some_iff.mp hm).1, hk⟩

/-- Predecessors come in ascending order. -/
theorem predecessorsOf_ascending (edges : List (List Nat)) (k : Nat) :
    (predecessorsOf edges k).Pairwise (· < ·) :=
  List.pairwise_lt_range.filter _

/-- The segment that a segment falls into. -/
theorem fallthroughOf_eq_some_iff {segment : List Instruction} {last : Instruction}
    (hlast : segment.getLast? = some last) (count k m : Nat) :
    fallthroughOf count k segment = some m ↔
      last.fallsThrough = true ∧ k + 1 < count ∧ m = k + 1 := by
  unfold fallthroughOf
  rw [hlast, Option.any_some]
  by_cases honward : last.fallsThrough = true ∧ k + 1 < count
  · simp [honward, eq_comm]
  · rw [if_neg (by simpa using honward)]
    constructor
    · intro hnone
      contradiction
    · intro h
      exact absurd ⟨h.1, h.2.1⟩ honward

/-- The successors of a segment: first the ones that its last instruction names, in the order of
naming, then the one that it falls into. -/
theorem successorsOf_eq_append (hinc : Increasing body) (regions : List Region)
    {segment : List Instruction} {last : Instruction} (hlast : segment.getLast? = some last)
    (k : Nat) :
    ∃ jumps, successorsOf (segments body regions) k segment =
        jumps ++ (fallthroughOf (segments body regions).length k segment).toList ∧
      (∀ m, m ∈ jumps ↔
        (∃ t ∈ last.branchTargets, (connect body regions).StartsAt m t) ∧
          fallthroughOf (segments body regions).length k segment ≠ some m) ∧
      jumps.Pairwise ((connect body regions).NamesBefore last.branchTargets) := by
  unfold successorsOf
  rw [hlast, Option.map_some, Option.getD_some]
  refine ⟨_, rfl, fun m => ?_, (pairwise_names hinc last.branchTargets).filter _⟩
  rw [List.mem_filter, List.mem_eraseDups, List.mem_filterMap, bne_iff_ne]
  simp only [startsAt_iff hinc]

/-- There are as many blocks as segments. -/
theorem length_connect_blocks (body : List Instruction) (regions : List Region) :
    (connect body regions).blocks.length = (segments body regions).length := by
  rw [connect_blocks, List.length_mapIdx]

/-- The predecessors of a block are the blocks with an edge to it. -/
theorem mem_predecessors_blockOf (k : Nat) (segment : List Instruction) (m : Nat) :
    m ∈ (blockOf regions (segments body regions) k segment).predecessors ↔
      ∃ before, (connect body regions).blocks[m]? = some before ∧ k ∈ before.successors := by
  simp only [blockOf, mem_predecessorsOf, List.getElem?_map, List.getElem?_zipIdx, Nat.zero_add,
    Option.map_map, Option.map_eq_some_iff, Function.comp_apply, getElem?_connect_blocks]
  constructor
  · rintro ⟨_, ⟨before, hbefore, rfl⟩, hk⟩
    exact ⟨_, ⟨before, hbefore, rfl⟩, hk⟩
  · rintro ⟨_, ⟨before, hbefore, rfl⟩, hk⟩
    exact ⟨_, ⟨before, hbefore, rfl⟩, hk⟩

/-- A block without repetitions among the blocks that it names has none among its successors. -/
theorem nodup_of_namesBefore {g : Graph} {targets : List Offset} {jumps : List Nat}
    {onward : Option Nat} (hnames : jumps.Pairwise (g.NamesBefore targets))
    (honward : ∀ m ∈ jumps, onward ≠ some m) : (jumps ++ onward.toList).Nodup := by
  rw [List.nodup_append]
  refine ⟨hnames.imp NamesBefore.ne, by cases onward <;> simp, fun a ha b hb hab => ?_⟩
  exact honward a ha (hab ▸ Option.mem_toList.mp hb)

section Build

variable {g : Graph} {k : Nat} {segment : List Instruction} {last : Instruction}

/-- In a body that has a graph, every target of a last instruction is the start of a successor. -/
theorem exists_successor_of_target (h : build body regions = .ok g) (hinc : Increasing body)
    (hsegment : (segments body regions)[k]? = some segment) (hlast : segment.getLast? = some last)
    {t : Offset} (ht : t ∈ last.branchTargets) :
    ∃ m ∈ successorsOf (segments body regions) k segment, (connect body regions).StartsAt m t := by
  have hplace := getElem?_segment hsegment (List.getLast?_eq_getElem?.symm.trans hlast)
  obtain ⟨m, hm⟩ := exists_block_of_target h hinc (List.mem_of_getElem? hplace) ht
  refine ⟨m, ?_, (startsAt_iff hinc m t).mpr hm⟩
  exact (mem_successorsOf _ k segment m).mpr ⟨last, hlast, .inr ⟨t, ht, hm⟩⟩

/-- A segment is without successors exactly if its last instruction names none, and does not go on or
is the last of the body. -/
theorem successorsOf_eq_nil_iff (h : build body regions = .ok g) (hinc : Increasing body)
    (hsegment : (segments body regions)[k]? = some segment) (hlast : segment.getLast? = some last) :
    successorsOf (segments body regions) k segment = [] ↔
      last.branchTargets = [] ∧
        (last.fallsThrough = false ∨ k + 1 = (segments body regions).length) := by
  have hk := (List.getElem?_eq_some_iff.mp hsegment).1
  simp only [List.eq_nil_iff_forall_not_mem]
  constructor
  · intro hnone
    constructor
    · intro t ht
      obtain ⟨m, hm, -⟩ := exists_successor_of_target h hinc hsegment hlast ht
      exact hnone m hm
    · by_contra hgoes
      rw [not_or, Bool.not_eq_false] at hgoes
      apply hnone (k + 1)
      exact (mem_successorsOf _ k segment _).mpr ⟨last, hlast, .inl ⟨hgoes.1, by omega, rfl⟩⟩
  · intro hends m hm
    obtain ⟨other, hother, hedge⟩ := (mem_successorsOf _ k segment m).mp hm
    obtain rfl : last = other := by simpa [hlast] using hother
    rcases hedge with ⟨hfalls, hnext, -⟩ | ⟨t, ht, -⟩
    · rcases hends.2 with hstops | hend
      · simp [hfalls] at hstops
      · omega
    · exact hends.1 t ht

/-- A block of a graph has just the edges that its last instruction gives it. -/
theorem build_edges (h : build body regions = .ok g) (hinc : Increasing body) {block : Block}
    (hblock : g.blocks[k]? = some block) :
    ∃ last, block.last? = some last ∧ g.HasEdges k block last := by
  obtain rfl := eq_connect_of_build h hinc
  have hmem := List.mem_of_getElem? hblock
  obtain ⟨segment, hsegment, rfl⟩ := (getElem?_connect_blocks body regions k block).mp hblock
  have hlast := List.getLast?_eq_some_getLast (segment_ne_nil hsegment)
  obtain ⟨jumps, hsuccessors, hjumps, horder⟩ := successorsOf_eq_append hinc regions hlast k
  have hlength := length_connect_blocks body regions
  refine ⟨_, hlast,
    { onward := fun m => ?_
      successors := ⟨jumps, hsuccessors, hjumps, horder⟩
      distinct := ?_
      targets := fun t ht => exists_successor_of_target h hinc hsegment hlast ht
      predecessors := ⟨predecessorsOf_ascending _ k, mem_predecessors_blockOf k segment⟩
      exit := ?_ }⟩
  · rw [hlength]
    exact fallthroughOf_eq_some_iff hlast _ k m
  · change (successorsOf _ k segment).Nodup
    rw [hsuccessors]
    exact nodup_of_namesBefore horder fun m hm => ((hjumps m).mp hm).2
  · rw [exits, List.mem_filter, and_iff_right hmem, Block.isExit, List.isEmpty_iff, hlength]
    exact successorsOf_eq_nil_iff h hinc hsegment hlast

end Build

/-- A switch that names its own block, the block behind it and the return, some of them twice. -/
def crowdedSwitch : List Instruction :=
  [⟨0, ⟨"ldarg.0", 0x02, .next, .pop0, .push1, .inlineNone⟩, .none⟩,
    ⟨1, ⟨"switch", 0x45, .condBranch, .pop1, .push0, .inlineSwitch⟩, .targets [27, 0, 26, 27, 0]⟩,
    ⟨26, ⟨"nop", 0x00, .next, .pop0, .push0, .inlineNone⟩, .none⟩,
    ⟨27, ⟨"ret", 0x2A, .ret, .varPop, .push0, .inlineNone⟩, .none⟩]

/-- The block of the switch: it leads to the return, to itself and on. -/
def crowdedBlock : Block where
  index := 0
  instructions := crowdedSwitch.take 2
  predecessors := [0]
  successors := [2, 0, 1]
  fallthrough := some 1
  entryDepth := none

/-- The block of the switch has just its edges, and only the return is an exit. -/
theorem crowdedSwitch_edges :
    Graph.build crowdedSwitch [] = .ok (connect crowdedSwitch []) ∧ Increasing crowdedSwitch ∧
      (connect crowdedSwitch []).blocks[0]? = some crowdedBlock ∧
      (∃ last, crowdedBlock.last? = some last ∧
        (connect crowdedSwitch []).HasEdges 0 crowdedBlock last) ∧
      (connect crowdedSwitch []).exits.map Block.index = [2] := by
  have hinc : Increasing crowdedSwitch := by decide
  have hbuild : Graph.build crowdedSwitch [] = .ok (connect crowdedSwitch []) :=
    build_eq_connect hinc rfl
  have hblock : (connect crowdedSwitch []).blocks[0]? = some crowdedBlock := by decide
  exact ⟨hbuild, hinc, hblock, build_edges hbuild hinc hblock, by decide⟩

end Unstack.Graph
