import Unstack.Proofs.Edges
import Mathlib.Logic.Relation

/-!
# The graph as a quotient of the flow between instructions

Control goes from instruction to instruction, and the graph only records where it goes from block to
block. Nothing is lost by that. A step of control stays in its block and goes to the next place there,
or it leaves the last place of a block along an edge and comes to the first place of another. So what
control can reach from the start of a block is what lies in the blocks that the edges reach.
-/

namespace Unstack.Graph

variable {body : List Instruction} {regions : List Region}

/-- Instruction `n` of the body is at place `j` of block `k`. -/
def Place (g : Graph) (k j n : Nat) : Prop :=
  ∃ block, g.blocks[k]? = some block ∧ j < block.instructions.length ∧
    startOf (g.blocks.map Block.instructions) k + j = n

/-- There is an edge from one block to the other. -/
def Edge (g : Graph) (k m : Nat) : Prop := ∃ block, g.blocks[k]? = some block ∧ m ∈ block.successors

/-- The graph stands for the flow between the instructions of the body. -/
structure IsQuotient (g : Graph) (body : List Instruction) : Prop where
  /-- Every instruction is at a place, -/
  placed : ∀ n i, body[n]? = some i → ∃ k j, g.Place k j n
  /-- and at one only. -/
  unique : ∀ k j k' j' n, g.Place k j n → g.Place k' j' n → k = k' ∧ j = j'
  /-- A block lists what its places hold. -/
  holds : ∀ k block j n, g.blocks[k]? = some block → g.Place k j n →
    block.instructions[j]? = body[n]?
  /-- Control passes to the next place of the block, or from the last place of the block along an edge
  to the first place of a block. -/
  flow : ∀ m n, FlowsTo body m n ↔
    (∃ k j, g.Place k j m ∧ g.Place k (j + 1) n) ∨
      ∃ k block k', g.blocks[k]? = some block ∧ g.Place k (block.instructions.length - 1) m ∧
        g.Place k' 0 n ∧ k' ∈ block.successors
  /-- From the start of a block control reaches what is in the blocks that edges reach. -/
  reach : ∀ k k' j m n, g.Place k 0 m → g.Place k' j n →
    (Relation.ReflTransGen (FlowsTo body) m n ↔ Relation.ReflTransGen g.Edge k k')

/-- The places of a graph are the places of its segments. -/
theorem place_iff (body : List Instruction) (regions : List Region) (k j n : Nat) :
    (connect body regions).Place k j n ↔
      ∃ segment, (segments body regions)[k]? = some segment ∧ j < segment.length ∧
        startOf (segments body regions) k + j = n := by
  unfold Place
  rw [connect_map_instructions]
  constructor
  · rintro ⟨block, hblock, hj, hn⟩
    obtain ⟨segment, hsegment, rfl⟩ := (getElem?_connect_blocks body regions k block).mp hblock
    exact ⟨segment, hsegment, hj, hn⟩
  · rintro ⟨segment, hsegment, hj, hn⟩
    exact ⟨_, (getElem?_connect_blocks body regions k _).mpr ⟨segment, hsegment, rfl⟩, hj, hn⟩

/-- The places of a block are those behind the start of its segment. -/
theorem place_iff_of_segment {k : Nat} {segment : List Instruction}
    (hsegment : (segments body regions)[k]? = some segment) (j n : Nat) :
    (connect body regions).Place k j n ↔
      j < segment.length ∧ startOf (segments body regions) k + j = n := by
  rw [place_iff, hsegment]
  simp

/-- The first place of a segment is where it starts. -/
theorem place_start {k : Nat} (hk : k < (segments body regions).length) :
    (connect body regions).Place k 0 (startOf (segments body regions) k) := by
  have hsegment := List.getElem?_eq_getElem hk
  rw [place_iff_of_segment hsegment]
  exact ⟨List.length_pos_iff.mpr (segment_ne_nil hsegment), rfl⟩

/-- Every instruction of the body is at a place. -/
theorem exists_place_of_getElem? (regions : List Region) {n : Nat} {i : Instruction}
    (hi : body[n]? = some i) :
    ∃ k j, (connect body regions).Place k j n := by
  rw [← segments_flatten body regions] at hi
  obtain ⟨k, segment, j, hsegment, hj, rfl⟩ := exists_place _ hi
  exact ⟨k, j, (place_iff body regions k j _).mpr
    ⟨segment, hsegment, (List.getElem?_eq_some_iff.mp hj).1, rfl⟩⟩

/-- A place lies before the start of every later segment. -/
theorem place_lt_startOf {k j m : Nat} {segment : List Instruction}
    (hsegment : (segments body regions)[k]? = some segment) (hj : j < segment.length) (hkm : k < m) :
    startOf (segments body regions) k + j < startOf (segments body regions) m := by
  have hnext := startOf_mono (segments body regions) hkm
  rw [startOf_succ hsegment] at hnext
  omega

/-- No two places hold one instruction. -/
theorem place_unique {k j k' j' n : Nat} (h : (connect body regions).Place k j n)
    (h' : (connect body regions).Place k' j' n) : k = k' ∧ j = j' := by
  obtain ⟨segment, hsegment, hj, hn⟩ := (place_iff body regions k j n).mp h
  obtain ⟨segment', hsegment', hj', hn'⟩ := (place_iff body regions k' j' n).mp h'
  have hsame : k = k' := by
    by_contra hne
    rcases Nat.lt_or_gt_of_ne hne with hlt | hgt
    · have := place_lt_startOf hsegment hj hlt
      omega
    · have := place_lt_startOf hsegment' hj' hgt
      omega
  subst hsame
  exact ⟨rfl, by omega⟩

/-- The place of a block holds the instruction of the body. -/
theorem getElem?_place {k j n : Nat} {block : Block}
    (hblock : (connect body regions).blocks[k]? = some block)
    (h : (connect body regions).Place k j n) : block.instructions[j]? = body[n]? := by
  obtain ⟨segment, hsegment, rfl⟩ := (getElem?_connect_blocks body regions k block).mp hblock
  obtain ⟨hj, rfl⟩ := (place_iff_of_segment hsegment j n).mp h
  have hplace := List.getElem?_eq_getElem hj
  exact hplace.trans (getElem?_segment hsegment hplace).symm

/-- Where an instruction stands behind a segment, another segment follows. -/
theorem next_lt_length {k : Nat} {i : Instruction}
    (hi : body[startOf (segments body regions) (k + 1)]? = some i) :
    k + 1 < (segments body regions).length := by
  obtain ⟨k', j', hplace⟩ := exists_place_of_getElem? regions hi
  obtain ⟨segment', hsegment', hj', hn⟩ := (place_iff body regions k' j' _).mp hplace
  have hk' := (List.getElem?_eq_some_iff.mp hsegment').1
  by_contra hend
  have hlt := place_lt_startOf hsegment' hj' (show k' < k + 1 by omega)
  omega

/-- The segment that is found by the offset of an instruction starts at it. -/
theorem startOf_segmentAt? (hinc : Increasing body) {n m : Nat} {i : Instruction}
    (hi : body[n]? = some i) (hm : segmentAt? (segments body regions) i.offset = some m) :
    m < (segments body regions).length ∧ startOf (segments body regions) m = n := by
  obtain ⟨segment, first, hsegment, hfirst, hoffset⟩ := (segmentAt?_eq_some_iff hinc _ m).mp hm
  refine ⟨(List.getElem?_eq_some_iff.mp hsegment).1, ?_⟩
  exact hinc.index_unique (getElem?_segment hsegment hfirst) hi hoffset

/-- A step of control goes to the next place of its segment, or leaves the last place for the start of
a segment that comes after it. -/
theorem flowsTo_cases (hw : WellFormed body regions) {k j n : Nat} {segment : List Instruction}
    (hsegment : (segments body regions)[k]? = some segment) (hj : j < segment.length)
    (hflow : FlowsTo body (startOf (segments body regions) k + j) n) :
    j + 1 < segment.length ∧ n = startOf (segments body regions) k + (j + 1) ∨
      j + 1 = segment.length ∧ ∃ m ∈ successorsOf (segments body regions) k segment,
        m < (segments body regions).length ∧ startOf (segments body regions) m = n := by
  obtain ⟨i, target, hi, htarget, hway⟩ := hflow
  have hplace : segment[j]? = some i := by
    have hsame := getElem?_segment hsegment (List.getElem?_eq_getElem hj)
    rw [List.getElem?_eq_getElem hj, ← hsame, hi]
  by_cases hinside : j + 1 < segment.length
  · -- an instruction inside a segment has no targets
    left
    rcases hway with ⟨-, hnext⟩ | htargets
    · exact ⟨hinside, by omega⟩
    · have hlast := getLast?_of_targets hw hsegment hplace (List.ne_nil_of_mem htargets)
      rw [List.getLast?_eq_getElem?] at hlast
      have hend := hw.increasing.index_unique (getElem?_segment hsegment hlast) hi rfl
      omega
  · right
    have hend : j + 1 = segment.length := by omega
    have hlast : segment.getLast? = some i := by
      rw [List.getLast?_eq_getElem?, show segment.length - 1 = j by omega, hplace]
    refine ⟨hend, ?_⟩
    rcases hway with ⟨hfalls, hnext⟩ | htargets
    · have hstart : startOf (segments body regions) (k + 1) = n := by
        rw [startOf_succ hsegment]
        omega
      have hk := next_lt_length (hstart ▸ htarget)
      exact ⟨k + 1, (mem_successorsOf _ k segment _).mpr ⟨i, hlast, .inl ⟨hfalls, hk, rfl⟩⟩, hk, hstart⟩
    · have hbranch := List.mem_of_getElem? hi
      have hstarts : (connect body regions).StartsBlock n :=
        (startsBlock_iff_rule htarget).mpr (.inr (.inl ⟨i, hbranch, htargets⟩))
      obtain ⟨m, hm⟩ := exists_segmentAt? hw.increasing htarget hstarts
      refine ⟨m, ?_, startOf_segmentAt? hw.increasing htarget hm⟩
      exact (mem_successorsOf _ k segment m).mpr ⟨i, hlast, .inr ⟨target.offset, htargets, hm⟩⟩

/-- Control passes exactly to the next place of the block, or from its last place along an edge to the
first place of a block. -/
theorem flowsTo_iff (hw : WellFormed body regions) (m n : Nat) :
    FlowsTo body m n ↔
      (∃ k j, (connect body regions).Place k j m ∧ (connect body regions).Place k (j + 1) n) ∨
        ∃ k block k', (connect body regions).blocks[k]? = some block ∧
          (connect body regions).Place k (block.instructions.length - 1) m ∧
          (connect body regions).Place k' 0 n ∧ k' ∈ block.successors := by
  constructor
  · intro hflow
    have ⟨i, _, hi, _⟩ := hflow
    obtain ⟨k, j, hplace⟩ := exists_place_of_getElem? regions hi
    obtain ⟨segment, hsegment, hj, rfl⟩ := (place_iff body regions k j m).mp hplace
    rcases flowsTo_cases hw hsegment hj hflow with ⟨hinside, rfl⟩ | ⟨hend, k', hk', hlength, rfl⟩
    · exact .inl ⟨k, j, hplace, (place_iff_of_segment hsegment _ _).mpr ⟨hinside, rfl⟩⟩
    · have hblock := (getElem?_connect_blocks body regions k _).mpr ⟨segment, hsegment, rfl⟩
      have hlast : segment.length - 1 = j := by omega
      exact .inr ⟨k, _, k', hblock, hlast ▸ hplace, place_start hlength, hk'⟩
  · rintro (⟨k, j, hm, hn⟩ | ⟨k, block, k', hblock, hm, hn, hk'⟩)
    · obtain ⟨segment, hsegment, hj, rfl⟩ := (place_iff body regions k j m).mp hm
      obtain ⟨hj', rfl⟩ := (place_iff_of_segment hsegment (j + 1) n).mp hn
      exact (flowsTo_inside hsegment (List.getElem?_eq_getElem hj) (List.getElem?_eq_getElem hj')).1
    · obtain ⟨segment, hsegment, rfl⟩ := (getElem?_connect_blocks body regions k block).mp hblock
      obtain ⟨-, rfl⟩ := (place_iff_of_segment hsegment _ m).mp hm
      obtain ⟨_, _, htarget, -, hflow⟩ := flowsTo_edge hw.increasing hsegment hk'
      obtain ⟨-, rfl⟩ := (place_iff_of_segment htarget 0 n).mp hn
      exact hflow

/-- Control reaches every place of a block from its first place. -/
theorem reaches_inside {k j m n : Nat} (hm : (connect body regions).Place k 0 m)
    (hn : (connect body regions).Place k j n) : Relation.ReflTransGen (FlowsTo body) m n := by
  obtain ⟨segment, hsegment, hj, rfl⟩ := (place_iff body regions k j n).mp hn
  obtain ⟨-, rfl⟩ := (place_iff_of_segment hsegment 0 m).mp hm
  clear hn
  induction j with
  | zero => exact .refl
  | succ j ih =>
    have hbefore := List.getElem?_eq_getElem (Nat.lt_of_succ_lt hj)
    have hstep := (flowsTo_inside hsegment hbefore (List.getElem?_eq_getElem hj)).1
    exact (ih (Nat.lt_of_succ_lt hj)).tail hstep

/-- Where control comes along, edges lead from block to block. -/
theorem edges_of_flow (hw : WellFormed body regions) {k j m n : Nat}
    (hm : (connect body regions).Place k j m) (hflow : Relation.ReflTransGen (FlowsTo body) m n)
    {k' j' : Nat} (hn : (connect body regions).Place k' j' n) :
    Relation.ReflTransGen (connect body regions).Edge k k' := by
  induction hflow generalizing k' j' with
  | refl =>
    obtain ⟨rfl, -⟩ := place_unique hm hn
    exact .refl
  | tail _ hstep ih =>
    rcases (flowsTo_iff hw _ _).mp hstep with ⟨a, i, ha, hnext⟩ | ⟨a, block, b, hblock, ha, hb, hedge⟩
    · obtain ⟨rfl, -⟩ := place_unique hn hnext
      exact ih ha
    · obtain ⟨rfl, -⟩ := place_unique hn hb
      exact (ih ha).tail ⟨block, hblock, hedge⟩

/-- Where edges lead, control comes along. -/
theorem flow_of_edges (hw : WellFormed body regions) {k k' m : Nat}
    (hm : (connect body regions).Place k 0 m)
    (hedges : Relation.ReflTransGen (connect body regions).Edge k k') {j n : Nat}
    (hn : (connect body regions).Place k' j n) : Relation.ReflTransGen (FlowsTo body) m n := by
  induction hedges generalizing j n with
  | refl => exact reaches_inside hm hn
  | tail _ hedge ih =>
    obtain ⟨block, hblock, hsuccessor⟩ := hedge
    obtain ⟨segment, hsegment, rfl⟩ := (getElem?_connect_blocks body regions _ block).mp hblock
    obtain ⟨target, first, htarget, -, hstep⟩ := flowsTo_edge hw.increasing hsegment hsuccessor
    have hpos := List.length_pos_iff.mpr (segment_ne_nil hsegment)
    have hlast := ih ((place_iff_of_segment hsegment (segment.length - 1) _).mpr ⟨by omega, rfl⟩)
    have hstart := place_start (List.getElem?_eq_some_iff.mp htarget).1
    exact (hlast.tail hstep).trans (reaches_inside hstart hn)

/-- A graph is a quotient of the flow between the instructions of its body, if only transfers of
control carry targets. -/
theorem build_isQuotient {g : Graph} (h : build body regions = .ok g) (hinc : Increasing body)
    (hcarriers : ∀ i ∈ body, i.branchTargets ≠ [] → i.flowKind ≠ .fallthrough) :
    g.IsQuotient body := by
  have hw := wellFormed_of_build h hinc hcarriers
  obtain rfl := eq_connect_of_build h hinc
  exact
    { placed := fun n i hi => exists_place_of_getElem? regions hi
      unique := fun k j k' j' n => place_unique
      holds := fun k block j n => getElem?_place
      flow := flowsTo_iff hw
      reach := fun k k' j m n hm hn =>
        ⟨fun hflow => edges_of_flow hw hm hflow hn, fun hedges => flow_of_edges hw hm hedges hn⟩ }

/-- The graph of the guarded loop, with its handler and its dead branch, is a quotient of its flow. -/
theorem guardedLoop_isQuotient :
    build guardedLoop guardedLoopRegions = .ok (connect guardedLoop guardedLoopRegions) ∧
      Increasing guardedLoop ∧
      (∀ i ∈ guardedLoop, i.branchTargets ≠ [] → i.flowKind ≠ .fallthrough) ∧
      (connect guardedLoop guardedLoopRegions).IsQuotient guardedLoop := by
  have hw := guardedLoop_wellFormed
  have hbuild := hw.build_eq_connect (List.cons_ne_nil _ _)
  exact ⟨hbuild, hw.increasing, hw.carriers, build_isQuotient hbuild hw.increasing hw.carriers⟩

end Unstack.Graph
