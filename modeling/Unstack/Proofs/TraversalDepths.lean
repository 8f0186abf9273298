import Unstack.Proofs.ForwardDepths
import Unstack.Proofs.Partition
import Unstack.Proofs.Walk

/-!
# The walk over a depth-consistent body

The walk lowers every block of a depth-consistent body at the depths of the body, whatever the order
in which it comes to them. A visitor leaves the depth at which the block starts, as control would. A
root starts at zero, which is right because nothing before it leads there: all blocks before are
lowered by then, so any of their successors is, and an instruction with targets ends its block.
-/

namespace Unstack.Traversal

variable {body : List Instruction} {regions : List Region} {method : Signature}
  {depths : Nat → Nat}

/-- The depths of a body from the start of a segment on. -/
def depthsFrom (body : List Instruction) (regions : List Region) (depths : Nat → Nat) (k : Nat) :
    Nat → Nat :=
  fun j => depths (Graph.startOf (Graph.segments body regions) k + j)

/-- A segment is lowered at the depths of the body, and leaves what its last instruction leaves. -/
theorem run_segment (hd : DepthConsistent body regions method depths) {k : Nat}
    {segment : List Instruction} (h : (Graph.segments body regions)[k]? = some segment) :
    ∃ final, Lowered.run method (.ofDepth (depthsFrom body regions depths k 0)) segment =
        .ok (segment.mapIdx fun j i => .atDepth method (depthsFrom body regions depths k j) i,
          final) ∧
      (∀ last, segment.getLast? = some last → ∃ e, Effect.of last method = .ok e ∧
        final.depth = e.left (depthsFrom body regions depths k (segment.length - 1))) ∧
      ∀ bound, final.peak ≤ bound ↔
        Lowered.DepthsWithin method (depthsFrom body regions depths k) segment bound := by
  obtain ⟨final, hrun, hlast, hbound⟩ := Lowered.run_at_depths method
    (depthsFrom body regions depths k) segment (.ofDepth (depthsFrom body regions depths k 0))
    (fun _ => rfl) (Nat.le_refl _) fun j i hi => by
      obtain ⟨e, heffect, hfits⟩ := hd.effect _ i (Graph.getElem?_segment h hi)
      refine ⟨e, heffect, hfits, fun hnext => ?_⟩
      have hafter := List.getElem?_eq_getElem hnext
      obtain ⟨hflow, hentry⟩ := Graph.flowsTo_inside h hi hafter
      exact hd.flow _ _ i _ e (Graph.getElem?_segment h hi) (Graph.getElem?_segment h hafter) hflow
        hentry heffect
  refine ⟨final, hrun, hlast, fun bound => ?_⟩
  rw [hbound]
  refine ⟨And.right, fun hwithin => ⟨?_, hwithin⟩⟩
  have hpos := List.length_pos_iff.mpr (Graph.segment_ne_nil h)
  exact (hwithin 0 _ (List.getElem?_eq_getElem hpos)).1

/-- The successors of a block start at the depth that it leaves. -/
theorem entryDepth_successor (hw : WellFormed body regions)
    (hd : DepthConsistent body regions method depths) {k m : Nat} {segment : List Instruction}
    (h : (Graph.segments body regions)[k]? = some segment)
    (hm : m ∈ Graph.successorsOf (Graph.segments body regions) k segment)
    {last : Instruction} {e : Effect} (hlast : segment.getLast? = some last)
    (heffect : Effect.of last method = .ok e) {target : Block}
    (htarget : (Graph.connect body regions).blocks[m]? = some target) :
    entryDepth target (e.left (depthsFrom body regions depths k (segment.length - 1))) =
      depthsFrom body regions depths m 0 := by
  obtain ⟨tail, first, htail, hfirst, hflow⟩ := Graph.flowsTo_edge hw.increasing h hm
  obtain ⟨segment', hsegment', rfl⟩ :=
    (Graph.getElem?_connect_blocks body regions m target).mp htarget
  obtain rfl : tail = segment' := by simpa [htail] using hsegment'
  have hplace := Graph.getElem?_segment htail hfirst
  rw [entryDepth, Graph.blockOf_entryDepth regions _ m tail first hfirst]
  cases hentry : Region.entryDepthAt regions first.offset with
  | some depth => exact (hd.entry _ first depth hplace hentry).symm
  | none =>
    rw [List.getLast?_eq_getElem?] at hlast
    exact (hd.flow _ _ last first e (Graph.getElem?_segment h hlast) hplace hflow hentry
      heffect).symm

/-- A root that no earlier block leads to starts at its entry depth or at zero. -/
theorem entryDepth_root (hw : WellFormed body regions)
    (hd : DepthConsistent body regions method depths) {k : Nat} {root : Block}
    (hroot : (Graph.connect body regions).blocks[k]? = some root)
    (hbefore : ∀ j before, j < k → (Graph.connect body regions).blocks[j]? = some before →
      k ∉ before.successors) :
    entryDepth root 0 = depthsFrom body regions depths k 0 := by
  obtain ⟨segment, hsegment, rfl⟩ := (Graph.getElem?_connect_blocks body regions k root).mp hroot
  have hpos := List.length_pos_iff.mpr (Graph.segment_ne_nil hsegment)
  have hfirst := List.getElem?_eq_getElem hpos
  have hplace := Graph.getElem?_segment hsegment hfirst
  have hnot : ∀ j before, j < k → (Graph.segments body regions)[j]? = some before →
      k ∉ Graph.successorsOf (Graph.segments body regions) j before := fun j before hj hget =>
    hbefore j _ hj ((Graph.getElem?_connect_blocks body regions j _).mpr ⟨before, hget, rfl⟩)
  rw [entryDepth, Graph.blockOf_entryDepth regions _ k segment _ hfirst]
  cases hentry : Region.entryDepthAt regions segment[0].offset with
  | some depth => exact (hd.entry _ _ depth hplace hentry).symm
  | none =>
    symm
    rcases Nat.eq_zero_or_pos (Graph.startOf (Graph.segments body regions) k) with hzero | hstart
    · rw [hzero] at hplace
      rw [depthsFrom, hzero]
      exact hd.start _ hplace hentry
    · have hunled : ∀ j, j < Graph.startOf (Graph.segments body regions) k →
          ¬FlowsTo body j (Graph.startOf (Graph.segments body regions) k) := by
        intro j hj hflow
        obtain ⟨m, before, hm, hget, hedge⟩ := Graph.exists_edge_before hw hsegment hfirst hj hflow
        exact hnot m before hm hget hedge
      refine hd.unreached _ _ hstart hplace hentry (fun before hget => ?_) fun j before hj hget ht =>
        hunled j hj ⟨before, _, hget, hplace, .inr ht⟩
      by_contra hfalls
      exact hunled _ (Nat.sub_lt hstart Nat.one_pos)
        ⟨before, _, hget, hplace, .inl ⟨by simpa using hfalls, (Nat.sub_add_cancel hstart).symm⟩⟩

/-- What holds along the walk: the entries of the work list bring the right depths, the recorded
blocks are lowered at the depths of the body, and the registers needed so far are the least bound of
these depths. -/
structure AtDepths (body : List Instruction) (regions : List Region) (method : Signature)
    (depths : Nat → Nat) (work : List (Nat × Nat)) (w : Walk) : Prop where
  entries : ∀ entry ∈ work, ∀ block,
    (Graph.connect body regions).blocks[entry.1]? = some block →
      entryDepth block entry.2 = depthsFrom body regions depths entry.1 0
  records : w.Records (Graph.connect body regions) fun k block ls =>
    ls = block.instructions.mapIdx fun j i =>
      .atDepth method (depthsFrom body regions depths k j) i
  registers : ∀ bound, w.registers ≤ bound ↔ ∀ k block,
    (Graph.connect body regions).blocks[k]? = some block → w.isOpen k = false →
      Lowered.DepthsWithin method (depthsFrom body regions depths k) block.instructions bound

/-- The walk keeps to the depths of the body and never fails. -/
theorem atDepths_invariant (hw : WellFormed body regions)
    (hd : DepthConsistent body regions method depths) :
    WalkInvariant (Graph.connect body regions) method (AtDepths body regions method depths)
      (fun _ => False) where
  start := by
    refine ⟨by simp, Walk.records_start _ _ 0, fun bound => ⟨fun _ k block hblock hclosed => ?_, ?_⟩⟩
    · rw [Walk.isOpen_start _ k block hblock] at hclosed
      contradiction
    · simp
  root k block w hblock hopen hexplored h := by
    refine ⟨fun entry hentry other hother => ?_, h.records, h.registers⟩
    obtain rfl : entry = (k, block.entryDepth.getD 0) := by simpa using hentry
    obtain rfl : block = other := by simpa [hblock] using hother
    rw [entryDepth_getD]
    exact entryDepth_root hw hd hblock fun j before hj => hexplored.not_successor hopen hj
  skip k depth rest w _ h :=
    ⟨fun entry hentry => h.entries entry (List.mem_cons_of_mem _ hentry), h.records, h.registers⟩
  lower k depth rest w block hblock hopen h := by
    obtain ⟨segment, hsegment, rfl⟩ := (Graph.getElem?_connect_blocks body regions k block).mp hblock
    obtain ⟨final, hrun, hlast, hbound⟩ := run_segment hd hsegment
    rw [h.entries (k, depth) List.mem_cons_self _ hblock]
    change Ends _ _ (Lowered.run method _ segment)
    rw [hrun]
    refine ⟨fun entry hentry other hother => ?_, h.records.close hblock rfl final.peak,
      fun bound => ?_⟩
    · rcases List.mem_append.mp hentry with hnew | hold
      · obtain ⟨m, hm, rfl⟩ := List.mem_map.mp hnew
        have hedge := (List.mem_filter.mp hm).1
        obtain ⟨last, hlast', -⟩ := (Graph.mem_successorsOf _ _ _ _).mp hedge
        obtain ⟨e, heffect, hdepth⟩ := hlast last hlast'
        rw [hdepth]
        exact entryDepth_successor hw hd hsegment hedge hlast' heffect hother
      · exact h.entries entry (List.mem_cons_of_mem _ hold) other hother
    · change max w.registers final.peak ≤ bound ↔ _
      rw [Nat.max_le, h.registers, hbound]
      refine ⟨fun hall j other hother hclosed => ?_, fun hall => ⟨fun j other hother hclosed => ?_, ?_⟩⟩
      · by_cases hjk : k = j
        · subst hjk
          obtain rfl := Option.some.inj (hblock.symm.trans hother)
          exact hall.2
        · exact hall.1 j other hother (by simpa [Walk.isOpen_close, hjk] using hclosed)
      · exact hall j other hother (by rw [Walk.isOpen_close, hclosed, Bool.false_and])
      · exact hall k _ hblock (by simp [Walk.isOpen_close])

/-- Numbering the instructions of each segment from its start is numbering those of the body. -/
theorem flatten_mapIdx_startOf (segments : List (List Instruction)) (f : Nat → Instruction → Lowered) :
    (segments.mapIdx fun k segment =>
      segment.mapIdx fun j i => f (Graph.startOf segments k + j) i).flatten =
        segments.flatten.mapIdx f := by
  induction segments generalizing f with
  | nil => rfl
  | cons first rest ih =>
    have hplace : ∀ k j, Graph.startOf (first :: rest) (k + 1) + j =
        Graph.startOf rest k + j + first.length := by
      intro k j
      rw [Graph.startOf_cons_succ]
      omega
    rw [List.mapIdx_cons, List.flatten_cons, List.flatten_cons, List.mapIdx_append]
    simp only [Graph.startOf_zero, Nat.zero_add, hplace]
    rw [ih fun n => f (n + first.length)]

/-- The bounds of the depths in all segments are the bounds of the depths in the body. -/
theorem depthsWithin_segments (body : List Instruction) (regions : List Region) (method : Signature)
    (depths : Nat → Nat) (bound : Nat) :
    (∀ k segment, (Graph.segments body regions)[k]? = some segment →
        Lowered.DepthsWithin method (depthsFrom body regions depths k) segment bound) ↔
      Lowered.DepthsWithin method depths body bound := by
  constructor
  · intro h n i hi
    rw [← Graph.segments_flatten body regions] at hi
    obtain ⟨k, segment, j, hsegment, hj, rfl⟩ := Graph.exists_place _ hi
    exact h k segment hsegment j i hj
  · intro h k segment hsegment j i hj
    exact h _ i (Graph.getElem?_segment hsegment hj)

/-- The walk lowers a depth-consistent body at its depths. -/
theorem lower_at_depths (hw : WellFormed body regions)
    (hd : DepthConsistent body regions method depths) :
    ∃ registers, lower (Graph.connect body regions) method =
        .ok ⟨body.mapIdx fun j i => .atDepth method (depths j) i, registers⟩ ∧
      ∀ bound, registers ≤ bound ↔ Lowered.DepthsWithin method depths body bound := by
  have hrule := lower_rule (atDepths_invariant hw hd) (Graph.connect_index body regions)
  cases hlower : lower (Graph.connect body regions) method with
  | error e =>
    rw [hlower] at hrule
    exact hrule.elim
  | ok listing =>
    rw [hlower] at hrule
    obtain ⟨w, h, hlength, hclosed, rfl⟩ := hrule
    have hrecorded : w.lowered.filterMap id = (Graph.segments body regions).mapIdx fun k segment =>
        segment.mapIdx fun j i => .atDepth method (depthsFrom body regions depths k j) i := by
      have hblocks : (w.lowered.filterMap id).map id = _ :=
        h.records.map_eq_mapIdx hlength hclosed
      rw [List.map_id, Graph.connect_blocks, List.mapIdx_mapIdx] at hblocks
      exact hblocks
    refine ⟨w.registers, ?_, fun bound => ?_⟩
    · rw [hrecorded]
      have hbody := flatten_mapIdx_startOf (Graph.segments body regions)
        fun j i => .atDepth method (depths j) i
      rw [Graph.segments_flatten] at hbody
      rw [← hbody]
      rfl
    · rw [h.registers, ← depthsWithin_segments body regions method depths bound]
      refine ⟨fun hall k segment hsegment => ?_, fun hall k block hblock _ => ?_⟩
      · exact hall k _ ((Graph.getElem?_connect_blocks body regions k _).mpr ⟨segment, hsegment, rfl⟩)
          (hclosed k)
      · obtain ⟨segment, hsegment, rfl⟩ :=
          (Graph.getElem?_connect_blocks body regions k block).mp hblock
        exact hall k segment hsegment

end Unstack.Traversal
