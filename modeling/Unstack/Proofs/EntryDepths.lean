import Unstack.Proofs.Descent
import Unstack.Proofs.FlowQuotient
import Mathlib.Logic.Function.Basic

/-!
# Where the walk takes the depth of a block from

The walk comes to blocks in an order of its own, a block may stand in the work list several times with
several depths, and the blocks that lead to it need not agree on one. Still every block is lowered once,
from one depth, and that depth can be accounted for. The runtime gives it. Or the block is a root, which
starts at zero. Or a block with an edge to it was lowered before, and this is the depth at which it
ended.

Which of the last two it is does not depend on the order of the walk: a block is a root exactly if no
edges lead to it from a block with a lower number. For when the walk takes up a root, it has lowered all
that is reachable from the blocks before; and what it lowers from there on, the root leads to.
-/

namespace Unstack.Traversal

/-- Edges lead to the block from a block with a lower number. -/
def LedFromBefore (g : Graph) (k : Nat) : Prop := ∃ j < k, Relation.ReflTransGen g.Edge j k

/-- How the blocks of a graph make up a listing: block `k` is lowered from the depth `entry k` to the
instructions `part k`, and ends on the stack `final k`. -/
structure EntersBlocks (g : Graph) (method : Signature) (listing : Listing) (entry : Nat → Nat)
    (part : Nat → List Lowered) (final : Nat → EvalStack) : Prop where
  lowered : ∀ k block, g.blocks[k]? = some block →
    Lowered.run method (.ofDepth (entry k)) block.instructions = .ok (part k, final k)
  listed : listing.instructions = (g.blocks.mapIdx fun k _ => part k).flatten
  /-- Where the runtime enters a block, it gives the depth. -/
  handler : ∀ k block depth, g.blocks[k]? = some block → block.entryDepth = some depth →
    entry k = depth
  /-- Elsewhere a block that nothing before it leads to starts on an empty stack, -/
  root : ∀ k block, g.blocks[k]? = some block → block.entryDepth = none → ¬LedFromBefore g k →
    entry k = 0
  /-- and any other block starts at the depth at which one of its predecessors ends. -/
  inner : ∀ k block, g.blocks[k]? = some block → block.entryDepth = none → LedFromBefore g k →
    ∃ p ∈ block.predecessors, entry k = (final p).depth

/-- With an empty work list, all that the explored blocks lead to is lowered. -/
theorem Explored.closed_of_reach {g : Graph} {bound : Nat} {w : Walk} (h : Explored g bound [] w)
    {j k : Nat} (hj : j < bound) (hreach : Relation.ReflTransGen g.Edge j k) : w.isOpen k = false := by
  induction hreach with
  | refl => simpa using h.reached j hj
  | tail _ hedge ih =>
    obtain ⟨block, hblock, hsuccessor⟩ := hedge
    simpa using h.edges _ block hblock ih _ hsuccessor

/-- Once the blocks before an open block are explored, none of them leads to it. -/
theorem Explored.not_ledFromBefore {g : Graph} {k : Nat} {w : Walk} (h : Explored g k [] w)
    (hopen : w.isOpen k = true) : ¬LedFromBefore g k := by
  intro hled
  obtain ⟨j, hj, hreach⟩ := hled
  have hclosed := h.closed_of_reach hj hreach
  simp [hopen] at hclosed

/-- Lowering a block opens no other. -/
theorem Walk.closed_close {w : Walk} {j : Nat} (h : w.isOpen j = false) (k : Nat) (ls : List Lowered)
    (peak : Nat) : (w.close k ls peak).isOpen j = false := by
  rw [Walk.isOpen_close, h, Bool.false_and]

/-- A block goes back to a root: some block leads to it, and all blocks up to that one are lowered. -/
def Rooted (g : Graph) (w : Walk) (k : Nat) : Prop :=
  ∃ root, Relation.ReflTransGen g.Edge root k ∧ ∀ j ≤ root, w.isOpen j = false

/-- How a visitor comes to block `k` with a depth: as to a root, with its entry depth or with nothing, or
along an edge from a block that was lowered before and ended at that depth. -/
inductive Visitor (g : Graph) (w : Walk) (final : Nat → EvalStack) (k : Nat) : Nat → Prop
  | root (block : Block) (hblock : g.blocks[k]? = some block) (hled : ¬LedFromBefore g k)
      (hbefore : ∀ j < k, w.isOpen j = false) : Visitor g w final k (block.entryDepth.getD 0)
  | edge (p : Nat) (hedge : g.Edge p k) (hclosed : w.isOpen p = false) (hled : LedFromBefore g k)
      (hrooted : Rooted g w k) : Visitor g w final k (final p).depth

section Visits

variable {g : Graph} {w : Walk} {final : Nat → EvalStack} {j k depth : Nat}

/-- An open block that goes back to a root is led to from before, since all blocks up to the root are
lowered. -/
theorem Rooted.ledFromBefore (h : Rooted g w k) (hopen : w.isOpen k = true) : LedFromBefore g k := by
  obtain ⟨root, hreach, hclosed⟩ := h
  refine ⟨root, ?_, hreach⟩
  by_contra hle
  have hnot := hclosed k (Nat.not_lt.mp hle)
  simp [hopen] at hnot

/-- A lowered block goes back to a root, however it was visited. -/
theorem Visitor.rooted (h : Visitor g w final k depth) (hclosed : w.isOpen k = false) :
    Rooted g w k := by
  cases h with
  | root block hblock hled hbefore =>
    refine ⟨k, .refl, fun j hj => ?_⟩
    rcases Nat.lt_or_eq_of_le hj with hlt | rfl
    · exact hbefore j hlt
    · exact hclosed
  | edge p hedge hbefore hled hrooted => exact hrooted

/-- A lowered block sends visitors to its open successors, with the depth at which it ends. -/
theorem Rooted.visitor (h : Rooted g w k) (final : Nat → EvalStack) (hclosed : w.isOpen k = false)
    (hedge : g.Edge k j) (hopen : w.isOpen j = true) : Visitor g w final j (final k).depth := by
  have hrooted : Rooted g w j := by
    obtain ⟨root, hreach, hbefore⟩ := h
    exact ⟨root, hreach.tail hedge, hbefore⟩
  exact .edge k hedge hclosed (hrooted.ledFromBefore hopen) hrooted

/-- Lowering another block takes no visitor away: the block that it comes from was lowered before. -/
theorem Visitor.close (h : Visitor g w final j depth) (hopen : w.isOpen k = true) (ls : List Lowered)
    (left : EvalStack) (peak : Nat) :
    Visitor g (w.close k ls peak) (Function.update final k left) j depth := by
  cases h with
  | root block hblock hled hbefore =>
    exact .root block hblock hled fun i hi => Walk.closed_close (hbefore i hi) k ls peak
  | edge p hedge hclosed hled hrooted =>
    have hne : p ≠ k := by
      intro hpk
      simp [hpk, hopen] at hclosed
    obtain ⟨root, hreach, hbefore⟩ := hrooted
    rw [← Function.update_of_ne hne left final]
    exact .edge p hedge (Walk.closed_close hclosed k ls peak) hled
      ⟨root, hreach, fun i hi => Walk.closed_close (hbefore i hi) k ls peak⟩

end Visits

/-- What holds along the walk, when block `k` is lowered from `entry k` and ends on `final k`: every
lowered block has had its visitor, and every entry of the work list is one. -/
structure Entered (g : Graph) (method : Signature) (entry : Nat → Nat) (final : Nat → EvalStack)
    (work : List (Nat × Nat)) (w : Walk) : Prop where
  records : w.Records g fun k block ls =>
    Lowered.run method (.ofDepth (entry k)) block.instructions = .ok (ls, final k)
  visited : ∀ k block, g.blocks[k]? = some block → w.isOpen k = false →
    ∃ depth, entry k = entryDepth block depth ∧ Visitor g w final k depth
  entries : ∀ visit ∈ work, Visitor g w final visit.1 visit.2

section Entered

variable {g : Graph} {method : Signature} {entry : Nat → Nat} {final : Nat → EvalStack}
  {rest : List (Nat × Nat)} {w : Walk} {k depth : Nat} {block : Block} {ls : List Lowered}
  {left : EvalStack}

/-- What was recorded before an open block is lowered stays as it was. -/
theorem Entered.records_close (h : Entered g method entry final ((k, depth) :: rest) w)
    (hblock : g.blocks[k]? = some block) (hopen : w.isOpen k = true)
    (hrun : Lowered.run method (.ofDepth (entryDepth block depth)) block.instructions =
      .ok (ls, left)) :
    (w.close k ls left.peak).Records g fun j other ls' =>
      Lowered.run method (.ofDepth (Function.update entry k (entryDepth block depth) j))
        other.instructions = .ok (ls', Function.update final k left j) := by
  have hbefore : w.Records g fun j other ls' =>
      Lowered.run method (.ofDepth (Function.update entry k (entryDepth block depth) j))
        other.instructions = .ok (ls', Function.update final k left j) := by
    intro j ls' hj
    have hne : j ≠ k := by
      intro hjk
      simp [Walk.isOpen, ← hjk, hj] at hopen
    obtain ⟨other, hother, hrun'⟩ := h.records j ls' hj
    exact ⟨other, hother, by simpa only [Function.update_of_ne hne] using hrun'⟩
  apply hbefore.close hblock
  rw [Function.update_self, Function.update_self]
  exact hrun

/-- A block that is lowered from what its visitor brings joins the others, and sends visitors on. -/
theorem Entered.lower (h : Entered g method entry final ((k, depth) :: rest) w)
    (hblock : g.blocks[k]? = some block) (hopen : w.isOpen k = true)
    (hrun : Lowered.run method (.ofDepth (entryDepth block depth)) block.instructions =
      .ok (ls, left)) :
    Entered g method (Function.update entry k (entryDepth block depth))
      (Function.update final k left)
      ((block.successors.filter (w.close k ls left.peak).isOpen).map (·, left.depth) ++ rest)
      (w.close k ls left.peak) := by
  have hclosed : (w.close k ls left.peak).isOpen k = false := by simp [Walk.isOpen_close]
  have hvisitor := (h.entries (k, depth) List.mem_cons_self).close hopen ls left left.peak
  refine ⟨h.records_close hblock hopen hrun, fun j other hother hj => ?_, fun visit hvisit => ?_⟩
  · by_cases hjk : j = k
    · subst hjk
      obtain rfl := Option.some.inj (hblock.symm.trans hother)
      exact ⟨depth, Function.update_self _ _ _, hvisitor⟩
    · have hbefore : w.isOpen j = false := by simpa [Walk.isOpen_close, Ne.symm hjk] using hj
      obtain ⟨depth', hentry, hvisitor'⟩ := h.visited j other hother hbefore
      rw [Function.update_of_ne hjk]
      exact ⟨depth', hentry, hvisitor'.close hopen ls left left.peak⟩
  · rcases List.mem_append.mp hvisit with hnew | hold
    · obtain ⟨s, hs, rfl⟩ := List.mem_map.mp hnew
      obtain ⟨hsuccessor, hsopen⟩ := List.mem_filter.mp hs
      have hsends := (hvisitor.rooted hclosed).visitor (Function.update final k left) hclosed
        ⟨block, hblock, hsuccessor⟩ hsopen
      rwa [Function.update_self] at hsends
    · exact (h.entries visit (List.mem_cons_of_mem _ hold)).close hopen ls left left.peak

end Entered

/-- The walk accounts for every depth from which it lowers a block. -/
theorem entered_invariant (g : Graph) (method : Signature) :
    WalkInvariant g method (fun work w => ∃ entry final, Entered g method entry final work w)
      (fun _ => True) where
  start := by
    refine ⟨fun _ => 0, fun _ => {}, Walk.records_start g _ 0, fun k block hblock hclosed => ?_,
      by simp⟩
    rw [Walk.isOpen_start g k block hblock] at hclosed
    contradiction
  root k block w hblock hopen hexplored h := by
    obtain ⟨entry, final, h⟩ := h
    refine ⟨entry, final, h.records, h.visited, fun visit hvisit => ?_⟩
    obtain rfl : visit = (k, block.entryDepth.getD 0) := by simpa using hvisit
    exact .root block hblock (hexplored.not_ledFromBefore hopen) fun j hj => by
      simpa using hexplored.reached j hj
  skip k depth rest w _ h := by
    obtain ⟨entry, final, h⟩ := h
    exact ⟨entry, final, h.records, h.visited, fun visit hvisit =>
      h.entries visit (List.mem_cons_of_mem _ hvisit)⟩
  lower k depth rest w block hblock hopen h := by
    obtain ⟨entry, final, h⟩ := h
    cases hrun : Lowered.run method (.ofDepth (entryDepth block depth)) block.instructions with
    | error e => trivial
    | ok result => exact ⟨_, _, h.lower hblock hopen hrun⟩

/-- A walk that has come to its end gives the parts of its listing. -/
theorem Walk.exists_parts {g : Graph} {method : Signature} {entry : Nat → Nat}
    {final : Nat → EvalStack} {w : Walk}
    (h : w.Records g fun k block ls =>
      Lowered.run method (.ofDepth (entry k)) block.instructions = .ok (ls, final k))
    (hlength : w.lowered.length = g.blocks.length) (hclosed : ∀ j, w.isOpen j = false) :
    ∃ part : Nat → List Lowered,
      (w.lowered.filterMap id).flatten = (g.blocks.mapIdx fun k _ => part k).flatten ∧
        ∀ k block, g.blocks[k]? = some block →
          Lowered.run method (.ofDepth (entry k)) block.instructions = .ok (part k, final k) := by
  refine ⟨fun k => (w.lowered.filterMap id)[k]?.getD [], ?_, fun k block hblock => ?_⟩
  · congr 1
    have hparts : w.Records g fun k _ ls => id ls = (w.lowered.filterMap id)[k]?.getD [] := by
      intro k ls hk
      obtain ⟨block, hblock, -⟩ := h k ls hk
      refine ⟨block, hblock, ?_⟩
      rw [← w.map_some_filterMap hclosed, List.getElem?_map] at hk
      obtain ⟨_, hpart, hsame⟩ := Option.map_eq_some_iff.mp hk
      rw [hpart, Option.getD_some, Option.some.inj hsame, id_eq]
    have hblocks := hparts.map_eq_mapIdx hlength hclosed
    rwa [List.map_id] at hblocks
  · obtain ⟨ls, hls, hrun⟩ := h.of_closed hlength hclosed hblock
    simp only [hls, Option.getD_some, hrun]

/-- A walk that succeeds lowers every block of a built graph once, from a depth that the runtime gives,
from zero if nothing before leads to the block, and from where a predecessor ends otherwise. No block
need agree with another on a depth. -/
theorem lower_entersBlocks {body : List Instruction} {regions : List Region} {g : Graph}
    (h : Graph.build body regions = .ok g) {method : Signature} {listing : Listing}
    (hlower : lower g method = .ok listing) :
    ∃ entry part final, EntersBlocks g method listing entry part final := by
  have hrule := lower_rule (entered_invariant g method) (fun _ _ => Graph.index_of_build h)
  rw [hlower] at hrule
  obtain ⟨w, ⟨entry, final, hentered⟩, hlength, hclosed, rfl⟩ := hrule
  obtain ⟨part, hlisted, hlowered⟩ := Walk.exists_parts hentered.records hlength hclosed
  refine ⟨entry, part, final, hlowered, hlisted, ?_, ?_, ?_⟩
  · intro k block depth hblock hdepth
    obtain ⟨depth', hentry, -⟩ := hentered.visited k block hblock (hclosed k)
    rw [hentry, entryDepth, hdepth, Option.getD_some]
  · intro k block hblock hnone hled
    obtain ⟨depth', hentry, hvisitor⟩ := hentered.visited k block hblock (hclosed k)
    rw [hentry, entryDepth, hnone, Option.getD_none]
    cases hvisitor with
    | root other hother hled' hbefore =>
      obtain rfl := Option.some.inj (hblock.symm.trans hother)
      rw [hnone, Option.getD_none]
    | edge p hedge hp hled' hrooted => exact absurd hled' hled
  · intro k block hblock hnone hled
    obtain ⟨depth', hentry, hvisitor⟩ := hentered.visited k block hblock (hclosed k)
    rw [entryDepth, hnone, Option.getD_none] at hentry
    cases hvisitor with
    | root other hother hled' hbefore => exact absurd hled hled'
    | edge p hedge hp hled' hrooted =>
      exact ⟨p, (Graph.mem_predecessors_iff h hblock p).mpr hedge, hentry⟩

/-- A block ends where its instructions lead from the depth at which it is entered. -/
theorem EntersBlocks.depth_final {g : Graph} {method : Signature} {listing : Listing}
    {entry : Nat → Nat} {part : Nat → List Lowered} {final : Nat → EvalStack}
    (h : EntersBlocks g method listing entry part final) {k : Nat} {block : Block}
    (hblock : g.blocks[k]? = some block) {depth : Nat} (hentry : entry k = depth) {ls : List Lowered}
    {left : EvalStack} (hrun : Lowered.run method (.ofDepth depth) block.instructions = .ok (ls, left)) :
    (final k).depth = left.depth := by
  have hpart := h.lowered k block hblock
  rw [hentry, hrun] at hpart
  cases hpart
  rfl

/-- Nothing leads to a block from before if the blocks before it lead only to each other. -/
theorem not_ledFromBefore_of_successors {g : Graph} {k : Nat}
    (hstays : ∀ j < k, ∀ s ∈ Graph.successorsAt g.blocks j, s < k) : ¬LedFromBefore g k := by
  rintro ⟨j, hj, hreach⟩
  have hbefore : ∀ m, Relation.ReflTransGen g.Edge j m → m < k := by
    intro m hreach
    induction hreach with
    | refl => exact hj
    | tail _ hedge ih =>
      obtain ⟨block, hblock, hsuccessor⟩ := hedge
      exact hstays _ ih _ (by rwa [Graph.successorsAt, hblock])
  exact Nat.lt_irrefl k (hbefore k hreach)

/-- A place that takes a value, to which a branch leads with one, and the code before it with none; a
handler that leaves for that place, and behind them a loop that nothing reaches. -/
def disputedPop : List Instruction :=
  [⟨0, ⟨"ldc.i4.0", 0x16, .next, .pop0, .push1, .inlineNone⟩, .none⟩,
    ⟨1, ⟨"ldc.i4.0", 0x16, .next, .pop0, .push1, .inlineNone⟩, .none⟩,
    ⟨2, ⟨"brtrue.s", 0x2D, .condBranch, .pop1, .push0, .shortInlineBrTarget⟩, .target 5⟩,
    ⟨4, ⟨"pop", 0x26, .next, .pop1, .push0, .inlineNone⟩, .none⟩,
    ⟨5, ⟨"pop", 0x26, .next, .pop1, .push0, .inlineNone⟩, .none⟩,
    ⟨6, ⟨"ret", 0x2A, .ret, .varPop, .push0, .inlineNone⟩, .none⟩,
    ⟨7, ⟨"pop", 0x26, .next, .pop1, .push0, .inlineNone⟩, .none⟩,
    ⟨8, ⟨"leave.s", 0xDE, .branch, .popAll, .push0, .shortInlineBrTarget⟩, .target 5⟩,
    ⟨10, ⟨"br.s", 0x2B, .branch, .pop0, .push0, .shortInlineBrTarget⟩, .target 10⟩]

/-- The handler of the disputed place. -/
def disputedPopRegions : List Region :=
  [{ kind := .catches, tryStart := 0, tryEnd := 7, handlerStart := 7, handlerEnd := 10 }]

/-- The disputed place in register form. -/
def disputedPopListing : Listing :=
  ⟨disputedPop.zipWith (fun i slots => ⟨i, slots.1, slots.2⟩)
    [([], [⟨0⟩]), ([], [⟨1⟩]), ([⟨1⟩], []), ([⟨0⟩], []), ([⟨0⟩], []), ([], []), ([⟨0⟩], []), ([], []),
      ([], [])], 2⟩

/-- Three blocks lead to the disputed place, and only the first of them ends at depth 1. The walk lowers
it from there, the handler from the depth that the runtime gives, and the loop from zero. -/
theorem disputedPop_entersBlocks :
    ∃ g, Graph.build disputedPop disputedPopRegions = .ok g ∧
      lower g procedure = .ok disputedPopListing ∧
      ∃ entry part final, EntersBlocks g procedure disputedPopListing entry part final ∧
        (List.range g.blocks.length).map entry = [0, 1, 1, 1, 0] := by
  have hinc : Increasing disputedPop := by decide
  have hbuild : Graph.build disputedPop disputedPopRegions =
      .ok (Graph.connect disputedPop disputedPopRegions) := Graph.build_eq_connect hinc rfl
  have hlower : lower (Graph.connect disputedPop disputedPopRegions) procedure =
      .ok disputedPopListing := by
    rw [lower_eq_of_numbered (Graph.connect_index _ _)]
    decide +kernel
  obtain ⟨entry, part, final, h⟩ := lower_entersBlocks hbuild hlower
  refine ⟨_, hbuild, hlower, entry, part, final, h, ?_⟩
  have hfirst : entry 0 = 0 := h.root 0 _ rfl rfl (by simp [LedFromBefore])
  have hhandler : entry 3 = 1 := h.handler 3 _ 1 rfl rfl
  have hbranch : (final 0).depth = 1 := h.depth_final rfl hfirst rfl
  have hsecond : entry 1 = 1 := by
    obtain ⟨p, hp, hentry⟩ := h.inner 1 _ rfl rfl ⟨0, by omega, .single ⟨_, rfl, by decide⟩⟩
    obtain rfl : p = 0 := List.mem_singleton.mp hp
    rw [hentry, hbranch]
  have hdisputed : entry 2 = 1 := by
    have htakes : entry 2 ≠ 0 := by
      intro hentry
      have hpart := h.lowered 2 _ rfl
      rw [hentry] at hpart
      cases hpart
    obtain ⟨p, hp, hentry⟩ := h.inner 2 _ rfl rfl ⟨0, by omega, .single ⟨_, rfl, by decide⟩⟩
    have hled : p = 0 ∨ p = 1 ∨ p = 3 := by simpa using (show p ∈ [0, 1, 3] from hp)
    rcases hled with rfl | rfl | rfl
    · rw [hentry, hbranch]
    · exact absurd (hentry.trans (h.depth_final rfl hsecond rfl)) htakes
    · exact absurd (hentry.trans (h.depth_final rfl hhandler rfl)) htakes
  have hloop : entry 4 = 0 := h.root 4 _ rfl rfl (not_ledFromBefore_of_successors (by decide))
  change [entry 0, entry 1, entry 2, entry 3, entry 4] = _
  rw [hfirst, hsecond, hdisputed, hhandler, hloop]

end Unstack.Traversal
