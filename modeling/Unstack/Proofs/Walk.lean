import Unstack.Lowering.Traversal

/-!
# One step of the walk

What the walk does with the first entry of its work list: it passes over a block that is lowered
already, or lowers an open one and puts the successors that are still open in front. Whatever these
two steps keep, a walk keeps from its start to its end.
-/

namespace Unstack.Traversal

/-- A root that brings the entry depth of its block brings no more than any other visitor. -/
theorem entryDepth_getD (block : Block) (depth : Nat) :
    entryDepth block (block.entryDepth.getD depth) = entryDepth block depth := by
  unfold entryDepth
  cases block.entryDepth with
  | some entered => rfl
  | none => rfl

/-- Recording a block closes it and opens no other. -/
theorem Walk.isOpen_close (w : Walk) (k : Nat) (ls : List Lowered) (peak j : Nat) :
    (w.close k ls peak).isOpen j = (w.isOpen j && k != j) := by
  unfold Walk.isOpen Walk.close
  rw [List.getElem?_set]
  by_cases hkj : k = j
  · subst hkj
    by_cases hk : k < w.lowered.length <;> simp [hk]
  · simp [hkj]

/-- At the start every block is open. -/
theorem Walk.isOpen_start (g : Graph) (k : Nat) (block : Block) (h : g.blocks[k]? = some block) :
    (⟨g.blocks.map fun _ => none, 0⟩ : Walk).isOpen k = true := by
  simp only [Walk.isOpen, List.getElem?_map, h]
  rfl

/-- Induction along a walk: the work list is empty, or its first block is passed over, or it cannot
be lowered, or it is lowered and the walk goes on with its open successors in front. -/
theorem visit_induction (g : Graph) (method : Signature) (motive : List (Nat × Nat) → Walk → Prop)
    (done : ∀ w, motive [] w)
    (skip : ∀ k depth rest w, g.blocks[k]? = none ∨ w.isOpen k = false → motive rest w →
      motive ((k, depth) :: rest) w)
    (fault : ∀ k depth rest w block e, g.blocks[k]? = some block → w.isOpen k = true →
      Lowered.run method (.ofDepth (entryDepth block depth)) block.instructions = .error e →
      motive ((k, depth) :: rest) w)
    (lower : ∀ k depth rest w block ls left, g.blocks[k]? = some block → w.isOpen k = true →
      Lowered.run method (.ofDepth (entryDepth block depth)) block.instructions = .ok (ls, left) →
      motive ((block.successors.filter (w.close k ls left.peak).isOpen).map (·, left.depth) ++ rest)
        (w.close k ls left.peak) →
      motive ((k, depth) :: rest) w)
    (work : List (Nat × Nat)) (w : Walk) : motive work w := by
  fun_induction visit g method work w with
  | case1 w => exact done w
  | case2 w k depth rest hblock ih => exact skip k depth rest w (.inl hblock) ih
  | case3 w k depth rest block hblock hopen e hrun =>
    exact fault k depth rest w block e hblock hopen hrun
  | case4 w k depth rest block hblock hopen ls left hrun w' ih =>
    refine lower k depth rest w block ls left hblock hopen hrun ?_
    -- the recursion carries membership proofs along the successors, which the list does not need
    have hentries : (block.successors.attach.filter (fun s => w'.isOpen s.1)).map
        (fun s => (s.1, left.depth)) =
          (block.successors.filter w'.isOpen).map (·, left.depth) := by
      have hvals := congrArg (fun ks : List Nat => (ks.filter w'.isOpen).map (·, left.depth))
        (List.attach_map_subtype_val block.successors)
      simpa only [List.filter_map, List.map_map, Function.comp_def] using hvals
    exact hentries ▸ ih
  | case5 w k depth rest block hblock hopen ih =>
    exact skip k depth rest w (.inr (by simpa using hopen)) ih

section Steps

variable {g : Graph} {method : Signature} {k depth : Nat} {rest : List (Nat × Nat)} {w : Walk}

/-- A block that is lowered already, or that does not exist, is passed over. -/
theorem visit_skip (h : g.blocks[k]? = none ∨ w.isOpen k = false) :
    visit g method ((k, depth) :: rest) w = visit g method rest w := by
  rw [visit]
  cases hblock : g.blocks[k]? with
  | none => rfl
  | some block =>
    rcases h with hnone | hclosed
    · simp [hblock] at hnone
    · simp [hclosed]

/-- A fault in a block ends the walk. -/
theorem visit_fault {block : Block} {e : LowerError} (hblock : g.blocks[k]? = some block)
    (hopen : w.isOpen k = true)
    (hrun : Lowered.run method (.ofDepth (entryDepth block depth)) block.instructions = .error e) :
    visit g method ((k, depth) :: rest) w = .error e := by
  rw [visit]
  simp [hblock, hopen, hrun]

/-- An open block is lowered, and its open successors come next. -/
theorem visit_open {block : Block} {ls : List Lowered} {left : EvalStack}
    (hblock : g.blocks[k]? = some block) (hopen : w.isOpen k = true)
    (hrun : Lowered.run method (.ofDepth (entryDepth block depth)) block.instructions =
      .ok (ls, left)) :
    visit g method ((k, depth) :: rest) w =
      visit g method
        ((block.successors.filter (w.close k ls left.peak).isOpen).map (·, left.depth) ++ rest)
        (w.close k ls left.peak) := by
  rw [visit]
  simp [hblock, hopen, hrun]

end Steps

/-- A result is a fault with property `E` or a value with property `P`. -/
def Ends {α : Type} (E : LowerError → Prop) (P : α → Prop) : Except LowerError α → Prop
  | .error e => E e
  | .ok a => P a

/-- What the two steps of the walk keep, of the work list and of what is recorded; where a block
cannot be lowered, its fault has property `E`. -/
structure StepInvariant (g : Graph) (method : Signature) (I : List (Nat × Nat) → Walk → Prop)
    (E : LowerError → Prop) : Prop where
  skip : ∀ k depth rest w, g.blocks[k]? = none ∨ w.isOpen k = false →
    I ((k, depth) :: rest) w → I rest w
  lower : ∀ k depth rest w block, g.blocks[k]? = some block → w.isOpen k = true →
    I ((k, depth) :: rest) w →
    Ends E (fun (ls, left) =>
        I ((block.successors.filter (w.close k ls left.peak).isOpen).map (·, left.depth) ++ rest)
          (w.close k ls left.peak))
      (Lowered.run method (.ofDepth (entryDepth block depth)) block.instructions)

/-- What the steps keep holds at the end of a walk, with an empty work list. -/
theorem visit_rule {g : Graph} {method : Signature} {I : List (Nat × Nat) → Walk → Prop}
    {E : LowerError → Prop} (hinv : StepInvariant g method I E) (work : List (Nat × Nat)) (w : Walk)
    (h : I work w) : Ends E (I []) (visit g method work w) := by
  induction work, w using visit_induction g method with
  | done w =>
    rw [visit]
    exact h
  | skip k depth rest w hblock ih =>
    rw [visit_skip hblock]
    exact ih (hinv.skip k depth rest w hblock h)
  | fault k depth rest w block e hblock hopen hrun =>
    rw [visit_fault hblock hopen hrun]
    have hends := hinv.lower k depth rest w block hblock hopen h
    rwa [hrun] at hends
  | lower k depth rest w block ls left hblock hopen hrun ih =>
    rw [visit_open hblock hopen hrun]
    have hends := hinv.lower k depth rest w block hblock hopen h
    rw [hrun] at hends
    exact ih hends

/-- A walk has explored the first `bound` blocks up to what stands in its work list, and so it has
the successors of every block that it has lowered. -/
structure Explored (g : Graph) (bound : Nat) (work : List (Nat × Nat)) (w : Walk) : Prop where
  length : w.lowered.length = g.blocks.length
  reached : ∀ j < bound, w.isOpen j = false ∨ j ∈ work.map Prod.fst
  edges : ∀ j block, g.blocks[j]? = some block → w.isOpen j = false → ∀ s ∈ block.successors,
    w.isOpen s = false ∨ s ∈ work.map Prod.fst

namespace Explored

variable {g : Graph} {bound k depth : Nat} {rest : List (Nat × Nat)} {w : Walk}

/-- Passing over a block leaves nothing out. -/
theorem skip (h : Explored g bound ((k, depth) :: rest) w)
    (hskip : g.blocks[k]? = none ∨ w.isOpen k = false) : Explored g bound rest w := by
  have hclosed : w.isOpen k = false := by
    rcases hskip with hnone | hclosed
    · have hk : w.lowered.length ≤ k := by
        rw [h.length]
        exact List.getElem?_eq_none_iff.mp hnone
      simp [Walk.isOpen, List.getElem?_eq_none hk]
    · exact hclosed
  have hpass : ∀ j, w.isOpen j = false ∨ j ∈ ((k, depth) :: rest).map Prod.fst →
      w.isOpen j = false ∨ j ∈ rest.map Prod.fst := by
    rintro j (hj | hj)
    · exact .inl hj
    · rcases List.mem_cons.mp hj with rfl | hrest
      · exact .inl hclosed
      · exact .inr hrest
  exact ⟨h.length, fun j hj => hpass j (h.reached j hj),
    fun j block hblock hj s hs => hpass s (h.edges j block hblock hj s hs)⟩

/-- Lowering a block puts its open successors into the list. -/
theorem lower {block : Block} (h : Explored g bound ((k, depth) :: rest) w)
    (hblock : g.blocks[k]? = some block) (ls : List Lowered) (left : EvalStack) :
    Explored g bound
      ((block.successors.filter (w.close k ls left.peak).isOpen).map (·, left.depth) ++ rest)
      (w.close k ls left.peak) := by
  have hpass : ∀ j, w.isOpen j = false ∨ j ∈ ((k, depth) :: rest).map Prod.fst →
      (w.close k ls left.peak).isOpen j = false ∨ j ∈ rest.map Prod.fst := by
    rintro j (hj | hj)
    · exact .inl (by rw [Walk.isOpen_close, hj, Bool.false_and])
    · rcases List.mem_cons.mp hj with rfl | hrest
      · exact .inl (by simp [Walk.isOpen_close])
      · exact .inr hrest
  refine ⟨by simpa [Walk.close] using h.length, fun j hj => ?_, fun j other hother hj s hs => ?_⟩
  · rw [List.map_append, List.mem_append]
    exact (hpass j (h.reached j hj)).imp_right .inr
  · rw [List.map_append, List.mem_append]
    by_cases hjk : k = j
    · subst hjk
      obtain rfl : block = other := by simpa [hblock] using hother
      by_cases hopen : (w.close k ls left.peak).isOpen s = true
      · exact .inr (.inl (by simpa using ⟨hs, hopen⟩))
      · exact .inl (by simpa using hopen)
    · have hclosed : w.isOpen j = false := by simpa [Walk.isOpen_close, hjk] using hj
      exact (hpass s (h.edges j other hother hclosed s hs)).imp_right .inr

/-- An open block is no successor of a block before it, once these are explored. -/
theorem not_successor (h : Explored g k [] w) (hopen : w.isOpen k = true) {j : Nat} (hj : j < k)
    {before : Block} (hbefore : g.blocks[j]? = some before) : k ∉ before.successors := by
  intro hk
  have hclosed : w.isOpen j = false := by simpa using h.reached j hj
  have hnot : w.isOpen k = false := by simpa using h.edges j before hbefore hclosed k hk
  simp [hopen] at hnot

/-- The next block is asked for once it stands in the list. -/
theorem root (h : Explored g k [] w) (depth : Nat) : Explored g (k + 1) [(k, depth)] w := by
  refine ⟨h.length, fun j hj => ?_, fun j block hblock hj s hs => ?_⟩
  · rcases Nat.lt_succ_iff_lt_or_eq.mp hj with hlt | rfl
    · exact .inl (by simpa using h.reached j hlt)
    · exact .inr (by simp)
  · exact .inl (by simpa using h.edges j block hblock hj s hs)

/-- At the start nothing is lowered and nothing is asked for. -/
theorem start (g : Graph) : Explored g 0 [] ⟨g.blocks.map fun _ => none, 0⟩ := by
  refine ⟨by simp, by simp, fun j block hblock hj => ?_⟩
  rw [Walk.isOpen_start g j block hblock] at hj
  contradiction

end Explored

/-- Exploring goes along with any other invariant. -/
theorem StepInvariant.and_explored {g : Graph} {method : Signature}
    {I : List (Nat × Nat) → Walk → Prop} {E : LowerError → Prop}
    (hinv : StepInvariant g method I E) (bound : Nat) :
    StepInvariant g method (fun work w => I work w ∧ Explored g bound work w) E where
  skip k depth rest w hblock h := ⟨hinv.skip k depth rest w hblock h.1, h.2.skip hblock⟩
  lower k depth rest w block hblock hopen h := by
    have hends := hinv.lower k depth rest w block hblock hopen h.1
    revert hends
    cases Lowered.run method (.ofDepth (entryDepth block depth)) block.instructions with
    | error e => exact id
    | ok result => exact fun hI => ⟨hI, h.2.lower hblock result.1 result.2⟩

/-- Every block that the walk has recorded is related to what is recorded for it. -/
def Walk.Records (g : Graph) (R : Nat → Block → List Lowered → Prop) (w : Walk) : Prop :=
  ∀ k ls, w.lowered[k]? = some (some ls) → ∃ block, g.blocks[k]? = some block ∧ R k block ls

/-- At the start nothing is recorded. -/
theorem Walk.records_start (g : Graph) (R : Nat → Block → List Lowered → Prop) (registers : Nat) :
    Walk.Records g R ⟨g.blocks.map fun _ => none, registers⟩ := by
  intro k ls h
  rw [List.getElem?_map] at h
  obtain ⟨block, -, hnone⟩ := Option.map_eq_some_iff.mp h
  contradiction

/-- A block that is recorded as it should be keeps the record. -/
theorem Walk.Records.close {g : Graph} {R : Nat → Block → List Lowered → Prop} {w : Walk}
    (h : w.Records g R) {k : Nat} {block : Block} (hblock : g.blocks[k]? = some block)
    {ls : List Lowered} (hls : R k block ls) (peak : Nat) : (w.close k ls peak).Records g R := by
  intro j ls' hj
  simp only [Walk.close, List.getElem?_set] at hj
  by_cases hkj : k = j
  · subst hkj
    by_cases hk : k < w.lowered.length
    · obtain rfl : ls = ls' := by simpa [hk] using hj
      exact ⟨block, hblock, hls⟩
    · simp [hk] at hj
  · rw [if_neg hkj] at hj
    exact h j ls' hj

/-- Once no block is open, flattening the record drops nothing. -/
theorem Walk.map_some_filterMap (w : Walk) (hclosed : ∀ j, w.isOpen j = false) :
    (w.lowered.filterMap id).map some = w.lowered := by
  rw [List.map_filterMap_some_eq_filter_map_isSome, List.map_id, List.filter_eq_self]
  intro ls hls
  obtain ⟨j, hj, rfl⟩ := List.mem_iff_getElem.mp hls
  rw [Option.isSome_iff_ne_none]
  intro hnone
  have hopen := hclosed j
  simp [Walk.isOpen, List.getElem?_eq_getElem hj, hnone] at hopen

/-- Once no block is open, every block is recorded, at its place. -/
theorem Walk.Records.of_closed {g : Graph} {R : Nat → Block → List Lowered → Prop} {w : Walk}
    (h : w.Records g R) (hlength : w.lowered.length = g.blocks.length)
    (hclosed : ∀ j, w.isOpen j = false) {k : Nat} {block : Block}
    (hblock : g.blocks[k]? = some block) :
    ∃ ls, (w.lowered.filterMap id)[k]? = some ls ∧ R k block ls := by
  have hk : k < w.lowered.length := by
    rw [hlength]
    exact (List.getElem?_eq_some_iff.mp hblock).1
  rw [← w.map_some_filterMap hclosed, List.length_map] at hk
  have hrecorded : w.lowered[k]? = some (some (w.lowered.filterMap id)[k]) := by
    conv => lhs; rw [← w.map_some_filterMap hclosed]
    rw [List.getElem?_map, List.getElem?_eq_getElem hk, Option.map_some]
  obtain ⟨other, hother, hR⟩ := h k _ hrecorded
  obtain rfl : block = other := by simpa [hblock] using hother
  exact ⟨_, List.getElem?_eq_getElem hk, hR⟩

/-- Once no block is open, a view of the record that each block determines lists the blocks. -/
theorem Walk.Records.map_eq_mapIdx {β : Type} {g : Graph} {view : List Lowered → β}
    {f : Nat → Block → β} {w : Walk} (h : w.Records g fun k block ls => view ls = f k block)
    (hlength : w.lowered.length = g.blocks.length) (hclosed : ∀ j, w.isOpen j = false) :
    (w.lowered.filterMap id).map view = g.blocks.mapIdx f := by
  apply List.ext_getElem?
  intro k
  rw [List.getElem?_map, List.getElem?_mapIdx]
  cases hk : g.blocks[k]? with
  | none =>
    have hle : (w.lowered.filterMap id).length ≤ k := by
      rw [← List.length_map (f := some), w.map_some_filterMap hclosed, hlength]
      exact List.getElem?_eq_none_iff.mp hk
    rw [List.getElem?_eq_none hle, Option.map_none, Option.map_none]
  | some block =>
    obtain ⟨ls, hls, hview⟩ := h.of_closed hlength hclosed hk
    rw [hls, Option.map_some, Option.map_some, hview]

/-- An invariant of the whole walk: it holds at the start, and taking up an open root keeps it. By then
the walk has explored the blocks before the root. -/
structure WalkInvariant (g : Graph) (method : Signature) (I : List (Nat × Nat) → Walk → Prop)
    (E : LowerError → Prop) : Prop extends StepInvariant g method I E where
  start : I [] ⟨g.blocks.map fun _ => none, 0⟩
  root : ∀ k block w, g.blocks[k]? = some block → w.isOpen k = true → Explored g k [] w →
    I [] w → I [(k, block.entryDepth.getD 0)] w

/-- An invariant holds once the walk has been taken up from every block in turn, and then every
block is lowered. -/
theorem visitAll_rule {g : Graph} {method : Signature} {I : List (Nat × Nat) → Walk → Prop}
    {E : LowerError → Prop} (hinv : WalkInvariant g method I E)
    (hindex : ∀ (k : Nat) (block : Block), g.blocks[k]? = some block → block.index = k) :
    Ends E (fun w => I [] w ∧ w.lowered.length = g.blocks.length ∧ ∀ j, w.isOpen j = false)
      (visitAll g method g.blocks ⟨g.blocks.map fun _ => none, 0⟩) := by
  -- the roots still to come are the blocks from number `m` on
  suffices hroots : ∀ roots m w, roots = g.blocks.drop m → Explored g m [] w → I [] w →
      Ends E (fun w => I [] w ∧ w.lowered.length = g.blocks.length ∧ ∀ j, w.isOpen j = false)
        (visitAll g method roots w) from
    hroots g.blocks 0 _ (by simp) (Explored.start g) hinv.start
  intro roots
  induction roots with
  | nil =>
    intro m w hdrop hexplored hw
    have hlength : g.blocks.length ≤ m := List.drop_eq_nil_iff.mp hdrop.symm
    refine ⟨hw, hexplored.length, fun j => ?_⟩
    by_cases hj : j < m
    · simpa using hexplored.reached j hj
    · have hj' : w.lowered.length ≤ j := by
        rw [hexplored.length]
        omega
      simp [Walk.isOpen, List.getElem?_eq_none hj']
  | cons root roots ih =>
    intro m w hdrop hexplored hw
    have hlt : m < g.blocks.length := by
      have hlength := congrArg List.length hdrop
      simp only [List.length_cons, List.length_drop] at hlength
      omega
    rw [List.drop_eq_getElem_cons hlt, List.cons.injEq] at hdrop
    have hget : g.blocks[m]? = some root := by rw [List.getElem?_eq_getElem hlt, hdrop.1]
    have hasked := hexplored.root (root.entryDepth.getD 0)
    rw [visitAll, hindex m root hget]
    by_cases hopen : w.isOpen m = true
    · have hroot := hinv.root m root w hget hopen hexplored hw
      have hvisit := visit_rule (hinv.toStepInvariant.and_explored (m + 1)) _ w ⟨hroot, hasked⟩
      rw [if_pos hopen]
      cases hresult : visit g method [(m, root.entryDepth.getD 0)] w with
      | error e => rwa [hresult] at hvisit
      | ok v =>
        rw [hresult] at hvisit
        exact ih (m + 1) v hdrop.2 hvisit.2 hvisit.1
    · rw [if_neg hopen]
      exact ih (m + 1) w hdrop.2 (hasked.skip (.inr (by simpa using hopen))) hw

/-- The listing of a walk comes from a record of every block that keeps the invariant. -/
theorem lower_rule {g : Graph} {method : Signature} {I : List (Nat × Nat) → Walk → Prop}
    {E : LowerError → Prop} (hinv : WalkInvariant g method I E)
    (hindex : ∀ (k : Nat) (block : Block), g.blocks[k]? = some block → block.index = k) :
    Ends E (fun listing => ∃ w, I [] w ∧ w.lowered.length = g.blocks.length ∧
        (∀ j, w.isOpen j = false) ∧
        listing = ⟨(w.lowered.filterMap id).flatten, w.registers⟩)
      (lower g method) := by
  have hrule := visitAll_rule hinv hindex
  unfold lower
  cases hwalk : visitAll g method g.blocks ⟨g.blocks.map fun _ => none, 0⟩ with
  | error e => rwa [hwalk] at hrule
  | ok w =>
    rw [hwalk] at hrule
    exact ⟨w, hrule.1, hrule.2.1, hrule.2.2, rfl⟩

end Unstack.Traversal
