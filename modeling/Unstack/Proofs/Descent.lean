import Unstack.Proofs.Construction
import Unstack.Proofs.Walk

/-!
# The walk of a graph, by recursion

The walk keeps what is still to be visited in a work list: successors go in front, those already
lowered are left out, and a block may stand in the list more than once, with different depths. Here
is the same walk as a recursion over the graph: visiting a block lowers it, records it, and visits
its successors one after the other. The first visit decides in both, since a recorded block stays
recorded and a second visit does nothing, so the two agree on every graph whose blocks have the numbers
of their places, as those have that are built, faults included.
-/

namespace Unstack.Traversal

/-- Visits a block from a depth. Nothing is done if it is lowered already. Otherwise it is lowered from
its entry depth, or else from the depth of the visit, and recorded with its peak; then its successors
are visited, each from the depth that the block left. No visit opens a block again, which is what bounds
the recursion. -/
def descendWithin (g : Graph) (method : Signature) (k depth : Nat) (w : Walk) :
    Except LowerError { v : Walk // v.remaining ≤ w.remaining } :=
  match g.blocks[k]? with
  | none => .ok ⟨w, Nat.le_refl _⟩
  | some block =>
    if hopen : w.lowered[k]? = some none then
      let start := match block.entryDepth with
        | some entered => entered
        | none => depth
      match Lowered.run method (.ofDepth start) block.instructions with
      | .error e => .error e
      | .ok (ls, left) =>
        (block.successors.foldlM
          (fun (v : { v : Walk // v.remaining < w.remaining }) s =>
            (descendWithin g method s left.depth v.1).map fun u => ⟨u.1, Nat.lt_of_le_of_lt u.2 v.2⟩)
          ⟨⟨w.lowered.set k (some ls), max w.registers left.peak⟩,
            Walk.remaining_close_lt (beq_iff_eq.mpr hopen) ls left.peak⟩).map
              fun v => ⟨v.1, Nat.le_of_lt v.2⟩
    else .ok ⟨w, Nat.le_refl _⟩
termination_by w.remaining
decreasing_by exact v.2

/-- The walk after visiting a block from a depth. -/
def descend (g : Graph) (method : Signature) (k depth : Nat) (w : Walk) : Except LowerError Walk :=
  (descendWithin g method k depth w).map (·.1)

/-- Lowers a method body by visiting every block in turn from depth zero. -/
def lowerByDescent (g : Graph) (method : Signature) : Except LowerError Listing :=
  (g.blocks.foldlM (fun w root => descend g method root.index 0 w)
    ⟨g.blocks.map fun _ => none, 0⟩).map fun w => ⟨(w.lowered.filterMap id).flatten, w.registers⟩

/-- Two maps of a result are one. -/
theorem map_map_eq {α β γ : Type} (f : α → β) (f' : β → γ) (r : Except LowerError α) :
    (r.map f).map f' = r.map fun a => f' (f a) := by
  cases r <;> rfl

/-- Forgetting the bound on the way is forgetting it at the end. -/
theorem foldlM_map_val {n : Nat} (f : Nat → { v : Walk // v.remaining < n } →
      Except LowerError { v : Walk // v.remaining < n }) (f' : Nat → Walk → Except LowerError Walk)
    (hf : ∀ k v, (f k v).map (·.1) = f' k v.1) (ks : List Nat)
    (v : { v : Walk // v.remaining < n }) :
    (ks.foldlM (fun v k => f k v) v).map (·.1) = ks.foldlM (fun v k => f' k v) v.1 := by
  induction ks generalizing v with
  | nil => rfl
  | cons k ks ih =>
    rw [List.foldlM_cons, List.foldlM_cons, ← hf k v]
    cases f k v with
    | error e => rfl
    | ok u => exact ih u

/-- The recursion of a visit: nothing to do at a lowered block, else lower it, record it, and visit
the successors in order. -/
theorem descend_eq (g : Graph) (method : Signature) (k depth : Nat) (w : Walk) :
    descend g method k depth w =
      match g.blocks[k]? with
      | none => .ok w
      | some block =>
        if w.isOpen k then
          match Lowered.run method (.ofDepth (entryDepth block depth)) block.instructions with
          | .error e => .error e
          | .ok (ls, left) =>
            block.successors.foldlM (fun v s => descend g method s left.depth v)
              (w.close k ls left.peak)
        else .ok w := by
  have hstart : ∀ block : Block, (match block.entryDepth with
      | some entered => entered
      | none => depth) = entryDepth block depth := by
    intro block
    unfold entryDepth
    cases block.entryDepth with
    | some entered => rfl
    | none => rfl
  rw [descend, descendWithin]
  cases g.blocks[k]? with
  | none => rfl
  | some block =>
    by_cases hopen : w.isOpen k = true
    · have hlowered : w.lowered[k]? = some none := beq_iff_eq.mp hopen
      simp only [dif_pos hlowered, if_pos hopen, hstart]
      cases Lowered.run method (.ofDepth (entryDepth block depth)) block.instructions with
      | error e => rfl
      | ok result =>
        obtain ⟨ls, left⟩ := result
        have hplain := foldlM_map_val
          (fun s (v : { v : Walk // v.remaining < w.remaining }) =>
            (descendWithin g method s left.depth v.1).map fun u =>
              (⟨u.1, Nat.lt_of_le_of_lt u.2 v.2⟩ : { v : Walk // v.remaining < w.remaining }))
          (fun s v => descend g method s left.depth v)
          (fun s v => map_map_eq _ _ _) block.successors
          ⟨w.close k ls left.peak, Walk.remaining_close_lt hopen ls left.peak⟩
        exact (map_map_eq _ _ _).trans hplain
    · have hlowered : w.lowered[k]? ≠ some none := fun hnone => hopen (beq_iff_eq.mpr hnone)
      simp only [dif_neg hlowered, if_neg hopen]
      rfl

/-- A visit does nothing at a block that is lowered already, or that does not exist. -/
theorem descend_of_closed (g : Graph) (method : Signature) (k depth : Nat) (w : Walk)
    (hclosed : w.isOpen k = false) : descend g method k depth w = .ok w := by
  rw [descend_eq]
  cases g.blocks[k]? with
  | none => rfl
  | some block => simp [hclosed]

/-- A visit leaves no more blocks open than there were. -/
theorem descend_remaining_le (g : Graph) (method : Signature) (k depth : Nat) (w v : Walk)
    (h : descend g method k depth w = .ok v) : v.remaining ≤ w.remaining := by
  unfold descend at h
  cases hwithin : descendWithin g method k depth w with
  | error e => simp [hwithin, Except.map] at h
  | ok u =>
    obtain rfl : u.1 = v := by simpa [hwithin, Except.map] using h
    exact u.2

/-- What every step of a sequence keeps, the whole sequence keeps. -/
theorem foldlM_keeps {α β : Type} (f : β → α → Except LowerError β) (P : β → Prop)
    (hstep : ∀ a b b', P b → f b a = .ok b' → P b') (as : List α) (b b' : β) (hb : P b)
    (h : as.foldlM f b = .ok b') : P b' := by
  induction as generalizing b with
  | nil =>
    obtain rfl : b = b' := by simpa [pure, Except.pure] using h
    exact hb
  | cons a as ih =>
    rw [List.foldlM_cons] at h
    cases hfirst : f b a with
    | error e => simp [hfirst, bind, Except.bind] at h
    | ok c =>
      refine ih c (hstep a b c hb hfirst) ?_
      simpa [hfirst, bind, Except.bind] using h

/-- A lowered block stays lowered during a visit. -/
theorem descend_closed (g : Graph) (method : Signature) (k depth : Nat) (w v : Walk)
    (h : descend g method k depth w = .ok v) (j : Nat) (hclosed : w.isOpen j = false) :
    v.isOpen j = false := by
  induction hn : w.remaining using Nat.strongRecOn generalizing k depth w v with
  | _ n ih =>
    rw [descend_eq] at h
    cases hblock : g.blocks[k]? with
    | none =>
      obtain rfl : w = v := by simpa [hblock] using h
      exact hclosed
    | some block =>
      by_cases hopen : w.isOpen k = true
      · simp only [hblock, if_pos hopen] at h
        cases hrun : Lowered.run method (.ofDepth (entryDepth block depth)) block.instructions with
        | error e => simp [hrun] at h
        | ok result =>
          obtain ⟨ls, left⟩ := result
          simp only [hrun] at h
          -- the bound on what remains goes along, since the induction needs it
          refine (foldlM_keeps _ (fun u => u.remaining < n ∧ u.isOpen j = false) ?_ _ _ _ ?_ h).2
          · rintro s u u' ⟨hu, huj⟩ hvisit
            exact ⟨Nat.lt_of_le_of_lt (descend_remaining_le g method s left.depth u u' hvisit) hu,
              ih u.remaining hu s left.depth u u' hvisit huj rfl⟩
          · exact ⟨hn ▸ Walk.remaining_close_lt hopen ls left.peak,
              by rw [Walk.isOpen_close, hclosed, Bool.false_and]⟩
      · obtain rfl : w = v := by simpa [hblock, hopen] using h
        exact hclosed

/-- Blocks that are lowered at the start may be left out of a sequence of visits. -/
theorem foldlM_descend_filter (g : Graph) (method : Signature) (depth : Nat) (w : Walk)
    (ks : List Nat) (v : Walk) (hkeep : ∀ j, w.isOpen j = false → v.isOpen j = false) :
    (ks.filter w.isOpen).foldlM (fun v s => descend g method s depth v) v =
      ks.foldlM (fun v s => descend g method s depth v) v := by
  induction ks generalizing v with
  | nil => rfl
  | cons k ks ih =>
    by_cases hopen : w.isOpen k = true
    · rw [List.filter_cons_of_pos hopen, List.foldlM_cons, List.foldlM_cons]
      cases hvisit : descend g method k depth v with
      | error e => rfl
      | ok u => exact ih u fun j hj => descend_closed g method k depth v u hvisit j (hkeep j hj)
    · have hclosed : w.isOpen k = false := by simpa using hopen
      rw [List.filter_cons_of_neg hopen, List.foldlM_cons,
        descend_of_closed g method k depth v (hkeep k hclosed)]
      exact ih v hkeep

/-- The work list is a sequence of visits. -/
theorem visit_eq_foldlM (g : Graph) (method : Signature) (work : List (Nat × Nat)) (w : Walk) :
    visit g method work w = work.foldlM (fun v entry => descend g method entry.1 entry.2 v) w := by
  induction work, w using visit_induction g method with
  | done w => rw [visit]; rfl
  | skip k depth rest w hskip ih =>
    have hnothing : descend g method k depth w = .ok w := by
      rcases hskip with hnone | hclosed
      · rw [descend_eq, hnone]
      · exact descend_of_closed g method k depth w hclosed
    rw [visit_skip hskip, List.foldlM_cons, hnothing]
    exact ih
  | fault k depth rest w block e hblock hopen hrun =>
    rw [visit_fault hblock hopen hrun, List.foldlM_cons, descend_eq, hblock]
    simp only [if_pos hopen, hrun]
    rfl
  | lower k depth rest w block ls left hblock hopen hrun ih =>
    -- the successors in front of the list are the visits that the recursion makes
    have hsuccessors :
        ((block.successors.filter (w.close k ls left.peak).isOpen).map (·, left.depth)).foldlM
          (fun v entry => descend g method entry.1 entry.2 v) (w.close k ls left.peak) =
        block.successors.foldlM (fun v s => descend g method s left.depth v)
          (w.close k ls left.peak) := by
      rw [List.foldlM_map]
      exact foldlM_descend_filter g method left.depth _ block.successors _ fun _ hj => hj
    rw [visit_open hblock hopen hrun, ih, List.foldlM_append, hsuccessors, List.foldlM_cons,
      descend_eq, hblock]
    simp only [if_pos hopen, hrun]

/-- A visit to a block with an entry depth does not depend on the depth of the visit. -/
theorem descend_getD (g : Graph) (method : Signature) {k : Nat} {block : Block}
    (hblock : g.blocks[k]? = some block) (depth : Nat) (w : Walk) :
    descend g method k (block.entryDepth.getD depth) w = descend g method k depth w := by
  rw [descend_eq, descend_eq g method k depth w, hblock]
  simp only [entryDepth_getD]

/-- Walking from every open block in turn is visiting every block in turn from depth zero. -/
theorem visitAll_eq_foldlM {g : Graph} (method : Signature) {roots : List Block}
    (hroots : ∀ root ∈ roots, g.blocks[root.index]? = some root) (w : Walk) :
    visitAll g method roots w =
      roots.foldlM (fun v root => descend g method root.index 0 v) w := by
  induction roots generalizing w with
  | nil => rfl
  | cons root roots ih =>
    rw [List.forall_mem_cons] at hroots
    rw [visitAll, List.foldlM_cons]
    by_cases hopen : w.isOpen root.index = true
    · have hroot : visit g method [(root.index, root.entryDepth.getD 0)] w =
          descend g method root.index 0 w := by
        rw [visit_eq_foldlM, List.foldlM_cons, descend_getD g method hroots.1]
        cases descend g method root.index 0 w <;> rfl
      rw [if_pos hopen, hroot]
      cases descend g method root.index 0 w with
      | error e => rfl
      | ok v => exact ih hroots.2 v
    · rw [if_neg hopen, descend_of_closed g method root.index 0 w (by simpa using hopen)]
      exact ih hroots.2 w

/-- The work list computes the recursive traversal where blocks have the numbers of their places. -/
theorem lower_eq_of_numbered {g : Graph}
    (hindex : ∀ (k : Nat) (block : Block), g.blocks[k]? = some block → block.index = k)
    (method : Signature) : lower g method = lowerByDescent g method := by
  have hroots : ∀ root ∈ g.blocks, g.blocks[root.index]? = some root := by
    intro root hroot
    obtain ⟨k, hk⟩ := List.getElem?_of_mem hroot
    rwa [hindex k root hk]
  rw [lower, lowerByDescent, visitAll_eq_foldlM method hroots]

/-- The work list computes the recursive traversal of a graph that was built: the same listing and the
same number of registers, or the same fault. -/
theorem lower_eq_lowerByDescent {body : List Instruction} {regions : List Region} {g : Graph}
    (h : Graph.build body regions = .ok g) (method : Signature) :
    lower g method = lowerByDescent g method :=
  lower_eq_of_numbered (fun _ _ => Graph.index_of_build h) method

/-- The guarded loop is lowered alike by the work list and by the recursion. Its handler finds the
exception, although it is a root. -/
theorem guardedLoop_lower_eq_lowerByDescent :
    ∃ g, Graph.build guardedLoop guardedLoopRegions = .ok g ∧
      lower g procedure = lowerByDescent g procedure ∧
      lowerByDescent g procedure =
        .ok ⟨guardedLoop.zipWith (fun i slots => ⟨i, slots.1, slots.2⟩)
          [([], [⟨0⟩]), ([⟨0⟩], []), ([], []), ([⟨0⟩], []), ([], []), ([], []), ([], [])], 1⟩ := by
  have hbuild := guardedLoop_wellFormed.build_eq_connect (List.cons_ne_nil _ _)
  exact ⟨_, hbuild, lower_eq_lowerByDescent hbuild procedure, by decide +kernel⟩

end Unstack.Traversal
