import Unstack.Proofs.BlockStarts
import Unstack.Proofs.DepthRule
import Unstack.Proofs.Descent
import Unstack.Proofs.SourceOrder

/-!
# The number of registers is the least that is needed

The forward pass keeps one peak over all the depths that it comes to. The walk takes the greatest peak
of its blocks, each lowered on a stack of its own. Both start code at depths that they bring along: one
that a branch has recorded, or one that a visitor has left. Such a depth was reached before, so it adds
nothing to the count. A depth is reached for the first time only where outputs reach it, or where the
runtime enters a handler or a filter with it.

So the number of registers is the greatest of these depths, also in code whose ways to a place do not
agree on a depth.
-/

namespace Unstack

/-- The registers of a run are below a bound exactly if there are none or the run ends at it. -/
theorem Register.forall_run_lt_iff (base count bound : Nat) :
    (∀ r ∈ Register.run base count, r.index < bound) ↔ count = 0 ∨ base + count ≤ bound := by
  simp only [Register.run, List.forall_mem_map, List.mem_range'_1]
  constructor
  · intro h
    by_cases hcount : count = 0
    · exact .inl hcount
    · have hlast := h (base + count - 1) (by omega)
      omega
  · rintro h index ⟨hlow, hhigh⟩
    omega

/-- What is read lies below the depth at which it is taken. -/
theorem Effect.inputs_lt (e : Effect) {depth : Nat} (h : e.Fits depth) :
    ∀ r ∈ e.inputs depth, r.index < depth := by
  obtain ⟨pops, pushes⟩ := e
  cases pops with
  | all => simp [Effect.inputs]
  | count required =>
    have henough : required ≤ depth := h
    rw [Effect.inputs, Register.forall_run_lt_iff]
    omega

namespace Lowered

/-- The outputs of the instruction are below the bound. -/
def OutputsBelow (bound : Nat) (l : Lowered) : Prop := ∀ r ∈ l.outputs, r.index < bound

/-- The outputs of the instruction are below the bound, and so is any depth at which the runtime enters
it, or equal to it. -/
def Within (regions : List Region) (bound : Nat) (l : Lowered) : Prop :=
  (∀ depth, Region.entryDepthAt regions l.source.offset = some depth → depth ≤ bound) ∧
    l.OutputsBelow bound

/-- Lowering from one stack to another raises the peak by no more than the lowered instructions ask
for, and all their inputs are below it. -/
structure Raises (P : Nat → Lowered → Prop) (before : EvalStack) (ls : List Lowered)
    (after : EvalStack) : Prop where
  sound : after.depth ≤ after.peak
  least : ∀ bound, after.peak ≤ bound ↔ before.peak ≤ bound ∧ ∀ l ∈ ls, P bound l
  inputs : ∀ l ∈ ls, ∀ r ∈ l.inputs, r.index < after.peak

section Raises

variable {P : Nat → Lowered → Prop} {before middle after : EvalStack} {l : Lowered}
  {ls : List Lowered}

/-- Nothing is asked for where nothing is lowered. -/
theorem raises_nil (P : Nat → Lowered → Prop) {stack : EvalStack} (h : stack.depth ≤ stack.peak) :
    Raises P stack [] stack :=
  ⟨h, fun bound => by simp, by simp⟩

/-- What one instruction and then the others ask for, all of them do. -/
theorem Raises.cons (hfirst : Raises P before [l] middle) (hrest : Raises P middle ls after) :
    Raises P before (l :: ls) after where
  sound := hrest.sound
  least bound := by
    rw [hrest.least, hfirst.least, List.forall_mem_singleton, List.forall_mem_cons, and_assoc]
  inputs := by
    have hgrows : middle.peak ≤ after.peak := ((hrest.least after.peak).mp (Nat.le_refl _)).1
    rw [List.forall_mem_cons]
    refine ⟨fun r hr => ?_, hrest.inputs⟩
    exact Nat.lt_of_lt_of_le (hfirst.inputs l List.mem_cons_self r hr) hgrows

end Raises

/-- A step raises the peak to where its outputs reach. -/
theorem step_raises {method : Signature} {stack left : EvalStack} {i : Instruction} {l : Lowered}
    (hstack : stack.depth ≤ stack.peak) (h : step method stack i = .ok (l, left)) :
    Raises OutputsBelow stack [l] left := by
  obtain ⟨e, -, hfits, rfl, rfl⟩ := (step_eq_ok_iff method stack i l left).mp h
  have hbase := e.base_le stack.depth
  refine ⟨Nat.le_max_right _ _, fun bound => ?_, ?_⟩
  · rw [List.forall_mem_singleton, OutputsBelow, Effect.lowered, Register.forall_run_lt_iff,
      EvalStack.peak_setDepth, Nat.max_le, Effect.left]
    omega
  · rw [List.forall_mem_singleton, EvalStack.peak_setDepth]
    intro r hr
    exact Nat.lt_of_lt_of_le (e.inputs_lt hfits r hr) (Nat.le_trans hstack (Nat.le_max_left _ _))

/-- Instructions that follow each other raise the peak to where their outputs reach. -/
theorem run_raises {method : Signature} {stack left : EvalStack} {code : List Instruction}
    {ls : List Lowered} (hstack : stack.depth ≤ stack.peak)
    (h : run method stack code = .ok (ls, left)) : Raises OutputsBelow stack ls left := by
  induction code generalizing stack ls with
  | nil =>
    cases h
    exact raises_nil _ hstack
  | cons i rest ih =>
    rw [run] at h
    cases hstep : step method stack i with
    | error e => simp [hstep] at h
    | ok result =>
      cases hrest : run method result.2 rest with
      | error e => simp [hstep, hrest] at h
      | ok results =>
        simp only [hstep, hrest, Except.ok.injEq, Prod.mk.injEq] at h
        obtain ⟨rfl, rfl⟩ := h
        have hfirst := step_raises hstack hstep
        exact hfirst.cons (ih hfirst.sound hrest)

end Lowered

namespace Forward

/-- The depths that the pass knows, on its stack and at places ahead, were reached. -/
structure Progress.Reached (p : Progress) : Prop where
  stack : p.stack.depth ≤ p.stack.peak
  recorded : ∀ offset depth, p.recorded.lookup offset = some depth → depth ≤ p.stack.peak

section Pass

variable {body : List Instruction} {regions : List Region} {method : Signature} {p : Progress}

/-- At the start the stack is empty and nothing is recorded. -/
theorem reached_start : Progress.Reached {} := ⟨Nat.le_refl 0, fun _ _ h => by cases h⟩

/-- Entering an instruction raises the peak only where the runtime gives the depth. -/
theorem Progress.Reached.enter (h : p.Reached) (regions : List Region) (offset : Offset) :
    (enter regions p offset).depth ≤ (enter regions p offset).peak ∧
      ∀ bound, (enter regions p offset).peak ≤ bound ↔ p.stack.peak ≤ bound ∧
        ∀ depth, Region.entryDepthAt regions offset = some depth → depth ≤ bound := by
  unfold Forward.enter
  cases hentry : Region.entryDepthAt regions offset with
  | some depth =>
    refine ⟨Nat.le_max_right _ _, fun bound => ?_⟩
    rw [EvalStack.peak_setDepth, Nat.max_le]
    simp
  | none =>
    cases hon : p.goesOn with
    | true => exact ⟨h.stack, fun bound => by simp⟩
    | false =>
      have hknown : (p.recorded.lookup offset).getD 0 ≤ p.stack.peak := by
        cases hlookup : p.recorded.lookup offset with
        | none => exact Nat.zero_le _
        | some depth => exact h.recorded offset depth hlookup
      refine ⟨Nat.le_max_right _ _, fun bound => ?_⟩
      simp [Nat.max_eq_left hknown]

/-- Lowering one instruction of the pass raises the peak by what it asks for. -/
theorem Progress.Reached.step_raises (h : p.Reached) {i : Instruction} {l : Lowered}
    {left : EvalStack}
    (hstep : Lowered.step method (Forward.enter regions p i.offset) i = .ok (l, left)) :
    Lowered.Raises (Lowered.Within regions) p.stack [l] left := by
  obtain ⟨hsound, henter⟩ := h.enter regions i.offset
  have hraises := Lowered.step_raises hsound hstep
  refine ⟨hraises.sound, fun bound => ?_, hraises.inputs⟩
  rw [hraises.least, henter, List.forall_mem_singleton, List.forall_mem_singleton, Lowered.Within,
    Lowered.step_source _ _ _ _ _ hstep, and_assoc]

/-- Behind an instruction, what the pass knows is still reached. -/
theorem Progress.Reached.next (h : p.Reached) {i : Instruction} {l : Lowered} {left : EvalStack}
    (hraises : Lowered.Raises (Lowered.Within regions) p.stack [l] left) :
    (p.next i left).Reached where
  stack := hraises.sound
  recorded offset depth hlookup := by
    have hgrows : p.stack.peak ≤ left.peak := ((hraises.least left.peak).mp (Nat.le_refl _)).1
    change (i.branchTargets.foldl (record i.offset left.depth) p.recorded).lookup offset = _ at hlookup
    rw [lookup_foldl_record, Option.or_eq_some_iff] at hlookup
    rcases hlookup with hold | ⟨-, hnew⟩
    · exact Nat.le_trans (h.recorded offset depth hold) hgrows
    · split at hnew
      · exact Option.some.inj hnew ▸ hraises.sound
      · cases hnew

/-- The pass raises the peak by what the lowered instructions ask for. -/
theorem lowerFrom_raises {rest : List Instruction} {ls : List Lowered} {final : EvalStack}
    (hp : p.Reached) (h : lowerFrom (starts body) regions method p rest = .ok (ls, final)) :
    Lowered.Raises (Lowered.Within regions) p.stack ls final := by
  induction rest generalizing p ls with
  | nil =>
    cases h
    exact Lowered.raises_nil _ hp.stack
  | cons i rest ih =>
    cases hstep : Lowered.step method (Forward.enter regions p i.offset) i with
    | error e =>
      rw [lowerFrom_fault hstep] at h
      cases h
    | ok result =>
      cases htarget : i.branchTargets.find? (!isStart body ·) with
      | some t =>
        rw [lowerFrom_stray hstep htarget] at h
        cases h
      | none =>
        rw [lowerFrom_next hstep htarget] at h
        cases hrest : lowerFrom (starts body) regions method (p.next i result.2) rest with
        | error e =>
          rw [hrest] at h
          cases h
        | ok results =>
          rw [hrest] at h
          cases h
          have hfirst := hp.step_raises hstep
          exact hfirst.cons (ih (hp.next hfirst) hrest)

end Pass

end Forward

namespace Traversal

/-- Of the instructions of a block the runtime enters only the first, and gives it the depth of the
block. -/
theorem forall_entryDepthAt_block_iff {body : List Instruction} {regions : List Region} {k : Nat}
    {block : Block} (hblock : (Graph.connect body regions).blocks[k]? = some block)
    (P : Nat → Prop) :
    (∀ i ∈ block.instructions, ∀ depth, Region.entryDepthAt regions i.offset = some depth → P depth) ↔
      ∀ depth, block.entryDepth = some depth → P depth := by
  obtain ⟨segment, hsegment, rfl⟩ := (Graph.getElem?_connect_blocks body regions k block).mp hblock
  have hpos := List.length_pos_iff.mpr (Graph.segment_ne_nil hsegment)
  have hfirst := List.getElem?_eq_getElem hpos
  rw [Graph.blockOf_entryDepth regions _ k segment _ hfirst]
  constructor
  · intro h
    exact h segment[0] (List.getElem_mem hpos)
  · intro h i hi depth hdepth
    obtain ⟨j, hj⟩ := List.getElem?_of_mem hi
    cases j with
    | zero =>
      obtain rfl := Option.some.inj (hfirst.symm.trans hj)
      exact h depth hdepth
    | succ j =>
      have hbefore := List.getElem?_eq_getElem (Nat.lt_of_succ_lt (List.getElem?_eq_some_iff.mp hj).1)
      rw [(Graph.flowsTo_inside hsegment hbefore hj).2] at hdepth
      cases hdepth

/-- Lowering an open block adds its record to the others. -/
theorem Walk.mem_lowered_close {w : Walk} {k : Nat} (hopen : w.isOpen k = true) (ls : List Lowered)
    (peak : Nat) (record : List Lowered) :
    some record ∈ (w.close k ls peak).lowered ↔ record = ls ∨ some record ∈ w.lowered := by
  obtain ⟨hk, hnone⟩ := List.getElem?_eq_some_iff.mp (beq_iff_eq.mp hopen)
  rw [Walk.close, List.mem_iff_getElem?, List.mem_iff_getElem?]
  constructor
  · rintro ⟨j, hj⟩
    rw [List.getElem?_set] at hj
    by_cases hkj : k = j
    · simp only [hkj, if_true] at hj
      split at hj
      · exact .inl (Option.some.inj (Option.some.inj hj)).symm
      · cases hj
    · rw [if_neg hkj] at hj
      exact .inr ⟨j, hj⟩
  · rintro (rfl | ⟨j, hj⟩)
    · exact ⟨k, List.getElem?_set_self hk⟩
    · have hkj : k ≠ j := by
        rintro rfl
        rw [List.getElem?_eq_getElem hk, hnone] at hj
        cases hj
      exact ⟨j, by rw [List.getElem?_set_ne hkj, hj]⟩

/-- What holds along the walk: the depths in the work list were reached, those aside that no block
starts at, and the registers needed so far are the least that the lowered blocks ask for. -/
structure Counted (g : Graph) (regions : List Region) (work : List (Nat × Nat)) (w : Walk) :
    Prop where
  entries : ∀ visit ∈ work, ∀ block, g.blocks[visit.1]? = some block → block.entryDepth = none →
    visit.2 ≤ w.registers
  least : ∀ bound, w.registers ≤ bound ↔
    ∀ ls, some ls ∈ w.lowered → ∀ l ∈ ls, l.Within regions bound
  inputs : ∀ ls, some ls ∈ w.lowered → ∀ l ∈ ls, ∀ r ∈ l.inputs, r.index < w.registers

section Walk

variable {body : List Instruction} {regions : List Region} {method : Signature} {k depth : Nat}
  {block : Block} {ls : List Lowered} {left : EvalStack}

/-- A block that starts at a depth below `reached`, or where the runtime enters it, raises the count by
what it asks for. -/
theorem registers_close_le_iff (hblock : (Graph.connect body regions).blocks[k]? = some block)
    (hrun : Lowered.run method (.ofDepth (entryDepth block depth)) block.instructions =
      .ok (ls, left)) {reached : Nat} (hdepth : block.entryDepth = none → depth ≤ reached)
    (bound : Nat) :
    max reached left.peak ≤ bound ↔ reached ≤ bound ∧ ∀ l ∈ ls, l.Within regions bound := by
  have hsources := Lowered.run_sources _ _ _ _ _ hrun
  have hentered := forall_entryDepthAt_block_iff hblock (· ≤ bound)
  rw [← hsources, List.forall_mem_map] at hentered
  have hraises := Lowered.run_raises (Nat.le_refl _) hrun
  have hwithin : (∀ l ∈ ls, l.Within regions bound) ↔
      (∀ depth, block.entryDepth = some depth → depth ≤ bound) ∧ ∀ l ∈ ls, l.OutputsBelow bound := by
    simp only [Lowered.Within, forall_and, hentered]
  rw [Nat.max_le, hraises.least, hwithin]
  apply and_congr_right
  intro hreached
  apply and_congr_left'
  change entryDepth block depth ≤ bound ↔ _
  cases hentry : block.entryDepth with
  | some entered => simp [entryDepth, hentry]
  | none => simp [entryDepth, hentry, Nat.le_trans (hdepth hentry) hreached]

/-- The walk counts the registers that its blocks ask for, and no more. -/
theorem counted_invariant (body : List Instruction) (regions : List Region) (method : Signature) :
    WalkInvariant (Graph.connect body regions) method
      (Counted (Graph.connect body regions) regions) (fun _ => True) where
  start := by
    refine ⟨by simp, fun bound => ?_, fun ls hls => ?_⟩
    · simp
    · simp at hls
  root k block w hblock _ _ h := by
    refine ⟨fun visit hvisit visited hvisited hentry => ?_, h.least, h.inputs⟩
    obtain rfl := List.mem_singleton.mp hvisit
    obtain rfl := Option.some.inj (hblock.symm.trans hvisited)
    simp [hentry]
  skip k depth rest w _ h :=
    ⟨fun visit hvisit => h.entries visit (List.mem_cons_of_mem _ hvisit), h.least, h.inputs⟩
  lower k depth rest w block hblock hopen h := by
    cases hrun : Lowered.run method (.ofDepth (entryDepth block depth)) block.instructions with
    | error e => trivial
    | ok result =>
      obtain ⟨ls, left⟩ := result
      have hraises := Lowered.run_raises (Nat.le_refl _) hrun
      have hpeak : left.peak ≤ (w.close k ls left.peak).registers := Nat.le_max_right _ _
      have hbefore : w.registers ≤ (w.close k ls left.peak).registers := Nat.le_max_left _ _
      refine ⟨fun visit hvisit visited hvisited hentry => ?_, fun bound => ?_,
        fun record hrecord l hl r hr => ?_⟩
      · rcases List.mem_append.mp hvisit with hnew | hold
        · obtain ⟨s, -, rfl⟩ := List.mem_map.mp hnew
          exact Nat.le_trans hraises.sound hpeak
        · have hreached := h.entries visit (List.mem_cons_of_mem _ hold) visited hvisited hentry
          exact Nat.le_trans hreached hbefore
      · have hdepth : block.entryDepth = none → depth ≤ w.registers :=
          h.entries (k, depth) List.mem_cons_self block hblock
        refine (registers_close_le_iff hblock hrun hdepth bound).trans ?_
        rw [h.least]
        simp only [Walk.mem_lowered_close hopen, forall_eq_or_imp]
        exact and_comm
      · rcases (Walk.mem_lowered_close hopen ls left.peak record).mp hrecord with rfl | hold
        · exact Nat.lt_of_lt_of_le (hraises.inputs l hl r hr) hpeak
        · exact Nat.lt_of_lt_of_le (h.inputs record hold l hl r hr) hbefore

end Walk

end Traversal

namespace Listing

/-- The depths that a listing must have registers for: those at which the runtime enters instructions of
the body, and those to which outputs reach. -/
def neededDepths (listing : Listing) (body : List Instruction) (regions : List Region) : List Nat :=
  (body.filterMap fun i => Region.entryDepthAt regions i.offset) ++
    listing.instructions.flatMap fun l => l.outputs.map fun r => r.index + 1

/-- All registers of the listing are among those it counts, and it counts as many as the greatest depth
that it needs. -/
structure CountsRegisters (listing : Listing) (body : List Instruction) (regions : List Region) :
    Prop where
  inputs : ∀ l ∈ listing.instructions, ∀ r ∈ l.inputs, r.index < listing.registers
  outputs : ∀ l ∈ listing.instructions, ∀ r ∈ l.outputs, r.index < listing.registers
  count : listing.registers = (listing.neededDepths body regions).foldr max 0

/-- The greatest of some numbers is the least bound of them all. -/
theorem foldr_max_le_iff (numbers : List Nat) (bound : Nat) :
    numbers.foldr max 0 ≤ bound ↔ ∀ n ∈ numbers, n ≤ bound := by
  induction numbers with
  | nil => simp
  | cons n numbers ih => rw [List.foldr_cons, Nat.max_le, ih, List.forall_mem_cons]

/-- The instructions of a listing are within a bound exactly if the depths that it needs are. -/
theorem forall_within_iff {listing : Listing} {body : List Instruction}
    (hsources : listing.instructions.map Lowered.source = body) (regions : List Region)
    (bound : Nat) :
    (∀ l ∈ listing.instructions, l.Within regions bound) ↔
      ∀ depth ∈ listing.neededDepths body regions, depth ≤ bound := by
  subst hsources
  simp only [neededDepths, List.forall_mem_append, List.forall_mem_filterMap, List.forall_mem_map,
    List.forall_mem_flatMap, Nat.succ_le_iff, Lowered.Within, Lowered.OutputsBelow, forall_and]

/-- A count that is the least bound for the instructions of a listing is the count of its depths. -/
theorem countsRegisters_of_least {listing : Listing} {body : List Instruction} {regions : List Region}
    (hsources : listing.instructions.map Lowered.source = body)
    (hleast : ∀ bound, listing.registers ≤ bound ↔
      ∀ l ∈ listing.instructions, l.Within regions bound)
    (hinputs : ∀ l ∈ listing.instructions, ∀ r ∈ l.inputs, r.index < listing.registers) :
    listing.CountsRegisters body regions where
  inputs := hinputs
  outputs l hl := ((hleast listing.registers).mp (Nat.le_refl _) l hl).2
  count := by
    apply Nat.le_antisymm
    · rw [hleast, forall_within_iff hsources, ← foldr_max_le_iff]
    · rw [foldr_max_le_iff, ← forall_within_iff hsources, ← hleast]

end Listing

/-- The forward pass counts exactly the registers that its listing needs. -/
theorem Forward.countsRegisters_of_lower {body : List Instruction} {regions : List Region}
    {method : Signature} {listing : Listing} (h : Forward.lower body regions method = .ok listing) :
    listing.CountsRegisters body regions := by
  obtain ⟨final, hlower, hcount⟩ := exists_final_of_lower h
  have hraises := lowerFrom_raises reached_start hlower
  apply Listing.countsRegisters_of_least (lowerFrom_sources _ _ _ _ _ _ _ hlower)
  · intro bound
    rw [hcount, hraises.least]
    exact and_iff_right (Nat.zero_le bound)
  · rw [hcount]
    exact hraises.inputs

/-- The walk counts exactly the registers that its listing needs. -/
theorem Traversal.countsRegisters_of_lower {body : List Instruction} {regions : List Region}
    {method : Signature} {listing : Listing} (hinc : Increasing body)
    (h : Unstack.lower .graphTraversal body regions method = .ok listing) :
    listing.CountsRegisters body regions := by
  obtain ⟨g, hbuild, hwalk⟩ := exists_graph_of_lower h
  have hsources := sources_of_build hbuild hwalk
  rw [Graph.eq_connect_of_build hbuild hinc] at hwalk
  have hrule := lower_rule (counted_invariant body regions method) (Graph.connect_index body regions)
  rw [hwalk] at hrule
  obtain ⟨w, hcounted, -, -, rfl⟩ := hrule
  have hlisted : ∀ P : Lowered → Prop,
      (∀ l ∈ (w.lowered.filterMap id).flatten, P l) ↔ ∀ ls, some ls ∈ w.lowered → ∀ l ∈ ls, P l := by
    intro P
    simp only [List.forall_mem_flatten, List.mem_filterMap, id_eq, exists_eq_right]
  apply Listing.countsRegisters_of_least hsources
  · intro bound
    exact (hcounted.least bound).trans (hlisted _).symm
  · exact (hlisted _).mpr hcounted.inputs

/-- Whichever strategy lowers a body, the registers of its listing are below its count, and the count is
the greatest of the depths at which the runtime enters instructions and of those to which outputs
reach, or zero. -/
theorem lower_countsRegisters {strategy : Strategy} {body : List Instruction} {regions : List Region}
    {method : Signature} {listing : Listing} (hinc : Increasing body)
    (h : lower strategy body regions method = .ok listing) :
    listing.CountsRegisters body regions := by
  cases strategy with
  | forwardPass => exact Forward.countsRegisters_of_lower h
  | graphTraversal => exact Traversal.countsRegisters_of_lower hinc h

/-- Lowering along the graph of a body descends through its blocks. -/
theorem Traversal.lower_of_build {body : List Instruction} {regions : List Region} {g : Graph}
    (h : Graph.build body regions = .ok g) (method : Signature) :
    Unstack.lower .graphTraversal body regions method = lowerByDescent g method := by
  simp only [Unstack.lower, h]
  exact lower_eq_of_numbered (fun _ _ => Graph.index_of_build h) method

/-- A return, and a handler that drops what it is entered with. Nothing is ever put on the stack. -/
def idleHandler : List Instruction :=
  [⟨0, ⟨"ret", 0x2A, .ret, .varPop, .push0, .inlineNone⟩, .none⟩,
    ⟨1, ⟨"pop", 0x26, .next, .pop1, .push0, .inlineNone⟩, .none⟩,
    ⟨2, ⟨"leave.s", 0xDE, .branch, .popAll, .push0, .shortInlineBrTarget⟩, .target 0⟩]

/-- The handler, which one region enters with nothing, and the next one with an exception. -/
def idleHandlerRegions : List Region :=
  [{ kind := .finalizes, tryStart := 0, tryEnd := 1, handlerStart := 1, handlerEnd := 4 },
    { kind := .catches, tryStart := 0, tryEnd := 1, handlerStart := 1, handlerEnd := 4 }]

/-- A value that is put on the stack where one way leads with nothing and the other with a value. -/
def disputedPush : List Instruction :=
  [⟨0, ⟨"ldc.i4.0", 0x16, .next, .pop0, .push1, .inlineNone⟩, .none⟩,
    ⟨1, ⟨"brtrue.s", 0x2D, .condBranch, .pop1, .push0, .shortInlineBrTarget⟩, .target 4⟩,
    ⟨3, ⟨"ldc.i4.0", 0x16, .next, .pop0, .push1, .inlineNone⟩, .none⟩,
    ⟨4, ⟨"ldc.i4.0", 0x16, .next, .pop0, .push1, .inlineNone⟩, .none⟩,
    ⟨5, ⟨"ret", 0x2A, .ret, .varPop, .push0, .inlineNone⟩, .none⟩]

/-- The disputed push in register form, when its value goes to the given register. -/
def disputedPushLowered (top : Register) : List Lowered :=
  disputedPush.zipWith (fun i slots => ⟨i, slots.1, slots.2⟩)
    [([], [⟨0⟩]), ([⟨0⟩], []), ([], [⟨0⟩]), ([], [top]), ([], [])]

/-- The idle handler needs a register although nothing is put on the stack, for its last region gives it
a value. The disputed push needs one or two, as each strategy chooses the way to it. -/
theorem idleHandler_countsRegisters :
    Increasing idleHandler ∧ Increasing disputedPush ∧
      (∃ listing, lower .graphTraversal idleHandler idleHandlerRegions procedure = .ok listing ∧
        listing.registers = 1 ∧ listing.CountsRegisters idleHandler idleHandlerRegions) ∧
      (∃ listing, lower .graphTraversal disputedPush [] procedure = .ok listing ∧
        listing.registers = 1 ∧ listing.CountsRegisters disputedPush []) ∧
      ∃ listing, lower .forwardPass disputedPush [] procedure = .ok listing ∧
        listing.registers = 2 ∧ listing.CountsRegisters disputedPush [] := by
  have hidle : Increasing idleHandler := by decide
  have hpush : Increasing disputedPush := by decide
  have hhandler : lower .graphTraversal idleHandler idleHandlerRegions procedure =
      .ok ⟨idleHandler.zipWith (fun i inputs => ⟨i, inputs, []⟩) [[], [⟨0⟩], []], 1⟩ := by
    rw [Traversal.lower_of_build (Graph.build_eq_connect hidle rfl)]
    decide +kernel
  have hwalk : lower .graphTraversal disputedPush [] procedure =
      .ok ⟨disputedPushLowered ⟨0⟩, 1⟩ := by
    rw [Traversal.lower_of_build (Graph.build_eq_connect hpush rfl)]
    decide +kernel
  have hpass : lower .forwardPass disputedPush [] procedure =
      .ok ⟨disputedPushLowered ⟨1⟩, 2⟩ := rfl
  exact ⟨hidle, hpush, ⟨_, hhandler, rfl, lower_countsRegisters hidle hhandler⟩,
    ⟨_, hwalk, rfl, lower_countsRegisters hpush hwalk⟩,
    ⟨_, hpass, rfl, lower_countsRegisters hpush hpass⟩⟩

end Unstack
