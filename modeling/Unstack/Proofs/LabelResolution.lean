import Unstack.Proofs.FirstFault
import Unstack.Proofs.LabelTable

/-!
# Where labels lead

A branch names its targets by labels, placed before it or behind it. The table of labels is filled
while offsets are given out and is read only when the body is finished. If no step fails, it has each
label at the width of the instructions added before the step that placed it. So finishing succeeds
exactly if every label that is named is placed; every target is then the start of an instruction or the
end of the body. Otherwise the fault is the first label that is named and not placed. A body in which
every label that is named stands before an instruction has a graph.
-/

namespace Unstack

/-- Every step adds an instruction but one that places a label. -/
def Step.isInstruction : Step → Bool
  | .label _ => false
  | _ => true

/-- The steps of a program that add an instruction. -/
def instructionSteps (steps : List Step) : List Step := steps.filter Step.isInstruction

/-- One step of the program places the label, and the instructions added before it have widths that
add up to the offset. -/
def PlacedAt (steps : List Step) (widths : List Nat) (name : String) (offset : Offset) : Prop :=
  ∃ before after, steps = before ++ .label name :: after ∧
    Step.label name ∉ before ∧ Step.label name ∉ after ∧
    offset = (widths.take (instructionSteps before).length).sum

/-- The instruction is the one that the step adds, with targets where the labels of the step stand. -/
structure Step.Yields (stands : String → Offset → Prop) (step : Step) (i : Instruction) : Prop where
  added : ∃ d, step.Adds i.opcode d ∧ d.Resolves stands i.operand
  targets : List.Forall₂ stands step.uses i.branchTargets

/-- A body is the program with its labels resolved. -/
structure Resolved (steps : List Step) (body : List Instruction) : Prop where
  /-- The instructions are those of the steps that add one, in order, and each target is the width of
  the instructions added before the step that placed its label. -/
  instructions : List.Forall₂ (Step.Yields (PlacedAt steps (body.map Instruction.width)))
    (instructionSteps steps) body
  /-- Each instruction starts behind those before it. -/
  offsets : ∀ k i, body[k]? = some i → i.offset = ((body.map Instruction.width).take k).sum
  /-- Every target is the start of an instruction or the end of the body. -/
  targets : ∀ i ∈ body, ∀ t ∈ i.branchTargets, isStart body t = true ∨ endOfBody? body = some t

/-- What finishing makes of an assembly behind the steps of a program. -/
structure ResolvesLabels (steps : List Step) (a : Assembly) : Prop where
  /-- It succeeds exactly if every label that a step names is placed, -/
  succeeds : (∃ body, a.finish = .ok body) ↔
    ∀ step ∈ steps, ∀ name ∈ step.uses, Step.label name ∈ steps
  /-- and then gives the program with its labels resolved. -/
  resolved : ∀ body, a.finish = .ok body → Resolved steps body
  /-- Otherwise it names the first label that is not placed. -/
  undefined : ∀ e, a.finish = .error e ↔ ∃ m n name,
    FirstAt (Step.label · ∉ steps) ((instructionSteps steps).map Step.uses) m n name ∧
      e = .undefinedLabel name
  /-- A body with an instruction has a graph if one more follows behind every label that is named. -/
  built : instructionSteps steps ≠ [] →
    (∀ step ∈ steps, ∀ name ∈ step.uses, ∃ before after,
      steps = before ++ .label name :: after ∧ instructionSteps after ≠ []) →
    ∃ body g, a.finish = .ok body ∧ Graph.build body [] = .ok g

/-- A program with one more step counts one more instruction, or the same. -/
theorem instructionSteps_concat (steps : List Step) (step : Step) :
    instructionSteps (steps ++ [step]) =
      instructionSteps steps ++ if step.isInstruction then [step] else [] := by
  rw [instructionSteps, List.filter_append]
  cases hstep : step.isInstruction with
  | true => simp [hstep, instructionSteps]
  | false => simp [hstep, instructionSteps]

/-- A part of a program has no more instructions than the program. -/
theorem length_instructionSteps_le (before after : List Step) :
    (instructionSteps before).length ≤ (instructionSteps (before ++ after)).length := by
  rw [instructionSteps, instructionSteps, List.filter_append, List.length_append]
  exact Nat.le_add_right _ _

/-- A step that adds an instruction is counted as one that does. -/
theorem Step.Adds.isInstruction {step : Step} {opcode : Opcode} {operand : DraftOperand}
    (h : step.Adds opcode operand) : step.isInstruction = true := by
  cases step with
  | label name => cases h
  | _ => rfl

/-- A label stays where it is when another step follows. -/
theorem PlacedAt.concat {steps : List Step} {widths : List Nat} {name : String} {offset : Offset}
    (h : PlacedAt steps widths name offset) (hcount : (instructionSteps steps).length = widths.length)
    {step : Step} (hstep : step ≠ .label name) (more : List Nat) :
    PlacedAt (steps ++ [step]) (widths ++ more) name offset := by
  obtain ⟨before, after, rfl, hbefore, hafter, rfl⟩ := h
  have hle := Nat.le_trans (length_instructionSteps_le before _) (Nat.le_of_eq hcount)
  refine ⟨before, after ++ [step], by simp, hbefore, ?_, ?_⟩
  · rw [List.mem_append, List.mem_singleton, not_or]
    exact ⟨hafter, hstep.symm⟩
  · rw [List.take_append_of_le_length hle]

/-- A new label stands behind all instructions so far. -/
theorem placedAt_concat_label {steps : List Step} {widths : List Nat} {name : String}
    (hnew : Step.label name ∉ steps) (hcount : (instructionSteps steps).length = widths.length) :
    PlacedAt (steps ++ [.label name]) widths name widths.sum := by
  refine ⟨steps, [], rfl, hnew, List.not_mem_nil, ?_⟩
  rw [hcount, List.take_length]

namespace Assembly

/-- What an assembly holds behind steps none of which failed: one instruction for each step that adds
one, and each label where it was placed. -/
structure Assembled (steps : List Step) (a : Assembly) : Prop extends LaidOut steps a where
  drafts : List.Forall₂ (fun step d => step.Adds d.opcode d.operand) (instructionSteps steps) a.drafts
  placed : ∀ name offset, a.labels.lookup name = some offset → PlacedAt steps a.widths name offset

namespace Assembled

variable {steps rest : List Step} {a a' : Assembly}

/-- There are as many widths as steps that add an instruction. -/
theorem length_widths (h : Assembled steps a) : (instructionSteps steps).length = a.widths.length := by
  rw [h.drafts.length_eq, widths, List.length_map, List.length_map]

/-- A new label is entered at the current offset. -/
theorem place (h : Assembled steps a) {name : String} (hnew : a.labels.lookup name = none) :
    Assembled (steps ++ [.label name]) (a.place name).1 where
  toLaidOut := h.toLaidOut.place name
  drafts := by
    rw [instructionSteps_concat, if_neg (by simp [Step.isInstruction]), List.append_nil]
    exact h.drafts
  placed other offset hlookup := by
    rw [lookup_place] at hlookup
    by_cases hother : other = name
    · subst hother
      obtain rfl : a.next = offset := by simpa using hlookup
      rw [h.next_eq]
      exact placedAt_concat_label ((h.unplaced other).mp hnew) h.length_widths
    · rw [if_neg hother] at hlookup
      have hne : Step.label name ≠ .label other := fun hsame => hother (Step.label.inj hsame).symm
      have hplaced := (h.placed other offset hlookup).concat h.length_widths hne []
      rwa [List.append_nil] at hplaced

/-- An instruction is entered behind those before it, and no label moves. -/
theorem emit (h : Assembled steps a) {step : Step} {opcode : Opcode} {operand : DraftOperand}
    (hadds : step.Adds opcode operand) : Assembled (steps ++ [step]) (a.emit opcode operand) where
  toLaidOut := h.toLaidOut.emit hadds.ne_label opcode operand
  drafts := by
    rw [instructionSteps_concat, if_pos hadds.isInstruction]
    exact List.rel_append h.drafts (.cons hadds .nil)
  placed name offset hlookup := by
    rw [widths_emit]
    exact (h.placed name offset hlookup).concat h.length_widths (hadds.ne_label name) _

/-- Steps that run without a fault keep the table. -/
theorem run (h : Assembled steps a) (hrun : a.run rest = .ok a') : Assembled (steps ++ rest) a' := by
  induction rest generalizing steps a with
  | nil =>
    cases hrun
    rwa [List.append_nil]
  | cons step rest ih =>
    obtain ⟨next, happly, hrest⟩ := (run_cons_eq_ok_iff a a' step rest).mp hrun
    rw [List.append_cons]
    cases applies_of_apply happly with
    | placed name hnew => exact ih (h.place hnew) hrest
    | added hadds => exact ih (h.emit hadds) hrest

end Assembled

/-- The table behind the steps of a program. -/
theorem assembled_of_run {steps : List Step} {a : Assembly} (h : ({} : Assembly).run steps = .ok a) :
    Assembled steps a := by
  have hstart : Assembled [] {} := ⟨laidOut_empty, .nil, by simp⟩
  exact hstart.run h

namespace Assembled

variable {steps : List Step} {a : Assembly} {body : List Instruction}

/-- The instructions name the labels that the steps name. -/
theorem names_eq (h : Assembled steps a) :
    a.drafts.map (·.operand.names) = (instructionSteps steps).map Step.uses := by
  rw [← List.forall₂_eq_eq_eq, List.forall₂_map_left_iff, List.forall₂_map_right_iff]
  apply List.Forall₂.flip
  exact h.drafts.imp fun step d hadds => hadds.names_eq

/-- Finishing fails with the first label that no step places. -/
theorem finish_eq_error_iff (h : Assembled steps a) (e : AssemblyError) :
    a.finish = .error e ↔ ∃ m n name,
      FirstAt (Step.label · ∉ steps) ((instructionSteps steps).map Step.uses) m n name ∧
        e = .undefinedLabel name := by
  rw [← Outcome.fault?_eq_some_iff, fault?_finish, findSome?_find?_eq_some_iff_firstAt, h.names_eq]
  simp only [h.lacks_iff, eq_comm (a := e)]

/-- Finishing succeeds if every label that a step names is placed by a step. -/
theorem exists_finish_iff (h : Assembled steps a) :
    (∃ body, a.finish = .ok body) ↔
      ∀ step ∈ steps, ∀ name ∈ step.uses, Step.label name ∈ steps := by
  have hdrafts : (∃ body, a.finish = .ok body) ↔
      ∀ names ∈ a.drafts.map (·.operand.names), ∀ name ∈ names, Step.label name ∈ steps := by
    rw [← Outcome.fault?_eq_none_iff, fault?_finish, List.findSome?_eq_none_iff]
    simp [List.find?_eq_none, h.lacks_iff]
  rw [hdrafts, h.names_eq, List.forall_mem_map]
  constructor
  · intro hplaced step hstep name hname
    have hinstruction : step.isInstruction = true := by
      cases step with
      | label other => simp [Step.uses] at hname
      | _ => rfl
    exact hplaced step (List.mem_filter.mpr ⟨hstep, hinstruction⟩) name hname
  · intro hplaced step hstep
    exact hplaced step (List.mem_of_mem_filter hstep)

/-- Every instruction was added by a step. -/
theorem exists_step (h : Assembled steps a) :
    ∀ d ∈ a.drafts, ∃ step : Step, step.Adds d.opcode d.operand := by
  intro d hd
  obtain ⟨step, -, hadds⟩ := exists_of_forall₂_right h.drafts hd
  exact ⟨step, hadds⟩

/-- A finished body has no gaps. -/
theorem finish_tiles (h : Assembled steps a) (hfinish : a.finish = .ok body) :
    Tiles 0 (body.map Instruction.extent) a.next := by
  rw [map_extent_of_finish h.exists_step hfinish]
  exact h.tiles

/-- Each step that adds an instruction yields one of the finished body. -/
theorem yields (h : Assembled steps a) (hfinish : a.finish = .ok body) :
    List.Forall₂ (Step.Yields (PlacedAt steps (body.map Instruction.width))) (instructionSteps steps)
      body := by
  rw [map_width_of_finish h.exists_step hfinish]
  apply Outcome.forall₂_of_mapM h.drafts hfinish
  intro step d i hadds hi
  obtain ⟨hoperand, -, hopcode⟩ := (instruction_eq_ok_iff a d i).mp hi
  rw [← hopcode] at hadds
  have hresolves := resolves_of_operand h.placed hoperand
  exact ⟨⟨d.operand, hadds, hresolves⟩, hadds.forall₂_targets hresolves⟩

end Assembled

end Assembly

section Places

variable {steps : List Step} {body : List Instruction} {size : Nat}

/-- The widths of some but not all instructions lead to the start of one. -/
theorem Tiles.isStart_sum (h : Tiles 0 (body.map Instruction.extent) size) {n : Nat}
    (hn : n < body.length) : isStart body ((body.map Instruction.width).take n).sum = true := by
  rw [isStart_iff]
  exact ⟨body[n], List.getElem_mem hn, h.offset_eq_sum (List.getElem?_eq_getElem hn)⟩

/-- The widths of all instructions lead to the end of the body. -/
theorem Tiles.endOfBody?_eq_sum (h : Tiles 0 (body.map Instruction.extent) size) (hne : body ≠ []) :
    endOfBody? body = some (body.map Instruction.width).sum := by
  have hlast := h.last
  rw [h.stop_eq, Nat.zero_add, List.map_map] at hlast
  rw [endOfBody?, List.getLast?_eq_some_getLast hne] at hlast ⊢
  exact congrArg some hlast

/-- Every target is where a step places a label that a step names. -/
theorem exists_placedAt_of_target
    (h : List.Forall₂ (Step.Yields (PlacedAt steps (body.map Instruction.width)))
      (instructionSteps steps) body) {i : Instruction} (hi : i ∈ body) {t : Offset}
    (ht : t ∈ i.branchTargets) :
    ∃ step ∈ steps, ∃ name ∈ step.uses, PlacedAt steps (body.map Instruction.width) name t := by
  obtain ⟨step, hstep, hyields⟩ := exists_of_forall₂_right h hi
  obtain ⟨name, hname, hplaced⟩ := exists_of_forall₂_right hyields.targets ht
  exact ⟨step, List.mem_of_mem_filter hstep, name, hname, hplaced⟩

end Places

namespace Assembly.Assembled

variable {steps : List Step} {a : Assembly} {body : List Instruction}

/-- What finishing gives is the program with its labels resolved. -/
theorem resolved (h : Assembled steps a) (hfinish : a.finish = .ok body) : Resolved steps body := by
  have hyields := h.yields hfinish
  have htiles := h.finish_tiles hfinish
  refine ⟨hyields, fun k i hi => htiles.offset_eq_sum hi, fun i hi t ht => ?_⟩
  obtain ⟨_, -, name, -, before, after, rfl, -, -, rfl⟩ := exists_placedAt_of_target hyields hi ht
  have hle := length_instructionSteps_le before (.label name :: after)
  rw [hyields.length_eq] at hle
  rcases Nat.lt_or_eq_of_le hle with hlt | heq
  · exact .inl (htiles.isStart_sum hlt)
  · right
    rw [heq, ← List.length_map Instruction.width, List.take_length]
    exact htiles.endOfBody?_eq_sum (List.ne_nil_of_mem hi)

/-- A body has a graph if it has an instruction and one more follows behind every label that is
named. -/
theorem exists_graph (h : Assembled steps a) (hne : instructionSteps steps ≠ [])
    (hbehind : ∀ step ∈ steps, ∀ name ∈ step.uses, ∃ before after,
      steps = before ++ .label name :: after ∧ instructionSteps after ≠ []) :
    ∃ body g, a.finish = .ok body ∧ Graph.build body [] = .ok g := by
  have hplaced : ∀ step ∈ steps, ∀ name ∈ step.uses, Step.label name ∈ steps := by
    intro step hstep name hname
    obtain ⟨before, after, hsplit, -⟩ := hbehind step hstep name hname
    rw [hsplit]
    exact List.mem_append_right _ List.mem_cons_self
  obtain ⟨body, hfinish⟩ := h.exists_finish_iff.mpr hplaced
  have hyields := h.yields hfinish
  have htiles := h.finish_tiles hfinish
  have hinc := htiles.contiguous.increasing
  refine ⟨body, Graph.connect body [], hfinish, (Graph.build_eq_ok_iff hinc [] _).mpr ?_⟩
  refine ⟨?_, fun i hi t ht => ?_, by simp, rfl⟩
  · rintro rfl
    exact hne (List.forall₂_nil_right_iff.mp hyields)
  · obtain ⟨step, hstep, name, hname, hat⟩ := exists_placedAt_of_target hyields hi ht
    obtain ⟨before, after, hsplit, hbefore, hafter, rfl⟩ := hat
    obtain ⟨before', after', hsplit', hmore⟩ := hbehind step hstep name hname
    -- the label is placed once, so that both splits of the program are the same
    obtain ⟨rfl, -, rfl⟩ :=
      (List.append_cons_inj_of_notMem hbefore hafter).mp (hsplit.symm.trans hsplit')
    apply htiles.isStart_sum
    rw [← hyields.length_eq, hsplit, instructionSteps, instructionSteps, List.filter_append,
      List.filter_cons_of_neg (by simp [Step.isInstruction]), List.length_append]
    exact Nat.lt_add_of_pos_right (List.length_pos_iff.mpr hmore)

end Assembly.Assembled

/-- Behind steps none of which failed, finishing resolves the labels of the program. -/
theorem run_resolvesLabels {steps : List Step} {a : Assembly}
    (h : ({} : Assembly).run steps = .ok a) : ResolvesLabels steps a := by
  have hassembled := Assembly.assembled_of_run h
  exact
    { succeeds := hassembled.exists_finish_iff
      resolved := fun _ hfinish => hassembled.resolved hfinish
      undefined := hassembled.finish_eq_error_iff
      built := hassembled.exists_graph }

/-- A program with two labels at one place, a label that is named before it is placed, and a table that
leads both ways. -/
def crossingLabels : List Step :=
  [.branch "br" "out", .label "top", .label "again", .op "ldarg.0", .switch ["out", "again"],
    .branch "br.s" "top", .label "out", .op "ret"]

/-- The body of that program. -/
def crossingBranches : List Instruction :=
  [⟨0, ⟨"br", 0x38, .branch, .pop0, .push0, .inlineBrTarget⟩, .target 21⟩,
    ⟨5, ⟨"ldarg.0", 0x02, .next, .pop0, .push1, .inlineNone⟩, .none⟩,
    ⟨6, ⟨"switch", 0x45, .condBranch, .pop1, .push0, .inlineSwitch⟩, .targets [21, 5]⟩,
    ⟨19, ⟨"br.s", 0x2B, .branch, .pop0, .push0, .shortInlineBrTarget⟩, .target 5⟩,
    ⟨21, ⟨"ret", 0x2A, .ret, .varPop, .push0, .inlineNone⟩, .none⟩]

/-- The labels of that program are resolved. -/
theorem crossingLabels_resolvesLabels :
    ∃ a, ({} : Assembly).run crossingLabels = .ok a ∧ ResolvesLabels crossingLabels a ∧
      a.finish = .ok crossingBranches :=
  ⟨_, rfl, run_resolvesLabels rfl, rfl⟩

end Unstack
