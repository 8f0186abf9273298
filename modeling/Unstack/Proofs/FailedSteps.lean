import Unstack.Proofs.Finishing

/-!
# Failed steps leave no trace

A step that fails says why, and the steps behind it still apply. A step with a mnemonic or an operand
that does not fit is refused before anything is changed, so that all goes on as if it had not been
there. A label that is placed again fails too, but it is moved to the current offset: then offsets,
instructions, the other labels, the faults of later steps and those of finishing are still what they
would have been, and the finished body is, unless a branch names that label.
-/

namespace Unstack.Assembly

/-- What steps report one after the other: the offset come to, and the fault of a step that fails. -/
def reports (a : Assembly) : List Step → List (Offset × Option AssemblyError)
  | [] => []
  | step :: rest => ((a.apply step).1.next, (a.apply step).2) :: (a.apply step).1.reports rest

/-- A step leaves no trace in an assembly but the place of a label that it moves. -/
structure LeavesNoTrace (a : Assembly) (step : Step) : Prop where
  next : (a.apply step).1.next = a.next
  drafts : (a.apply step).1.drafts = a.drafts
  labels : ∀ name, step ≠ .label name →
    (a.apply step).1.labels.lookup name = a.labels.lookup name
  moved : ∀ name, step = .label name → (a.apply step).1.labels.lookup name = some a.next
  /-- Later steps report what they would have reported, -/
  reports : ∀ later, (a.apply step).1.reports later = a.reports later
  /-- finishing fails as it would have failed, -/
  faults : ∀ later e, ((a.apply step).1.applyAll later).finish = .error e ↔
    (a.applyAll later).finish = .error e
  /-- and it gives the same body, if no branch names a label that the step moves. -/
  finish : ∀ later,
    (∀ name, step = .label name → ∀ d ∈ (a.applyAll later).drafts, name ∉ d.operand.names) →
      ((a.apply step).1.applyAll later).finish = (a.applyAll later).finish

/-- Two assemblies with the same instructions and the same labels, of which only some may stand
elsewhere. -/
structure Alike (moved : String → Prop) (a b : Assembly) : Prop where
  next : b.next = a.next
  drafts : b.drafts = a.drafts
  lacks : ∀ name, b.lacks name = a.lacks name
  places : ∀ name, ¬moved name → b.labels.lookup name = a.labels.lookup name

section Alike

variable {moved : String → Prop} {a b : Assembly}

/-- An assembly is like itself. -/
theorem alike_refl (moved : String → Prop) (a : Assembly) : Alike moved a a :=
  ⟨rfl, rfl, fun _ => rfl, fun _ _ => rfl⟩

/-- A label that was placed before is only moved. -/
theorem alike_place {name : String} (hplaced : a.labels.lookup name ≠ none) (hmoved : moved name) :
    Alike moved a (a.place name).1 where
  next := rfl
  drafts := rfl
  lacks other := by
    rw [Assembly.lacks, Assembly.lacks, lookup_place]
    by_cases hother : other = name
    · rw [if_pos hother, hother]
      simpa [Option.isSome_iff_ne_none] using hplaced
    · rw [if_neg hother]
  places other hother := by
    have hne : other ≠ name := by
      rintro rfl
      exact hother hmoved
    rw [lookup_place, if_neg hne]

/-- Alike assemblies report alike on a label and are alike behind it. -/
theorem Alike.place (h : Alike moved a b) (name : String) :
    (b.place name).2 = (a.place name).2 ∧ Alike moved (a.place name).1 (b.place name).1 := by
  have hsome : (b.labels.lookup name).isSome = (a.labels.lookup name).isSome := by
    rw [← Option.not_isNone, ← Option.not_isNone]
    exact congrArg not (h.lacks name)
  refine ⟨by rw [Assembly.place, Assembly.place, hsome], h.next, h.drafts, fun other => ?_,
    fun other hother => ?_⟩
  · rw [Assembly.lacks, Assembly.lacks, lookup_place, lookup_place, h.next]
    by_cases hname : other = name
    · rw [if_pos hname, if_pos hname]
    · rw [if_neg hname, if_neg hname]
      exact h.lacks other
  · rw [lookup_place, lookup_place, h.next, h.places other hother]

/-- Alike assemblies are alike behind an instruction. -/
theorem Alike.emit (h : Alike moved a b) (opcode : Opcode) (operand : DraftOperand) :
    Alike moved (a.emit opcode operand) (b.emit opcode operand) where
  next := by rw [Assembly.emit, Assembly.emit, h.next]
  drafts := by rw [Assembly.emit, Assembly.emit, h.drafts, h.next]
  lacks := h.lacks
  places := h.places

/-- Alike assemblies report alike on a step and are alike behind it. -/
theorem Alike.apply (h : Alike moved a b) (step : Step) :
    (b.apply step).2 = (a.apply step).2 ∧ Alike moved (a.apply step).1 (b.apply step).1 := by
  by_cases hlabel : ∃ name, step = .label name
  · obtain ⟨name, rfl⟩ := hlabel
    exact h.place name
  · have hother : ∀ name, step ≠ .label name := not_exists.mp hlabel
    rw [a.apply_of_not_label hother, b.apply_of_not_label hother]
    cases step.draft with
    | error e => exact ⟨rfl, h⟩
    | ok added =>
      cases added with
      | none => exact ⟨rfl, h⟩
      | some pair => exact ⟨rfl, h.emit pair.1 pair.2⟩

/-- Alike assemblies report alike on steps. -/
theorem Alike.reports_eq (h : Alike moved a b) (later : List Step) :
    b.reports later = a.reports later := by
  induction later generalizing a b with
  | nil => rfl
  | cons step rest ih =>
    obtain ⟨hfault, hnext⟩ := h.apply step
    rw [reports, reports, hfault, hnext.next, ih hnext]

/-- Alike assemblies are alike behind steps. -/
theorem Alike.applyAll (h : Alike moved a b) (later : List Step) :
    Alike moved (a.applyAll later) (b.applyAll later) := by
  induction later generalizing a b with
  | nil => exact h
  | cons step rest ih => exact ih (h.apply step).2

/-- Finishing fails alike in alike assemblies. -/
theorem Alike.fault?_finish (h : Alike moved a b) :
    Outcome.fault? b.finish = Outcome.fault? a.finish := by
  have hlacks : b.lacks = a.lacks := funext h.lacks
  rw [Assembly.fault?_finish, Assembly.fault?_finish, h.drafts, hlacks]

end Alike

/-- A step that fails leaves an assembly as it was, or moves a label. -/
theorem alike_of_fault {a : Assembly} {step : Step} (h : (a.apply step).2 ≠ none) :
    Alike (fun name => step = .label name) a (a.apply step).1 := by
  rcases happly : a.apply step with ⟨next, fault⟩
  rw [happly] at h
  cases applies_of_apply happly with
  | placed | added => exact absurd rfl h
  | moved name hplaced => exact alike_place hplaced rfl
  | refused => exact alike_refl _ a

/-- Whatever the assembly, a step that fails leaves no trace in it but the place of a label that it
moves. -/
theorem failed_leavesNoTrace (a : Assembly) (step : Step) (h : (a.apply step).2 ≠ none) :
    LeavesNoTrace a step := by
  have halike := alike_of_fault h
  refine
    { next := halike.next
      drafts := halike.drafts
      labels := halike.places
      moved := fun name hstep => ?_
      reports := halike.reports_eq
      faults := fun later e => ?_
      finish := fun later hunnamed => ?_ }
  · rw [hstep]
    exact (a.lookup_place name name).trans (if_pos rfl)
  · rw [← Outcome.fault?_eq_some_iff, (halike.applyAll later).fault?_finish,
      Outcome.fault?_eq_some_iff]
  · have hlater := halike.applyAll later
    apply finish_congr hlater.drafts
    intro d hd name hname
    exact hlater.places name fun hstep => hunnamed name hstep d hd hname

/-- An integer that does not fit is refused without a trace, between a label and the branch to it. -/
theorem refusedInteger_leavesNoTrace :
    ((applyAll {} [.label "top", .op "ldarg.0"]).apply (.int "ldc.i4.s" 200)).2 =
        some (.operandOutOfRange "ldc.i4.s" 200) ∧
      LeavesNoTrace (applyAll {} [.label "top", .op "ldarg.0"]) (.int "ldc.i4.s" 200) := by
  have hfault : ((applyAll {} [.label "top", .op "ldarg.0"]).apply (.int "ldc.i4.s" 200)).2 =
      some (.operandOutOfRange "ldc.i4.s" 200) := by decide +kernel
  refine ⟨hfault, failed_leavesNoTrace _ _ ?_⟩
  rw [hfault]
  exact Option.some_ne_none _

/-- A label that is placed again fails and is moved, so that a branch to it leads elsewhere than it
would have led without the step. -/
theorem duplicateLabel_moves :
    ¬∀ (before : List Step) (step : Step) (after : List Step),
      ((applyAll {} before).apply step).2 ≠ none →
        (((applyAll {} before).apply step).1.applyAll after).finish =
          ((applyAll {} before).applyAll after).finish := by
  intro h
  have hsame := h [.label "x", .op "nop"] (.label "x") [.branch "br" "x"] (by decide)
  revert hsame
  decide +kernel

end Unstack.Assembly
