import Unstack.Proofs.AssemblySteps
import Mathlib.Data.List.Forall2

/-!
# Finishing an assembly

Finishing goes through the instructions in order and replaces labels by offsets. It fails in one way
only, at the first label that is named and not placed. Where it succeeds, every instruction is the one
that was added, with offsets at which its labels stand. Nothing else of an assembly has a part in it, so
that assemblies which differ only in labels that are not named are finished alike.
-/

namespace Unstack

/-- What relates items to sources relates the results of a step on each item to the sources. -/
theorem Outcome.forall₂_of_mapM {ε α β γ : Type} {R : γ → α → Prop} {S : γ → β → Prop}
    {step : α → Except ε β} {sources : List γ} {items : List α} {results : List β}
    (h : List.Forall₂ R sources items) (hok : items.mapM step = .ok results)
    (hstep : ∀ c a b, R c a → step a = .ok b → S c b) : List.Forall₂ S sources results := by
  rw [mapM_eq_ok_iff] at hok
  induction h generalizing results with
  | nil =>
    obtain rfl : results = [] := by simpa using hok.symm
    exact .nil
  | cons hfirst hrest ih =>
    cases results with
    | nil => simp at hok
    | cons b results =>
      obtain ⟨hb, hresults⟩ := List.cons.inj hok
      exact .cons (hstep _ _ _ hfirst hb) (ih hresults)

/-- Everything on the right is related to something on the left. -/
theorem exists_of_forall₂_right {α β : Type} {R : α → β → Prop} {sources : List α} {results : List β}
    (h : List.Forall₂ R sources results) {b : β} (hb : b ∈ results) : ∃ a ∈ sources, R a b := by
  induction h with
  | nil => simp at hb
  | cons hfirst hrest ih =>
    rcases List.mem_cons.mp hb with rfl | hlater
    · exact ⟨_, List.mem_cons_self, hfirst⟩
    · obtain ⟨a, ha, hab⟩ := ih hlater
      exact ⟨a, List.mem_cons_of_mem _ ha, hab⟩

/-- The labels that a step names, in table order. -/
def Step.uses : Step → List String
  | .branch _ name => [name]
  | .switch names => names
  | _ => []

/-- The labels that an operand names. -/
def DraftOperand.names : DraftOperand → List String
  | .known _ => []
  | .label name => [name]
  | .labels names => names

/-- An operand with offsets in place of its labels. -/
inductive DraftOperand.Resolves (stands : String → Offset → Prop) : DraftOperand → Operand → Prop
  | known (operand : Operand) : Resolves stands (.known operand) operand
  | label {name : String} {target : Offset} (h : stands name target) :
      Resolves stands (.label name) (.target target)
  | labels {names : List String} {targets : List Offset} (h : List.Forall₂ stands names targets) :
      Resolves stands (.labels names) (.targets targets)

/-- A step names the labels of the operand that it adds. -/
theorem Step.Adds.names_eq {step : Step} {opcode : Opcode} {operand : DraftOperand}
    (h : step.Adds opcode operand) : operand.names = step.uses := by
  cases step with
  | label name => cases h
  | int mnemonic value =>
    obtain ⟨-, -, -, rfl⟩ := h
    rfl
  | _ =>
    obtain ⟨-, -, rfl⟩ := h
    rfl

/-- An operand that a step gives in full has no targets. -/
theorem Step.Adds.targetList_known {step : Step} {opcode : Opcode} {o : Operand}
    (h : step.Adds opcode (.known o)) : o.targetList = [] := by
  cases step with
  | label name => cases h
  | int mnemonic value =>
    obtain ⟨-, -, -, ho⟩ := h
    rw [DraftOperand.known.inj ho, integerOperand]
    split <;> rfl
  | real mnemonic bits =>
    obtain ⟨-, -, ho⟩ := h
    rw [DraftOperand.known.inj ho]
    split <;> rfl
  | branch mnemonic name =>
    obtain ⟨-, -, ho⟩ := h
    cases ho
  | switch names =>
    obtain ⟨-, -, ho⟩ := h
    cases ho
  | _ =>
    obtain ⟨-, -, ho⟩ := h
    rw [DraftOperand.known.inj ho]
    rfl

/-- A step names the targets that its operand is resolved to. -/
theorem Step.Adds.forall₂_targets {stands : String → Offset → Prop} {step : Step} {opcode : Opcode}
    {d : DraftOperand} {o : Operand} (h : step.Adds opcode d) (hresolves : d.Resolves stands o) :
    List.Forall₂ stands step.uses o.targetList := by
  cases hresolves with
  | label hlabel =>
    rw [← h.names_eq]
    exact .cons hlabel .nil
  | labels hlabels =>
    rw [← h.names_eq]
    exact hlabels
  | known =>
    have htargets : o.targetList = [] := h.targetList_known
    rw [← h.names_eq, htargets]
    exact .nil

namespace Assembly

/-- The label is not placed. -/
def lacks (a : Assembly) (name : String) : Bool := (a.labels.lookup name).isNone

/-- A label is resolved to the offset at which it stands. -/
theorem labelOffset_eq_ok_iff (a : Assembly) (name : String) (offset : Offset) :
    a.labelOffset name = .ok offset ↔ a.labels.lookup name = some offset := by
  unfold labelOffset
  cases a.labels.lookup name with
  | none => simp
  | some place => simp

/-- Resolving a label fails if it is not placed. -/
theorem fault?_labelOffset (a : Assembly) (name : String) :
    Outcome.fault? (a.labelOffset name) =
      if a.lacks name then some (.undefinedLabel name) else none := by
  unfold labelOffset lacks
  cases a.labels.lookup name with
  | none => rfl
  | some offset => rfl

/-- Resolving labels fails at the first that is not placed. -/
theorem fault?_mapM_labelOffset (a : Assembly) (names : List String) :
    Outcome.fault? (names.mapM a.labelOffset) = (names.find? a.lacks).map .undefinedLabel := by
  rw [Outcome.fault?_mapM]
  induction names with
  | nil => rfl
  | cons name rest ih =>
    rw [List.findSome?_cons, List.find?_cons, fault?_labelOffset, ih]
    cases a.lacks name with
    | true => rfl
    | false => rfl

/-- Resolving an operand fails at the first of its labels that is not placed. -/
theorem fault?_operand (a : Assembly) (d : DraftOperand) :
    Outcome.fault? (a.operand d) = (d.names.find? a.lacks).map .undefinedLabel := by
  cases d with
  | known operand => rfl
  | label name =>
    have hsingle := a.fault?_mapM_labelOffset [name]
    rw [Outcome.fault?_mapM, List.findSome?_singleton] at hsingle
    exact (Outcome.fault?_bind_pure (a.labelOffset name) Operand.target).trans hsingle
  | labels names =>
    exact (Outcome.fault?_bind_pure (names.mapM a.labelOffset) Operand.targets).trans
      (a.fault?_mapM_labelOffset names)

/-- Finishing fails at the first label that is not placed, in the order of the instructions and then of
their labels. -/
theorem fault?_finish (a : Assembly) :
    Outcome.fault? a.finish =
      a.drafts.findSome? fun d => (d.operand.names.find? a.lacks).map .undefinedLabel := by
  rw [finish, Outcome.fault?_mapM]
  congr 1
  funext d
  rw [← a.fault?_operand d.operand]
  exact Outcome.fault?_bind_pure (a.operand d.operand) (Instruction.mk d.offset d.opcode)

/-- Resolving an operand gives offsets at which its labels stand. -/
theorem resolves_of_operand {a : Assembly} {stands : String → Offset → Prop}
    (hstands : ∀ name offset, a.labels.lookup name = some offset → stands name offset)
    {d : DraftOperand} {o : Operand} (h : a.operand d = .ok o) : d.Resolves stands o := by
  have hlabel : ∀ name offset, a.labelOffset name = .ok offset → stands name offset := by
    intro name offset hoffset
    exact hstands name offset ((labelOffset_eq_ok_iff a name offset).mp hoffset)
  cases d with
  | known operand =>
    obtain rfl := Except.ok.inj h
    exact .known operand
  | label name =>
    obtain ⟨target, htarget, rfl⟩ := (operand_label_eq_ok_iff a name o).mp h
    exact .label (hlabel name target htarget)
  | labels names =>
    obtain ⟨targets, htargets, rfl⟩ := (operand_labels_eq_ok_iff a names o).mp h
    have hsame : List.Forall₂ Eq names names := List.forall₂_refl names
    refine .labels (Outcome.forall₂_of_mapM hsame htargets ?_)
    rintro name _ target rfl
    exact hlabel name target

/-- An operand depends only on the labels that it names. -/
theorem operand_congr {a b : Assembly} {d : DraftOperand}
    (h : ∀ name ∈ d.names, b.labels.lookup name = a.labels.lookup name) :
    b.operand d = a.operand d := by
  have hoffset : ∀ name ∈ d.names, b.labelOffset name = a.labelOffset name := by
    intro name hname
    rw [labelOffset, labelOffset, h name hname]
  cases d with
  | known operand => rfl
  | label name => rw [operand, operand, hoffset name (List.mem_singleton_self name)]
  | labels names =>
    have hoffsets : names.mapM b.labelOffset = names.mapM a.labelOffset := Outcome.mapM_congr hoffset
    rw [operand, operand, hoffsets]

/-- A finished body depends only on the instructions and the labels that they name. -/
theorem finish_congr {a b : Assembly} (hdrafts : b.drafts = a.drafts)
    (h : ∀ d ∈ a.drafts, ∀ name ∈ d.operand.names, b.labels.lookup name = a.labels.lookup name) :
    b.finish = a.finish := by
  rw [finish, finish, hdrafts]
  apply Outcome.mapM_congr
  intro d hd
  rw [instruction, instruction, operand_congr (h d hd)]

end Assembly

end Unstack
