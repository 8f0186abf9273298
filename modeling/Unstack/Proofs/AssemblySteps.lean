import Unstack.Assembly
import Unstack.Outcome

/-!
# What assembly steps add

A step either adds one instruction, whose opcode its mnemonic names and whose operand its values
are, or adds none. Finishing replaces labels by offsets and changes nothing else. The facts here say
so once for each operation; later proofs use them in place of the definitions.
-/

namespace Unstack

namespace Step

/-- The opcode and the operand that a step adds, for each kind of step. -/
def Adds (opcode : Opcode) (operand : DraftOperand) : Step → Prop
  | .label _ => False
  | .op mnemonic =>
    Opcode.ofName? mnemonic = some opcode ∧ opcode.operandType = .inlineNone ∧
      operand = .known .none
  | .int mnemonic value =>
    Opcode.ofName? mnemonic = some opcode ∧ opcode.operandType.isInteger = true ∧
      ((integerRange opcode).1 ≤ value ∧ value ≤ (integerRange opcode).2) ∧
      operand = .known (integerOperand opcode value)
  | .real mnemonic bits =>
    Opcode.ofName? mnemonic = some opcode ∧ opcode.operandType.isReal = true ∧
      operand = .known (if opcode.operandType = .shortInlineR then .float (Decimal.narrow bits)
        else .double bits)
  | .token mnemonic t =>
    Opcode.ofName? mnemonic = some opcode ∧ opcode.operandType.isToken = true ∧
      operand = .known (.token t)
  | .method mnemonic m =>
    Opcode.ofName? mnemonic = some opcode ∧ opcode.operandType.isCallable = true ∧
      operand = .known (.method m)
  | .branch mnemonic name =>
    Opcode.ofName? mnemonic = some opcode ∧ opcode.operandType.isBranch = true ∧
      operand = .label name
  | .switch names =>
    Opcode.ofName? "switch" = some opcode ∧ opcode.operandType = .inlineSwitch ∧
      operand = .labels names

/-- A mnemonic is accepted if it names an opcode whose operand type is. -/
theorem opcode_eq_ok_iff (mnemonic : String) (accepts : OperandType → Bool) (o : Opcode) :
    Step.opcode mnemonic accepts = .ok o ↔
      Opcode.ofName? mnemonic = some o ∧ accepts o.operandType = true := by
  unfold Step.opcode
  cases hname : Opcode.ofName? mnemonic with
  | none => simp
  | some found =>
    by_cases haccepts : accepts found.operandType = true
    · simp only [haccepts, if_true, Except.ok.injEq, Option.some.injEq]
      constructor
      · rintro rfl
        exact ⟨rfl, haccepts⟩
      · exact fun h => h.1
    · simp only [haccepts, if_false, reduceCtorEq, Option.some.injEq, false_iff]
      rintro ⟨rfl, h⟩
      exact haccepts h

/-- An instruction made from the opcode alone is added if the mnemonic is accepted. -/
theorem bind_opcode_eq_ok_iff (mnemonic : String) (accepts : OperandType → Bool)
    (make : Opcode → DraftOperand) (o : Opcode) (d : DraftOperand) :
    (do
      let o ← Step.opcode mnemonic accepts
      return some (o, make o) : Except AssemblyError (Option (Opcode × DraftOperand))) =
        .ok (some (o, d)) ↔
      Opcode.ofName? mnemonic = some o ∧ accepts o.operandType = true ∧ d = make o := by
  rw [Outcome.bind_eq_ok_iff]
  constructor
  · rintro ⟨o', ho, h⟩
    cases h
    obtain ⟨hname, haccepts⟩ := (opcode_eq_ok_iff _ _ _).mp ho
    exact ⟨hname, haccepts, rfl⟩
  · rintro ⟨hname, haccepts, rfl⟩
    exact ⟨o, (opcode_eq_ok_iff _ _ _).mpr ⟨hname, haccepts⟩, rfl⟩

/-- An integer step is accepted if the integer is in the range of the opcode. -/
theorem integer_eq_ok_iff (o : Opcode) (value : Int) (added : Opcode × DraftOperand) :
    integer o value = .ok added ↔
      ((integerRange o).1 ≤ value ∧ value ≤ (integerRange o).2) ∧
        added = (o, .known (integerOperand o value)) := by
  unfold integer
  by_cases hrange : (integerRange o).1 ≤ value ∧ value ≤ (integerRange o).2
  · simp [hrange, eq_comm]
  · simp [hrange]

/-- The instruction of a step is the one that it adds. -/
theorem draft_eq_ok_iff (step : Step) (o : Opcode) (d : DraftOperand) :
    step.draft = .ok (some (o, d)) ↔ step.Adds o d := by
  cases step with
  | label name => simp [draft, Adds]
  | op mnemonic =>
    refine (bind_opcode_eq_ok_iff mnemonic _ (fun _ => .known .none) o d).trans ?_
    rw [beq_iff_eq]
    rfl
  | real mnemonic bits => exact bind_opcode_eq_ok_iff _ _ _ _ _
  | token mnemonic t => exact bind_opcode_eq_ok_iff _ _ (fun _ => .known (.token t)) _ _
  | method mnemonic m => exact bind_opcode_eq_ok_iff _ _ (fun _ => .known (.method m)) _ _
  | branch mnemonic name => exact bind_opcode_eq_ok_iff _ _ (fun _ => .label name) _ _
  | switch names =>
    refine (bind_opcode_eq_ok_iff "switch" _ (fun _ => .labels names) o d).trans ?_
    rw [beq_iff_eq]
    rfl
  | int mnemonic value =>
    rw [draft, Outcome.bind_eq_ok_iff]
    constructor
    · rintro ⟨o', ho, h⟩
      obtain ⟨added, hadded, h⟩ := (Outcome.bind_eq_ok_iff _ _ _).mp h
      obtain ⟨hrange, rfl⟩ := (integer_eq_ok_iff _ _ _).mp hadded
      cases h
      obtain ⟨hname, haccepts⟩ := (opcode_eq_ok_iff _ _ _).mp ho
      exact ⟨hname, haccepts, hrange, rfl⟩
    · rintro ⟨hname, haccepts, hrange, rfl⟩
      refine ⟨o, (opcode_eq_ok_iff _ _ _).mpr ⟨hname, haccepts⟩, ?_⟩
      exact (Outcome.bind_eq_ok_iff _ _ _).mpr
        ⟨_, (integer_eq_ok_iff _ _ _).mpr ⟨hrange, rfl⟩, rfl⟩

/-- Only a switch step adds an opcode with a table. -/
theorem Adds.labels_of_switch {step : Step} {o : Opcode} {d : DraftOperand} (h : step.Adds o d)
    (htype : o.operandType = .inlineSwitch) : ∃ names, d = .labels names := by
  cases step with
  | label name => cases h
  | switch names => exact ⟨names, h.2.2⟩
  | op mnemonic => simp [Adds, htype] at h
  | int mnemonic value => simp [Adds, htype, OperandType.isInteger] at h
  | real mnemonic bits => simp [Adds, htype, OperandType.isReal] at h
  | token mnemonic t => simp [Adds, htype, OperandType.isToken] at h
  | method mnemonic m => simp [Adds, htype, OperandType.isCallable] at h
  | branch mnemonic name => simp [Adds, htype, OperandType.isBranch] at h

/-- A step that adds an instruction places no label. -/
theorem Adds.ne_label {step : Step} {o : Opcode} {d : DraftOperand} (h : step.Adds o d)
    (name : String) : step ≠ .label name := by
  rintro rfl
  cases h

/-- A step that places no label has an instruction or fails. -/
theorem draft_ne_none {step : Step} (h : ∀ name, step ≠ .label name) : step.draft ≠ .ok none := by
  cases step with
  | label name => exact absurd rfl (h name)
  | int mnemonic value =>
    intro hdraft
    obtain ⟨_, _, hnext⟩ := (Outcome.bind_eq_ok_iff _ _ _).mp hdraft
    obtain ⟨_, _, hnone⟩ := (Outcome.bind_eq_ok_iff _ _ _).mp hnext
    cases hnone
  | _ =>
    intro hdraft
    obtain ⟨_, _, hnone⟩ := (Outcome.bind_eq_ok_iff _ _ _).mp hdraft
    cases hnone

end Step

namespace Assembly

/-- What a step makes of an assembly, and the fault if it fails. -/
inductive Applies (a : Assembly) : Step → Assembly → Option AssemblyError → Prop
  /-- A new label is placed. -/
  | placed (name : String) (h : a.labels.lookup name = none) :
      Applies a (.label name) (a.place name).1 none
  /-- A label that was placed before is placed anew, and the step fails. -/
  | moved (name : String) (h : a.labels.lookup name ≠ none) :
      Applies a (.label name) (a.place name).1 (some (.duplicateLabel name))
  /-- An instruction is added. -/
  | added {step : Step} {opcode : Opcode} {operand : DraftOperand} (h : step.Adds opcode operand) :
      Applies a step (a.emit opcode operand) none
  /-- Any other step fails and does nothing. -/
  | refused {step : Step} (e : AssemblyError) (h : ∀ name, step ≠ .label name) :
      Applies a step a (some e)

/-- A label that is placed stands at the current offset, and the others stay. -/
theorem lookup_place (a : Assembly) (name other : String) :
    (a.place name).1.labels.lookup other =
      if other = name then some a.next else a.labels.lookup other := by
  change List.lookup other ((name, a.next) :: a.labels) = _
  rw [List.lookup_cons]
  by_cases hother : other = name
  · simp [hother]
  · rw [beq_false_of_ne hother, if_neg hother]

/-- A step that places no label adds its instruction or fails. -/
theorem apply_of_not_label (a : Assembly) {step : Step} (h : ∀ name, step ≠ .label name) :
    a.apply step = match step.draft with
      | .error e => (a, some e)
      | .ok none => (a, none)
      | .ok (some (opcode, operand)) => (a.emit opcode operand, none) := by
  cases step with
  | label name => exact absurd rfl (h name)
  | _ => rfl

/-- A step does one of these things. -/
theorem applies_of_apply {a next : Assembly} {step : Step} {fault : Option AssemblyError}
    (h : a.apply step = (next, fault)) : Applies a step next fault := by
  by_cases hlabel : ∃ name, step = .label name
  · obtain ⟨name, rfl⟩ := hlabel
    cases hlookup : a.labels.lookup name with
    | none =>
      simp only [apply, place, hlookup, Option.isSome_none, Bool.false_eq_true, if_false] at h
      obtain ⟨rfl, rfl⟩ := Prod.mk.inj h
      exact .placed name hlookup
    | some offset =>
      simp only [apply, place, hlookup, Option.isSome_some, if_true] at h
      obtain ⟨rfl, rfl⟩ := Prod.mk.inj h
      exact .moved name (by simp [hlookup])
  · have hother : ∀ name, step ≠ .label name := not_exists.mp hlabel
    rw [a.apply_of_not_label hother] at h
    cases hdraft : step.draft with
    | error e =>
      rw [hdraft] at h
      obtain ⟨rfl, rfl⟩ := Prod.mk.inj h
      exact .refused e hother
    | ok added =>
      cases added with
      | none => exact absurd hdraft (Step.draft_ne_none hother)
      | some pair =>
        rw [hdraft] at h
        obtain ⟨rfl, rfl⟩ := Prod.mk.inj h
        exact .added ((Step.draft_eq_ok_iff step pair.1 pair.2).mp hdraft)

/-- A step adds the instruction that it stands for, or leaves instructions and offset alone. -/
theorem apply_cases (a : Assembly) (step : Step) :
    ((a.apply step).1.drafts = a.drafts ∧ (a.apply step).1.next = a.next) ∨
      ∃ opcode operand, step.Adds opcode operand ∧ (a.apply step).1 = a.emit opcode operand := by
  rcases happly : a.apply step with ⟨next, fault⟩
  cases applies_of_apply happly with
  | placed | moved | refused => exact .inl ⟨rfl, rfl⟩
  | added hadds => exact .inr ⟨_, _, hadds, rfl⟩

/-- Steps run without a fault if the first one does and the others do behind it. -/
theorem run_cons_eq_ok_iff (a a' : Assembly) (step : Step) (rest : List Step) :
    a.run (step :: rest) = .ok a' ↔ ∃ next, a.apply step = (next, none) ∧ next.run rest = .ok a' := by
  rcases happly : a.apply step with ⟨next, fault⟩
  rw [run, happly]
  cases fault with
  | none => simp
  | some e => simp

/-- Where no step fails, steps are applied one after the other. -/
theorem applyAll_of_run {a a' : Assembly} {steps : List Step} (h : a.run steps = .ok a') :
    a.applyAll steps = a' := by
  induction steps generalizing a with
  | nil =>
    cases h
    rfl
  | cons step rest ih =>
    rw [run] at h
    split at h
    · rename_i next happly
      change (a.apply step).1.applyAll rest = a'
      rw [happly]
      exact ih h
    · cases h

/-- A label becomes its offset. -/
theorem operand_label_eq_ok_iff (a : Assembly) (name : String) (o : Operand) :
    a.operand (.label name) = .ok o ↔
      ∃ target, a.labelOffset name = .ok target ∧ o = .target target := by
  rw [operand, Outcome.bind_eq_ok_iff]
  constructor
  · rintro ⟨target, htarget, h⟩
    cases h
    exact ⟨target, htarget, rfl⟩
  · rintro ⟨target, htarget, rfl⟩
    exact ⟨target, htarget, rfl⟩

/-- The labels of a table become their offsets. -/
theorem operand_labels_eq_ok_iff (a : Assembly) (names : List String) (o : Operand) :
    a.operand (.labels names) = .ok o ↔
      ∃ targets, names.mapM a.labelOffset = .ok targets ∧ o = .targets targets := by
  rw [operand, Outcome.bind_eq_ok_iff]
  constructor
  · rintro ⟨targets, htargets, h⟩
    cases h
    exact ⟨targets, htargets, rfl⟩
  · rintro ⟨targets, htargets, rfl⟩
    exact ⟨targets, htargets, rfl⟩

/-- Finishing an instruction resolves its operand. -/
theorem instruction_eq_ok_iff (a : Assembly) (d : Draft) (i : Instruction) :
    a.instruction d = .ok i ↔
      a.operand d.operand = .ok i.operand ∧ i.offset = d.offset ∧ i.opcode = d.opcode := by
  rw [instruction, Outcome.bind_eq_ok_iff]
  constructor
  · rintro ⟨o, ho, h⟩
    cases h
    exact ⟨ho, rfl, rfl⟩
  · rintro ⟨ho, hoffset, hopcode⟩
    refine ⟨i.operand, ho, ?_⟩
    rw [← hoffset, ← hopcode]
    rfl

/-- Every instruction of a finished body was added before. -/
theorem exists_draft_of_finish {a : Assembly} {body : List Instruction} (h : a.finish = .ok body)
    {i : Instruction} (hi : i ∈ body) : ∃ d ∈ a.drafts, a.instruction d = .ok i := by
  have hsame := (Outcome.mapM_eq_ok_iff _ _ _).mp h
  have hmem : .ok i ∈ a.drafts.map a.instruction := hsame ▸ List.mem_map_of_mem hi
  exact List.mem_map.mp hmem

end Assembly

end Unstack
