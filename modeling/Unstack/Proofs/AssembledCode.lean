import Unstack.Proofs.Encodable

/-!
# Assembled code is decoded as it was assembled

The operand that a step writes is in the range of its type, but for displacements and the length of
tables, which the assembler does not look at. Where these fit, and the resolver knows the methods
that steps name, every assembled instruction is encodable, and decoding the bytes of an assembled
body gives that body.
-/

namespace Unstack

/-- The displacements of an instruction fit the entries of its operand. -/
structure Instruction.InReach (i : Instruction) : Prop where
  short : i.opcode.operandType = .shortInlineBrTarget →
    ∀ t ∈ i.branchTargets, -128 ≤ i.displacement t ∧ i.displacement t ≤ 127
  long : i.opcode.operandType = .inlineBrTarget ∨ i.opcode.operandType = .inlineSwitch →
    ∀ t ∈ i.branchTargets, -2147483648 ≤ i.displacement t ∧ i.displacement t ≤ 2147483647

instance (i : Instruction) : Decidable i.InReach :=
  decidable_of_iff (_ ∧ _) ⟨fun h => ⟨h.1, h.2⟩, fun h => ⟨h.short, h.long⟩⟩

/-- The resolver gives the methods that steps name, and none for a token that a step leaves
unresolved where a method could stand; no step leaves one unresolved where a method must stand. -/
structure Resolver.Serves (resolve : Resolver) (steps : List Step) : Prop where
  methods : ∀ mnemonic method, Step.method mnemonic method ∈ steps →
    resolve method.token = some method
  tokens : ∀ mnemonic token opcode, Step.token mnemonic token ∈ steps →
    Opcode.ofName? mnemonic = some opcode → opcode.operandType.isCallable = true →
      resolve token = none ∧ opcode.pop ≠ .varPop

namespace Instruction

variable {resolve : Resolver} {i : Instruction}

/-- An integer in the range of its opcode is encodable. -/
theorem encodable_of_integer {value : Int} (htype : i.opcode.operandType.isInteger = true)
    (hrange : (Step.integerRange i.opcode).1 ≤ value ∧ value ≤ (Step.integerRange i.opcode).2)
    (ho : i.operand = Step.integerOperand i.opcode value) : i.Encodable resolve := by
  unfold Encodable
  unfold Step.integerRange at hrange
  unfold Step.integerOperand at ho
  cases hkind : i.opcode.operandType with
  | shortInlineI =>
    simp only [hkind] at hrange ho ⊢
    refine ⟨value, ho, ?_⟩
    by_cases hsigned : i.opcode.hasSignedByte = true
    · simp only [hsigned, if_true, Bytes.Covers, Nat.pow_eq] at hrange ⊢
      omega
    · simp only [hsigned, Bool.false_eq_true, if_false] at hrange ⊢
      omega
  | inlineI | inlineI8 =>
    simp only [hkind] at hrange ho ⊢
    refine ⟨value, ho, ?_⟩
    simp only [Bytes.Covers, Nat.pow_eq]
    omega
  | shortInlineVar | shortInlineArg | inlineVar | inlineArg =>
    simp only [hkind] at hrange ho ⊢
    exact ⟨value.toNat, ho, by omega⟩
  | _ => simp [hkind, OperandType.isInteger] at htype

/-- A real number is encodable at the width of its opcode. -/
theorem encodable_of_real {bits : UInt64} (htype : i.opcode.operandType.isReal = true)
    (ho : i.operand = if i.opcode.operandType = .shortInlineR then .float (Decimal.narrow bits)
      else .double bits) : i.Encodable resolve := by
  unfold Encodable
  cases hkind : i.opcode.operandType with
  | shortInlineR => exact ⟨_, by simpa [hkind] using ho⟩
  | inlineR => exact ⟨_, by simpa [hkind] using ho⟩
  | _ => simp [hkind, OperandType.isReal] at htype

/-- A token is encodable if it resolves to no method where one could stand. -/
theorem encodable_of_token {token : Token} (htype : i.opcode.operandType.isToken = true)
    (ho : i.operand = .token token)
    (hnone : i.opcode.operandType.isCallable = true →
      resolve token = none ∧ i.opcode.pop ≠ .varPop) : i.Encodable resolve := by
  unfold Encodable
  cases hkind : i.opcode.operandType with
  | inlineMethod | inlineSig =>
    simp only [hkind, OperandType.isCallable, true_imp_iff] at hnone
    exact .inr ⟨token, ho, hnone⟩
  | inlineField | inlineType | inlineTok | inlineString => exact ⟨token, ho⟩
  | _ => simp [hkind, OperandType.isToken] at htype

/-- A method is encodable if its token resolves to it. -/
theorem encodable_of_method {method : MethodRef} (htype : i.opcode.operandType.isCallable = true)
    (ho : i.operand = .method method) (hmethod : resolve method.token = some method) :
    i.Encodable resolve := by
  unfold Encodable
  cases hkind : i.opcode.operandType with
  | inlineMethod | inlineSig => exact .inl ⟨method, ho, hmethod⟩
  | _ => simp [hkind, OperandType.isCallable] at htype

/-- A branch in reach is encodable. -/
theorem encodable_of_branch {target : Offset} (htype : i.opcode.operandType.isBranch = true)
    (ho : i.operand = .target target) (hreach : i.InReach) : i.Encodable resolve := by
  have htarget : target ∈ i.branchTargets := by simp [branchTargets, ho, Operand.targetList]
  unfold Encodable
  cases hkind : i.opcode.operandType with
  | shortInlineBrTarget =>
    have hrange := hreach.short hkind target htarget
    refine ⟨target, ho, ?_⟩
    simp only [Bytes.Covers, Nat.pow_eq]
    omega
  | inlineBrTarget =>
    have hrange := hreach.long (.inl hkind) target htarget
    refine ⟨target, ho, ?_⟩
    simp only [Bytes.Covers, Nat.pow_eq]
    omega
  | _ => simp [hkind, OperandType.isBranch] at htype

/-- A table in reach is encodable if its length fits the count. -/
theorem encodable_of_switch {targets : List Offset} (htype : i.opcode.operandType = .inlineSwitch)
    (ho : i.operand = .targets targets) (hlength : targets.length < 4294967296)
    (hreach : i.InReach) : i.Encodable resolve := by
  simp only [Encodable, htype]
  refine ⟨targets, ho, hlength, fun target htarget => ?_⟩
  have hrange := hreach.long (.inr htype) target (by simpa [branchTargets, ho, Operand.targetList])
  simp only [Bytes.Covers, Nat.pow_eq]
  omega

end Instruction

/-- The instruction that a step adds is encodable once its labels are resolved. -/
theorem Step.Adds.encodable {resolve : Resolver} {steps : List Step} {step : Step}
    {d : DraftOperand} {a : Assembly} {i : Instruction} (hserves : resolve.Serves steps)
    (htables : ∀ names, Step.switch names ∈ steps → names.length < 4294967296)
    (hstep : step ∈ steps) (hadds : step.Adds i.opcode d) (ho : a.operand d = .ok i.operand)
    (hreach : i.InReach) : i.Encodable resolve := by
  cases step with
  | label name => cases hadds
  | op mnemonic =>
    obtain ⟨-, htype, rfl⟩ := hadds
    simpa [Instruction.Encodable, htype] using (Except.ok.inj ho).symm
  | int mnemonic value =>
    obtain ⟨-, htype, hrange, rfl⟩ := hadds
    exact Instruction.encodable_of_integer htype hrange (Except.ok.inj ho).symm
  | real mnemonic bits =>
    obtain ⟨-, htype, rfl⟩ := hadds
    exact Instruction.encodable_of_real htype (Except.ok.inj ho).symm
  | token mnemonic t =>
    obtain ⟨hname, htype, rfl⟩ := hadds
    exact Instruction.encodable_of_token htype (Except.ok.inj ho).symm
      (hserves.tokens mnemonic t i.opcode hstep hname)
  | method mnemonic m =>
    obtain ⟨-, htype, rfl⟩ := hadds
    exact Instruction.encodable_of_method htype (Except.ok.inj ho).symm
      (hserves.methods mnemonic m hstep)
  | branch mnemonic name =>
    obtain ⟨-, htype, rfl⟩ := hadds
    obtain ⟨target, -, ho⟩ := (Assembly.operand_label_eq_ok_iff _ _ _).mp ho
    exact Instruction.encodable_of_branch htype ho hreach
  | switch names =>
    obtain ⟨-, htype, rfl⟩ := hadds
    obtain ⟨targets, htargets, ho⟩ := (Assembly.operand_labels_eq_ok_iff _ _ _).mp ho
    have hlength := Outcome.length_of_mapM htargets
    exact Instruction.encodable_of_switch htype ho (hlength ▸ htables names hstep) hreach

/-- The opcode that a step adds is in the table. -/
theorem Step.Adds.mem_table {step : Step} {o : Opcode} {d : DraftOperand} (h : step.Adds o d) :
    o ∈ Opcode.table := by
  cases step with
  | label name => cases h
  | _ => exact List.mem_of_find?_eq_some h.1

/-- An assembled body is decoded from its bytes, if its displacements and tables fit and the
resolver serves the steps. -/
theorem decodeBody_assemble {resolve : Resolver} {steps : List Step} {body : List Instruction}
    (h : assemble steps = .ok body) (hreach : ∀ i ∈ body, i.InReach)
    (htables : ∀ names, Step.switch names ∈ steps → names.length < 4294967296)
    (hserves : resolve.Serves steps) : decodeBody resolve (encodeBody body) = .ok body := by
  obtain ⟨a, hrun, hfinish⟩ := (Outcome.bind_eq_ok_iff _ _ _).mp h
  have hmade : a.MadeBy steps := Assembly.applyAll_of_run hrun ▸ Assembly.madeBy_applyAll steps
  refine decodeBody_of_encodable (hmade.finish_tiles hfinish) fun i hi => ?_
  obtain ⟨d, hd, hinstruction⟩ := Assembly.exists_draft_of_finish hfinish hi
  obtain ⟨step, hstep, hadds⟩ := hmade.origin d hd
  obtain ⟨ho, -, hopcode⟩ := (Assembly.instruction_eq_ok_iff a d i).mp hinstruction
  rw [← hopcode] at hadds
  exact ⟨hadds.mem_table, hadds.encodable hserves htables hstep ho (hreach i hi)⟩

/-- Steps to the table loop. -/
def tableLoopSteps : List Step :=
  [.label "top", .op "ldarg.0", .int "ldc.i4.s" (-1), .op "cgt", .switch ["top", "out"],
    .method "call" tick, .branch "br.s" "top", .label "out", .op "ret"]

/-- A resolver of the method that is called serves the steps. -/
theorem resolveTick_serves : resolveTick.Serves tableLoopSteps where
  methods := by
    intro mnemonic method h
    obtain ⟨-, rfl⟩ : mnemonic = "call" ∧ method = tick := by simpa [tableLoopSteps] using h
    rfl
  tokens := by simp [tableLoopSteps]

/-- The table loop is decoded as it was assembled. -/
theorem decodeBody_assemble_tableLoop :
    assemble tableLoopSteps = .ok tableLoop ∧ (∀ i ∈ tableLoop, i.InReach) ∧
      (∀ names, Step.switch names ∈ tableLoopSteps → names.length < 4294967296) ∧
      resolveTick.Serves tableLoopSteps ∧
      decodeBody resolveTick (encodeBody tableLoop) = .ok tableLoop := by
  have hreach : ∀ i ∈ tableLoop, i.InReach := by decide
  have htables : ∀ names, Step.switch names ∈ tableLoopSteps → names.length < 4294967296 := by
    intro names h
    obtain rfl : names = ["top", "out"] := by simpa [tableLoopSteps] using h
    decide
  exact ⟨rfl, hreach, htables, resolveTick_serves,
    decodeBody_assemble rfl hreach htables resolveTick_serves⟩

end Unstack
