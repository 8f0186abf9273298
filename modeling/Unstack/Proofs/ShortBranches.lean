import Unstack.Encoding.Encode
import Unstack.Proofs.LabelTable

/-!
# How far short branches lead

The operand of a short branch is one byte, so that its displacement has to lie between -128 and 127.
The displacement is known only when the body is finished, and finishing does not look at it: it fails
for a label that is not placed and for nothing else. Every label stands at a place of the body, also if
steps failed or placed it again. So a short branch can be encoded exactly if no more than 127 bytes lie
between it and a label behind it, and no more than 128 from a label in front of it to its own end.
-/

namespace Unstack

/-- The number of bytes of the instructions from number `m` up to number `n`, without the latter. -/
def bytesBetween (body : List Instruction) (m n : Nat) : Nat :=
  (((body.map Instruction.width).take n).drop m).sum

/-- What becomes of the short branches of a program when it is finished. -/
structure ShortBranches (steps : List Step) : Prop where
  /-- A label that a step names and no step places is the only fault. -/
  faults : ∀ e, (Assembly.applyAll {} steps).finish = .error e → ∃ name, e = .undefinedLabel name ∧
    (∃ step ∈ steps, name ∈ step.uses) ∧ Step.label name ∉ steps
  /-- A short branch leads to a place of the body, and its displacement fits exactly if there are not
  too many bytes on the way. -/
  reach : ∀ body, (Assembly.applyAll {} steps).finish = .ok body → ∀ k i, body[k]? = some i →
    i.opcode.operandType = .shortInlineBrTarget → ∃ n target, n ≤ body.length ∧
      i.operand = .target target ∧ target = bytesBetween body 0 n ∧
      (-128 ≤ i.displacement target ∧ i.displacement target ≤ 127 ↔
        bytesBetween body (k + 1) n ≤ 127 ∧ bytesBetween body n (k + 1) ≤ 128)

/-- Only a branch step adds a short branch. -/
theorem Step.Adds.label_of_short {step : Step} {o : Opcode} {d : DraftOperand} (h : step.Adds o d)
    (htype : o.operandType = .shortInlineBrTarget) : ∃ name, d = .label name := by
  cases step with
  | label name => cases h
  | branch mnemonic name => exact ⟨name, h.2.2⟩
  | op mnemonic => simp [Adds, htype] at h
  | int mnemonic value => simp [Adds, htype, OperandType.isInteger] at h
  | real mnemonic bits => simp [Adds, htype, OperandType.isReal] at h
  | token mnemonic t => simp [Adds, htype, OperandType.isToken] at h
  | method mnemonic m => simp [Adds, htype, OperandType.isCallable] at h
  | switch names => simp [Adds, htype] at h

/-- The bytes up to a place are those up to an earlier place and those between the two. -/
theorem sum_take_eq_add (widths : List Nat) {m n : Nat} (h : m ≤ n) :
    (widths.take n).sum = (widths.take m).sum + ((widths.take n).drop m).sum := by
  rw [← List.sum_append, ← Nat.min_eq_left h, ← List.take_take, Nat.min_eq_left h,
    List.take_append_drop]

/-- Nothing is between a place and an earlier one. -/
theorem bytesBetween_of_le (body : List Instruction) {m n : Nat} (h : n ≤ m) :
    bytesBetween body m n = 0 := by
  rw [bytesBetween, List.drop_eq_nil_of_le]
  · rfl
  · exact Nat.le_trans (List.length_take_le n _) h

/-- A displacement counts the bytes on the way, with a sign. -/
theorem displacement_eq {body : List Instruction} {size : Nat}
    (h : Tiles 0 (body.map Instruction.extent) size) {k n : Nat} {i : Instruction}
    (hi : body[k]? = some i) :
    i.displacement (bytesBetween body 0 n) =
      (bytesBetween body (k + 1) n : Int) - bytesBetween body n (k + 1) := by
  have hnext : i.nextOffset = ((body.map Instruction.width).take (k + 1)).sum := by
    rw [List.take_add_one, List.sum_append, ← h.offset_eq_sum hi, List.getElem?_map, hi]
    simp [Instruction.nextOffset]
  rw [Instruction.displacement, hnext]
  rcases Nat.le_total (k + 1) n with hle | hle
  · rw [bytesBetween_of_le body hle, bytesBetween, bytesBetween, List.drop_zero,
      sum_take_eq_add _ hle]
    omega
  · rw [bytesBetween_of_le body hle, bytesBetween, bytesBetween, List.drop_zero,
      sum_take_eq_add _ hle]
    omega

/-- A displacement fits one byte exactly if there are not too many bytes on the way. -/
theorem displacement_fits_iff {body : List Instruction} {size : Nat}
    (h : Tiles 0 (body.map Instruction.extent) size) {k n : Nat} {i : Instruction}
    (hi : body[k]? = some i) :
    (-128 ≤ i.displacement (bytesBetween body 0 n) ∧ i.displacement (bytesBetween body 0 n) ≤ 127) ↔
      bytesBetween body (k + 1) n ≤ 127 ∧ bytesBetween body n (k + 1) ≤ 128 := by
  rw [displacement_eq h hi]
  -- one of the two numbers of bytes is zero
  rcases Nat.le_total (k + 1) n with hle | hle
  · rw [bytesBetween_of_le body hle]
    omega
  · rw [bytesBetween_of_le body hle]
    omega

/-- Finishing fails only for a label that a step names and no step places. -/
theorem exists_unplaced_of_finish {steps : List Step} {e : AssemblyError}
    (h : (Assembly.applyAll {} steps).finish = .error e) :
    ∃ name, e = .undefinedLabel name ∧ (∃ step ∈ steps, name ∈ step.uses) ∧
      Step.label name ∉ steps := by
  rw [← Outcome.fault?_eq_some_iff, Assembly.fault?_finish] at h
  obtain ⟨d, hd, hfault⟩ := List.exists_of_findSome?_eq_some h
  obtain ⟨name, hname, rfl⟩ := Option.map_eq_some_iff.mp hfault
  obtain ⟨step, hstep, hadds⟩ := (Assembly.madeBy_applyAll steps).origin d hd
  refine ⟨name, rfl, ⟨step, hstep, ?_⟩, ?_⟩
  · rw [← hadds.names_eq]
    exact List.mem_of_find?_eq_some hname
  · exact ((Assembly.laidOut_empty.applyAll steps).lacks_iff name).mp (List.find?_some hname)

/-- A short branch of a finished body leads to a place of the body. -/
theorem exists_place_of_short {steps : List Step} {body : List Instruction}
    (hfinish : (Assembly.applyAll {} steps).finish = .ok body) {i : Instruction} (hi : i ∈ body)
    (htype : i.opcode.operandType = .shortInlineBrTarget) :
    ∃ n ≤ body.length, i.operand = .target (bytesBetween body 0 n) := by
  have hmade := Assembly.madeBy_applyAll steps
  have hwidths := Assembly.map_width_of_finish hmade.exists_step hfinish
  obtain ⟨d, hd, hinstruction⟩ := Assembly.exists_draft_of_finish hfinish hi
  obtain ⟨hoperand, -, hopcode⟩ := (Assembly.instruction_eq_ok_iff _ d i).mp hinstruction
  obtain ⟨step, hadds⟩ := hmade.exists_step d hd
  rw [← hopcode] at hadds
  obtain ⟨name, hname⟩ := hadds.label_of_short htype
  rw [hname] at hoperand
  obtain ⟨target, htarget, ho⟩ := (Assembly.operand_label_eq_ok_iff _ name _).mp hoperand
  have hlookup := (Assembly.labelOffset_eq_ok_iff _ name target).mp htarget
  obtain ⟨n, hn, hplace⟩ := (Assembly.laidOut_empty.applyAll steps).places name target hlookup
  rw [← hwidths] at hn hplace
  refine ⟨n, by simpa using hn, ?_⟩
  rw [ho, hplace]
  rfl

/-- Whatever the steps, finishing does not refuse a short branch for its distance, and the branch fits
its byte exactly if there are not too many bytes on the way. -/
theorem assembled_shortBranches (steps : List Step) : ShortBranches steps where
  faults e h := exists_unplaced_of_finish h
  reach body hfinish k i hi htype := by
    obtain ⟨n, hn, htarget⟩ := exists_place_of_short hfinish (List.mem_of_getElem? hi) htype
    have htiles := (Assembly.madeBy_applyAll steps).finish_tiles hfinish
    exact ⟨n, _, hn, htarget, rfl, displacement_fits_iff htiles hi⟩

/-- A branch over a table that is too long for its byte. -/
def farBranch : List Step :=
  [.branch "br.s" "out", .switch (List.replicate 31 "out"), .label "out", .op "ret"]

/-- A short branch is finished although its label is too far away. -/
theorem farBranch_finishes :
    ¬∀ (steps : List Step) (body : List Instruction),
      (Assembly.applyAll {} steps).finish = .ok body → ∀ i ∈ body,
        i.opcode.operandType = .shortInlineBrTarget → ∀ t ∈ i.branchTargets,
          -128 ≤ i.displacement t ∧ i.displacement t ≤ 127 := by
  intro h
  have hfar := h farBranch _ rfl ⟨0, ⟨"br.s", 0x2B, .branch, .pop0, .push0, .shortInlineBrTarget⟩,
    .target 131⟩ (by decide +kernel) rfl 131 (by decide)
  revert hfar
  decide

end Unstack
