import Unstack.Lowering
import Unstack.Module
import Unstack.Proofs.Acceptance
import Unstack.Proofs.Contiguous
import Unstack.Proofs.Walk

/-!
# Decoded bodies have known stack effects

Whether a token must stand for a method the decoder tells by the operand type of the opcode and by how
it pops. Whether the effect of an instruction depends on a method is told by the value of the opcode,
once for what it takes and once for what it leaves. In the table of opcodes these go together: the
opcodes whose effect depends on a callee are the calls, and the decoder lets no call through without
its callee. So an instruction that was decoded has an effect in every method, and neither strategy
fails to find one.
-/

namespace Unstack

/-- Every instruction has a stack effect, whatever method it stands in. -/
def EffectsKnown (body : List Instruction) : Prop :=
  ∀ i ∈ body, ∀ method, ∃ e, Effect.of i method = .ok e

namespace Effect

/-- Only returns and calls take what a signature says. -/
theorem ret_or_call_of_varPop : ∀ opcode ∈ Opcode.table, opcode.pop = .varPop →
    opcode.value = Opcode.ret ∨ isCall opcode = true := by
  decide +kernel

/-- Only calls that create no object leave what a signature says. -/
theorem call_of_varPush : ∀ opcode ∈ Opcode.table, opcode.push = .varPush →
    isCall opcode = true ∧ opcode.value ≠ Opcode.newobj := by
  decide +kernel

/-- Calls take what a signature says, and their operand is a token that may stand for a method. -/
theorem varPop_of_call : ∀ opcode ∈ Opcode.table, isCall opcode = true →
    opcode.pop = .varPop ∧ opcode.operandType.isCallable = true := by
  decide +kernel

/-- What an instruction takes is not known exactly if it calls a method that is not known. -/
theorem popsOf_eq_none_iff {i : Instruction} (hopcode : i.opcode ∈ Opcode.table)
    (method : Signature) :
    popsOf i method = none ↔ isCall i.opcode = true ∧ i.methodRef? = none := by
  have hcall := varPop_of_call i.opcode hopcode
  have hvar := ret_or_call_of_varPop i.opcode hopcode
  unfold popsOf
  cases hpop : i.opcode.pop with
  | varPop =>
    by_cases hret : i.opcode.value = Opcode.ret
    · simp [hret, isCall, Opcode.ret, Opcode.call, Opcode.callvirt, Opcode.newobj, Opcode.calli]
    · have his := (hvar hpop).resolve_left hret
      simp [hret, his]
  | _ =>
    have hnot : isCall i.opcode = false := by
      rw [Bool.eq_false_iff]
      intro his
      rw [(hcall his).1] at hpop
      cases hpop
    simp [hnot]

/-- What an instruction leaves is known unless it calls a method that is not known. -/
theorem call_of_pushesOf {i : Instruction} (hopcode : i.opcode ∈ Opcode.table)
    (h : pushesOf i = none) : isCall i.opcode = true ∧ i.methodRef? = none := by
  unfold pushesOf at h
  cases hpush : i.opcode.push with
  | varPush =>
    obtain ⟨his, hnewobj⟩ := call_of_varPush i.opcode hopcode hpush
    simp [hpush, his, hnewobj] at h
    exact ⟨his, h⟩
  | _ => simp [hpush] at h

/-- An instruction with an opcode of the table has an effect exactly if it is no call, or names the
method that it calls. -/
theorem exists_of_iff {i : Instruction} (hopcode : i.opcode ∈ Opcode.table) (method : Signature) :
    (∃ e, of i method = .ok e) ↔ (isCall i.opcode = true → ∃ callee, i.methodRef? = some callee) := by
  constructor
  · intro hknown hcall
    obtain ⟨e, heffect⟩ := hknown
    cases hcallee : i.methodRef? with
    | some callee => exact ⟨callee, rfl⟩
    | none =>
      have hpops := (popsOf_eq_none_iff hopcode method).mpr ⟨hcall, hcallee⟩
      simp [of, hpops] at heffect
  · intro hcallee
    cases heffect : of i method with
    | ok e => exact ⟨e, rfl⟩
    | error e =>
      obtain ⟨hunknown, -⟩ := (of_eq_error_iff i method e).mp heffect
      obtain ⟨hcall, hnone⟩ : isCall i.opcode = true ∧ i.methodRef? = none :=
        hunknown.elim (popsOf_eq_none_iff hopcode method).mp (call_of_pushesOf hopcode)
      obtain ⟨callee, hsome⟩ := hcallee hcall
      rw [hnone] at hsome
      cases hsome

end Effect

namespace Decode

/-- A token that may stand for a method is read as a call. -/
theorem operand_of_isCallable {opcode : Opcode} (h : opcode.operandType.isCallable = true)
    (resolve : Resolver) (offset : Offset) (c : Cursor) :
    operand resolve opcode offset c = call resolve opcode offset c := by
  unfold operand
  cases htype : opcode.operandType with
  | inlineMethod | inlineSig => rfl
  | _ => simp [htype, OperandType.isCallable] at h

/-- No call is read without the method that it calls. -/
theorem callee_of_operand {resolve : Resolver} {opcode : Opcode} {offset : Offset} {c c' : Cursor}
    {o : Operand} (hopcode : opcode ∈ Opcode.table) (hcall : Effect.isCall opcode = true)
    (h : operand resolve opcode offset c = .ok (o, c')) : ∃ callee, o = .method callee := by
  obtain ⟨hpop, htype⟩ := Effect.varPop_of_call opcode hopcode hcall
  rw [operand_of_isCallable htype] at h
  obtain ⟨n, -, hcallable⟩ := (call_eq_ok_iff resolve opcode offset c o c').mp h
  rcases (callable_eq_ok_iff _ _ _ _ _).mp hcallable with ⟨callee, -, hmethod⟩ | ⟨-, hfixed, -⟩
  · exact ⟨callee, hmethod⟩
  · exact absurd hpop hfixed

/-- An instruction that is read has an effect. -/
theorem exists_effect_of_instruction {resolve : Resolver} {c c' : Cursor} {i : Instruction}
    (h : instruction resolve c = .ok (i, c')) (method : Signature) :
    ∃ e, Effect.of i method = .ok e := by
  obtain ⟨value, c₁, -, -, hoperand, -⟩ := (instruction_eq_ok_iff resolve c i c').mp h
  have hopcode : i.opcode ∈ Opcode.table := opcode_mem_table h
  apply (Effect.exists_of_iff hopcode method).mpr
  intro hcall
  obtain ⟨callee, hmethod⟩ := callee_of_operand hopcode hcall hoperand
  exact ⟨callee, by simp [Instruction.methodRef?, hmethod]⟩

end Decode

/-- The effects of a decoded body are known. -/
theorem effectsKnown_of_decodeBody {resolve : Resolver} {bytes : List UInt8}
    {body : List Instruction} (h : decodeBody resolve bytes = .ok body) : EffectsKnown body := by
  intro i hi method
  obtain ⟨c, c', hread⟩ := Decode.exists_instruction_of_mem h hi
  exact Decode.exists_effect_of_instruction hread method

/-- Every instruction of the body of a method is read at some place. -/
theorem Module.exists_instruction_of_decode {m : Module} {method : Method} {body : List Instruction}
    (h : m.decode method = .ok body) {i : Instruction} (hi : i ∈ body) :
    ∃ c c', Decode.instruction m.resolve c = .ok (i, c') := by
  unfold Module.decode at h
  cases hbody : method.body with
  | none =>
    rw [hbody] at h
    cases h
    cases hi
  | some code =>
    rw [hbody] at h
    cases hbytes : Bytes.ofHex? code.il with
    | none => simp [hbytes] at h
    | some bytes =>
      cases hdecode : decodeBody m.resolve bytes with
      | error e => simp [hbytes, hdecode] at h
      | ok instructions =>
        obtain rfl : instructions = body := by simpa [hbytes, hdecode] using h
        exact Decode.exists_instruction_of_mem hdecode hi

/-- The effects of the body of a method are known. -/
theorem Module.effectsKnown_of_decode {m : Module} {method : Method} {body : List Instruction}
    (h : m.decode method = .ok body) : EffectsKnown body := by
  intro i hi signature
  obtain ⟨c, c', hread⟩ := Module.exists_instruction_of_decode h hi
  exact Decode.exists_effect_of_instruction hread signature

namespace Lowered

/-- A fault of one of the instructions. -/
def FaultIn (method : Signature) (body : List Instruction) (e : LowerError) : Prop :=
  ∃ i ∈ body, ∃ stack, step method stack i = .error e

/-- Instructions that follow each other fail with a fault of one of them. -/
theorem faultIn_of_run {method : Signature} {stack : EvalStack} {code : List Instruction}
    {e : LowerError} (h : run method stack code = .error e) : FaultIn method code e := by
  induction code generalizing stack with
  | nil => cases h
  | cons i rest ih =>
    rw [run] at h
    cases hstep : step method stack i with
    | error e' =>
      rw [hstep] at h
      cases h
      exact ⟨i, List.mem_cons_self, stack, hstep⟩
    | ok result =>
      cases hrest : run method result.2 rest with
      | error e' =>
        simp only [hstep, hrest] at h
        cases h
        obtain ⟨j, hj, hfails⟩ := ih hrest
        exact ⟨j, List.mem_cons_of_mem i hj, hfails⟩
      | ok final =>
        simp only [hstep, hrest] at h
        cases h

end Lowered

/-- The walk fails with a fault of an instruction in one of the blocks. -/
theorem Traversal.walkInvariant_faults {body : List Instruction} {regions : List Region} {g : Graph}
    (hbuild : Graph.build body regions = .ok g) (method : Signature) :
    WalkInvariant g method (fun _ _ => True) (Lowered.FaultIn method body) where
  start := trivial
  root _ _ _ _ _ _ _ := trivial
  skip _ _ _ _ _ _ := trivial
  lower k depth rest w block hblock _ _ := by
    cases hrun : Lowered.run method (.ofDepth (entryDepth block depth)) block.instructions with
    | ok result => trivial
    | error e =>
      obtain ⟨i, hi, hfails⟩ := Lowered.faultIn_of_run hrun
      exact ⟨i, Graph.mem_body_of_mem_block hbuild (List.mem_of_getElem? hblock) hi, hfails⟩

/-- Either strategy fails on a malformed body, or with a fault of one of its instructions. -/
theorem malformed_or_faultIn {strategy : Strategy} {body : List Instruction}
    {regions : List Region} {method : Signature} {e : LowerError}
    (h : lower strategy body regions method = .error e) :
    (∃ cause, e = .malformed cause) ∨ Lowered.FaultIn method body e := by
  cases strategy with
  | forwardPass =>
    rcases Forward.lower_error_cases h with ⟨-, rfl⟩ | ⟨_, rfl⟩ | ⟨i, hi, ⟨_, rfl⟩ | hfails⟩
    · exact .inl ⟨_, rfl⟩
    · exact .inl ⟨_, rfl⟩
    · exact .inl ⟨_, rfl⟩
    · exact .inr ⟨i, hi, hfails⟩
  | graphTraversal =>
    unfold lower at h
    cases hbuild : Graph.build body regions with
    | error cause =>
      simp only [hbuild] at h
      cases h
      exact .inl ⟨cause, rfl⟩
    | ok g =>
      simp only [hbuild] at h
      have hends := Traversal.lower_rule (Traversal.walkInvariant_faults hbuild method)
        (fun _ _ => Graph.index_of_build hbuild)
      rw [h] at hends
      exact .inr hends

/-- Where the effects are known, no strategy misses one. -/
theorem EffectsKnown.lower_ne {body : List Instruction} (hknown : EffectsKnown body)
    (strategy : Strategy) (regions : List Region) (method : Signature) (offset : Offset)
    (mnemonic : String) :
    lower strategy body regions method ≠ .error (.unknownEffect offset mnemonic) := by
  intro h
  rcases malformed_or_faultIn h with ⟨cause, hmalformed⟩ | ⟨i, hi, stack, hstep⟩
  · cases hmalformed
  · rcases (Lowered.step_eq_error_iff method stack i _).mp hstep with hunknown | ⟨_, _, -, -, hdepth⟩
    · obtain ⟨e, heffect⟩ := hknown i hi method
      rw [heffect] at hunknown
      cases hunknown
    · cases hdepth

/-- Of the opcodes in the table only a call without its callee has no stack effect. Decoded bodies hold
no such call, so that all their effects are known in every method, and neither strategy fails on the
body of a method for want of one. -/
theorem decoded_effectsKnown :
    (∀ (i : Instruction) (method : Signature), i.opcode ∈ Opcode.table →
        ((∃ e, Effect.of i method = .ok e) ↔
          (Effect.isCall i.opcode = true → ∃ callee, i.methodRef? = some callee))) ∧
      (∀ (resolve : Resolver) (bytes : List UInt8) (body : List Instruction),
        decodeBody resolve bytes = .ok body → EffectsKnown body) ∧
      ∀ (m : Module) (method : Method) (body : List Instruction), m.decode method = .ok body →
        ∀ (strategy : Strategy) (regions : List Region) (signature : Signature) (offset : Offset)
          (mnemonic : String),
          lower strategy body regions signature ≠ .error (.unknownEffect offset mnemonic) := by
  refine ⟨?_, ?_, ?_⟩
  · intro i method hopcode
    exact Effect.exists_of_iff hopcode method
  · intro resolve bytes body hdecode
    exact effectsKnown_of_decodeBody hdecode
  · intro m method body hdecode
    exact (Module.effectsKnown_of_decode hdecode).lower_ne

/-- A call that has lost its callee. -/
def lostCall : Instruction :=
  ⟨0, ⟨"call", 0x28, .call, .varPop, .varPush, .inlineMethod⟩, .none⟩

/-- A method whose body is the table loop. -/
def clockRun : Method :=
  ⟨"Run", "Clock", ⟨⟨0x06000002⟩, "Clock::Run", procedure⟩,
    some { il := "02 1FFF FE02 45 02000000 EEFFFFFF 07000000 28 01000006 2BE7 2A" }⟩

/-- A module with that method and a reference to the one that it calls. -/
def clock : Module := ⟨"Clock", [⟨"", "Clock", [clockRun]⟩], [tick]⟩

/-- The lost call has no effect. The loop is decoded with the method that it calls, from its bytes and
from the module; so all its effects are known, and no strategy misses one. -/
theorem clock_effectsKnown :
    (lostCall.opcode ∈ Opcode.table ∧ ¬∃ e, Effect.of lostCall procedure = .ok e) ∧
      decodeBody resolveTick tableLoopBytes = .ok tableLoop ∧ EffectsKnown tableLoop ∧
      clock.decode clockRun = .ok tableLoop ∧
      ∀ (strategy : Strategy) (offset : Offset) (mnemonic : String),
        lower strategy tableLoop clockRun.regions procedure ≠
          .error (.unknownEffect offset mnemonic) := by
  have hopcode : lostCall.opcode ∈ Opcode.table := by decide +kernel
  have hdecode : clock.decode clockRun = .ok tableLoop := by decide +kernel
  refine ⟨⟨hopcode, ?_⟩, decodeBody_tableLoop, ?_, hdecode, fun strategy => ?_⟩
  · rw [decoded_effectsKnown.1 lostCall procedure hopcode]
    intro hcallee
    obtain ⟨callee, hnamed⟩ := hcallee rfl
    cases hnamed
  · exact decoded_effectsKnown.2.1 resolveTick tableLoopBytes tableLoop decodeBody_tableLoop
  · exact decoded_effectsKnown.2.2 clock clockRun tableLoop hdecode strategy clockRun.regions procedure

end Unstack
