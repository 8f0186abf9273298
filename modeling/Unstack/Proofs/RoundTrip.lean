import Unstack.Encoding.Encode
import Unstack.Proofs.Contiguous

/-!
# Encoding undoes decoding

Reading an instruction and writing it again gives the bytes that were read, so a decoded body is
encoded as the bytes it came from, and no two byte strings decode to the same body.
-/

namespace Unstack

/-- A resolver gives methods that carry the token they were asked for. -/
def Resolver.KeepsTokens (resolve : Resolver) : Prop :=
  ∀ token method, resolve token = some method → method.token = token

namespace Decode

variable {resolve : Resolver} {offset : Offset} {width : Nat} {c c' : Cursor} {n : Nat} {o : Operand}

/-- Writing the field that was read gives its bytes. -/
theorem field_bytes (h : field offset width c = .ok (n, c')) :
    Bytes.ofNat width n = c.rest.take width := by
  obtain ⟨⟨henough, -⟩, rfl⟩ := (field_eq_ok_iff offset width c n c').mp h
  have hbytes := Bytes.ofNat_toNat (c.rest.take width)
  rwa [List.length_take_of_le henough] at hbytes

/-- An operand of one field is made of the number that its bytes are written from. -/
theorem immediate_bytes {make : Nat → Operand} (h : immediate offset width make c = .ok (o, c')) :
    ∃ n, o = make n ∧ n < Nat.pow 256 width ∧ Bytes.ofNat width n = c.rest.take width := by
  obtain ⟨n, hfield, rfl⟩ := (immediate_eq_ok_iff _ _ _ _ _ _).mp h
  exact ⟨n, rfl, field_lt hfield, field_bytes hfield⟩

/-- Writing the displacement of a branch that was read gives its bytes. -/
theorem branch_bytes (h : branch offset width c = .ok (o, c')) :
    ∃ target : Offset, o = .target target ∧
      Bytes.ofInt width ((target : Int) - c'.position) = c.rest.take width := by
  obtain ⟨n, target, hfield, htarget, rfl⟩ := (branch_eq_ok_iff _ _ _ _ _).mp h
  have hdisplacement : (target : Int) - c'.position = Bytes.signed width n := by omega
  refine ⟨target, rfl, ?_⟩
  rw [hdisplacement, Bytes.ofInt_signed (field_lt hfield), field_bytes hfield]

/-- Writing the entries of a table that was read gives their bytes. -/
theorem entries_bytes {count : Nat} {displacements : List Int}
    (h : entries offset count c = .ok (displacements, c')) :
    displacements.flatMap (Bytes.ofInt 4) = c.rest.take (4 * count) := by
  induction count generalizing c displacements with
  | zero =>
    cases h
    simp
  | succ count ih =>
    obtain ⟨n, c₁, others, hfield, hothers, rfl⟩ := (entries_succ_eq_ok_iff _ _ _ _ _).mp h
    obtain ⟨-, rfl⟩ := field_advances hfield
    rw [List.flatMap_cons, Bytes.ofInt_signed (field_lt hfield), field_bytes hfield, ih hothers,
      Nat.mul_succ, Nat.add_comm, List.take_add]
    rfl

/-- Writing the count and the displacements of a table that was read gives its bytes. -/
theorem switchTable_bytes (h : switchTable offset c = .ok (o, c')) :
    ∃ targets : List Offset, o = .targets targets ∧
      Bytes.ofNat 4 targets.length ++
          targets.flatMap (fun target : Offset => Bytes.ofInt 4 ((target : Int) - c'.position)) =
        c.rest.take (4 + 4 * targets.length) := by
  obtain ⟨count, c₁, displacements, targets, hcount, -, hentries, htargets, rfl⟩ :=
    (switchTable_eq_ok_iff _ _ _ _).mp h
  have hdisplacements : targets.map (fun target : Offset => (target : Int) - c'.position) =
      displacements.map fun displacement => displacement := by
    apply Outcome.map_eq_of_mapM htargets
    intro displacement _ target htarget
    rw [branchTarget_eq_ok_iff] at htarget
    omega
  rw [List.map_id'] at hdisplacements
  have hlength : targets.length = count :=
    (Outcome.length_of_mapM htargets).trans (entries_advances hentries).2
  obtain ⟨-, rfl⟩ := field_advances hcount
  refine ⟨targets, rfl, ?_⟩
  rw [← List.flatMap_map, hdisplacements, entries_bytes hentries, hlength, field_bytes hcount,
    List.take_add]
  rfl

/-- Writing the token of a callable operand that was read gives its bytes. -/
theorem call_bytes {opcode : Opcode} (hresolve : resolve.KeepsTokens)
    (h : call resolve opcode offset c = .ok (o, c')) :
    ∃ token : Token, Bytes.ofNat 4 token.value.toNat = c.rest.take 4 ∧
      (o = .token token ∨ ∃ method, o = .method method ∧ method.token = token) := by
  obtain ⟨n, hfield, hcallable⟩ := (call_eq_ok_iff _ _ _ _ _ _).mp h
  have hlt : n < 4294967296 := field_lt hfield
  refine ⟨⟨UInt32.ofNat n⟩, ?_, ?_⟩
  · rw [UInt32.toNat_ofNat_of_lt' hlt, field_bytes hfield]
  · rcases (callable_eq_ok_iff _ _ _ _ _).mp hcallable with ⟨method, hmethod, rfl⟩ | ⟨-, -, rfl⟩
    · exact .inr ⟨method, rfl, hresolve _ _ hmethod⟩
    · exact .inl rfl

/-- Writing the operand that was read gives its bytes. -/
theorem operand_bytes (hresolve : resolve.KeepsTokens) {i : Instruction}
    (hposition : c.position = i.offset + i.opcode.width)
    (h : operand resolve i.opcode i.offset c = .ok (i.operand, c')) :
    i.encodeOperand = c.rest.take i.operandWidth := by
  have hadvances : c.Advances i.operandWidth c' := operand_advances h
  have hnext : c'.position = i.nextOffset := by
    rw [hadvances.skips, Cursor.skip, hposition, Nat.add_assoc]
    rfl
  unfold operand at h
  unfold Instruction.encodeOperand
  cases htype : i.opcode.operandType with
  | inlineNone =>
    simp only [htype, Except.ok.injEq, Prod.mk.injEq] at h
    rw [← h.1, i.operandWidth_of_type htype rfl, List.take_zero]
  | shortInlineI =>
    simp only [htype] at h
    obtain ⟨n, ho, hlt, hbytes⟩ := immediate_bytes h
    rw [ho, i.operandWidth_of_type htype rfl, ← hbytes]
    dsimp only
    split
    · exact Bytes.ofInt_signed hlt
    · exact Bytes.ofInt_natCast hlt
  | inlineI | inlineI8 =>
    simp only [htype] at h
    obtain ⟨n, ho, hlt, hbytes⟩ := immediate_bytes h
    rw [ho, i.operandWidth_of_type htype rfl, ← hbytes]
    exact Bytes.ofInt_signed hlt
  | shortInlineR | inlineField | inlineType | inlineTok | inlineString =>
    simp only [htype] at h
    obtain ⟨n, ho, hlt, hbytes⟩ := immediate_bytes h
    rw [ho, i.operandWidth_of_type htype rfl, ← hbytes]
    dsimp only
    rw [UInt32.toNat_ofNat_of_lt' hlt]
  | inlineR =>
    simp only [htype] at h
    obtain ⟨n, ho, hlt, hbytes⟩ := immediate_bytes h
    rw [ho, i.operandWidth_of_type htype rfl, ← hbytes]
    dsimp only
    rw [UInt64.toNat_ofNat_of_lt' hlt]
  | shortInlineVar | shortInlineArg | inlineVar | inlineArg =>
    simp only [htype] at h
    obtain ⟨n, ho, -, hbytes⟩ := immediate_bytes h
    rw [ho, i.operandWidth_of_type htype rfl, ← hbytes]
  | shortInlineBrTarget | inlineBrTarget =>
    simp only [htype] at h
    obtain ⟨target, ho, hbytes⟩ := branch_bytes h
    rw [ho, i.operandWidth_of_type htype rfl, ← hbytes, hnext]
    rfl
  | inlineMethod | inlineSig =>
    simp only [htype] at h
    obtain ⟨token, hbytes, ho | ⟨method, ho, htoken⟩⟩ := call_bytes hresolve h
    · rw [ho, i.operandWidth_of_type htype rfl, ← hbytes]
    · rw [ho, i.operandWidth_of_type htype rfl, ← hbytes, ← htoken]
  | inlineSwitch =>
    simp only [htype] at h
    obtain ⟨targets, ho, hbytes⟩ := switchTable_bytes h
    have hwidth := i.operandWidth_of_targets htype ho
    rw [ho, hwidth, ← hbytes, hnext]
    rfl

/-- Writing the opcode that was read gives its bytes. -/
theorem opcodeValue_bytes {value : Nat} {opcode : Opcode}
    (h : opcodeValue offset c = .ok (value, c')) (hopcode : Opcode.ofValue? value = some opcode) :
    opcode.encode = c.rest.take opcode.width := by
  have hvalue : opcode.value = value := Opcode.value_of_ofValue? hopcode
  rcases (opcodeValue_eq_ok_iff _ _ _ _).mp h with ⟨hfirst, -⟩ | ⟨c₁, second, hfirst, hsecond, rfl⟩
  · have hbyte : value < 256 := field_lt hfirst
    have hshort : opcode.isTwoByte = false := by simp [Opcode.isTwoByte, hvalue]; omega
    have hbytes := field_bytes hfirst
    simp [Opcode.encode, Opcode.width, hshort, hvalue, ← hbytes, Bytes.ofNat, Nat.mod_eq_of_lt hbyte]
  · have hbyte : second < 256 := field_lt hsecond
    have hlong : opcode.isTwoByte = true := by simp [Opcode.isTwoByte, hvalue]; omega
    have hlow : opcode.value % 256 = second := by rw [hvalue]; omega
    obtain ⟨-, rfl⟩ := field_advances hfirst
    have hbytes : c.rest.take (1 + 1) =
        Bytes.ofNat 1 Opcode.escapeByte.toNat ++ Bytes.ofNat 1 second := by
      rw [field_bytes hfirst, field_bytes hsecond, List.take_add]
      rfl
    simp [Opcode.encode, Opcode.width, hlong, hlow, hbytes, Bytes.ofNat, Nat.mod_eq_of_lt hbyte]

/-- Writing the instruction that was read gives its bytes. -/
theorem instruction_bytes (hresolve : resolve.KeepsTokens) {i : Instruction}
    (h : instruction resolve c = .ok (i, c')) : i.encode = c.rest.take i.width := by
  obtain ⟨value, c₁, hvalue, hopcode, hoperand, hoffset⟩ := (instruction_eq_ok_iff _ _ _ _).mp h
  obtain ⟨-, rfl⟩ := opcodeValue_advances hvalue hopcode
  rw [← hoffset] at hoperand
  have hbytes := operand_bytes hresolve (congrArg (· + i.opcode.width) hoffset.symm) hoperand
  rw [Instruction.encode, opcodeValue_bytes hvalue hopcode, hbytes, Instruction.width, List.take_add]
  rfl

/-- Writing the instructions that were read gives the bytes. -/
theorem bodyFrom_bytes (hresolve : resolve.KeepsTokens) {body : List Instruction}
    (h : bodyFrom resolve c = .ok body) : encodeBody body = c.rest := by
  induction body generalizing c with
  | nil => exact ((bodyFrom_eq_nil_iff resolve c).mp h).symm
  | cons i rest ih =>
    obtain ⟨c', hinstruction, hrest⟩ := (bodyFrom_eq_cons_iff resolve c i rest).mp h
    obtain ⟨-, rfl⟩ := instruction_advances hinstruction
    calc encodeBody (i :: rest)
        = i.encode ++ encodeBody rest := List.flatMap_cons
      _ = c.rest.take i.width ++ c.rest.drop i.width := by
          rw [instruction_bytes hresolve hinstruction, ih hrest]
          rfl
      _ = c.rest := List.take_append_drop _ _

end Decode

/-- A decoded body is encoded as the bytes that it was decoded from, and is decoded from no others,
by this resolver or another one. -/
theorem encodeBody_of_decodeBody {resolve other : Resolver} (hresolve : resolve.KeepsTokens)
    (hother : other.KeepsTokens) {bytes : List UInt8} {body : List Instruction}
    (h : decodeBody resolve bytes = .ok body) :
    encodeBody body = bytes ∧
      ∀ bytes', decodeBody other bytes' = .ok body → bytes' = bytes := by
  have hbytes : encodeBody body = bytes := Decode.bodyFrom_bytes hresolve h
  refine ⟨hbytes, fun bytes' h' => ?_⟩
  have hbytes' : encodeBody body = bytes' := Decode.bodyFrom_bytes hother h'
  exact hbytes'.symm.trans hbytes

/-- A resolver of one method keeps its token. -/
theorem resolveTick_keepsTokens : resolveTick.KeepsTokens := by
  intro token method h
  unfold resolveTick at h
  split at h
  · rw [← Option.some.inj h, ‹token = tick.token›]
  · cases h

/-- The table loop is encoded as its bytes, and comes from no others. -/
theorem encodeBody_tableLoop :
    resolveTick.KeepsTokens ∧ decodeBody resolveTick tableLoopBytes = .ok tableLoop ∧
      encodeBody tableLoop = tableLoopBytes ∧
      ∀ bytes', decodeBody resolveTick bytes' = .ok tableLoop → bytes' = tableLoopBytes :=
  ⟨resolveTick_keepsTokens, decodeBody_tableLoop,
    encodeBody_of_decodeBody resolveTick_keepsTokens resolveTick_keepsTokens decodeBody_tableLoop⟩

end Unstack
