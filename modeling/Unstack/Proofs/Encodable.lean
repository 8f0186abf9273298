import Unstack.Encoding.Encode
import Unstack.Proofs.Contiguous

/-!
# Decoding undoes encoding

An instruction is encodable if its operand is of the type that its opcode takes, is within the
range of that type, and names what the resolver knows. The bytes of an encodable instruction are
read as that instruction, whatever follows them, and so a contiguous body of encodable instructions
is decoded from its bytes.
-/

namespace Unstack

namespace Opcode

/-- The table is in the order of the values. -/
theorem table_increasing : table.Pairwise fun a b => a.value < b.value := by
  have hchain : table.IsChain fun a b => a.value < b.value := by decide +kernel
  exact hchain.pairwise

/-- A value of the table is one byte below the escape byte, or a byte behind the escape byte. -/
theorem value_cases : ∀ opcode ∈ table,
    opcode.value < 0xFE ∨ 0xFE00 ≤ opcode.value ∧ opcode.value < 0xFF00 := by
  decide +kernel

/-- An opcode of the table is found by what tells the opcodes apart. -/
theorem find?_of_distinct {κ : Type} [DecidableEq κ] {key : Opcode → κ}
    (hdistinct : table.Pairwise fun a b => key a ≠ key b) {opcode : Opcode} (h : opcode ∈ table) :
    table.find? (key · == key opcode) = some opcode := by
  obtain ⟨before, after, htable⟩ := List.append_of_mem h
  rw [htable, List.pairwise_append] at hdistinct
  refine List.find?_eq_some_iff_append.mpr ⟨beq_self_eq_true _, before, after, htable, ?_⟩
  intro other hother
  have hne := hdistinct.2.2 other hother opcode List.mem_cons_self
  simp [hne]

/-- Every opcode of the table is found by its value. -/
theorem ofValue?_value {opcode : Opcode} (h : opcode ∈ table) :
    ofValue? opcode.value = some opcode :=
  find?_of_distinct (table_increasing.imp Nat.ne_of_lt) h

end Opcode

/-- The operand is one that the bytes of its type hold and that the resolver gives back. -/
def Instruction.Encodable (resolve : Resolver) (i : Instruction) : Prop :=
  match i.opcode.operandType with
  | .inlineNone => i.operand = .none
  | .shortInlineI => ∃ value, i.operand = .int value ∧
      if i.opcode.hasSignedByte then Bytes.Covers 1 value else 0 ≤ value ∧ value < 256
  | .inlineI => ∃ value, i.operand = .int value ∧ Bytes.Covers 4 value
  | .inlineI8 => ∃ value, i.operand = .long value ∧ Bytes.Covers 8 value
  | .shortInlineR => ∃ bits, i.operand = .float bits
  | .inlineR => ∃ bits, i.operand = .double bits
  | .shortInlineVar | .shortInlineArg => ∃ value, i.operand = .index value ∧ value < 256
  | .inlineVar | .inlineArg => ∃ value, i.operand = .index value ∧ value < 65536
  | .shortInlineBrTarget => ∃ target, i.operand = .target target ∧
      Bytes.Covers 1 (i.displacement target)
  | .inlineBrTarget => ∃ target, i.operand = .target target ∧
      Bytes.Covers 4 (i.displacement target)
  | .inlineSwitch => ∃ targets, i.operand = .targets targets ∧ targets.length < 4294967296 ∧
      ∀ target ∈ targets, Bytes.Covers 4 (i.displacement target)
  | .inlineMethod | .inlineSig =>
      (∃ method, i.operand = .method method ∧ resolve method.token = some method) ∨
        ∃ token, i.operand = .token token ∧ resolve token = none ∧ i.opcode.pop ≠ .varPop
  | .inlineField | .inlineType | .inlineTok | .inlineString => ∃ token, i.operand = .token token

namespace Decode

variable {resolve : Resolver} {offset position : Offset} {width : Nat} {more : List UInt8}

/-- A field is read from its bytes. -/
theorem field_append {bytes : List UInt8} (h : bytes.length = width) :
    field offset width ⟨position, bytes ++ more⟩ =
      .ok (Bytes.toNat bytes, ⟨position + width, more⟩) := by
  rw [field_eq_ok_iff]
  refine ⟨⟨?_, ?_⟩, ?_⟩
  · rw [List.length_append, h]
    exact Nat.le_add_right _ _
  · rw [Cursor.skip, List.drop_left' h]
  · rw [List.take_left' h]

/-- An operand of one field is read from its bytes. -/
theorem immediate_append {make : Nat → Operand} {bytes : List UInt8} (h : bytes.length = width) :
    immediate offset width make ⟨position, bytes ++ more⟩ =
      .ok (make (Bytes.toNat bytes), ⟨position + width, more⟩) := by
  rw [immediate_eq_ok_iff]
  exact ⟨_, field_append h, rfl⟩

/-- A branch is read from the bytes of its displacement. -/
theorem branch_append {target : Offset} {displacement : Int} (h : Bytes.Covers width displacement)
    (htarget : ((position + width : Nat) : Int) + displacement = target) :
    branch offset width ⟨position, Bytes.ofInt width displacement ++ more⟩ =
      .ok (.target target, ⟨position + width, more⟩) := by
  rw [branch_eq_ok_iff]
  refine ⟨_, target, field_append (Bytes.length_ofInt _ _), ?_, rfl⟩
  rw [Bytes.signed_toNat_ofInt h]
  exact htarget

/-- The entries of a table are read from their bytes. -/
theorem entries_append {displacements : List Int} (h : ∀ d ∈ displacements, Bytes.Covers 4 d) :
    entries offset displacements.length
        ⟨position, displacements.flatMap (Bytes.ofInt 4) ++ more⟩ =
      .ok (displacements, ⟨position + 4 * displacements.length, more⟩) := by
  induction displacements generalizing position with
  | nil => rfl
  | cons displacement others ih =>
    rw [List.forall_mem_cons] at h
    rw [List.flatMap_cons, List.append_assoc, List.length_cons, entries_succ_eq_ok_iff]
    refine ⟨_, _, others, field_append (Bytes.length_ofInt _ _), ?_, ?_⟩
    · rw [ih h.2, Nat.mul_succ, Nat.add_right_comm, Nat.add_assoc]
    · rw [Bytes.signed_toNat_ofInt h.1]

/-- A switch table is read from the bytes of its count and its displacements. -/
theorem switchTable_append {targets : List Offset} {displace : Offset → Int}
    (hcount : targets.length < 4294967296) (hcovers : ∀ t ∈ targets, Bytes.Covers 4 (displace t))
    (hdisplace : ∀ t, ((position + (4 + 4 * targets.length) : Nat) : Int) + displace t = t) :
    switchTable offset
        ⟨position, (Bytes.ofNat 4 targets.length ++
          targets.flatMap fun t => Bytes.ofInt 4 (displace t)) ++ more⟩ =
      .ok (.targets targets, ⟨position + (4 + 4 * targets.length), more⟩) := by
  have hentries : entries offset targets.length
      ⟨position + 4, (targets.flatMap fun t => Bytes.ofInt 4 (displace t)) ++ more⟩ =
        .ok (targets.map displace, ⟨position + 4 + 4 * targets.length, more⟩) := by
    have hread : entries offset (targets.map displace).length
        ⟨position + 4, (targets.map displace).flatMap (Bytes.ofInt 4) ++ more⟩ = .ok (_, _) :=
      entries_append (List.forall_mem_map.mpr hcovers)
    rwa [List.length_map, List.flatMap_map] at hread
  have henough := (entries_advances hentries).1.enough
  rw [switchTable_eq_ok_iff, List.append_assoc, ← Nat.add_assoc]
  refine ⟨targets.length, _, targets.map displace, targets, ?_, ?_, hentries, ?_, rfl⟩
  · rw [field_append (Bytes.length_ofNat _ _), Bytes.toNat_ofNat hcount]
  · omega
  · rw [Outcome.mapM_eq_ok_iff, List.map_map]
    apply List.map_congr_left
    intro t _
    rw [Function.comp_apply, branchTarget_eq_ok_iff, Nat.add_assoc]
    exact hdisplace t

/-- A callable operand is read from the bytes of its token. -/
theorem call_append {opcode : Opcode} {token : Token} {o : Operand}
    (h : callable resolve opcode offset token = .ok o) :
    call resolve opcode offset ⟨position, Bytes.ofNat 4 token.value.toNat ++ more⟩ =
      .ok (o, ⟨position + 4, more⟩) := by
  rw [call_eq_ok_iff]
  refine ⟨_, field_append (Bytes.length_ofNat _ _), ?_⟩
  rw [Bytes.toNat_ofNat token.value.toNat_lt, UInt32.ofNat_toNat]
  exact h

/-- The operand of an encodable instruction is read from its bytes. -/
theorem operand_encode {i : Instruction} (h : i.Encodable resolve) :
    operand resolve i.opcode i.offset ⟨i.offset + i.opcode.width, i.encodeOperand ++ more⟩ =
      .ok (i.operand, ⟨i.nextOffset, more⟩) := by
  have hnext : i.nextOffset = i.offset + i.opcode.width + i.operandWidth := (Nat.add_assoc _ _ _).symm
  unfold operand
  unfold Instruction.Encodable at h
  rw [hnext]
  cases htype : i.opcode.operandType with
  | inlineNone =>
    simp only [htype] at h
    rw [i.operandWidth_of_type htype rfl, Instruction.encodeOperand, h]
    rfl
  | shortInlineI =>
    simp only [htype] at h
    obtain ⟨value, ho, hrange⟩ := h
    rw [Instruction.encodeOperand, ho, i.operandWidth_of_type htype rfl]
    dsimp only
    rw [immediate_append (Bytes.length_ofInt _ _)]
    by_cases hsigned : i.opcode.hasSignedByte = true
    · simp only [hsigned, if_true] at hrange ⊢
      rw [Bytes.signed_toNat_ofInt hrange]
    · simp only [hsigned] at hrange ⊢
      have hlt : value < (Nat.pow 256 1 : Nat) := hrange.2
      rw [if_neg Bool.false_ne_true, Bytes.toNat_ofInt hrange.1 hlt]
  | inlineI | inlineI8 =>
    simp only [htype] at h
    obtain ⟨value, ho, hcovers⟩ := h
    rw [Instruction.encodeOperand, ho, i.operandWidth_of_type htype rfl]
    dsimp only
    rw [immediate_append (Bytes.length_ofInt _ _), Bytes.signed_toNat_ofInt hcovers]
  | shortInlineR =>
    simp only [htype] at h
    obtain ⟨bits, ho⟩ := h
    rw [Instruction.encodeOperand, ho, i.operandWidth_of_type htype rfl]
    dsimp only
    rw [immediate_append (Bytes.length_ofNat _ _), Bytes.toNat_ofNat bits.toNat_lt, UInt32.ofNat_toNat]
  | inlineR =>
    simp only [htype] at h
    obtain ⟨bits, ho⟩ := h
    rw [Instruction.encodeOperand, ho, i.operandWidth_of_type htype rfl]
    dsimp only
    rw [immediate_append (Bytes.length_ofNat _ _), Bytes.toNat_ofNat bits.toNat_lt, UInt64.ofNat_toNat]
  | shortInlineVar | shortInlineArg | inlineVar | inlineArg =>
    simp only [htype] at h
    obtain ⟨value, ho, hlt⟩ := h
    rw [Instruction.encodeOperand, ho, i.operandWidth_of_type htype rfl]
    dsimp only
    rw [immediate_append (Bytes.length_ofNat _ _), Bytes.toNat_ofNat hlt]
  | inlineField | inlineType | inlineTok | inlineString =>
    simp only [htype] at h
    obtain ⟨token, ho⟩ := h
    rw [Instruction.encodeOperand, ho, i.operandWidth_of_type htype rfl]
    dsimp only
    rw [immediate_append (Bytes.length_ofNat _ _), Bytes.toNat_ofNat token.value.toNat_lt,
      UInt32.ofNat_toNat]
  | shortInlineBrTarget | inlineBrTarget =>
    simp only [htype] at h
    obtain ⟨target, ho, hcovers⟩ := h
    have hwidth := i.operandWidth_of_type htype rfl
    rw [Instruction.encodeOperand, ho, hwidth]
    refine branch_append hcovers ?_
    rw [Instruction.displacement, hnext, hwidth]
    omega
  | inlineMethod | inlineSig =>
    simp only [htype] at h
    rw [Instruction.encodeOperand, i.operandWidth_of_type htype rfl]
    rcases h with ⟨method, ho, hmethod⟩ | ⟨token, ho, htoken, hpop⟩
    · rw [ho]
      exact call_append ((callable_eq_ok_iff _ _ _ _ _).mpr (.inl ⟨method, hmethod, rfl⟩))
    · rw [ho]
      exact call_append ((callable_eq_ok_iff _ _ _ _ _).mpr (.inr ⟨htoken, hpop, rfl⟩))
  | inlineSwitch =>
    simp only [htype] at h
    obtain ⟨targets, ho, hcount, hcovers⟩ := h
    have hwidth := i.operandWidth_of_targets htype ho
    rw [Instruction.encodeOperand, ho, hwidth]
    refine switchTable_append hcount hcovers fun target => ?_
    rw [Instruction.displacement, hnext, hwidth]
    omega

/-- A field of one byte is that byte. -/
theorem field_byte (byte : UInt8) :
    field offset 1 ⟨position, byte :: more⟩ = .ok (byte.toNat, ⟨position + 1, more⟩) :=
  field_append (show [byte].length = 1 from rfl)

/-- The value of an opcode of the table is read from its bytes. -/
theorem opcodeValue_encode {opcode : Opcode} (h : opcode ∈ Opcode.table) :
    opcodeValue offset ⟨position, opcode.encode ++ more⟩ =
      .ok (opcode.value, ⟨position + opcode.width, more⟩) := by
  rw [opcodeValue_eq_ok_iff]
  unfold Opcode.encode Opcode.width Opcode.isTwoByte
  rcases Opcode.value_cases opcode h with hshort | ⟨hlow, hhigh⟩
  · have hone : ¬0xFF < opcode.value := by omega
    have hbyte : (UInt8.ofNat opcode.value).toNat = opcode.value :=
      UInt8.toNat_ofNat_of_lt' (Nat.lt_trans hshort (by decide))
    simp only [hone, decide_false, Bool.false_eq_true, if_false]
    refine .inl ⟨?_, Nat.ne_of_lt hshort⟩
    rw [List.singleton_append, field_byte, hbyte]
  · have htwo : 0xFF < opcode.value := by omega
    have hbyte : (UInt8.ofNat (opcode.value % 256)).toNat = opcode.value % 256 :=
      UInt8.toNat_ofNat_of_lt' (Nat.mod_lt _ (by decide))
    simp only [htwo, decide_true, if_true]
    refine .inr ⟨_, _, field_byte Opcode.escapeByte, field_byte _, ?_⟩
    omega

/-- An encodable instruction is read from its bytes. -/
theorem instruction_encode {i : Instruction} (hopcode : i.opcode ∈ Opcode.table)
    (h : i.Encodable resolve) :
    instruction resolve ⟨i.offset, i.encode ++ more⟩ = .ok (i, ⟨i.nextOffset, more⟩) := by
  rw [instruction_eq_ok_iff]
  refine ⟨_, _, ?_, Opcode.ofValue?_value hopcode, operand_encode h, rfl⟩
  rw [Instruction.encode, List.append_assoc]
  exact opcodeValue_encode hopcode

/-- Encodable instructions that fill a place are read from their bytes. -/
theorem bodyFrom_encode {start stop : Offset} {body : List Instruction}
    (htiles : Tiles start (body.map Instruction.extent) stop)
    (hbody : ∀ i ∈ body, i.opcode ∈ Opcode.table ∧ i.Encodable resolve) :
    bodyFrom resolve ⟨start, encodeBody body⟩ = .ok body := by
  induction body generalizing start with
  | nil => exact (bodyFrom_eq_nil_iff _ _).mpr rfl
  | cons i rest ih =>
    obtain ⟨rfl, hrest⟩ := htiles
    rw [List.forall_mem_cons] at hbody
    have hinstruction : instruction resolve ⟨i.offset, encodeBody (i :: rest)⟩ =
        .ok (i, ⟨i.nextOffset, encodeBody rest⟩) :=
      instruction_encode hbody.1.1 hbody.1.2
    exact (bodyFrom_eq_cons_iff _ _ _ _).mpr ⟨_, hinstruction, ih hrest hbody.2⟩

end Decode

/-- A contiguous body of encodable instructions is decoded from its bytes. -/
theorem decodeBody_of_encodable {resolve : Resolver} {body : List Instruction} {size : Nat}
    (htiles : Tiles 0 (body.map Instruction.extent) size)
    (hbody : ∀ i ∈ body, i.opcode ∈ Opcode.table ∧ i.Encodable resolve) :
    decodeBody resolve (encodeBody body) = .ok body :=
  Decode.bodyFrom_encode htiles hbody

end Unstack
