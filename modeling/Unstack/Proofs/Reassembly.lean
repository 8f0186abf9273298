import Unstack.Proofs.Encodable

/-!
# Decoded bodies can be written by hand

Every decoded body can be given to the assembler as a program: a label where each instruction starts
and one at the end, and between them for each instruction the step that its operand calls for. The
decoder reads no integer, index or token that such a step refuses, and the assembler counts offsets as
the decoder does. So no step fails, every label stands at the place that it names, and the finished
body is the decoded one. Singles are the exception, since a step is given every real number as a
double.
-/

namespace Unstack

/-- The places of a body: where its instructions start, and where it ends. -/
def places (body : List Instruction) : List Offset :=
  body.map Instruction.offset ++ [(endOfBody? body).getD 0]

/-- The step that adds an instruction, with a name for each place that it branches to; there is none
for a single. -/
def Instruction.step? (name : Offset → String) (i : Instruction) : Option Step :=
  match i.operand with
  | .none => some (.op i.opcode.name)
  | .int value => some (.int i.opcode.name value)
  | .long value => some (.int i.opcode.name value)
  | .float _ => none
  | .double bits => some (.real i.opcode.name bits)
  | .index value => some (.int i.opcode.name value)
  | .token token => some (.token i.opcode.name token)
  | .method method => some (.method i.opcode.name method)
  | .target target => some (.branch i.opcode.name (name target))
  | .targets targets => some (.switch (targets.map name))

/-- The program of a body: a label and a step for each instruction, and a label for the end. -/
def program (name : Offset → String) (body : List Instruction) : List Step :=
  body.flatMap (fun i => .label (name i.offset) :: (i.step? name).toList) ++
    [.label (name ((endOfBody? body).getD 0))]

namespace Opcode

/-- The characters of a text as one number. Numbers are told apart faster than texts. -/
def textNumber (text : String) : Nat :=
  text.toByteArray.data.toList.foldl (fun number byte => 256 * number + byte.toNat) 1

/-- The mnemonics of the table are all different. -/
theorem names_distinct : table.Pairwise fun a b => a.name ≠ b.name := by
  have hnumbers : (table.map (textNumber ·.name)).Pairwise fun m n => Nat.beq m n = false := by
    decide +kernel
  refine (List.pairwise_map.mp hnumbers).imp ?_
  intro a b hdiffer hsame
  rw [hsame, Nat.beq_refl] at hdiffer
  cases hdiffer

/-- Every opcode of the table is found by its mnemonic. -/
theorem ofName?_name {opcode : Opcode} (h : opcode ∈ table) :
    ofName? opcode.name = some opcode :=
  find?_of_distinct names_distinct h

/-- Only `ldc.r4` has a single. -/
theorem name_of_single : ∀ opcode ∈ table, opcode.operandType = .shortInlineR →
    opcode.name = "ldc.r4" := by
  decide +kernel

/-- Only `switch` has a table. -/
theorem name_of_switch : ∀ opcode ∈ table, opcode.operandType = .inlineSwitch →
    opcode.name = "switch" := by
  decide +kernel

end Opcode

/-- An operand with names in place of offsets. -/
def Operand.draft (name : Offset → String) : Operand → DraftOperand
  | .target offset => .label (name offset)
  | .targets offsets => .labels (offsets.map name)
  | operand => .known operand

/-- What the assembler keeps of an instruction until its labels are resolved. -/
def Instruction.draft (name : Offset → String) (i : Instruction) : Draft :=
  ⟨i.offset, i.opcode, i.operand.draft name⟩

/-- The step of an instruction adds the instruction. -/
def Instruction.Writable (name : Offset → String) (i : Instruction) : Prop :=
  ∃ step, i.step? name = some step ∧ step.Adds i.opcode (i.operand.draft name)

namespace Decode

variable {resolve : Resolver} {opcode : Opcode} {offset : Offset} {c c' : Cursor} {o : Operand}

/-- An integer that is read is in the range of its opcode. -/
theorem integer_writable (hopcode : opcode ∈ Opcode.table)
    (htype : opcode.operandType.isInteger = true)
    (h : operand resolve opcode offset c = .ok (o, c')) (name : Offset → String) :
    Instruction.Writable name ⟨offset, opcode, o⟩ := by
  have hname := Opcode.ofName?_name hopcode
  unfold operand at h
  cases hkind : opcode.operandType with
  | shortInlineI =>
    simp only [hkind] at h
    obtain ⟨n, hfield, rfl⟩ := (immediate_eq_ok_iff _ _ _ _ _ _).mp h
    have hlt : n < 256 := field_lt hfield
    refine ⟨_, rfl, hname, htype, ?_, by simp [Step.integerOperand, hkind, Operand.draft]⟩
    simp only [Step.integerRange, hkind]
    by_cases hsigned : opcode.hasSignedByte = true
    · have hcovers := Bytes.covers_signed 1 n
      simp only [hsigned, if_true, Bytes.Covers, Nat.pow_eq] at hcovers ⊢
      omega
    · simp only [hsigned, Bool.false_eq_true, if_false]
      omega
  | inlineI =>
    simp only [hkind] at h
    obtain ⟨n, hfield, rfl⟩ := (immediate_eq_ok_iff _ _ _ _ _ _).mp h
    have hcovers := Bytes.covers_signed 4 n
    refine ⟨_, rfl, hname, htype, ?_, by simp [Step.integerOperand, hkind, Operand.draft]⟩
    simp only [Step.integerRange, hkind, Bytes.Covers, Nat.pow_eq] at hcovers ⊢
    omega
  | inlineI8 =>
    simp only [hkind] at h
    obtain ⟨n, hfield, rfl⟩ := (immediate_eq_ok_iff _ _ _ _ _ _).mp h
    have hcovers := Bytes.covers_signed 8 n
    refine ⟨_, rfl, hname, htype, ?_, by simp [Step.integerOperand, hkind, Operand.draft]⟩
    simp only [Step.integerRange, hkind, Bytes.Covers, Nat.pow_eq] at hcovers ⊢
    omega
  | shortInlineVar | shortInlineArg | inlineVar | inlineArg =>
    simp only [hkind] at h
    obtain ⟨n, hfield, rfl⟩ := (immediate_eq_ok_iff _ _ _ _ _ _).mp h
    have hlt := field_lt hfield
    refine ⟨_, rfl, hname, htype, ?_, by simp [Step.integerOperand, hkind, Operand.draft]⟩
    simp only [Step.integerRange, hkind, Nat.pow_eq] at hlt ⊢
    omega
  | _ => simp [hkind, OperandType.isInteger] at htype

/-- A token that is read is added as the method that it stands for, or else as itself. -/
theorem token_writable (hopcode : opcode ∈ Opcode.table)
    (htype : opcode.operandType.isToken = true)
    (h : operand resolve opcode offset c = .ok (o, c')) (name : Offset → String) :
    Instruction.Writable name ⟨offset, opcode, o⟩ := by
  have hname := Opcode.ofName?_name hopcode
  unfold operand at h
  cases hkind : opcode.operandType with
  | inlineMethod | inlineSig =>
    simp only [hkind] at h
    obtain ⟨n, -, hcallable⟩ := (call_eq_ok_iff _ _ _ _ _ _).mp h
    rcases (callable_eq_ok_iff _ _ _ _ _).mp hcallable with ⟨method, -, rfl⟩ | ⟨-, -, rfl⟩
    · exact ⟨_, rfl, hname, by simp [hkind, OperandType.isCallable], rfl⟩
    · exact ⟨_, rfl, hname, htype, rfl⟩
  | inlineField | inlineType | inlineTok | inlineString =>
    simp only [hkind] at h
    obtain ⟨n, -, rfl⟩ := (immediate_eq_ok_iff _ _ _ _ _ _).mp h
    exact ⟨_, rfl, hname, htype, rfl⟩
  | _ => simp [hkind, OperandType.isToken] at htype

/-- Whatever is read is added by a step, but for a single. -/
theorem operand_writable (hopcode : opcode ∈ Opcode.table) (hsingle : opcode.name ≠ "ldc.r4")
    (h : operand resolve opcode offset c = .ok (o, c')) (name : Offset → String) :
    Instruction.Writable name ⟨offset, opcode, o⟩ := by
  have hname := Opcode.ofName?_name hopcode
  have hread := h
  unfold operand at h
  cases hkind : opcode.operandType with
  | shortInlineI | inlineI | inlineI8 | shortInlineVar | shortInlineArg | inlineVar | inlineArg =>
    exact integer_writable hopcode (by simp [hkind, OperandType.isInteger]) hread name
  | inlineMethod | inlineSig | inlineField | inlineType | inlineTok | inlineString =>
    exact token_writable hopcode (by simp [hkind, OperandType.isToken]) hread name
  | shortInlineR => exact absurd (Opcode.name_of_single opcode hopcode hkind) hsingle
  | inlineNone =>
    simp only [hkind] at h
    cases h
    exact ⟨_, rfl, hname, hkind, rfl⟩
  | inlineR =>
    simp only [hkind] at h
    obtain ⟨n, -, rfl⟩ := (immediate_eq_ok_iff _ _ _ _ _ _).mp h
    exact ⟨_, rfl, hname, by simp [hkind, OperandType.isReal], by simp [hkind, Operand.draft]⟩
  | shortInlineBrTarget | inlineBrTarget =>
    simp only [hkind] at h
    obtain ⟨n, target, -, -, rfl⟩ := (branch_eq_ok_iff _ _ _ _ _).mp h
    exact ⟨_, rfl, hname, by simp [hkind, OperandType.isBranch], rfl⟩
  | inlineSwitch =>
    simp only [hkind] at h
    obtain ⟨-, -, -, targets, -, -, -, -, rfl⟩ := (switchTable_eq_ok_iff _ _ _ _).mp h
    rw [Opcode.name_of_switch opcode hopcode hkind] at hname
    exact ⟨_, rfl, hname, hkind, rfl⟩

/-- Every instruction of a decoded body is added by a step, but for a single. -/
theorem writable_of_decodeBody {bytes : List UInt8} {body : List Instruction}
    (h : decodeBody resolve bytes = .ok body) (name : Offset → String) {i : Instruction}
    (hi : i ∈ body) (hsingle : i.opcode.name ≠ "ldc.r4") : i.Writable name := by
  obtain ⟨c, c', hread⟩ := exists_instruction_of_mem h hi
  obtain ⟨value, c₁, -, -, hoperand, hoffset⟩ := (instruction_eq_ok_iff _ _ _ _).mp hread
  rw [← hoffset] at hoperand
  exact operand_writable (opcode_mem_table hread) hsingle hoperand name

end Decode

namespace Assembly

variable {name : Offset → String} {a a' : Assembly}

/-- A step adds its instruction and does not fail. -/
theorem apply_of_adds {step : Step} {opcode : Opcode} {operand : DraftOperand}
    (h : step.Adds opcode operand) (a : Assembly) :
    a.apply step = (a.emit opcode operand, none) := by
  have hdraft := (Step.draft_eq_ok_iff step opcode operand).mpr h
  cases step with
  | label name => cases h
  | _ => simp only [apply, hdraft]

/-- A label with a name of its own is placed and does not fail. -/
theorem apply_label {label : String} (h : a.labels.lookup label = none) :
    a.apply (.label label) = ({ a with labels := (label, a.next) :: a.labels }, none) := by
  simp [apply, place, h]

/-- A step that does not fail is followed by the others. -/
theorem run_cons_of_apply {step : Step} (h : a.apply step = (a', none)) (rest : List Step) :
    a.run (step :: rest) = a'.run rest := by
  rw [run, h]

/-- A name that is not placed again stands where it stood. -/
theorem lookup_cons_of_fresh {labels : List (String × Offset)} {fresh label : String}
    {offset : Offset} (hfresh : labels.lookup fresh = none)
    (h : labels.lookup label = some offset) (place : Offset) :
    List.lookup label ((fresh, place) :: labels) = some offset := by
  have hne : label ≠ fresh := by
    intro hsame
    rw [hsame, hfresh] at h
    cases h
  rw [List.lookup_cons, beq_false_of_ne hne]
  exact h

/-- A table of names has an entry for each target. -/
theorem length_of_draft {o : Operand} {names : List String} (h : o.draft name = .labels names) :
    names.length = o.targetList.length := by
  cases o with
  | targets offsets =>
    obtain rfl := DraftOperand.labels.inj h
    exact List.length_map name
  | _ => cases h

/-- The assembly behind the label and the step of an instruction. -/
def write (name : Offset → String) (a : Assembly) (i : Instruction) : Assembly :=
  emit { a with labels := (name i.offset, a.next) :: a.labels } i.opcode (i.operand.draft name)

/-- Behind an instruction the assembler has come as far as the instruction is wide. -/
theorem next_write {i : Instruction} (h : i.Writable name) (a : Assembly) :
    (a.write name i).next = a.next + i.width := by
  obtain ⟨step, -, hadds⟩ := h
  have hwidth := operandWidth_of_adds hadds fun _ hnames => length_of_draft hnames
  rw [write, emit, Nat.add_assoc, hwidth, Instruction.width]

/-- The label and the step of an instruction do not fail if the label is new. -/
theorem run_write {i : Instruction} (h : i.Writable name)
    (hfresh : a.labels.lookup (name i.offset) = none) (rest : List Step) :
    a.run ((.label (name i.offset) :: (i.step? name).toList) ++ rest) =
      (a.write name i).run rest := by
  obtain ⟨step, hstep, hadds⟩ := h
  rw [hstep]
  exact (run_cons_of_apply (apply_label hfresh) _).trans
    (run_cons_of_apply (apply_of_adds hadds _) rest)

/-- A label with another name is still new behind an instruction. -/
theorem lookup_write_of_ne {i : Instruction} {label : String} (hne : label ≠ name i.offset)
    (h : a.labels.lookup label = none) : (a.write name i).labels.lookup label = none := by
  change List.lookup label ((name i.offset, a.next) :: a.labels) = none
  rw [List.lookup_cons, beq_false_of_ne hne]
  exact h

/-- Instructions have been written up to the offset `stop`: their drafts are added, their labels and
that of the end are placed, and the labels from before are where they were. -/
structure Writes (name : Offset → String) (a : Assembly) (body : List Instruction)
    (stop : Offset) (a' : Assembly) : Prop where
  drafts : a'.drafts = a.drafts ++ body.map (Instruction.draft name)
  placed : ∀ offset ∈ body.map Instruction.offset ++ [stop],
    a'.labels.lookup (name offset) = some offset
  kept : ∀ label offset, a.labels.lookup label = some offset →
    a'.labels.lookup label = some offset

/-- The label of the end is placed where the instructions end. -/
theorem writes_nil {stop : Offset} (hstop : a.next = stop)
    (hfresh : a.labels.lookup (name stop) = none) :
    Writes name a [] stop { a with labels := (name stop, a.next) :: a.labels } where
  drafts := (List.append_nil _).symm
  placed := by
    intro offset hoffset
    obtain rfl : offset = stop := by simpa using hoffset
    rw [hstop]
    exact List.lookup_cons_self
  kept := by
    intro label offset h
    exact lookup_cons_of_fresh hfresh h a.next

/-- An instruction is written behind its label, and the others behind it. -/
theorem Writes.cons {i : Instruction} {rest : List Instruction} {stop : Offset}
    (hoffset : i.offset = a.next) (hfresh : a.labels.lookup (name i.offset) = none)
    (h : Writes name (a.write name i) rest stop a') : Writes name a (i :: rest) stop a' where
  drafts := by
    rw [h.drafts, write, emit, List.append_assoc, ← hoffset]
    rfl
  placed := by
    intro offset hmem
    rcases List.mem_cons.mp hmem with rfl | hlater
    · have hself : (a.write name i).labels.lookup (name i.offset) = some a.next :=
        List.lookup_cons_self
      rw [← hoffset] at hself
      exact h.kept _ _ hself
    · exact h.placed offset hlater
  kept := by
    intro label offset hlabel
    exact h.kept label offset (lookup_cons_of_fresh hfresh hlabel a.next)

/-- Instructions that follow on from where the assembler is are written without a failing step, if
their labels are new and differ from one another. -/
theorem exists_writes {body : List Instruction} {stop : Offset} (a : Assembly)
    (hwritable : ∀ i ∈ body, i.Writable name)
    (htiles : Tiles a.next (body.map Instruction.extent) stop)
    (hdistinct : ((body.map Instruction.offset ++ [stop]).map name).Nodup)
    (hfresh : ∀ offset ∈ body.map Instruction.offset ++ [stop],
      a.labels.lookup (name offset) = none) :
    ∃ a', a.run (body.flatMap (fun i => .label (name i.offset) :: (i.step? name).toList) ++
      [.label (name stop)]) = .ok a' ∧ Writes name a body stop a' := by
  induction body generalizing a with
  | nil =>
    have hlabel := hfresh stop List.mem_cons_self
    exact ⟨_, run_cons_of_apply (apply_label hlabel) [], writes_nil htiles hlabel⟩
  | cons i rest ih =>
    obtain ⟨hoffset, hrest⟩ := htiles
    rw [List.forall_mem_cons] at hwritable
    rw [List.map_cons, List.cons_append, List.forall_mem_cons] at hfresh
    rw [List.map_cons, List.cons_append, List.map_cons, List.nodup_cons] at hdistinct
    have hrest' : Tiles (a.write name i).next (rest.map Instruction.extent) stop := by
      rw [next_write hwritable.1]
      exact hrest
    have hfresh' : ∀ offset ∈ rest.map Instruction.offset ++ [stop],
        (a.write name i).labels.lookup (name offset) = none := by
      intro offset hmem
      apply lookup_write_of_ne _ (hfresh.2 offset hmem)
      intro hsame
      exact hdistinct.1 (hsame ▸ List.mem_map_of_mem hmem)
    obtain ⟨a', hrun, hwrites⟩ := ih (a.write name i) hwritable.2 hrest' hdistinct.2 hfresh'
    refine ⟨a', ?_, hwrites.cons hoffset hfresh.1⟩
    rw [List.flatMap_cons, List.append_assoc, run_write hwritable.1 hfresh.1]
    exact hrun

/-- An operand is resolved to itself if each of its targets is the place of its label. -/
theorem operand_draft {o : Operand}
    (h : ∀ target ∈ o.targetList, a.labelOffset (name target) = .ok target) :
    a.operand (o.draft name) = .ok o := by
  cases o with
  | target offset =>
    apply (operand_label_eq_ok_iff a _ _).mpr
    exact ⟨offset, h offset List.mem_cons_self, rfl⟩
  | targets offsets =>
    apply (operand_labels_eq_ok_iff a _ _).mpr
    refine ⟨offsets, ?_, rfl⟩
    rw [Outcome.mapM_eq_ok_iff, List.map_map]
    exact List.map_congr_left h
  | _ => rfl

/-- What was written into an empty assembly is the finished body. -/
theorem Writes.finish_eq {body : List Instruction} {stop : Offset} (h : Writes name {} body stop a)
    (htargets : ∀ i ∈ body, ∀ t ∈ i.branchTargets, t ∈ body.map Instruction.offset ++ [stop]) :
    a.finish = .ok body := by
  rw [finish, Outcome.mapM_eq_ok_iff, h.drafts, List.nil_append, List.map_map]
  apply List.map_congr_left
  intro i hi
  apply (instruction_eq_ok_iff a (i.draft name) i).mpr
  refine ⟨operand_draft ?_, rfl, rfl⟩
  intro target htarget
  rw [labelOffset, h.placed target (htargets i hi target htarget)]

end Assembly

/-- The places of a body that fills bytes increase. -/
theorem Tiles.pairwise_places {body : List Instruction} {start stop : Offset}
    (h : Tiles start (body.map Instruction.extent) stop) :
    (∀ offset ∈ body.map Instruction.offset ++ [stop], start ≤ offset) ∧
      (body.map Instruction.offset ++ [stop]).Pairwise (· < ·) := by
  induction body generalizing start with
  | nil =>
    obtain rfl : start = stop := h
    simp
  | cons i rest ih =>
    obtain ⟨hoffset, hrest⟩ := h
    obtain ⟨hlater, hpairwise⟩ := ih hrest
    obtain rfl : i.offset = start := hoffset
    have hbehind : ∀ offset ∈ rest.map Instruction.offset ++ [stop], i.offset < offset := by
      intro offset hmem
      exact Nat.lt_of_lt_of_le (Nat.lt_add_of_pos_right i.width_pos) (hlater offset hmem)
    rw [List.map_cons, List.cons_append, List.forall_mem_cons, List.pairwise_cons]
    exact ⟨⟨Nat.le_refl _, fun offset hmem => Nat.le_of_lt (hbehind offset hmem)⟩, hbehind,
      hpairwise⟩

/-- A decoded body without singles, whose branches lead to places of the body, is assembled again from
its program: no step fails, and the finished body is the decoded one. -/
theorem finish_program {resolve : Resolver} {bytes : List UInt8} {body : List Instruction}
    (h : decodeBody resolve bytes = .ok body)
    (hsingle : ∀ i ∈ body, i.opcode.name ≠ "ldc.r4")
    (htargets : ∀ i ∈ body, ∀ t ∈ i.branchTargets, t ∈ places body)
    {name : Offset → String}
    (hname : ∀ p ∈ places body, ∀ q ∈ places body, name p = name q → p = q) :
    ∃ a, ({} : Assembly).run (program name body) = .ok a ∧ a.finish = .ok body := by
  have htiles := (Produced.decoded resolve bytes body h).tiles
  have hstop : (endOfBody? body).getD 0 = bytes.length := htiles.last
  have hdistinct : ((places body).map name).Nodup := by
    have hincreasing := htiles.pairwise_places.2
    rw [← hstop] at hincreasing
    rw [List.nodup_iff_pairwise_ne, List.pairwise_map]
    apply hincreasing.imp_of_mem
    intro p q hp hq hlt hsame
    exact Nat.ne_of_lt hlt (hname p hp q hq hsame)
  rw [← hstop] at htiles
  obtain ⟨a, hrun, hwrites⟩ := Assembly.exists_writes {}
    (fun i hi => Decode.writable_of_decodeBody h name hi (hsingle i hi)) htiles hdistinct
    (fun _ _ => rfl)
  exact ⟨a, hrun, hwrites.finish_eq htargets⟩

/-- A body with the operands that are most easily lost: integers at the ends of their ranges, a double
that is no number, the token of an unknown method, and branches to the end of the body. -/
def edgeOperands : List Instruction :=
  [⟨0, ⟨"ldc.i4.s", 0x1F, .next, .pop0, .push1, .shortInlineI⟩, .int (-128)⟩,
    ⟨2, ⟨"unaligned.", 0xFE12, .metadata, .pop0, .push0, .shortInlineI⟩, .int 255⟩,
    ⟨5, ⟨"ldc.i8", 0x21, .next, .pop0, .push1, .inlineI8⟩, .long (-9223372036854775808)⟩,
    ⟨14, ⟨"ldc.r8", 0x23, .next, .pop0, .push1, .inlineR⟩, .double 0x7FF8000000000001⟩,
    ⟨23, ⟨"ldarg", 0xFE09, .next, .pop0, .push1, .inlineArg⟩, .index 65535⟩,
    ⟨27, ⟨"ldftn", 0xFE06, .next, .pop0, .push1, .inlineMethod⟩, .token ⟨0x06000002⟩⟩,
    ⟨33, ⟨"call", 0x28, .call, .varPop, .varPush, .inlineMethod⟩, .method tick⟩,
    ⟨38, ⟨"switch", 0x45, .condBranch, .pop1, .push0, .inlineSwitch⟩, .targets [0, 53]⟩,
    ⟨51, ⟨"br.s", 0x2B, .branch, .pop0, .push0, .shortInlineBrTarget⟩, .target 53⟩]

/-- The bytes of that body. -/
def edgeOperandsBytes : List UInt8 :=
  [0x1F, 0x80, 0xFE, 0x12, 0xFF, 0x21, 0, 0, 0, 0, 0, 0, 0, 0x80, 0x23, 0x01, 0, 0, 0, 0, 0, 0xF8,
    0x7F, 0xFE, 0x09, 0xFF, 0xFF, 0xFE, 0x06, 0x02, 0, 0, 0x06, 0x28, 0x01, 0, 0, 0x06, 0x45, 0x02, 0,
    0, 0, 0xCD, 0xFF, 0xFF, 0xFF, 0x02, 0, 0, 0, 0x2B, 0]

/-- The body with such operands is assembled again, with its offsets as names. -/
theorem edgeOperands_finish_program :
    decodeBody resolveTick edgeOperandsBytes = .ok edgeOperands ∧
      ∃ a, ({} : Assembly).run (program Offset.label edgeOperands) = .ok a ∧
        a.finish = .ok edgeOperands := by
  have hdecode : decodeBody resolveTick edgeOperandsBytes = .ok edgeOperands := by decide +kernel
  exact ⟨hdecode, finish_program hdecode (by decide +kernel) (by decide +kernel)
    (by decide +kernel)⟩

end Unstack
