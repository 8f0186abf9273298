import Unstack.Proofs.Contiguous

/-!
# Decoding a part of the bytes

An instruction is decoded from its own bytes. Nothing behind them counts, although a reader is given
all the bytes to the end of the body and a table of branches is measured against them. Each reader is
shown to do the same on any bytes that begin with those it took, and to fail only with the offset of
its instruction. So the decoder reads from left to right without looking ahead: more bytes never
change the instructions before them, a body that is cut at an instruction decodes to the instructions
before the cut, and a fault is the first one, behind bytes that decode.
-/

namespace Unstack

/-- Another cursor at the same place, with the same `count` bytes ahead. -/
structure Cursor.Shares (c : Cursor) (count : Nat) (d : Cursor) : Prop where
  position : d.position = c.position
  bytes : d.rest.take count = c.rest.take count
  enough : count ≤ d.rest.length

namespace Cursor

variable {c d : Cursor} {m n : Nat}

/-- Of bytes that are shared, the first ones are. -/
theorem Shares.left (h : c.Shares (m + n) d) : c.Shares m d := by
  refine ⟨h.position, ?_, Nat.le_trans (Nat.le_add_right m n) h.enough⟩
  have hbytes := congrArg (List.take m) h.bytes
  rwa [List.take_take, List.take_take, Nat.min_eq_left (Nat.le_add_right m n)] at hbytes

/-- Of bytes that are shared, the others are shared behind the first ones. -/
theorem Shares.right (h : c.Shares (m + n) d) : (c.skip m).Shares n (d.skip m) where
  position := congrArg (· + m) h.position
  bytes := by
    simp only [skip, List.take_drop]
    rw [h.bytes]
  enough := by
    have henough := h.enough
    simp only [skip, List.length_drop]
    omega

/-- Places further on add up. -/
theorem skip_skip (c : Cursor) (m n : Nat) : (c.skip m).skip n = c.skip (m + n) := by
  simp only [skip, List.drop_drop, Nat.add_assoc]

end Cursor

namespace Decode

/-- What is read is decided by the bytes taken for it: where they stand again, it is read again. -/
def Local {α : Type} (read : Cursor → Except DecodeError (α × Cursor)) (width : α → Nat) : Prop :=
  ∀ {c c' d : Cursor} {a : α}, read c = .ok (a, c') → c.Shares (width a) d →
    read d = .ok (a, d.skip (width a))

/-- A field is decided by its own bytes. -/
theorem field_local (offset : Offset) (width : Nat) : Local (field offset width) fun _ => width := by
  intro c c' d n h hshares
  obtain ⟨-, rfl⟩ := (field_eq_ok_iff offset width c n c').mp h
  exact (field_eq_ok_iff offset width d _ _).mpr ⟨⟨hshares.enough, rfl⟩, by rw [hshares.bytes]⟩

/-- An immediate operand is decided by the bytes of its field. -/
theorem immediate_local (offset : Offset) (width : Nat) (make : Nat → Operand) :
    Local (immediate offset width make) fun _ => width := by
  intro c c' d o h hshares
  obtain ⟨n, hfield, hmake⟩ := (immediate_eq_ok_iff _ _ _ _ _ _).mp h
  exact (immediate_eq_ok_iff _ _ _ _ _ _).mpr ⟨n, field_local offset width hfield hshares, hmake⟩

/-- A displacement leads to the same target, since it counts from the same place. -/
theorem branch_local (offset : Offset) (width : Nat) :
    Local (branch offset width) fun _ => width := by
  intro c c' d o h hshares
  obtain ⟨n, target, hfield, htarget, ho⟩ := (branch_eq_ok_iff _ _ _ _ _).mp h
  have hplace : (d.skip width).position = c'.position := by
    rw [(field_advances hfield).skips]
    exact congrArg (· + width) hshares.position
  rw [← hplace] at htarget
  exact (branch_eq_ok_iff _ _ _ _ _).mpr
    ⟨n, target, field_local offset width hfield hshares, htarget, ho⟩

/-- The entries of a table are decided by four bytes each. -/
theorem entries_local (offset : Offset) (count : Nat) :
    Local (entries offset count) fun _ => 4 * count := by
  induction count with
  | zero =>
    intro c c' d displacements h hshares
    cases h
    rfl
  | succ count ih =>
    intro c c' d displacements h hshares
    obtain ⟨n, c₁, others, hfield, hothers, hcons⟩ := (entries_succ_eq_ok_iff _ _ _ _ _).mp h
    obtain rfl := (field_advances hfield).skips
    have hwidth : 4 * (count + 1) = 4 + 4 * count := by omega
    simp only [hwidth] at hshares ⊢
    have hrest := ih hothers hshares.right
    rw [Cursor.skip_skip] at hrest
    exact (entries_succ_eq_ok_iff _ _ _ _ _).mpr
      ⟨n, d.skip 4, others, field_local offset 4 hfield hshares.left, hrest, hcons⟩

/-- A table is measured against all that follows, but needs no more than its own entries. -/
theorem switchTable_local {offset : Offset} {c c' d : Cursor} {targets : List Offset}
    (h : switchTable offset c = .ok (.targets targets, c'))
    (hshares : c.Shares (4 + 4 * targets.length) d) :
    switchTable offset d = .ok (.targets targets, d.skip (4 + 4 * targets.length)) := by
  obtain ⟨count, c₁, displacements, targets', hcount, -, hentries, htargets, ho⟩ :=
    (switchTable_eq_ok_iff _ _ _ _).mp h
  obtain rfl := Operand.targets.inj ho
  obtain ⟨hadvances, hlength⟩ := entries_advances hentries
  have hsame : targets.length = count := (Outcome.length_of_mapM htargets).trans hlength
  obtain rfl := (field_advances hcount).skips
  obtain rfl := hadvances.skips
  rw [hsame] at hshares ⊢
  have hmeasure : count ≤ (d.skip 4).rest.length / 4 := by
    have henough := hshares.right.enough
    omega
  have hread := entries_local offset count hentries hshares.right
  rw [Cursor.skip_skip] at hread
  have hplace : (d.skip (4 + 4 * count)).position = ((c.skip 4).skip (4 * count)).position := by
    rw [Cursor.skip_skip]
    exact congrArg (· + (4 + 4 * count)) hshares.position
  rw [← hplace] at htargets
  exact (switchTable_eq_ok_iff _ _ _ _).mpr ⟨count, d.skip 4, displacements, targets,
    field_local offset 4 hcount hshares.left, hmeasure, hread, htargets, rfl⟩

/-- A callee is decided by the four bytes of its token. -/
theorem call_local (resolve : Resolver) (opcode : Opcode) (offset : Offset) :
    Local (call resolve opcode offset) fun _ => 4 := by
  intro c c' d o h hshares
  obtain ⟨n, hfield, hcallable⟩ := (call_eq_ok_iff _ _ _ _ _ _).mp h
  exact (call_eq_ok_iff _ _ _ _ _ _).mpr ⟨n, field_local offset 4 hfield hshares, hcallable⟩

/-- An operand is decided by as many bytes as its instruction counts for it. -/
theorem operand_local (resolve : Resolver) (opcode : Opcode) (offset : Offset) :
    Local (operand resolve opcode offset) fun o =>
      Instruction.operandWidth ⟨offset, opcode, o⟩ := by
  intro c c' d o h hshares
  unfold operand at h ⊢
  unfold Instruction.operandWidth at hshares ⊢
  cases htype : opcode.operandType with
  | inlineNone =>
    simp only [htype] at h ⊢
    cases h
    rfl
  | shortInlineI | inlineI | inlineI8 | shortInlineR | inlineR | shortInlineVar | shortInlineArg
  | inlineVar | inlineArg | inlineField | inlineType | inlineTok | inlineString =>
    simp only [htype] at h hshares ⊢
    exact immediate_local _ _ _ h hshares
  | shortInlineBrTarget | inlineBrTarget =>
    simp only [htype] at h hshares ⊢
    exact branch_local _ _ h hshares
  | inlineMethod | inlineSig =>
    simp only [htype] at h hshares ⊢
    exact call_local _ _ _ h hshares
  | inlineSwitch =>
    simp only [htype] at h hshares ⊢
    obtain ⟨-, -, -, targets, -, -, -, -, rfl⟩ := (switchTable_eq_ok_iff _ _ _ _).mp h
    exact switchTable_local h hshares

/-- An opcode value is decided by as many bytes as its opcode has. -/
theorem opcodeValue_local {offset : Offset} {c c' d : Cursor} {value : Nat} {opcode : Opcode}
    (h : opcodeValue offset c = .ok (value, c')) (hopcode : Opcode.ofValue? value = some opcode)
    (hshares : c.Shares opcode.width d) :
    opcodeValue offset d = .ok (value, d.skip opcode.width) := by
  rw [opcodeValue_eq_ok_iff]
  rcases opcodeValue_cases h hopcode with
    ⟨hwidth, hfirst, hescape⟩ | ⟨hwidth, c₁, second, hfirst, hsecond, hvalue⟩
  · rw [hwidth] at hshares ⊢
    exact .inl ⟨field_local offset 1 hfirst hshares, hescape⟩
  · rw [hwidth] at hshares ⊢
    obtain rfl := (field_advances hfirst).skips
    have hnext := field_local offset 1 hsecond hshares.right
    rw [Cursor.skip_skip] at hnext
    exact .inr ⟨d.skip 1, second, field_local offset 1 hfirst hshares.left, hnext, hvalue⟩

/-- An instruction is decided by its own bytes, and by the place where they stand. -/
theorem instruction_local (resolve : Resolver) :
    Local (instruction resolve) Instruction.width := by
  intro c c' d i h hshares
  obtain ⟨value, c₁, hvalue, hopcode, hoperand, hoffset⟩ := (instruction_eq_ok_iff _ _ _ _).mp h
  obtain ⟨offset, opcode, o⟩ := i
  obtain rfl : offset = c.position := hoffset
  obtain rfl := (opcodeValue_advances hvalue hopcode).skips
  have hvalue' := opcodeValue_local hvalue hopcode hshares.left
  have hoperand' := operand_local resolve opcode c.position hoperand hshares.right
  rw [Cursor.skip_skip] at hoperand'
  rw [← hshares.position] at hvalue' hoperand'
  exact (instruction_eq_ok_iff _ _ _ _).mpr
    ⟨value, d.skip opcode.width, hvalue', hopcode, hoperand', hshares.position.symm⟩

/-- A reader fails only with the offset that it was given for its instruction. -/
def Blames {α : Type} (offset : Offset) (result : Except DecodeError α) : Prop :=
  Outcome.FaultsWith (DecodeError.offset · = offset) result

open Outcome (faultsWith_ok faultsWith_error faultsWith_mapM)

/-- A field that is cut off is blamed on its instruction. -/
theorem field_blames (offset : Offset) (width : Nat) (c : Cursor) :
    Blames offset (field offset width c) := by
  unfold field
  cases Bytes.read? width c.rest with
  | some n => exact faultsWith_ok _ _
  | none => exact faultsWith_error rfl

/-- An immediate operand fails only where its field does. -/
theorem immediate_blames (offset : Offset) (width : Nat) (make : Nat → Operand) (c : Cursor) :
    Blames offset (immediate offset width make c) :=
  (field_blames offset width c).bind fun _ => faultsWith_ok _ _

/-- A target out of range is blamed on the branch. -/
theorem branchTarget_blames (offset next : Offset) (displacement : Int) :
    Blames offset (branchTarget offset next displacement) := by
  unfold branchTarget
  cases Offset.reach next displacement with
  | some target => exact faultsWith_ok _ _
  | none => exact faultsWith_error rfl

/-- A branch fails for its field or for its target. -/
theorem branch_blames (offset : Offset) (width : Nat) (c : Cursor) :
    Blames offset (branch offset width c) := by
  apply (field_blames offset width c).bind
  intro result
  apply (branchTarget_blames offset _ _).bind
  intro target
  exact faultsWith_ok _ _

/-- An entry that is cut off is blamed on the instruction with the table. -/
theorem entries_blames (offset : Offset) (count : Nat) (c : Cursor) :
    Blames offset (entries offset count c) := by
  induction count generalizing c with
  | zero => exact faultsWith_ok _ _
  | succ count ih =>
    apply (field_blames offset 4 c).bind
    intro first
    apply (ih first.2).bind
    intro others
    exact faultsWith_ok _ _

/-- A table that is cut off or leads out of range is blamed on its instruction. -/
theorem switchTable_blames (offset : Offset) (c : Cursor) :
    Blames offset (switchTable offset c) := by
  apply (field_blames offset 4 c).bind
  intro count
  by_cases hshort : count.2.rest.length / 4 < count.1
  · simp only [hshort, if_true]
    exact faultsWith_error rfl
  · simp only [hshort, if_false]
    apply (entries_blames offset count.1 count.2).bind
    intro displacements
    apply (faultsWith_mapM (branchTarget_blames offset _) _).bind
    intro targets
    exact faultsWith_ok _ _

/-- A token that stands for nothing is blamed on the call. -/
theorem callable_blames (resolve : Resolver) (opcode : Opcode) (offset : Offset) (token : Token) :
    Blames offset (callable resolve opcode offset token) := by
  unfold callable
  cases resolve token with
  | some method => exact faultsWith_ok _ _
  | none =>
    by_cases hpop : opcode.pop = .varPop
    · simp only [hpop, if_true]
      exact faultsWith_error rfl
    · simp only [hpop, if_false]
      exact faultsWith_ok _ _

/-- A call fails for its field or for its token. -/
theorem call_blames (resolve : Resolver) (opcode : Opcode) (offset : Offset) (c : Cursor) :
    Blames offset (call resolve opcode offset c) := by
  apply (field_blames offset 4 c).bind
  intro n
  apply (callable_blames resolve opcode offset _).bind
  intro o
  exact faultsWith_ok _ _

/-- Whatever its type, an operand is blamed on its instruction. -/
theorem operand_blames (resolve : Resolver) (opcode : Opcode) (offset : Offset) (c : Cursor) :
    Blames offset (operand resolve opcode offset c) := by
  unfold operand
  cases opcode.operandType with
  | inlineNone => exact faultsWith_ok _ _
  | shortInlineI | inlineI | inlineI8 | shortInlineR | inlineR | shortInlineVar | shortInlineArg
  | inlineVar | inlineArg | inlineField | inlineType | inlineTok | inlineString =>
    exact immediate_blames _ _ _ _
  | shortInlineBrTarget | inlineBrTarget => exact branch_blames _ _ _
  | inlineMethod | inlineSig => exact call_blames _ _ _ _
  | inlineSwitch => exact switchTable_blames _ _

/-- An opcode that is cut off is blamed on its own place. -/
theorem opcodeValue_blames (offset : Offset) (c : Cursor) :
    Blames offset (opcodeValue offset c) := by
  apply (field_blames offset 1 c).bind
  intro first
  by_cases hescape : first.1 = Opcode.escapeByte.toNat
  · simp only [hescape, if_true]
    apply (field_blames offset 1 first.2).bind
    intro second
    exact faultsWith_ok _ _
  · simp only [hescape, if_false]
    exact faultsWith_ok _ _

/-- An instruction that cannot be read is blamed with its own offset. -/
theorem instruction_blames (resolve : Resolver) (c : Cursor) :
    Blames c.position (instruction resolve c) := by
  apply (opcodeValue_blames c.position c).bind
  intro value
  cases hopcode : Opcode.ofValue? value.1 with
  | none =>
    simp only [hopcode]
    exact faultsWith_error rfl
  | some opcode =>
    simp only [hopcode]
    apply (operand_blames resolve opcode c.position value.2).bind
    intro o
    exact faultsWith_ok _ _

/-- The number of bytes of some instructions. -/
def bodyWidth : List Instruction → Nat
  | [] => 0
  | i :: rest => i.width + bodyWidth rest

/-- Reads the instructions one after the other, from one cursor to the other. -/
def Reads (resolve : Resolver) : Cursor → List Instruction → Cursor → Prop
  | c, [], c' => c' = c
  | c, i :: rest, c' => ∃ next, instruction resolve c = .ok (i, next) ∧ Reads resolve next rest c'

variable {resolve : Resolver} {c c' d : Cursor} {body : List Instruction}

/-- Reading some instructions and then others is reading all of them. -/
theorem reads_append (resolve : Resolver) (c : Cursor) (front back : List Instruction)
    (c' : Cursor) :
    Reads resolve c (front ++ back) c' ↔
      ∃ middle, Reads resolve c front middle ∧ Reads resolve middle back c' := by
  induction front generalizing c with
  | nil => simp [Reads]
  | cons i rest ih =>
    simp only [List.cons_append, Reads, ih]
    constructor
    · intro h
      obtain ⟨next, hi, middle, hrest, hback⟩ := h
      exact ⟨middle, ⟨next, hi, hrest⟩, hback⟩
    · intro h
      obtain ⟨middle, ⟨next, hi, hrest⟩, hback⟩ := h
      exact ⟨next, hi, middle, hrest, hback⟩

/-- Reading instructions takes their widths. -/
theorem Reads.advances (h : Reads resolve c body c') : c.Advances (bodyWidth body) c' := by
  induction body generalizing c with
  | nil =>
    obtain rfl := h
    exact c'.advances_zero
  | cons i rest ih =>
    obtain ⟨next, hi, hrest⟩ := h
    rw [bodyWidth]
    exact (instruction_advances hi).trans (ih hrest)

/-- Instructions are decided by their own bytes. -/
theorem Reads.shared (h : Reads resolve c body c')
    (hshares : c.Shares (bodyWidth body) d) :
    Reads resolve d body (d.skip (bodyWidth body)) := by
  induction body generalizing c d with
  | nil => rfl
  | cons i rest ih =>
    obtain ⟨next, hi, hrest⟩ := h
    obtain rfl := (instruction_advances hi).skips
    rw [bodyWidth] at hshares ⊢
    have hnext := ih hrest hshares.right
    rw [Cursor.skip_skip] at hnext
    exact ⟨d.skip i.width, instruction_local resolve hi hshares.left, hnext⟩

/-- An instruction that is read comes first, before whatever becomes of the other bytes. -/
theorem bodyFrom_of_instruction {i : Instruction} (h : instruction resolve c = .ok (i, c')) :
    bodyFrom resolve c = (bodyFrom resolve c').map (i :: ·) := by
  have hmore : c.rest ≠ [] := by
    intro hend
    have henough := (instruction_advances h).enough
    have hpos := i.width_pos
    rw [hend, List.length_nil] at henough
    omega
  rw [bodyFrom, if_neg hmore]
  cases hinstruction : instruction resolve c with
  | error e => simp [hinstruction] at h
  | ok result =>
    obtain rfl : result = (i, c') := Except.ok.inj (hinstruction.symm.trans h)
    cases hrest : bodyFrom resolve c' with
    | error e => simp [hrest, Except.map]
    | ok rest => simp [hrest, Except.map]

/-- Instructions that are read come first, before whatever becomes of the other bytes. -/
theorem Reads.bodyFrom_eq (h : Reads resolve c body c') :
    bodyFrom resolve c = (bodyFrom resolve c').map (body ++ ·) := by
  induction body generalizing c with
  | nil =>
    obtain rfl := h
    cases bodyFrom resolve c' with
    | error e => rfl
    | ok rest => rfl
  | cons i rest ih =>
    obtain ⟨next, hi, hrest⟩ := h
    rw [bodyFrom_of_instruction hi, ih hrest]
    cases bodyFrom resolve c' with
    | error e => rfl
    | ok back => rfl

/-- The decoder reads instructions up to the end of the bytes. -/
theorem exists_reads_of_ok (h : bodyFrom resolve c = .ok body) :
    ∃ c', Reads resolve c body c' ∧ c'.rest = [] := by
  induction body generalizing c with
  | nil => exact ⟨c, rfl, (bodyFrom_eq_nil_iff resolve c).mp h⟩
  | cons i rest ih =>
    obtain ⟨next, hi, hrest⟩ := (bodyFrom_eq_cons_iff resolve c i rest).mp h
    obtain ⟨c', hreads, hend⟩ := ih hrest
    exact ⟨c', ⟨next, hi, hreads⟩, hend⟩

/-- Where the decoder fails, it has read instructions up to one that cannot be read. -/
theorem exists_reads_of_error {e : DecodeError} (h : bodyFrom resolve c = .error e) :
    ∃ body c', Reads resolve c body c' ∧ c'.rest ≠ [] ∧ instruction resolve c' = .error e := by
  fun_induction bodyFrom resolve c with
  | case1 c hend => cases h
  | case2 c hmore e' hi =>
    cases h
    exact ⟨[], c, rfl, hmore, hi⟩
  | case3 c hmore i next hi e' hrest ih =>
    cases h
    obtain ⟨body, c', hreads, hmore', hfault⟩ := ih hrest
    exact ⟨i :: body, c', ⟨next, hi, hreads⟩, hmore', hfault⟩
  | case4 c hmore i next hi body hrest ih => cases h

/-- Bytes that are cut where instructions end decode to these instructions. -/
theorem Reads.decodeBody_take {bytes : List UInt8} (h : Reads resolve ⟨0, bytes⟩ body c') :
    decodeBody resolve (bytes.take c'.position) = .ok body := by
  obtain ⟨henough, rfl⟩ := h.advances
  have hshares : Cursor.Shares ⟨0, bytes⟩ (bodyWidth body) ⟨0, bytes.take (bodyWidth body)⟩ := by
    refine ⟨rfl, ?_, ?_⟩
    · simp only [List.take_take, Nat.min_self]
    · simp only [List.length_take_of_le henough, Nat.le_refl]
  have hreads := h.shared hshares
  have hend : (Cursor.skip ⟨0, bytes.take (bodyWidth body)⟩ (bodyWidth body)).rest = [] := by
    simp [Cursor.skip]
  simp only [Cursor.skip, Nat.zero_add]
  unfold decodeBody
  rw [hreads.bodyFrom_eq, (bodyFrom_eq_nil_iff resolve _).mpr hend]
  simp [Except.map]

end Decode

/-- How decoding follows the bytes from the left, for a fixed meaning of tokens. -/
structure PrefixStable (resolve : Resolver) : Prop where
  /-- More bytes add instructions behind those of a body, or a fault that is not inside it. -/
  extend : ∀ bytes body, decodeBody resolve bytes = .ok body → ∀ more,
    (∃ others, decodeBody resolve (bytes ++ more) = .ok (body ++ others)) ∨
      ∃ e, decodeBody resolve (bytes ++ more) = .error e ∧ bytes.length ≤ e.offset
  /-- The bytes before an instruction decode to the instructions before it. -/
  cut : ∀ bytes body, decodeBody resolve bytes = .ok body → ∀ (k : Nat) i, body[k]? = some i →
    decodeBody resolve (bytes.take i.offset) = .ok (body.take k)
  /-- A fault is inside the bytes, and the bytes before it decode. -/
  first : ∀ bytes e, decodeBody resolve bytes = .error e →
    e.offset < bytes.length ∧ ∃ body, decodeBody resolve (bytes.take e.offset) = .ok body

namespace Decode

variable {resolve : Resolver} {bytes : List UInt8} {body : List Instruction}

/-- A fault is never before the place where decoding starts. -/
theorem position_le_of_error {c : Cursor} {e : DecodeError} (h : bodyFrom resolve c = .error e) :
    c.position ≤ e.offset := by
  obtain ⟨body, c', hreads, -, hfault⟩ := exists_reads_of_error h
  rw [instruction_blames resolve c' e hfault, hreads.advances.skips]
  exact Nat.le_add_right _ _

/-- A body is read from its bytes also where more bytes follow. -/
theorem reads_of_decodeBody (h : decodeBody resolve bytes = .ok body) (more : List UInt8) :
    Reads resolve ⟨0, bytes ++ more⟩ body ⟨bytes.length, more⟩ := by
  obtain ⟨c', hreads, hend⟩ := exists_reads_of_ok h
  obtain ⟨henough, rfl⟩ := hreads.advances
  have hall : bodyWidth body = bytes.length := by
    have hdrop := List.drop_eq_nil_iff.mp hend
    exact Nat.le_antisymm henough hdrop
  have hshares : Cursor.Shares ⟨0, bytes⟩ (bodyWidth body) ⟨0, bytes ++ more⟩ := by
    rw [hall]
    refine ⟨rfl, ?_, ?_⟩
    · simp only [List.take_left, List.take_length]
    · simp only [List.length_append, Nat.le_add_right]
  have hread := hreads.shared hshares
  rw [hall] at hread
  simpa only [Cursor.skip, Nat.zero_add, List.drop_left] using hread

end Decode

/-- Decoding is stable under prefixes, and the fault that it reports is the first. -/
theorem decodeBody_prefixStable (resolve : Resolver) : PrefixStable resolve where
  extend bytes body h more := by
    have hwhole : decodeBody resolve (bytes ++ more) =
        (Decode.bodyFrom resolve ⟨bytes.length, more⟩).map (body ++ ·) :=
      (Decode.reads_of_decodeBody h more).bodyFrom_eq
    rw [hwhole]
    cases hmore : Decode.bodyFrom resolve ⟨bytes.length, more⟩ with
    | ok others => exact .inl ⟨others, rfl⟩
    | error e => exact .inr ⟨e, rfl, Decode.position_le_of_error hmore⟩
  cut bytes body h k i hi := by
    obtain ⟨c', hreads, -⟩ := Decode.exists_reads_of_ok h
    obtain ⟨hk, rfl⟩ := List.getElem?_eq_some_iff.mp hi
    rw [← List.take_append_drop k body, Decode.reads_append, List.drop_eq_getElem_cons hk] at hreads
    obtain ⟨middle, hfront, next, hinstruction, -⟩ := hreads
    obtain ⟨-, -, -, -, -, hoffset⟩ := (Decode.instruction_eq_ok_iff _ _ _ _).mp hinstruction
    rw [hoffset]
    exact hfront.decodeBody_take
  first bytes e h := by
    obtain ⟨body, c', hreads, hmore, hfault⟩ := Decode.exists_reads_of_error h
    rw [Decode.instruction_blames resolve c' e hfault]
    refine ⟨?_, body, hreads.decodeBody_take⟩
    obtain ⟨-, rfl⟩ := hreads.advances
    simpa [Cursor.skip] using hmore

/-- The table loop with a byte too many, cut before its call, and cut inside its table. -/
theorem tableLoopBytes_prefixStable :
    (decodeBody resolveTick (tableLoopBytes ++ [0xFF]) = .error (.unknownOpcode 26 0xFF) ∧
      ∃ e, decodeBody resolveTick (tableLoopBytes ++ [0xFF]) = .error e ∧
        tableLoopBytes.length ≤ e.offset) ∧
      decodeBody resolveTick (tableLoopBytes.take 18) = .ok (tableLoop.take 4) ∧
      decodeBody resolveTick (tableLoopBytes.take 17) = .error (.unexpectedEnd 5) ∧
      ∃ body, decodeBody resolveTick ((tableLoopBytes.take 17).take 5) = .ok body := by
  have hstable := decodeBody_prefixStable resolveTick
  have hlong : decodeBody resolveTick (tableLoopBytes ++ [0xFF]) =
      .error (.unknownOpcode 26 0xFF) := by decide +kernel
  have hshort : decodeBody resolveTick (tableLoopBytes.take 17) = .error (.unexpectedEnd 5) := by
    decide +kernel
  have hextend := hstable.extend tableLoopBytes tableLoop decodeBody_tableLoop [0xFF]
  rw [hlong] at hextend ⊢
  refine ⟨⟨rfl, hextend.resolve_left ?_⟩, ?_, hshort, ?_⟩
  · intro h
    obtain ⟨others, h⟩ := h
    cases h
  · exact hstable.cut tableLoopBytes tableLoop decodeBody_tableLoop 4 _ rfl
  · exact (hstable.first (tableLoopBytes.take 17) _ hshort).2

end Unstack
