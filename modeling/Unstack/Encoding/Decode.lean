import Unstack.Bytes
import Unstack.Instruction
import Unstack.Opcode.Table
import Unstack.Outcome

/-!
# Decoding method bodies

Bytes into located instructions. Branch displacements become absolute offsets. A method token is
looked up: where the stack effect of the instruction depends on the method it must be known,
elsewhere an unknown one stays a token. Every fault names the offset of the instruction that it
was found in.

The bytes are read through a cursor, and each reader takes as many as it needs. No reader is told
the width of the instruction; that they take it is the last fact about them.
-/

namespace Unstack

/-- What tokens of methods and call signatures stand for. -/
abbrev Resolver := Token → Option MethodRef

/-- Why bytes are not a method body, at the offset of the first bad instruction. -/
inductive DecodeError where
  /-- A byte, or an escaped pair, that is no opcode. -/
  | unknownOpcode (offset : Offset) (value : Nat)
  /-- The body ends inside the instruction. -/
  | unexpectedEnd (offset : Offset)
  /-- A branch to before the start of the body. -/
  | branchOutOfRange (offset : Offset)
  /-- A call of a method that is not known. -/
  | unresolvedToken (offset : Offset) (token : Token)
deriving DecidableEq, Repr

namespace DecodeError

/-- The offset of the instruction at fault. -/
def offset : DecodeError → Offset
  | .unknownOpcode offset _ => offset
  | .unexpectedEnd offset => offset
  | .branchOutOfRange offset => offset
  | .unresolvedToken offset _ => offset

/-- The wording of a fault. -/
def message : DecodeError → String
  | .unknownOpcode offset value =>
    "unknown opcode 0x" ++ Numeral.hexadecimal 2 value ++ " at " ++ offset.label
  | .unexpectedEnd offset => "method body ends inside the instruction at " ++ offset.label
  | .branchOutOfRange offset =>
    "branch at " ++ offset.label ++ " jumps before the start of the method"
  | .unresolvedToken offset token =>
    "cannot resolve method token " ++ token.text ++ " at " ++ offset.label

end DecodeError

/-- A place in the bytes of a body: its offset, and the bytes from there on. -/
structure Cursor where
  position : Offset
  rest : List UInt8
deriving DecidableEq, Repr

namespace Cursor

/-- The place so many bytes further on. -/
def skip (c : Cursor) (count : Nat) : Cursor := ⟨c.position + count, c.rest.drop count⟩

/-- From one cursor to the other exactly `count` bytes are taken. -/
structure Advances (c : Cursor) (count : Nat) (c' : Cursor) : Prop where
  enough : count ≤ c.rest.length
  skips : c' = c.skip count

/-- Taking no bytes stays in place. -/
theorem advances_zero (c : Cursor) : c.Advances 0 c := ⟨Nat.zero_le _, rfl⟩

/-- Bytes taken one after the other add up. -/
theorem Advances.trans {c c' c'' : Cursor} {m n : Nat} (h : c.Advances m c')
    (h' : c'.Advances n c'') : c.Advances (m + n) c'' := by
  obtain ⟨henough, rfl⟩ := h
  obtain ⟨henough', rfl⟩ := h'
  refine ⟨?_, ?_⟩
  · simp only [skip, List.length_drop] at henough'
    omega
  · simp only [skip, List.drop_drop, Nat.add_assoc]

end Cursor

namespace Decode

/-- Reads `width` bytes for the instruction at `offset`. -/
def field (offset : Offset) (width : Nat) (c : Cursor) : Except DecodeError (Nat × Cursor) :=
  match Bytes.read? width c.rest with
  | some n => .ok (n, c.skip width)
  | none => .error (.unexpectedEnd offset)

/-- Reads an operand that is made of one field. -/
def immediate (offset : Offset) (width : Nat) (make : Nat → Operand) (c : Cursor) :
    Except DecodeError (Operand × Cursor) := do
  let (n, c) ← field offset width c
  return (make n, c)

/-- The target of a displacement counted from the offset `next`. -/
def branchTarget (offset next : Offset) (displacement : Int) : Except DecodeError Offset :=
  match Offset.reach next displacement with
  | some target => .ok target
  | none => .error (.branchOutOfRange offset)

/-- Reads a displacement, which counts from the place behind it. -/
def branch (offset : Offset) (width : Nat) (c : Cursor) :
    Except DecodeError (Operand × Cursor) := do
  let (n, c) ← field offset width c
  let target ← branchTarget offset c.position (Bytes.signed width n)
  return (.target target, c)

/-- Reads `count` entries of a switch table, each four bytes wide. -/
def entries (offset : Offset) : Nat → Cursor → Except DecodeError (List Int × Cursor)
  | 0, c => .ok ([], c)
  | count + 1, c => do
    let (n, c) ← field offset 4 c
    let (displacements, c) ← entries offset count c
    return (Bytes.signed 4 n :: displacements, c)

/-- Reads a switch table: the number of its entries, then the entries, which count from the place
behind them all. The whole table must be there before any entry is looked at. -/
def switchTable (offset : Offset) (c : Cursor) : Except DecodeError (Operand × Cursor) := do
  let (count, c) ← field offset 4 c
  if c.rest.length / 4 < count then throw (.unexpectedEnd offset)
  let (displacements, c) ← entries offset count c
  let targets ← displacements.mapM (branchTarget offset c.position)
  return (.targets targets, c)

/-- The operand of a token that may stand for a method. -/
def callable (resolve : Resolver) (opcode : Opcode) (offset : Offset) (token : Token) :
    Except DecodeError Operand :=
  match resolve token with
  | some method => .ok (.method method)
  | none =>
    if opcode.pop = .varPop then .error (.unresolvedToken offset token) else .ok (.token token)

/-- Reads a token that may stand for a method. -/
def call (resolve : Resolver) (opcode : Opcode) (offset : Offset) (c : Cursor) :
    Except DecodeError (Operand × Cursor) := do
  let (n, c) ← field offset 4 c
  let operand ← callable resolve opcode offset ⟨UInt32.ofNat n⟩
  return (operand, c)

/-- Reads the operand of an opcode for the instruction at `offset`. -/
def operand (resolve : Resolver) (opcode : Opcode) (offset : Offset) (c : Cursor) :
    Except DecodeError (Operand × Cursor) :=
  match opcode.operandType with
  | .inlineNone => .ok (.none, c)
  | .shortInlineI =>
    immediate offset 1 (fun n => .int (if opcode.hasSignedByte then Bytes.signed 1 n else n)) c
  | .inlineI => immediate offset 4 (fun n => .int (Bytes.signed 4 n)) c
  | .inlineI8 => immediate offset 8 (fun n => .long (Bytes.signed 8 n)) c
  | .shortInlineR => immediate offset 4 (fun n => .float (UInt32.ofNat n)) c
  | .inlineR => immediate offset 8 (fun n => .double (UInt64.ofNat n)) c
  | .shortInlineVar | .shortInlineArg => immediate offset 1 .index c
  | .inlineVar | .inlineArg => immediate offset 2 .index c
  | .shortInlineBrTarget => branch offset 1 c
  | .inlineBrTarget => branch offset 4 c
  | .inlineSwitch => switchTable offset c
  | .inlineMethod | .inlineSig => call resolve opcode offset c
  | .inlineField | .inlineType | .inlineTok | .inlineString =>
    immediate offset 4 (fun n => .token ⟨UInt32.ofNat n⟩) c

/-- Reads an opcode value: one byte, or the escape byte and another one. -/
def opcodeValue (offset : Offset) (c : Cursor) : Except DecodeError (Nat × Cursor) := do
  let (first, c) ← field offset 1 c
  if first = Opcode.escapeByte.toNat then
    let (second, c) ← field offset 1 c
    return (0xFE00 + second, c)
  else return (first, c)

/-- Reads one instruction. -/
def instruction (resolve : Resolver) (c : Cursor) : Except DecodeError (Instruction × Cursor) := do
  let offset := c.position
  let (value, c) ← opcodeValue offset c
  match Opcode.ofValue? value with
  | none => throw (.unknownOpcode offset value)
  | some opcode =>
    let (operand, c) ← operand resolve opcode offset c
    return (⟨offset, opcode, operand⟩, c)

/-- A field is read exactly if its bytes are there. -/
theorem field_eq_ok_iff (offset : Offset) (width : Nat) (c : Cursor) (n : Nat) (c' : Cursor) :
    field offset width c = .ok (n, c') ↔
      c.Advances width c' ∧ n = Bytes.toNat (c.rest.take width) := by
  unfold field Bytes.read?
  by_cases henough : width ≤ c.rest.length
  · have hlength : (c.rest.take width).length = width := List.length_take_of_le henough
    simp only [hlength, if_true, Except.ok.injEq, Prod.mk.injEq]
    constructor
    · rintro ⟨rfl, rfl⟩
      exact ⟨⟨henough, rfl⟩, rfl⟩
    · rintro ⟨⟨-, rfl⟩, rfl⟩
      exact ⟨rfl, rfl⟩
  · have hlength : (c.rest.take width).length ≠ width := by
      rw [List.length_take]
      omega
    simp only [hlength, if_false, reduceCtorEq, false_iff]
    rintro ⟨⟨henough', -⟩, -⟩
    exact henough henough'

/-- Reading a field takes its width. -/
theorem field_advances {offset : Offset} {width : Nat} {c : Cursor} {n : Nat} {c' : Cursor}
    (h : field offset width c = .ok (n, c')) : c.Advances width c' :=
  ((field_eq_ok_iff offset width c n c').mp h).1

/-- A field holds a number of its width. -/
theorem field_lt {offset : Offset} {width : Nat} {c : Cursor} {n : Nat} {c' : Cursor}
    (h : field offset width c = .ok (n, c')) : n < Nat.pow 256 width := by
  obtain ⟨⟨henough, -⟩, rfl⟩ := (field_eq_ok_iff offset width c n c').mp h
  have hlt := Bytes.toNat_lt (c.rest.take width)
  rwa [List.length_take_of_le henough] at hlt

/-- An operand of one field is made of what is read. -/
theorem immediate_eq_ok_iff (offset : Offset) (width : Nat) (make : Nat → Operand) (c : Cursor)
    (o : Operand) (c' : Cursor) :
    immediate offset width make c = .ok (o, c') ↔
      ∃ n, field offset width c = .ok (n, c') ∧ make n = o := by
  unfold immediate
  rw [Outcome.bind_eq_ok_iff]
  constructor
  · rintro ⟨⟨n, c₁⟩, hfield, h⟩
    cases h
    exact ⟨n, hfield, rfl⟩
  · rintro ⟨n, hfield, rfl⟩
    exact ⟨(n, c'), hfield, rfl⟩

/-- A displacement has a target exactly if it leads to an offset. -/
theorem branchTarget_eq_ok_iff (offset next : Offset) (displacement : Int) (target : Offset) :
    branchTarget offset next displacement = .ok target ↔ (next : Int) + displacement = target := by
  unfold branchTarget Offset.reach
  by_cases h : 0 ≤ (next : Int) + displacement
  · simp only [h, if_true, Except.ok.injEq]
    constructor
    · rintro rfl
      exact (Int.toNat_of_nonneg h).symm
    · intro htarget
      rw [htarget, Int.toNat_natCast]
  · simp only [h, if_false, reduceCtorEq, false_iff]
    intro htarget
    exact h (htarget ▸ Int.natCast_nonneg target)

/-- A branch is read as its displacement and the target that it leads to. -/
theorem branch_eq_ok_iff (offset : Offset) (width : Nat) (c : Cursor) (o : Operand) (c' : Cursor) :
    branch offset width c = .ok (o, c') ↔
      ∃ (n : Nat) (target : Offset), field offset width c = .ok (n, c') ∧
        (c'.position : Int) + Bytes.signed width n = target ∧ o = .target target := by
  unfold branch
  rw [Outcome.bind_eq_ok_iff]
  constructor
  · rintro ⟨⟨n, c₁⟩, hfield, h⟩
    obtain ⟨target, htarget, h⟩ := (Outcome.bind_eq_ok_iff _ _ _).mp h
    cases h
    exact ⟨n, target, hfield, (branchTarget_eq_ok_iff _ _ _ _).mp htarget, rfl⟩
  · rintro ⟨n, target, hfield, htarget, rfl⟩
    refine ⟨(n, c'), hfield, (Outcome.bind_eq_ok_iff _ _ _).mpr ⟨target, ?_, rfl⟩⟩
    exact (branchTarget_eq_ok_iff _ _ _ _).mpr htarget

/-- One entry is read before the others. -/
theorem entries_succ_eq_ok_iff (offset : Offset) (count : Nat) (c : Cursor)
    (displacements : List Int) (c' : Cursor) :
    entries offset (count + 1) c = .ok (displacements, c') ↔
      ∃ n c₁ others, field offset 4 c = .ok (n, c₁) ∧
        entries offset count c₁ = .ok (others, c') ∧ displacements = Bytes.signed 4 n :: others := by
  rw [entries, Outcome.bind_eq_ok_iff]
  constructor
  · rintro ⟨⟨n, c₁⟩, hfield, h⟩
    obtain ⟨⟨others, c₂⟩, hothers, h⟩ := (Outcome.bind_eq_ok_iff _ _ _).mp h
    cases h
    exact ⟨n, c₁, others, hfield, hothers, rfl⟩
  · rintro ⟨n, c₁, others, hfield, hothers, rfl⟩
    exact ⟨(n, c₁), hfield, (Outcome.bind_eq_ok_iff _ _ _).mpr ⟨(others, c'), hothers, rfl⟩⟩

/-- So many entries are read, each from four bytes. -/
theorem entries_advances {offset : Offset} {count : Nat} {c : Cursor} {displacements : List Int}
    {c' : Cursor} (h : entries offset count c = .ok (displacements, c')) :
    c.Advances (4 * count) c' ∧ displacements.length = count := by
  induction count generalizing c displacements with
  | zero =>
    cases h
    exact ⟨c'.advances_zero, rfl⟩
  | succ count ih =>
    obtain ⟨n, c₁, others, hfield, hothers, rfl⟩ := (entries_succ_eq_ok_iff _ _ _ _ _).mp h
    obtain ⟨hadvances, hlength⟩ := ih hothers
    refine ⟨?_, by simp [hlength]⟩
    rw [Nat.mul_succ, Nat.add_comm]
    exact (field_advances hfield).trans hadvances

/-- A switch table is read as its count, its entries and the targets that they lead to. -/
theorem switchTable_eq_ok_iff (offset : Offset) (c : Cursor) (o : Operand) (c' : Cursor) :
    switchTable offset c = .ok (o, c') ↔
      ∃ count c₁ displacements targets, field offset 4 c = .ok (count, c₁) ∧
        count ≤ c₁.rest.length / 4 ∧ entries offset count c₁ = .ok (displacements, c') ∧
        displacements.mapM (branchTarget offset c'.position) = .ok targets ∧
        o = .targets targets := by
  unfold switchTable
  rw [Outcome.bind_eq_ok_iff]
  constructor
  · rintro ⟨⟨count, c₁⟩, hcount, h⟩
    by_cases hshort : c₁.rest.length / 4 < count
    · simp only [hshort, if_true] at h
      cases h
    · simp only [hshort, if_false] at h
      obtain ⟨⟨displacements, c₂⟩, hentries, h⟩ := (Outcome.bind_eq_ok_iff _ _ _).mp h
      obtain ⟨targets, htargets, h⟩ := (Outcome.bind_eq_ok_iff _ _ _).mp h
      cases h
      exact ⟨count, c₁, displacements, targets, hcount, Nat.not_lt.mp hshort, hentries, htargets, rfl⟩
  · rintro ⟨count, c₁, displacements, targets, hcount, henough, hentries, htargets, rfl⟩
    refine ⟨(count, c₁), hcount, ?_⟩
    simp only [Nat.not_lt.mpr henough, if_false]
    refine (Outcome.bind_eq_ok_iff _ _ _).mpr ⟨(displacements, c'), hentries, ?_⟩
    exact (Outcome.bind_eq_ok_iff _ _ _).mpr ⟨targets, htargets, rfl⟩

/-- A token is kept as its method, or as itself where the method is not needed. -/
theorem callable_eq_ok_iff (resolve : Resolver) (opcode : Opcode) (offset : Offset) (token : Token)
    (o : Operand) :
    callable resolve opcode offset token = .ok o ↔
      (∃ method, resolve token = some method ∧ o = .method method) ∨
        resolve token = none ∧ opcode.pop ≠ .varPop ∧ o = .token token := by
  unfold callable
  cases hresolve : resolve token with
  | some method => simp [eq_comm]
  | none =>
    by_cases hpop : opcode.pop = .varPop
    · simp [hpop]
    · simp [hpop, eq_comm]

/-- A callable operand is made of the token that is read. -/
theorem call_eq_ok_iff (resolve : Resolver) (opcode : Opcode) (offset : Offset) (c : Cursor)
    (o : Operand) (c' : Cursor) :
    call resolve opcode offset c = .ok (o, c') ↔
      ∃ n, field offset 4 c = .ok (n, c') ∧
        callable resolve opcode offset ⟨UInt32.ofNat n⟩ = .ok o := by
  unfold call
  rw [Outcome.bind_eq_ok_iff]
  constructor
  · rintro ⟨⟨n, c₁⟩, hfield, h⟩
    obtain ⟨o', hcallable, h⟩ := (Outcome.bind_eq_ok_iff _ _ _).mp h
    cases h
    exact ⟨n, hfield, hcallable⟩
  · rintro ⟨n, hfield, hcallable⟩
    exact ⟨(n, c'), hfield, (Outcome.bind_eq_ok_iff _ _ _).mpr ⟨o, hcallable, rfl⟩⟩

/-- An opcode value is read as one byte, or as a byte behind the escape byte. -/
theorem opcodeValue_eq_ok_iff (offset : Offset) (c : Cursor) (value : Nat) (c' : Cursor) :
    opcodeValue offset c = .ok (value, c') ↔
      (field offset 1 c = .ok (value, c') ∧ value ≠ Opcode.escapeByte.toNat) ∨
        ∃ c₁ second, field offset 1 c = .ok (Opcode.escapeByte.toNat, c₁) ∧
          field offset 1 c₁ = .ok (second, c') ∧ value = 0xFE00 + second := by
  unfold opcodeValue
  rw [Outcome.bind_eq_ok_iff]
  constructor
  · rintro ⟨⟨first, c₁⟩, hfirst, h⟩
    by_cases hescape : first = Opcode.escapeByte.toNat
    · simp only [hescape, if_true] at h
      obtain ⟨⟨second, c₂⟩, hsecond, h⟩ := (Outcome.bind_eq_ok_iff _ _ _).mp h
      cases h
      exact .inr ⟨c₁, second, hescape ▸ hfirst, hsecond, rfl⟩
    · simp only [hescape, if_false] at h
      cases h
      exact .inl ⟨hfirst, hescape⟩
  · rintro (⟨hfirst, hescape⟩ | ⟨c₁, second, hfirst, hsecond, rfl⟩)
    · refine ⟨(value, c'), hfirst, ?_⟩
      simp only [hescape, if_false]
      rfl
    · refine ⟨(Opcode.escapeByte.toNat, c₁), hfirst, ?_⟩
      simp only [if_true]
      exact (Outcome.bind_eq_ok_iff _ _ _).mpr ⟨(second, c'), hsecond, rfl⟩

/-- An instruction is read as its opcode value and the operand of that opcode. -/
theorem instruction_eq_ok_iff (resolve : Resolver) (c : Cursor) (i : Instruction) (c' : Cursor) :
    instruction resolve c = .ok (i, c') ↔
      ∃ value c₁, opcodeValue c.position c = .ok (value, c₁) ∧
        Opcode.ofValue? value = some i.opcode ∧
        operand resolve i.opcode c.position c₁ = .ok (i.operand, c') ∧ i.offset = c.position := by
  unfold instruction
  rw [Outcome.bind_eq_ok_iff]
  constructor
  · rintro ⟨⟨value, c₁⟩, hvalue, h⟩
    cases hopcode : Opcode.ofValue? value with
    | none =>
      simp only [hopcode] at h
      cases h
    | some opcode =>
      simp only [hopcode] at h
      obtain ⟨⟨o, c₂⟩, hoperand, h⟩ := (Outcome.bind_eq_ok_iff _ _ _).mp h
      cases h
      exact ⟨value, c₁, hvalue, hopcode, hoperand, rfl⟩
  · rintro ⟨value, c₁, hvalue, hopcode, hoperand, hoffset⟩
    refine ⟨(value, c₁), hvalue, ?_⟩
    simp only [hopcode]
    refine (Outcome.bind_eq_ok_iff _ _ _).mpr ⟨(i.operand, c'), hoperand, ?_⟩
    simp only [← hoffset]
    rfl

/-- An instruction that is read has an opcode of the table. -/
theorem opcode_mem_table {resolve : Resolver} {c c' : Cursor} {i : Instruction}
    (h : instruction resolve c = .ok (i, c')) : i.opcode ∈ Opcode.table := by
  obtain ⟨value, c₁, -, hvalue, -⟩ := (instruction_eq_ok_iff resolve c i c').mp h
  exact List.mem_of_find?_eq_some hvalue

/-- Reading an operand takes the bytes that its type prescribes. -/
theorem operand_advances {resolve : Resolver} {opcode : Opcode} {offset : Offset} {c c' : Cursor}
    {o : Operand} (h : operand resolve opcode offset c = .ok (o, c')) :
    c.Advances (Instruction.operandWidth ⟨offset, opcode, o⟩) c' := by
  unfold operand at h
  unfold Instruction.operandWidth
  cases htype : opcode.operandType with
  | inlineNone =>
    simp only [htype] at h
    cases h
    exact c.advances_zero
  | shortInlineI | inlineI | inlineI8 | shortInlineR | inlineR | shortInlineVar | shortInlineArg
  | inlineVar | inlineArg | inlineField | inlineType | inlineTok | inlineString =>
    simp only [htype] at h
    obtain ⟨n, hfield, -⟩ := (immediate_eq_ok_iff _ _ _ _ _ _).mp h
    exact field_advances hfield
  | shortInlineBrTarget | inlineBrTarget =>
    simp only [htype] at h
    obtain ⟨n, target, hfield, -⟩ := (branch_eq_ok_iff _ _ _ _ _).mp h
    exact field_advances hfield
  | inlineMethod | inlineSig =>
    simp only [htype] at h
    obtain ⟨n, hfield, -⟩ := (call_eq_ok_iff _ _ _ _ _ _).mp h
    exact field_advances hfield
  | inlineSwitch =>
    simp only [htype] at h
    obtain ⟨count, c₁, displacements, targets, hcount, -, hentries, htargets, rfl⟩ :=
      (switchTable_eq_ok_iff _ _ _ _).mp h
    obtain ⟨hadvances, hlength⟩ := entries_advances hentries
    have hsame : targets.length = count := (Outcome.length_of_mapM htargets).trans hlength
    rw [← hsame] at hadvances
    exact (field_advances hcount).trans hadvances

/-- An opcode that is found has one byte where one is read, and two where they are escaped. -/
theorem opcodeValue_cases {offset : Offset} {c c' : Cursor} {value : Nat} {opcode : Opcode}
    (h : opcodeValue offset c = .ok (value, c')) (hopcode : Opcode.ofValue? value = some opcode) :
    (opcode.width = 1 ∧ field offset 1 c = .ok (value, c') ∧ value ≠ Opcode.escapeByte.toNat) ∨
      (opcode.width = 1 + 1 ∧
        ∃ c₁ second, field offset 1 c = .ok (Opcode.escapeByte.toNat, c₁) ∧
          field offset 1 c₁ = .ok (second, c') ∧ value = 0xFE00 + second) := by
  have hfound : opcode.value = value := Opcode.value_of_ofValue? hopcode
  rcases (opcodeValue_eq_ok_iff _ _ _ _).mp h with hone | htwo
  · have hbyte : value < 256 := field_lt hone.1
    have hwidth : opcode.width = 1 := by
      simp [Opcode.width, Opcode.isTwoByte, hfound]
      omega
    exact .inl ⟨hwidth, hone⟩
  · have hwidth : opcode.width = 1 + 1 := by
      obtain ⟨c₁, second, -, -, hvalue⟩ := htwo
      simp [Opcode.width, Opcode.isTwoByte, hfound]
      omega
    exact .inr ⟨hwidth, htwo⟩

/-- Reading an opcode value takes as many bytes as the opcode found for it has. -/
theorem opcodeValue_advances {offset : Offset} {c c' : Cursor} {value : Nat} {opcode : Opcode}
    (h : opcodeValue offset c = .ok (value, c')) (hopcode : Opcode.ofValue? value = some opcode) :
    c.Advances opcode.width c' := by
  rcases opcodeValue_cases h hopcode with
    ⟨hwidth, hfirst, -⟩ | ⟨hwidth, c₁, second, hfirst, hsecond, -⟩
  · exact hwidth ▸ field_advances hfirst
  · exact hwidth ▸ (field_advances hfirst).trans (field_advances hsecond)

/-- Reading an instruction takes its width. -/
theorem instruction_advances {resolve : Resolver} {c c' : Cursor} {i : Instruction}
    (h : instruction resolve c = .ok (i, c')) : c.Advances i.width c' := by
  obtain ⟨value, c₁, hvalue, hopcode, hoperand, hoffset⟩ := (instruction_eq_ok_iff _ _ _ _).mp h
  have hadvances := operand_advances hoperand
  rw [← hoffset] at hadvances
  exact (opcodeValue_advances hvalue hopcode).trans hadvances

/-- Reads instructions to the end of the bytes. -/
def bodyFrom (resolve : Resolver) (c : Cursor) : Except DecodeError (List Instruction) :=
  if c.rest = [] then .ok []
  else
    match _ : instruction resolve c with
    | .error e => .error e
    | .ok (i, c') =>
      match bodyFrom resolve c' with
      | .error e => .error e
      | .ok is => .ok (i :: is)
termination_by c.rest.length
decreasing_by
  have hpos := i.width_pos
  obtain ⟨henough, rfl⟩ := instruction_advances ‹_›
  simp only [Cursor.skip, List.length_drop]
  omega

/-- A body is read as nothing exactly at the end of the bytes. -/
theorem bodyFrom_eq_nil_iff (resolve : Resolver) (c : Cursor) :
    bodyFrom resolve c = .ok [] ↔ c.rest = [] := by
  rw [bodyFrom]
  by_cases hend : c.rest = []
  · simp [hend]
  · simp only [hend, if_false, iff_false]
    split
    · simp
    · split <;> simp

/-- A body is read as an instruction and the body from behind it on. -/
theorem bodyFrom_eq_cons_iff (resolve : Resolver) (c : Cursor) (i : Instruction)
    (rest : List Instruction) :
    bodyFrom resolve c = .ok (i :: rest) ↔
      ∃ c', instruction resolve c = .ok (i, c') ∧ bodyFrom resolve c' = .ok rest := by
  rw [bodyFrom]
  by_cases hend : c.rest = []
  · simp only [hend, if_true, Except.ok.injEq, List.nil_eq, reduceCtorEq, false_iff]
    -- the width of an instruction is positive, and so many bytes would have been read
    rintro ⟨c', hinstruction, -⟩
    have henough := (instruction_advances hinstruction).enough
    have hpos := i.width_pos
    rw [hend, List.length_nil] at henough
    omega
  · rw [if_neg hend]
    cases hinstruction : instruction resolve c with
    | error e => simp
    | ok result =>
      obtain ⟨i', c'⟩ := result
      simp only [Except.ok.injEq, Prod.mk.injEq]
      constructor
      · intro h
        cases hrest : bodyFrom resolve c' with
        | error e => simp [hrest] at h
        | ok rest' =>
          simp only [hrest, Except.ok.injEq, List.cons.injEq] at h
          exact ⟨c', ⟨h.1, rfl⟩, h.2 ▸ hrest⟩
      · rintro ⟨_, ⟨rfl, rfl⟩, hrest⟩
        simp [hrest]

/-- Every instruction of a body is read at some place. -/
theorem exists_instruction_of_mem {resolve : Resolver} {c : Cursor} {body : List Instruction}
    (h : bodyFrom resolve c = .ok body) {i : Instruction} (hi : i ∈ body) :
    ∃ c₁ c₂, instruction resolve c₁ = .ok (i, c₂) := by
  induction body generalizing c with
  | nil => cases hi
  | cons first rest ih =>
    obtain ⟨c', hfirst, hrest⟩ := (bodyFrom_eq_cons_iff resolve c first rest).mp h
    rcases List.mem_cons.mp hi with rfl | hlater
    · exact ⟨c, c', hfirst⟩
    · exact ih hrest hlater

end Decode

/-- Decodes the bytes of a method body. -/
def decodeBody (resolve : Resolver) (bytes : List UInt8) : Except DecodeError (List Instruction) :=
  Decode.bodyFrom resolve ⟨0, bytes⟩

end Unstack
