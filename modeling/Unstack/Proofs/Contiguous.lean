import Unstack.Encoding.Decode
import Unstack.Proofs.AssemblySteps
import Unstack.Proofs.Body
import Mathlib.Algebra.GroupWithZero.Nat
import Mathlib.Control.Monad.Basic

/-!
# Decoded and assembled bodies have no gaps

Where an instruction ends is computed three times: by how far the decoder has read, by the
assembler as it adds an instruction, and by the width of a finished instruction. All three agree,
so that in a body from either source each instruction ends where the next one starts. The offsets
then increase, and the widths add up to the size of the body.
-/

namespace Unstack

/-- Pieces given by offset and width fill the places from one offset to another in order. -/
def Tiles : Offset → List (Offset × Nat) → Offset → Prop
  | start, [], stop => start = stop
  | start, (offset, width) :: rest, stop => offset = start ∧ Tiles (start + width) rest stop

/-- The place that an instruction takes in its body. -/
def Instruction.extent (i : Instruction) : Offset × Nat := (i.offset, i.width)

/-- The place that the assembler keeps for an instruction. -/
def Draft.extent (d : Draft) : Offset × Nat :=
  (d.offset, d.opcode.width + d.opcode.operandType.fixedWidth.getD (4 + 4 * d.operand.entryCount))

/-- A body of `size` bytes without gaps: it starts at offset 0, each instruction ends where the next
one starts, and the last one ends the body. -/
structure Contiguous (body : List Instruction) (size : Nat) : Prop where
  first : ∀ i, body[0]? = some i → i.offset = 0
  adjacent : ∀ k before after, body[k]? = some before → body[k + 1]? = some after →
    before.nextOffset = after.offset
  last : (endOfBody? body).getD 0 = size

/-- Bodies and their sizes as the two sources give them. Steps that fail do not end the making of an
assembled body. -/
inductive Produced : List Instruction → Nat → Prop
  | decoded (resolve : Resolver) (bytes : List UInt8) (body : List Instruction)
      (h : decodeBody resolve bytes = .ok body) : Produced body bytes.length
  | assembled (steps : List Step) (body : List Instruction)
      (h : (Assembly.applyAll {} steps).finish = .ok body) :
      Produced body (Assembly.applyAll {} steps).next

/-- Pieces behind pieces fill what both fill. -/
theorem tiles_append (start stop : Offset) (pieces more : List (Offset × Nat)) :
    Tiles start (pieces ++ more) stop ↔ ∃ middle, Tiles start pieces middle ∧ Tiles middle more stop := by
  induction pieces generalizing start with
  | nil => simp [Tiles]
  | cons piece rest ih => simp [Tiles, ih, and_assoc]

namespace Tiles

variable {start stop : Offset} {body : List Instruction}

/-- Pieces that fill a place end behind all their widths. -/
theorem stop_eq {pieces : List (Offset × Nat)} (h : Tiles start pieces stop) :
    stop = start + (pieces.map Prod.snd).sum := by
  induction pieces generalizing start with
  | nil => exact h.symm
  | cons piece rest ih =>
    rw [ih h.2, List.map_cons, List.sum_cons, Nat.add_assoc]

/-- Each piece starts behind the widths of those before it. -/
theorem offset_eq {pieces : List (Offset × Nat)} (h : Tiles start pieces stop) {k : Nat}
    {piece : Offset × Nat} (hk : pieces[k]? = some piece) :
    piece.1 = start + ((pieces.map Prod.snd).take k).sum := by
  induction pieces generalizing start k with
  | nil => simp at hk
  | cons first rest ih =>
    cases k with
    | zero =>
      obtain rfl : first = piece := by simpa using hk
      exact h.1
    | succ k =>
      rw [ih h.2 (by simpa using hk), List.map_cons, List.take_succ_cons, List.sum_cons, Nat.add_assoc]

/-- The widths of a body that fills a place add up to it. -/
theorem foldl_width (h : Tiles start (body.map Instruction.extent) stop) :
    body.foldl (fun size i => size + i.width) start = stop := by
  induction body generalizing start with
  | nil => exact h
  | cons i rest ih => exact ih h.2

/-- A body that fills a place starts at it. -/
theorem first (h : Tiles start (body.map Instruction.extent) stop) (i : Instruction)
    (hi : body[0]? = some i) : i.offset = start := by
  cases body with
  | nil => simp at hi
  | cons first rest =>
    obtain rfl : first = i := by simpa using hi
    exact h.1

/-- In a body that fills a place each instruction ends where the next one starts. -/
theorem adjacent (h : Tiles start (body.map Instruction.extent) stop) (k : Nat)
    (before after : Instruction) (hbefore : body[k]? = some before)
    (hafter : body[k + 1]? = some after) : before.nextOffset = after.offset := by
  induction body generalizing start k with
  | nil => simp at hbefore
  | cons i rest ih =>
    obtain ⟨hoffset, hrest⟩ := h
    cases k with
    | zero =>
      obtain rfl : i = before := by simpa using hbefore
      have hstart := Tiles.first hrest after (by simpa using hafter)
      rw [hstart, ← hoffset]
      rfl
    | succ k => exact ih hrest k (by simpa using hbefore) (by simpa using hafter)

/-- A body that fills a place ends with it. -/
theorem last (h : Tiles start (body.map Instruction.extent) stop) :
    (endOfBody? body).getD start = stop := by
  rcases List.eq_nil_or_concat body with rfl | ⟨init, i, rfl⟩
  · exact h
  · rw [List.concat_eq_append, List.map_append, tiles_append] at h
    obtain ⟨middle, -, hoffset, hstop⟩ := h
    have hend : i.offset + i.width = stop := by
      rw [← hstop]
      exact congrArg (· + i.width) hoffset
    simp [endOfBody?, Instruction.nextOffset, hend]

/-- A body that fills a place from offset 0 is contiguous. -/
theorem contiguous {size : Nat} (h : Tiles 0 (body.map Instruction.extent) size) :
    Contiguous body size :=
  ⟨h.first, h.adjacent, h.last⟩

/-- In a body without gaps an instruction starts behind the widths of those before it. -/
theorem offset_eq_sum {size : Nat} (h : Tiles 0 (body.map Instruction.extent) size) {k : Nat}
    {i : Instruction} (hi : body[k]? = some i) :
    i.offset = ((body.map Instruction.width).take k).sum := by
  have hextent : (body.map Instruction.extent)[k]? = some i.extent := by
    rw [List.getElem?_map, hi]
    rfl
  have hoffset := h.offset_eq hextent
  rwa [Nat.zero_add, List.map_map] at hoffset

/-- A graph knows the size of a body that fills a place from offset 0. -/
theorem codeSize_eq {size : Nat} (h : Tiles 0 (body.map Instruction.extent) size)
    {regions : List Region} {g : Graph} (hg : Graph.build body regions = .ok g) :
    g.codeSize = size := by
  rw [Graph.codeSize, Graph.body_of_build hg]
  exact h.foldl_width

end Tiles

/-- The offsets of a contiguous body increase. -/
theorem Contiguous.increasing {body : List Instruction} {size : Nat} (h : Contiguous body size) :
    Increasing body := by
  apply List.IsChain.pairwise
  rw [List.isChain_iff_getElem]
  intro k hk
  have hnext := h.adjacent k _ _ (List.getElem?_eq_getElem (Nat.lt_of_succ_lt hk))
    (List.getElem?_eq_getElem hk)
  rw [← hnext]
  exact Nat.lt_add_of_pos_right (Instruction.width_pos _)

/-- What the decoder reads fills the bytes that it is given. -/
theorem Decode.bodyFrom_tiles {resolve : Resolver} {c : Cursor} {body : List Instruction}
    (h : Decode.bodyFrom resolve c = .ok body) :
    Tiles c.position (body.map Instruction.extent) (c.position + c.rest.length) := by
  induction body generalizing c with
  | nil => simp [(bodyFrom_eq_nil_iff resolve c).mp h, Tiles]
  | cons i rest ih =>
    obtain ⟨c', hinstruction, hrest⟩ := (bodyFrom_eq_cons_iff resolve c i rest).mp h
    obtain ⟨-, -, -, -, -, hoffset⟩ := (instruction_eq_ok_iff resolve c i c').mp hinstruction
    obtain ⟨henough, rfl⟩ := instruction_advances hinstruction
    have htiles := ih hrest
    have hstop : c.position + i.width + (c.rest.length - i.width) = c.position + c.rest.length := by
      rw [Nat.add_assoc, Nat.add_sub_cancel' henough]
    simp only [Cursor.skip, List.length_drop, hstop] at htiles
    exact ⟨hoffset, htiles⟩

namespace Assembly

/-- What holds of an assembly after steps: its instructions come from steps, and fill the places
below the offset of the next one. -/
structure MadeBy (steps : List Step) (a : Assembly) : Prop where
  origin : ∀ d ∈ a.drafts, ∃ step ∈ steps, step.Adds d.opcode d.operand
  tiles : Tiles 0 (a.drafts.map Draft.extent) a.next

/-- An instruction that is added fills the place behind those before it. -/
theorem tiles_emit {a : Assembly} (h : Tiles 0 (a.drafts.map Draft.extent) a.next) (opcode : Opcode)
    (operand : DraftOperand) :
    Tiles 0 ((a.emit opcode operand).drafts.map Draft.extent) (a.emit opcode operand).next := by
  simp only [emit, List.map_append, tiles_append]
  exact ⟨a.next, h, rfl, (Nat.add_assoc _ _ _).symm⟩

/-- A step keeps what holds of an assembly. -/
theorem MadeBy.apply {steps : List Step} {a : Assembly} (h : a.MadeBy steps) {step : Step}
    (hstep : step ∈ steps) : (a.apply step).1.MadeBy steps := by
  rcases a.apply_cases step with ⟨hdrafts, hnext⟩ | ⟨opcode, operand, hadds, hemit⟩
  · exact ⟨hdrafts ▸ h.origin, hdrafts ▸ hnext ▸ h.tiles⟩
  · rw [hemit]
    constructor
    · intro d hd
      rcases List.mem_append.mp hd with hold | hnew
      · exact h.origin d hold
      · obtain rfl := List.mem_singleton.mp hnew
        exact ⟨step, hstep, hadds⟩
    · exact tiles_emit h.tiles opcode operand

/-- Steps keep what holds of an assembly. -/
theorem MadeBy.applyAll {steps : List Step} {a : Assembly} (h : a.MadeBy steps) (later : List Step)
    (hlater : ∀ step ∈ later, step ∈ steps) : (a.applyAll later).MadeBy steps := by
  induction later generalizing a with
  | nil => exact h
  | cons step rest ih =>
    rw [List.forall_mem_cons] at hlater
    exact ih (h.apply hlater.1) hlater.2

/-- What holds of an assembly after any steps. -/
theorem madeBy_applyAll (steps : List Step) : (Assembly.applyAll {} steps).MadeBy steps := by
  have hstart : Assembly.MadeBy steps {} := ⟨by simp, rfl⟩
  exact hstart.applyAll steps fun _ h => h

/-- The assembler keeps as much place for an operand as it takes, if a table has an entry for each of
its targets. -/
theorem operandWidth_of_adds {step : Step} {i : Instruction} {d : DraftOperand}
    (hadds : step.Adds i.opcode d)
    (hentries : ∀ names, d = .labels names → names.length = i.branchTargets.length) :
    i.opcode.operandType.fixedWidth.getD (4 + 4 * d.entryCount) = i.operandWidth := by
  unfold Instruction.operandWidth
  cases hwidth : i.opcode.operandType.fixedWidth with
  | some width => rfl
  | none =>
    -- only a table has no fixed width
    have htype := OperandType.eq_inlineSwitch_of_fixedWidth hwidth
    obtain ⟨names, rfl⟩ := hadds.labels_of_switch htype
    rw [DraftOperand.entryCount, hentries names rfl]

/-- The assembler keeps as much place for an instruction as it takes when it is finished. -/
theorem instruction_extent {a : Assembly} {step : Step} {d : Draft} {i : Instruction}
    (hadds : step.Adds d.opcode d.operand) (h : a.instruction d = .ok i) : i.extent = d.extent := by
  obtain ⟨hoperand, hoffset, hopcode⟩ := (instruction_eq_ok_iff a d i).mp h
  rw [← hopcode] at hadds
  have hentries : ∀ names, d.operand = .labels names →
      names.length = i.branchTargets.length := by
    intro names hnames
    rw [hnames, operand_labels_eq_ok_iff] at hoperand
    obtain ⟨targets, htargets, hoperand⟩ := hoperand
    rw [Instruction.branchTargets, hoperand]
    exact (Outcome.length_of_mapM htargets).symm
  unfold Instruction.extent Draft.extent Instruction.width
  rw [hoffset, ← hopcode, operandWidth_of_adds hadds hentries]

/-- Finished instructions take the places that the assembler kept for them. -/
theorem map_extent_of_finish {a : Assembly}
    (horigin : ∀ d ∈ a.drafts, ∃ step : Step, step.Adds d.opcode d.operand) {body : List Instruction}
    (hfinish : a.finish = .ok body) :
    body.map Instruction.extent = a.drafts.map Draft.extent := by
  apply Outcome.map_eq_of_mapM hfinish
  intro d hd i hi
  obtain ⟨step, hadds⟩ := horigin d hd
  exact instruction_extent hadds hi

/-- Every instruction was added by a step. -/
theorem MadeBy.exists_step {steps : List Step} {a : Assembly} (h : a.MadeBy steps) :
    ∀ d ∈ a.drafts, ∃ step : Step, step.Adds d.opcode d.operand := by
  intro d hd
  obtain ⟨step, -, hadds⟩ := h.origin d hd
  exact ⟨step, hadds⟩

/-- A finished body fills the places that the assembler kept. -/
theorem MadeBy.finish_tiles {steps : List Step} {a : Assembly} (h : a.MadeBy steps)
    {body : List Instruction} (hfinish : a.finish = .ok body) :
    Tiles 0 (body.map Instruction.extent) a.next := by
  rw [map_extent_of_finish h.exists_step hfinish]
  exact h.tiles

end Assembly

/-- A body from either source fills the places from 0 to its size. -/
theorem Produced.tiles {body : List Instruction} {size : Nat} (h : Produced body size) :
    Tiles 0 (body.map Instruction.extent) size := by
  cases h with
  | decoded resolve bytes body h =>
    have htiles := Decode.bodyFrom_tiles h
    rwa [Nat.zero_add] at htiles
  | assembled steps body h => exact (Assembly.madeBy_applyAll steps).finish_tiles h

/-- Decoded and assembled bodies are contiguous up to the number of bytes read or the offset that
the assembler had come to. So their offsets increase, and a graph of the body has that size. -/
theorem produced_contiguous {body : List Instruction} {size : Nat} (h : Produced body size) :
    Contiguous body size ∧ Increasing body ∧
      ∀ regions g, Graph.build body regions = .ok g → g.codeSize = size :=
  ⟨h.tiles.contiguous, h.tiles.contiguous.increasing, fun _ _ hg => h.tiles.codeSize_eq hg⟩

/-- A method that takes and returns nothing. -/
def tick : MethodRef := ⟨⟨0x06000001⟩, "Clock::Tick", procedure⟩

/-- Resolves the token of that method only. -/
def resolveTick : Resolver := fun token => if token = tick.token then some tick else none

/-- A loop with a byte that has a sign, an opcode of two bytes, a table that leads both ways, and a
call. -/
def tableLoop : List Instruction :=
  [⟨0, ⟨"ldarg.0", 0x02, .next, .pop0, .push1, .inlineNone⟩, .none⟩,
    ⟨1, ⟨"ldc.i4.s", 0x1F, .next, .pop0, .push1, .shortInlineI⟩, .int (-1)⟩,
    ⟨3, ⟨"cgt", 0xFE02, .next, .pop2, .push1, .inlineNone⟩, .none⟩,
    ⟨5, ⟨"switch", 0x45, .condBranch, .pop1, .push0, .inlineSwitch⟩, .targets [0, 25]⟩,
    ⟨18, ⟨"call", 0x28, .call, .varPop, .varPush, .inlineMethod⟩, .method tick⟩,
    ⟨23, ⟨"br.s", 0x2B, .branch, .pop0, .push0, .shortInlineBrTarget⟩, .target 0⟩,
    ⟨25, ⟨"ret", 0x2A, .ret, .varPop, .push0, .inlineNone⟩, .none⟩]

/-- The bytes of the table loop. -/
def tableLoopBytes : List UInt8 :=
  [0x02, 0x1F, 0xFF, 0xFE, 0x02, 0x45, 0x02, 0, 0, 0, 0xEE, 0xFF, 0xFF, 0xFF, 0x07, 0, 0, 0,
    0x28, 0x01, 0, 0, 0x06, 0x2B, 0xE7, 0x2A]

/-- Steps to the table loop, of which three fail: an integer that does not fit, a mnemonic that
there is not, and a label that is placed again. -/
def clumsySteps : List Step :=
  [.label "top", .label "out", .op "ldarg.0", .int "ldc.i4.s" 255, .int "ldc.i4.s" (-1),
    .op "compare", .op "cgt", .switch ["top", "out"], .method "call" tick, .branch "br.s" "top",
    .label "out", .op "ret"]

/-- The bytes of the table loop are decoded as the loop. -/
theorem decodeBody_tableLoop : decodeBody resolveTick tableLoopBytes = .ok tableLoop := by
  decide +kernel

/-- Decoded or assembled, the table loop has 26 bytes without gaps. -/
theorem tableLoop_contiguous :
    Produced tableLoop tableLoopBytes.length ∧
      Produced tableLoop (Assembly.applyAll {} clumsySteps).next ∧
      Contiguous tableLoop 26 ∧ Increasing tableLoop ∧
      ∀ regions g, Graph.build tableLoop regions = .ok g → g.codeSize = 26 := by
  have hdecoded := Produced.decoded resolveTick tableLoopBytes tableLoop decodeBody_tableLoop
  have hassembled := Produced.assembled clumsySteps tableLoop (by decide +kernel)
  exact ⟨hdecoded, hassembled, produced_contiguous hdecoded⟩

end Unstack
