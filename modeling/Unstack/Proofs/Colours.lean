import Unstack.CommandLine.Terminal
import Unstack.Proofs.PrintableText

/-!
# Colours do not change what a dump says

With colours a dump is written in other parts than without: the name of a type, a method or a block,
the mark of a fault, and the pieces of a lowered instruction stand by themselves, between what sets a
colour and what resets it. Nothing is assumed of the writer but that it puts out escape sequences for
these. If they are taken out of a coloured dump, the plain dump is left: the two layouts say the same,
and no text that is written holds an escape character, unless the module has brought it along in a
name.

Taking escape sequences out is a scan that may be inside one. The relation between a coloured and a
plain text therefore speaks of what the scan makes of the coloured text and of anything behind it,
so that it passes from parts to lines, and from lines to the whole dump.
-/

namespace Unstack

namespace Text

/-- Characters without the escape sequences, each of which goes on up to the next `m`; `inside` is
true within one. -/
def strip : (inside : Bool) → List Char → List Char
  | _, [] => []
  | true, c :: rest => strip (c != 'm') rest
  | false, c :: rest => if c = '\x1b' then strip true rest else c :: strip false rest

/-- A text without its escape sequences. -/
def stripEscapes (text : String) : String := String.ofList (strip false text.toList)

/-- The text has no character that starts an escape sequence. -/
abbrev EscapeFree (text : String) : Prop := All (· ≠ '\x1b') text

/-- Without its escape sequences the first text is the second, whatever comes behind it. -/
def StripsTo (colored plain : String) : Prop :=
  ∀ rest, strip false (colored.toList ++ rest) = plain.toList ++ strip false rest

/-- A text without control characters has no escape character. -/
theorem Printable.escapeFree {text : String} (h : Printable text) : EscapeFree text :=
  h.mono fun c hc heq => absurd (heq ▸ hc) (by decide)

/-- Characters that are nothing but escape sequences. -/
inductive EscapeSequences : List Char → Prop
  | nil : EscapeSequences []
  | cons (inner rest : List Char) (hinner : ∀ c ∈ inner, c ≠ 'm') (hrest : EscapeSequences rest) :
      EscapeSequences ('\x1b' :: inner ++ 'm' :: rest)

/-- Outside of escape sequences characters are kept. -/
theorem strip_append (chars : List Char) (h : ∀ c ∈ chars, c ≠ '\x1b') (rest : List Char) :
    strip false (chars ++ rest) = chars ++ strip false rest := by
  induction chars with
  | nil => rfl
  | cons c chars ih =>
    obtain ⟨hc, hchars⟩ := List.forall_mem_cons.mp h
    rw [List.cons_append, strip, if_neg hc, ih hchars, List.cons_append]

/-- An escape sequence goes on up to its `m`. -/
theorem strip_inside (chars : List Char) (h : ∀ c ∈ chars, c ≠ 'm') (rest : List Char) :
    strip true (chars ++ 'm' :: rest) = strip false rest := by
  induction chars with
  | nil => rfl
  | cons c chars ih =>
    obtain ⟨hc, hchars⟩ := List.forall_mem_cons.mp h
    rw [List.cons_append, strip, bne_iff_ne.mpr hc, ih hchars]

namespace StripsTo

/-- The relation gives what is left of the whole text. -/
theorem stripEscapes_eq {colored plain : String} (h : StripsTo colored plain) :
    stripEscapes colored = plain := by
  have hchars := h []
  rw [List.append_nil, strip, List.append_nil] at hchars
  rw [stripEscapes, hchars, String.ofList_toList]

/-- Nothing is left of nothing. -/
theorem empty : StripsTo "" "" := fun _ => rfl

/-- Texts that follow each other are stripped one after the other. -/
theorem append {colored colored' plain plain' : String} (h : StripsTo colored plain)
    (h' : StripsTo colored' plain') : StripsTo (colored ++ colored') (plain ++ plain') := by
  intro rest
  rw [String.toList_append, String.toList_append, List.append_assoc, h, h', List.append_assoc]

/-- The texts of items are stripped one after the other. -/
theorem join {α : Type} {items : List α} {colored plain : α → String}
    (h : ∀ item ∈ items, StripsTo (colored item) (plain item)) :
    StripsTo (String.join (items.map colored)) (String.join (items.map plain)) := by
  induction items with
  | nil => exact empty
  | cons item items ih =>
    rw [List.map_cons, List.map_cons, String.join_cons, String.join_cons]
    exact (h item List.mem_cons_self).append
      (ih fun other hother => h other (List.mem_cons_of_mem _ hother))

/-- A text without escape characters is left as it is. -/
theorem of_escapeFree {text : String} (h : EscapeFree text) : StripsTo text text :=
  strip_append text.toList h

/-- Escape sequences are taken out as a whole. -/
theorem of_escapeSequences {text : String} (h : EscapeSequences text.toList) : StripsTo text "" := by
  intro rest
  suffices hstrip : ∀ chars, EscapeSequences chars → strip false (chars ++ rest) = strip false rest from
    hstrip text.toList h
  intro chars hchars
  induction hchars with
  | nil => rfl
  | cons inner later hinner _ ih =>
    rw [List.append_assoc, List.cons_append, List.cons_append, strip, if_pos rfl,
      strip_inside inner hinner, ih]

end StripsTo

end Text

open Text

/-- The writer puts out nothing but escape sequences to set and to reset colours. -/
structure Writer.Escapes (w : Writer) : Prop where
  setColor : ∀ spec, EscapeSequences (w.setColor spec).toList
  reset : EscapeSequences w.reset.toList

/-- The strings of a signature. -/
def Signature.strings (signature : Signature) : List String :=
  signature.returnType :: signature.parameters

/-- The strings of a reference. -/
def MethodRef.strings (r : MethodRef) : List String := r.fullName :: r.signature.strings

/-- The strings of a body. -/
def MethodBody.strings (body : MethodBody) : List String :=
  body.il :: body.regions.filterMap (·.catchType)

/-- The strings of a method. -/
def Method.strings (method : Method) : List String :=
  method.name :: method.declaringType :: method.reference.strings ++
    (method.body.map MethodBody.strings).getD []

/-- The strings of a type. -/
def TypeDef.strings (t : TypeDef) : List String :=
  t.nameSpace :: t.name :: t.methods.flatMap Method.strings

/-- All strings of a module. -/
def Module.strings (m : Module) : List String :=
  m.name :: m.types.flatMap TypeDef.strings ++ m.references.flatMap MethodRef.strings

/-- No string of the module has an escape character. -/
def Module.EscapeFree (m : Module) : Prop := ∀ text ∈ m.strings, Text.EscapeFree text

instance (m : Module) : Decidable m.EscapeFree :=
  inferInstanceAs (Decidable (∀ text ∈ m.strings, Text.EscapeFree text))

namespace Module.EscapeFree

variable {m : Module} (h : m.EscapeFree)
include h

/-- The strings of a type are among those of its module. -/
theorem type_strings {t : TypeDef} (ht : t ∈ m.types) :
    ∀ text ∈ t.strings, Text.EscapeFree text := by
  intro text htext
  apply h
  simp only [strings, List.mem_append, List.mem_cons, List.mem_flatMap]
  exact .inl (.inr ⟨t, ht, htext⟩)

/-- The full name of a method is one of the strings. -/
theorem method_fullName {t : TypeDef} (ht : t ∈ m.types) {method : Method}
    (hmethod : method ∈ t.methods) : Text.EscapeFree method.fullName := by
  apply h.type_strings ht
  simp only [TypeDef.strings, List.mem_cons, List.mem_flatMap]
  refine .inr (.inr ⟨method, hmethod, ?_⟩)
  simp [Method.strings, MethodRef.strings, Method.fullName]

/-- The full name of a type is put together from two of the strings. -/
theorem type_fullName {t : TypeDef} (ht : t ∈ m.types) : Text.EscapeFree t.fullName := by
  have hname : Text.EscapeFree t.name := h.type_strings ht _ (by simp [TypeDef.strings])
  have hspace : Text.EscapeFree t.nameSpace := h.type_strings ht _ (by simp [TypeDef.strings])
  unfold TypeDef.fullName qualifiedName
  split
  · exact hname
  · exact (all_append _ _).mpr ⟨(all_append _ _).mpr ⟨hspace, by decide⟩, hname⟩

/-- The names of all methods that a token may stand for are among the strings. -/
theorem callable_fullName {r : MethodRef} (hr : r ∈ m.callables) : Text.EscapeFree r.fullName := by
  rcases List.mem_append.mp hr with hreference | hdefinition
  · apply h
    simp only [strings, List.mem_append, List.mem_flatMap]
    exact .inr ⟨r, hreference, List.mem_cons_self⟩
  · obtain ⟨t, ht, hmethods⟩ := List.mem_flatMap.mp hdefinition
    obtain ⟨method, hmethod, rfl⟩ := List.mem_map.mp hmethods
    exact h.method_fullName ht hmethod

end Module.EscapeFree

/-- An operand that names a method has looked it up. -/
theorem Decode.exists_token_of_operand {resolve : Resolver} {opcode : Opcode} {offset : Offset}
    {c c' : Cursor} {callee : MethodRef}
    (h : operand resolve opcode offset c = .ok (.method callee, c')) :
    ∃ token, resolve token = some callee := by
  have himmediate : ∀ {width : Nat} {make : Nat → Operand}, (∀ n, make n ≠ .method callee) →
      immediate offset width make c ≠ .ok (.method callee, c') := fun hmake himmediate =>
    have ⟨n, _, hn⟩ := (immediate_eq_ok_iff _ _ _ _ _ _).mp himmediate
    hmake n hn
  have hbranch : ∀ {width : Nat}, branch offset width c ≠ .ok (.method callee, c') := fun hbranch =>
    have ⟨_, _, _, _, htarget⟩ := (branch_eq_ok_iff _ _ _ _ _).mp hbranch
    nomatch htarget
  have hswitch : switchTable offset c ≠ .ok (.method callee, c') := fun hswitch =>
    have ⟨_, _, _, _, _, _, _, _, htargets⟩ := (switchTable_eq_ok_iff _ _ _ _).mp hswitch
    nomatch htargets
  unfold operand at h
  cases htype : opcode.operandType with
  | inlineMethod | inlineSig =>
    simp only [htype] at h
    obtain ⟨n, -, hcallable⟩ := (call_eq_ok_iff resolve opcode offset c _ c').mp h
    rcases (callable_eq_ok_iff _ _ _ _ _).mp hcallable with ⟨r, hresolve, hr⟩ | ⟨-, -, hr⟩
    · cases hr
      exact ⟨_, hresolve⟩
    · cases hr
  | inlineNone => simp [htype] at h
  | inlineSwitch => exact absurd (by simpa only [htype] using h) hswitch
  | shortInlineBrTarget | inlineBrTarget => exact absurd (by simpa only [htype] using h) hbranch
  | _ =>
    simp only [htype] at h
    exact absurd h (himmediate fun n => nofun)

/-- The callees in a decoded body are methods that the module knows. -/
theorem Module.mem_callables_of_decode {m : Module} {method : Method} {body : List Instruction}
    (h : m.decode method = .ok body) {i : Instruction} (hi : i ∈ body) {callee : MethodRef}
    (hcallee : i.operand = .method callee) : callee ∈ m.callables := by
  obtain ⟨c, c', hread⟩ := Module.exists_instruction_of_decode h hi
  obtain ⟨_, _, -, -, hoperand, -⟩ := (Decode.instruction_eq_ok_iff m.resolve c i c').mp hread
  rw [hcallee] at hoperand
  obtain ⟨token, hresolve⟩ := Decode.exists_token_of_operand hoperand
  exact List.mem_reverse.mp (List.mem_of_find?_eq_some hresolve)

/-- Only the name of a method may bring an escape character into an operand. -/
theorem Operand.text_escapeFree (o : Operand)
    (hcallee : ∀ r, o = .method r → EscapeFree r.fullName) : EscapeFree o.text := by
  cases o with
  | method r => exact hcallee r rfl
  | none => decide
  | int value | long value => exact (Numeral.signedDecimal_printable value).escapeFree
  | float bits | double bits => exact (Decimal.BinaryFormat.text_printable _ bits.toNat).escapeFree
  | index value => exact (Numeral.decimal_printable value).escapeFree
  | token t => exact t.text_printable.escapeFree
  | target o => exact o.label_printable.escapeFree
  | targets os =>
    have hlabels : EscapeFree (String.intercalate ", " (os.map Offset.label)) :=
      all_intercalate (by decide) (List.forall_mem_map.mpr fun o _ => o.label_printable.escapeFree)
    exact (all_append _ _).mpr ⟨(all_append _ _).mpr ⟨by decide, hlabels⟩, by decide⟩

/-- Only the name of a callee may bring an escape character into an instruction. -/
theorem Instruction.text_escapeFree (i : Instruction) (hname : Printable i.opcode.name)
    (hcallee : ∀ r, i.operand = .method r → EscapeFree r.fullName) : EscapeFree i.text := by
  unfold text
  simp only [all_append]
  refine ⟨⟨⟨i.offset.label_printable.escapeFree, by decide⟩, hname.escapeFree⟩, ?_⟩
  split
  · decide
  · exact (all_append _ _).mpr ⟨by decide, i.operand.text_escapeFree hcallee⟩

/-- Only its instructions may bring an escape character into a block. -/
theorem Block.text_escapeFree (block : Block)
    (hcode : ∀ i ∈ block.instructions, EscapeFree i.text) : EscapeFree block.text := by
  have hnumbers : ∀ indices, EscapeFree (numbers indices) := fun indices =>
    all_intercalate (by decide)
      (List.forall_mem_map.mpr fun n _ => (Numeral.decimal_printable n).escapeFree)
  unfold text
  simp only [all_append, all_join, List.forall_mem_map]
  exact ⟨⟨⟨⟨⟨⟨⟨⟨by decide, (Numeral.decimal_printable _).escapeFree⟩, by decide⟩,
    fun i hi => ⟨hcode i hi, by decide⟩⟩, by decide⟩, hnumbers _⟩, by decide⟩, hnumbers _⟩,
    by decide⟩

/-- The graph of a decoded body holds no escape character: what it calls has its name from the
module. -/
theorem Module.EscapeFree.graph_text {m : Module} (h : m.EscapeFree) {method : Method}
    {body : List Instruction} (hdecode : m.decode method = .ok body) {regions : List Region}
    {g : Graph} (hbuild : Graph.build body regions = .ok g) : Text.EscapeFree g.text := by
  refine all_intercalate (by decide) (List.forall_mem_map.mpr fun block hblock => ?_)
  refine block.text_escapeFree fun i hi => ?_
  have hbody := Graph.mem_body_of_mem_block hbuild hblock hi
  exact i.text_escapeFree (m.name_printable_of_decode hdecode hbody) fun r hr =>
    h.callable_fullName (m.mem_callables_of_decode hdecode hbody hr)

/-- Indentation has no escape character. -/
theorem Policy.indent_escapeFree (policy : Policy) (level : Nat) : EscapeFree (policy.indent level) :=
  (policy.indent_printable level).escapeFree

/-- What a writer with escape sequences puts out for an event is, without them, what is put out without
colours. -/
theorem Writer.Escapes.put_stripsTo {w : Writer} (hw : w.Escapes) {event : DumpEvent}
    (hfree : ∀ text, event = .write text → EscapeFree text) :
    StripsTo (w.put event) (Writer.plain.put event) := by
  cases event with
  | write text => exact .of_escapeFree (hfree text rfl)
  | setColor spec => exact .of_escapeSequences (hw.setColor spec)
  | reset => exact .of_escapeSequences hw.reset
  | log entry => exact .empty

namespace Dump

/-- What the writer puts out for the first events is, without escape sequences, what any writer puts out
for the second. -/
def Matches (w : Writer) (colored plain : List DumpEvent) : Prop :=
  ∀ other, StripsTo (printed w colored) (printed other plain)

namespace Matches

variable {w : Writer}

/-- Nothing matches nothing. -/
theorem nil : Matches w [] [] := fun _ => .empty

/-- Parts that match can be put together. -/
theorem append {colored colored' plain plain' : List DumpEvent} (h : Matches w colored plain)
    (h' : Matches w colored' plain') : Matches w (colored ++ colored') (plain ++ plain') := by
  intro other
  rw [printed_append, printed_append]
  exact (h other).append (h' other)

/-- Parts that match for every item can be put together. -/
theorem flatMap {α : Type} {items : List α} {colored plain : α → List DumpEvent}
    (h : ∀ item ∈ items, Matches w (colored item) (plain item)) :
    Matches w (items.flatMap colored) (items.flatMap plain) := by
  intro other
  rw [printed_flatMap, printed_flatMap]
  exact StripsTo.join fun item hitem => h item hitem other

/-- What is logged does not show. -/
theorem log {colored plain : List DumpEvent} (h : Matches w colored plain) (entry : LogEntry) :
    Matches w (.log entry :: colored) (.log entry :: plain) := by
  intro other
  rw [printed_cons, printed_cons]
  exact StripsTo.append .empty (h other)

/-- Nor do many entries. -/
theorem logs (entries : List LogEntry) : Matches w (entries.map .log) (entries.map .log) := by
  intro other
  rw [printed_map_log, printed_map_log]
  exact .empty

/-- Events match a text that says the same as they do without colours. -/
theorem of_text (hw : w.Escapes) {events : List DumpEvent} {text : String}
    (hfree : ∀ part, .write part ∈ events → EscapeFree part)
    (htext : printed .plain events = text) : Matches w events [.write text] := by
  intro other
  have hplain : printed other [.write text] = printed .plain events := by
    simp [Writer.put, htext]
  rw [hplain]
  exact .join fun event hevent => hw.put_stripsTo fun part hpart => hfree part (hpart ▸ hevent)

/-- A text without escape characters matches itself. -/
theorem write (hw : w.Escapes) {text : String} (hfree : EscapeFree text) :
    Matches w [.write text] [.write text] := by
  have hone : ∀ other, .write other ∈ [DumpEvent.write text] → EscapeFree other := by
    intro other hother
    cases List.mem_singleton.mp hother
    exact hfree
  exact of_text hw hone (by simp [Writer.put])

/-- A line with a text in colours matches the line that is written in one. -/
theorem coloredLine (hw : w.Escapes) {indent text : String} (hindent : EscapeFree indent)
    (htext : EscapeFree text) (spec : ColorSpec) :
    Matches w (.write indent :: colored spec text ++ [.write "\n"])
      [.write (indent ++ text ++ "\n")] := by
  have hparts : ∀ part, .write part ∈ .write indent :: colored spec text ++ [DumpEvent.write "\n"] →
      EscapeFree part := by
    intro part hpart
    have hcases : part = indent ∨ part = text ∨ part = "\n" := by simpa [colored] using hpart
    rcases hcases with rfl | rfl | rfl
    · exact hindent
    · exact htext
    · decide
  exact of_text hw hparts (by simp [Writer.put, Writer.plain, String.append_assoc])

end Matches

section Layout

variable {w : Writer} (hw : w.Escapes) (tabWidth level : Nat)
include hw

/-- An empty line matches itself. -/
theorem blankLine_matches : Matches w blankLine blankLine :=
  .write hw (by decide)

/-- Headers are written with colours or without. -/
theorem header_matches {name : String} (hname : EscapeFree name) :
    Matches w (header ⟨tabWidth, true⟩ level name) (header ⟨tabWidth, false⟩ level name) := by
  have hindent := Policy.indent_escapeFree ⟨tabWidth, true⟩ level
  have hbrace : EscapeFree (Policy.indent ⟨tabWidth, true⟩ level ++ "\x7b\n") :=
    (all_append _ _).mpr ⟨hindent, by decide⟩
  exact (Matches.coloredLine hw hindent hname _).append (.write hw hbrace)

/-- Closing braces have no colours. -/
theorem footer_matches :
    Matches w (footer ⟨tabWidth, true⟩ level) (footer ⟨tabWidth, false⟩ level) := by
  have hindent := Policy.indent_escapeFree ⟨tabWidth, true⟩ level
  exact .write hw ((all_append _ _).mpr ⟨hindent, by decide⟩)

/-- The mark of a fault is written with colours or without. -/
theorem failure_matches {e : DumpError} (hmessage : EscapeFree e.message) :
    Matches w (failure ⟨tabWidth, true⟩ level e) (failure ⟨tabWidth, false⟩ level e) := by
  have hindent := Policy.indent_escapeFree ⟨tabWidth, true⟩ level
  have hmark : Matches w (colored { foreground := some .red } "error:") [.write "error:"] := by
    have hparts : ∀ part, .write part ∈ colored { foreground := some .red } "error:" →
        EscapeFree part := by
      intro part hpart
      have hpart : part = "error:" := by simpa [colored] using hpart
      exact hpart ▸ (by decide)
    exact .of_text hw hparts (by simp [Writer.plain])
  have hreason : EscapeFree (" " ++ e.message ++ "\n") :=
    (all_append _ _).mpr ⟨(all_append _ _).mpr ⟨by decide, hmessage⟩, by decide⟩
  exact ((Matches.write hw hindent).append hmark).append (.write hw hreason)

/-- A lowered instruction is written part by part or as one text. -/
theorem instruction_matches {l : Lowered} (hname : Printable l.source.opcode.name) :
    Matches w (instruction ⟨tabWidth, true⟩ level l) (instruction ⟨tabWidth, false⟩ level l) := by
  have hindent := Policy.indent_escapeFree ⟨tabWidth, true⟩ level
  have hparts : Matches w (coloredInstruction l) [.write l.text] := by
    refine .of_text hw (fun part hpart => ?_) (by simp [printed_coloredInstruction])
    exact (coloredInstruction_printable hname part hpart).escapeFree
  exact ((Matches.write hw hindent).append hparts).append (.write hw (by decide))

/-- A line of a graph is written with colours or without. -/
theorem graphLine_matches {text : String} (htext : EscapeFree text) :
    Matches w (graphLine ⟨tabWidth, true⟩ level text) (graphLine ⟨tabWidth, false⟩ level text) := by
  have hindent := Policy.indent_escapeFree ⟨tabWidth, true⟩ level
  have hplain : EscapeFree (Policy.indent ⟨tabWidth, true⟩ level ++ text ++ "\n") :=
    (all_append _ _).mpr ⟨(all_append _ _).mpr ⟨hindent, htext⟩, by decide⟩
  unfold graphLine
  by_cases hempty : text.isEmpty = true
  · simp only [if_pos hempty]
    exact blankLine_matches hw
  · simp only [if_neg hempty, Bool.true_and, Bool.false_and, Bool.false_eq_true, if_false]
    split
    · exact .coloredLine hw hindent htext _
    · exact .write hw hplain

end Layout

end Dump

/-- A coloured transcript matches a plain one: their events do, and they end alike. -/
def Transcript.Matches (w : Writer) (colored plain : Transcript) : Prop :=
  Dump.Matches w colored.events plain.events ∧ colored.fault = plain.fault

namespace Transcript.Matches

variable {w : Writer}

/-- Parts that do not end early match if their events do. -/
theorem ofEvents {colored plain : List DumpEvent} (h : Dump.Matches w colored plain) :
    Matches w (.ofEvents colored) (.ofEvents plain) := ⟨h, rfl⟩

/-- A fault before anything happens matches itself. -/
theorem fault (e : DumpError) : Matches w { fault := some e } { fault := some e } := ⟨.nil, rfl⟩

/-- Going on with parts that match keeps transcripts matching. -/
theorem andThen {colored colored' plain plain' : Transcript} (h : Matches w colored plain)
    (h' : Matches w colored' plain') : Matches w (colored.andThen colored') (plain.andThen plain') := by
  obtain ⟨hevents, hfault⟩ := h
  unfold Transcript.andThen
  rw [hfault]
  cases hplain : plain.fault with
  | none => exact ⟨hevents.append h'.1, h'.2⟩
  | some e => exact ⟨hevents, hfault⟩

/-- Going through items keeps transcripts matching. -/
theorem each {α : Type} {items : List α} {colored plain : α → Transcript}
    (h : ∀ item ∈ items, Matches w (colored item) (plain item)) :
    Matches w (.each items colored) (.each items plain) := by
  induction items with
  | nil => exact ⟨.nil, rfl⟩
  | cons item items ih =>
    obtain ⟨hitem, hitems⟩ := List.forall_mem_cons.mp h
    exact hitem.andThen (ih hitems)

end Transcript.Matches

namespace Dump

section Module

variable {m : Module} {w : Writer} (hw : w.Escapes) (tabWidth level : Nat) (strategy : Strategy)
include hw

/-- The instructions of a method are written with colours or without, or fail alike. -/
theorem body_matches (x : Method) :
    Transcript.Matches w (body m ⟨tabWidth, true⟩ strategy level x)
      (body m ⟨tabWidth, false⟩ strategy level x) := by
  unfold body
  cases hdecode : m.decode x with
  | error e => exact .fault _
  | ok instructions =>
    refine (Transcript.Matches.ofEvents (.logs _)).andThen ?_
    cases hlower : lower strategy instructions x.regions x.reference.signature with
    | error e => exact .fault _
    | ok l =>
      refine .ofEvents (.log (.flatMap fun lowered hlowered => ?_) _)
      exact instruction_matches hw tabWidth level
        (m.name_printable_of_lower hdecode hlower hlowered)

/-- A fault is reported with colours or without. -/
theorem reported_matches {colored plain : Transcript} (h : Transcript.Matches w colored plain)
    (hmessage : ∀ e, plain.fault = some e → EscapeFree e.message) (name : String) :
    Transcript.Matches w (reported ⟨tabWidth, true⟩ level name colored)
      (reported ⟨tabWidth, false⟩ level name plain) := by
  obtain ⟨hevents, hfault⟩ := h
  unfold reported
  rw [hfault]
  cases hplain : plain.fault with
  | none => exact ⟨hevents, hfault⟩
  | some e =>
    exact .ofEvents (hevents.append ((failure_matches hw tabWidth level (hmessage e hplain)).log _))

/-- A method is written with colours or without, whether its body fails or not. -/
theorem method_matches {x : Method} (hname : EscapeFree x.fullName) :
    Transcript.Matches w (method m ⟨tabWidth, true⟩ strategy level x)
      (method m ⟨tabWidth, false⟩ strategy level x) := by
  unfold method
  refine (Transcript.Matches.ofEvents (header_matches hw tabWidth level hname)).andThen
    (.andThen ?_ (.ofEvents (footer_matches hw tabWidth level)))
  split
  · have hbody := body_matches (m := m) hw tabWidth (level + 1) strategy x
    exact reported_matches hw tabWidth (level + 1) hbody
      (fun e he => (message_printable_of_body he).escapeFree) _
  · exact ⟨.nil, rfl⟩

/-- A type is written with colours or without. -/
theorem type_matches {t : TypeDef} (hname : EscapeFree t.fullName)
    (hmethods : ∀ x ∈ t.methods, EscapeFree x.fullName) :
    Transcript.Matches w (type m ⟨tabWidth, true⟩ strategy t)
      (type m ⟨tabWidth, false⟩ strategy t) := by
  unfold type
  refine (Transcript.Matches.ofEvents (header_matches hw tabWidth 0 hname)).andThen
    (.andThen (.each fun x hx => ?_) (.ofEvents (footer_matches hw tabWidth 0)))
  have hmethod := hmethods x (List.mem_of_mem_filter hx)
  exact (method_matches hw tabWidth 1 strategy hmethod).andThen (.ofEvents (blankLine_matches hw))

/-- A graph is written with colours or without. -/
theorem graph_matches {x : Method} (hname : EscapeFree x.fullName) {g : Graph}
    (htext : EscapeFree g.text) :
    Matches w (graph ⟨tabWidth, true⟩ x g) (graph ⟨tabWidth, false⟩ x g) := by
  have hlines : Matches w ((Text.lines g.text).flatMap (graphLine ⟨tabWidth, true⟩ 1))
      ((Text.lines g.text).flatMap (graphLine ⟨tabWidth, false⟩ 1)) :=
    .flatMap fun text hline => graphLine_matches hw tabWidth 1 (htext.of_mem_lines hline)
  exact (((header_matches hw tabWidth 0 hname).append hlines).append
    (footer_matches hw tabWidth 0)).log _

end Module

end Dump

/-- A type that is found is one of the module. -/
theorem Module.mem_of_findType {m : Module} {name : String} {k : Nat} {t : TypeDef}
    (h : m.findType name = .ok (k, t)) : t ∈ m.types := by
  unfold findType at h
  dsimp only at h
  split at h
  · rename_i found hfound
    cases h
    obtain ⟨_, -, hplace⟩ := Option.bind_eq_some_iff.mp hfound
    obtain ⟨_, ht, heq⟩ := Option.map_eq_some_iff.mp hplace
    cases heq
    exact List.mem_of_getElem? ht
  · cases h

/-- A method that is found is one of a type of the module. -/
theorem Module.mem_of_findMethod {m : Module} {typeName methodName : String} {k j : Nat}
    {method : Method} (h : m.findMethod typeName methodName = .ok (k, j, method)) :
    ∃ t ∈ m.types, method ∈ t.methods := by
  unfold findMethod at h
  obtain ⟨⟨k', t⟩, htype, h⟩ := (Outcome.bind_eq_ok_iff _ _ _).mp h
  refine ⟨t, mem_of_findType htype, ?_⟩
  dsimp only at h
  split at h
  · rename_i _ j' method' hfound
    cases h
    obtain ⟨_, -, hplace⟩ := Option.bind_eq_some_iff.mp hfound
    obtain ⟨_, hmethod, heq⟩ := Option.map_eq_some_iff.mp hplace
    cases heq
    exact List.mem_of_getElem? hmethod
  · cases h

namespace Module.EscapeFree

variable {m : Module} (h : m.EscapeFree) {w : Writer} (hw : w.Escapes) (tabWidth : Nat)
  (strategy : Strategy)
include h hw

/-- A type of the module is written with colours or without. -/
theorem type_matches {t : TypeDef} (ht : t ∈ m.types) :
    Transcript.Matches w (Dump.type m ⟨tabWidth, true⟩ strategy t)
      (Dump.type m ⟨tabWidth, false⟩ strategy t) :=
  Dump.type_matches hw tabWidth strategy (h.type_fullName ht) fun _ hx => h.method_fullName ht hx

/-- Whatever is dumped, the coloured dump matches the plain one. -/
theorem dump_matches (target : DumpTarget) :
    Transcript.Matches w (m.dump ⟨tabWidth, true⟩ strategy target)
      (m.dump ⟨tabWidth, false⟩ strategy target) := by
  cases target with
  | module =>
    refine (Transcript.Matches.ofEvents (Dump.Matches.nil.log _)).andThen (.each fun t ht => ?_)
    exact (h.type_matches hw tabWidth strategy ht).andThen (.ofEvents (Dump.blankLine_matches hw))
  | type name =>
    simp only [dump]
    cases hfind : m.findType name with
    | error e => exact .fault _
    | ok found => exact h.type_matches hw tabWidth strategy (m.mem_of_findType hfind)
  | method typeName methodName =>
    simp only [dump]
    cases hfind : m.findMethod typeName methodName with
    | error e => exact .fault _
    | ok found =>
      obtain ⟨t, ht, hx⟩ := m.mem_of_findMethod hfind
      exact Dump.method_matches hw tabWidth 0 strategy (h.method_fullName ht hx)
  | graph typeName methodName =>
    simp only [dump]
    cases hfind : m.findMethod typeName methodName with
    | error e => exact .fault _
    | ok found =>
      obtain ⟨t, ht, hx⟩ := m.mem_of_findMethod hfind
      dsimp only
      cases hdecode : m.decode found.2.2 with
      | error e => exact .fault _
      | ok instructions =>
        dsimp only
        cases hbuild : Graph.build instructions found.2.2.regions with
        | error e => exact .fault _
        | ok g =>
          exact .ofEvents (Dump.graph_matches hw tabWidth (h.method_fullName ht hx)
            (h.graph_text hdecode hbuild))

end Module.EscapeFree

/-- Whatever is dumped of a module whose strings have no escape character, through a writer that puts
out escape sequences for colours: the coloured output without these is the plain output, which is the
same for all writers, and both dumps end alike. -/
theorem dump_stripEscapes {m : Module} (h : m.EscapeFree) {w : Writer} (hw : w.Escapes)
    (tabWidth : Nat) (strategy : Strategy) (target : DumpTarget) (other : Writer) :
    stripEscapes ((m.dump ⟨tabWidth, true⟩ strategy target).output w) =
        (m.dump ⟨tabWidth, false⟩ strategy target).output other ∧
      (m.dump ⟨tabWidth, true⟩ strategy target).fault =
        (m.dump ⟨tabWidth, false⟩ strategy target).fault := by
  obtain ⟨hevents, hfault⟩ := h.dump_matches hw tabWidth strategy target
  exact ⟨(hevents other).stripEscapes_eq, hfault⟩

/-- Escape sequences can be put together. -/
theorem Text.EscapeSequences.append {front back : List Char} (h : EscapeSequences front)
    (h' : EscapeSequences back) : EscapeSequences (front ++ back) := by
  induction h with
  | nil => exact h'
  | cons inner rest hinner _ ih => simpa using EscapeSequences.cons inner _ hinner ih

/-- The sequence with a number is one. -/
theorem Writer.escape_escapeSequences {number : String} (h : All (· ≠ 'm') number) :
    EscapeSequences (escape number).toList := by
  have hinner : ∀ c ∈ '[' :: number.toList, c ≠ 'm' := List.forall_mem_cons.mpr ⟨by decide, h⟩
  simpa [escape] using EscapeSequences.cons _ _ hinner .nil

/-- The writer for terminals puts out escape sequences. -/
theorem Writer.ansi_escapes : Writer.ansi.Escapes where
  reset := escape_escapeSequences (by decide)
  setColor spec := by
    have hoption : ∀ (on : Bool) (number : String), All (· ≠ 'm') number →
        EscapeSequences (if on then escape number else "").toList := by
      intro on number hnumber
      split
      · exact escape_escapeSequences hnumber
      · exact .nil
    have hforeground : EscapeSequences
        (spec.foreground.elim "" fun color => escape color.number).toList := by
      cases spec.foreground with
      | none => exact .nil
      | some color => exact escape_escapeSequences (by cases color <;> decide)
    simp only [ansi, String.toList_append]
    exact (((escape_escapeSequences (by decide)).append (hoption _ _ (by decide))).append
      (hoption _ _ (by decide))).append hforeground

example : Dump.printed .ansi (Dump.colored { foreground := some .yellow, bold := true } "ret") =
      "\x1b[0m\x1b[1m\x1b[33mret\x1b[0m" ∧
    stripEscapes "\x1b[0m\x1b[1m\x1b[33mret\x1b[0m" = "ret" := by
  decide +kernel

/-- The strings of the clock module have no escape character, and a terminal can show it. -/
theorem clock_dump_stripEscapes :
    clock.EscapeFree ∧ Writer.ansi.Escapes ∧ ∀ tabWidth strategy target other,
      stripEscapes ((clock.dump ⟨tabWidth, true⟩ strategy target).output .ansi) =
          (clock.dump ⟨tabWidth, false⟩ strategy target).output other ∧
        (clock.dump ⟨tabWidth, true⟩ strategy target).fault =
          (clock.dump ⟨tabWidth, false⟩ strategy target).fault :=
  have hfree : clock.EscapeFree := by decide +kernel
  ⟨hfree, Writer.ansi_escapes, dump_stripEscapes hfree Writer.ansi_escapes⟩

end Unstack
