import Unstack.Dump
import Unstack.Proofs.DepthRule
import Unstack.Proofs.EncodedText
import Unstack.Proofs.KnownEffects
import Unstack.Proofs.Numerals
import Unstack.Proofs.SourceOrder

/-!
# What printed texts are made of

Dumps print labels, numerals, mnemonics and fixed wordings, and names that the module brings along.
All but the names are free of control characters: no line feed in a label or a wording breaks a
line, and no escape character in them starts a rendition. A lowered instruction and the fault of a
body that was decoded hold no name at all. The text of a block graph does, where calls name their
callees, and these come from the module.
-/

namespace Unstack

namespace Text

/-- Every character of the text is as described. -/
def All (p : Char → Prop) (text : String) : Prop := ∀ c ∈ text.toList, p c

instance (p : Char → Prop) [DecidablePred p] (text : String) : Decidable (All p text) :=
  List.decidableBAll p text.toList

/-- The text has no control character. -/
abbrev Printable (text : String) : Prop := All (' ' ≤ ·) text

variable {p q : Char → Prop}

/-- What all characters are, they are also by a weaker description. -/
theorem All.mono {text : String} (h : All p text) (himp : ∀ c, p c → q c) : All q text :=
  fun c hc => himp c (h c hc)

/-- A text has the characters of its two parts. -/
@[simp] theorem all_append (s t : String) : All p (s ++ t) ↔ All p s ∧ All p t := by
  simp only [All, String.toList_append, List.forall_mem_append]

/-- A text has the characters of all its parts. -/
@[simp] theorem all_join (texts : List String) :
    All p (String.join texts) ↔ ∀ text ∈ texts, All p text := by
  simp only [All, String.toList_join, List.mem_flatMap]
  exact ⟨fun h text htext c hc => h c ⟨text, htext, hc⟩,
    fun h c ⟨text, htext, hc⟩ => h text htext c hc⟩

/-- A text has the characters that it is made of. -/
@[simp] theorem all_ofList (chars : List Char) : All p (String.ofList chars) ↔ ∀ c ∈ chars, p c := by
  rw [All, String.toList_ofList]

/-- A list of texts has their characters and those of the separator. -/
theorem all_intercalate {separator : String} {texts : List String} (hseparator : All p separator)
    (htexts : ∀ text ∈ texts, All p text) : All p (separator.intercalate texts) := by
  induction texts with
  | nil => simp [String.intercalate_nil, All]
  | cons first rest ih =>
    have hrest := ih fun text htext => htexts text (List.mem_cons_of_mem _ htext)
    cases rest with
    | nil => simpa using htexts
    | cons second rest =>
      rw [String.intercalate_cons_cons]
      simp only [all_append]
      exact ⟨⟨htexts first List.mem_cons_self, hseparator⟩, hrest⟩

/-- The lines of a text have the characters of the text. -/
theorem mem_of_mem_linesFrom {line rest : List Char} {l : List Char} (hl : l ∈ linesFrom line rest)
    {c : Char} (hc : c ∈ l) : c ∈ line ∨ c ∈ rest := by
  fun_induction linesFrom line rest with
  | case1 => cases hl
  | case2 line hne =>
    obtain rfl := List.mem_singleton.mp hl
    exact .inl (List.mem_reverse.mp hc)
  | case3 line rest ih =>
    rcases List.mem_cons.mp hl with rfl | hlater
    · left
      unfold closeLine at hc
      split at hc
      · exact List.mem_cons_of_mem _ (List.mem_reverse.mp hc)
      · exact List.mem_reverse.mp hc
    · exact .inr (List.mem_cons_of_mem _ ((ih hlater).resolve_left List.not_mem_nil))
  | case4 line d rest hd ih =>
    rcases ih hl with hline | hrest
    · rcases List.mem_cons.mp hline with rfl | hline
      · exact .inr List.mem_cons_self
      · exact .inl hline
    · exact .inr (List.mem_cons_of_mem _ hrest)

/-- A line of a text is as described if the text is. -/
theorem All.of_mem_lines {text line : String} (h : All p text) (hline : line ∈ lines text) :
    All p line := by
  obtain ⟨chars, hchars, rfl⟩ := List.mem_map.mp hline
  rw [all_ofList]
  intro c hc
  exact h c ((mem_of_mem_linesFrom hchars hc).resolve_left List.not_mem_nil)

end Text

open Text

namespace Numeral

/-- Digits are behind the blank. -/
theorem lt_digitChar : ∀ d < 16, ' ' < digitChar d := by decide

/-- A numeral has neither blanks nor control characters. -/
theorem lt_of_mem_digits {base : Nat} (htwo : 2 ≤ base) (hbase : base ≤ 16) (n : Nat) :
    ∀ c ∈ digits base n, ' ' < c := by
  intro c hc
  obtain ⟨d, hd, rfl⟩ := exists_digit_of_mem htwo hc
  exact lt_digitChar d (lt_of_lt_of_le hd hbase)

/-- A numeral has no control characters. -/
theorem le_of_mem_digits {base : Nat} (htwo : 2 ≤ base) (hbase : base ≤ 16) (n : Nat) :
    ∀ c ∈ digits base n, ' ' ≤ c := fun c hc => Std.le_of_lt (lt_of_mem_digits htwo hbase n c hc)

/-- A decimal numeral has no control characters. -/
theorem decimal_printable (n : Nat) : Printable (decimal n) :=
  (all_ofList _).mpr (le_of_mem_digits (by decide) (by decide) n)

/-- Nor has one with a sign. -/
theorem signedDecimal_printable (n : Int) : Printable (signedDecimal n) := by
  cases n with
  | ofNat n => exact decimal_printable n
  | negSucc n => exact (all_append _ _).mpr ⟨by decide, decimal_printable (n + 1)⟩

/-- Nor has a hexadecimal numeral that is filled up with zeros. -/
theorem hexadecimal_printable (width n : Nat) : Printable (hexadecimal width n) := by
  refine (all_ofList _).mpr (List.forall_mem_append.mpr ⟨fun c hc => ?_, ?_⟩)
  · rw [List.eq_of_mem_replicate hc]
    decide
  · exact le_of_mem_digits (by decide) (by decide) n

end Numeral

/-- A decimal is written with digits and a point. -/
theorem Decimal.Scaled.le_of_mem_positional (decimal : Decimal.Scaled) :
    ∀ c ∈ decimal.positional, ' ' ≤ c := by
  have hcut : ∀ k, ∀ c ∈ (Numeral.digits 10 decimal.digits).take k, ' ' ≤ c := fun k c hc =>
    Numeral.le_of_mem_digits (by decide) (by decide) decimal.digits c (List.mem_of_mem_take hc)
  have hzeros : ∀ n, ∀ c ∈ List.replicate n '0', ' ' ≤ c := fun n c hc =>
    List.eq_of_mem_replicate hc ▸ (by decide)
  unfold positional
  dsimp only
  split
  · exact List.forall_mem_append.mpr ⟨hcut _, hzeros _⟩
  · split
    · refine List.forall_mem_append.mpr ⟨?_, List.forall_mem_cons.mpr ⟨by decide, ?_⟩⟩
      · exact fun c hc => hcut _ c (List.mem_of_mem_take hc)
      · exact fun c hc => hcut _ c (List.mem_of_mem_drop hc)
    · refine List.forall_mem_cons.mpr ⟨by decide, List.forall_mem_cons.mpr ⟨by decide, ?_⟩⟩
      exact List.forall_mem_append.mpr ⟨hzeros _, hcut _⟩

/-- A number in a binary format is written without control characters, also if it is none. -/
theorem Decimal.BinaryFormat.text_printable (f : Decimal.BinaryFormat) (bits : Nat) :
    Printable (f.text bits) := by
  have hsign : ∀ negative : Bool, Printable (if negative then "-" else "") := by decide
  unfold text
  split
  · decide
  · split <;> decide
  · dsimp only
    split
    · exact (all_append _ _).mpr ⟨hsign _, by decide⟩
    · exact (all_append _ _).mpr ⟨hsign _, (all_ofList _).mpr (Scaled.le_of_mem_positional _)⟩

/-- A label has no control characters. -/
theorem Offset.label_printable (offset : Offset) : Printable offset.label :=
  (all_append _ _).mpr ⟨by decide, Numeral.hexadecimal_printable 4 offset⟩

/-- The name of a register has no control characters. -/
theorem Register.name_printable (register : Register) : Printable register.name :=
  (all_append _ _).mpr ⟨by decide, Numeral.decimal_printable register.index⟩

/-- A token is written without control characters. -/
theorem Token.text_printable (token : Token) : Printable token.text :=
  (all_append _ _).mpr ⟨by decide, Numeral.hexadecimal_printable 8 token.value.toNat⟩

/-- A mnemonic has neither blanks nor control characters. -/
theorem Opcode.name_visible {opcode : Opcode} (h : opcode ∈ Opcode.table) :
    All (' ' < ·) opcode.name := by
  -- the bytes of a mnemonic are found faster than its characters
  have hbytes : ∀ opcode ∈ Opcode.table, (encoded opcode.name).all (32 < ·.toNat) = true := by
    decide +kernel
  intro c hc
  refine Char.lt_def.mpr (UInt32.lt_iff_toNat_lt.mpr (lt_of_mem_of_encoded (by decide) ?_ c hc))
  intro byte hbyte
  exact of_decide_eq_true (List.all_eq_true.mp (hbytes opcode h) byte hbyte)

/-- A mnemonic of the table has no control characters. -/
theorem Opcode.name_printable (opcode : Opcode) (h : opcode ∈ Opcode.table) :
    Printable opcode.name :=
  (name_visible h).mono fun _ => Std.le_of_lt

/-- The fault of a decoder names offsets, values and tokens. -/
theorem DecodeError.message_printable (e : DecodeError) : Printable e.message := by
  -- One equation for each constructor would take long to make, with such long literals in them.
  unfold message
  cases e with
  | unknownOpcode offset value =>
    simp only [all_append]
    refine ⟨⟨⟨?_, Numeral.hexadecimal_printable 2 value⟩, ?_⟩, offset.label_printable⟩ <;>
      decide
  | unexpectedEnd offset =>
    simp only [all_append]
    exact ⟨by decide, offset.label_printable⟩
  | branchOutOfRange offset =>
    simp only [all_append]
    refine ⟨⟨?_, offset.label_printable⟩, ?_⟩ <;> decide
  | unresolvedToken offset token =>
    simp only [all_append]
    refine ⟨⟨⟨?_, token.text_printable⟩, ?_⟩, offset.label_printable⟩ <;> decide

/-- The fault of a body that cannot be decoded has no control character. -/
theorem BodyError.message_printable (e : BodyError) : Printable e.message := by
  cases e with
  | notHex => decide
  | decode cause => exact cause.message_printable

/-- The fault of a graph names offsets. -/
theorem GraphError.message_printable (e : GraphError) : Printable e.message := by
  unfold message
  cases e with
  | emptyMethod => decide
  | danglingTarget source target =>
    simp only [all_append]
    refine ⟨⟨⟨⟨?_, source.label_printable⟩, ?_⟩, target.label_printable⟩, ?_⟩ <;> decide
  | danglingBoundary offset =>
    simp only [all_append]
    refine ⟨⟨?_, offset.label_printable⟩, ?_⟩ <;> decide

/-- The fault of an instruction names its mnemonic and its place. -/
theorem StackFault.message_printable {i : Instruction} {e : LowerError} (h : StackFault i e)
    (hname : Printable i.opcode.name) : Printable e.message := by
  have hlabel := i.offset.label_printable
  unfold LowerError.message
  cases h with
  | unknownEffect =>
    simp only [all_append]
    refine ⟨⟨⟨?_, hname⟩, ?_⟩, hlabel⟩ <;> decide
  | unbalanced depth required _ =>
    simp only [all_append]
    refine ⟨⟨⟨⟨⟨⟨⟨?_, hname⟩, ?_⟩, hlabel⟩, ?_⟩, Numeral.decimal_printable required⟩, ?_⟩,
      Numeral.decimal_printable depth⟩ <;> decide

/-- The mnemonics of a decoded body are those of the table. -/
theorem Module.name_printable_of_decode {m : Module} {method : Method} {body : List Instruction}
    (h : m.decode method = .ok body) {i : Instruction} (hi : i ∈ body) :
    Printable i.opcode.name := by
  obtain ⟨c, c', hread⟩ := Module.exists_instruction_of_decode h hi
  exact Opcode.name_printable _ (Decode.opcode_mem_table hread)

/-- A decoded body that cannot be lowered has a fault without control characters. -/
theorem Module.message_printable_of_lower {m : Module} {method : Method} {body : List Instruction}
    (hdecode : m.decode method = .ok body) {strategy : Strategy} {regions : List Region}
    {signature : Signature} {e : LowerError} (h : lower strategy body regions signature = .error e) :
    Printable e.message := by
  rcases malformed_or_faultIn h with ⟨cause, rfl⟩ | ⟨i, hi, stack, hstep⟩
  · exact (all_append _ _).mpr ⟨by decide, cause.message_printable⟩
  · exact (Lowered.stackFault_of_step hstep).message_printable
      (name_printable_of_decode hdecode hi)

/-- A lowered instruction is written with its mnemonic, labels and registers. -/
theorem Lowered.text_printable (l : Lowered) (hname : Printable l.source.opcode.name) :
    Printable l.text := by
  have hlabel : ∀ offset : Offset, Printable offset.label := Offset.label_printable
  have hregister : ∀ r : Register, Printable r.name := Register.name_printable
  unfold text
  simp only [all_append]
  refine ⟨⟨⟨⟨⟨hlabel _, by decide⟩, ?_⟩, hname⟩, ?_⟩, ?_⟩
  · split
    · decide
    · simp only [all_append, all_join, List.forall_mem_map]
      exact ⟨fun r _ => ⟨hregister r, by decide⟩, by decide⟩
  · simp only [all_append, all_join, List.forall_mem_map]
    exact fun r _ => ⟨by decide, hregister r⟩
  · split
    · decide
    · simp only [all_append, all_join, List.forall_mem_map]
      exact ⟨by split <;> decide, fun t _ => ⟨by decide, hlabel t⟩⟩

/-- Whichever strategy makes a listing, it lists the body. -/
theorem lower_map_source {strategy : Strategy} {body : List Instruction} {regions : List Region}
    {method : Signature} {listing : Listing} (h : lower strategy body regions method = .ok listing) :
    listing.instructions.map Lowered.source = body := by
  cases strategy with
  | forwardPass =>
    obtain ⟨final, hpass, -⟩ := Forward.exists_final_of_lower h
    exact Forward.lowerFrom_sources _ regions method {} body _ final hpass
  | graphTraversal =>
    obtain ⟨g, hbuild, hwalk⟩ := Traversal.exists_graph_of_lower h
    exact Traversal.sources_of_build hbuild hwalk

/-- The mnemonics of a lowered body are those of the table. -/
theorem Module.name_printable_of_lower {m : Module} {method : Method} {body : List Instruction}
    (hdecode : m.decode method = .ok body) {strategy : Strategy} {regions : List Region}
    {signature : Signature} {listing : Listing}
    (h : lower strategy body regions signature = .ok listing) {l : Lowered}
    (hl : l ∈ listing.instructions) : Printable l.source.opcode.name := by
  have hsource : l.source ∈ body := by
    rw [← lower_map_source h]
    exact List.mem_map_of_mem hl
  exact name_printable_of_decode hdecode hsource

/-- Indentation is made of blanks. -/
theorem Policy.indent_printable (policy : Policy) (level : Nat) : Printable (policy.indent level) :=
  (all_ofList _).mpr fun _ hc => List.eq_of_mem_replicate hc ▸ Char.le_refl ' '

namespace Dump

variable (w : Writer)

/-- Nothing is put out where nothing happens. -/
@[simp] theorem printed_nil : printed w [] = "" := rfl

/-- What happens first is put out first. -/
@[simp] theorem printed_cons (event : DumpEvent) (events : List DumpEvent) :
    printed w (event :: events) = w.put event ++ printed w events := by
  rw [printed, List.map_cons, String.join_cons]
  rfl

/-- Parts of a dump are put out one after the other. -/
@[simp] theorem printed_append (events later : List DumpEvent) :
    printed w (events ++ later) = printed w events ++ printed w later := by
  rw [printed, List.map_append, String.join_append]
  rfl

/-- Logging puts nothing out. -/
@[simp] theorem printed_map_log (entries : List LogEntry) : printed w (entries.map .log) = "" := by
  induction entries with
  | nil => rfl
  | cons entry entries ih => rw [List.map_cons, printed_cons, ih, Writer.put, String.empty_append]

/-- What is put out for items is put out one item after the other. -/
@[simp] theorem printed_flatMap {α : Type} (items : List α) (events : α → List DumpEvent) :
    printed w (items.flatMap events) =
      String.join (items.map fun item => printed w (events item)) := by
  induction items with
  | nil => rfl
  | cons item items ih => rw [List.flatMap_cons, printed_append, ih, List.map_cons, String.join_cons]

/-- Text in colours stands between what sets them and what resets them. -/
@[simp] theorem printed_colored (spec : ColorSpec) (text : String) :
    printed w (colored spec text) = w.setColor spec ++ text ++ w.reset := by
  simp [colored, Writer.put, String.append_assoc]

/-- What is put out has the characters of the texts and of what sets and resets colours. -/
theorem all_printed {p : Char → Prop} {w : Writer} (hset : ∀ spec, All p (w.setColor spec))
    (hreset : All p w.reset) {events : List DumpEvent}
    (hwrites : ∀ text, .write text ∈ events → All p text) : All p (printed w events) := by
  rw [printed, all_join, List.forall_mem_map]
  intro event hevent
  cases event with
  | write text => exact hwrites text hevent
  | setColor spec => exact hset spec
  | reset => exact hreset
  | log entry => simp [Writer.put, All]

/-- The texts that are written have the characters of what is put out. -/
theorem all_of_printed {p : Char → Prop} {w : Writer} {events : List DumpEvent}
    (h : All p (printed w events)) : ∀ text, .write text ∈ events → All p text := by
  rw [printed, all_join, List.forall_mem_map] at h
  exact fun text htext => h _ htext

/-- The two layouts of a lowered instruction say the same. -/
theorem printed_coloredInstruction (l : Lowered) : printed .plain (coloredInstruction l) = l.text := by
  have houtputs : printed .plain (coloredOutputs l.outputs) =
      if l.outputs.isEmpty then ""
      else String.join (l.outputs.map fun r => r.name ++ " ") ++ "<- " := by
    unfold coloredOutputs
    split
    · rfl
    · simp [Writer.put, Writer.plain]
  have htargets : printed .plain (coloredTargets l.targets) =
      if l.targets.isEmpty then ""
      else (if l.targets.length = 1 then " | target:" else " | targets:") ++
        String.join (l.targets.map fun t => " " ++ t.label) := by
    unfold coloredTargets
    split
    · rfl
    · simp [Writer.put, Writer.plain]
  simp only [coloredInstruction, printed_append, houtputs, htargets]
  simp [Lowered.text, Writer.put, Writer.plain, String.append_assoc]

/-- A lowered instruction is written with its mnemonic, labels and registers, with colours too. -/
theorem coloredInstruction_printable {l : Lowered} (hname : Printable l.source.opcode.name) :
    ∀ text, .write text ∈ coloredInstruction l → Printable text := by
  have htext := l.text_printable hname
  rw [← printed_coloredInstruction] at htext
  exact all_of_printed htext

/-- The fault of a body has no control character. -/
theorem message_printable_of_body {m : Module} {policy : Policy} {strategy : Strategy} {level : Nat}
    {x : Method} {e : DumpError} (h : (body m policy strategy level x).fault = some e) :
    Printable e.message := by
  unfold body at h
  cases hdecode : m.decode x with
  | error cause =>
    simp only [hdecode, Option.some.injEq] at h
    subst h
    exact (all_append _ _).mpr ⟨by decide, cause.message_printable⟩
  | ok instructions =>
    cases hlower : lower strategy instructions x.regions x.reference.signature with
    | error cause =>
      simp only [hdecode, hlower, Transcript.andThen, Transcript.ofEvents, Option.some.injEq] at h
      subst h
      exact m.message_printable_of_lower hdecode hlower
    | ok l => simp [hdecode, hlower, Transcript.andThen, Transcript.ofEvents] at h

end Dump

end Unstack
