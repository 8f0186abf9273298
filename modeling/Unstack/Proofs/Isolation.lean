import Unstack.CommandLine.Terminal
import Unstack.Proofs.PrintableText

/-!
# A bad body concerns its own method alone

The dump of a module goes through its methods and prints, between the braces of each, the lines of
its body. What these lines are depends on the body and on what tokens stand for. The latter is no
matter of bodies. So the dump never fails; between the braces there is either one line for every
instruction or one line that says what is wrong; and a change to one body changes the text between
the braces of that method and nothing else.
-/

namespace Unstack

namespace Text

/-- The text has no line feed. -/
abbrev OneLine (text : String) : Prop := All (· ≠ '\n') text

/-- A text without control characters is one line. -/
theorem Printable.oneLine {text : String} (h : Printable text) : OneLine text :=
  h.mono fun c hc heq => absurd (heq ▸ hc) (by decide)

/-- Lines, each ended by a line feed. -/
def ofLines (lines : List String) : String := String.join (lines.map (· ++ "\n"))

end Text

open Text

/-- The writer does not break a line to set or to reset colours. -/
structure Writer.KeepsLines (w : Writer) : Prop where
  setColor : ∀ spec, OneLine (w.setColor spec)
  reset : OneLine w.reset

/-- The writer for terminals does not break lines. -/
theorem Writer.ansi_keepsLines : Writer.ansi.KeepsLines where
  reset := by decide
  setColor spec := by
    have hforeground : OneLine (spec.foreground.elim "" fun color => escape color.number) := by
      cases spec.foreground with
      | none => decide
      | some color => cases color <;> decide
    simp only [ansi, all_append]
    refine ⟨⟨⟨by decide, ?_⟩, ?_⟩, hforeground⟩
    · split <;> decide
    · split <;> decide

/-- A part of a dump ends well, and the writer puts out a text for it. -/
structure Transcript.Prints (w : Writer) (t : Transcript) (text : String) : Prop where
  succeeds : t.fault = none
  output : t.output w = text

namespace Transcript.Prints

variable {w : Writer}

/-- Events end well. -/
theorem ofEvents {events : List DumpEvent} {text : String} (h : Dump.printed w events = text) :
    Prints w (.ofEvents events) text := ⟨rfl, h⟩

/-- Behind a part that ends well the next one is printed. -/
theorem andThen {t next : Transcript} {text text' : String} (h : Prints w t text)
    (h' : Prints w next text') : Prints w (t.andThen next) (text ++ text') := by
  have hboth : t.andThen next = ⟨t.events ++ next.events, next.fault⟩ := by
    rw [Transcript.andThen, h.succeeds]
  rw [hboth]
  refine ⟨h'.succeeds, ?_⟩
  rw [Transcript.output, Dump.printed_append, ← h.output, ← h'.output]
  rfl

/-- Items that end well are printed one after the other. -/
theorem each {α : Type} {items : List α} {part : α → Transcript} {text : α → String}
    (h : ∀ item ∈ items, Prints w (part item) (text item)) :
    Prints w (.each items part) (String.join (items.map text)) := by
  induction items with
  | nil => exact ⟨rfl, rfl⟩
  | cons item items ih =>
    obtain ⟨hitem, hitems⟩ := List.forall_mem_cons.mp h
    rw [List.map_cons, String.join_cons]
    exact hitem.andThen (ih hitems)

end Transcript.Prints

namespace Dump

section Layout

variable (policy : Policy) (w : Writer)

/-- A text that has colours if the policy says so. -/
def shown (spec : ColorSpec) (text : String) : String :=
  if policy.color then w.setColor spec ++ text ++ w.reset else text

/-- The name of something and the brace behind which its parts are printed. -/
def opening (level : Nat) (name : String) : String :=
  policy.indent level ++ shown policy w { bold := true } name ++ "\n" ++
    policy.indent level ++ "\x7b\n"

/-- The brace behind the parts of something. -/
def closing (level : Nat) : String := policy.indent level ++ "\x7d\n"

/-- The line of a lowered instruction. -/
def instructionLine (l : Lowered) : String :=
  policy.indent 2 ++ if policy.color then printed w (coloredInstruction l) else l.text

/-- The line that says why a body has no instructions. -/
def errorLine (e : DumpError) : String :=
  policy.indent 2 ++ shown policy w { foreground := some .red } "error:" ++ " " ++ e.message

/-- The name of a method and lines between its braces. -/
def braced (name : String) (lines : List String) : String :=
  opening policy w 1 name ++ ofLines lines ++ closing policy 1

/-- What is printed of a method among others, given the lines between its braces; nothing is if it
has no body. -/
def methodOutline (inner : Method → List String) (x : Method) : String :=
  if x.body.isSome then braced policy w x.fullName (inner x) ++ "\n" else ""

/-- What is printed of a type among others. -/
def typeOutline (inner : Method → List String) (t : TypeDef) : String :=
  opening policy w 0 t.fullName ++ String.join (t.methods.map (methodOutline policy w inner)) ++
    closing policy 0 ++ "\n"

/-- What is printed of all types. -/
def outline (inner : Method → List String) (types : List TypeDef) : String :=
  String.join (types.map (typeOutline policy w inner))

/-- The lines of the body of a method. -/
def bodyLines (m : Module) (strategy : Strategy) (method : Method) : List String :=
  match m.decode method with
  | .error e => [errorLine policy w (.body e)]
  | .ok body =>
    match lower strategy body method.regions method.reference.signature with
    | .error e => [errorLine policy w (.lowering e)]
    | .ok listing => listing.instructions.map (instructionLine policy w)

/-- Both branches of a header print its opening. -/
theorem printed_header (level : Nat) (name : String) :
    printed w (header policy level name) = opening policy w level name := by
  unfold header opening shown
  split
  · simp [Writer.put, String.append_assoc]
  · simp [Writer.put, String.append_assoc]

/-- A footer prints its closing. -/
theorem printed_footer (level : Nat) : printed w (footer policy level) = closing policy level := by
  simp [footer, closing, Writer.put]

/-- Both branches of a failure print its line. -/
theorem printed_failure (e : DumpError) :
    printed w (failure policy 2 e) = errorLine policy w e ++ "\n" := by
  unfold failure errorLine shown
  split
  · simp [Writer.put, String.append_assoc]
  · simp only [printed_append, printed_cons, printed_nil, Writer.put, String.append_empty,
      String.append_assoc]

/-- Both branches of an instruction print its line. -/
theorem printed_instruction (l : Lowered) :
    printed w (instruction policy 2 l) = instructionLine policy w l ++ "\n" := by
  unfold instruction instructionLine
  split
  · simp [Writer.put, String.append_assoc]
  · simp [Writer.put, String.append_assoc]

/-- An empty line is a line feed. -/
theorem printed_blankLine : printed w blankLine = "\n" := by
  simp [blankLine, Writer.put]

/-- The body of a method prints its lines, and does not end the dump even if it fails. -/
theorem reported_body_prints (m : Module) (strategy : Strategy) (x : Method) :
    Transcript.Prints w (reported policy 2 x.fullName (body m policy strategy 2 x))
      (ofLines (bodyLines policy w m strategy x)) := by
  unfold body bodyLines
  cases m.decode x with
  | error e =>
    apply Transcript.Prints.ofEvents
    simp [printed_failure, ofLines, Writer.put]
  | ok code =>
    dsimp only
    cases lower strategy code x.regions x.reference.signature with
    | error e =>
      apply Transcript.Prints.ofEvents
      simp [Transcript.andThen, Transcript.ofEvents, printed_failure, ofLines, Writer.put]
    | ok l =>
      apply Transcript.Prints.ofEvents
      simp [Transcript.ofEvents, listing, printed_instruction, ofLines, Writer.put,
        Function.comp_def]

/-- A method with a body prints its name and its lines between braces. -/
theorem method_prints (m : Module) (strategy : Strategy) {x : Method}
    (hbody : x.body.isSome = true) :
    Transcript.Prints w (method m policy strategy 1 x)
      (braced policy w x.fullName (bodyLines policy w m strategy x)) := by
  unfold method
  rw [if_pos hbody, braced, String.append_assoc]
  exact (Transcript.Prints.ofEvents (printed_header policy w 1 x.fullName)).andThen
    ((reported_body_prints policy w m strategy x).andThen (.ofEvents (printed_footer policy w 1)))

/-- Methods without a body are left out of a type. -/
theorem join_methodOutline (inner : Method → List String) (methods : List Method) :
    String.join ((methods.filter (·.body.isSome)).map fun x =>
        braced policy w x.fullName (inner x) ++ "\n") =
      String.join (methods.map (methodOutline policy w inner)) := by
  induction methods with
  | nil => rfl
  | cons x methods ih =>
    rw [List.map_cons, String.join_cons, ← ih, methodOutline]
    by_cases hbody : x.body.isSome = true
    · simp only [List.filter_cons, hbody, if_true, List.map_cons, String.join_cons]
    · simp only [List.filter_cons, hbody, if_false, String.empty_append, Bool.false_eq_true]

/-- A type prints its outline. -/
theorem type_prints (m : Module) (strategy : Strategy) (t : TypeDef) :
    Transcript.Prints w ((type m policy strategy t).andThen (.ofEvents blankLine))
      (typeOutline policy w (bodyLines policy w m strategy) t) := by
  have hmethods : Transcript.Prints w
      (.each (t.methods.filter (·.body.isSome)) fun x =>
        (method m policy strategy 1 x).andThen (.ofEvents blankLine))
      (String.join (t.methods.map (methodOutline policy w (bodyLines policy w m strategy)))) := by
    rw [← join_methodOutline]
    refine .each fun x hx => ?_
    have hbody : x.body.isSome = true := (List.mem_filter.mp hx).2
    exact (method_prints policy w m strategy hbody).andThen (.ofEvents (printed_blankLine w))
  have htype := (Transcript.Prints.ofEvents (printed_header policy w 0 t.fullName)).andThen
    (hmethods.andThen (.ofEvents (printed_footer policy w 0)))
  rw [← String.append_assoc] at htype
  exact htype.andThen (.ofEvents (printed_blankLine w))

/-- The dump of a module ends well, and is its outline with the lines of every body in their place. -/
theorem dump_module_prints (m : Module) (strategy : Strategy) :
    Transcript.Prints w (m.dump policy strategy .module)
      (outline policy w (bodyLines policy w m strategy) m.types) := by
  have hlog : printed w [.log (.dumping m.name strategy.name)] = "" := by simp [Writer.put]
  rw [← String.empty_append (s := outline _ _ _ _)]
  exact (Transcript.Prints.ofEvents hlog).andThen
    (.each fun t _ => type_prints policy w m strategy t)

end Layout

/-- The lines of a method are whole: there is one for every instruction of the decoded body, in
program order, or a single one with the fault for which the body was not decoded or not lowered. -/
inductive Whole (policy : Policy) (w : Writer) (m : Module) (strategy : Strategy)
    (method : Method) : List String → Prop
  | listing (body : List Instruction) (ls : List Lowered) (registers : Nat)
      (hdecode : m.decode method = .ok body)
      (hlower : lower strategy body method.regions method.reference.signature = .ok ⟨ls, registers⟩)
      (hsources : ls.map Lowered.source = body) :
      Whole policy w m strategy method (ls.map (instructionLine policy w))
  | undecoded (e : BodyError) (hdecode : m.decode method = .error e) :
      Whole policy w m strategy method [errorLine policy w (.body e)]
  | unlowered (body : List Instruction) (e : LowerError) (hdecode : m.decode method = .ok body)
      (hlower : lower strategy body method.regions method.reference.signature = .error e) :
      Whole policy w m strategy method [errorLine policy w (.lowering e)]

section Between

variable {policy : Policy} {w : Writer} {m : Module} {strategy : Strategy} {method : Method}

/-- The lines of a body are whole. -/
theorem bodyLines_whole :
    Whole policy w m strategy method (bodyLines policy w m strategy method) := by
  unfold bodyLines
  cases hdecode : m.decode method with
  | error e => exact .undecoded e hdecode
  | ok body =>
    dsimp only
    cases hlower : lower strategy body method.regions method.reference.signature with
    | error e => exact .unlowered body e hdecode hlower
    | ok listing =>
      exact .listing body listing.instructions listing.registers hdecode hlower
        (lower_map_source hlower)

/-- A text in colours is one line. -/
theorem shown_oneLine (hw : policy.color = true → w.KeepsLines) {text : String} (h : OneLine text)
    (spec : ColorSpec) : OneLine (shown policy w spec text) := by
  unfold shown
  split
  · next hcolor =>
    have hkeeps := hw hcolor
    simp only [all_append]
    exact ⟨⟨hkeeps.setColor spec, h⟩, hkeeps.reset⟩
  · exact h

/-- The line of a fault is one line. -/
theorem errorLine_oneLine (hw : policy.color = true → w.KeepsLines) {e : DumpError}
    (h : Printable e.message) : OneLine (errorLine policy w e) := by
  simp only [errorLine, all_append]
  refine ⟨⟨⟨(policy.indent_printable 2).oneLine, ?_⟩, by decide⟩, h.oneLine⟩
  exact shown_oneLine hw (by decide) _

/-- The line of an instruction is one line. -/
theorem instructionLine_oneLine (hw : policy.color = true → w.KeepsLines) {l : Lowered}
    (h : Printable l.source.opcode.name) : OneLine (instructionLine policy w l) := by
  refine (all_append _ _).mpr ⟨(policy.indent_printable 2).oneLine, ?_⟩
  split
  · next hcolor =>
    have hkeeps := hw hcolor
    exact all_printed hkeeps.setColor hkeeps.reset fun text htext =>
      (coloredInstruction_printable h text htext).oneLine
  · exact (l.text_printable h).oneLine

/-- Every line of a body is one line. -/
theorem Whole.oneLine (hw : policy.color = true → w.KeepsLines) {lines : List String}
    (h : Whole policy w m strategy method lines) : ∀ line ∈ lines, OneLine line := by
  cases h with
  | listing body ls registers hdecode hlower _ =>
    refine List.forall_mem_map.mpr fun l hl => instructionLine_oneLine hw ?_
    exact m.name_printable_of_lower hdecode hlower hl
  | undecoded e _ =>
    have hmessage : Printable (DumpError.body e).message :=
      (all_append _ _).mpr ⟨by decide, e.message_printable⟩
    exact List.forall_mem_singleton.mpr (errorLine_oneLine hw hmessage)
  | unlowered body e hdecode hlower =>
    have hmessage : Printable (DumpError.lowering e).message :=
      m.message_printable_of_lower hdecode hlower
    exact List.forall_mem_singleton.mpr (errorLine_oneLine hw hmessage)

end Between

end Dump

/-- The module with another body for method `j` of type `k`. -/
def Module.withBody (m : Module) (k j : Nat) (body : MethodBody) : Module :=
  { m with
    types := m.types.modify k fun t =>
      { t with methods := t.methods.modify j fun x => { x with body := some body } } }

/-- The lines of a body depend on the module only through what tokens stand for. -/
theorem Dump.bodyLines_congr {m m' : Module} (h : m'.resolve = m.resolve) (policy : Policy)
    (w : Writer) (strategy : Strategy) :
    bodyLines policy w m' strategy = bodyLines policy w m strategy := by
  funext method
  have hdecode : m'.decode method = m.decode method := by rw [Module.decode, Module.decode, h]
  rw [bodyLines, bodyLines, hdecode]

/-- A change that a function does not see changes no list of its values. -/
theorem map_modify_of_unseen {α β : Type} {change : α → α} {see : α → β}
    (h : ∀ item, see (change item) = see item) (items : List α) (k : Nat) :
    (items.modify k change).map see = items.map see := by
  apply List.ext_getElem?
  intro n
  rw [List.getElem?_map, List.getElem?_map, List.getElem?_modify]
  cases items[n]? with
  | none => rfl
  | some item => by_cases hn : k = n <;> simp [hn, h]

/-- What tokens stand for is no matter of bodies. -/
theorem Module.resolve_withBody (m : Module) (k j : Nat) (body : MethodBody) :
    (m.withBody k j body).resolve = m.resolve := by
  have hdefinitions : (m.withBody k j body).definitions = m.definitions := by
    unfold definitions withBody
    rw [List.flatMap_def, List.flatMap_def]
    refine congrArg List.flatten (map_modify_of_unseen (fun t => ?_) m.types k)
    have hreference : ∀ x : Method, ({ x with body := some body } : Method).reference = x.reference :=
      fun _ => rfl
    exact map_modify_of_unseen hreference t.methods j
  have hcallables : (m.withBody k j body).callables = m.callables := by
    rw [callables, callables, hdefinitions]
    rfl
  funext token
  rw [resolve, resolve, hcallables]

namespace Text

/-- Two texts differ in one place, where the first has `part` and the second `part'`. -/
def DifferIn (text text' part part' : String) : Prop :=
  ∃ before after, text = before ++ part ++ after ∧ text' = before ++ part' ++ after

/-- A text as a whole may differ. -/
theorem differIn_self (part part' : String) : DifferIn part part' part part' :=
  ⟨"", "", by simp, by simp⟩

/-- What stands around both texts is no difference. -/
theorem DifferIn.frame {text text' part part' : String} (h : DifferIn text text' part part')
    (front back : String) : DifferIn (front ++ text ++ back) (front ++ text' ++ back) part part' := by
  obtain ⟨before, after, rfl, rfl⟩ := h
  exact ⟨front ++ before, after ++ back, by simp [String.append_assoc],
    by simp [String.append_assoc]⟩

/-- The place where two texts differ can be narrowed down. -/
theorem DifferIn.trans {text text' part part' inner inner' : String}
    (h : DifferIn text text' part part') (h' : DifferIn part part' inner inner') :
    DifferIn text text' inner inner' := by
  obtain ⟨before, after, rfl, rfl⟩ := h
  obtain ⟨before', after', rfl, rfl⟩ := h'
  exact ⟨before ++ before', after' ++ after, by simp [String.append_assoc],
    by simp [String.append_assoc]⟩

/-- A change to one item shows in the text of that item. -/
theorem differIn_join {α : Type} {items : List α} {k : Nat} {item : α}
    (hitem : items[k]? = some item) (change : α → α) (text : α → String) :
    DifferIn (String.join (items.map text)) (String.join ((items.modify k change).map text))
      (text item) (text (change item)) := by
  obtain ⟨hk, hget⟩ := List.getElem?_eq_some_iff.mp hitem
  obtain ⟨before, found, after, rfl, hlength, hmodify⟩ := List.exists_of_modify change hk
  obtain rfl : found = item := by simpa [hlength] using hget
  rw [hmodify]
  refine ⟨String.join (before.map text), String.join (after.map text), ?_, ?_⟩
  · simp [String.join_append, String.append_assoc]
  · simp [String.join_append, String.append_assoc]

end Text

namespace Dump

section OtherBody

variable (policy : Policy) (w : Writer) (inner : Method → List String)

/-- A change to a method with a body that keeps its name shows between its braces. -/
theorem differIn_methodOutline {x y : Method} (hx : x.body.isSome = true) (hy : y.body.isSome = true)
    (hname : y.fullName = x.fullName) :
    DifferIn (methodOutline policy w inner x) (methodOutline policy w inner y)
      (braced policy w x.fullName (inner x)) (braced policy w x.fullName (inner y)) := by
  rw [methodOutline, methodOutline, if_pos hx, if_pos hy, hname]
  simpa using (differIn_self _ _).frame "" "\n"

/-- A change to a method shows in the outline of its type where the method stands. -/
theorem differIn_typeOutline {t : TypeDef} {j : Nat} {x : Method} (hx : t.methods[j]? = some x)
    (change : Method → Method) :
    DifferIn (typeOutline policy w inner t)
      (typeOutline policy w inner { t with methods := t.methods.modify j change })
      (methodOutline policy w inner x) (methodOutline policy w inner (change x)) := by
  have hframed := (differIn_join hx change (methodOutline policy w inner)).frame
    (opening policy w 0 t.fullName) (closing policy 0 ++ "\n")
  rw [← String.append_assoc, ← String.append_assoc] at hframed
  exact hframed

end OtherBody

/-- Another body for a method that has one shows only between the braces of that method. -/
theorem differIn_withBody {m : Module} {k j : Nat} {t : TypeDef} {x : Method}
    (ht : m.types[k]? = some t) (hx : t.methods[j]? = some x) (hbody : x.body.isSome = true)
    (code : MethodBody) (policy : Policy) (strategy : Strategy) (w : Writer) :
    DifferIn ((m.dump policy strategy .module).output w)
      (((m.withBody k j code).dump policy strategy .module).output w)
      (braced policy w x.fullName (bodyLines policy w m strategy x))
      (braced policy w x.fullName
        (bodyLines policy w (m.withBody k j code) strategy { x with body := some code })) := by
  have hbefore := (dump_module_prints policy w m strategy).output
  have hafter := (dump_module_prints policy w (m.withBody k j code) strategy).output
  rw [hbefore, hafter, bodyLines_congr (m.resolve_withBody k j code)]
  refine (differIn_join ht _ _).trans ((differIn_typeOutline policy w _ hx _).trans ?_)
  exact differIn_methodOutline policy w _ hbody rfl rfl

/-- The dump of a module keeps the faults of bodies to their methods. -/
structure IsolatesBodies (m : Module) (policy : Policy) (strategy : Strategy) (w : Writer) :
    Prop where
  /-- The dump ends well. -/
  succeeds : (m.dump policy strategy .module).fault = none
  /-- Around the lines of the bodies there are only names, braces and empty lines. -/
  outlined : (m.dump policy strategy .module).output w =
    outline policy w (bodyLines policy w m strategy) m.types
  /-- Every method with a body has one line for each of its instructions, or one for its fault. -/
  whole : ∀ t ∈ m.types, ∀ x ∈ t.methods, x.body.isSome = true →
    Whole policy w m strategy x (bodyLines policy w m strategy x)
  /-- Each of these is just one line, also in colours, if the writer does not break lines for them. -/
  unbroken : (policy.color = true → w.KeepsLines) → ∀ t ∈ m.types, ∀ x ∈ t.methods,
    x.body.isSome = true → ∀ line ∈ bodyLines policy w m strategy x, OneLine line
  /-- With another body for one method, the output differs only between the braces of that method. -/
  isolated : ∀ (k j : Nat) (t : TypeDef) (x : Method) (code : MethodBody), m.types[k]? = some t →
    t.methods[j]? = some x → x.body.isSome = true →
      DifferIn ((m.dump policy strategy .module).output w)
        (((m.withBody k j code).dump policy strategy .module).output w)
        (braced policy w x.fullName (bodyLines policy w m strategy x))
        (braced policy w x.fullName
          (bodyLines policy w (m.withBody k j code) strategy { x with body := some code }))

/-- Every dump of a module isolates its bodies. -/
theorem dump_isolatesBodies (m : Module) (policy : Policy) (strategy : Strategy) (w : Writer) :
    IsolatesBodies m policy strategy w where
  succeeds := (dump_module_prints policy w m strategy).succeeds
  outlined := (dump_module_prints policy w m strategy).output
  whole _ _ _ _ _ := bodyLines_whole
  unbroken hw _ _ _ _ _ := bodyLines_whole.oneLine hw
  isolated _ _ _ _ code ht hx hbody := differIn_withBody ht hx hbody code policy strategy w

/-- A body whose first byte is no opcode. -/
def brokenCode : MethodBody := { il := "FF" }

/-- In the clock module a broken body costs its method all its lines but one. On a terminal each line is
one, too. -/
theorem clock_isolatesBodies :
    bodyLines {} .plain clock .forwardPass clockRun =
        ["    IL_0000: v0 <- ldarg.0", "    IL_0001: v1 <- ldc.i4.s", "    IL_0003: v0 <- cgt v0 v1",
          "    IL_0005: switch v0 | targets: IL_0000 IL_0019", "    IL_0012: call",
          "    IL_0017: br.s | target: IL_0000", "    IL_0019: ret"] ∧
      bodyLines {} .plain (clock.withBody 0 0 brokenCode) .forwardPass
          { clockRun with body := some brokenCode } =
        ["    error: cannot decode method body: unknown opcode 0xFF at IL_0000"] ∧
      DifferIn ((clock.dump {} .forwardPass .module).output .plain)
        (((clock.withBody 0 0 brokenCode).dump {} .forwardPass .module).output .plain)
        (braced {} .plain clockRun.fullName (bodyLines {} .plain clock .forwardPass clockRun))
        (braced {} .plain clockRun.fullName
          (bodyLines {} .plain (clock.withBody 0 0 brokenCode) .forwardPass
            { clockRun with body := some brokenCode })) ∧
      ∀ t ∈ clock.types, ∀ x ∈ t.methods, x.body.isSome = true →
        ∀ line ∈ bodyLines { color := true } .ansi clock .graphTraversal x, OneLine line := by
  refine ⟨?_, ?_, ?_, ?_⟩
  · decide +kernel
  · decide +kernel
  · exact (dump_isolatesBodies clock {} .forwardPass .plain).isolated 0 0 _ clockRun brokenCode
      rfl rfl rfl
  · exact (dump_isolatesBodies clock { color := true } .graphTraversal .ansi).unbroken
      fun _ => Writer.ansi_keepsLines

end Dump

end Unstack
