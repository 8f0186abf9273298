import Unstack.Lowering
import Unstack.Module
import Unstack.Text.Lines
import Unstack.Writer

/-!
# Dumps

Printing a module, a type or a method in register form, or the block graph of a method. A dump is a
transcript: what is written and logged and where colours are set and reset, in the order in which it
happens, and the fault that ends it. With colours some things are written part by part that are
otherwise written in one. What comes out of a writer, with little room or much, is a function of the
transcript.

A body that cannot be decoded or lowered has its fault printed in the place of its instructions,
and the dump goes on. Only a name that is not found, and a graph that cannot be built, end a dump,
and they do so before anything is written.
-/

namespace Unstack

/-- How dumps are printed. -/
structure Policy where
  tabWidth : Nat := 2
  color : Bool := false
deriving DecidableEq, Repr

/-- The indentation of a level. -/
def Policy.indent (policy : Policy) (level : Nat) : String :=
  String.ofList (List.replicate (level * policy.tabWidth) ' ')

/-- Why a dump, or a part of one, ended early. -/
inductive DumpError where
  | lookup (cause : LookupError)
  | body (cause : BodyError)
  | graph (cause : GraphError)
  | lowering (cause : LowerError)
deriving DecidableEq, Repr

/-- The wording of a fault. -/
def DumpError.message : DumpError → String
  | .lookup cause => cause.message
  | .body cause => "cannot decode method body: " ++ cause.message
  | .graph cause => cause.message
  | .lowering cause => cause.message

/-- One thing that happens during a dump. -/
inductive DumpEvent where
  | write (text : String)
  | setColor (spec : ColorSpec)
  | reset
  | log (entry : LogEntry)
deriving DecidableEq, Repr

/-- What a writer puts out when something happens. -/
def Writer.put (w : Writer) : DumpEvent → String
  | .write text => text
  | .setColor spec => w.setColor spec
  | .reset => w.reset
  | .log _ => ""

/-- All that happens during a dump or a part of it, and the fault that ends it. -/
structure Transcript where
  events : List DumpEvent := []
  fault : Option DumpError := none
deriving DecidableEq, Repr

namespace Transcript

/-- A part that does not end early. -/
def ofEvents (events : List DumpEvent) : Transcript := { events }

/-- Goes on with another part, unless a fault has ended the dump. -/
def andThen (t next : Transcript) : Transcript :=
  match t.fault with
  | none => { events := t.events ++ next.events, fault := next.fault }
  | some _ => t

/-- Goes through items up to the first at which a fault ends the dump. -/
def each {α : Type} (items : List α) (part : α → Transcript) : Transcript :=
  items.foldr (fun item rest => (part item).andThen rest) {}

end Transcript

/-- What to dump, by name. -/
inductive DumpTarget where
  | module
  | type (name : String)
  | method (typeName methodName : String)
  /-- The block graph of a method. -/
  | graph (typeName methodName : String)
deriving DecidableEq, Repr

namespace Dump

/-- Text in colours. -/
def colored (spec : ColorSpec) (text : String) : List DumpEvent :=
  [.setColor spec, .write text, .reset]

/-- An empty line. -/
def blankLine : List DumpEvent := [.write "\n"]

/-- The name of something and the brace that opens it. -/
def header (policy : Policy) (level : Nat) (name : String) : List DumpEvent :=
  (if policy.color then
    .write (policy.indent level) :: colored { bold := true } name ++ [.write "\n"]
  else [.write (policy.indent level ++ name ++ "\n")]) ++
    [.write (policy.indent level ++ "\x7b\n")]

/-- The brace that closes something. -/
def footer (policy : Policy) (level : Nat) : List DumpEvent :=
  [.write (policy.indent level ++ "\x7d\n")]

/-- A fault in the place of a body. -/
def failure (policy : Policy) (level : Nat) (e : DumpError) : List DumpEvent :=
  .write (policy.indent level) ::
    (if policy.color then colored { foreground := some .red } "error:" else [.write "error:"]) ++
    [.write (" " ++ e.message ++ "\n")]

/-- The outputs before the arrow, in colours, if there are any. -/
def coloredOutputs (outputs : List Register) : List DumpEvent :=
  if outputs.isEmpty then []
  else
    outputs.flatMap (fun r => colored { foreground := some .green } r.name ++ [.write " "]) ++
      [.write "<- "]

/-- The targets after the bar, in colours, if there are any. -/
def coloredTargets (targets : List Offset) : List DumpEvent :=
  if targets.isEmpty then []
  else
    .write (if targets.length = 1 then " | target:" else " | targets:") ::
      targets.flatMap fun t => .write " " :: colored { foreground := some .cyan } t.label

/-- A lowered instruction, written part by part in colours. -/
def coloredInstruction (l : Lowered) : List DumpEvent :=
  colored { dimmed := true } l.source.offset.label ++ [.write ": "] ++ coloredOutputs l.outputs ++
    colored { foreground := some .yellow, bold := true } l.source.opcode.name ++
    l.inputs.flatMap (fun r => .write " " :: colored { foreground := some .green } r.name) ++
    coloredTargets l.targets

/-- The line of a lowered instruction. -/
def instruction (policy : Policy) (level : Nat) (l : Lowered) : List DumpEvent :=
  .write (policy.indent level) ::
    (if policy.color then coloredInstruction l else [.write l.text]) ++ [.write "\n"]

/-- The lines of a lowered body. -/
def listing (policy : Policy) (level : Nat) (name : String) (l : Listing) : List DumpEvent :=
  .log (.loweredMethod name l.instructions.length l.registers) ::
    l.instructions.flatMap (instruction policy level)

/-- The instructions of a method. -/
def body (m : Module) (policy : Policy) (strategy : Strategy) (level : Nat) (x : Method) :
    Transcript :=
  match m.decode x with
  | .error e => { fault := some (.body e) }
  | .ok instructions =>
    let signature := x.reference.signature
    (Transcript.ofEvents
      ((LogEntry.ofLower strategy instructions x.regions signature).map .log)).andThen
      (match lower strategy instructions x.regions signature with
      | .error e => { fault := some (.lowering e) }
      | .ok l => .ofEvents (listing policy level x.fullName l))

/-- Prints the fault of a body in the place of its instructions, so that it does not end the dump. -/
def reported (policy : Policy) (level : Nat) (name : String) (t : Transcript) : Transcript :=
  match t.fault with
  | none => t
  | some e =>
    .ofEvents (t.events ++ .log (.cannotLower name e.message) :: failure policy level e)

/-- A method: its name and, if it has a body, its instructions. -/
def method (m : Module) (policy : Policy) (strategy : Strategy) (level : Nat) (x : Method) :
    Transcript :=
  (Transcript.ofEvents (header policy level x.fullName)).andThen
    ((if x.body.isSome then
      reported policy (level + 1) x.fullName (body m policy strategy (level + 1) x)
    else {}).andThen (.ofEvents (footer policy level)))

/-- A type: its name and the methods that have a body, each followed by an empty line. -/
def type (m : Module) (policy : Policy) (strategy : Strategy) (t : TypeDef) : Transcript :=
  (Transcript.ofEvents (header policy 0 t.fullName)).andThen
    ((Transcript.each (t.methods.filter (·.body.isSome)) fun x =>
      (method m policy strategy 1 x).andThen (.ofEvents blankLine)).andThen
      (.ofEvents (footer policy 0)))

/-- A module: its types, each followed by an empty line. -/
def module (m : Module) (policy : Policy) (strategy : Strategy) : Transcript :=
  (Transcript.ofEvents [.log (.dumping m.name strategy.name)]).andThen
    (Transcript.each m.types fun t =>
      (type m policy strategy t).andThen (.ofEvents blankLine))

/-- One line of the text of a graph; an empty one is not indented, and the name of a block has
colours. -/
def graphLine (policy : Policy) (level : Nat) (text : String) : List DumpEvent :=
  if text.isEmpty then blankLine
  else if policy.color && "BasicBlock".isPrefixOf text then
    .write (policy.indent level) :: colored { bold := true } text ++ [.write "\n"]
  else [.write (policy.indent level ++ text ++ "\n")]

/-- The block graph of a method. -/
def graph (policy : Policy) (x : Method) (g : Graph) : List DumpEvent :=
  .log (.ofGraph g) :: header policy 0 x.fullName ++
    (Text.lines g.text).flatMap (graphLine policy 1) ++ footer policy 0

/-- What a writer that never fails puts out for events. -/
def printed (w : Writer) (events : List DumpEvent) : String := String.join (events.map w.put)

end Dump

/-- Dumps what is asked for. -/
def Module.dump (m : Module) (policy : Policy) (strategy : Strategy) : DumpTarget → Transcript
  | .module => Dump.module m policy strategy
  | .type name =>
    match m.findType name with
    | .error e => { fault := some (.lookup e) }
    | .ok (_, t) => Dump.type m policy strategy t
  | .method typeName methodName =>
    match m.findMethod typeName methodName with
    | .error e => { fault := some (.lookup e) }
    | .ok (_, _, x) => Dump.method m policy strategy 0 x
  | .graph typeName methodName =>
    match m.findMethod typeName methodName with
    | .error e => { fault := some (.lookup e) }
    | .ok (_, _, x) =>
      match m.decode x with
      | .error e => { fault := some (.body e) }
      | .ok instructions =>
        match Graph.build instructions x.regions with
        | .error e => { fault := some (.graph e) }
        | .ok g => .ofEvents (Dump.graph policy x g)

namespace Transcript

/-- What a writer that never fails puts out. -/
def output (t : Transcript) (w : Writer) : String := Dump.printed w t.events

/-- What is logged. -/
def log (t : Transcript) : List LogEntry :=
  t.events.filterMap fun
    | .log entry => some entry
    | _ => none

end Transcript

/-- What a writer with little room has taken: its output, the log up to then, and whether all was
taken. -/
structure Printout where
  output : String := ""
  log : List LogEntry := []
  complete : Bool := true
deriving DecidableEq, Repr

namespace Printout

/-- Puts text before what was printed. -/
def prepend (text : String) (p : Printout) : Printout := { p with output := text ++ p.output }

/-- Puts an entry before what was logged. -/
def prependLog (entry : LogEntry) (p : Printout) : Printout := { p with log := entry :: p.log }

/-- Prints events through a writer that takes `room` bytes and then stops everything. -/
def ofEvents (w : Writer) : Nat → List DumpEvent → Printout
  | _, [] => {}
  | room, .log entry :: rest => (ofEvents w room rest).prependLog entry
  | room, event :: rest =>
    let text := w.put event
    if text.utf8ByteSize ≤ room then
      (ofEvents w (room - text.utf8ByteSize) rest).prepend text
    else { output := String.ofList (Text.fitting room text.toList), complete := false }

end Printout

namespace Transcript

/-- What is said when a writer has no room left. -/
def noRoomMessage : String := "no room left"

/-- Prints a transcript through a writer with the given room, or with all the room it needs. -/
def print (t : Transcript) (w : Writer) : Option Nat → Printout
  | none => { output := t.output w, log := t.log }
  | some room => Printout.ofEvents w room t.events

end Transcript

end Unstack
