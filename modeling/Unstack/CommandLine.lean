import Unstack.Dump

/-!
# The command line

Arguments are read from left to right, and the first fault decides; asking for the version answers
at its place. Then a module file is read, an output file made if one is asked for, and a dump
written. The host gives access to files, and the writers for these and for standard output.
-/

namespace Unstack.CommandLine

/-- The options that take a value. -/
inductive ValueOption where
  | type
  | method
  | output
  | algorithm
  | tabWidth
deriving DecidableEq, Repr

/-- The options that take none. -/
inductive Flag where
  | dumpGraph
  | color
  | version
deriving DecidableEq, Repr

/-- An option, of either sort. -/
inductive Switch where
  | value (option : ValueOption)
  | flag (flag : Flag)
deriving DecidableEq, Repr

/-- The option with a long name, which must be given in full. -/
def Switch.ofLong? : String → Option Switch
  | "type" => some (.value .type)
  | "method" => some (.value .method)
  | "output" => some (.value .output)
  | "algorithm" => some (.value .algorithm)
  | "tab-width" => some (.value .tabWidth)
  | "dump-cfg" => some (.flag .dumpGraph)
  | "color" => some (.flag .color)
  | "version" => some (.flag .version)
  | _ => none

/-- The option with a short name. -/
def Switch.ofShort? : Char → Option Switch
  | 't' => some (.value .type)
  | 'm' => some (.value .method)
  | 'o' => some (.value .output)
  | 'a' => some (.value .algorithm)
  | 'V' => some (.flag .version)
  | _ => none

/-- What the arguments have set so far. -/
structure Options where
  type : Option String := none
  method : Option String := none
  output : Option String := none
  algorithm : Option Strategy := none
  tabWidth : Option Nat := none
  dumpGraph : Bool := false
  color : Bool := false
  moduleFile : Option String := none
deriving DecidableEq, Repr

/-- What the arguments ask for. -/
inductive Request where
  /-- The arguments are refused. -/
  | refuse
  | version
  | run (options : Options)
deriving DecidableEq, Repr

namespace Options

/-- Sets a field that is not yet set. -/
def fresh {α : Type} (field : Option α) (value : Option α) : Option (Option α) :=
  match field, value with
  | none, some value => some (some value)
  | _, _ => none

/-- A file name must not be empty. -/
def fileName (value : String) : Option String := if value.isEmpty then none else some value

/-- Sets an option to a value; none may be set twice, and the value must be one that it takes. -/
def set (o : Options) (option : ValueOption) (value : String) : Option Options :=
  match option with
  | .type => (fresh o.type (some value)).map fun type => { o with type }
  | .method => (fresh o.method (some value)).map fun method => { o with method }
  | .output => (fresh o.output (fileName value)).map fun output => { o with output }
  | .algorithm =>
    (fresh o.algorithm (Strategy.ofName? value)).map fun algorithm => { o with algorithm }
  | .tabWidth =>
    (fresh o.tabWidth (Numeral.read 10 0x10000000000000000 value.toList).toOption).map fun tabWidth =>
      { o with tabWidth }

/-- Sets a flag; none may be set twice. -/
def raise (o : Options) : Flag → Option Options
  | .dumpGraph => if o.dumpGraph then none else some { o with dumpGraph := true }
  | .color => if o.color then none else some { o with color := true }
  | .version => some o

/-- Sets the module file; there is only one. -/
def setModuleFile (o : Options) (value : String) : Option Options :=
  (fresh o.moduleFile (fileName value)).map fun moduleFile => { o with moduleFile }

end Options

/-- An argument by its form. -/
inductive Argument where
  /-- Ends the options. -/
  | terminator
  | long (name : String) (value : Option String)
  | short (name : Char) (attached : Option String)
  | plain (value : String)
deriving DecidableEq, Repr

/-- The value after an equals sign, if there is one, and the name before it. -/
def splitAtEquals (text : List Char) : String × Option String :=
  match text.dropWhile (· != '=') with
  | [] => (String.ofList text, none)
  | _ :: value => (String.ofList (text.takeWhile (· != '=')), some (String.ofList value))

/-- The value that a short option carries: what follows its letter, less an equals sign. -/
def attachedValue : List Char → Option String
  | [] => none
  | '=' :: value => some (String.ofList value)
  | value => some (String.ofList value)

/-- The form of an argument; a lone dash is a value like any other. -/
def Argument.ofString (argument : String) : Argument :=
  match argument.toList with
  | ['-', '-'] => .terminator
  | '-' :: '-' :: rest => let (name, value) := splitAtEquals rest; .long name value
  | '-' :: letter :: rest => .short letter (attachedValue rest)
  | _ => .plain argument

/-- Goes on with the options set, or refuses. -/
def orRefuse (options : Option Options) (continuation : Options → Request) : Request :=
  match options with
  | none => .refuse
  | some options => continuation options

/-- Reads the arguments after the end of the options. -/
def readPlain (o : Options) : List String → Request
  | [] => .run o
  | argument :: rest => orRefuse (o.setModuleFile argument) (readPlain · rest)

/-- Reads arguments. A value that is not attached to its option is the next argument, which must
not look like an option. -/
def readFrom (o : Options) (arguments : List String) : Request :=
  match arguments with
  | [] => .run o
  | argument :: rest =>
    match Argument.ofString argument with
    | .terminator => readPlain o rest
    | .plain value => orRefuse (o.setModuleFile value) (readFrom · rest)
    | .long name value =>
      match Switch.ofLong? name, value with
      | some (.flag .version), none => .version
      | some (.flag flag), none => orRefuse (o.raise flag) (readFrom · rest)
      | some (.value option), some value => orRefuse (o.set option value) (readFrom · rest)
      | some (.value option), none => readValue o option rest
      | _, _ => .refuse
    | .short letter attached =>
      match Switch.ofShort? letter, attached with
      | some (.flag .version), _ => .version
      | some (.value option), some value => orRefuse (o.set option value) (readFrom · rest)
      | some (.value option), none => readValue o option rest
      | _, _ => .refuse
termination_by arguments.length
where
  /-- Reads the value of an option and goes on. -/
  readValue (o : Options) (option : ValueOption) (arguments : List String) : Request :=
    match arguments with
    | [] => .refuse
    | argument :: rest =>
      match Argument.ofString argument with
      | .plain value => orRefuse (o.set option value) (readFrom · rest)
      | _ => .refuse
  termination_by arguments.length

/-- What the arguments ask for. -/
def read (arguments : List String) : Request := readFrom {} arguments

/-- What the program needs of its surroundings. -/
structure Host (m : Type → Type) where
  /-- The bytes of a file, or why it cannot be read. -/
  readFile : String → m (Except String ByteArray)
  /-- Replaces or makes the file with a text, or says why it cannot. -/
  writeFile : String → String → m (Except String Unit)
  /-- The writer for files, with colours or without. -/
  fileWriter : (colored : Bool) → Writer
  /-- The writer for standard output, which may show no colours even where they are asked for. -/
  terminalWriter : (colored : Bool) → Writer

/-- How the program ends. -/
structure Outcome where
  code : Nat := 0
  stdout : String := ""
  stderr : String := ""
deriving DecidableEq, Repr

namespace Outcome

/-- Ends with a remark about the arguments. -/
def remark (message : String) : Outcome := { code := 1, stdout := message ++ "\n" }

/-- Ends with a fault. -/
def fail (message : String) : Outcome := { code := 1, stderr := "error: " ++ message ++ "\n" }

end Outcome

/-- The name and version of the program. -/
def versionText : String := "cil2lir 0.1.0\n"

/-- What is said when the arguments are refused. -/
def usageText : String :=
  "usage: [-t TYPE] [-m METHOD] [-o FILE] [-a ALGORITHM] [--dump-cfg] [--color] " ++
    "[--tab-width N] MODULE_FILE\n"

/-- What the options want dumped, or what is missing. -/
def Options.target (o : Options) : Except String DumpTarget :=
  match o.type, o.method with
  | _, none =>
    if o.dumpGraph then .error "Missing method... Exiting."
    else .ok (o.type.elim .module .type)
  | none, some _ => .error "No type specified... Exiting."
  | some typeName, some methodName =>
    .ok (if o.dumpGraph then .graph typeName methodName else .method typeName methodName)

/-- Loads a module from the bytes of its file. -/
def loadModule (bytes : ByteArray) : Except String Module :=
  match String.fromUTF8? bytes with
  | none => .error "stream did not contain valid UTF-8"
  | some text => (Module.parse text).mapError ModuleError.message

/-- How a dump ends the program. -/
def Outcome.ofDump (t : Transcript) (stdout : String) : Outcome :=
  match t.fault with
  | some e => { Outcome.fail e.message with stdout }
  | none => { stdout }

/-- Dumps into the output file or to standard output. The file is made even if the dump fails, and
a file that cannot be written is the fault that counts. -/
def dump {m : Type → Type} [Monad m] (host : Host m) (o : Options) (module : Module)
    (target : DumpTarget) : m Outcome := do
  let policy : Policy := { tabWidth := o.tabWidth.getD 2, color := o.color }
  let transcript := module.dump policy (o.algorithm.getD .standard) target
  match o.output with
  | none => return .ofDump transcript (transcript.output (host.terminalWriter o.color))
  | some path =>
    match ← host.writeFile path (transcript.output (host.fileWriter o.color)) with
    | .error message => return .fail message
    | .ok () => return .ofDump transcript ""

/-- Runs the program. -/
def run {m : Type → Type} [Monad m] (host : Host m) (arguments : List String) : m Outcome := do
  match read arguments with
  | .refuse => return { code := 2, stderr := usageText }
  | .version => return { stdout := versionText }
  | .run o =>
    match o.moduleFile, o.target with
    | none, _ => return .remark "No modules specified... Exiting."
    | _, .error message => return .remark message
    | some path, .ok target =>
      match (← host.readFile path).bind loadModule with
      | .error message => return .fail message
      | .ok module => dump host o module target

end Unstack.CommandLine
