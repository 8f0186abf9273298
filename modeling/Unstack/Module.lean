import Unstack.Encoding.Decode
import Unstack.Log
import Unstack.Module.Description

/-!
# Modules

A loaded module: its types and methods, with tokens read, and what tokens stand for. A method
defined in the module goes before a reference with the same token, and of several the last one
counts. Bodies stay texts until they are asked for, so that a bad body concerns its own method
alone.
-/

namespace Unstack

/-- Why a module cannot be loaded. -/
inductive ModuleError where
  /-- The text is no module description. -/
  | notDescription
  /-- A token text that is no token. -/
  | invalidToken (text : String)
deriving DecidableEq, Repr

/-- The wording of a fault. -/
def ModuleError.message : ModuleError → String
  | .notDescription => "invalid module description: not the JSON text of a module"
  | .invalidToken text => "invalid metadata token '" ++ text ++ "'"

/-- A type or method that a module does not have. -/
inductive LookupError where
  | type (name : String)
  | method (typeName methodName : String)
deriving DecidableEq, Repr

/-- The wording of a fault. -/
def LookupError.message : LookupError → String
  | .type name => "Could not find type '" ++ name ++ "'"
  | .method typeName methodName =>
    "Could not find method '" ++ methodName ++ "' in type '" ++ typeName ++ "'"

/-- Why the body of a method cannot be decoded. -/
inductive BodyError where
  /-- The text is not made of hexadecimal byte pairs. -/
  | notHex
  | decode (cause : DecodeError)
deriving DecidableEq, Repr

/-- The wording of a fault. -/
def BodyError.message : BodyError → String
  | .notHex => "IL bytes are not hexadecimal byte pairs"
  | .decode cause => cause.message

/-- A method of a module. -/
structure Method where
  name : String
  declaringType : String
  reference : MethodRef
  body : Option MethodBody
deriving DecidableEq, Repr

namespace Method

/-- The full name of a method. -/
def fullName (m : Method) : String := m.reference.fullName

/-- The exception regions of the body. -/
def regions (m : Method) : List Region := (m.body.map (·.regions)).getD []

end Method

/-- A type of a module. -/
structure TypeDef where
  nameSpace : String
  name : String
  methods : List Method
deriving DecidableEq, Repr

/-- The name of a type with its name space before it, if there is one. -/
def qualifiedName (nameSpace name : String) : String :=
  if nameSpace.isEmpty then name else nameSpace ++ "." ++ name

/-- The full name of a type. -/
def TypeDef.fullName (t : TypeDef) : String := qualifiedName t.nameSpace t.name

/-- A loaded module. -/
structure Module where
  name : String
  types : List TypeDef
  /-- The references to foreign methods, in the order written. -/
  references : List MethodRef
deriving DecidableEq, Repr

/-- The place of the first item with the given short name, or else with the given full name. -/
def indexOfName {α : Type} (short full : α → String) (items : List α) (name : String) :
    Option Nat :=
  (items.findIdx? (short · == name)).or (items.findIdx? (full · == name))

/-- The token of a text. -/
def readToken (text : String) : Except ModuleError Token :=
  match Token.parse text with
  | .ok token => .ok token
  | .error _ => .error (.invalidToken text)

namespace Module

/-- Loads a reference. -/
def loadReference (d : ReferenceDescription) : Except ModuleError MethodRef := do
  let token ← readToken d.token
  return ⟨token, d.fullName, d.signature⟩

/-- Loads a method of the type with the given full name. -/
def loadMethod (declaringType : String) (d : MethodDescription) : Except ModuleError Method := do
  let token ← readToken d.token
  let reference := ⟨token, d.signature.fullName declaringType d.name, d.signature⟩
  return ⟨d.name, declaringType, reference, d.body⟩

/-- Loads a type. -/
def loadType (d : TypeDescription) : Except ModuleError TypeDef := do
  let methods ← d.methods.mapM (loadMethod (qualifiedName d.nameSpace d.name))
  return ⟨d.nameSpace, d.name, methods⟩

/-- Loads a module; the first token text that is no token is the fault, references before
methods. -/
def ofDescription (d : ModuleDescription) : Except ModuleError Module := do
  let references ← d.references.mapM loadReference
  let types ← d.types.mapM loadType
  return ⟨d.name, types, references⟩

/-- Loads a module from the text of a module file. -/
def parse (text : String) : Except ModuleError Module :=
  match ModuleDescription.parse text with
  | none => .error .notDescription
  | some d => ofDescription d

/-- The references to the methods that the module defines, in order. -/
def definitions (m : Module) : List MethodRef :=
  m.types.flatMap fun t => t.methods.map (·.reference)

/-- All that a token may stand for, what counts least first. -/
def callables (m : Module) : List MethodRef := m.references ++ m.definitions

/-- What a token stands for. -/
def resolve (m : Module) : Resolver := fun token =>
  m.callables.reverse.find? (·.token == token)

/-- The number of tokens that stand for something. -/
def callableCount (m : Module) : Nat := (m.callables.map (·.token)).eraseDups.length

/-- The report on a loaded module. -/
def logEntry (m : Module) : LogEntry := .loaded m.name m.types.length m.callableCount

/-- The type with a name, and its place. -/
def findType (m : Module) (name : String) : Except LookupError (Nat × TypeDef) :=
  let place := indexOfName (·.name) TypeDef.fullName m.types name
  match place.bind fun k => m.types[k]?.map (k, ·) with
  | some found => .ok found
  | none => .error (.type name)

/-- The method with a name in the type with a name, and the places of both. -/
def findMethod (m : Module) (typeName methodName : String) :
    Except LookupError (Nat × Nat × Method) := do
  let (k, t) ← m.findType typeName
  let place := indexOfName (·.name) Method.fullName t.methods methodName
  match place.bind fun j => t.methods[j]?.map (j, ·) with
  | some (j, method) => return (k, j, method)
  | none => throw (.method typeName methodName)

/-- The instructions of a method; there are none without a body. -/
def decode (m : Module) (method : Method) : Except BodyError (List Instruction) :=
  match method.body with
  | none => .ok []
  | some body =>
    match Bytes.ofHex? body.il with
    | none => .error .notHex
    | some bytes =>
      match decodeBody m.resolve bytes with
      | .ok instructions => .ok instructions
      | .error e => .error (.decode e)

end Module

end Unstack
