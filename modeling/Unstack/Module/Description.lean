import Unstack.Json
import Unstack.Region
import Unstack.Signature

/-!
# Module descriptions

The written form of a module, as a metadata reader hands it over: a JSON text with the types of the
module, their methods with signatures and bodies, and the methods of other modules that calls refer
to. Tokens and bodies are still texts here.
-/

namespace Unstack

/-- A reference to a method, its token as written. -/
structure ReferenceDescription where
  token : String
  fullName : String
  signature : Signature
deriving DecidableEq, Repr

/-- A method body as written: hexadecimal bytes and exception regions. -/
structure MethodBody where
  il : String
  regions : List Region := []
deriving DecidableEq, Repr

/-- A method of a type, its token as written; an abstract or foreign method has no body. -/
structure MethodDescription where
  name : String
  token : String
  signature : Signature
  body : Option MethodBody := none
deriving DecidableEq, Repr

/-- A type with its methods. -/
structure TypeDescription where
  nameSpace : String := ""
  name : String
  methods : List MethodDescription := []
deriving DecidableEq, Repr

/-- A module with its types and the foreign methods that it refers to. -/
structure ModuleDescription where
  name : String
  references : List ReferenceDescription := []
  types : List TypeDescription
deriving DecidableEq, Repr

namespace Signature

/-- Reads a signature. -/
def ofJson? (json : Json) : Option Signature :=
  match json.fields? ["has_this", "explicit_this", "vararg", "return_type", "parameters"] with
  | some [hasThis, explicitThis, vararg, returnType, parameters] => do
    let hasThis ← Json.optional Json.bool? false hasThis
    let explicitThis ← Json.optional Json.bool? false explicitThis
    let vararg ← Json.optional Json.bool? false vararg
    let returnType ← Json.required Json.text? returnType
    let parameters ← Json.optional (Json.list? Json.text?) [] parameters
    return { hasThis, explicitThis, vararg, returnType, parameters }
  | _ => none

end Signature

namespace HandlerKind

/-- Reads a handler kind: its name, or an object with its name as the only key and the value
null. -/
def ofJson? : Json → Option HandlerKind
  | .string (some name) => ofName? name
  | .object [(some name, .null)] => ofName? name
  | _ => none

end HandlerKind

namespace Region

/-- Reads an exception region. -/
def ofJson? (json : Json) : Option Region :=
  match json.fields? ["kind", "try_start", "try_end", "handler_start", "handler_end",
    "filter_start", "catch_type"] with
  | some [kind, tryStart, tryEnd, handlerStart, handlerEnd, filterStart, catchType] => do
    let kind ← Json.required HandlerKind.ofJson? kind
    let tryStart ← Json.required Json.word? tryStart
    let tryEnd ← Json.required Json.word? tryEnd
    let handlerStart ← Json.required Json.word? handlerStart
    let handlerEnd ← Json.required Json.word? handlerEnd
    let filterStart ← Json.optional (Json.nullable? Json.word?) none filterStart
    let catchType ← Json.optional (Json.nullable? Json.text?) none catchType
    return { kind, tryStart, tryEnd, handlerStart, handlerEnd, filterStart, catchType }
  | _ => none

end Region

/-- Reads a method body. -/
def MethodBody.ofJson? (json : Json) : Option MethodBody :=
  match json.fields? ["il", "exception_regions"] with
  | some [il, regions] => do
    let il ← Json.required Json.text? il
    let regions ← Json.optional (Json.list? Region.ofJson?) [] regions
    return { il, regions }
  | _ => none

/-- Reads a reference. -/
def ReferenceDescription.ofJson? (json : Json) : Option ReferenceDescription :=
  match json.fields? ["token", "full_name", "signature"] with
  | some [token, fullName, signature] => do
    let token ← Json.required Json.text? token
    let fullName ← Json.required Json.text? fullName
    let signature ← Json.required Signature.ofJson? signature
    return { token, fullName, signature }
  | _ => none

/-- Reads a method. -/
def MethodDescription.ofJson? (json : Json) : Option MethodDescription :=
  match json.fields? ["name", "token", "signature", "body"] with
  | some [name, token, signature, body] => do
    let name ← Json.required Json.text? name
    let token ← Json.required Json.text? token
    let signature ← Json.required Signature.ofJson? signature
    let body ← Json.optional (Json.nullable? MethodBody.ofJson?) none body
    return { name, token, signature, body }
  | _ => none

/-- Reads a type. -/
def TypeDescription.ofJson? (json : Json) : Option TypeDescription :=
  match json.fields? ["namespace", "name", "methods"] with
  | some [nameSpace, name, methods] => do
    let nameSpace ← Json.optional Json.text? "" nameSpace
    let name ← Json.required Json.text? name
    let methods ← Json.optional (Json.list? MethodDescription.ofJson?) [] methods
    return { nameSpace, name, methods }
  | _ => none

namespace ModuleDescription

/-- Reads a module. -/
def ofJson? (json : Json) : Option ModuleDescription :=
  match json.fields? ["name", "references", "types"] with
  | some [name, references, types] => do
    let name ← Json.required Json.text? name
    let references ← Json.optional (Json.list? ReferenceDescription.ofJson?) [] references
    let types ← Json.required (Json.list? TypeDescription.ofJson?) types
    return { name, references, types }
  | _ => none

/-- Reads the text of a module file. -/
def parse (text : String) : Option ModuleDescription := (Json.parse text).bind ofJson?

end ModuleDescription

end Unstack
