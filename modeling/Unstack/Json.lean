import Unstack.Json.Lexeme

/-!
# JSON values

A strict reader of JSON texts, and the ways of taking a value apart that module files need. Values
may be nested to any depth: open arrays and objects are kept in a list.

A record may be written as an object or as an array of its fields in order. Members of an object
that the record does not have are skipped, whatever they hold.
-/

namespace Unstack

/-- A JSON value. A number keeps its value if it is a plain natural, a string its text if it has
one; object members are kept in order. -/
inductive Json where
  | null
  | bool (value : Bool)
  | number (natural : Option Nat)
  | string (text : Option String)
  | array (items : List Json)
  | object (members : List (Option String × Json))

namespace Json

/-- An array or object that is not closed yet, its parts backwards. -/
inductive Frame where
  | array (items : List Json)
  | object (members : List (Option String × Json)) (key : Option String)

/-- What may come next. -/
inductive Expected where
  /-- A value. -/
  | value
  /-- A value, or the end of an array that is still empty. -/
  | firstItem
  /-- A key, or the end of an object that is still empty. -/
  | firstKey
  | key
  | colon
  /-- A comma, or the end of what is open. -/
  | next
  /-- Nothing: the value is complete. -/
  | nothing
deriving DecidableEq, Repr

/-- The state of the reader: what is open, innermost first, what may come next, and the whole
value once it is complete. -/
structure Reader where
  frames : List Frame := []
  expected : Expected := .value
  result : Json := .null

namespace Reader

/-- Puts a complete value where it belongs. -/
def complete (r : Reader) (value : Json) : Reader :=
  match r.frames with
  | [] => ⟨[], .nothing, value⟩
  | .array items :: rest => { r with frames := .array (value :: items) :: rest, expected := .next }
  | .object members key :: rest =>
    { r with frames := .object ((key, value) :: members) none :: rest, expected := .next }

/-- Closes what is open, if it is an array. -/
def closeArray (r : Reader) : Option Reader :=
  match r.frames with
  | .array items :: rest => some ({ r with frames := rest }.complete (.array items.reverse))
  | _ => none

/-- Closes what is open, if it is an object. -/
def closeObject (r : Reader) : Option Reader :=
  match r.frames with
  | .object members _ :: rest =>
    some ({ r with frames := rest }.complete (.object members.reverse))
  | _ => none

/-- Reads the first lexeme of a value. -/
def value (r : Reader) : Lexeme → Option Reader
  | .null => some (r.complete .null)
  | .true => some (r.complete (.bool Bool.true))
  | .false => some (r.complete (.bool Bool.false))
  | .number n => some (r.complete (.number n))
  | .string t => some (r.complete (.string t))
  | .openBracket => some { r with frames := .array [] :: r.frames, expected := .firstItem }
  | .openBrace => some { r with frames := .object [] none :: r.frames, expected := .firstKey }
  | _ => none

/-- Reads a key of the innermost object. -/
def key (r : Reader) : Lexeme → Option Reader
  | .string t =>
    match r.frames with
    | .object members _ :: rest =>
      some { r with frames := .object members t :: rest, expected := .colon }
    | _ => none
  | _ => none

/-- Reads the lexeme after a complete part of what is open. -/
def next (r : Reader) : Lexeme → Option Reader
  | .closeBracket => r.closeArray
  | .closeBrace => r.closeObject
  | .comma =>
    match r.frames with
    | .array _ :: _ => some { r with expected := .value }
    | .object _ _ :: _ => some { r with expected := .key }
    | [] => none
  | _ => none

/-- Reads one lexeme. -/
def read (r : Reader) (lexeme : Lexeme) : Option Reader :=
  match r.expected with
  | .value => r.value lexeme
  | .firstItem => if lexeme = .closeBracket then r.closeArray else r.value lexeme
  | .firstKey => if lexeme = .closeBrace then r.closeObject else r.key lexeme
  | .key => r.key lexeme
  | .colon => if lexeme = .colon then some { r with expected := .value } else none
  | .next => r.next lexeme
  | .nothing => none

/-- The value, if it is complete. -/
def finish (r : Reader) : Option Json := if r.expected = .nothing then some r.result else none

end Reader

/-- Reads a JSON text: one value with white space around it. -/
def parse (text : String) : Option Json := do
  let lexemes ← lexemes text
  let reader ← lexemes.foldlM Reader.read {}
  reader.finish

/-- The text of a string. -/
def text? : Json → Option String
  | .string text => text
  | _ => none

/-- The value of a Boolean. -/
def bool? : Json → Option Bool
  | .bool value => some value
  | _ => none

/-- The value of a natural of 64 bits. -/
def word? : Json → Option Nat
  | .number natural => natural.filter (· < 0x10000000000000000)
  | _ => none

/-- The items of an array, each read in the same way. -/
def list? {α : Type} (item : Json → Option α) : Json → Option (List α)
  | .array items => items.mapM item
  | _ => none

/-- A value that may be null. -/
def nullable? {α : Type} (item : Json → Option α) : Json → Option (Option α)
  | .null => some none
  | value => (item value).map some

/-- The fields of a record, by their names in order; a field that is not given is `none`. In an
object every key must be a text and no field may be given twice. -/
def fields? (names : List String) : Json → Option (List (Option Json))
  | .object members => do
    let members ← members.mapM fun (key, value) => key.map (·, value)
    if names.all fun name => members.countP (·.1 == name) ≤ 1 then
      some (names.map (members.lookup ·))
    else none
  | .array items =>
    if items.length ≤ names.length then
      some (names.zipIdx.map fun (_, k) => items[k]?)
    else none
  | _ => none

/-- A field that must be given. -/
def required {α : Type} (read : Json → Option α) (field : Option Json) : Option α :=
  field.bind read

/-- A field that has a default. -/
def optional {α : Type} (read : Json → Option α) (default : α) : Option Json → Option α
  | none => some default
  | some value => read value

end Json

end Unstack
