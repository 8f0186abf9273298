import Unstack.Text.Numeral

/-!
# Lexemes of JSON text

A JSON text cut into brackets, strings, numbers and words, by the strict grammar. The scanner takes
one character at a time, so a text of any length is read without recursion of its own.

Of a number only a natural written without sign, fraction and exponent keeps its value. A string
whose escapes do not pair up surrogates is well formed but stands for no text.
-/

namespace Unstack.Json

/-- The smallest meaningful parts of a JSON text. -/
inductive Lexeme where
  | openBrace
  | closeBrace
  | openBracket
  | closeBracket
  | colon
  | comma
  /-- A string, with the text it stands for if it has one. -/
  | string (text : Option String)
  /-- A number, with its value if it is a plain natural. -/
  | number (natural : Option Nat)
  | true
  | false
  | null
deriving DecidableEq, Repr

/-- A part of a string: a character, or a 16 bit unit given by an escape. -/
inductive Unit16 where
  | char (c : Char)
  | unit (value : Nat)
deriving DecidableEq, Repr

/-- Is the unit the first of a surrogate pair? -/
def isHighSurrogate (n : Nat) : Bool := 0xD800 ≤ n && n ≤ 0xDBFF

/-- Is the unit the second of a surrogate pair? -/
def isLowSurrogate (n : Nat) : Bool := 0xDC00 ≤ n && n ≤ 0xDFFF

/-- The characters that the parts of a string stand for, put before those already found; parts
and found characters are both given backwards. -/
def joinUnits : List Char → List Unit16 → Option (List Char)
  | found, [] => some found
  | found, .char c :: rest => joinUnits (c :: found) rest
  | found, .unit low :: .unit high :: rest =>
    if isLowSurrogate low then
      if isHighSurrogate high then
        joinUnits (Char.ofNat (0x10000 + (high - 0xD800) * 0x400 + (low - 0xDC00)) :: found) rest
      else none
    else if isHighSurrogate low then none
    else joinUnits (Char.ofNat low :: found) (.unit high :: rest)
  | found, .unit n :: rest =>
    if isHighSurrogate n || isLowSurrogate n then none
    else joinUnits (Char.ofNat n :: found) rest

/-- The text of a string whose parts are given backwards. -/
def stringText (parts : List Unit16) : Option String := (joinUnits [] parts).map String.ofList

/-- The character of an escape of one letter. -/
def escapedChar : Char → Option Char
  | '\x22' => some '\x22'
  | '\x5c' => some '\x5c'
  | '/' => some '/'
  | 'b' => some '\x08'
  | 'f' => some '\x0c'
  | 'n' => some '\n'
  | 'r' => some '\r'
  | 't' => some '\t'
  | _ => none

/-- Is the character white space between lexemes? -/
def isSpace (c : Char) : Bool := c == ' ' || c == '\n' || c == '\r' || c == '\t'

/-- The digits at the front of a text and the rest, if there is a digit. -/
def digitRun (text : List Char) : Option (List Char × List Char) :=
  let digits := text.takeWhile Char.isDigit
  if digits.isEmpty then none else some (digits, text.dropWhile Char.isDigit)

/-- Is the text empty or an exponent? -/
def isExponent : List Char → Bool
  | [] => Bool.true
  | 'e' :: '+' :: rest | 'E' :: '+' :: rest | 'e' :: '-' :: rest | 'E' :: '-' :: rest
  | 'e' :: rest | 'E' :: rest =>
    match digitRun rest with
    | some (_, []) => Bool.true
    | _ => Bool.false
  | _ => Bool.false

/-- Is the text empty, a fraction, an exponent or both in this order? -/
def isFraction : List Char → Bool
  | '.' :: rest =>
    match digitRun rest with
    | some (_, tail) => isExponent tail
    | none => Bool.false
  | tail => isExponent tail

/-- The lexeme of the characters of a number; there is no leading zero before another digit. -/
def numberLexeme (text : List Char) : Option Lexeme :=
  let unsigned := if text.head? = some '-' then text.drop 1 else text
  match digitRun unsigned with
  | none => none
  | some (whole, tail) =>
    if (whole.head? = some '0' ∧ 1 < whole.length) ∨ isFraction tail = Bool.false then none
    else if text.head? = some '-' ∨ tail ≠ [] then some (.number none)
    else some (.number (Numeral.readDigits 10 (Nat.pow 10 whole.length) 0 whole).toOption)

/-- The lexeme of a word. -/
def wordLexeme (text : List Char) : Option Lexeme :=
  if text = ['t', 'r', 'u', 'e'] then some .true
  else if text = ['f', 'a', 'l', 's', 'e'] then some .false
  else if text = ['n', 'u', 'l', 'l'] then some .null
  else none

/-- Where the scanner is: what it has read of an unfinished lexeme, backwards. -/
inductive ScanMode where
  | between
  | string (parts : List Unit16)
  | escape (parts : List Unit16)
  /-- In a `u` escape: the digits still to come and the value so far. -/
  | unicode (parts : List Unit16) (left value : Nat)
  | number (text : List Char)
  | word (text : List Char)
deriving DecidableEq, Repr

/-- The state of the scanner: the lexemes found, the latest first, and where it is. -/
structure Scanner where
  found : List Lexeme := []
  mode : ScanMode := .between
deriving DecidableEq, Repr

namespace Scanner

/-- May the character belong to a number? -/
def isNumberChar (c : Char) : Bool :=
  c.isDigit || c == '-' || c == '+' || c == '.' || c == 'e' || c == 'E'

/-- Adds a lexeme. -/
def add (s : Scanner) (lexeme : Lexeme) : Scanner := ⟨lexeme :: s.found, .between⟩

/-- Reads the first character of a lexeme, or white space. -/
def start (s : Scanner) (c : Char) : Option Scanner :=
  if isSpace c then some { s with mode := .between }
  else if c = '\x7b' then some (s.add .openBrace)
  else if c = '\x7d' then some (s.add .closeBrace)
  else if c = '[' then some (s.add .openBracket)
  else if c = ']' then some (s.add .closeBracket)
  else if c = ':' then some (s.add .colon)
  else if c = ',' then some (s.add .comma)
  else if c = '\x22' then some { s with mode := .string [] }
  else if c.isDigit || c == '-' then some { s with mode := .number [c] }
  else if c.isAlpha then some { s with mode := .word [c] }
  else none

/-- Reads one character. -/
def read (s : Scanner) (c : Char) : Option Scanner :=
  match s.mode with
  | .between => s.start c
  | .string parts =>
    if c = '\x22' then some (s.add (.string (stringText parts)))
    else if c = '\x5c' then some { s with mode := .escape parts }
    else if c < ' ' then none
    else some { s with mode := .string (.char c :: parts) }
  | .escape parts =>
    if c = 'u' then some { s with mode := .unicode parts 4 0 }
    else (escapedChar c).map fun e => { s with mode := .string (.char e :: parts) }
  | .unicode parts left value =>
    match Numeral.digitValue c with
    | none => none
    | some d =>
      let value := 16 * value + d
      if left ≤ 1 then some { s with mode := .string (.unit value :: parts) }
      else some { s with mode := .unicode parts (left - 1) value }
  | .number text =>
    if isNumberChar c then some { s with mode := .number (c :: text) }
    else (numberLexeme text.reverse).bind fun lexeme => (s.add lexeme).start c
  | .word text =>
    if c.isAlpha then some { s with mode := .word (c :: text) }
    else (wordLexeme text.reverse).bind fun lexeme => (s.add lexeme).start c

/-- The lexemes when the text ends here. -/
def finish (s : Scanner) : Option (List Lexeme) :=
  match s.mode with
  | .between => some s.found.reverse
  | .number text => (numberLexeme text.reverse).map fun lexeme => (lexeme :: s.found).reverse
  | .word text => (wordLexeme text.reverse).map fun lexeme => (lexeme :: s.found).reverse
  | _ => none

end Scanner

/-- The lexemes of a text. -/
def lexemes (text : String) : Option (List Lexeme) :=
  (text.toList.foldlM Scanner.read {}).bind Scanner.finish

end Unstack.Json
