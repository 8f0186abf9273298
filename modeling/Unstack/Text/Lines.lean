/-!
# Lines and cuts

Cutting a text into its lines, and cutting it off after a number of bytes.
-/

namespace Unstack.Text

/-- A finished line, given backwards, without the carriage return that may end it. -/
def closeLine : List Char → List Char
  | '\r' :: rest => rest.reverse
  | line => line.reverse

/-- The lines of a text whose current line has been read, backwards, up to here. -/
def linesFrom : List Char → List Char → List (List Char)
  | [], [] => []
  | line, [] => [line.reverse]
  | line, c :: rest =>
    if c = '\n' then closeLine line :: linesFrom [] rest else linesFrom (c :: line) rest

/-- The lines of a text: each ends at a line feed, loses one carriage return before it, and no
empty line follows the last line feed. -/
def lines (text : String) : List String :=
  (linesFrom [] text.toList).map String.ofList

/-- The characters of the first `room` bytes of a text; one that is cut through counts as the
replacement character. -/
def fitting : Nat → List Char → List Char
  | _, [] => []
  | room, c :: rest =>
    if c.utf8Size ≤ room then c :: fitting (room - c.utf8Size) rest
    else if room = 0 then [] else ['\ufffd']

end Unstack.Text
