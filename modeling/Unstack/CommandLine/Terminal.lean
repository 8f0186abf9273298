import Unstack.Writer

/-!
# Terminals

Terminals show colours when they are sent escape sequences, each with the number of a rendition.
-/

namespace Unstack

/-- The number of a colour. -/
def Color.number : Color → String
  | .red => "31"
  | .green => "32"
  | .yellow => "33"
  | .cyan => "36"

namespace Writer

/-- The escape sequence with the given number. -/
def escape (number : String) : String := "\x1b[" ++ number ++ "m"

/-- The writer for terminals. What was selected before is forgotten first; then bold is 1 and dimmed
is 2. -/
def ansi : Writer where
  setColor spec :=
    escape "0" ++ (if spec.bold then escape "1" else "") ++ (if spec.dimmed then escape "2" else "") ++
      spec.foreground.elim "" fun color => escape color.number
  reset := escape "0"

/-- The writer for terminals, if there are to be colours. -/
def ofColors (colors : Bool) : Writer := if colors then ansi else plain

end Writer

end Unstack
