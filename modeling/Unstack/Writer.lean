/-!
# Writers

Text goes out through a writer that may be able to show it in colours. What such a writer puts out to
switch colours on and off is its own matter, so that it is given here by just that.
-/

namespace Unstack

/-- A colour that text is shown in. -/
inductive Color where
  | red
  | green
  | yellow
  | cyan
deriving DecidableEq, Repr

/-- How text is to be shown. -/
structure ColorSpec where
  foreground : Option Color := none
  bold : Bool := false
  dimmed : Bool := false
deriving DecidableEq, Repr

/-- What a writer puts out, besides the texts that it is given, when it is told how to show what
follows, and when it is told to forget that. -/
structure Writer where
  setColor : ColorSpec → String
  reset : String

/-- The writer that shows no colours. -/
def Writer.plain : Writer := ⟨fun _ => "", ""⟩

end Unstack
