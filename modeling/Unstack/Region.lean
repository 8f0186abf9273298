import Unstack.Offset

/-!
# Exception regions

A region protects a range of a method body and names its handler. The runtime enters the handler
(and the filter, if there is one) with a stack depth of its own, so these places are entry points
with a known depth; all the ends of a region are block boundaries.
-/

namespace Unstack

/-- When the handler of a region runs. -/
inductive HandlerKind where
  | catches
  | filters
  | finalizes
  | faults
deriving DecidableEq, Repr

namespace HandlerKind

/-- The written name of a handler kind. -/
def name : HandlerKind → String
  | .catches => "catch"
  | .filters => "filter"
  | .finalizes => "finally"
  | .faults => "fault"

/-- The handler kind with the given name. -/
def ofName? (name : String) : Option HandlerKind :=
  [HandlerKind.catches, .filters, .finalizes, .faults].find? (·.name == name)

/-- The stack depth at which the handler is entered: the exception object is there for `catch`
and `filter`. -/
def entryDepth : HandlerKind → Nat
  | .catches | .filters => 1
  | .finalizes | .faults => 0

end HandlerKind

/-- A protected range and its handler; ranges leave out their end. -/
structure Region where
  kind : HandlerKind
  tryStart : Offset
  tryEnd : Offset
  handlerStart : Offset
  handlerEnd : Offset
  filterStart : Option Offset := none
  catchType : Option String := none
deriving DecidableEq, Repr

namespace Region

/-- Where the runtime may enter the region's code, with the stack depth there. -/
def entryPoints (region : Region) : List (Offset × Nat) :=
  (region.handlerStart, region.kind.entryDepth) :: (region.filterStart.toList.map (·, 1))

/-- The offsets that must start a block or end the body. -/
def boundaries (region : Region) : List Offset :=
  [region.tryStart, region.tryEnd, region.handlerStart, region.handlerEnd] ++
    region.filterStart.toList

/-- The entry depth of the last entry point at an offset, if there is one there. -/
def entryDepthAt (regions : List Region) (offset : Offset) : Option Nat :=
  (((regions.flatMap entryPoints).filter (·.1 == offset)).getLast?).map (·.2)

end Region

end Unstack
