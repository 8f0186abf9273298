import Unstack.Instruction
import Unstack.OrderedMap
import Unstack.Region
import Unstack.Search

/-!
# Leaders

The instructions of a body that start a block are collected by their places: the first one, every
branch target, what follows an instruction that does not simply go on, and the boundaries of
exception regions. Where the runtime enters, a leader has the depth of the stack there. Targets and
boundaries are checked on the way, so that the first one that is no place of the body ends the
collection.
-/

namespace Unstack

/-- Why a method body has no block graph. -/
inductive GraphError where
  | emptyMethod
  | danglingTarget (source target : Offset)
  | danglingBoundary (offset : Offset)
deriving DecidableEq, Repr

/-- The wording of a fault. -/
def GraphError.message : GraphError → String
  | .emptyMethod => "method body has no instructions"
  | .danglingTarget source target =>
    "branch at " ++ source.label ++ " targets " ++ target.label ++
      ", which is not an instruction start"
  | .danglingBoundary offset =>
    "exception region boundary " ++ offset.label ++ " is not an instruction start"

namespace Graph

/-- The place of the instruction at an offset, found by binary search. -/
def indexOf? (body : Array Instruction) (offset : Offset) : Option Nat :=
  Search.bisect (fun k => compare (body[k]?.map Instruction.offset) (some offset)) 0 body.size

/-- The places where blocks start, each with the depth at which the runtime enters it, if it
does. -/
abbrev Leaders := OrderedMap (Option Nat)

namespace Leaders

variable (body : Array Instruction)

/-- Adds the target of a branch. -/
def addTarget (source : Offset) (leaders : Leaders) (target : Offset) : Except GraphError Leaders :=
  match indexOf? body target with
  | some place => .ok (leaders.insertNew place none)
  | none => .error (.danglingTarget source target)

/-- Adds the targets of an instruction, and what follows it if it does not simply go on. -/
def addInstruction (leaders : Leaders) : Instruction × Nat → Except GraphError Leaders
  | (i, place) => do
    let leaders ← i.branchTargets.foldlM (addTarget body i.offset) leaders
    if i.flowKind != .fallthrough && place + 1 < body.size then
      return leaders.insertNew (place + 1) none
    else return leaders

/-- Adds the boundary of a region, which may also be the end of the body. -/
def addBoundary (stop : Offset) (leaders : Leaders) (boundary : Offset) :
    Except GraphError Leaders :=
  match indexOf? body boundary with
  | some place => .ok (leaders.insertNew place none)
  | none => if boundary = stop then .ok leaders else .error (.danglingBoundary boundary)

/-- Enters the depth of an entry point, over any that is there. -/
def addEntry (leaders : Leaders) : Offset × Nat → Leaders
  | (offset, depth) =>
    match indexOf? body offset with
    | some place => leaders.insert place (some depth)
    | none => leaders

/-- Adds the boundaries of a region and then its entry points. -/
def addRegion (stop : Offset) (leaders : Leaders) (region : Region) : Except GraphError Leaders := do
  let leaders ← region.boundaries.foldlM (addBoundary body stop) leaders
  return region.entryPoints.foldl (addEntry body) leaders

/-- The leaders of a body that ends at `stop`. -/
def collect (stop : Offset) (regions : List Region) : Except GraphError Leaders := do
  let leaders ← body.toList.zipIdx.foldlM (addInstruction body) (.singleton 0 none)
  regions.foldlM (addRegion body stop) leaders

end Leaders

end Graph

end Unstack
