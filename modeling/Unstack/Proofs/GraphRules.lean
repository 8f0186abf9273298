import Unstack.Graph

/-!
# The rules for block graphs

What a graph is to be, told of the body as a whole: which fault it has, where it is cut, which segment
follows which, and how each is entered. A fault is the first item that fails a test, a cut is between
two instructions that follow each other, and an edge is looked up by the offset at which a segment
starts. That the graph collected place by place is this one, where offsets increase, is shown later.
-/

namespace Unstack

/-- Does an instruction of the body start at the offset? -/
def isStart (body : List Instruction) (offset : Offset) : Bool :=
  body.any (·.offset == offset)

namespace Graph

/-- The first branch target, in program order and then in table order, at which no instruction
starts, after the offset of its branch. -/
def danglingTarget? (body : List Instruction) : Option (Offset × Offset) :=
  body.findSome? fun i => (i.branchTargets.find? (!isStart body ·)).map (i.offset, ·)

/-- The first region boundary that is neither the start of an instruction nor the end of the
body. -/
def danglingBoundary? (body : List Instruction) (regions : List Region) : Option Offset :=
  (regions.flatMap Region.boundaries).find? fun boundary =>
    !(isStart body boundary || endOfBody? body == some boundary)

/-- What keeps a body from having a graph: it is empty, else a branch dangles, else a boundary
does. -/
def fault? (body : List Instruction) (regions : List Region) : Option GraphError :=
  if body.isEmpty then some .emptyMethod
  else
    match danglingTarget? body with
    | some (source, target) => some (.danglingTarget source target)
    | none => (danglingBoundary? body regions).map .danglingBoundary

/-- The offsets that start a block by name: branch targets and region boundaries. -/
def marks (body : List Instruction) (regions : List Region) : List Offset :=
  body.flatMap Instruction.branchTargets ++ regions.flatMap Region.boundaries

/-- Does a block end between two instructions that follow each other? -/
def splits (marks : List Offset) (before after : Instruction) : Bool :=
  before.flowKind != .fallthrough || marks.contains after.offset

/-- The body cut at the start of every block. -/
def segments (body : List Instruction) (regions : List Region) : List (List Instruction) :=
  let marks := marks body regions
  body.splitBy fun before after => !splits marks before after

/-- The segment that starts at an offset. -/
def segmentAt? (segments : List (List Instruction)) (offset : Offset) : Option Nat :=
  segments.findIdx? fun segment => segment.head?.map (·.offset) == some offset

/-- The segment that segment `k` of `count` falls into. -/
def fallthroughOf (count k : Nat) (segment : List Instruction) : Option Nat :=
  if segment.getLast?.any Instruction.fallsThrough && k + 1 < count then some (k + 1) else none

/-- The segments that may follow a segment: the targets of its last instruction, each once and in
table order, and last the one it falls into. -/
def successorsOf (segments : List (List Instruction)) (k : Nat) (segment : List Instruction) :
    List Nat :=
  let onward := fallthroughOf segments.length k segment
  let targets := (segment.getLast?.map Instruction.branchTargets).getD []
  let jumps := (targets.filterMap (segmentAt? segments)).eraseDups
  jumps.filter (fun target => onward != some target) ++ onward.toList

/-- The segments with an edge to segment `k`, given the edges out of each. -/
def predecessorsOf (edges : List (List Nat)) (k : Nat) : List Nat :=
  (List.range edges.length).filter fun m => ((edges[m]?).getD []).contains k

/-- The blocks of a body that has no fault. -/
def connect (body : List Instruction) (regions : List Region) : Graph :=
  let segments := segments body regions
  let edges := segments.zipIdx.map fun (segment, k) => successorsOf segments k segment
  { body
    blocks := (segments.zip edges).zipIdx.map fun ((segment, successors), k) =>
      { index := k
        instructions := segment
        predecessors := predecessorsOf edges k
        successors
        fallthrough := fallthroughOf segments.length k segment
        entryDepth := (segment.head?.map (·.offset)).bind (Region.entryDepthAt regions) } }

end Graph

end Unstack
