import Unstack.Graph.Leaders

/-!
# Block graphs

A method body cut into basic blocks and the edges between them. A block starts at every leader and
ends before the next. Handlers and filters are entered by the runtime: their blocks have no edge for
that, but know the stack depth at which they are entered.

The body is taken to have increasing offsets, as decoded and assembled bodies have.
-/

namespace Unstack

/-- A run of instructions that is entered only at its start and left only at its end. -/
structure Block where
  index : Nat
  instructions : List Instruction
  /-- The blocks with an edge to this one, in ascending order. -/
  predecessors : List Nat
  /-- The blocks that may follow, each once; the block that is fallen into comes last. -/
  successors : List Nat
  /-- The block that is reached by running off the end of this one. -/
  fallthrough : Option Nat
  /-- The stack depth at which the runtime enters the block, if a handler or filter starts it. -/
  entryDepth : Option Nat
deriving DecidableEq, Repr

/-- The blocks of a method body, in program order. -/
structure Graph where
  body : List Instruction
  blocks : List Block
deriving DecidableEq, Repr

namespace Block

/-- The offset at which the block starts. -/
def start? (block : Block) : Option Offset := block.instructions.head?.map (·.offset)

/-- The last instruction of the block. -/
def last? (block : Block) : Option Instruction := block.instructions.getLast?

/-- Does control leave the method or the handler from this block? -/
def isExit (block : Block) : Bool := block.successors.isEmpty

/-- Block numbers with commas between them. -/
def numbers (indices : List Nat) : String :=
  String.intercalate ", " (indices.map Numeral.decimal)

/-- The written form of a block: its number, its instructions and its neighbours. -/
def text (block : Block) : String :=
  "BasicBlock" ++ Numeral.decimal block.index ++ "\n" ++
    String.join (block.instructions.map (·.text ++ "\n")) ++
    "in: [" ++ numbers block.predecessors ++ "]\nout: [" ++ numbers block.successors ++ "]\n"

end Block

namespace Graph

section Slices

variable (body : Array Instruction) (starts : List (Nat × Option Nat))

/-- Where the block of a leader ends: at the next leader, or with the body. -/
def stopOf (k : Nat) : Nat := (starts[k + 1]?.map (·.1)).getD body.size

/-- The body sliced at every leader, without edges. -/
def slices : List Block :=
  starts.mapIdx fun k (start, entryDepth) =>
    { index := k
      instructions := (body.extract start (stopOf body starts k)).toList
      predecessors := []
      successors := []
      fallthrough := none
      entryDepth }

/-- The number of its block for every instruction of the body. -/
def blockTable : Array Nat :=
  (starts.mapIdx fun k (start, _) => List.replicate (stopOf body starts k - start) k).flatten.toArray

end Slices

/-- Adds the block of a target, unless control falls into it or it is there already. -/
def addSuccessor (body : Array Instruction) (table : Array Nat) (onward : Option Nat)
    (successors : List Nat) (target : Offset) : List Nat :=
  match (indexOf? body target).bind (table[·]?) with
  | some k => if onward != some k && !successors.contains k then successors ++ [k] else successors
  | none => successors

/-- Gives a block its successors: the blocks of the targets of its last instruction, each once and in
table order, and last the one it falls into. -/
def linkForward (body : Array Instruction) (table : Array Nat) (count : Nat) (block : Block) : Block :=
  let onward :=
    if block.last?.any Instruction.fallsThrough && block.index + 1 < count then some (block.index + 1)
    else none
  let targets := (block.last?.map Instruction.branchTargets).getD []
  { block with
    successors := targets.foldl (addSuccessor body table onward) [] ++ onward.toList
    fallthrough := onward }

/-- Enters an edge from block `k` at its end. -/
def addPredecessor (k : Nat) (blocks : List Block) (successor : Nat) : List Block :=
  blocks.modify successor fun block => { block with predecessors := block.predecessors ++ [k] }

/-- Enters the edges from block `k` at their ends. -/
def linkBack (blocks : List Block) (k : Nat) : List Block :=
  ((blocks[k]?.map Block.successors).getD []).foldl (addPredecessor k) blocks

/-- The blocks between the leaders, with the edges between them. -/
def assemble (body : Array Instruction) (leaders : Leaders) : Graph :=
  let starts := leaders.entries
  let table := blockTable body starts
  let blocks := (slices body starts).map (linkForward body table starts.length)
  { body := body.toList
    blocks := (List.range starts.length).foldl linkBack blocks }

/-- The block graph of a method body. -/
def build (body : List Instruction) (regions : List Region) : Except GraphError Graph :=
  match endOfBody? body with
  | none => .error .emptyMethod
  | some stop => (Leaders.collect body.toArray stop regions).map (assemble body.toArray)

/-- The number of the block that starts at an offset. Blocks come in the order of their starts, so
that it is found by binary search. -/
def blockAt? (g : Graph) (offset : Offset) : Option Nat :=
  let blocks := g.blocks.toArray
  Search.bisect (fun k => compare (blocks[k]?.bind Block.start?) (some offset)) 0 blocks.size

/-- The blocks without successors. -/
def exits (g : Graph) : List Block := g.blocks.filter Block.isExit

/-- The number of bytes of the body. -/
def codeSize (g : Graph) : Nat := g.body.foldl (fun size i => size + i.width) 0

/-- The written form of a graph: its blocks with an empty line between them. -/
def text (g : Graph) : String := String.intercalate "\n" (g.blocks.map Block.text)

end Graph

end Unstack
