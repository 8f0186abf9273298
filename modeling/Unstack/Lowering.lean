import Unstack.Log
import Unstack.Lowering.Forward
import Unstack.Lowering.Traversal

/-!
# Lowering strategies

The choice between the two ways of lowering a method body, and what is logged on the way.
-/

namespace Unstack

/-- How the stack depth before each instruction is found. -/
inductive Strategy where
  | forwardPass
  | graphTraversal
deriving DecidableEq, Repr

namespace Strategy

/-- The strategy used where none is asked for. -/
def standard : Strategy := .forwardPass

/-- The written name of a strategy. -/
def name : Strategy → String
  | .forwardPass => "single-forward-pass"
  | .graphTraversal => "cfg-traversal"

/-- The strategy with the given name; each has a short name as well. -/
def ofName? (name : String) : Option Strategy :=
  if name = "forwardpass" ∨ name = "single-forward-pass" then some .forwardPass
  else if name = "cfgtraverse" ∨ name = "cfg-traversal" then some .graphTraversal
  else none

/-- What is said of a name that no strategy has. -/
def unknownMessage (name : String) : String :=
  "unknown lowering algorithm '" ++ name ++ "' (expected 'forwardpass' or 'cfgtraverse')"

end Strategy

/-- Lowers the body of a method with the given strategy. -/
def lower (strategy : Strategy) (body : List Instruction) (regions : List Region)
    (method : Signature) : Except LowerError Listing :=
  match strategy with
  | .forwardPass => Forward.lower body regions method
  | .graphTraversal =>
    match Graph.build body regions with
    | .error e => .error (.malformed e)
    | .ok g => Traversal.lower g method

namespace LogEntry

/-- The report on a graph. -/
def ofGraph (g : Graph) : LogEntry :=
  .partitioned g.body.length ((endOfBody? g.body).getD 0) g.blocks.length

/-- The reports on building a graph: one if it succeeds. -/
def ofBuild (result : Except GraphError Graph) : List LogEntry :=
  match result with
  | .ok g => [ofGraph g]
  | .error _ => []

/-- The reports on lowering a body: on the graph, if the strategy needs one, and on the result, as
far as each succeeds. -/
def ofLower (strategy : Strategy) (body : List Instruction) (regions : List Region)
    (method : Signature) : List LogEntry :=
  match strategy with
  | .forwardPass =>
    match Forward.lower body regions method with
    | .ok listing => [.loweredForward listing.instructions.length listing.registers]
    | .error _ => []
  | .graphTraversal =>
    match Graph.build body regions with
    | .error _ => []
    | .ok g =>
      match Traversal.lower g method with
      | .ok listing =>
        [ofGraph g,
          .loweredBlocks g.blocks.length listing.instructions.length listing.registers]
      | .error _ => [ofGraph g]

end LogEntry

end Unstack
