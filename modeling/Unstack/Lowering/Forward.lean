import Unstack.Lowered

/-!
# Lowering in one forward pass

Every instruction is lowered once, in program order, by the rule of ECMA-335 (III.1.7.5): after an
instruction that does not go on, the depth is the one that an earlier branch to this place left,
or zero if there was none. Handlers and filters start at their entry depth.
-/

namespace Unstack.Forward

/-- What the pass knows before an instruction: the stack, the depths that earlier branches left at
offsets still ahead, and whether the instruction before goes on to this one. -/
structure Progress where
  stack : EvalStack := {}
  recorded : List (Offset × Nat) := []
  goesOn : Bool := true
deriving DecidableEq, Repr

/-- The stack on entry to the instruction at an offset. -/
def enter (regions : List Region) (p : Progress) (offset : Offset) : EvalStack :=
  match Region.entryDepthAt regions offset with
  | some depth => p.stack.setDepth depth
  | none => if p.goesOn then p.stack else p.stack.setDepth ((p.recorded.lookup offset).getD 0)

/-- The recorded depths after a branch from `source`: the first depth recorded at an offset
stays. -/
def record (source : Offset) (depth : Nat) (recorded : List (Offset × Nat)) (target : Offset) :
    List (Offset × Nat) :=
  if source < target && (recorded.lookup target).isNone then (target, depth) :: recorded
  else recorded

/-- The offsets at which the instructions of a body start. -/
def starts (body : List Instruction) : List Offset := body.map Instruction.offset

/-- The first region boundary that is neither the end of the body nor among the starts. -/
def danglingBoundary? (starts : List Offset) (stop : Offset) (regions : List Region) :
    Option Offset :=
  (regions.flatMap Region.boundaries).find? fun boundary =>
    boundary != stop && !starts.contains boundary

/-- Lowers the rest of a body whose instructions start at the given offsets. -/
def lowerFrom (starts : List Offset) (regions : List Region) (method : Signature) :
    Progress → List Instruction → Except LowerError (List Lowered × EvalStack)
  | p, [] => .ok ([], p.stack)
  | p, i :: rest =>
    match Lowered.step method (enter regions p i.offset) i with
    | .error e => .error e
    | .ok (l, left) =>
      match i.branchTargets.find? (!starts.contains ·) with
      | some target => .error (.malformed (.danglingTarget i.offset target))
      | none =>
        let recorded := i.branchTargets.foldl (record i.offset left.depth) p.recorded
        match lowerFrom starts regions method ⟨left, recorded, i.fallsThrough⟩ rest with
        | .error e => .error e
        | .ok (ls, final) => .ok (l :: ls, final)

/-- Lowers a method body in one pass. -/
def lower (body : List Instruction) (regions : List Region) (method : Signature) :
    Except LowerError Listing :=
  match endOfBody? body with
  | none => .error (.malformed .emptyMethod)
  | some stop =>
    match danglingBoundary? (starts body) stop regions with
    | some boundary => .error (.malformed (.danglingBoundary boundary))
    | none =>
      (lowerFrom (starts body) regions method {} body).map fun (ls, final) => ⟨ls, final.peak⟩

end Unstack.Forward
