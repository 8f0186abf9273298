import Unstack.Lowered

/-!
# Lowering by a walk of the block graph

The graph is walked depth first from its first block, then from every block not reached before, in
program order. A block is lowered once, from the depth that its first visitor left, or from its
entry depth if the runtime enters it. What is still to be visited stands in a work list, so that a
long body needs no deep recursion; a block may stand there more than once.
-/

namespace Unstack.Traversal

/-- How far a walk has come: the lowered blocks by number, and the registers needed so far. -/
structure Walk where
  lowered : List (Option (List Lowered))
  registers : Nat := 0
deriving DecidableEq, Repr

namespace Walk

/-- Is the block with this number still to be lowered? -/
def isOpen (w : Walk) (k : Nat) : Bool := w.lowered[k]? == some none

/-- Enters a lowered block with the peak of its stack. -/
def close (w : Walk) (k : Nat) (ls : List Lowered) (peak : Nat) : Walk :=
  ⟨w.lowered.set k (some ls), max w.registers peak⟩

/-- The number of blocks still to be lowered. -/
def remaining (w : Walk) : Nat := w.lowered.countP Option.isNone

/-- Lowering an open block leaves fewer of them. -/
theorem remaining_close_lt {w : Walk} {k : Nat} (h : w.isOpen k = true) (ls : List Lowered)
    (peak : Nat) : (w.close k ls peak).remaining < w.remaining := by
  obtain ⟨hk, hnone⟩ := List.getElem?_eq_some_iff.1 (beq_iff_eq.1 h)
  have hpos : 0 < w.lowered.countP Option.isNone :=
    List.countP_pos_iff.2 ⟨none, hnone ▸ List.getElem_mem hk, rfl⟩
  change (w.lowered.set k (some ls)).countP Option.isNone < w.lowered.countP Option.isNone
  rw [List.countP_set hk, hnone]
  change w.lowered.countP Option.isNone - 1 + 0 < w.lowered.countP Option.isNone
  omega

end Walk

/-- The depth from which a block is lowered when a visitor arrives at `depth`. -/
def entryDepth (block : Block) (depth : Nat) : Nat := block.entryDepth.getD depth

/-- Lowers all that is reachable from the work list, whose entries are block numbers with the
depth that the visitor left. -/
def visit (g : Graph) (method : Signature) (work : List (Nat × Nat)) (w : Walk) :
    Except LowerError Walk :=
  match work with
  | [] => .ok w
  | (k, depth) :: rest =>
    match g.blocks[k]? with
    | none => visit g method rest w
    | some block =>
      if w.isOpen k then
        match Lowered.run method (.ofDepth (entryDepth block depth)) block.instructions with
        | .error e => .error e
        | .ok (ls, left) =>
          let w' := w.close k ls left.peak
          visit g method ((block.successors.filter w'.isOpen).map (·, left.depth) ++ rest) w'
      else visit g method rest w
termination_by (w.remaining, work.length)
decreasing_by
  · exact Prod.Lex.right _ (by simp)
  · exact Prod.Lex.left _ _ (Walk.remaining_close_lt (by assumption) _ _)
  · exact Prod.Lex.right _ (by simp)

/-- Walks from every block in turn that is still open: with nothing on the stack, or from its entry
depth. -/
def visitAll (g : Graph) (method : Signature) : List Block → Walk → Except LowerError Walk
  | [], w => .ok w
  | root :: rest, w =>
    if w.isOpen root.index then
      match visit g method [(root.index, root.entryDepth.getD 0)] w with
      | .error e => .error e
      | .ok w => visitAll g method rest w
    else visitAll g method rest w

/-- Lowers a method body by walking its graph; the instructions come out in program order. -/
def lower (g : Graph) (method : Signature) : Except LowerError Listing :=
  (visitAll g method g.blocks ⟨g.blocks.map fun _ => none, 0⟩).map fun w =>
    ⟨(w.lowered.filterMap id).flatten, w.registers⟩

end Unstack.Traversal
