import Unstack.Proofs.Contiguous
import Unstack.Proofs.Finishing

/-!
# The table of labels

The assembler enters a label at the offset that it has come to, and that is a place between two
instructions, or in front of the first or behind the last. Later instructions go behind it. So behind
any steps, also if some failed or placed a label again, the table has exactly the labels that a step
places, and every one of them at a place of the body.
-/

namespace Unstack.Assembly

/-- The widths of the instructions so far. -/
def widths (a : Assembly) : List Nat := (a.drafts.map Draft.extent).map Prod.snd

/-- An instruction that is added adds its width. -/
theorem widths_emit (a : Assembly) (opcode : Opcode) (operand : DraftOperand) :
    (a.emit opcode operand).widths = a.widths ++ [(Draft.mk a.next opcode operand).extent.2] := by
  simp [widths, emit]

/-- A finished body has the widths that were counted. -/
theorem map_width_of_finish {a : Assembly}
    (hsteps : ∀ d ∈ a.drafts, ∃ step : Step, step.Adds d.opcode d.operand) {body : List Instruction}
    (hfinish : a.finish = .ok body) : body.map Instruction.width = a.widths := by
  rw [widths, ← map_extent_of_finish hsteps hfinish, List.map_map]
  rfl

/-- The layout of an assembly behind steps: the instructions fill the bytes so far, and the labels that
steps place stand each behind some of the instructions. -/
structure LaidOut (steps : List Step) (a : Assembly) : Prop where
  tiles : Tiles 0 (a.drafts.map Draft.extent) a.next
  unplaced : ∀ name, a.labels.lookup name = none ↔ Step.label name ∉ steps
  places : ∀ name offset, a.labels.lookup name = some offset →
    ∃ n ≤ a.widths.length, offset = (a.widths.take n).sum

/-- The layout before the first step. -/
theorem laidOut_empty : LaidOut [] {} := ⟨rfl, by simp, by simp⟩

namespace LaidOut

variable {steps : List Step} {a : Assembly}

/-- The next instruction comes behind the widths so far. -/
theorem next_eq (h : LaidOut steps a) : a.next = a.widths.sum := by
  rw [h.tiles.stop_eq, Nat.zero_add]
  rfl

/-- The labels that are lacking are those that no step places. -/
theorem lacks_iff (h : LaidOut steps a) (name : String) :
    a.lacks name = true ↔ Step.label name ∉ steps := by
  rw [lacks, Option.isNone_iff_eq_none]
  exact h.unplaced name

/-- A label is entered behind all instructions so far, also if it was placed before. -/
theorem place (h : LaidOut steps a) (name : String) :
    LaidOut (steps ++ [.label name]) (a.place name).1 where
  tiles := h.tiles
  unplaced other := by
    rw [lookup_place, List.mem_append, List.mem_singleton, not_or, ← h.unplaced other]
    by_cases hother : other = name
    · simp [hother]
    · simp [hother]
  places other offset hlookup := by
    rw [lookup_place] at hlookup
    by_cases hother : other = name
    · rw [if_pos hother, Option.some.injEq, h.next_eq] at hlookup
      refine ⟨a.widths.length, Nat.le_refl _, ?_⟩
      change offset = (a.widths.take a.widths.length).sum
      rw [List.take_length, hlookup]
    · rw [if_neg hother] at hlookup
      exact h.places other offset hlookup

/-- A step that places no label has no part in which labels are placed. -/
theorem unplaced_concat (h : LaidOut steps a) {step : Step} (hstep : ∀ name, step ≠ .label name)
    (name : String) : a.labels.lookup name = none ↔ Step.label name ∉ steps ++ [step] := by
  rw [List.mem_append, List.mem_singleton, not_or, ← h.unplaced name]
  exact (and_iff_left (hstep name).symm).symm

/-- An instruction goes behind the others and moves no label. -/
theorem emit (h : LaidOut steps a) {step : Step} (hstep : ∀ name, step ≠ .label name)
    (opcode : Opcode) (operand : DraftOperand) :
    LaidOut (steps ++ [step]) (a.emit opcode operand) where
  tiles := tiles_emit h.tiles opcode operand
  unplaced := h.unplaced_concat hstep
  places name offset hlookup := by
    obtain ⟨n, hn, hoffset⟩ := h.places name offset hlookup
    rw [widths_emit, List.length_append]
    refine ⟨n, Nat.le_add_right_of_le hn, ?_⟩
    rw [List.take_append_of_le_length hn]
    exact hoffset

/-- A step keeps the layout, also if it fails. -/
theorem apply (h : LaidOut steps a) (step : Step) : LaidOut (steps ++ [step]) (a.apply step).1 := by
  rcases happly : a.apply step with ⟨next, fault⟩
  cases applies_of_apply happly with
  | placed name => exact h.place name
  | moved name => exact h.place name
  | added hadds => exact h.emit hadds.ne_label _ _
  | refused e hstep => exact ⟨h.tiles, h.unplaced_concat hstep, h.places⟩

/-- Steps keep the layout. -/
theorem applyAll (h : LaidOut steps a) (later : List Step) :
    LaidOut (steps ++ later) (a.applyAll later) := by
  induction later generalizing steps a with
  | nil =>
    rw [List.append_nil]
    exact h
  | cons step rest ih =>
    rw [List.append_cons]
    exact ih (h.apply step)

end LaidOut

end Unstack.Assembly
