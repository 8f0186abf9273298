import Unstack.Text.Numeral

/-!
# Log entries

What the library reports about its work besides its results. Every entry is a value; only its
text is put out.
-/

namespace Unstack

/-- A report on a finished or failed piece of work. -/
inductive LogEntry where
  | loaded (name : String) (types references : Nat)
  | partitioned (instructions bytes blocks : Nat)
  | loweredForward (instructions registers : Nat)
  | loweredBlocks (blocks instructions registers : Nat)
  | dumping (name strategy : String)
  | loweredMethod (name : String) (instructions registers : Nat)
  | cannotLower (name reason : String)
deriving DecidableEq, Repr

namespace LogEntry

/-- How much an entry matters: only a method that cannot be lowered is worth a warning. -/
def level : LogEntry → String
  | .cannotLower _ _ => "WARN"
  | _ => "DEBUG"

/-- The wording of an entry. -/
def message : LogEntry → String
  | .loaded name types references =>
    "loaded module " ++ name ++ " with " ++ Numeral.decimal types ++ " types and " ++
      Numeral.decimal references ++ " method references"
  | .partitioned instructions bytes blocks =>
    "partitioned " ++ Numeral.decimal instructions ++ " instructions (" ++
      Numeral.decimal bytes ++ " bytes) into " ++ Numeral.decimal blocks ++ " basic blocks"
  | .loweredForward instructions registers =>
    "lowered " ++ Numeral.decimal instructions ++ " instructions in one pass using " ++
      Numeral.decimal registers ++ " registers"
  | .loweredBlocks blocks instructions registers =>
    "lowered " ++ Numeral.decimal blocks ++ " blocks (" ++ Numeral.decimal instructions ++
      " instructions) using " ++ Numeral.decimal registers ++ " registers"
  | .dumping name strategy => "dumping module " ++ name ++ " using " ++ strategy
  | .loweredMethod name instructions registers =>
    "lowered " ++ name ++ " to " ++ Numeral.decimal instructions ++ " instructions over " ++
      Numeral.decimal registers ++ " registers"
  | .cannotLower name reason => "cannot lower " ++ name ++ ": " ++ reason

/-- The line of an entry. -/
def line (entry : LogEntry) : String := entry.level ++ " " ++ entry.message

end LogEntry

end Unstack
