import Unstack.Text.Numeral

/-!
# Paths

A path by its parts, and the faults of following one. Parts stand between slashes, and several
slashes count as one. A part is a dot, two dots or a name. A slash after the last part asks for a
folder. Names and whole paths are limited in their bytes.
-/

namespace Unstack.CommandLine

/-- Why a path does not lead to a file that can be read or written. -/
inductive FileFault where
  | noSuchFile
  | noDevice
  | notDirectory
  | isDirectory
  | noSpace
  | nameTooLong
deriving DecidableEq, Repr

namespace FileFault

/-- The number that an operating system gives a fault. -/
def code : FileFault → Nat
  | .noSuchFile => 2
  | .noDevice => 6
  | .notDirectory => 20
  | .isDirectory => 21
  | .noSpace => 28
  | .nameTooLong => 36

/-- The fault with a number. -/
def ofCode? (code : Nat) : Option FileFault :=
  [noSuchFile, noDevice, notDirectory, isDirectory, noSpace, nameTooLong].find? (·.code == code)

/-- What a fault is called. -/
def description : FileFault → String
  | .noSuchFile => "No such file or directory"
  | .noDevice => "No such device or address"
  | .notDirectory => "Not a directory"
  | .isDirectory => "Is a directory"
  | .noSpace => "No space left on device"
  | .nameTooLong => "File name too long"

/-- A description with the number of its fault. -/
def wording (description : String) (code : Nat) : String :=
  description ++ " (os error " ++ Numeral.decimal code ++ ")"

/-- The wording of a fault. -/
def message (fault : FileFault) : String := wording fault.description fault.code

end FileFault

/-- One part of a path. -/
inductive PathPart where
  /-- The folder that the path has come to. -/
  | here
  /-- The folder above it. -/
  | up
  | name (name : String)
deriving DecidableEq, Repr

/-- The part with a written form. -/
def PathPart.ofString (text : String) : PathPart :=
  if text = "." then .here else if text = ".." then .up else .name text

/-- A path by its parts. -/
structure Path where
  /-- Does it start at the root? -/
  absolute : Bool
  parts : List PathPart
  /-- Does a slash end it? -/
  slashed : Bool
deriving DecidableEq, Repr

namespace Path

/-- The most bytes that a name has. -/
def nameLimit : Nat := 255

/-- The most bytes that a path has. -/
def pathLimit : Nat := 4095

/-- The path with a written form; an empty text is none. -/
def ofString (text : String) : Except FileFault Path :=
  if text.isEmpty then .error .noSuchFile
  else if pathLimit < text.utf8ByteSize then .error .nameTooLong
  else
    .ok
      { absolute := text.toList.head? == some '/'
        parts := ((text.splitOn "/").filter (!·.isEmpty)).map PathPart.ofString
        slashed := text.toList.getLast? == some '/' }

end Path

end Unstack.CommandLine
