/-!
# Stations

The folders that a path can come to, and what the system keeps in those outside the working folder.
The working folder is in the folder for passing files. The root has its customary folders, of which
only those with devices and with the running program are known from inside.
-/

namespace Unstack.CommandLine

/-- Something that is opened like a file and is none. -/
inductive Device where
  /-- Drops what is written and has nothing to read. -/
  | null
  /-- Has no space for anything. -/
  | full
  /-- Standard input, which is empty. -/
  | input
  /-- Standard output. -/
  | output
  /-- Standard error. -/
  | errors
  /-- The terminal that the program was started from; there is none. -/
  | terminal
deriving DecidableEq, Repr

/-- A folder that a path can come to. -/
inductive Station where
  | root
  /-- The working folder. -/
  | home
  /-- A folder with nothing known in it, and the one above it. -/
  | unknown (above : Station)
  | devices
  /-- The folder of all running programs. -/
  | processes
  /-- The folder of the running program itself. -/
  | process
  /-- The files that the running program has open. -/
  | descriptors
deriving DecidableEq, Repr

namespace Station

/-- The folder for passing files. -/
def temporary : Station := .unknown .root

/-- The folder above a folder; the root is above itself. -/
def above : Station → Station
  | .root | .devices | .processes => .root
  | .home => temporary
  | .unknown above => above
  | .process => .processes
  | .descriptors => .process

/-- Can files be made in the folder? Not where the system shows what is running. -/
def takesFiles : Station → Bool
  | .processes | .process | .descriptors => false
  | _ => true

/-- The customary folders of the root with nothing known in them. -/
def customary : List String :=
  ["bin", "boot", "etc", "home", "lib", "media", "mnt", "opt", "root", "run", "sbin", "srv", "sys",
    "usr", "var"]

/-- The folder under a name in a folder outside the working folder. -/
def folder? : Station → String → Option Station
  | .root, "dev" => some .devices
  | .root, "proc" => some .processes
  | .root, "tmp" => some temporary
  | .root, name => if customary.contains name then some (.unknown .root) else none
  | .devices, "fd" => some .descriptors
  | .devices, "pts" | .devices, "shm" => some (.unknown .devices)
  | .processes, "self" => some .process
  | .process, "cwd" => some .home
  | .process, "fd" => some .descriptors
  | .process, "root" => some .root
  | _, _ => none

/-- The device under a name in a folder. Devices that give zeros or noise without end can only be
written here, so they are like the null device. -/
def device? : Station → String → Option Device
  | .devices, "null" | .devices, "zero" | .devices, "random" | .devices, "urandom" => some .null
  | .devices, "full" => some .full
  | .devices, "tty" => some .terminal
  | .devices, "stdin" | .descriptors, "0" => some .input
  | .devices, "stdout" | .descriptors, "1" => some .output
  | .devices, "stderr" | .descriptors, "2" => some .errors
  | _, _ => none

end Station

end Unstack.CommandLine
