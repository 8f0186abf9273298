import Unstack.CommandLine
import Unstack.CommandLine.Path
import Unstack.CommandLine.Station
import Unstack.CommandLine.Terminal

/-!
# A folder in memory

A host whose files are in one working folder without folders in it. It lets the program run without
a file system. Outside the folder are the stations and devices that a system customarily has. Of
other files outside nothing is known: none is there to be read, and one that is written is not kept.
-/

namespace Unstack.CommandLine

/-- The files of a folder by name, the latest first, and what was written to the standard streams
by way of their devices. -/
structure Folder where
  files : List (String × ByteArray) := []
  stdout : String := ""
  stderr : String := ""

namespace Folder

/-- What a station holds under a name. -/
inductive Entry where
  | folder (station : Station)
  | file (bytes : ByteArray)
  | device (device : Device)

/-- Where a path leads: to a folder, or to a name in one, which may have nothing under it. -/
inductive Place where
  | folder
  | entry (station : Station) (name : String)

/-- The bytes of the file with a name. -/
def content? (folder : Folder) (name : String) : Option ByteArray := folder.files.lookup name

/-- The entry under a name. -/
def entry? (folder : Folder) (station : Station) (name : String) : Option Entry :=
  if station = .home then (folder.content? name).map .file
  else ((station.folder? name).map .folder).or ((station.device? name).map .device)

/-- Looks up a name, which must not be too long where files can be made. -/
def look (folder : Folder) (station : Station) (name : String) :
    Except FileFault (Option Entry) :=
  if station.takesFiles && Path.nameLimit < name.utf8ByteSize then .error .nameTooLong
  else .ok (folder.entry? station name)

/-- Goes on from a folder by a part of a path that must lead to a folder. -/
def enter (folder : Folder) (station : Station) : PathPart → Except FileFault Station
  | .here => .ok station
  | .up => .ok station.above
  | .name name =>
    match folder.look station name with
    | .error e => .error e
    | .ok none => .error .noSuchFile
    | .ok (some (.folder next)) => .ok next
    | .ok (some _) => .error .notDirectory

/-- Follows a path from the working folder up to its last part, which is not looked up. -/
def locate (folder : Folder) (path : Path) : Except FileFault Place := do
  let start := if path.absolute then Station.root else Station.home
  let station ← path.parts.dropLast.foldlM folder.enter start
  match path.parts.getLast? with
  | some (.name name) => return .entry station name
  | _ => return .folder

/-- The bytes of an entry. -/
def Entry.bytes : Entry → Except FileFault ByteArray
  | .folder _ => .error .isDirectory
  | .file bytes => .ok bytes
  | .device .terminal => .error .noDevice
  | .device _ => .ok ByteArray.empty

/-- Is the entry a folder? -/
def Entry.isFolder : Entry → Bool
  | .folder _ => true
  | _ => false

/-- Reads a file. -/
def read (folder : Folder) (text : String) : Except FileFault ByteArray := do
  let path ← Path.ofString text
  match ← folder.locate path with
  | .folder => throw .isDirectory
  | .entry station name =>
    match ← folder.look station name with
    | none => throw .noSuchFile
    | some entry =>
      if path.slashed && !entry.isFolder then throw .notDirectory else entry.bytes

/-- The folder with a file replaced or added. -/
def put (folder : Folder) (name : String) (bytes : ByteArray) : Folder :=
  { folder with files := (name, bytes) :: folder.files }

/-- Makes a file that is not there, or replaces one that is. -/
def store (folder : Folder) (station : Station) (name content : String) :
    Except FileFault Folder :=
  if station = .home then .ok (folder.put name content.toUTF8)
  else if station.takesFiles then .ok folder
  else .error .noSuchFile

/-- Writes to a device. -/
def feed (folder : Folder) (content : String) : Device → Except FileFault Folder
  | .null | .input => .ok folder
  | .full => if content.isEmpty then .ok folder else .error .noSpace
  | .output => .ok { folder with stdout := folder.stdout ++ content }
  | .errors => .ok { folder with stderr := folder.stderr ++ content }
  | .terminal => .error .noDevice

/-- Writes a file. A path with a slash at its end asks for a folder, whether there is one or not. -/
def write (folder : Folder) (text content : String) : Except FileFault Folder := do
  let path ← Path.ofString text
  match ← folder.locate path with
  | .folder => throw .isDirectory
  | .entry station name =>
    if path.slashed then throw .isDirectory
    else
      match ← folder.look station name with
      | some (.folder _) => throw .isDirectory
      | some (.device device) => folder.feed content device
      | _ => folder.store station name content

/-- The folder as a host. -/
def host (colors : Bool) : Host (StateM Folder) where
  readFile path := do return ((← get).read path).mapError FileFault.message
  writeFile path content := do
    match (← get).write path content with
    | .error fault => return .error fault.message
    | .ok folder =>
      set folder
      return .ok ()
  fileWriter := .ofColors
  terminalWriter colored := .ofColors (colored && colors)

/-- Runs the program in the folder. What went to the standard streams by way of their devices comes
before the rest of them. -/
def run (folder : Folder) (colors : Bool) (arguments : List String) : Outcome × Folder :=
  let (outcome, after) := (CommandLine.run (host colors) arguments).run folder
  ({ outcome with
      stdout := after.stdout ++ outcome.stdout
      stderr := after.stderr ++ outcome.stderr }, after)

end Folder

end Unstack.CommandLine
