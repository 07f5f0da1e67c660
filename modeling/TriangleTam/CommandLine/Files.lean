import TriangleTam.Text.Numeral

/-! # Files

  What the command line may ask of the files around it, and a small **disk**
  that answers without a machine: files and directories below one working
  directory, which lies somewhere below the root.

  A path is followed step by step. A step is taken in a directory, so what is
  not there and what is no directory end the way early; only the last step may
  lead to nothing, which is where a new file can be made.
-/

namespace TriangleTam.CommandLine

/-- Why a file cannot be used. -/
inductive FileFault
  /-- The system refuses, with a code and in its own words. -/
  | system (code : Nat) (words : String)
  /-- The file was read, but it is not text. -/
  | notText
  deriving DecidableEq, Repr

namespace FileFault

def missing : FileFault := .system 2 "No such file or directory"
def notDirectory : FileFault := .system 20 "Not a directory"
def isDirectory : FileFault := .system 21 "Is a directory"
def tooLong : FileFault := .system 36 "File name too long"

def text : FileFault → String
  | .system code words => words ++ " (os error " ++ Numeral.ofNat code ++ ")"
  | .notText => "stream did not contain valid UTF-8"

end FileFault

/-- The text of a file, if it is text. -/
def decode (bytes : ByteArray) : Except FileFault String :=
  match String.fromUTF8? bytes with
  | some text => .ok text
  | none => .error .notText

/-- What a run can learn of the files around it. -/
structure Files where
  /-- The text at a path. -/
  read    : String → Except FileFault String
  /-- Why no file can be written at a path, if so. -/
  refusal : String → Option FileFault

/-! ## Paths -/

namespace Path

/-- The bytes that a path can have. -/
def longest : Nat := 4095

/-- The bytes that one name in a path can have. -/
def longestName : Nat := 255

/-- The steps of a path. Slashes only part them. -/
def steps (path : String) : List String := (path.splitOn "/").filter (· ≠ "")

/-- A path that starts at the root. -/
def isAbsolute (path : String) : Bool := path.startsWith "/"

/-- A slash after the last step says that it leads to a directory. -/
def isClosed (path : String) : Bool := path.endsWith "/"

end Path

/-! ## Places -/

/-- Where a way through directories starts. -/
inductive Origin
  /-- The working directory. -/
  | here
  /-- One of the directories that the working directory is in. -/
  | above
  | root
  deriving DecidableEq, Repr

/-- What can be reached from an origin, by the names on the way. -/
structure Place where
  origin : Origin
  names  : List String := []
  deriving DecidableEq, Repr

namespace Place

/-- Where a path starts. -/
def ofPath (path : String) : Place := ⟨if Path.isAbsolute path then .root else .here, []⟩

/-- The place of a name in the directory at a place. -/
def child (place : Place) (name : String) : Place :=
  { place with names := place.names ++ [name] }

/-- The directory that a place is in. The root is in itself. -/
def parent (place : Place) : Place :=
  match place with
  | ⟨origin, _ :: _⟩ => ⟨origin, place.names.dropLast⟩
  | ⟨.root, []⟩ => ⟨.root, []⟩
  | ⟨.here, []⟩ | ⟨.above, []⟩ => ⟨.above, []⟩

end Place

/-! ## Disks -/

/-- What a place on a disk holds. -/
inductive Node
  | file (bytes : ByteArray)
  | directory

/-- What there is below a directory, by the names on the way from it. -/
abbrev Nodes := List (List String × Node)

/-- The node that names lead to. No names lead to the directory itself, and
    what other nodes are below is a directory too. -/
def Nodes.find? (nodes : Nodes) (names : List String) : Option Node :=
  match nodes.lookup names with
  | some node => some node
  | none =>
    if names.isEmpty || nodes.any (fun (below, _) => names.isPrefixOf below) then
      some .directory
    else none

/-- What every system has below its root: directories, and a file that is
    empty whatever is written to it. -/
def Nodes.system : Nodes :=
  (["dev", "null"], .file .empty) ::
    ["bin", "etc", "home", "lib", "opt", "proc", "root", "run", "sbin", "srv", "sys", "tmp",
      "usr", "var"].map fun name => ([name], .directory)

/-- What there is below the working directory. -/
structure Disk where
  nodes : Nodes

namespace Disk

/-- The node at a place. Nothing is known of what else is in the directories
    above the working directory. -/
def node? (disk : Disk) (place : Place) : Option Node :=
  match place.origin with
  | .here => disk.nodes.find? place.names
  | .root => Nodes.system.find? place.names
  | .above => Nodes.find? [] place.names

/-- Take a step from a place, which has to be a directory. -/
def enter (disk : Disk) (place : Place) (step : String) : Except FileFault Place :=
  match disk.node? place with
  | none => .error .missing
  | some (.file _) => .error .notDirectory
  | some .directory =>
    if step = "." then .ok place
    else if step = ".." then .ok place.parent
    else if step.utf8ByteSize > Path.longestName then .error .tooLong
    else .ok (place.child step)

/-- Take steps from a place. Nothing need be where the last one leads. -/
def follow (disk : Disk) (place : Place) : List String → Except FileFault Place
  | [] => .ok place
  | step :: rest => do disk.follow (← disk.enter place step) rest

/-- Take steps of a path from where it starts. -/
def walk (disk : Disk) (path : String) (steps : List String) : Except FileFault Place :=
  if path = "" then .error .missing
  else if path.utf8ByteSize > Path.longest then .error .tooLong
  else disk.follow (.ofPath path) steps

/-- Where a path leads. -/
def resolve (disk : Disk) (path : String) : Except FileFault Place :=
  disk.walk path (Path.steps path)

/-- The directory that the last step of a path is taken in. -/
def holder (disk : Disk) (path : String) : Except FileFault Place :=
  disk.walk path ((Path.steps path).dropLast ++ ["."])

/-- The text of the file that a path leads to. -/
def read (disk : Disk) (path : String) : Except FileFault String := do
  match disk.node? (← disk.resolve path) with
  | none => .error .missing
  | some .directory => .error .isDirectory
  | some (.file bytes) => if Path.isClosed path then .error .notDirectory else decode bytes

/-- Why no file can be written at a path, if so. A closed path is refused as
    that of a directory, whatever its last step leads to. -/
def refusal (disk : Disk) (path : String) : Option FileFault :=
  if Path.isClosed path then
    match disk.holder path with
    | .error fault => some fault
    | .ok _ => some .isDirectory
  else
    match disk.resolve path with
    | .error fault => some fault
    | .ok place =>
      match disk.node? place with
      | some .directory => some .isDirectory
      | some (.file _) | none => none

/-- The names, from the working directory, of the file that is new there once
    a file was written at a path. -/
def newFile? (disk : Disk) (path : String) : Option (List String) :=
  match disk.resolve path with
  | .ok ⟨.here, names⟩ => if (disk.nodes.find? names).isNone then some names else none
  | _ => none

/-- What a run can learn of a disk. -/
def files (disk : Disk) : Files := ⟨disk.read, disk.refusal⟩

end Disk

end TriangleTam.CommandLine
