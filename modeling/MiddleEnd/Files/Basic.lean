import MiddleEnd.Files.Path

/-!
A tree of folders and files, with reading and writing by path. Every part of a path but the last
has to lead through a folder that is there.
-/

namespace MiddleEnd

inductive FileNode where
  | folder
  | file (content : ByteArray)

/-- Folders and files, with the name of the root as it is shown. Later entries count more than
earlier ones. -/
structure Files where
  root : String
  entries : List (Place × FileNode) := []

namespace Files

def shown (fs : Files) (p : Path) : String := Path.text (fs.root :: p)

/-- What stands at a place. The root and everything above it are folders. -/
def node? (fs : Files) (place : Place) : Option FileNode :=
  match fs.entries.reverse.find? (·.1 = place) with
  | some (_, n) => some n
  | none => if place.names.isEmpty then some .folder else none

def isFolder (fs : Files) (place : Place) : Bool :=
  match fs.node? place with
  | some .folder => true
  | _ => false

/-- Follows a path from a place. It may end where nothing stands. -/
def follow (fs : Files) (place : Place) : Path → Option Place
  | [] => some place
  | part :: rest => if fs.isFolder place then fs.follow (place.step part) rest else none

def get? (fs : Files) (p : Path) : Option FileNode := (fs.follow {} p).bind fs.node?

def contains (fs : Files) (p : Path) : Bool := (fs.get? p).isSome

def folder? (fs : Files) (p : Path) : Option Place := (fs.follow {} p).filter fs.isFolder

/-- The text of a file; its content has to be one. -/
def read? (fs : Files) (p : Path) : Option String :=
  match fs.get? p with
  | some (.file content) => String.fromUTF8? content
  | _ => none

/-- Names that a file can be given: they are not too long and have no null character. -/
def isFileName (part : String) : Bool :=
  !isIdle part && part ≠ parentPart && part.utf8ByteSize ≤ 255 && !part.contains '\x00'

/-- Writes a file into a folder that is there. -/
def write? (fs : Files) (p : Path) (text : String) : Option Files := do
  let name ← p.getLast?
  let folder ← fs.folder? p.dropLast
  if isFileName name && !fs.isFolder (folder.child name) then
    return { fs with entries := fs.entries ++ [(folder.child name, .file text.toUTF8)] }
  else none

/-- Puts something where a path leads to, and folders on the way. -/
def put (fs : Files) (p : Path) (n : FileNode) : Files :=
  let way := (List.range p.length).map fun k => (Place.ofPath (p.take k), FileNode.folder)
  { fs with entries := fs.entries ++ way ++ [(Place.ofPath p, n)] }

end Files
end MiddleEnd
