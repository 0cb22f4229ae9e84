import MiddleEnd.Files.Basic
import MiddleEnd.Manifest.Basic

/-!
Manifests in files: loading, saving, and the search for the manifest that a folder belongs to.
-/

namespace MiddleEnd

inductive ManifestError where
  | invalid
  | unreadable (path : String)
  | unparsable (path : String)
  | notSerializable
  | unwritable (path : String)
  | notFound
  deriving DecidableEq

def Manifest.fileName : String := "respecc.toml"

def ManifestError.message : ManifestError → String
  | .invalid => "Invalid configuration"
  | .unreadable path => "Failed to read " ++ path
  | .unparsable path => "Failed to parse " ++ path
  | .notSerializable => "Failed to serialize configuration"
  | .unwritable path => "Failed to write " ++ path
  | .notFound =>
    "Could not find " ++ Manifest.fileName ++ " in current directory or any parent directory"

namespace Manifest

def parse (text : String) : Except ManifestError Manifest :=
  match parse? text with
  | some m => .ok m
  | none => .error .invalid

def load (fs : Files) (p : Path) : Except ManifestError Manifest :=
  match fs.read? p with
  | none => .error (.unreadable (fs.shown p))
  | some text =>
    match parse? text with
    | none => .error (.unparsable (fs.shown p))
    | some m => .ok m

def save (m : Manifest) (fs : Files) (p : Path) : Except ManifestError Files :=
  match m.render? with
  | none => .error .notSerializable
  | some text =>
    match fs.write? p text with
    | none => .error (.unwritable (fs.shown p))
    | some fs => .ok fs

/-- The manifest in the first of some folders that has a file of its name, and the folder. The
file has to be a manifest then. -/
def findIn (fs : Files) : List Path → Except ManifestError (Manifest × Path)
  | [] => .error .notFound
  | folder :: others =>
    let file := Path.join folder fileName
    if fs.contains file then do return (← load fs file, folder) else findIn fs others

/-- The manifest of the nearest folder from `p` upward, as `p` is written. -/
def find (fs : Files) (p : Path) : Except ManifestError (Manifest × Path) :=
  findIn fs (Path.outward p)

/-- As `find`, from the folder that `p` leads to and by the names of that folder. There is no
manifest above the root. -/
def findHere (fs : Files) (p : Path) : Except ManifestError (Manifest × Path) :=
  match fs.folder? p with
  | some ⟨0, names⟩ => find fs names
  | _ => .error .notFound

end Manifest
end MiddleEnd
