/-!
Paths as they are written, and the places that they lead to. Two paths may lead to one place, but
they are shown to users as they were written.
-/

namespace MiddleEnd

/-- A path below a root, divided at its slashes. The empty path is the root itself, and a path
that ends with a slash has an empty last part. -/
abbrev Path := List String

/-- A part that leads nowhere: an empty one, as between two slashes, or a single point. -/
def isIdle (part : String) : Bool := part = "" || part = "."

def parentPart : String := ".."

namespace Path

def ofText (s : String) : Path := if s = "" then [] else s.splitOn "/"

def text (p : Path) : String := "/".intercalate p

/-- A path with one more name, which stands after a slash that is already there. -/
def join (p : Path) (name : String) : Path :=
  match p.getLast? with
  | some "" => p.dropLast ++ [name]
  | _ => p ++ [name]

/-- Leaves out idle parts at both ends; those between others stay. -/
def trim (p : Path) : Path := ((p.dropWhile isIdle).reverse.dropWhile isIdle).reverse

/-- The paths above one that is given from its last part on, the longest first, in the same form.
Going up leaves out the last part that is not idle, also where that part itself leads up, and the
idle ones around it. -/
def above : List String → List (List String)
  | [] => []
  | part :: rest => if isIdle part then above rest else rest.dropWhile isIdle :: above rest

/-- A path and the paths above it, up to the root. -/
def outward (p : Path) : List Path := p :: (above p.reverse).map List.reverse

end Path

/-- A place: some folders above the root, and then downward by names. -/
structure Place where
  above : Nat := 0
  names : List String := []
  deriving DecidableEq

namespace Place

def parent (place : Place) : Place :=
  if place.names.isEmpty then { place with above := place.above + 1 }
  else { place with names := place.names.dropLast }

def child (place : Place) (name : String) : Place := { place with names := place.names ++ [name] }

def step (place : Place) (part : String) : Place :=
  if isIdle part then place else if part = parentPart then place.parent else place.child part

/-- Where a path leads to from the root if all the folders on its way are there. -/
def ofPath (p : Path) : Place := p.foldl step {}

@[simp] theorem parent_child (place : Place) (name : String) :
    (place.child name).parent = place := by
  simp [parent, child]

end Place
end MiddleEnd
