/-!
Handles: the numbers under which types, classes, scopes and function frames are kept.
-/

namespace MiddleEnd

/-- A type. The first five numbers are the basic types, constructed types come after them. -/
structure TypeId where
  index : Nat
  deriving DecidableEq

namespace TypeId

def number : TypeId := ⟨0⟩
def string : TypeId := ⟨1⟩
def boolean : TypeId := ⟨2⟩
def null : TypeId := ⟨3⟩
def any : TypeId := ⟨4⟩

def firstConstructed : Nat := 1000

def isAny (t : TypeId) : Bool := t = any

def text (t : TypeId) : String := s!"TypeId({t.index})"

end TypeId

/-- A class, by its place in the order of declaration. -/
structure ClassId where
  index : Nat
  deriving DecidableEq

/-- A scope, by its place in the order of creation. -/
structure ScopeId where
  index : Nat
  deriving DecidableEq

namespace ScopeId

def root : ScopeId := ⟨0⟩

def text (s : ScopeId) : String := s!"ScopeId({s.index})"

end ScopeId

/-- The frame of a function, by its place in the order of creation. -/
structure FrameId where
  index : Nat
  deriving DecidableEq

end MiddleEnd
