import MiddleEnd.Scopes.Basic
import MiddleEnd.Tree.Basic

/-!
Written types: which type a type expression denotes at a place. Every array and dictionary in
it adds a type to the table, also where a later name turns out to be wrong.
-/

namespace MiddleEnd

/-- A step that may add types, which stay when it fails. -/
abbrev TypeStep := ExceptT Fault (StateM TypeTable)

def TypeStep.add (form : TypeForm) : TypeStep TypeId := do
  let table ← get
  set (table.add form)
  return table.next

def Scopes.namedType (t : Scopes) (id : ScopeId) (name : String) (span : Span) :
    Except Fault TypeId := do
  let b ← t.resolve id name span
  ensure b.denotesType (.notAType name) span
  return b.type

def Scopes.typeOf (t : Scopes) (id : ScopeId) : TypeExpr → TypeStep TypeId
  | .named name span => ExceptT.mk (pure (t.namedType id name span))
  | .array element => do
    let element ← t.typeOf id element
    TypeStep.add (.array element)
  | .dictionary key value => do
    let key ← t.typeOf id key
    let value ← t.typeOf id value
    TypeStep.add (.dictionary key value)

end MiddleEnd
