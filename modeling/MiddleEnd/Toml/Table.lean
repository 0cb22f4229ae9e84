import MiddleEnd.Data

/-!
Tables as they grow while a document is read. A table knows how it came about, because that
decides what may be added to it later.
-/

namespace MiddleEnd.Toml

inductive TableKind where
  /-- It has a header of its own, or is the whole document. -/
  | header
  /-- Only headers of tables inside it have been seen. -/
  | implied
  /-- It was named before the last point of a key. -/
  | dotted
  deriving DecidableEq

inductive Item where
  | value (d : Data)
  | table (kind : TableKind) (entries : List (String × Item))
  /-- Tables under a repeated header, in their order. -/
  | tables (items : List (List (String × Item)))

abbrev Entries := List (String × Item)

mutual
def Item.toData : Item → Data
  | .value d => d
  | .table _ entries => .record (Item.toFields entries)
  | .tables items => .list (Item.toRecords items)

def Item.toFields : List (String × Item) → List (String × Data)
  | [] => []
  | (k, i) :: rest => (k, i.toData) :: Item.toFields rest

def Item.toRecords : List (List (String × Item)) → List Data
  | [] => []
  | entries :: rest => .record (Item.toFields entries) :: Item.toRecords rest
end

namespace Entries

def find? (key : String) (t : Entries) : Option Item := List.lookup key t

def set (key : String) (i : Item) : Entries → Entries
  | [] => [(key, i)]
  | (k, j) :: rest => if k = key then (k, i) :: rest else (k, j) :: set key i rest

theorem find?_cons (t : Entries) (key name : String) (i : Item) :
    Entries.find? name ((key, i) :: t) = if name = key then some i else t.find? name := by
  by_cases h : name = key
  · simp [find?, h]
  · have hb : (name == key) = false := beq_false_of_ne h
    simp [find?, List.lookup_cons, hb, h]

/-- Looking up after a change finds the new item under its own key and the old items under all
others. -/
theorem find?_set (t : Entries) (key name : String) (i : Item) :
    (t.set key i).find? name = if name = key then some i else t.find? name := by
  induction t with
  | nil => simp only [set, find?_cons]
  | cons e rest ih =>
    obtain ⟨k, j⟩ := e
    by_cases hk : k = key
    · by_cases h : name = key <;> simp [set, find?_cons, hk, h]
    · by_cases h : name = k
      · simp [set, find?_cons, h, hk]
      · simp [set, find?_cons, h, hk, ih]

/-- Goes down a path of table names and changes the table at its end. Names that are not there
become implied tables, and of repeated tables the last one is meant. -/
def under (f : Entries → Option Entries) : List String → Entries → Option Entries
  | [], t => f t
  | k :: path, t =>
    match t.find? k with
    | none => do return t.set k (.table .implied (← under f path []))
    | some (.table kind inner) => do return t.set k (.table kind (← under f path inner))
    | some (.tables items) => do
      let last ← items.getLast?
      return t.set k (.tables (items.dropLast ++ [← under f path last]))
    | some (.value _) => none

/-- Adds a value under a key, which must not be there yet. The names before the last point of
the key become tables of their own; they may add to each other, but not to a table that has a
header or is implied by one. -/
def put (key : String) (d : Data) : List String → Entries → Option Entries
  | [], t => if (t.find? key).isSome then none else some (t.set key (.value d))
  | k :: path, t =>
    match t.find? k with
    | none => do return t.set k (.table .dotted (← put key d path []))
    | some (.table .dotted inner) => do return t.set k (.table .dotted (← put key d path inner))
    | some (.table .implied inner) =>
      if path.isEmpty then none
      else do return t.set k (.table .implied (← put key d path inner))
    | some (.tables items) =>
      if path.isEmpty then none
      else do
        let last ← items.getLast?
        return t.set k (.tables (items.dropLast ++ [← put key d path last]))
    | some (.table .header _) | some (.value _) => none

/-- Opens a table under its header, which must not have been given before. -/
def openTable (key : String) (t : Entries) : Option Entries :=
  match t.find? key with
  | none => some (t.set key (.table .header []))
  | some (.table .implied inner) => some (t.set key (.table .header inner))
  | _ => none

def openNext (key : String) (t : Entries) : Option Entries :=
  match t.find? key with
  | none => some (t.set key (.tables [[]]))
  | some (.tables items) => some (t.set key (.tables (items ++ [[]])))
  | _ => none

def putPath (path : List String) (d : Data) (t : Entries) : Option Entries := do
  t.put (← path.getLast?) d path.dropLast

end Entries
end MiddleEnd.Toml
