/-!
Scanners: functions that take something off the front of a text, or fail. The text is a list
of characters.
-/

namespace MiddleEnd

abbrev Scan := StateT (List Char) Option

namespace Scan

variable {α : Type}

/-- The next character, which stays where it is. -/
def peek? : Scan (Option Char) := return (← get).head?

def one (p : Char → Bool) : Scan Char
  | [] => none
  | c :: cs => if p c then some (c, cs) else none

def char (c : Char) : Scan Unit := do
  let _ ← one (· = c)

def text : List Char → Scan Unit
  | [] => return ()
  | c :: cs => do
    char c
    text cs

/-- As many characters of a class as there are. -/
def run (p : Char → Bool) : Scan (List Char) := fun cs => some (cs.takeWhile p, cs.dropWhile p)

/-- Nothing is lost, and the run ends only where the class does. -/
theorem run_eq_some {p : Char → Bool} {cs taken rest : List Char}
    (h : run p cs = some (taken, rest)) :
    taken ++ rest = cs ∧ (∀ c ∈ taken, p c = true) ∧ rest.head?.all (!p ·) = true := by
  obtain ⟨rfl, rfl⟩ : cs.takeWhile p = taken ∧ cs.dropWhile p = rest := by simpa [run] using h
  refine ⟨List.takeWhile_append_dropWhile, fun c hc => ?_, ?_⟩
  · exact (List.all_eq_true.1 (List.all_takeWhile (l := cs) (p := p))) c hc
  · cases hd : (cs.dropWhile p).head? with
    | none => rfl
    | some c => simpa [hd] using List.head?_dropWhile_not p cs

/-- As `run`, where there has to be one at least. -/
def run1 (p : Char → Bool) : Scan (List Char) := do
  let c ← one p
  return c :: (← run p)

def exactly (p : Char → Bool) : Nat → Scan (List Char)
  | 0 => return []
  | n + 1 => do
    let c ← one p
    return c :: (← exactly p n)

def eof : Scan Unit
  | [] => some ((), [])
  | _ :: _ => none

/-- What a scanner takes, if it takes anything. -/
def option (p : Scan α) : Scan (Option α) := (some <$> p) <|> pure none

/-- Takes as many times as the scanner gets further. -/
def manyFrom (p : Scan α) (cs : List Char) : List α × List Char :=
  match p cs with
  | none => ([], cs)
  | some (a, rest) =>
    if rest.length < cs.length then
      let (as, last) := manyFrom p rest
      (a :: as, last)
    else ([], cs)
termination_by cs.length

def many (p : Scan α) : Scan (List α) := fun cs => some (manyFrom p cs)

def sepBy1 (p : Scan α) (sep : Scan Unit) : Scan (List α) := do
  let a ← p
  let as ← many (do sep; p)
  return a :: as

def sepBy (p : Scan α) (sep : Scan Unit) : Scan (List α) := sepBy1 p sep <|> pure []

end Scan
end MiddleEnd
