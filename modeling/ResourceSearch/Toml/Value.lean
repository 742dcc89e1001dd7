/-!
TOML values, and how a document builds its tables.  A table remembers how it came to be, because
that decides what may still be added to it: one with a header of its own never gets a second one,
one that dotted keys made never gets any, and one in braces is closed at once.
-/

namespace ResourceSearch
namespace Toml

inductive Made where
  | header
  /-- By the header of a table inside it. -/
  | implied
  | dotted
  | inline
  deriving DecidableEq, Repr

/-- A value.  Numbers, dates and times are kept as they are spelled. -/
inductive Value where
  | string (value : String)
  | number (spelling : String)
  | moment (spelling : String)
  | bool (value : Bool)
  | array (elements : List Value)
  | table (made : Made) (entries : List (String × Value))
  /-- An array of tables, each with a header of its own. -/
  | tables (elements : List (List (String × Value)))
  deriving Repr, Inhabited

abbrev Entries := List (String × Value)

def setEntry (key : String) (v : Value) : Entries → Entries
  | [] => []
  | (other, old) :: es =>
    if other = key then (other, v) :: es else (other, old) :: setEntry key v es

/-- Changes the table at the end of a path.  Tables that are missing on the way are made; of an
array of tables, the way leads through the last one.  A dotted key does not lead through a table
with a header of its own, and nothing leads through any other value. -/
def changeAt (dotted : Bool) (change : Made → Entries → Option Entries) :
    List String → Made → Entries → Option Entries
  | [], made, es => change made es
  | key :: path, _, es =>
    match es.lookup key with
    | none =>
      let made := if dotted then Made.dotted else Made.implied
      (changeAt dotted change path made []).map fun inner => es ++ [(key, .table made inner)]
    | some (.table made inner) =>
      if made = .inline ∨ (dotted ∧ made = .header) then none
      else
        (changeAt dotted change path made inner).map fun inner =>
          setEntry key (.table made inner) es
    | some (.tables elements) =>
      match elements.getLast? with
      | none => none
      | some last =>
        (changeAt dotted change path .header last).map fun last =>
          setEntry key (.tables (elements.dropLast ++ [last])) es
    | some _ => none

/-- Adds an entry under a dotted key.  The table that takes it must come from the dots before the
last name, or be the one that the key starts from. -/
def addEntry (path : List String) (key : String) (v : Value) (es : Entries) : Option Entries :=
  changeAt true (fun made es =>
    if (made = .dotted) = (path = []) ∨ (es.lookup key).isSome then none
    else some (es ++ [(key, v)])) path .header es

def openTable (path : List String) (key : String) (es : Entries) : Option Entries :=
  changeAt false (fun _ es =>
    match es.lookup key with
    | none => some (es ++ [(key, .table .header [])])
    | some (.table .implied inner) => some (setEntry key (.table .header inner) es)
    | some _ => none) path .header es

def openElement (path : List String) (key : String) (es : Entries) : Option Entries :=
  changeAt false (fun _ es =>
    match es.lookup key with
    | none => some (es ++ [(key, .tables [[]])])
    | some (.tables elements) => some (setEntry key (.tables (elements ++ [[]])) es)
    | some _ => none) path .header es

end Toml
end ResourceSearch
