import ResourceSearch.Text.Split

/-!
Paths of files.  Slashes divide a path into names.  A path leads from the working folder, or from
the root if it begins with a slash, to one name after the other; `.` stays where it is, and `..`
goes back to the folder around.
-/

namespace ResourceSearch
namespace Path

inductive Start where
  /-- So many folders above the working folder. -/
  | above (folders : Nat)
  | root
  deriving DecidableEq, Repr

/-- A place for a file or folder: the names on the way to it. -/
structure Location where
  start : Start := .above 0
  names : List String
  deriving DecidableEq, Repr

/-- The folder around.  The root is around itself. -/
def Location.parent : Location → Location
  | ⟨.above n, []⟩ => ⟨.above (n + 1), []⟩
  | ⟨.root, []⟩ => ⟨.root, []⟩
  | ⟨start, names⟩ => ⟨start, names.dropLast⟩

def Location.enter (place : Location) (name : String) : Location :=
  if name = "." then place
  else if name = ".." then place.parent
  else { place with names := place.names ++ [name] }

def start (path : String) : Location :=
  if path.toList.head? = some '/' then ⟨.root, []⟩ else ⟨.above 0, []⟩

def names (path : String) : List String :=
  ((Text.split '/' path.toList).map String.ofList).filter (· ≠ "")

/-- Whether a path ends in a slash, so that only a folder can be meant. -/
def endsInSlash (path : String) : Bool := path.toList.getLast? == some '/'

/-- Whether a path ends in `.` or `..`, or is the root. -/
def endsAtDots (path : String) : Bool :=
  match (names path).getLast? with
  | some name => name = "." || name = ".."
  | none => true

/-- A path without trailing slashes and trailing `.` names, backwards.  A path that is only `.` or
the root stays. -/
def trimBackwards : List Char → List Char
  | ['/'] => ['/']
  | '/' :: rest => trimBackwards rest
  | '.' :: '/' :: rest => trimBackwards ('/' :: rest)
  | cs => cs

/-- A path beside another: its last name followed by a suffix, or the suffix alone inside a folder
that has no name. -/
def sibling (path suffix : String) : String :=
  let trimmed := trimBackwards path.toList.reverse
  let name := trimmed.takeWhile (· ≠ '/')
  if name = [] ∨ name = ['.'] ∨ name = ['.', '.'] then
    if path = "" ∨ endsInSlash path then path ++ suffix else path ++ "/" ++ suffix
  else
    let around :=
      match trimBackwards (trimmed.drop name.length) with
      | [] => []
      | ['/'] => ['/']
      | folder => '/' :: folder
    String.ofList (name ++ around).reverse ++ suffix

def maxNameSize : Nat := 255

def maxSize : Nat := 4095

end Path
end ResourceSearch
