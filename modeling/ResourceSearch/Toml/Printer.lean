import ResourceSearch.Json.Printer
import ResourceSearch.Text.Split

/-!
TOML documents from JSON values.  A table writes its own entries first and then its tables, each
under a header with the whole path; a table that holds nothing but tables needs no header.  An array
of nothing but objects becomes an array of tables.
-/

namespace ResourceSearch
namespace Toml

/-- A number is never written with an exponent. -/
def numberStyle : Decimal.Style := { positional := none, plus := false, tie := .away }

def writeNumber : Number → List Char
  | .integer n _ => Json.writeInt n
  | .real x => Decimal.text numberStyle x

/-! ## Strings -/

def longestRun (c : Char) (cs : List Char) : Nat :=
  let count (state : Nat × Nat) (d : Char) :=
    if d = c then (state.1 + 1, max state.2 (state.1 + 1)) else (0, state.2)
  (cs.foldl count (0, 0)).2

/-- Whether a character can only be written as an escape. -/
def needsCode (c : Char) : Bool := (c.toNat < 32 && c ≠ '\t' && c ≠ '\n') || c.toNat = 127

/-- A control character, a backslash or a quote as an escape. -/
def escapeCode (c : Char) : List Char :=
  match c with
  | '\x08' => ['\\', 'b']
  | '\t' => ['\\', 't']
  | '\n' => ['\\', 'n']
  | '\x0c' => ['\\', 'f']
  | '\r' => ['\\', 'r']
  | '"' => ['\\', '"']
  | '\\' => ['\\', '\\']
  | c => '\\' :: 'u' :: Text.Hex.padded 4 c.toNat

/-- The text between quotes, where so many quotes may follow each other.  Line breaks stay if the
string has several lines.  `run` counts the quotes just before. -/
def escapeAll (quotes : Nat) (lines : Bool) (run : Nat) : List Char → List Char
  | [] => []
  | c :: cs =>
    if c = '"' then
      if run < quotes then c :: escapeAll quotes lines (run + 1) cs
      else escapeCode c ++ escapeAll quotes lines 0 cs
    else if c = '\n' ∧ lines then c :: escapeAll quotes lines 0 cs
    else if c.toNat < 32 ∨ c = '\\' ∨ c.toNat = 127 then
      escapeCode c ++ escapeAll quotes lines 0 cs
    else c :: escapeAll quotes lines 0 cs

def inQuotes (cs : List Char) : List Char := '"' :: (escapeAll 0 false 0 cs ++ ['"'])

def inApostrophes (cs : List Char) : List Char := '\'' :: (cs ++ ['\''])

/-- A string between three and three marks.  A text of several lines starts on a line of its own. -/
def inTriple (mark : Char) (cs text : List Char) : List Char :=
  let marks := [mark, mark, mark]
  marks ++ (if '\n' ∈ cs then ['\n'] else []) ++ text ++ marks

/-- A string in the plainest form that it can have. -/
def writeString (s : String) : List Char :=
  let cs := s.toList
  let codes := cs.any needsCode
  let backslash := '\\' ∈ cs
  let lines := '\n' ∈ cs
  let quotes := longestRun '"' cs
  let apostrophes := longestRun '\'' cs
  if !codes ∧ !backslash ∧ quotes = 0 ∧ !lines then inQuotes cs
  else if !codes ∧ apostrophes = 0 ∧ !lines then inApostrophes cs
  else if !codes ∧ !backslash ∧ quotes ≤ 2 then inTriple '"' cs (escapeAll 2 true 0 cs)
  else if !codes ∧ apostrophes ≤ 2 then inTriple '\'' cs cs
  else if lines then inTriple '"' cs (escapeAll 2 true 0 cs)
  else inQuotes cs

/-- A key, without quotes if it can do without. -/
def writeKey (key : String) : List Char :=
  let cs := key.toList
  let codes := cs.any fun c => needsCode c || c = '\n'
  if cs ≠ [] ∧ cs.all (fun c => c.isAlphanum || c = '_' || c = '-') then cs
  else if !codes ∧ '\\' ∉ cs ∧ '"' ∉ cs then inQuotes cs
  else if !codes ∧ '\'' ∉ cs then inApostrophes cs
  else inQuotes cs

/-! ## Values on the right of a key -/

mutual

/-- A value.  An array of several elements has each on a line of its own. -/
def writeValue : Json → List Char
  | .null => []
  | .bool b => (if b then "true" else "false").toList
  | .number n => writeNumber n
  | .string s => writeString s
  | .array [] => ['[', ']']
  | .array [x] => '[' :: (writeValue x ++ [']'])
  | .array xs => '[' :: (writeElements xs ++ ['\n', ']'])
  | .object [] => ['{', '}']
  | .object ((key, v) :: ms) =>
    "\x7b ".toList ++ writeKey key ++ " = ".toList ++ writeValue v ++ writeMembers ms ++
      " \x7d".toList

def writeElements : List Json → List Char
  | [] => []
  | x :: xs => "\n    ".toList ++ writeValue x ++ ',' :: writeElements xs

def writeMembers : List (String × Json) → List Char
  | [] => []
  | (key, v) :: ms =>
    ", ".toList ++ writeKey key ++ " = ".toList ++ writeValue v ++ writeMembers ms

end

/-! ## Tables -/

def isObject : Json → Bool
  | .object _ => true
  | _ => false

/-- Whether a value gets headers of its own. -/
def hasHeaders : Json → Bool
  | .object _ => true
  | .array xs => !xs.isEmpty && xs.all isObject
  | _ => false

/-- The entries of a table that are no tables. -/
def body (ms : List (String × Json)) : List Char :=
  ms.flatMap fun (key, v) =>
    if hasHeaders v then [] else writeKey key ++ " = ".toList ++ writeValue v ++ ['\n']

def writePath (path : List String) : List Char := Text.join '.' (path.map writeKey)

/-- A table under its header.  A header that says nothing is left out. -/
def tableBlock (path : List String) (ms : List (String × Json)) : List (List Char) :=
  if ms ≠ [] ∧ body ms = [] then []
  else ['[' :: (writePath path ++ [']', '\n'] ++ body ms)]

/-- An element of an array of tables under its header. -/
def elementBlock (path : List String) (ms : List (String × Json)) : List Char :=
  '[' :: '[' :: (writePath path ++ [']', ']', '\n'] ++ body ms)

mutual

/-- The blocks of a value that stands at a path. -/
def blocks (path : List String) : Json → List (List Char)
  | .object ms => tableBlock path ms ++ memberBlocks path ms
  | .array xs => if xs.all isObject then elementBlocks path xs else []
  | _ => []

def memberBlocks (path : List String) : List (String × Json) → List (List Char)
  | [] => []
  | (key, v) :: ms => blocks (path ++ [key]) v ++ memberBlocks path ms

def elementBlocks (path : List String) : List Json → List (List Char)
  | [] => []
  | .object ms :: xs => elementBlock path ms :: (memberBlocks path ms ++ elementBlocks path xs)
  | _ :: xs => elementBlocks path xs

end

/-- The document of a table, with a blank line between blocks. -/
def document (ms : List (String × Json)) : List Char :=
  let own := body ms
  Text.join '\n' ((if own = [] then [] else [own]) ++ memberBlocks [] ms)

/-! ## What TOML cannot say -/

inductive Obstacle where
  | null
  /-- A whole number above the signed range. -/
  | tooLarge
  /-- A document that is no table. -/
  | noTable
  deriving DecidableEq, Repr

def Obstacle.message : Obstacle → String
  | .null => "unsupported unit type"
  | .tooLarge => "out-of-range value for u64 type"
  | .noTable => "unsupported rust type"

mutual

def obstacle? : Json → Option Obstacle
  | .null => some .null
  | .number (.integer n _) => if n < 0x8000000000000000 then none else some .tooLarge
  | .array xs => obstacleIn? xs
  | .object ms => obstacleAmong? ms
  | _ => none

def obstacleIn? : List Json → Option Obstacle
  | [] => none
  | x :: xs => (obstacle? x).or (obstacleIn? xs)

def obstacleAmong? : List (String × Json) → Option Obstacle
  | [] => none
  | (_, v) :: ms => (obstacle? v).or (obstacleAmong? ms)

end

def print (j : Json) : Except Obstacle String :=
  match obstacle? j, j with
  | some o, _ => .error o
  | none, .object ms => .ok (String.ofList (document ms))
  | none, _ => .error .noTable

end Toml
end ResourceSearch
