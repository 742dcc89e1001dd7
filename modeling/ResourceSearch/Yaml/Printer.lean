import ResourceSearch.Json.Printer
import ResourceSearch.Yaml.Scalar

/-!
YAML documents from JSON values, in block style.  A mapping inside is indented by two spaces, a
sequence that is the value of a key is not.  Everything writes the end of its own last line.
-/

namespace ResourceSearch
namespace Yaml

/-- A number has no exponent from `0.00001` up to below `10^16`. -/
def numberStyle : Decimal.Style := { positional := some (-5, 15), plus := false, tie := .even }

def writeNumber : Number → List Char
  | .integer n _ => Json.writeInt n
  | .real x => Decimal.text numberStyle x

/-- Whether a key takes a line of its own, because it has several lines or is too long. -/
def isComplexKey (key : String) : Bool := key.toList.any isBreak || 128 < key.utf8ByteSize

def writeKey (indent : Nat) (key : String) : List Char :=
  if isComplexKey key then
    '?' :: ' ' :: (writeString (indent + 2) key ++ spaces indent ++ [':'])
  else (writeString indent key).dropLast ++ [':']

/-- The start of a sequence or mapping: on the line that has begun, or on the next one. -/
def opening (onLine : Bool) (indent : Nat) : List Char :=
  if onLine then [' '] else '\n' :: spaces indent

mutual

/-- A value inside something that is indented so far.  It stands behind a dash or the colon of a
complex key, and a sequence or mapping begins on the line, or behind the colon of a simple key. -/
def writeValue (indent : Nat) (onLine : Bool) : Json → List Char
  | .null => " null\n".toList
  | .bool b => (if b then " true\n" else " false\n").toList
  | .number n => ' ' :: (writeNumber n ++ ['\n'])
  | .string s => ' ' :: writeString (indent + 2) s
  | .array [] => " []\n".toList
  | .array xs =>
    let inner := if onLine then indent + 2 else indent
    writeItems inner (opening onLine inner) xs
  | .object [] => " \x7b\x7d\n".toList
  | .object ms => writeEntries (indent + 2) (opening onLine (indent + 2)) ms

/-- The items of a sequence, the first one after an opening. -/
def writeItems (indent : Nat) (start : List Char) : List Json → List Char
  | [] => []
  | x :: xs => start ++ '-' :: writeValue indent true x ++ writeItems indent (spaces indent) xs

/-- The entries of a mapping, the first one after an opening. -/
def writeEntries (indent : Nat) (start : List Char) : List (String × Json) → List Char
  | [] => []
  | (key, v) :: ms =>
    start ++ writeKey indent key ++ writeValue indent (isComplexKey key) v ++
      writeEntries indent (spaces indent) ms

end

def document : Json → List Char
  | .null => "null\n".toList
  | .bool b => (if b then "true\n" else "false\n").toList
  | .number n => writeNumber n ++ ['\n']
  | .string s => writeString 2 s
  | .array [] => "[]\n".toList
  | .array xs => writeItems 0 [] xs
  | .object [] => "\x7b\x7d\n".toList
  | .object ms => writeEntries 0 [] ms

def print (j : Json) : String := String.ofList (document j)

end Yaml
end ResourceSearch
