import ResourceSearch.Json.Basic
import ResourceSearch.Text.Hex

/-!
JSON text.  The compact and the indented form differ only in their blanks, so one writer makes both.
Strings escape the quote, the backslash and the control characters, and nothing else.
-/

namespace ResourceSearch
namespace Json

structure Layout where
  /-- What stands before a member or element at a depth, and before a closing bracket. -/
  line : Nat → List Char
  /-- What stands after a colon. -/
  gap : List Char

def Layout.compact : Layout := ⟨fun _ => [], []⟩

/-- One member or element a line, two spaces deeper than the bracket around it. -/
def Layout.indented : Layout := ⟨fun depth => '\n' :: List.replicate (2 * depth) ' ', [' ']⟩

/-- A number has no exponent from `0.00001` up to below `10^16`. -/
def numberStyle : Decimal.Style := { positional := some (-5, 15), plus := true, tie := .even }

def writeInt (n : Int) : List Char :=
  if n < 0 then '-' :: Nat.toDigits 10 n.natAbs else Nat.toDigits 10 n.natAbs

def writeNumber : Number → List Char
  | .integer n _ => writeInt n
  | .real x => Decimal.text numberStyle x

def escape (c : Char) : List Char :=
  match c with
  | '"' => ['\\', '"']
  | '\\' => ['\\', '\\']
  | '\x08' => ['\\', 'b']
  | '\x0c' => ['\\', 'f']
  | '\n' => ['\\', 'n']
  | '\r' => ['\\', 'r']
  | '\t' => ['\\', 't']
  | c =>
    if c.toNat < 32 then
      ['\\', 'u', '0', '0', Text.Hex.lower (c.toNat / 16), Text.Hex.lower (c.toNat % 16)]
    else [c]

def writeString (s : String) : List Char := '"' :: (s.toList.flatMap escape ++ ['"'])

mutual

/-- The text of a value that stands at a depth. -/
def write (layout : Layout) (depth : Nat) : Json → List Char
  | .null => ['n', 'u', 'l', 'l']
  | .bool true => ['t', 'r', 'u', 'e']
  | .bool false => ['f', 'a', 'l', 's', 'e']
  | .number n => writeNumber n
  | .string s => writeString s
  | .array [] => ['[', ']']
  | .array (x :: xs) =>
    '[' :: (layout.line (depth + 1) ++ write layout (depth + 1) x ++
      writeElements layout (depth + 1) xs ++ layout.line depth ++ [']'])
  | .object [] => ['{', '}']
  | .object ((name, v) :: ms) =>
    '{' :: (layout.line (depth + 1) ++ writeString name ++ ':' :: layout.gap ++
      write layout (depth + 1) v ++ writeMembers layout (depth + 1) ms ++
      layout.line depth ++ ['}'])

/-- The elements after the first one, each with a comma before it. -/
def writeElements (layout : Layout) (depth : Nat) : List Json → List Char
  | [] => []
  | x :: xs => ',' :: (layout.line depth ++ write layout depth x ++ writeElements layout depth xs)

/-- The members after the first one, each with a comma before it. -/
def writeMembers (layout : Layout) (depth : Nat) : List (String × Json) → List Char
  | [] => []
  | (name, v) :: ms =>
    ',' :: (layout.line depth ++ writeString name ++ ':' :: layout.gap ++ write layout depth v ++
      writeMembers layout depth ms)

end

def compact (j : Json) : String := String.ofList (write .compact 0 j)

def pretty (j : Json) : String := String.ofList (write .indented 0 j)

end Json
end ResourceSearch
