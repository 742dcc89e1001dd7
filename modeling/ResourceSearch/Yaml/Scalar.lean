import ResourceSearch.Decimal.Binary64
import ResourceSearch.Text.Hex

/-!
Strings in YAML.  A string is written plain where that reads back as the same string; otherwise in
single quotes, where only the apostrophe is doubled; a text of several lines as a literal block; and
what none of these can hold in double quotes, with escapes.
-/

namespace ResourceSearch
namespace Yaml

open Text

/-! ## Texts that would read as something else -/

def words : List String :=
  ["", "null", "Null", "NULL", "~", "true", "True", "TRUE", "false", "False", "FALSE",
    ".inf", ".Inf", ".INF", "+.inf", "+.Inf", "+.INF", "-.inf", "-.Inf", "-.INF",
    ".nan", ".NaN", ".NAN"]

def base? : Char → Option Nat
  | 'x' => some 16
  | 'o' => some 8
  | 'b' => some 2
  | _ => none

/-- Whether all characters are digits to a base, and there are some. -/
def areDigits (base : Nat) (cs : List Char) : Bool :=
  !cs.isEmpty && cs.all fun c => (Hex.value? c).any (· < base)

/-- Whether a text is a whole number to another base than ten that fits into 128 bits. -/
def isBased (cs : List Char) : Bool :=
  let (negative, cs) := match cs with
    | '-' :: cs => (true, cs)
    | '+' :: cs => (false, cs)
    | cs => (false, cs)
  match cs with
  | '0' :: mark :: digits =>
    match base? mark with
    | none => false
    | some base =>
      areDigits base digits &&
        let n := Hex.number base digits
        if negative then n ≤ 1 <<< 127 else n < 1 <<< 128
  | _ => false

def withoutSign : List Char → List Char
  | '-' :: cs => cs
  | '+' :: cs => cs
  | cs => cs

/-- The exponent that a text is, if it is one. -/
def exponent? : List Char → Option Int
  | [] => some 0
  | c :: cs =>
    let digits := withoutSign cs
    if (c = 'e' ∨ c = 'E') ∧ areDigits 10 digits then
      let n : Int := Hex.number 10 digits
      some (if cs.head? = some '-' then -n else n)
    else none

/-- Whether a text is a decimal number that is not too large.  A point needs a digit on one side
only. -/
def isDecimal (cs : List Char) : Bool :=
  let cs := withoutSign cs
  let whole := cs.takeWhile Char.isDigit
  let rest := cs.dropWhile Char.isDigit
  let (fraction, rest) := match rest with
    | '.' :: rest => (rest.takeWhile Char.isDigit, rest.dropWhile Char.isDigit)
    | rest => ([], rest)
  match exponent? rest with
  | none => false
  | some e =>
    let digits := whole ++ fraction
    !digits.isEmpty && !Binary64.overflows (Hex.number 10 digits) (e - fraction.length)

/-- Whether a text is digits after a zero.  It is no number, but easily taken for one. -/
def isPaddedDigits (cs : List Char) : Bool :=
  match withoutSign cs with
  | '0' :: digits => areDigits 10 digits
  | _ => false

/-- Whether a plain text would not read as a string, or hardly. -/
def readsAsOther (s : String) : Bool :=
  s ∈ words || isBased s.toList || isDecimal s.toList || isPaddedDigits s.toList

/-! ## Characters -/

def isBreak (c : Char) : Bool :=
  c = '\n' || c = '\r' || c = '\x85' || c = '\u2028' || c = '\u2029'

def isPrintable (c : Char) : Bool :=
  c = '\n' || (32 ≤ c.toNat && c.toNat ≤ 126) ||
    (0xA0 ≤ c.toNat && c ≠ '\uFEFF' && c ≠ '\uFFFE' && c ≠ '\uFFFF')

/-- Characters that mean something at the start of a plain text. -/
def indicators : List Char :=
  ['#', ',', '[', ']', '\x7b', '\x7d', '&', '*', '!', '|', '>', '\'', '"', '%', '@', '\x60']

/-- Whether a text goes on with a blank or not at all. -/
def atBlank : List Char → Bool
  | [] => true
  | c :: _ => c = ' '

/-- Whether a colon or a number sign inside a text means something.  `blank` says whether the text
before ends in a blank. -/
def hasInnerIndicator (blank : Bool) : List Char → Bool
  | [] => false
  | c :: cs =>
    (c = ':' && atBlank cs) || (c = '#' && blank) || hasInnerIndicator (c = ' ') cs

def hasIndicator : List Char → Bool
  | [] => false
  | c :: cs =>
    c ∈ indicators || ((c = '-' || c = '?' || c = ':') && atBlank cs) ||
      "---".toList.isPrefixOf (c :: cs) || "...".toList.isPrefixOf (c :: cs) ||
      hasInnerIndicator (c = ' ') cs

def adjacent (first second : Char → Bool) (cs : List Char) : Bool :=
  (cs.zip (cs.drop 1)).any fun (a, b) => first a && second b

/-! ## Styles -/

inductive ScalarStyle where
  | plain
  | single
  | double
  | literal
  deriving DecidableEq, Repr

def ScalarStyle.of (s : String) : ScalarStyle :=
  let cs := s.toList
  let atEdge (p : Char → Bool) := cs.head?.any p || cs.getLast?.any p
  let unprintable := cs.any fun c => !isPrintable c
  let spaceBreak := adjacent (· = ' ') isBreak cs
  let breakSpace := adjacent isBreak (· = ' ') cs
  if '\n' ∈ cs then
    if unprintable || spaceBreak || cs.getLast? = some ' ' then .double else .literal
  else if unprintable || spaceBreak || breakSpace then .double
  else if readsAsOther s || atEdge (· = ' ') || cs.any isBreak || hasIndicator cs then .single
  else .plain

/-! ## Texts -/

def spaces (n : Nat) : List Char := List.replicate n ' '

/-- The text with an indentation before each line but the first.  Empty lines have none.  `fresh`
says whether a line has just begun. -/
def indentLines (indent : Nat) (fresh : Bool) : List Char → List Char
  | [] => []
  | c :: cs =>
    if isBreak c then c :: indentLines indent true cs
    else (if fresh then spaces indent else []) ++ c :: indentLines indent false cs

def singleQuoted (indent : Nat) (cs : List Char) : List Char :=
  let closing := if cs.getLast?.any isBreak then spaces indent else []
  '\'' :: (indentLines indent false (cs.flatMap fun c => if c = '\'' then [c, c] else [c]) ++
    closing ++ ['\''])

def escape (c : Char) : List Char :=
  match c with
  | '\x00' => ['\\', '0']
  | '\x07' => ['\\', 'a']
  | '\x08' => ['\\', 'b']
  | '\t' => ['\\', 't']
  | '\n' => ['\\', 'n']
  | '\x0b' => ['\\', 'v']
  | '\x0c' => ['\\', 'f']
  | '\r' => ['\\', 'r']
  | '\x1b' => ['\\', 'e']
  | '"' => ['\\', '"']
  | '\\' => ['\\', '\\']
  | '\x85' => ['\\', 'N']
  | '\u2028' => ['\\', 'L']
  | '\u2029' => ['\\', 'P']
  | c =>
    if isPrintable c then [c]
    else if c.toNat < 256 then '\\' :: 'x' :: Hex.padded 2 c.toNat
    else '\\' :: 'u' :: Hex.padded 4 c.toNat

def doubleQuoted (cs : List Char) : List Char := '"' :: (cs.flatMap escape ++ ['"'])

/-- What the head of a literal block says of the lines at its end: none, one or more line breaks. -/
def chomping (cs : List Char) : List Char :=
  match cs.reverse with
  | [] => ['-']
  | [c] => if isBreak c then ['+'] else ['-']
  | c :: d :: _ => if !isBreak c then ['-'] else if isBreak d then ['+'] else []

def literal (indent : Nat) (cs : List Char) : List Char :=
  let hint := if cs.head?.any fun c => c = ' ' || isBreak c then ['2'] else []
  let closing := if cs.getLast?.any isBreak then [] else ['\n']
  '|' :: (hint ++ chomping cs ++ '\n' :: indentLines indent true cs ++ closing)

/-- A string and the end of its last line.  Its further lines are indented. -/
def writeString (indent : Nat) (s : String) : List Char :=
  match ScalarStyle.of s with
  | .plain => s.toList ++ ['\n']
  | .single => singleQuoted indent s.toList ++ ['\n']
  | .double => doubleQuoted s.toList ++ ['\n']
  | .literal => literal indent s.toList

end Yaml
end ResourceSearch
