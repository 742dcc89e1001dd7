import ResourceSearch.Decimal.Binary64
import ResourceSearch.Text.Hex

/-!
The smallest parts of TOML text: blanks, comments, strings, numbers, dates and times.
-/

namespace ResourceSearch
namespace Toml

/-- Reads from the start of a text and leaves the rest. -/
abbrev Reading (α : Type) := List Char → Option (α × List Char)

def isBlank (c : Char) : Bool := c = ' ' || c = '\t'

def skipBlank (cs : List Char) : List Char := cs.dropWhile isBlank

/-- Whether a character may stand in quotes and comments: the tab, and all that is no ASCII control
character. -/
def isPlain (c : Char) : Bool := c = '\t' || (32 ≤ c.toNat && c.toNat ≠ 127)

def lineBreak? : List Char → Option (List Char)
  | '\n' :: cs => some cs
  | '\r' :: '\n' :: cs => some cs
  | _ => none

/-- Passes the end of a line, with a comment if there is one. -/
def endLine (cs : List Char) : Option (List Char) :=
  let cs := skipBlank cs
  let cs := if cs.head? = some '#' then cs.dropWhile isPlain else cs
  if cs = [] then some [] else lineBreak? cs

/-- Passes blanks, line breaks and comments.  A comment ends with its line. -/
def skipLines (inComment : Bool) : List Char → Option (List Char)
  | '\n' :: cs => skipLines false cs
  | '\r' :: '\n' :: cs => skipLines false cs
  | c :: cs =>
    if inComment then (if isPlain c then skipLines true cs else none)
    else if c = '#' then skipLines true cs
    else if isBlank c then skipLines false cs
    else some (c :: cs)
  | [] => some []

/-! ## Strings -/

open Text

/-- The character whose number has these hexadecimal digits, so many of them. -/
def scalar? (count : Nat) : Reading Char := fun cs =>
  let digits := cs.take count
  let n := Hex.number 16 digits
  if digits.length = count ∧ digits.all (fun c => (Hex.value? c).isSome) ∧ n.isValidChar then
    some (Char.ofNat n, cs.drop count)
  else none

def escape? : Reading Char
  | 'b' :: cs => some ('\x08', cs)
  | 't' :: cs => some ('\t', cs)
  | 'n' :: cs => some ('\n', cs)
  | 'f' :: cs => some ('\x0c', cs)
  | 'r' :: cs => some ('\r', cs)
  | '"' :: cs => some ('"', cs)
  | '\\' :: cs => some ('\\', cs)
  | 'u' :: cs => scalar? 4 cs
  | 'U' :: cs => scalar? 8 cs
  | _ => none

/-- Reads what follows a quote, up to the closing one.  Every step passes a character. -/
def readQuoted : Nat → List Char → Reading String
  | 0, _, _ => none
  | fuel + 1, read, cs =>
    match cs with
    | [] => none
    | '"' :: cs => some (String.ofList read.reverse, cs)
    | '\\' :: cs =>
      match escape? cs with
      | none => none
      | some (c, cs) => readQuoted fuel (c :: read) cs
    | c :: cs => if isPlain c then readQuoted fuel (c :: read) cs else none

def skipBreaks : List Char → List Char
  | '\r' :: '\n' :: cs => skipBreaks cs
  | c :: cs => if isBlank c ∨ c = '\n' then skipBreaks cs else c :: cs
  | [] => []

/-- Reads what follows three quotes, up to the three closing ones.  Up to two more before them
belong to the text.  A backslash at the end of a line takes the blanks and line breaks after it
away. -/
def readQuotedLines : Nat → List Char → Reading String
  | 0, _, _ => none
  | fuel + 1, read, cs =>
    match cs with
    | [] => none
    | '"' :: '"' :: '"' :: '"' :: '"' :: cs => some (String.ofList ('"' :: '"' :: read).reverse, cs)
    | '"' :: '"' :: '"' :: '"' :: cs => some (String.ofList ('"' :: read).reverse, cs)
    | '"' :: '"' :: '"' :: cs => some (String.ofList read.reverse, cs)
    | '\\' :: cs =>
      match lineBreak? (skipBlank cs) with
      | some cs => readQuotedLines fuel read (skipBreaks cs)
      | none =>
        match escape? cs with
        | none => none
        | some (c, cs) => readQuotedLines fuel (c :: read) cs
    | c :: cs =>
      match lineBreak? (c :: cs) with
      | some cs => readQuotedLines fuel ('\n' :: read) cs
      | none => if c = '"' ∨ isPlain c then readQuotedLines fuel (c :: read) cs else none

/-- Reads what follows an apostrophe, up to the closing one. -/
def readLiteral (cs : List Char) : Option (String × List Char) :=
  let text := cs.takeWhile fun c => isPlain c && c ≠ '\''
  match cs.drop text.length with
  | '\'' :: cs => some (String.ofList text, cs)
  | _ => none

/-- Reads what follows three apostrophes, up to the three closing ones.  Up to two more before them
belong to the text. -/
def readLiteralLines (read : List Char) : Reading String
  | [] => none
  | '\'' :: '\'' :: '\'' :: '\'' :: '\'' :: cs =>
    some (String.ofList ('\'' :: '\'' :: read).reverse, cs)
  | '\'' :: '\'' :: '\'' :: '\'' :: cs => some (String.ofList ('\'' :: read).reverse, cs)
  | '\'' :: '\'' :: '\'' :: cs => some (String.ofList read.reverse, cs)
  | '\r' :: '\n' :: cs => readLiteralLines ('\n' :: read) cs
  | '\n' :: cs => readLiteralLines ('\n' :: read) cs
  | c :: cs => if isPlain c then readLiteralLines (c :: read) cs else none

/-- The text after the line break that may follow three opening quotes. -/
def afterBreak (cs : List Char) : List Char := (lineBreak? cs).getD cs

def readLine : Reading String
  | '"' :: cs => readQuoted (cs.length + 1) [] cs
  | '\'' :: cs => readLiteral cs
  | _ => none

def readString : Reading String
  | '"' :: '"' :: '"' :: cs => readQuotedLines (cs.length + 1) [] (afterBreak cs)
  | '\'' :: '\'' :: '\'' :: cs => readLiteralLines [] (afterBreak cs)
  | cs => readLine cs

/-! ## Numbers -/

/-- The digits at the start of a text.  A low line may stand between two of them. -/
def moreDigits (isDigit : Char → Bool) : List Char → List Char × List Char
  | [] => ([], [])
  | c :: cs =>
    if isDigit c then
      let (digits, rest) := moreDigits isDigit cs
      (c :: digits, rest)
    else
      match c, cs with
      | '_', d :: cs =>
        if isDigit d then
          let (digits, rest) := moreDigits isDigit cs
          (d :: digits, rest)
        else ([], c :: d :: cs)
      | _, _ => ([], c :: cs)

def readDigits (isDigit : Char → Bool) : Reading (List Char)
  | [] => none
  | c :: cs => if isDigit c then some (moreDigits isDigit (c :: cs)) else none

def readSign : List Char → Bool × List Char
  | '-' :: cs => (true, cs)
  | '+' :: cs => (false, cs)
  | cs => (false, cs)

/-- Reads the digits before a point.  A zero at the start stands alone. -/
def readWhole : Reading (List Char)
  | '0' :: cs => some (['0'], cs)
  | cs => readDigits Char.isDigit cs

def readExponent : Reading (Option Int)
  | c :: cs =>
    if c = 'e' ∨ c = 'E' then
      let (negative, cs) := readSign cs
      match readDigits Char.isDigit cs with
      | none => none
      | some (digits, cs) =>
        let n : Int := Hex.number 10 digits
        some (some (if negative then -n else n), cs)
    else some (none, c :: cs)
  | [] => some (none, [])

/-- Reads what follows a point, if there is one: the digits up to an exponent. -/
def readFraction : Reading (Option (List Char))
  | '.' :: cs => (readDigits Char.isDigit cs).map fun (digits, cs) => (some digits, cs)
  | cs => some (none, cs)

/-- A whole number has to fit into 64 bits, and another one must not be too large.  Both give the
text after them. -/
def readDecimal (cs : List Char) : Option (List Char) := do
  let (negative, cs) := readSign cs
  let (whole, cs) ← readWhole cs
  let (fraction, cs) ← readFraction cs
  let (exponent, cs) ← readExponent cs
  match fraction, exponent with
  | none, none =>
    let n := Hex.number 10 whole
    if (if negative then n ≤ 0x8000000000000000 else n < 0x8000000000000000) then some cs else none
  | fraction, exponent =>
    let fraction := fraction.getD []
    let digits := Hex.number 10 (whole ++ fraction)
    let power := exponent.getD 0 - fraction.length
    if !negative && Binary64.overflows digits power then none else some cs

/-- Reads a whole number to a base other than ten, after its first two characters. -/
def readBased (base : Nat) (cs : List Char) : Option (List Char) := do
  let (digits, cs) ← readDigits (fun c => (Hex.value? c).any (· < base)) cs
  if Hex.number base digits < 0x8000000000000000 then some cs else none

def passNumber (cs : List Char) : Option (List Char) :=
  match cs, (readSign cs).2 with
  | '0' :: 'x' :: cs, _ => readBased 16 cs
  | '0' :: 'o' :: cs, _ => readBased 8 cs
  | '0' :: 'b' :: cs, _ => readBased 2 cs
  | _, 'i' :: 'n' :: 'f' :: cs => some cs
  | _, 'n' :: 'a' :: 'n' :: cs => some cs
  | cs, _ => readDecimal cs

/-! ## Dates and times -/

def readTwo (least most : Nat) : Reading Nat
  | a :: b :: cs =>
    let n := Hex.number 10 [a, b]
    if a.isDigit ∧ b.isDigit ∧ least ≤ n ∧ n ≤ most then some (n, cs) else none
  | _ => none

def passChar (c : Char) : List Char → Option (List Char)
  | d :: cs => if d = c then some cs else none
  | [] => none

def daysOf (year month : Nat) : Nat :=
  if month = 2 then
    if year % 4 = 0 ∧ (year % 100 ≠ 0 ∨ year % 400 = 0) then 29 else 28
  else if month = 4 ∨ month = 6 ∨ month = 9 ∨ month = 11 then 30
  else 31

def passDate (cs : List Char) : Option (List Char) := do
  let (century, cs) ← readTwo 0 99 cs
  let (year, cs) ← readTwo 0 99 cs
  let (month, cs) ← readTwo 1 12 (← passChar '-' cs)
  let (_, cs) ← readTwo 1 (daysOf (100 * century + year) month) (← passChar '-' cs)
  return cs

/-- Passes a time.  A minute may have a leap second. -/
def passTime (cs : List Char) : Option (List Char) := do
  let (_, cs) ← readTwo 0 23 cs
  let (_, cs) ← readTwo 0 59 (← passChar ':' cs)
  let (_, cs) ← readTwo 0 60 (← passChar ':' cs)
  match cs with
  | '.' :: d :: rest => return if d.isDigit then rest.dropWhile Char.isDigit else cs
  | _ => return cs

def passOffset (cs : List Char) : Option (List Char) :=
  match cs with
  | [] => none
  | c :: cs =>
    if c = 'Z' ∨ c = 'z' then some cs
    else if c = '+' ∨ c = '-' then do
      let (_, cs) ← readTwo 0 23 cs
      let (_, cs) ← readTwo 0 59 (← passChar ':' cs)
      return cs
    else none

/-- Passes a date with or without a time, or a time. -/
def passMoment (cs : List Char) : Option (List Char) :=
  match passDate cs with
  | none => passTime cs
  | some rest =>
    match rest with
    | [] => some []
    | c :: afterDelimiter =>
      if c = 'T' ∨ c = 't' ∨ c = ' ' then
        match passTime afterDelimiter with
        | none => some rest
        | some rest => some ((passOffset rest).getD rest)
      else some rest

end Toml
end ResourceSearch
