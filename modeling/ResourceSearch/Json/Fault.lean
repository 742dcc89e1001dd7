import ResourceSearch.Json.Printer
import ResourceSearch.Text.Utf8
import ResourceSearch.Text.Visible

/-!
Why JSON is refused.  A cause is a matter of the text's form or of its data; a fault is a cause with
a place.  Faults of the form have a place at once.  Some faults of the data get theirs from the
object or array around them, and when there is none they have no position.
-/

namespace ResourceSearch
namespace Json

inductive Malformation where
  | endInValue
  | endInList
  | endInObject
  | endInString
  | expectedValue
  | expectedWord
  | expectedColon
  | expectedListEnd
  | expectedObjectEnd
  | trailingComma
  | trailingCharacters
  | keyNotString
  | invalidNumber
  | numberOutOfRange
  | invalidEscape
  | unfinishedSurrogate
  | loneSurrogate
  | controlCharacter
  | tooDeep
  deriving DecidableEq, Repr

def Malformation.message : Malformation → String
  | endInValue => "EOF while parsing a value"
  | endInList => "EOF while parsing a list"
  | endInObject => "EOF while parsing an object"
  | endInString => "EOF while parsing a string"
  | expectedValue => "expected value"
  | expectedWord => "expected ident"
  | expectedColon => "expected `:`"
  | expectedListEnd => "expected `,` or `]`"
  | expectedObjectEnd => "expected `,` or `\x7d`"
  | trailingComma => "trailing comma"
  | trailingCharacters => "trailing characters"
  | keyNotString => "key must be a string"
  | invalidNumber => "invalid number"
  | numberOutOfRange => "number out of range"
  | invalidEscape => "invalid escape"
  | unfinishedSurrogate => "unexpected end of hex escape"
  | loneSurrogate => "lone leading surrogate in hex escape"
  | controlCharacter => "control character (\\u0000-\\u001F) found while parsing a string"
  | tooDeep => "recursion limit exceeded"

inductive Found where
  | null
  | bool (value : Bool)
  | number (value : Number)
  | string (value : String)
  | sequence
  | map
  deriving DecidableEq, Repr

def Found.of : Json → Found
  | .null => .null
  | .bool b => .bool b
  | .number n => .number n
  | .string s => .string s
  | .array _ => .sequence
  | .object _ => .map

def quoted (s : String) : String := "`" ++ s ++ "`"

def codeEscape (c : Char) : List Char :=
  '\\' :: 'u' :: '{' :: ((Nat.toDigits 16 c.toNat) ++ ['}'])

/-- A string as messages show it: the quote, the backslash and hidden characters escaped. -/
def shownString (s : String) : String :=
  let escaped := s.toList.flatMap fun c =>
    match c with
    | '"' => ['\\', '"']
    | '\\' => ['\\', '\\']
    | '\n' => ['\\', 'n']
    | '\r' => ['\\', 'r']
    | '\t' => ['\\', 't']
    | '\x00' => ['\\', '0']
    | c => if Text.isVisible c then [c] else codeEscape c
  String.ofList ('"' :: (escaped ++ ['"']))

def Found.message : Found → String
  | .null => "null"
  | .bool b => "boolean " ++ quoted (if b then "true" else "false")
  | .number (.integer n h) => "integer " ++ quoted (String.ofList (writeNumber (.integer n h)))
  | .number (.real x) => "floating point " ++ quoted (String.ofList (writeNumber (.real x)))
  | .string s => "string " ++ shownString s
  | .sequence => "sequence"
  | .map => "map"

inductive Cause where
  | malformed (how : Malformation)
  | missingField (name : String)
  | duplicateField (name : String)
  | unknownVariant (name : String) (known : List String)
  | invalidType (found : Found) (wanted : String)
  | invalidValue (found : Found) (wanted : String)
  | invalidLength (length : Nat) (wanted : String)
  deriving DecidableEq, Repr

def offer : List String → String
  | [a] => quoted a
  | [a, b] => quoted a ++ " or " ++ quoted b
  | names => "one of " ++ ", ".intercalate (names.map quoted)

def Cause.message : Cause → String
  | .malformed how => how.message
  | .missingField name => "missing field " ++ quoted name
  | .duplicateField name => "duplicate field " ++ quoted name
  | .unknownVariant name known => "unknown variant " ++ quoted name ++ ", expected " ++ offer known
  | .invalidType found wanted => "invalid type: " ++ found.message ++ ", expected " ++ wanted
  | .invalidValue found wanted => "invalid value: " ++ found.message ++ ", expected " ++ wanted
  | .invalidLength length wanted =>
    "invalid length " ++ toString length ++ ", expected " ++ wanted

/-- Where a fault is found, counted from the end of the text. -/
inductive Place where
  /-- So many bytes are unread. -/
  | known (unread : Nat)
  /-- This text is unread, and the object or array around it has the last word. -/
  | pending (rest : List Char)
  deriving DecidableEq, Repr

structure Fault where
  cause : Cause
  place : Place
  deriving DecidableEq, Repr

namespace Fault

def here (how : Malformation) (rest : List Char) : Fault :=
  ⟨.malformed how, .known (Text.byteLength rest)⟩

def next (how : Malformation) (rest : List Char) : Fault :=
  ⟨.malformed how, .known (Text.byteLength rest - 1)⟩

/-- A fault of the data that is located where reading stands. -/
def data (cause : Cause) (rest : List Char) : Fault := ⟨cause, .known (Text.byteLength rest)⟩

/-- A fault of the data that is located by what stands around it. -/
def outer (cause : Cause) (rest : List Char) : Fault := ⟨cause, .pending rest⟩

end Fault

/-- A line, counted from one, and the number of bytes before a place in it. -/
structure Position where
  line : Nat
  column : Nat
  deriving DecidableEq, Repr

def Position.after (offset : Nat) : List Char → Position → Position
  | [], p => { p with column := p.column + offset }
  | c :: cs, p =>
    if offset < c.utf8Size then { p with column := p.column + offset }
    else if c = '\n' then after (offset - 1) cs ⟨p.line + 1, 0⟩
    else after (offset - c.utf8Size) cs ⟨p.line, p.column + c.utf8Size⟩

structure Refusal where
  cause : Cause
  position? : Option Position := none
  deriving DecidableEq, Repr

def Fault.refusal (text : List Char) (f : Fault) : Refusal :=
  match f.place with
  | .known unread => ⟨f.cause, some (Position.after (Text.byteLength text - unread) text ⟨1, 0⟩)⟩
  | .pending _ => ⟨f.cause, none⟩

def Refusal.message (r : Refusal) : String :=
  match r.position? with
  | none => r.cause.message
  | some p =>
    r.cause.message ++ " at line " ++ toString p.line ++ " column " ++ toString p.column

end Json
end ResourceSearch
