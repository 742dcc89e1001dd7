import ResourceSearch.Json.Fault

/-!
Reading JSON text.  A reader takes the unread text and returns a value and the text after it, or the
first fault from the left.  Objects and arrays may be nested `levels` deep; a value that nobody
wants is skipped instead, at any depth and with fewer checks.
-/

namespace ResourceSearch
namespace Json

/-- What reading leads to: a value and the unread text, or a fault. -/
abbrev Reading (α : Type) := Except Fault (α × List Char)

def maxLevels : Nat := 127

def isBlank (c : Char) : Bool := c == ' ' || c == '\n' || c == '\t' || c == '\r'

def skipBlank : List Char → List Char
  | [] => []
  | c :: cs => if isBlank c then skipBlank cs else c :: cs

def readWord : List Char → List Char → Except Fault (List Char)
  | [], cs => .ok cs
  | _ :: _, [] => .error (.here .endInValue [])
  | w :: ws, c :: cs => if c = w then readWord ws cs else .error (.next .expectedWord (c :: cs))

/-! ## Strings -/

def hexNumber? (a b c d : Char) : Option Nat :=
  match Text.Hex.value? a, Text.Hex.value? b, Text.Hex.value? c, Text.Hex.value? d with
  | some a, some b, some c, some d => some (((a * 16 + b) * 16 + c) * 16 + d)
  | _, _, _, _ => none

def plainEscape? : Char → Option Char
  | '"' => some '"'
  | '\\' => some '\\'
  | '/' => some '/'
  | 'b' => some '\x08'
  | 'f' => some '\x0c'
  | 'n' => some '\n'
  | 'r' => some '\r'
  | 't' => some '\t'
  | _ => none

/-- The fault of a text that should go on with four hexadecimal digits.  Four bytes are looked at.
-/
def hexFault (cs : List Char) : Fault :=
  if 4 ≤ Text.byteLength cs then ⟨.malformed .invalidEscape, .known (Text.byteLength cs - 4)⟩
  else .here .endInString []

/-- The fault of a text that should go on with the second half of a surrogate pair. -/
def pairFault : List Char → Fault
  | [] => .here .endInString []
  | ['\\'] => .here .endInString []
  | '\\' :: 'u' :: cs => hexFault cs
  | '\\' :: cs => .next .unfinishedSurrogate cs
  | cs => .next .unfinishedSurrogate cs

def isLeading (n : Nat) : Bool := 0xD800 ≤ n && n ≤ 0xDBFF

def isTrailing (n : Nat) : Bool := 0xDC00 ≤ n && n ≤ 0xDFFF

def pairChar (leading trailing : Nat) : Char :=
  Char.ofNat ((leading - 0xD800) * 0x400 + (trailing - 0xDC00) + 0x10000)

/-- Reads the rest of a string after its opening quote.  `done` is what has been read, backwards. -/
def readChars (done : List Char) : List Char → Reading String
  | [] => .error (.here .endInString [])
  | '"' :: cs => .ok (String.ofList done.reverse, cs)
  | '\\' :: 'u' :: a :: b :: c :: d :: cs =>
    match hexNumber? a b c d with
    | none => .error (hexFault (a :: b :: c :: d :: cs))
    | some n =>
      if isTrailing n then .error (.here .loneSurrogate cs)
      else if isLeading n then
        match cs with
        | '\\' :: 'u' :: e :: f :: g :: h :: cs =>
          match hexNumber? e f g h with
          | none => .error (hexFault (e :: f :: g :: h :: cs))
          | some m =>
            if isTrailing m then readChars (pairChar n m :: done) cs
            else .error (.here .loneSurrogate cs)
        | cs => .error (pairFault cs)
      else readChars (Char.ofNat n :: done) cs
  | '\\' :: 'u' :: cs => .error (hexFault cs)
  | ['\\'] => .error (.here .endInString [])
  | '\\' :: e :: cs =>
    match plainEscape? e with
    | some c => readChars (c :: done) cs
    | none => .error (.next .invalidEscape (e :: cs))
  | c :: cs =>
    if c.toNat < 32 then .error (.here .controlCharacter cs) else readChars (c :: done) cs

/-- Passes over the rest of a string after its opening quote.  The escapes need not be characters.
-/
def skipChars : List Char → Except Fault (List Char)
  | [] => .error (.here .endInString [])
  | '"' :: cs => .ok cs
  | '\\' :: 'u' :: a :: b :: c :: d :: cs =>
    match hexNumber? a b c d with
    | none => .error (hexFault (a :: b :: c :: d :: cs))
    | some _ => skipChars cs
  | '\\' :: 'u' :: cs => .error (hexFault cs)
  | ['\\'] => .error (.here .endInString [])
  | '\\' :: e :: cs =>
    if (plainEscape? e).isSome then skipChars cs else .error (.next .invalidEscape (e :: cs))
  | c :: cs =>
    if c.toNat < 32 then .error (.here .controlCharacter (c :: cs)) else skipChars cs

/-! ## Numbers -/

def digit? (c : Char) : Option Nat :=
  if '0' ≤ c ∧ c ≤ '9' then some (c.toNat - 48) else none

def skipDigits : List Char → List Char
  | [] => []
  | c :: cs => if (digit? c).isSome then skipDigits cs else c :: cs

/-- Scales a number by a power of ten, one rounded step after the other: a product or a quotient
with a power of at most `10^308`.  Smaller numbers take several quotients. -/
def scale? (x : Binary64) (power : Int) : Option Binary64 :=
  if 0 ≤ power then
    if power ≤ 308 then x.mul? (Binary64.pow10 power.toNat)
    else if x.isZero then some x else none
  else if -308 ≤ power then some (x.div (Binary64.pow10 (-power).toNat))
  else if x.isZero then some x
  else scale? (x.div (Binary64.pow10 308)) (power + 308)
termination_by (-power).toNat

/-- A number that has been read, unless it is too large. -/
def realBefore (rest : List Char) : Option Binary64 → Reading Number
  | some x => .ok (.real x, rest)
  | none => .error (.here .numberOutOfRange rest)

/-- The number with a significand and a power of ten. -/
def readReal (negative : Bool) (significand : Nat) (power : Int) (rest : List Char) :
    Reading Number :=
  realBefore rest ((Binary64.ofNat? negative significand).bind (scale? · power))

/-- Reads the digits of an exponent after the first one. -/
def readExponentDigits (negative positive : Bool) (significand : Nat) (start : Int) (value : Nat) :
    List Char → Reading Number
  | [] => readReal negative significand (if positive then start + value else start - value) []
  | c :: cs =>
    match digit? c with
    | some d =>
      if 0x80000000 ≤ value * 10 + d then
        if significand ≠ 0 ∧ positive then .error (.here .numberOutOfRange cs)
        else .ok (.real (.zero negative), skipDigits cs)
      else readExponentDigits negative positive significand start (value * 10 + d) cs
    | none =>
      readReal negative significand (if positive then start + value else start - value) (c :: cs)

def readUnsignedExponent (negative positive : Bool) (significand : Nat) (start : Int) :
    List Char → Reading Number
  | [] => .error (.here .endInValue [])
  | c :: cs =>
    match digit? c with
    | some d => readExponentDigits negative positive significand start d cs
    | none => .error (.next .invalidNumber (c :: cs))

def readExponent (negative : Bool) (significand : Nat) (start : Int) : List Char → Reading Number
  | '+' :: cs => readUnsignedExponent negative true significand start cs
  | '-' :: cs => readUnsignedExponent negative false significand start cs
  | cs => readUnsignedExponent negative true significand start cs

/-- Reads what may follow the digits of a number that is not whole. -/
def readTail (negative : Bool) (significand : Nat) (power : Int) : List Char → Reading Number
  | 'e' :: cs => readExponent negative significand power cs
  | 'E' :: cs => readExponent negative significand power cs
  | cs => readReal negative significand power cs

/-- Reads the digits after the point.  Those that do not fit into 64 bits are passed over. -/
def readFraction (negative : Bool) (significand : Nat) (power : Int) (started : Bool) :
    List Char → Reading Number
  | [] =>
    if started then readTail negative significand power [] else .error (.next .endInValue [])
  | c :: cs =>
    match digit? c with
    | some d =>
      if 0x10000000000000000 ≤ significand * 10 + d then
        readTail negative significand power (skipDigits (c :: cs))
      else readFraction negative (significand * 10 + d) (power - 1) true cs
    | none =>
      if started then readTail negative significand power (c :: cs)
      else .error (.next .invalidNumber (c :: cs))

/-- Reads the whole digits that do not fit into 64 bits. -/
def readLong (negative : Bool) (significand : Nat) (power : Int) : List Char → Reading Number
  | [] => readReal negative significand power []
  | '.' :: cs => readFraction negative significand power false cs
  | c :: cs =>
    if (digit? c).isSome then readLong negative significand (power + 1) cs
    else readTail negative significand power (c :: cs)

/-- A whole number, or the nearest other number when it does not fit or is a negative zero. -/
def readWhole (negative : Bool) (significand : Nat) (rest : List Char) : Reading Number :=
  if negative then
    if h : 0 < significand ∧ significand ≤ 0x8000000000000000 then
      .ok (.integer (-(significand : Int)) (by omega), rest)
    else readReal true significand 0 rest
  else if h : significand < 0x10000000000000000 then .ok (.integer significand (by omega), rest)
  else readReal false significand 0 rest

/-- Reads what may follow the digits of a whole number. -/
def readAfterWhole (negative : Bool) (significand : Nat) : List Char → Reading Number
  | '.' :: cs => readFraction negative significand 0 false cs
  | 'e' :: cs => readExponent negative significand 0 cs
  | 'E' :: cs => readExponent negative significand 0 cs
  | cs => readWhole negative significand cs

/-- Reads the digits of a whole number after the first one. -/
def readDigits (negative : Bool) (significand : Nat) : List Char → Reading Number
  | [] => readAfterWhole negative significand []
  | c :: cs =>
    match digit? c with
    | some d =>
      if 0x10000000000000000 ≤ significand * 10 + d then readLong negative significand 0 (c :: cs)
      else readDigits negative (significand * 10 + d) cs
    | none => readAfterWhole negative significand (c :: cs)

/-- Reads a number after its sign.  Only a lone zero starts with a zero. -/
def readMagnitude (negative : Bool) : List Char → Reading Number
  | [] => .error (.here .endInValue [])
  | '0' :: cs =>
    match cs with
    | [] => readAfterWhole negative 0 []
    | c :: _ =>
      if (digit? c).isSome then .error (.next .invalidNumber cs) else readAfterWhole negative 0 cs
  | c :: cs =>
    match digit? c with
    | some d => readDigits negative d cs
    | none => .error (.next .invalidNumber (c :: cs))

def startsNumber (c : Char) : Bool := c == '-' || (digit? c).isSome

def readNumber : List Char → Reading Number
  | '-' :: cs => readMagnitude true cs
  | cs => readMagnitude false cs

def skipExponent (cs : List Char) : Except Fault (List Char) :=
  let cs := match cs with
    | '+' :: cs => cs
    | '-' :: cs => cs
    | cs => cs
  match cs with
  | [] => .error (.here .invalidNumber [])
  | c :: rest =>
    if (digit? c).isSome then .ok (skipDigits rest) else .error (.next .invalidNumber (c :: rest))

/-- Passes over the digits after the point and what may follow. -/
def skipFraction (cs : List Char) : Except Fault (List Char) :=
  match cs with
  | [] => .error (.next .invalidNumber [])
  | c :: _ =>
    if (digit? c).isSome then
      match skipDigits cs with
      | 'e' :: rest => skipExponent rest
      | 'E' :: rest => skipExponent rest
      | rest => .ok rest
    else .error (.next .invalidNumber cs)

/-- Passes over what may follow the whole digits of a number. -/
def skipAfterWhole : List Char → Except Fault (List Char)
  | '.' :: cs => skipFraction cs
  | 'e' :: cs => skipExponent cs
  | 'E' :: cs => skipExponent cs
  | cs => .ok cs

/-- Passes over a number after its sign, of any size. -/
def skipMagnitude : List Char → Except Fault (List Char)
  | [] => .error (.here .invalidNumber [])
  | '0' :: cs =>
    match cs with
    | [] => .ok []
    | c :: _ => if (digit? c).isSome then .error (.next .invalidNumber cs) else skipAfterWhole cs
  | c :: cs =>
    if (digit? c).isSome then skipAfterWhole (skipDigits cs)
    else .error (.next .invalidNumber (c :: cs))

/-! ## Arrays and objects -/

/-- Goes on to the next element of an array, if there is one. -/
def nextElement (first : Bool) (cs : List Char) : Except Fault (Bool × List Char) :=
  match skipBlank cs with
  | [] => .error (.next .endInList [])
  | ']' :: cs => .ok (false, ']' :: cs)
  | c :: cs =>
    if first then .ok (true, c :: cs)
    else if c = ',' then
      match skipBlank cs with
      | [] => .error (.next .endInValue [])
      | ']' :: cs => .error (.next .trailingComma (']' :: cs))
      | cs => .ok (true, cs)
    else .error (.next .expectedListEnd (c :: cs))

/-- Goes on to the name of the next member of an object and reads it, if there is one. -/
def nextName (first : Bool) (cs : List Char) : Except Fault (Option String × List Char) :=
  match skipBlank cs with
  | [] => .error (.next .endInObject [])
  | '}' :: cs => .ok (none, '}' :: cs)
  | c :: cs =>
    if first then
      if c = '"' then (readChars [] cs).map fun (s, cs) => (some s, cs)
      else .error (.next .keyNotString (c :: cs))
    else if c = ',' then
      match skipBlank cs with
      | [] => .error (.next .endInValue [])
      | '"' :: cs => (readChars [] cs).map fun (s, cs) => (some s, cs)
      | '}' :: cs => .error (.next .trailingComma ('}' :: cs))
      | cs => .error (.next .keyNotString cs)
    else .error (.next .expectedObjectEnd (c :: cs))

def readColon (cs : List Char) : Except Fault (List Char) :=
  match skipBlank cs with
  | [] => .error (.next .endInObject [])
  | ':' :: cs => .ok cs
  | cs => .error (.next .expectedColon cs)

def endArray (cs : List Char) : Except Fault (List Char) :=
  match skipBlank cs with
  | [] => .error (.next .endInList [])
  | ']' :: cs => .ok cs
  | ',' :: cs =>
    match skipBlank cs with
    | ']' :: cs => .error (.next .trailingComma (']' :: cs))
    | cs => .error (.next .trailingCharacters cs)
  | cs => .error (.next .trailingCharacters cs)

def endObject (cs : List Char) : Except Fault (List Char) :=
  match skipBlank cs with
  | [] => .error (.next .endInObject [])
  | '}' :: cs => .ok cs
  | ',' :: cs => .error (.next .trailingComma (',' :: cs))
  | cs => .error (.next .trailingCharacters cs)

/-- Where reading stands when it looks for the end of an array and may not find it. -/
def towardArrayEnd (cs : List Char) : List Char :=
  match skipBlank cs with
  | ']' :: cs => cs
  | ',' :: cs => skipBlank cs
  | cs => cs

/-- Where reading stands when it looks for the end of an object and may not find it. -/
def towardObjectEnd (cs : List Char) : List Char :=
  match skipBlank cs with
  | '}' :: cs => cs
  | cs => cs

/-- Ends an array.  A fault without a place gets its place here. -/
def closeArray {α : Type} : Reading α → Reading α
  | .ok (a, cs) => (endArray cs).map fun cs => (a, cs)
  | .error ⟨cause, .pending rest⟩ => .error (.data cause (towardArrayEnd rest))
  | .error f => .error f

/-- Ends an object.  A fault without a place gets its place here. -/
def closeObject {α : Type} : Reading α → Reading α
  | .ok (a, cs) => (endObject cs).map fun cs => (a, cs)
  | .error ⟨cause, .pending rest⟩ => .error (.data cause (towardObjectEnd rest))
  | .error f => .error f

/-- Reads the elements of an array up to its closing bracket.  `fuel` is more than their number. -/
def readElements {α : Type} (read : List Char → Reading α) (fuel : Nat) (first : Bool)
    (done : List α) (cs : List Char) : Reading (List α) :=
  match fuel with
  | 0 => .ok (done.reverse, cs)
  | fuel + 1 =>
    match nextElement first cs with
    | .error f => .error f
    | .ok (false, cs) => .ok (done.reverse, cs)
    | .ok (true, cs) =>
      match read cs with
      | .error f => .error f
      | .ok (a, cs) => readElements read fuel false (a :: done) cs

/-- Reads the members of an object up to its closing bracket.  `member` reads what follows a name
and adds it to what is known.  `fuel` is more than their number. -/
def readMembers {σ : Type} (member : String → σ → List Char → Reading σ) (fuel : Nat) (first : Bool)
    (known : σ) (cs : List Char) : Reading σ :=
  match fuel with
  | 0 => .ok (known, cs)
  | fuel + 1 =>
    match nextName first cs with
    | .error f => .error f
    | .ok (none, cs) => .ok (known, cs)
    | .ok (some name, cs) =>
      match member name known cs with
      | .error f => .error f
      | .ok (known, cs) => readMembers member fuel false known cs

def afterColon {α : Type} (read : List Char → Reading α) (cs : List Char) : Reading α :=
  match readColon cs with
  | .error f => .error f
  | .ok cs => read cs

/-- Reads a value, objects and arrays through `bracket`, which gets the text from the bracket on. -/
def readDatum (bracket : List Char → Reading Json) (cs : List Char) : Reading Json :=
  match skipBlank cs with
  | [] => .error (.next .endInValue [])
  | 'n' :: cs => (readWord ['u', 'l', 'l'] cs).map fun cs => (.null, cs)
  | 't' :: cs => (readWord ['r', 'u', 'e'] cs).map fun cs => (.bool true, cs)
  | 'f' :: cs => (readWord ['a', 'l', 's', 'e'] cs).map fun cs => (.bool false, cs)
  | '"' :: cs => (readChars [] cs).map fun (s, cs) => (.string s, cs)
  | '[' :: cs => bracket ('[' :: cs)
  | '{' :: cs => bracket ('{' :: cs)
  | c :: cs =>
    if startsNumber c then (readNumber (c :: cs)).map fun (n, cs) => (.number n, cs)
    else .error (.next .expectedValue (c :: cs))

/-- Reads what follows a name and puts the member before those that are known. -/
def readMemberBefore (read : List Char → Reading Json) (name : String)
    (known : List (String × Json)) (cs : List Char) : Reading (List (String × Json)) :=
  (afterColon read cs).map fun (v, cs) => ((name, v) :: known, cs)

/-- Reads the members of an object in order, repeated names included. -/
def readAllMembers (read : List Char → Reading Json) (cs : List Char) :
    Reading (List (String × Json)) :=
  (readMembers (readMemberBefore read) (cs.length + 1) true [] cs).map
    fun (known, cs) => (known.reverse, cs)

/-- Reads any value.  Objects and arrays may be nested `levels` deep. -/
def readValue : Nat → List Char → Reading Json
  | 0 => readDatum fun cs => .error (.next .tooDeep cs)
  | levels + 1 =>
    readDatum fun cs =>
      match cs with
      | '[' :: cs =>
        (closeArray (readElements (readValue levels) (cs.length + 1) true [] cs)).map
          fun (xs, cs) => (.array xs, cs)
      | cs =>
        (closeObject (readAllMembers (readValue levels) (cs.drop 1))).map
          fun (ms, cs) => (.object ms, cs)

/-! ## Passing over values -/

inductive Frame where
  | list
  | object
  deriving DecidableEq, Repr

def Frame.expectedEnd : Frame → Malformation
  | .list => .expectedListEnd
  | .object => .expectedObjectEnd

def Frame.endInside : Frame → Malformation
  | .list => .endInList
  | .object => .endInObject

def Frame.closing : Frame → Char
  | .list => ']'
  | .object => '}'

def skipName (cs : List Char) : Except Fault (List Char) :=
  match skipBlank cs with
  | [] => .error (.next .endInObject [])
  | '"' :: cs =>
    match skipChars cs with
    | .error f => .error f
    | .ok cs => readColon cs
  | cs => .error (.next .keyNotString cs)

mutual

/-- Passes over a value inside `frames`, and then to the end of them all. -/
def skipInside (fuel : Nat) (frames : List Frame) (cs : List Char) : Except Fault (List Char) :=
  match fuel with
  | 0 => .ok cs
  | fuel + 1 =>
    let goOn := fun read => match read with
      | .error f => .error f
      | .ok rest => skipAfter fuel frames true rest
    match skipBlank cs with
    | [] => .error (.next .endInValue [])
    | 'n' :: cs => goOn (readWord ['u', 'l', 'l'] cs)
    | 't' :: cs => goOn (readWord ['r', 'u', 'e'] cs)
    | 'f' :: cs => goOn (readWord ['a', 'l', 's', 'e'] cs)
    | '"' :: cs => goOn (skipChars cs)
    | '-' :: cs => goOn (skipMagnitude cs)
    | '[' :: cs => skipAfter fuel (.list :: frames) false cs
    | '{' :: cs => skipAfter fuel (.object :: frames) false cs
    | c :: cs =>
      if (digit? c).isSome then goOn (skipMagnitude (c :: cs))
      else .error (.next .expectedValue (c :: cs))

/-- Goes on after a value, or after an opening bracket, inside `frames`. -/
def skipAfter (fuel : Nat) (frames : List Frame) (comma : Bool) (cs : List Char) :
    Except Fault (List Char) :=
  match fuel with
  | 0 => .ok cs
  | fuel + 1 =>
    match frames with
    | [] => .ok cs
    | frame :: outer =>
      let value := fun cs => match frame with
        | .list => skipInside fuel frames cs
        | .object => match skipName cs with
          | .error f => .error f
          | .ok cs => skipInside fuel frames cs
      match skipBlank cs with
      | [] => .error (.next frame.endInside [])
      | c :: rest =>
        if comma ∧ c = ',' then value rest
        else if c = frame.closing then skipAfter fuel outer true rest
        else if comma then .error (.next frame.expectedEnd (c :: rest))
        else value (c :: rest)

end

def skipValue (cs : List Char) : Except Fault (List Char) :=
  skipInside (2 * cs.length + 2) [] cs

def readAll {α : Type} (read : List Char → Reading α) (text : String) : Except Refusal α :=
  let cs := text.toList
  match read cs with
  | .error f => .error (f.refusal cs)
  | .ok (a, rest) =>
    match skipBlank rest with
    | [] => .ok a
    | rest => .error ((Fault.next .trailingCharacters rest).refusal cs)

def parse (text : String) : Except Refusal Json := readAll (readValue maxLevels) text

end Json
end ResourceSearch
