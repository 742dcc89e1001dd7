import ResourceSearch.Json.Reader

/-!
Reading JSON into the types of the domain.  A decoder reads a type in two ways: from text, where
every fault has a place and the first one from the left is reported, and from a value.  Where both
succeed they agree.  A record accepts an object with its fields in any order and usually an array of
them in theirs; a tagged union is read as a whole before the rest of it is decoded.
-/

namespace ResourceSearch
namespace Json

/-- Where a value to decode comes from.  Some messages differ. -/
inductive Origin where
  /-- It is a value on its own. -/
  | given
  /-- It is part of a text that had to be read before it could be decoded. -/
  | buffered
  deriving DecidableEq, Repr

/-- The two ways to read a type. -/
structure Decoder (α : Type) where
  /-- Reads from text, with objects and arrays nested so many levels deep. -/
  read : Nat → List Char → Reading α
  decode : Origin → Json → Except Cause α

/-- A fault at a datum that is not what was wanted.  A scalar is read first, and its end is the
place of the fault. -/
def unwanted (wanted : String) (cs : List Char) : Fault :=
  match cs with
  | '[' :: _ => .data (.invalidType .sequence wanted) cs
  | '{' :: _ => .data (.invalidType .map wanted) cs
  | cs =>
    match readDatum (fun cs => .error (.next .expectedValue cs)) cs with
    | .ok (j, rest) => .data (.invalidType (.of j) wanted) rest
    | .error f => f

/-- Reads a datum that starts with `start`, and refuses any other. -/
def readFrom {α : Type} (wanted : String) (start : Char → Bool) (read : List Char → Reading α)
    (cs : List Char) : Reading α :=
  match skipBlank cs with
  | [] => .error (.next .endInValue [])
  | c :: cs => if start c then read (c :: cs) else .error (unwanted wanted (c :: cs))

/-- Locates a fault of a datum after the datum. -/
def check {α : Type} (rest : List Char) : Except Cause α → Reading α
  | .ok a => .ok (a, rest)
  | .error cause => .error (.data cause rest)

/-- Reads a string for which there is a name of its own. -/
def readText (wanted : String) (cs : List Char) : Reading String :=
  readFrom wanted (· == '"') (fun cs => readChars [] (cs.drop 1)) cs

namespace Decoder

def string : Decoder String where
  read _ := readText "a string"
  decode _
    | .string s => .ok s
    | j => .error (.invalidType (.of j) "a string")

def bool : Decoder Bool where
  read _ := readFrom "a boolean" (fun c => c == 't' || c == 'f') fun cs =>
    match cs with
    | 't' :: cs => (readWord ['r', 'u', 'e'] cs).map fun cs => (true, cs)
    | cs => (readWord ['a', 'l', 's', 'e'] (cs.drop 1)).map fun cs => (false, cs)
  decode _
    | .bool b => .ok b
    | j => .error (.invalidType (.of j) "a boolean")

/-- The count that a number is, if it is below a limit. -/
def countOf (limit : Nat) (name : String) : Number → Except Cause Nat
  | .integer n h =>
    if 0 ≤ n ∧ n < limit then .ok n.toNat else .error (.invalidValue (.number (.integer n h)) name)
  | .real x => .error (.invalidType (.number (.real x)) name)

/-- A count below a limit, under the name that the limit has. -/
def count (limit : Nat) (name : String) : Decoder Nat where
  read _ := readFrom name startsNumber fun cs =>
    match readNumber cs with
    | .error f => .error f
    | .ok (n, rest) => check rest (countOf limit name n)
  decode _
    | .number n => countOf limit name n
    | j => .error (.invalidType (.of j) name)

def optional {α : Type} (d : Decoder α) : Decoder (Option α) where
  read levels cs :=
    match skipBlank cs with
    | 'n' :: cs => (readWord ['u', 'l', 'l'] cs).map fun cs => (none, cs)
    | cs => (d.read levels cs).map fun (a, cs) => (some a, cs)
  decode origin
    | .null => .ok none
    | j => (d.decode origin j).map some

def map {α β : Type} (f : α → β) (d : Decoder α) : Decoder β where
  read levels cs := (d.read levels cs).map fun (a, cs) => (f a, cs)
  decode origin j := (d.decode origin j).map f

/-- The fault of an array with more elements than are wanted. -/
def tooLong (origin : Origin) (length wanted : Nat) : Cause :=
  match origin with
  | .given => .invalidLength length "fewer elements in array"
  | .buffered =>
    .invalidLength length
      (if wanted = 1 then "1 element in sequence" else toString wanted ++ " elements in sequence")

def list {α : Type} (d : Decoder α) : Decoder (List α) where
  read levels := readFrom "a sequence" (· == '[') fun cs =>
    match levels with
    | 0 => .error (.next .tooDeep cs)
    | levels + 1 => closeArray (readElements (d.read levels) cs.length true [] (cs.drop 1))
  decode origin
    | .array xs => xs.mapM (d.decode origin)
    | j => .error (.invalidType (.of j) "a sequence")

/-! ## Names with a fixed meaning -/

def meaning {α : Type} (known : List (String × α)) (name : String) : Except Cause α :=
  match known.lookup name with
  | some a => .ok a
  | none => .error (.unknownVariant name (known.map (·.1)))

def readName {α : Type} (known : List (String × α)) (cs : List Char) : Reading α :=
  match readText "variant identifier" cs with
  | .error f => .error f
  | .ok (name, rest) => check rest (meaning known name)

def readNull (cs : List Char) : Except Fault (List Char) :=
  let read (cs : List Char) := (readWord ['u', 'l', 'l'] (cs.drop 1)).map fun cs => ((), cs)
  (readFrom "unit" (· == 'n') read cs).map (·.2)

/-- Reads one of some names as the only key of an object, after its opening bracket. -/
def readKey {α : Type} (known : List (String × α)) (cs : List Char) : Reading α :=
  match skipBlank cs with
  | [] => .error (.next .endInObject [])
  | '"' :: cs => readName known ('"' :: cs)
  | '}' :: cs => .error (.next .expectedValue ('}' :: cs))
  | cs => .error (.next .keyNotString cs)

/-- One of some names, as a string or as an object with that name and `null`. -/
def choice {α : Type} (known : List (String × α)) : Decoder α where
  read levels cs :=
    match skipBlank cs with
    | [] => .error (.next .endInValue [])
    | '"' :: cs => readName known ('"' :: cs)
    | '{' :: cs =>
      match levels with
      | 0 => .error (.next .tooDeep ('{' :: cs))
      | _ + 1 =>
        match readKey known cs with
        | .error f => .error f
        | .ok (a, cs) =>
          match (readColon cs).bind readNull with
          | .error f => .error f
          | .ok cs =>
            match skipBlank cs with
            | [] => .error (.here .endInObject [])
            | '}' :: cs => .ok (a, cs)
            | cs => .error (.here .expectedValue cs)
    | cs => .error (.next .expectedValue cs)
  decode _
    | .string s => meaning known s
    | .object [(name, v)] =>
      match meaning known name, v with
      | .ok a, .null => .ok a
      | .ok _, v => .error (.invalidType (.of v) "unit")
      | .error cause, _ => .error cause
    | .object _ => .error (.invalidValue .map "map with a single key")
    | j => .error (.invalidType (.of j) "string or map")

end Decoder

/-! ## Records -/

/-- One field of a record that is being read.  `σ` is what is known of the record so far. -/
structure Field (σ : Type) where
  name : String
  /-- Other names under which the field is read. -/
  aliases : List String := []
  isKnown : σ → Bool
  read : Nat → σ → List Char → Reading σ
  decode : Origin → σ → Json → Except Cause σ
  /-- Whether an array of the fields may stop before this one. -/
  mayLack : Bool

/-- A field that is read by a decoder, given how to look it up and how to set it. -/
def Field.of {σ β : Type} (name : String) (get : σ → Option β) (set : σ → β → σ) (d : Decoder β)
    (mayLack : Bool := false) (aliases : List String := []) : Field σ where
  name
  aliases
  isKnown s := (get s).isSome
  read levels s cs := (d.read levels cs).map fun (b, cs) => (set s b, cs)
  decode origin s j := (d.decode origin j).map (set s)
  mayLack

def required {β : Type} (name : String) : Option β → Except Cause β
  | some b => .ok b
  | none => .error (.missingField name)

/-- How a record is read.  Members with other names are either passed over or kept. -/
structure Record (σ α : Type) where
  /-- What messages call the record. -/
  title : String
  fields : List (Field σ)
  start : σ
  /-- Makes the record from what is known of it and the members that were kept. -/
  finish : σ → List (String × Json) → Except Cause α
  keepsOthers : Bool := false

namespace Record

variable {σ α : Type}

def field? (r : Record σ α) (name : String) : Option (Field σ) :=
  r.fields.find? fun f => f.name == name || f.aliases.contains name

def tooShort (r : Record σ α) (length : Nat) : Cause :=
  .invalidLength length
    (r.title ++ " with " ++
      (if r.fields.length = 1 then "1 element" else toString r.fields.length ++ " elements"))

/-- Reads what follows the name of a member.  Kept members are collected backwards. -/
def readMember (r : Record σ α) (levels : Nat) (name : String) (known : σ × List (String × Json))
    (cs : List Char) : Reading (σ × List (String × Json)) :=
  match r.field? name with
  | some f =>
    if f.isKnown known.1 then .error (.outer (.duplicateField f.name) cs)
    else (afterColon (f.read levels known.1) cs).map fun (s, cs) => ((s, known.2), cs)
  | none =>
    if r.keepsOthers then
      (afterColon (readValue levels) cs).map fun (v, cs) => ((known.1, (name, v) :: known.2), cs)
    else
      match (readColon cs).bind skipValue with
      | .error f => .error f
      | .ok cs => .ok (known, cs)

/-- Reads a record from an object, after its opening bracket. -/
def readObject (r : Record σ α) (levels : Nat) (cs : List Char) : Reading α :=
  closeObject <|
    match readMembers (r.readMember levels) (cs.length + 1) true (r.start, []) cs with
    | .error f => .error f
    | .ok ((s, others), rest) =>
      match r.finish s others.reverse with
      | .ok a => .ok (a, rest)
      | .error cause => .error (.outer cause rest)

/-- Reads the fields of a record in order.  `index` of them are known. -/
def readFields (r : Record σ α) (levels : Nat) (index : Nat) (s : σ) :
    List (Field σ) → List Char → Reading σ
  | [], cs => .ok (s, cs)
  | f :: fs, cs =>
    match nextElement (index == 0) cs with
    | .error fault => .error fault
    | .ok (true, cs) =>
      match f.read levels s cs with
      | .error fault => .error fault
      | .ok (s, cs) => readFields r levels (index + 1) s fs cs
    | .ok (false, cs) =>
      if f.mayLack then readFields r levels index s fs cs
      else .error (.outer (r.tooShort index) cs)

/-- Reads a record from an array, after its opening bracket. -/
def readArray (r : Record σ α) (levels : Nat) (cs : List Char) : Reading α :=
  closeArray <|
    match r.readFields levels 0 r.start r.fields cs with
    | .error f => .error f
    | .ok (s, rest) =>
      match r.finish s [] with
      | .ok a => .ok (a, rest)
      | .error cause => .error (.outer cause rest)

/-- Decodes the members of an object one after the other. -/
def decodeMembers (r : Record σ α) (origin : Origin) (s : σ) (others : List (String × Json)) :
    List (String × Json) → Except Cause α
  | [] => r.finish s others.reverse
  | (name, v) :: ms =>
    match r.field? name with
    | some f =>
      if f.isKnown s then .error (.duplicateField f.name)
      else
        match f.decode origin s v with
        | .error cause => .error cause
        | .ok s => decodeMembers r origin s others ms
    | none => decodeMembers r origin s (if r.keepsOthers then (name, v) :: others else others) ms

/-- Decodes the fields of a record in order from the elements of an array. -/
def decodeFields (r : Record σ α) (origin : Origin) (length index : Nat) (s : σ) :
    List (Field σ) → List Json → Except Cause α
  | [], [] => r.finish s []
  | [], _ :: _ =>
    match r.finish s [] with
    | .error cause => .error cause
    | .ok _ => .error (Decoder.tooLong origin length r.fields.length)
  | f :: fs, [] =>
    if f.mayLack then decodeFields r origin length index s fs []
    else .error (r.tooShort index)
  | f :: fs, v :: vs =>
    match f.decode origin s v with
    | .error cause => .error cause
    | .ok s => decodeFields r origin length (index + 1) s fs vs

def decodeObject (r : Record σ α) (origin : Origin) (ms : List (String × Json)) : Except Cause α :=
  r.decodeMembers origin r.start [] ms

def decodeArray (r : Record σ α) (origin : Origin) (xs : List Json) : Except Cause α :=
  r.decodeFields origin xs.length 0 r.start r.fields xs

/-- Reads a record.  One that keeps other members is never an array. -/
def decoder (r : Record σ α) : Decoder α where
  read levels :=
    readFrom r.title (fun c => c == '{' || (c == '[' && !r.keepsOthers)) fun cs =>
      match levels, cs with
      | 0, cs => .error (.next .tooDeep cs)
      | levels + 1, '[' :: cs => r.readArray levels cs
      | levels + 1, cs => r.readObject levels (cs.drop 1)
  decode origin
    | .object ms => r.decodeObject origin ms
    | .array xs =>
      if r.keepsOthers then .error (.invalidType .sequence r.title) else r.decodeArray origin xs
    | j => .error (.invalidType (.of j) r.title)

end Record

/-! ## Tagged unions -/

/-- How a union is read whose variants are told apart by one member. -/
structure Tagged (α : Type) where
  /-- What messages call the union. -/
  title : String
  tag : String
  /-- The names of the variants, and how the rest of each is decoded. -/
  variants : List (String × (Json → Except Cause α))

namespace Tagged

variable {α : Type}

abbrev Rest (α : Type) := Json → Except Cause α

/-- A variant without fields.  Its object may have any members, its array none. -/
def plain (a : α) : Rest α
  | .array [] => .ok a
  | .array xs => .error (Decoder.tooLong .buffered xs.length 0)
  | _ => .ok a

def fields {σ : Type} (r : Record σ α) : Rest α
  | .array xs => r.decodeArray .buffered xs
  | .object ms => r.decodeObject .buffered ms
  | j => .error (.invalidType (.of j) r.title)

def readMember (t : Tagged α) (levels : Nat) (name : String)
    (known : Option (Rest α) × List (String × Json)) (cs : List Char) :
    Reading (Option (Rest α) × List (String × Json)) :=
  if name = t.tag then
    if known.1.isSome then .error (.outer (.duplicateField t.tag) cs)
    else
      (afterColon (Decoder.readName t.variants) cs).map fun (rest, cs) => ((some rest, known.2), cs)
  else (afterColon (readValue levels) cs).map fun (v, cs) => ((known.1, (name, v) :: known.2), cs)

/-- Reads a union from an object, after its opening bracket. -/
def readObject (t : Tagged α) (levels : Nat) (cs : List Char) : Reading (Rest α × Json) :=
  closeObject <|
    match readMembers (t.readMember levels) (cs.length + 1) true (none, []) cs with
    | .error f => .error f
    | .ok ((some rest, others), cs) => .ok ((rest, .object others.reverse), cs)
    | .ok ((none, _), cs) => .error (.outer (.missingField t.tag) cs)

/-- Reads a union from an array, after its opening bracket. -/
def readArray (t : Tagged α) (levels : Nat) (cs : List Char) : Reading (Rest α × Json) :=
  closeArray <|
    match nextElement true cs with
    | .error f => .error f
    | .ok (false, cs) => .error (.outer (.missingField t.tag) cs)
    | .ok (true, cs) =>
      match Decoder.readName t.variants cs with
      | .error f => .error f
      | .ok (rest, cs) =>
        (readElements (readValue levels) (cs.length + 1) false [] cs).map
          fun (xs, cs) => ((rest, .array xs), cs)

def decodeTag (t : Tagged α) : Json → Except Cause (Rest α)
  | .string s => Decoder.meaning t.variants s
  | j => .error (.invalidType (.of j) "variant identifier")

/-- Looks for the tag among the members of an object.  The others are collected backwards. -/
def findTag (t : Tagged α) (found : Option (Rest α)) (others : List (String × Json)) :
    List (String × Json) → Except Cause (Rest α × Json)
  | [] =>
    match found with
    | some rest => .ok (rest, .object others.reverse)
    | none => .error (.missingField t.tag)
  | (name, v) :: ms =>
    if name = t.tag then
      if found.isSome then .error (.duplicateField t.tag)
      else
        match t.decodeTag v with
        | .error cause => .error cause
        | .ok rest => findTag t (some rest) others ms
    else findTag t found ((name, v) :: others) ms

/-- Reads a tagged union.  A fault in the rest of it has no place of its own. -/
def decoder (t : Tagged α) : Decoder α where
  read levels cs :=
    let whole := readFrom t.title (fun c => c == '{' || c == '[') (fun cs =>
      match levels, cs with
      | 0, cs => .error (.next .tooDeep cs)
      | levels + 1, '[' :: cs => t.readArray levels cs
      | levels + 1, cs => t.readObject levels (cs.drop 1)) cs
    match whole with
    | .error f => .error f
    | .ok ((rest, j), cs) =>
      match rest j with
      | .ok a => .ok (a, cs)
      | .error cause => .error (.outer cause cs)
  decode _
    | .object ms =>
      match t.findTag none [] ms with
      | .ok (rest, j) => rest j
      | .error cause => .error cause
    | .array [] => .error (.missingField t.tag)
    | .array (x :: xs) =>
      match t.decodeTag x with
      | .ok rest => rest (.array xs)
      | .error cause => .error cause
    | j => .error (.invalidType (.of j) t.title)

end Tagged

namespace Decoder

def parse {α : Type} (d : Decoder α) (text : String) : Except Refusal α :=
  readAll (d.read maxLevels) text

def ofJson {α : Type} (d : Decoder α) (j : Json) : Except Refusal α :=
  match d.decode .given j with
  | .ok a => .ok a
  | .error cause => .error ⟨cause, none⟩

end Decoder
end Json
end ResourceSearch
