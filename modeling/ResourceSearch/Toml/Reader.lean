import ResourceSearch.Toml.Scalar
import ResourceSearch.Toml.Value

/-!
Reading TOML documents.  A document is a list of lines: an entry, the header of a table, or the
header of the next element of an array of tables.  A text that breaks any rule is refused as a
whole.
-/

namespace ResourceSearch
namespace Toml

/-- How deep arrays and tables in braces may be nested, and how many names a key may have. -/
def maxLevels : Nat := 79

/-! ## Keys -/

def isBare (c : Char) : Bool := c.isAlphanum || c = '_' || c = '-'

def readName : Reading String
  | [] => none
  | c :: cs =>
    if c = '"' ∨ c = '\'' then readLine (c :: cs)
    else
      let name := (c :: cs).takeWhile isBare
      if name = [] then none else some (String.ofList name, (c :: cs).drop name.length)

/-- Reads the names of a key, with dots between them. -/
def readNames : Nat → Reading (List String)
  | 0, _ => none
  | fuel + 1, cs =>
    match readName (skipBlank cs) with
    | none => none
    | some (name, cs) =>
      match skipBlank cs with
      | '.' :: cs => (readNames fuel cs).map fun (names, cs) => (name :: names, cs)
      | cs => some ([name], cs)

/-- Reads a key: the names before the last one, and the last one. -/
def readKey : Reading (List String × String) := fun cs =>
  match readNames maxLevels cs with
  | none => none
  | some (names, cs) =>
    match names.getLast? with
    | none => none
    | some last => some ((names.dropLast, last), cs)

/-! ## Values -/

/-- Reads the elements of an array up to its closing bracket.  The elements read are collected
backwards. -/
def readElements (element : Reading Value) : Nat → List Value → Reading Value
  | 0, _, _ => none
  | fuel + 1, read, cs =>
    match skipLines false cs with
    | none => none
    | some (']' :: cs) => some (.array read.reverse, cs)
    | some cs =>
      match element cs with
      | none => none
      | some (v, cs) =>
        match skipLines false cs with
        | some (',' :: cs) => readElements element fuel (v :: read) cs
        | some (']' :: cs) => some (.array (v :: read).reverse, cs)
        | _ => none

/-- Reads the entries of a table in braces, up to the closing brace. -/
def readPairs (element : Reading Value) : Nat → Entries → Reading Value
  | 0, _, _ => none
  | fuel + 1, es, cs =>
    match readKey cs with
    | none => none
    | some ((path, key), cs) =>
      match (passChar '=' cs).bind fun cs => element (skipBlank cs) with
      | none => none
      | some (v, cs) =>
        match addEntry path key v es with
        | none => none
        | some es =>
          match skipBlank cs with
          | ',' :: cs => readPairs element fuel es cs
          | '}' :: cs => some (.table .inline es, cs)
          | _ => none

/-- Reads a value that is no array and no table. -/
def readScalar : Reading Value := fun cs =>
  match cs with
  | [] => none
  | c :: rest =>
    if c = '"' ∨ c = '\'' then (readString cs).map fun (s, cs) => (.string s, cs)
    else if "true".toList.isPrefixOf cs then some (.bool true, cs.drop 4)
    else if "false".toList.isPrefixOf cs then some (.bool false, cs.drop 5)
    else
      let spelling (after : List Char) := String.ofList (cs.take (1 + rest.length - after.length))
      match passMoment cs with
      | some after => some (.moment (spelling after), after)
      | none => (passNumber cs).map fun after => (.number (spelling after), after)

/-- Reads a value, with arrays and tables nested so many levels deep. -/
def readValue : Nat → Reading Value
  | 0, cs =>
    match cs with
    | '[' :: _ => none
    | '{' :: _ => none
    | cs => readScalar cs
  | levels + 1, cs =>
    match cs with
    | '[' :: cs => readElements (readValue levels) (cs.length + 1) [] cs
    | '{' :: cs =>
      match skipBlank cs with
      | '}' :: cs => some (.table .inline [], cs)
      | cs => readPairs (readValue levels) (cs.length + 1) [] cs
    | cs => readScalar cs

/-! ## Documents -/

/-- The tables of a document so far, and the path of the table that entries go to. -/
structure Document where
  root : Entries := []
  path : List String := []

/-- Reads the header of a table, after its opening brackets. -/
def readHeader (closing : List Char) (opening : List String → String → Entries → Option Entries)
    (d : Document) (cs : List Char) : Option (Document × List Char) :=
  match readKey cs with
  | none => none
  | some ((path, key), cs) =>
    if closing.isPrefixOf cs then
      match opening path key d.root, endLine (cs.drop closing.length) with
      | some root, some cs => some ({ root, path := path ++ [key] }, cs)
      | _, _ => none
    else none

def readEntry (d : Document) (cs : List Char) : Option (Document × List Char) :=
  match readKey cs with
  | none => none
  | some ((path, key), cs) =>
    match (passChar '=' cs).bind fun cs => readValue maxLevels (skipBlank cs) with
    | none => none
    | some (v, cs) =>
      let root? := changeAt false (fun _ es => addEntry path key v es) d.path .header d.root
      match root?, endLine cs with
      | some root, some cs => some ({ d with root }, cs)
      | _, _ => none

/-- Reads the lines of a document.  Every line passes a character. -/
def readLines : Nat → Document → List Char → Option Entries
  | 0, _, _ => none
  | fuel + 1, d, cs =>
    match skipLines false cs with
    | none => none
    | some [] => some d.root
    | some cs =>
      let line := match cs with
        | '[' :: '[' :: cs => readHeader [']', ']'] openElement d cs
        | '[' :: cs => readHeader [']'] openTable d cs
        | cs => readEntry d cs
      match line with
      | none => none
      | some (d, cs) => readLines fuel d cs

def parse? (text : String) : Option Entries :=
  let cs := text.toList
  let cs := if cs.head? = some '\uFEFF' then cs.drop 1 else cs
  readLines (cs.length + 1) {} cs

end Toml
end ResourceSearch
