import ResourceSearch.Query.Form
import ResourceSearch.Text.Percent

/-!
Links to the search page.  A link carries the search text and the kinds of related resources that
are shown at once.  The text travels percent coded inside a small JSON object, the kinds as a list
with commas.  Reading goes from parameter to parameter; a later one overrides an earlier one, and
one that cannot be read is passed over.
-/

namespace ResourceSearch

structure Link where
  /-- The search text as it was typed. -/
  text : String := ""
  /-- The kinds of related resources that are shown when the page opens. -/
  related : List String := []
  deriving DecidableEq, Repr, Inhabited

inductive View where
  | savedSearches
  | results
  deriving DecidableEq, Repr, Inhabited

namespace Link

open Text

/-- There are results only for a text that says what to search. -/
def view (l : Link) : View :=
  if l.text = "" ∨ (Query.compile l.text).isEmpty then .savedSearches else .results

/-- The parameter for the search text, unless the text is empty. -/
def textParameter (text : String) : List (List Char) :=
  if text = "" then []
  else
    ["filters=".toList ++ "\x7b\"textsearch\":\"".toList ++ Percent.encode text.toList ++
      "\"\x7d".toList]

/-- The parameter for the related kinds, unless there are none. -/
def relatedParameter (related : List String) : List (List Char) :=
  if related = [] then []
  else ["showrelated=".toList ++ join ',' (related.map fun kind => Percent.encode kind.toList)]

/-- The query string of a link.  It is empty when the link says nothing. -/
def encode (l : Link) : String :=
  match textParameter l.text ++ relatedParameter l.related with
  | [] => ""
  | parameters => String.ofList ('?' :: join '&' parameters)

/-- How the JSON object around the search text is read. -/
def textRecord : Json.Record (Option String) String where
  title := "struct FiltersParam"
  fields := [.of "textsearch" id (fun _ v => some v) Json.Decoder.string true]
  start := none
  finish d _ := .ok (d.getD "")

/-- The search text in a JSON object, still percent coded. -/
def objectText? (value : String) : Option String := (textRecord.decoder.parse value).toOption

/-- The search text in a parameter's value, which may be percent coded as a whole. -/
def parameterText? (value : List Char) : Option String :=
  (objectText? (String.ofList value)).or ((Percent.decode? value).bind objectText?)

def parameterKinds (value : List Char) : List String :=
  ((split ',' value).filter (· ≠ [])).map Percent.decode

def readParameter (l : Link) (parameter : List Char) : Link :=
  match cut '=' parameter with
  | none => l
  | some (name, value) =>
    if name = "filters".toList then
      match parameterText? value with
      | some text => { l with text := Percent.decode text.toList }
      | none => l
    else if name = "showrelated".toList then { l with related := parameterKinds value }
    else l

/-- The part of an address that holds the parameters: what stands after its first question mark, or
all of it, up to the fragment. -/
def parameterPart (address : List Char) : List Char :=
  let address := address.takeWhile (· ≠ '#')
  match cut '?' address with
  | some (_, parameters) => parameters
  | none => address

/-- What an address, a path or a query string says. -/
def decode (address : String) : Link :=
  (split '&' (parameterPart address.toList)).foldl readParameter {}

def members (l : Link) : List (String × Json) :=
  [("raw_query", .string l.text), ("pre_selected_related", .strings l.related)]

def toJson (l : Link) : Json := .object l.members

structure Draft where
  text : Option String := none
  related : Option (List String) := none

def record : Json.Record Draft Link where
  title := "struct SearchUrlState"
  fields := [
    .of "raw_query" Draft.text (fun d v => { d with text := some v }) Json.Decoder.string,
    .of "pre_selected_related" Draft.related (fun d v => { d with related := some v })
      (.list .string)]
  start := {}
  finish d _ := do
    return {
      text := ← Json.required "raw_query" d.text
      related := ← Json.required "pre_selected_related" d.related }

def decoder : Json.Decoder Link := record.decoder

end Link

namespace View

def names : List (String × View) := [("saved_searches", .savedSearches), ("results", .results)]

def name : View → String
  | .savedSearches => "saved_searches"
  | .results => "results"

def decoder : Json.Decoder View := .choice names

end View
end ResourceSearch
