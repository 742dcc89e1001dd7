import ResourceSearch.Json.Decoder
import ResourceSearch.Query.Suggestion

/-!
The JSON form of searches and of what the search bar offers.
-/

namespace ResourceSearch

open Json

namespace Filter

def toJson (f : Filter) : Json :=
  .object [("property", .string f.property), ("values", .strings f.values)]

structure Draft where
  property : Option String := none
  values : Option (List String) := none

def record : Record Draft Filter where
  title := "struct SearchFilter"
  fields := [
    .of "property" Draft.property (fun d v => { d with property := some v }) Decoder.string,
    .of "values" Draft.values (fun d v => { d with values := some v }) (.list .string)]
  start := {}
  finish d _ := do
    return { property := ← required "property" d.property, values := ← required "values" d.values }

def decoder : Decoder Filter := record.decoder

end Filter

namespace Query

def members (q : Query) : List (String × Json) :=
  [("keywords", .strings q.keywords), ("filters", .array (q.filters.map Filter.toJson))]

def toJson (q : Query) : Json := .object q.members

structure Draft where
  keywords : Option (List String) := none
  filters : Option (List Filter) := none

def record : Record Draft Query where
  title := "struct StructuredQuery"
  fields := [
    .of "keywords" Draft.keywords (fun d v => { d with keywords := some v }) (.list .string),
    .of "filters" Draft.filters (fun d v => { d with filters := some v }) (.list Filter.decoder)]
  start := {}
  finish d _ := do
    return {
      keywords := ← required "keywords" d.keywords
      filters := ← required "filters" d.filters }

def decoder : Decoder Query := record.decoder

end Query

namespace CompletionMode

def names : List (String × CompletionMode) := [("property", .property), ("value", .value)]

def name : CompletionMode → String
  | .property => "property"
  | .value => "value"

def decoder : Decoder CompletionMode := .choice names

end CompletionMode

namespace Completion

def members (c : Completion) : List (String × Json) :=
  ("mode", .string c.mode.name) :: (c.target?.map fun p => ("target_property", .string p)).toList

def toJson (c : Completion) : Json := .object c.members

structure Draft where
  mode : Option CompletionMode := none
  target : Option (Option String) := none

def record : Record Draft Completion where
  title := "struct Completion"
  fields := [
    .of "mode" Draft.mode (fun d v => { d with mode := some v }) CompletionMode.decoder,
    .of "target_property" Draft.target (fun d v => { d with target := some v })
      (.optional .string)]
  start := {}
  finish d _ := do return { mode := ← required "mode" d.mode, target? := d.target.getD none }

def decoder : Decoder Completion := record.decoder

end Completion

namespace CompletionRequest

def toJson : CompletionRequest → Json
  | .schema => .object [("type", .string "schema")]
  | .values property query =>
    .object [("type", .string "values"), ("property", .string property), ("query", query.toJson)]

structure Draft where
  property : Option String := none
  query : Option Query := none

def valuesRecord : Record Draft CompletionRequest where
  title := "struct variant CompletionRequest::Values"
  fields := [
    .of "property" Draft.property (fun d v => { d with property := some v }) Decoder.string,
    .of "query" Draft.query (fun d v => { d with query := some v }) Query.decoder]
  start := {}
  finish d _ := do return .values (← required "property" d.property) (← required "query" d.query)

def tagged : Tagged CompletionRequest where
  title := "internally tagged enum CompletionRequest"
  tag := "type"
  variants := [("schema", Tagged.plain .schema), ("values", Tagged.fields valuesRecord)]

def decoder : Decoder CompletionRequest := tagged.decoder

end CompletionRequest

namespace SuggestionKind

def names : List (String × SuggestionKind) := [("filter", .filter), ("value", .value)]

def name : SuggestionKind → String
  | .filter => "filter"
  | .value => "value"

def decoder : Decoder SuggestionKind := .choice names

end SuggestionKind

namespace Suggestion

/-- Only a suggestion that cannot be chosen says so. -/
def toJson (s : Suggestion) : Json :=
  .object ([("id", .string s.id), ("key", .string s.key), ("name", .string s.name),
    ("kind", .string s.kind.name)] ++ if s.disabled then [("disabled", .bool true)] else [])

structure Draft where
  id : Option String := none
  key : Option String := none
  name : Option String := none
  kind : Option SuggestionKind := none
  disabled : Option Bool := none

def record : Record Draft Suggestion where
  title := "struct Suggestion"
  fields := [
    .of "id" Draft.id (fun d v => { d with id := some v }) Decoder.string,
    .of "key" Draft.key (fun d v => { d with key := some v }) Decoder.string,
    .of "name" Draft.name (fun d v => { d with name := some v }) Decoder.string,
    .of "kind" Draft.kind (fun d v => { d with kind := some v }) SuggestionKind.decoder,
    .of "disabled" Draft.disabled (fun d v => { d with disabled := some v }) Decoder.bool true]
  start := {}
  finish d _ := do
    return {
      id := ← required "id" d.id
      key := ← required "key" d.key
      name := ← required "name" d.name
      kind := ← required "kind" d.kind
      disabled := d.disabled.getD false }

def decoder : Decoder Suggestion := record.decoder

end Suggestion

namespace SuggestionOptions

def toJson (o : SuggestionOptions) : Json := .object [("dedupe_selected_values", .bool o.dedupe)]

def record : Record (Option Bool) SuggestionOptions where
  title := "struct SuggestionOptions"
  fields := [.of "dedupe_selected_values" id (fun _ v => some v) Decoder.bool true]
  start := none
  finish d _ := .ok { dedupe := d.getD false }

def decoder : Decoder SuggestionOptions := record.decoder

end SuggestionOptions
end ResourceSearch
