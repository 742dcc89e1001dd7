import ResourceSearch.Query.Completion

/-!
The list under the search bar.  It opens with a header that cannot be chosen, and then has one entry
per property name or value.  On request the values that are already selected in the typed text, and
repeated ones, are left out.
-/

namespace ResourceSearch

inductive SuggestionKind where
  | filter
  | value
  deriving DecidableEq, Repr, Inhabited

structure Suggestion where
  id : String
  key : String
  name : String
  kind : SuggestionKind
  disabled : Bool := false
  deriving DecidableEq, Repr, Inhabited

structure SuggestionOptions where
  /-- Leave out values that are selected already or repeated.  Property names are never left out. -/
  dedupe : Bool := false
  deriving DecidableEq, Repr, Inhabited

namespace SuggestionKind

def header : SuggestionKind → String
  | .filter => "Filters"
  | .value => "Filter values"

def ofMode : CompletionMode → SuggestionKind
  | .property => .filter
  | .value => .value

end SuggestionKind

namespace Suggestion

def header (kind : SuggestionKind) : Suggestion :=
  { id := "id-suggestions-label", key := "key-suggestions-label", name := kind.header, kind,
    disabled := true }

def item (kind : SuggestionKind) (value : String) : Suggestion :=
  { id := "id-" ++ value, key := "key-" ++ value, name := value, kind }

/-- The values already given for the property that is being completed or, when there is none, for
any property.  A filter that is still empty selects nothing. -/
def selected (typed : String) : List String :=
  let query := Query.compile typed
  let values :=
    match (Query.detect typed).target? with
    | some property => query.valuesFor property
    | none => query.allValues
  values.filter (· ≠ "")

/-- The values outside `seen`, each at its first place. -/
def unseen (seen : List String) : List String → List String
  | [] => []
  | v :: vs => if v ∈ seen then unseen seen vs else v :: unseen (v :: seen) vs

def offered (values : List String) (kind : SuggestionKind) (typed : String)
    (options : SuggestionOptions) : List String :=
  if options.dedupe ∧ kind = .value then unseen (selected typed) values else values

/-- The whole list for the answers of the search service. -/
def list (values : List String) (kind : SuggestionKind) (typed : String)
    (options : SuggestionOptions) : List Suggestion :=
  header kind :: (offered values kind typed options).map (item kind)

end Suggestion
end ResourceSearch
