import ResourceSearch.Alert
import ResourceSearch.Cache.Store

/-!
The remote services behind the search page, and the questions put to them.  A service answers in a
monad of its own, with its message when it fails.
-/

namespace ResourceSearch

open Json Cache

structure SearchService (m : Type → Type) where
  schema : m (Except String (List String))
  /-- The values of a property among the resources that a search finds. -/
  complete : String → Query → m (Except String (List String))
  items : List Input → m (Except String (List Resource))
  /-- The resources related to them, of the kinds asked for. -/
  relatedItems : List Input → m (Except String (List RelatedItems))
  relatedCount : List Input → m (Except String (List RelatedCount))

namespace SearchService

variable {m : Type → Type} [Monad m]

/-- The suggestions for partly typed text, or the alert to show instead. -/
def fetchSuggestions (service : SearchService m) (text : String) (options : SuggestionOptions) :
    m (Except Alert (List Suggestion)) := do
  let (answer, kind) ← match Query.completionRequest text with
    | .schema => do pure (← service.schema, SuggestionKind.filter)
    | .values property query => do pure (← service.complete property query, SuggestionKind.value)
  match answer with
  | .error message => return .error (Alert.ofServiceError message)
  | .ok values => return .ok (Suggestion.list values kind text options)

/-- The answer to the question that a key stands for. -/
def ask (service : SearchService m) (key : Key) : m (Except String Entry) :=
  match key.document with
  | .items => (·.map Entry.items) <$> service.items key.input
  | .relatedItems => (·.map Entry.relatedItems) <$> service.relatedItems key.input
  | .relatedCount => (·.map Entry.relatedCount) <$> service.relatedCount key.input

/-- Asks the question that a key stands for and keeps the answer.  A failure leaves the store as it
was. -/
def fetchResults (service : SearchService m) (key : Key) (store : Store) :
    m (Except Alert Entry × Store) := do
  match ← service.ask key with
  | .error message => return (.error (Alert.ofServiceError message), store)
  | .ok entry => return (.ok entry, store.insert key entry)

end SearchService

structure DeleteRequest where
  selfLink : String
  name : String
  namespaceName : String
  cluster : String
  kind : String
  deriving DecidableEq, Repr, Inhabited

namespace DeleteRequest

def toJson (r : DeleteRequest) : Json :=
  .object [("selfLink", .string r.selfLink), ("name", .string r.name),
    ("namespace", .string r.namespaceName), ("cluster", .string r.cluster),
    ("kind", .string r.kind)]

structure Draft where
  selfLink : Option String := none
  name : Option String := none
  namespaceName : Option String := none
  cluster : Option String := none
  kind : Option String := none

def record : Json.Record Draft DeleteRequest where
  title := "struct DeleteRequest"
  fields := [
    .of "selfLink" Draft.selfLink (fun d v => { d with selfLink := some v }) Decoder.string,
    .of "name" Draft.name (fun d v => { d with name := some v }) Decoder.string,
    .of "namespace" Draft.namespaceName (fun d v => { d with namespaceName := some v })
      Decoder.string,
    .of "cluster" Draft.cluster (fun d v => { d with cluster := some v }) Decoder.string,
    .of "kind" Draft.kind (fun d v => { d with kind := some v }) Decoder.string]
  start := {}
  finish d _ := do
    return {
      selfLink := ← required "selfLink" d.selfLink
      name := ← required "name" d.name
      namespaceName := ← required "namespace" d.namespaceName
      cluster := ← required "cluster" d.cluster
      kind := ← required "kind" d.kind }

def decoder : Decoder DeleteRequest := record.decoder

end DeleteRequest

structure AccessRequest where
  resource : String
  action : String
  namespaceName : String
  name : String
  apiGroup : String
  deriving DecidableEq, Repr, Inhabited

namespace AccessRequest

def toJson (r : AccessRequest) : Json :=
  .object [("resource", .string r.resource), ("action", .string r.action),
    ("namespace", .string r.namespaceName), ("name", .string r.name),
    ("apiGroup", .string r.apiGroup)]

structure Draft where
  resource : Option String := none
  action : Option String := none
  namespaceName : Option String := none
  name : Option String := none
  apiGroup : Option String := none

def record : Json.Record Draft AccessRequest where
  title := "struct AccessRequest"
  fields := [
    .of "resource" Draft.resource (fun d v => { d with resource := some v }) Decoder.string,
    .of "action" Draft.action (fun d v => { d with action := some v }) Decoder.string,
    .of "namespace" Draft.namespaceName (fun d v => { d with namespaceName := some v })
      Decoder.string,
    .of "name" Draft.name (fun d v => { d with name := some v }) Decoder.string,
    .of "apiGroup" Draft.apiGroup (fun d v => { d with apiGroup := some v }) Decoder.string]
  start := {}
  finish d _ := do
    return {
      resource := ← required "resource" d.resource
      action := ← required "action" d.action
      namespaceName := ← required "namespace" d.namespaceName
      name := ← required "name" d.name
      apiGroup := ← required "apiGroup" d.apiGroup }

def decoder : Decoder AccessRequest := record.decoder

end AccessRequest
end ResourceSearch
