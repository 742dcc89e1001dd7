import ResourceSearch.Cache.Reconcile
import ResourceSearch.Failure
import ResourceSearch.Service

/-!
The dialog that confirms a delete.  A delete runs in two halves, so it may take its time in between:
`begin` hands out the request, `complete` takes the service's answer.  A success patches the cached
answers once and closes the dialog; a failure leaves its message on the dialog and the answers
alone.
-/

namespace ResourceSearch

open Cache

inductive AccessState where
  | loading
  | allowed
  | denied
  | failed (message : String)
  deriving DecidableEq, Repr, Inhabited

/-- The confirmation of one delete. -/
structure Dialog where
  resource : Resource
  /-- The search text of the page that the dialog stands on. -/
  text : String
  origin : Origin
  access : AccessState := .loading
  inFlight : Bool := false
  /-- The message of the last attempt, if it failed. -/
  error? : Option String := none
  isOpen : Bool := true
  deriving Inhabited

namespace Dialog

/-- The group of a resource in the programming interface, taken from its link: the part after
`/apis/`. -/
def apiGroup (selfLink : String) : String :=
  match (Text.split '/' selfLink.toList).drop 1 with
  | root :: group :: _ => if root = "apis".toList then String.ofList group else ""
  | _ => ""

def title (d : Dialog) : String := "Delete " ++ d.resource.kind

def message (d : Dialog) : String :=
  "Removing " ++ d.resource.name ++ " is irreversible. Are you sure that you want to continue?"

def accessRequest (d : Dialog) : AccessRequest :=
  { resource := d.resource.kind, action := "delete", namespaceName := d.resource.namespaceName,
    name := d.resource.name, apiGroup := apiGroup d.resource.selfLink }

def deleteRequest (d : Dialog) : DeleteRequest :=
  { selfLink := d.resource.selfLink, name := d.resource.name,
    namespaceName := d.resource.namespaceName, cluster := d.resource.cluster,
    kind := d.resource.kind }

/-- The delete that the dialog is about, as the stores see it. -/
def deletion (d : Dialog) (rule : MatchRule) : Deletion :=
  { rule, origin := d.origin, text := d.text, resource := d.resource }

def canDelete (d : Dialog) : Bool := d.isOpen && !d.inFlight && d.access = .allowed

def alerts (d : Dialog) : List Alert :=
  let review := match d.access with
    | .failed message => [Alert.danger message, Alert.danger Failure.unauthorized.message]
    | .denied => [Alert.danger Failure.unauthorized.message]
    | _ => []
  review ++ (d.error?.map Alert.danger).toList

def review (d : Dialog) (answer : Except String Bool) : Dialog :=
  { d with
    access := match answer with
      | .ok true => .allowed
      | .ok false => .denied
      | .error message => .failed message }

def reviewAccess {m : Type → Type} [Monad m] (reviewer : AccessRequest → m (Except String Bool))
    (d : Dialog) : m Dialog := do
  return d.review (← reviewer d.accessRequest)

def obstacle? (d : Dialog) : Option Failure :=
  if !d.isOpen then some (.dialogClosed d.resource.kind d.resource.name)
  else if d.inFlight then some (.deleteInFlight d.resource.kind d.resource.name)
  else
    match d.access with
    | .allowed => none
    | .loading => some (.accessPending d.resource.kind d.resource.name)
    | .denied | .failed _ => some .unauthorized

def begin (d : Dialog) : Except Failure DeleteRequest × Dialog :=
  match d.obstacle? with
  | some failure => (.error failure, d)
  | none => (.ok d.deleteRequest, { d with inFlight := true, error? := none })

/-- Ends the delete with the service's answer.  Only a delete that was started can end. -/
def complete (d : Dialog) (answer : Except String Unit) (rule : MatchRule) (stores : Stores) :
    Except Failure Report × Dialog × Stores :=
  if !d.inFlight then
    (.error (.deleteNotStarted d.resource.kind d.resource.name), d, stores)
  else
    match answer with
    | .error message =>
      (.error (.deleteFailed message), { d with inFlight := false, error? := some message }, stores)
    | .ok () =>
      let (report, stores) := reconcile (d.deletion rule) stores
      (.ok report, { d with inFlight := false, isOpen := false }, stores)

def confirm {m : Type → Type} [Monad m] (delete : DeleteRequest → m (Except String Unit))
    (d : Dialog) (rule : MatchRule) (stores : Stores) :
    m (Except Failure Report × Dialog × Stores) := do
  match d.begin with
  | (.error failure, d) => return (.error failure, d, stores)
  | (.ok request, d) => return d.complete (← delete request) rule stores

def close (d : Dialog) : Dialog := { d with isOpen := false }

end Dialog
end ResourceSearch
