import ResourceSearch.Cache.Store
import ResourceSearch.Query.Syntax

/-!
Patching cached answers after a resource was deleted, instead of asking again.  A delete from the
results drops the resource from the answer that the page shows.  A delete from a related table drops
it from the related resources of its kind and takes one from that kind's count; the last one takes
the count away.  An answer that was never fetched needs no patch.
-/

namespace ResourceSearch
namespace Cache

open Json

/-- How a cached resource is recognised as the deleted one. -/
inductive MatchRule where
  | uidAndName
  | composite
  deriving DecidableEq, Repr, Inhabited

namespace MatchRule

def holds (rule : MatchRule) (item deleted : Resource) : Bool :=
  match rule with
  | .uidAndName => item.uid = deleted.uid && item.name = deleted.name
  | .composite =>
    item.cluster = deleted.cluster && item.namespaceName = deleted.namespaceName &&
      item.kind = deleted.kind && item.name = deleted.name

def names : List (String × MatchRule) := [("uid_and_name", .uidAndName), ("composite", .composite)]

def name : MatchRule → String
  | .uidAndName => "uid_and_name"
  | .composite => "composite"

def decoder : Decoder MatchRule := .choice names

end MatchRule

/-- The table that a delete was started from. -/
inductive Origin where
  | results
  | related
  deriving DecidableEq, Repr, Inhabited

namespace Origin

def names : List (String × Origin) := [("results", .results), ("related", .related)]

def name : Origin → String
  | .results => "results"
  | .related => "related"

def decoder : Decoder Origin := .choice names

end Origin

/-- What one step of patching came to. -/
inductive Outcome where
  /-- The answer was replaced by one with so many items or groups less. -/
  | patched (removed : Nat)
  | miss
  /-- The answer for the key is of another kind. -/
  | mismatch
  deriving DecidableEq, Repr, Inhabited

namespace Outcome

def toJson : Outcome → Json
  | .patched removed => .object [("status", .string "patched"), ("removed", Json.count removed)]
  | .miss => .object [("status", .string "miss")]
  | .mismatch => .object [("status", .string "mismatch")]

def patchedRecord : Json.Record (Option Nat) Outcome where
  title := "struct variant PatchOutcome::Patched"
  fields := [.of "removed" id (fun _ v => some v) (.count UInt64.size "usize")]
  start := none
  finish d _ := do return .patched (← required "removed" d)

def tagged : Tagged Outcome where
  title := "internally tagged enum PatchOutcome"
  tag := "status"
  variants := [("patched", Tagged.fields patchedRecord), ("miss", Tagged.plain .miss),
    ("mismatch", Tagged.plain .mismatch)]

def decoder : Decoder Outcome := tagged.decoder

end Outcome

structure Report where
  items : Option Outcome := none
  relatedItems : Option Outcome := none
  relatedCount : Option Outcome := none
  deriving DecidableEq, Repr, Inhabited

namespace Report

/-- A step that was not taken is left out. -/
def toJson (r : Report) : Json :=
  .object ([("items", r.items), ("related_items", r.relatedItems),
    ("related_count", r.relatedCount)].filterMap fun (name, step) =>
      step.map fun o => (name, o.toJson))

structure Draft where
  items : Option (Option Outcome) := none
  relatedItems : Option (Option Outcome) := none
  relatedCount : Option (Option Outcome) := none

def record : Json.Record Draft Report where
  title := "struct ReconcileReport"
  fields := [
    .of "items" Draft.items (fun d v => { d with items := some v }) (.optional Outcome.decoder),
    .of "related_items" Draft.relatedItems (fun d v => { d with relatedItems := some v })
      (.optional Outcome.decoder),
    .of "related_count" Draft.relatedCount (fun d v => { d with relatedCount := some v })
      (.optional Outcome.decoder)]
  start := {}
  finish d _ := .ok {
    items := d.items.getD none
    relatedItems := d.relatedItems.getD none
    relatedCount := d.relatedCount.getD none }

def decoder : Decoder Report := record.decoder

end Report

/-- The two stores of a search page. -/
structure Stores where
  items : Store := .empty
  related : Store := .empty
  deriving Inhabited

def Stores.same (a b : Stores) : Bool := a.items.same b.items && a.related.same b.related

/-- The resources that are not recognised as the deleted one. -/
def remaining (rule : MatchRule) (deleted : Resource) (items : List Resource) : List Resource :=
  items.filter fun item => !rule.holds item deleted

/-- A group without the deleted resource, if it is of its kind. -/
def patchGroup (rule : MatchRule) (deleted : Resource) (g : RelatedItems) : RelatedItems :=
  if g.kind = deleted.kind then { g with items := remaining rule deleted g.items } else g

/-- A count with one less, if it is of a kind.  A count that comes to nothing goes away. -/
def decrement (kind : String) (g : RelatedCount) : Option RelatedCount :=
  if g.kind ≠ kind then some g
  else if 1 < g.count then some { g with count := g.count - 1 }
  else none

/-- Drops the deleted resource from the results of a search. -/
def removeFromItems (rule : MatchRule) (query : Query) (deleted : Resource) (s : Store) :
    Outcome × Store :=
  let key := Key.items query
  match s.get? key with
  | none => (.miss, s)
  | some (.items items) =>
    let left := remaining rule deleted items
    (.patched (items.length - left.length), s.insert key (.items left))
  | some _ => (.mismatch, s)

def groupedCount : List RelatedItems → Nat
  | [] => 0
  | g :: groups => g.items.length + groupedCount groups

/-- Drops the deleted resource from the related resources of its kind. -/
def removeFromRelatedItems (rule : MatchRule) (query : Query) (deleted : Resource) (s : Store) :
    Outcome × Store :=
  let key := Key.relatedItems query deleted.kind
  match s.get? key with
  | none => (.miss, s)
  | some (.relatedItems groups) =>
    let left := groups.map (patchGroup rule deleted)
    (.patched (groupedCount groups - groupedCount left), s.insert key (.relatedItems left))
  | some _ => (.mismatch, s)

def decrementRelatedCount (query : Query) (kind : String) (s : Store) : Outcome × Store :=
  let key := Key.relatedCount query
  match s.get? key with
  | none => (.miss, s)
  | some (.relatedCount groups) =>
    let left := groups.filterMap (decrement kind)
    (.patched (groups.length - left.length), s.insert key (.relatedCount left))
  | some _ => (.mismatch, s)

/-- A delete to be reflected in the stores. -/
structure Deletion where
  rule : MatchRule := .uidAndName
  origin : Origin
  text : String
  resource : Resource

/-- Patches the store behind the table that a delete was started from. -/
def reconcile (d : Deletion) (s : Stores) : Report × Stores :=
  let query := Query.compile d.text
  match d.origin with
  | .results =>
    let (outcome, items) := removeFromItems d.rule query d.resource s.items
    ({ items := some outcome }, { s with items })
  | .related =>
    let (itemsOutcome, related) := removeFromRelatedItems d.rule query d.resource s.related
    let (countOutcome, related) := decrementRelatedCount query d.resource.kind related
    ({ relatedItems := some itemsOutcome, relatedCount := some countOutcome }, { s with related })

end Cache
end ResourceSearch
