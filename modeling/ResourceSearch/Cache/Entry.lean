import ResourceSearch.Cache.Key
import ResourceSearch.Resource

/-!
Cached answers, and the pair of a key and its answer.
-/

namespace ResourceSearch
namespace Cache

open Json

structure RelatedItems where
  kind : String
  items : List Resource
  deriving Inhabited

namespace RelatedItems

def same (a b : RelatedItems) : Bool :=
  a.kind = b.kind && a.items.length = b.items.length &&
    (a.items.zip b.items).all fun (x, y) => x.same y

def toJson (g : RelatedItems) : Json :=
  .object [("kind", .string g.kind), ("items", .array (g.items.map Resource.toJson))]

structure Draft where
  kind : Option String := none
  items : Option (List Resource) := none

def record : Json.Record Draft RelatedItems where
  title := "struct RelatedItems"
  fields := [
    .of "kind" Draft.kind (fun d v => { d with kind := some v }) Decoder.string,
    .of "items" Draft.items (fun d v => { d with items := some v }) (.list Resource.decoder)]
  start := {}
  finish d _ := do
    return { kind := ← required "kind" d.kind, items := ← required "items" d.items }

def decoder : Decoder RelatedItems := record.decoder

end RelatedItems

structure RelatedCount where
  kind : String
  count : UInt64
  deriving DecidableEq, Repr, Inhabited

namespace RelatedCount

def toJson (g : RelatedCount) : Json :=
  .object [("kind", .string g.kind), ("count", Json.count g.count.toNat)]

structure Draft where
  kind : Option String := none
  count : Option UInt64 := none

def record : Json.Record Draft RelatedCount where
  title := "struct RelatedCount"
  fields := [
    .of "kind" Draft.kind (fun d v => { d with kind := some v }) Decoder.string,
    .of "count" Draft.count (fun d v => { d with count := some v })
      (.map UInt64.ofNat (.count UInt64.size "u64"))]
  start := {}
  finish d _ := do
    return { kind := ← required "kind" d.kind, count := ← required "count" d.count }

def decoder : Decoder RelatedCount := record.decoder

end RelatedCount

inductive Entry where
  | items (items : List Resource)
  | relatedItems (groups : List RelatedItems)
  | relatedCount (groups : List RelatedCount)
  deriving Inhabited

namespace Entry

def document : Entry → Document
  | .items _ => .items
  | .relatedItems _ => .relatedItems
  | .relatedCount _ => .relatedCount

/-- Equality, under which the two zeros are one number. -/
def same : Entry → Entry → Bool
  | .items xs, .items ys => xs.length = ys.length && (xs.zip ys).all fun (x, y) => x.same y
  | .relatedItems xs, .relatedItems ys =>
    xs.length = ys.length && (xs.zip ys).all fun (x, y) => x.same y
  | .relatedCount xs, .relatedCount ys => xs = ys
  | _, _ => false

def toJson : Entry → Json
  | .items xs =>
    .object [("type", .string "items"), ("items", .array (xs.map Resource.toJson))]
  | .relatedItems groups =>
    .object [("type", .string "related_items"),
      ("related", .array (groups.map RelatedItems.toJson))]
  | .relatedCount groups =>
    .object [("type", .string "related_count"),
      ("related", .array (groups.map RelatedCount.toJson))]

def listRecord {α : Type} (variant field : String) (d : Decoder α) (make : List α → Entry) :
    Json.Record (Option (List α)) Entry where
  title := "struct variant CachedResultEntry::" ++ variant
  fields := [.of field id (fun _ v => some v) (.list d)]
  start := none
  finish d _ := do return make (← required field d)

def tagged : Tagged Entry where
  title := "internally tagged enum CachedResultEntry"
  tag := "type"
  variants := [
    ("items", Tagged.fields (listRecord "Items" "items" Resource.decoder .items)),
    ("related_items",
      Tagged.fields (listRecord "RelatedItems" "related" RelatedItems.decoder .relatedItems)),
    ("related_count",
      Tagged.fields (listRecord "RelatedCount" "related" RelatedCount.decoder .relatedCount))]

def decoder : Decoder Entry := tagged.decoder

end Entry

structure Record where
  key : Key
  entry : Entry
  deriving Inhabited

namespace Record

def same (a b : Record) : Bool := a.key = b.key && a.entry.same b.entry

def toJson (r : Record) : Json :=
  .object [("key", r.key.toJson), ("entry", r.entry.toJson)]

structure Draft where
  key : Option Key := none
  entry : Option Entry := none

def record : Json.Record Draft Record where
  title := "struct CacheRecord"
  fields := [
    .of "key" Draft.key (fun d v => { d with key := some v }) Key.decoder,
    .of "entry" Draft.entry (fun d v => { d with entry := some v }) Entry.decoder]
  start := {}
  finish d _ := do
    return { key := ← required "key" d.key, entry := ← required "entry" d.entry }

def decoder : Decoder Record := record.decoder

end Record
end Cache
end ResourceSearch
