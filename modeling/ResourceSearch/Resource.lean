import ResourceSearch.Json.Decoder

/-!
Resources of a cluster as the search service reports them.  Six properties have a meaning here; all
others are kept as they came, sorted by name.
-/

namespace ResourceSearch

open Json

/-- Further properties, in strictly increasing order of their names at every depth. -/
structure Properties where
  members : List (String × Json)
  canonical : Canonical (.object members)

namespace Properties

def empty : Properties := ⟨[], List.Pairwise.nil, trivial⟩

instance : Inhabited Properties := ⟨empty⟩

/-- The properties that some members give.  The last one of each name counts. -/
def ofMembers (ms : List (String × Json)) : Properties :=
  ⟨canonicalMembers ms, canonicalMembers_canonical ms⟩

def same (a b : Properties) : Bool := sameMembers a.members b.members

end Properties

structure Resource where
  uid : String := ""
  name : String
  namespaceName : String := ""
  cluster : String := ""
  kind : String
  selfLink : String := ""
  extra : Properties := .empty
  deriving Inhabited

namespace Resource

/-- Equality, under which the two zeros are one number. -/
def same (a b : Resource) : Bool :=
  a.uid = b.uid && a.name = b.name && a.namespaceName = b.namespaceName && a.cluster = b.cluster &&
    a.kind = b.kind && a.selfLink = b.selfLink && a.extra.same b.extra

def toJson (r : Resource) : Json :=
  .object ([("_uid", .string r.uid), ("name", .string r.name),
    ("namespace", .string r.namespaceName),
    ("cluster", .string r.cluster), ("kind", .string r.kind), ("selfLink", .string r.selfLink)] ++
    r.extra.members)

structure Draft where
  uid : Option String := none
  name : Option String := none
  namespaceName : Option String := none
  cluster : Option String := none
  kind : Option String := none
  selfLink : Option String := none

def ownNames : List String := ["_uid", "uid", "name", "namespace", "cluster", "kind", "selfLink"]

def record : Record Draft Resource where
  title := "struct Resource"
  fields := [
    .of "_uid" Draft.uid (fun d v => { d with uid := some v }) Decoder.string true ["uid"],
    .of "name" Draft.name (fun d v => { d with name := some v }) Decoder.string,
    .of "namespace" Draft.namespaceName (fun d v => { d with namespaceName := some v })
      Decoder.string true,
    .of "cluster" Draft.cluster (fun d v => { d with cluster := some v }) Decoder.string true,
    .of "kind" Draft.kind (fun d v => { d with kind := some v }) Decoder.string,
    .of "selfLink" Draft.selfLink (fun d v => { d with selfLink := some v }) Decoder.string true]
  start := {}
  finish d others := do
    let name ← required "name" d.name
    let kind ← required "kind" d.kind
    return {
      uid := d.uid.getD ""
      name
      namespaceName := d.namespaceName.getD ""
      cluster := d.cluster.getD ""
      kind
      selfLink := d.selfLink.getD ""
      extra := .ofMembers others }
  keepsOthers := true

def decoder : Decoder Resource := record.decoder

theorem same_refl (r : Resource) : r.same r = true := by
  simp [same, Properties.same, sameMembers_refl]

end Resource
end ResourceSearch
