import ResourceSearch.Query.Form

/-!
The keys of cached answers: the kind of question and everything that was asked.  Keys have a total
order that agrees with equality, so a cache has one form (`Key.instTransOrd`,
`Key.instLawfulEqOrd`).
-/

namespace ResourceSearch

open Json

namespace Filter

instance : Ord Filter := ⟨compareLex (compareOn Filter.property) (compareOn Filter.values)⟩

instance : Std.TransOrd Filter :=
  inferInstanceAs (Std.TransCmp (compareLex (compareOn Filter.property) (compareOn Filter.values)))

instance : Std.LawfulEqOrd Filter where
  eq_of_compare {a b} h := by
    obtain ⟨hp, hv⟩ := Ordering.then_eq_eq.mp h
    cases a
    cases b
    cases Std.LawfulEqOrd.eq_of_compare hp
    cases Std.LawfulEqOrd.eq_of_compare hv
    rfl

end Filter

namespace Cache

inductive Document where
  | items
  | relatedItems
  | relatedCount
  deriving DecidableEq, Repr, Inhabited

namespace Document

def names : List (String × Document) :=
  [("search_result_items", .items), ("search_result_related_items", .relatedItems),
    ("search_result_related_count", .relatedCount)]

def name : Document → String
  | .items => "search_result_items"
  | .relatedItems => "search_result_related_items"
  | .relatedCount => "search_result_related_count"

def rank : Document → Nat
  | .items => 0
  | .relatedItems => 1
  | .relatedCount => 2

instance : Ord Document := ⟨compareOn rank⟩

instance : Std.TransOrd Document := inferInstanceAs (Std.TransCmp (compareOn rank))

instance : Std.LawfulEqOrd Document where
  eq_of_compare {a b} h := by
    have hr : a.rank = b.rank := Std.LawfulEqOrd.eq_of_compare h
    cases a <;> cases b <;> first | rfl | simp [rank] at hr

def decoder : Decoder Document := .choice names

end Document

structure Input where
  query : Query
  /-- The kinds of related resources asked for, if any are. -/
  relatedKinds : Option (List String) := none
  deriving DecidableEq, Repr, Inhabited

namespace Input

def compareParts : Input → Input → Ordering :=
  compareLex (compareOn fun i => i.query.keywords)
    (compareLex (compareOn fun i => i.query.filters) (compareOn Input.relatedKinds))

instance : Ord Input := ⟨compareParts⟩

instance : Std.TransOrd Input :=
  inferInstanceAs (Std.TransCmp (compareLex (compareOn fun i : Input => i.query.keywords)
    (compareLex (compareOn fun i => i.query.filters) (compareOn Input.relatedKinds))))

instance : Std.LawfulEqOrd Input where
  eq_of_compare {a b} h := by
    obtain ⟨hk, h⟩ := Ordering.then_eq_eq.mp h
    obtain ⟨hf, hr⟩ := Ordering.then_eq_eq.mp h
    have hk : a.query.keywords = b.query.keywords := Std.LawfulEqOrd.eq_of_compare hk
    have hf : a.query.filters = b.query.filters := Std.LawfulEqOrd.eq_of_compare hf
    have hr : a.relatedKinds = b.relatedKinds := Std.LawfulEqOrd.eq_of_compare hr
    obtain ⟨⟨_, _⟩, _⟩ := a
    obtain ⟨⟨_, _⟩, _⟩ := b
    simp_all

def toJson (i : Input) : Json :=
  .object (i.query.members ++
    (i.relatedKinds.map fun kinds => ("relatedKinds", Json.strings kinds)).toList)

/-- The members of the search stand beside the related kinds, and are decoded after them. -/
def record : Record (Option (Option (List String))) Input where
  title := "struct SearchInput"
  fields := [.of "relatedKinds" id (fun _ v => some v) (.optional (.list .string)) true]
  start := none
  finish d others := do
    let query ← Query.record.decodeObject .buffered others
    return { query, relatedKinds := d.getD none }
  keepsOthers := true

def decoder : Decoder Input := record.decoder

end Input

/-- What a cached answer answers. -/
structure Key where
  document : Document
  input : List Input
  deriving DecidableEq, Repr, Inhabited

namespace Key

instance : Ord Key := ⟨compareLex (compareOn Key.document) (compareOn Key.input)⟩

instance instTransOrd : Std.TransOrd Key :=
  inferInstanceAs (Std.TransCmp (compareLex (compareOn Key.document) (compareOn Key.input)))

instance instLawfulEqOrd : Std.LawfulEqOrd Key where
  eq_of_compare {a b} h := by
    obtain ⟨hd, hi⟩ := Ordering.then_eq_eq.mp h
    cases a
    cases b
    cases Std.LawfulEqOrd.eq_of_compare hd
    cases Std.LawfulEqOrd.eq_of_compare hi
    rfl

def items (query : Query) : Key := ⟨.items, [{ query }]⟩

/-- The key of the resources of one kind that are related to those that a search finds. -/
def relatedItems (query : Query) (kind : String) : Key :=
  ⟨.relatedItems, [{ query, relatedKinds := some [kind] }]⟩

/-- The key of the number of related resources of each kind. -/
def relatedCount (query : Query) : Key := ⟨.relatedCount, [{ query }]⟩

def toJson (k : Key) : Json :=
  .object [("document", .string k.document.name), ("input", .array (k.input.map Input.toJson))]

structure Draft where
  document : Option Document := none
  input : Option (List Input) := none

def record : Record Draft Key where
  title := "struct CacheKey"
  fields := [
    .of "document" Draft.document (fun d v => { d with document := some v }) Document.decoder,
    .of "input" Draft.input (fun d v => { d with input := some v }) (.list Input.decoder)]
  start := {}
  finish d _ := do
    return { document := ← required "document" d.document, input := ← required "input" d.input }

def decoder : Decoder Key := record.decoder

end Key
end Cache
end ResourceSearch
