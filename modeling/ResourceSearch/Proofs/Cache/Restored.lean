import ResourceSearch.Cache.Snapshot
import ResourceSearch.Proofs.Json.Nested
import ResourceSearch.Proofs.Json.Restoring

/-!
Everything in a snapshot is restored from its JSON, and a snapshot from the bytes of its file
(`Snapshot.ofBytes_bytes`).  Only resources can be in the way: one of their further properties may
have a name that is read as one of their own, be nested too deep for the file, or hold a number that
its text does not give back.
-/

namespace ResourceSearch

open Json

theorem Filter.restores (f : Filter) : Filter.decoder.Restores f.toJson f :=
  Record.restores <|
    .field (Decoder.restores_string f.property) rfl rfl <|
    .field (Decoder.restores_strings f.values) rfl rfl <|
    .finish rfl

theorem Query.restoresMembers (q : Query) :
    Query.record.RestoresMembers Query.record.start [] q.members q :=
  .field (Decoder.restores_strings q.keywords) rfl rfl <|
  .field (Decoder.restores_list fun f _ => Filter.restores f) rfl rfl <|
  .finish rfl

namespace Cache

/-- The members of the search are kept first and decoded last. -/
theorem Input.restores (i : Input) : Input.decoder.Restores i.toJson i := by
  have hquery := i.query.restoresMembers.decode .buffered
  obtain ⟨query, kinds⟩ := i
  have hfinish : Input.record.finish (kinds.map some) query.members = .ok ⟨query, kinds⟩ := by
    simp only [Input.record, Record.decodeObject, hquery]
    cases kinds <;> rfl
  refine Record.restores ?_
  cases kinds with
  | none => exact .kept rfl rfl <| .kept rfl rfl <| .finish hfinish
  | some kinds =>
    have hkinds := Decoder.restores_optional (by rintro ⟨⟩) (Decoder.restores_strings kinds)
    exact .kept rfl rfl <| .kept rfl rfl <| .field hkinds rfl rfl <| .finish hfinish

theorem Filter.readable (f : Filter) : f.toJson.Readable 2 :=
  readable_pair (readable_string 1 f.property) (readable_strings 0 f.values)

theorem Input.readable (i : Input) : i.toJson.Readable 4 := by
  refine readable_object fun m hm => ?_
  rcases List.mem_append.mp hm with hm | hm
  · simp only [Query.members, List.mem_cons, List.not_mem_nil, or_false] at hm
    rcases hm with rfl | rfl
    · exact readable_strings 2 i.query.keywords
    · exact readable_list fun f _ => Filter.readable f
  · obtain ⟨kinds, _, rfl⟩ := Option.map_eq_some_iff.mp (Option.mem_toList.mp hm)
    exact readable_strings 2 kinds

theorem Document.meaning_name (d : Document) :
    Decoder.meaning Document.names d.name = .ok d := by
  cases d <;> rfl

theorem Key.restores (k : Key) : Key.decoder.Restores k.toJson k :=
  Record.restores <|
    .field (Decoder.restores_choice k.document.meaning_name) rfl rfl <|
    .field (Decoder.restores_list fun i _ => Input.restores i) rfl rfl <|
    .finish rfl

end Cache

/-! ## Resources -/

theorem Properties.ofMembers_members (p : Properties) : Properties.ofMembers p.members = p := by
  obtain ⟨ms, hinc, hms⟩ := p
  simp only [Properties.ofMembers, canonicalMembers_of_canonical hinc hms]

namespace Resource

/-- A resource whose further properties can be told from its own and read back at some depth. -/
structure Storable (levels : Nat) (r : Resource) : Prop where
  names : ∀ m ∈ r.extra.members, m.1 ∉ ownNames
  readable : ∀ m ∈ r.extra.members, m.2.Readable levels

variable {levels : Nat} {r : Resource}

theorem Storable.mono {m n : Nat} (h : r.Storable m) (hmn : m ≤ n) : r.Storable n where
  names := h.names
  readable p hp := (h.readable p hp).mono hmn

/-- No field takes a member with any other name. -/
theorem field?_eq_none {name : String} (h : name ∉ ownNames) : record.field? name = none := by
  simp only [ownNames, List.mem_cons, List.not_mem_nil, or_false, not_or] at h
  obtain ⟨huid, halias, hname, hnamespace, hcluster, hkind, hlink⟩ := h
  simp [Record.field?, record, Field.of, Ne.symm huid, Ne.symm hname, Ne.symm hnamespace,
    Ne.symm hcluster, Ne.symm hkind, Ne.symm hlink, halias]

theorem restores (h : ∀ m ∈ r.extra.members, m.1 ∉ ownNames) : decoder.Restores r.toJson r := by
  refine Record.restores ?_
  refine .field (Decoder.restores_string r.uid) rfl rfl ?_
  refine .field (Decoder.restores_string r.name) rfl rfl ?_
  refine .field (Decoder.restores_string r.namespaceName) rfl rfl ?_
  refine .field (Decoder.restores_string r.cluster) rfl rfl ?_
  refine .field (Decoder.restores_string r.kind) rfl rfl ?_
  refine .field (Decoder.restores_string r.selfLink) rfl rfl ?_
  refine .allKept rfl (fun m hm => field?_eq_none (h m hm)) ?_
  show Except.ok { r with extra := Properties.ofMembers r.extra.members } = Except.ok r
  rw [Properties.ofMembers_members]

theorem readable (h : r.Storable levels) : r.toJson.Readable (levels + 1) := by
  refine readable_object fun m hm => ?_
  rcases List.mem_append.mp hm with hm | hm
  · simp only [List.mem_cons, List.not_mem_nil, or_false] at hm
    rcases hm with rfl | rfl | rfl | rfl | rfl | rfl <;> exact readable_string levels _
  · exact h.readable m hm

end Resource

namespace Cache

/-! ## Answers -/

theorem RelatedItems.restores {levels : Nat} {g : RelatedItems}
    (h : ∀ r ∈ g.items, r.Storable levels) : RelatedItems.decoder.Restores g.toJson g :=
  Record.restores <|
    .field (Decoder.restores_string g.kind) rfl rfl <|
    .field (Decoder.restores_list fun r hr => Resource.restores (h r hr).names) rfl rfl <|
    .finish rfl

theorem RelatedItems.readable {levels : Nat} {g : RelatedItems}
    (h : ∀ r ∈ g.items, r.Storable levels) : g.toJson.Readable (levels + 3) :=
  readable_pair (readable_string _ g.kind) (readable_list fun r hr => Resource.readable (h r hr))

theorem RelatedCount.restores_count (n : UInt64) :
    (Decoder.map UInt64.ofNat (.count UInt64.size "u64")).Restores (Json.count n.toNat) n := by
  have hrestores := Decoder.restores_map UInt64.ofNat
    (Decoder.restores_count n.toNat_lt (Nat.le_refl _) "u64")
  rwa [UInt64.ofNat_toNat] at hrestores

theorem RelatedCount.restores (g : RelatedCount) : RelatedCount.decoder.Restores g.toJson g := by
  have hfield : RelatedCount.record.field? "count" =
      some (.of "count" Draft.count (fun d v => { d with count := some v })
        (.map UInt64.ofNat (.count UInt64.size "u64"))) := rfl
  exact Record.restores <|
    .field (Decoder.restores_string g.kind) rfl rfl <|
    .field (RelatedCount.restores_count g.count) hfield rfl <|
    .finish rfl

theorem RelatedCount.readable (g : RelatedCount) : g.toJson.Readable 1 :=
  readable_pair (readable_string 0 g.kind) (readable_count 0 _)

namespace Entry

/-- Whether an answer fits into a snapshot file.  Related resources stand two levels deeper than
others. -/
def Storable : Entry → Prop
  | .items xs => ∀ r ∈ xs, r.Storable 121
  | .relatedItems groups => ∀ g ∈ groups, ∀ r ∈ g.items, r.Storable 119
  | .relatedCount _ => True

theorem restores_listRecord {α : Type} {variant name : String} {d : Decoder α}
    {make : List α → Entry} {write : α → Json} {xs : List α}
    (h : ∀ x ∈ xs, d.Restores (write x) x) :
    (Tagged.fields (listRecord variant name d make)) (.object [(name, .array (xs.map write))]) =
      .ok (make xs) := by
  have hfield : (listRecord variant name d make).field? name =
      some (.of name id (fun _ v => some v) (.list d)) :=
    List.find?_cons_of_pos (by simp [Field.of])
  have hmembers : (listRecord variant name d make).RestoresMembers none []
      [(name, .array (xs.map write))] (make xs) :=
    .field (Decoder.restores_list h) hfield rfl <| .finish rfl
  exact hmembers.decode .buffered

theorem restores {e : Entry} (h : e.Storable) : decoder.Restores e.toJson e := by
  have htag : "items" ≠ tagged.tag ∧ "related" ≠ tagged.tag := by decide
  cases e with
  | items xs =>
    refine Tagged.restores rfl ?_
      (restores_listRecord fun r hr => Resource.restores (h r hr).names)
    simpa using htag.1
  | relatedItems groups =>
    refine Tagged.restores rfl ?_
      (restores_listRecord fun g hg => RelatedItems.restores (h g hg))
    simpa using htag.2
  | relatedCount groups =>
    refine Tagged.restores rfl ?_
      (restores_listRecord fun g _ => RelatedCount.restores g)
    simpa using htag.2

theorem readable {e : Entry} (h : e.Storable) : e.toJson.Readable 124 := by
  cases e with
  | items xs =>
    exact readable_pair (readable_string _ "items")
      (readable_list fun r hr => Resource.readable (h r hr))
  | relatedItems groups =>
    exact readable_pair (readable_string _ "related_items")
      (readable_list fun g hg => RelatedItems.readable (h g hg))
  | relatedCount groups =>
    exact readable_pair (readable_string _ "related_count")
      (readable_list fun g _ => (RelatedCount.readable g).mono (by decide))

end Entry

theorem Key.readable (k : Key) : k.toJson.Readable 6 :=
  readable_pair (readable_string 5 _) (readable_list fun i _ => Input.readable i)

theorem Record.restores {r : Record} (h : r.entry.Storable) : Record.decoder.Restores r.toJson r :=
  Json.Record.restores <|
    .field (Key.restores r.key) rfl rfl <|
    .field (Entry.restores h) rfl rfl <|
    .finish rfl

theorem Record.readable {r : Record} (h : r.entry.Storable) : r.toJson.Readable 125 :=
  readable_pair (r.key.readable.mono (by decide)) (Entry.readable h)

/-! ## Snapshots -/

namespace Snapshot

/-- A snapshot whose answers all fit into a file. -/
structure Storable (s : Snapshot) : Prop where
  items : ∀ r ∈ s.items, r.entry.Storable
  related : ∀ r ∈ s.related, r.entry.Storable

theorem restores_version (v : UInt32) :
    (Decoder.map UInt32.ofNat (.count UInt32.size "u32")).Restores (Json.count v.toNat) v := by
  have hrestores := Decoder.restores_map UInt32.ofNat
    (Decoder.restores_count v.toNat_lt (by decide) "u32")
  rwa [UInt32.ofNat_toNat] at hrestores

theorem restores {s : Snapshot} (h : s.Storable) : decoder.Restores s.toJson s := by
  have hfield : record.field? "version" =
      some (.of "version" Draft.version (fun d v => { d with version := some v })
        (.map UInt32.ofNat (.count UInt32.size "u32"))) := rfl
  exact Json.Record.restores <|
    .field (restores_version s.version) hfield rfl <|
    .field (Decoder.restores_list fun r hr => Record.restores (h.items r hr)) rfl rfl <|
    .field (Decoder.restores_list fun r hr => Record.restores (h.related r hr)) rfl rfl <|
    .finish rfl

theorem readable {s : Snapshot} (h : s.Storable) : s.toJson.Readable maxLevels := by
  refine readable_object fun m hm => ?_
  simp only [List.mem_cons, List.not_mem_nil, or_false] at hm
  rcases hm with rfl | rfl | rfl
  · exact readable_count _ _
  · exact readable_list fun r hr => Record.readable (h.items r hr)
  · exact readable_list fun r hr => Record.readable (h.related r hr)

/-- The bytes of a snapshot file say what was written. -/
theorem ofBytes_bytes (path : String) {s : Snapshot} (h : s.Storable) :
    ofBytes path s.bytes = .ok s.current := by
  have hparse := (restores h).parse_pretty (readable h).depth (readable h).numbers
  rw [ofBytes, bytes, Text.ofBytes?_bytes, String.ofList_toList]
  simp only [hparse]

end Snapshot
end Cache
end ResourceSearch
