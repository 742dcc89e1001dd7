import ResourceSearch.Proofs.Cache.Loaded
import ResourceSearch.Proofs.Cache.Outdated
import ResourceSearch.Proofs.Json.Places
import ResourceSearch.Proofs.Json.Strict

/-!
Resources that are read and printed again.  Some members describe a resource exactly if they give
its own properties once at most, as strings, and both a name and a kind
(`Resource.exists_describedBy_iff`).  A text is read as the resource that the members of its object
describe (`Resource.parse_eq_ok_iff`).  The resource is printed with every property of the object,
and its text gives the same resource again (`Resource.rewritten_of_parse`).
-/

namespace ResourceSearch

open Json

namespace Resource

/-- The names of each of the properties that have a meaning. -/
def ownFields : List (List String) :=
  [["_uid", "uid"], ["name"], ["namespace"], ["cluster"], ["kind"], ["selfLink"]]

/-- One string is given, or nothing, which stands for the empty one. -/
def AtMostText (given : List Json) (s : String) : Prop := given = [.string s] ∨ given = [] ∧ s = ""

/-- The members that are not one of the own properties. -/
def otherMembers (ms : List (String × Json)) : List (String × Json) :=
  ms.filter (·.1 ∉ ownNames)

/-- A resource whose own properties are those that the members of an object give. -/
structure NamedBy (r : Resource) (ms : List (String × Json)) : Prop where
  uid : AtMostText (underAny ["_uid", "uid"] ms) r.uid
  name : underAny ["name"] ms = [.string r.name]
  namespaceName : AtMostText (underAny ["namespace"] ms) r.namespaceName
  cluster : AtMostText (underAny ["cluster"] ms) r.cluster
  kind : underAny ["kind"] ms = [.string r.kind]
  selfLink : AtMostText (underAny ["selfLink"] ms) r.selfLink

/-- A resource that says what the members of an object say, and nothing else. -/
structure DescribedBy (r : Resource) (ms : List (String × Json)) : Prop extends r.NamedBy ms where
  extra : r.extra = .ofMembers (otherMembers ms)

/-! ## Decoding -/

theorem foldlM_decodeMember_eq_ok_iff {s t : Draft} {others kept ms : List (String × Json)} :
    ms.foldlM (record.decodeMember .given) (s, others) = .ok (t, kept) ↔
      kept = (otherMembers ms).reverse ++ others ∧
        Decoder.string.Takes s.uid (underAny ["_uid", "uid"] ms) t.uid ∧
        Decoder.string.Takes s.name (underAny ["name"] ms) t.name ∧
        Decoder.string.Takes s.namespaceName (underAny ["namespace"] ms) t.namespaceName ∧
        Decoder.string.Takes s.cluster (underAny ["cluster"] ms) t.cluster ∧
        Decoder.string.Takes s.kind (underAny ["kind"] ms) t.kind ∧
        Decoder.string.Takes s.selfLink (underAny ["selfLink"] ms) t.selfLink := by
  induction ms generalizing s others with
  | nil =>
    cases s
    cases t
    simp only [List.foldlM_nil, pure, Except.pure, Except.ok.injEq, Prod.mk.injEq,
      Draft.mk.injEq, underAny_nil, Decoder.takes_nil_iff, otherMembers, List.filter_nil,
      List.reverse_nil, List.nil_append]
    grind
  | cons m ms ih =>
    obtain ⟨name, v⟩ := m
    by_cases hown : name ∈ ownNames
    · have hother : otherMembers ((name, v) :: ms) = otherMembers ms :=
        List.filter_cons_of_neg (by simpa using hown)
      rw [hother]
      simp only [ownNames, List.mem_cons, List.not_mem_nil, or_false] at hown
      rcases hown with rfl | rfl | rfl | rfl | rfl | rfl | rfl
      all_goals
        rw [Record.foldlM_decodeMember_field (d := .string) rfl]
        simp only [ih, underAny_cons, List.mem_cons, List.not_mem_nil, String.reduceEq, or_false,
          or_true, ↓reduceIte, Decoder.takes_cons_iff]
        grind
    · have hother : otherMembers ((name, v) :: ms) = (name, v) :: otherMembers ms :=
        List.filter_cons_of_pos (by simpa using hown)
      rw [Record.foldlM_decodeMember_kept (field?_eq_none hown) rfl, hother]
      simp only [ownNames, List.mem_cons, List.not_mem_nil, or_false, not_or] at hown
      simp [ih, underAny_cons, hown]

theorem atMostText_iff {vs : List Json} {s : String} :
    AtMostText vs s ↔ ∃ last, Decoder.string.Takes none vs last ∧ s = last.getD "" := by
  simp only [Decoder.takes_string_iff, AtMostText]
  constructor
  · rintro (rfl | ⟨rfl, rfl⟩)
    · exact ⟨some s, .inr ⟨s, rfl, rfl⟩, rfl⟩
    · exact ⟨none, .inl ⟨rfl, rfl⟩, rfl⟩
  · rintro ⟨last, ⟨rfl, rfl⟩ | ⟨t, rfl, rfl⟩, rfl⟩
    · exact .inr ⟨rfl, rfl⟩
    · exact .inl rfl

theorem takes_some_text_iff {vs : List Json} {s : String} :
    Decoder.string.Takes none vs (some s) ↔ vs = [.string s] := by
  simp [Decoder.takes_string_iff]

/-- A resource is decoded from the members that describe it, and from no others. -/
theorem decode_object_eq_ok_iff {r : Resource} {ms : List (String × Json)} :
    decoder.decode .given (.object ms) = .ok r ↔ r.DescribedBy ms := by
  show record.decodeMembers .given {} [] ms = .ok r ↔ _
  rw [Record.decodeMembers_eq]
  constructor
  · intro h
    obtain ⟨⟨t, kept⟩, hall, hfinish⟩ := exists_of_bind_ok h
    obtain ⟨name, hname, hfinish⟩ := exists_of_bind_ok hfinish
    obtain ⟨kind, hkind, hfinish⟩ := exists_of_bind_ok hfinish
    cases hfinish
    obtain ⟨rfl, huid, hnames, hnamespace, hcluster, hkinds, hlink⟩ :=
      foldlM_decodeMember_eq_ok_iff.mp hall
    rw [required_ok hname] at hnames
    rw [required_ok hkind] at hkinds
    refine ⟨⟨atMostText_iff.mpr ⟨_, huid, rfl⟩, takes_some_text_iff.mp hnames,
      atMostText_iff.mpr ⟨_, hnamespace, rfl⟩, atMostText_iff.mpr ⟨_, hcluster, rfl⟩,
      takes_some_text_iff.mp hkinds, atMostText_iff.mpr ⟨_, hlink, rfl⟩⟩, ?_⟩
    rw [List.append_nil, List.reverse_reverse]
  · rintro ⟨⟨huid, hname, hnamespace, hcluster, hkind, hlink⟩, hextra⟩
    obtain ⟨uid, huid, huidEq⟩ := atMostText_iff.mp huid
    obtain ⟨space, hnamespace, hnamespaceEq⟩ := atMostText_iff.mp hnamespace
    obtain ⟨cluster, hcluster, hclusterEq⟩ := atMostText_iff.mp hcluster
    obtain ⟨link, hlink, hlinkEq⟩ := atMostText_iff.mp hlink
    have hall : ms.foldlM (record.decodeMember .given) ({}, []) =
        .ok (⟨uid, some r.name, space, cluster, some r.kind, link⟩,
          (otherMembers ms).reverse ++ []) :=
      foldlM_decodeMember_eq_ok_iff.mpr ⟨rfl, huid, takes_some_text_iff.mpr hname, hnamespace,
        hcluster, takes_some_text_iff.mpr hkind, hlink⟩
    rw [hall, List.append_nil]
    show record.finish _ (otherMembers ms).reverse.reverse = _
    rw [List.reverse_reverse]
    obtain ⟨_, _, _, _, _, _, _⟩ := r
    cases huidEq
    cases hnamespaceEq
    cases hclusterEq
    cases hlinkEq
    cases hextra
    rfl

/-! ## Texts -/

theorem strict : decoder.Strict := Record.strict (by simp [record]) rfl

/-- A text is read as a resource if and only if it spells an object that describes it. -/
theorem parse_eq_ok_iff {text : String} {r : Resource} :
    decoder.parse text = .ok r ↔
      ∃ ms, Json.parse text = .ok (.object ms) ∧ r.DescribedBy ms := by
  rw [strict.parse_eq_ok_iff faithful .given]
  constructor
  · rintro ⟨j, hparse, hdecode⟩
    cases j with
    | object ms => exact ⟨ms, hparse, decode_object_eq_ok_iff.mp hdecode⟩
    | _ => cases hdecode
  · rintro ⟨ms, hparse, hdescribed⟩
    exact ⟨_, hparse, decode_object_eq_ok_iff.mpr hdescribed⟩

/-- Members that give each of the own properties once at most and as a string, and both a name and a
kind. -/
structure Proper (ms : List (String × Json)) : Prop where
  once : ∀ names ∈ ownFields, (underAny names ms).length ≤ 1
  strings : ∀ m ∈ ms, m.1 ∈ ownNames → ∃ s, m.2 = .string s
  name : underAny ["name"] ms ≠ []
  kind : underAny ["kind"] ms ≠ []

theorem mem_ownNames_iff {name : String} :
    name ∈ ownNames ↔ ∃ names ∈ ownFields, name ∈ names := by
  have hflatten : ownNames = ownFields.flatten := rfl
  rw [hflatten, List.mem_flatten]

theorem Proper.atMostText {ms : List (String × Json)} (h : Proper ms) :
    ∀ names ∈ ownFields, ∃ s, AtMostText (underAny names ms) s := by
  intro names hnames
  have honce := h.once names hnames
  have hstrings : ∀ v ∈ underAny names ms, ∃ s, v = .string s := by
    intro v hv
    obtain ⟨name, hname, hm⟩ := mem_underAny_iff.mp hv
    exact h.strings (name, v) hm (mem_ownNames_iff.mpr ⟨names, hnames, hname⟩)
  match hvalues : underAny names ms with
  | [] => exact ⟨"", .inr ⟨rfl, rfl⟩⟩
  | [v] =>
    obtain ⟨s, rfl⟩ := hstrings v (hvalues ▸ List.mem_cons_self)
    exact ⟨s, .inl rfl⟩
  | _ :: _ :: _ =>
    rw [hvalues] at honce
    simp at honce

theorem NamedBy.atMostText {r : Resource} {ms : List (String × Json)} (h : r.NamedBy ms) :
    ∀ names ∈ ownFields, ∃ s, AtMostText (underAny names ms) s := by
  intro names hnames
  simp only [ownFields, List.mem_cons, List.not_mem_nil, or_false] at hnames
  rcases hnames with rfl | rfl | rfl | rfl | rfl | rfl
  · exact ⟨_, h.uid⟩
  · exact ⟨_, .inl h.name⟩
  · exact ⟨_, h.namespaceName⟩
  · exact ⟨_, h.cluster⟩
  · exact ⟨_, .inl h.kind⟩
  · exact ⟨_, h.selfLink⟩

theorem NamedBy.proper {r : Resource} {ms : List (String × Json)} (h : r.NamedBy ms) :
    Proper ms where
  once names hnames := by
    obtain ⟨s, hs | ⟨hs, -⟩⟩ := h.atMostText names hnames <;> simp [hs]
  strings m hm hown := by
    obtain ⟨names, hnames, hname⟩ := mem_ownNames_iff.mp hown
    have hmem : m.2 ∈ underAny names ms := mem_underAny_iff.mpr ⟨m.1, hname, hm⟩
    obtain ⟨s, hs | ⟨hs, -⟩⟩ := h.atMostText names hnames
    · rw [hs] at hmem
      exact ⟨s, List.mem_singleton.mp hmem⟩
    · rw [hs] at hmem
      cases hmem
  name := by simp [h.name]
  kind := by simp [h.kind]

/-- Members describe a resource if and only if they are proper. -/
theorem exists_describedBy_iff {ms : List (String × Json)} :
    (∃ r : Resource, r.DescribedBy ms) ↔ Proper ms := by
  refine ⟨fun ⟨r, hr⟩ => hr.toNamedBy.proper, fun h => ?_⟩
  obtain ⟨uid, huid⟩ := h.atMostText ["_uid", "uid"] (by decide)
  obtain ⟨name, hname⟩ := h.atMostText ["name"] (by decide)
  obtain ⟨space, hspace⟩ := h.atMostText ["namespace"] (by decide)
  obtain ⟨cluster, hcluster⟩ := h.atMostText ["cluster"] (by decide)
  obtain ⟨kind, hkind⟩ := h.atMostText ["kind"] (by decide)
  obtain ⟨link, hlink⟩ := h.atMostText ["selfLink"] (by decide)
  have hname := hname.resolve_right fun hnone => h.name hnone.1
  have hkind := hkind.resolve_right fun hnone => h.kind hnone.1
  exact ⟨⟨uid, name, space, cluster, kind, link, .ofMembers (otherMembers ms)⟩,
    ⟨huid, hname, hspace, hcluster, hkind, hlink⟩, rfl⟩

/-! ## Printing -/

/-- A resource that is printed with all members of an object: first its own properties in a fixed
order, and then the others once each, sorted by name.  Every place in one of the others holds what
it held in the object, where the last one counts of some members with one name. -/
structure PrintsAll (r : Resource) (ms : List (String × Json)) : Prop where
  named : r.NamedBy ms
  members : r.toJson = .object ([("_uid", .string r.uid), ("name", .string r.name),
    ("namespace", .string r.namespaceName), ("cluster", .string r.cluster),
    ("kind", .string r.kind), ("selfLink", .string r.selfLink)] ++ r.extra.members)
  sorted : Increasing r.extra.members
  others : ∀ name, name ∈ r.extra.members.map (·.1) ↔ name ∉ ownNames ∧ name ∈ ms.map (·.1)
  places : ∀ name ∉ ownNames, ∀ path, r.toJson.follow (.member name :: path) =
    ((Json.object ms).follow (.member name :: path)).map canonical

/-- A resource whose text gives the value that was printed and the resource itself, and whose text
does not change when it is printed again. -/
structure Settled (r : Resource) (print : Json → String) : Prop where
  json : Json.parse (print r.toJson) = .ok r.toJson
  resource : decoder.parse (print r.toJson) = .ok r
  again : ∀ s, decoder.parse (print r.toJson) = .ok s → print s.toJson = print r.toJson

theorem mem_names_otherMembers_iff {name : String} {ms : List (String × Json)} :
    name ∈ (otherMembers ms).map (·.1) ↔ name ∉ ownNames ∧ name ∈ ms.map (·.1) := by
  simp only [otherMembers, List.mem_map, List.mem_filter, decide_eq_true_eq]
  constructor
  · rintro ⟨m, ⟨hm, hother⟩, rfl⟩
    exact ⟨hother, m, hm, rfl⟩
  · rintro ⟨hother, m, hm, rfl⟩
    exact ⟨m, ⟨hm, hother⟩, rfl⟩

theorem DescribedBy.lastUnder_extra {r : Resource} {ms : List (String × Json)}
    (h : r.DescribedBy ms) (name : String) :
    lastUnder name r.extra.members = (lastUnder name (otherMembers ms)).map canonical := by
  rw [h.extra]
  exact lastUnder_canonicalMembers name (otherMembers ms)

theorem DescribedBy.printsAll {r : Resource} {ms : List (String × Json)} (h : r.DescribedBy ms) :
    r.PrintsAll ms where
  named := h.toNamedBy
  members := rfl
  sorted := r.extra.canonical.1
  others name := by
    rw [← isSome_lastUnder_iff, h.lastUnder_extra, Option.isSome_map, isSome_lastUnder_iff,
      mem_names_otherMembers_iff]
  places name hname path := by
    have hown : ∀ own ∈ ["_uid", "name", "namespace", "cluster", "kind", "selfLink"],
        own ∈ ownNames := by decide
    rw [follow, follow, toJson, child, child,
      lastUnder_append_of_not_mem fun hmem => hname (hown name hmem), h.lastUnder_extra,
      otherMembers, lastUnder_filter (p := (· ∉ ownNames)) hname]
    cases lastUnder name ms with
    | none => rfl
    | some v => exact follow_canonical v path

/-- A resource that was read fits into a text again. -/
theorem storable_of_parse {text : String} {r : Resource} (h : decoder.parse text = .ok r)
    (hnumbers : ∀ m ∈ r.extra.members, m.2.NumbersReadBack) : r.Storable 126 := by
  have hfits : r.Fits 126 := Decoder.Gives.parse (keepsTo 126).gives h
  exact ⟨hfits.names, fun m hm => ⟨hfits.depth m hm, hnumbers m hm⟩⟩

theorem Storable.settled {r : Resource} (h : r.Storable 126) {layout : Layout}
    (hl : layout.IsBlank) : r.Settled fun j => String.ofList (write layout 0 j) := by
  have hreadable := Resource.readable h
  have hrestores := Resource.restores h.names
  have hresource : decoder.parse (String.ofList (write layout 0 r.toJson)) = .ok r :=
    Decoder.parse_write hl hrestores.agrees (hrestores.decode .given) hreadable.depth
      hreadable.numbers
  refine ⟨Json.parse_write hl hreadable.depth hreadable.numbers, hresource, fun s hs => ?_⟩
  cases hresource.symm.trans hs
  rfl

/-- No property is lost or altered by reading and printing.  A text that is read as a resource
spells an object all of whose members are printed, and if the numbers in it are given back by their
texts, so is the resource.  An object is read as a resource if and only if its members are proper.
-/
theorem rewritten_of_parse (text : String) :
    (∀ r, decoder.parse text = .ok r → ∃ ms, Json.parse text = .ok (.object ms) ∧ r.PrintsAll ms ∧
        ((∀ m ∈ r.extra.members, m.2.NumbersReadBack) →
          r.Settled Json.compact ∧ r.Settled Json.pretty)) ∧
      ∀ ms, Json.parse text = .ok (.object ms) →
        (Proper ms → ∃ r, decoder.parse text = .ok r) ∧
          (¬ Proper ms → ∃ refusal, decoder.parse text = .error refusal) := by
  constructor
  · intro r hr
    obtain ⟨ms, hparse, hdescribed⟩ := parse_eq_ok_iff.mp hr
    refine ⟨ms, hparse, hdescribed.printsAll, fun hnumbers => ?_⟩
    have hstorable := storable_of_parse hr hnumbers
    exact ⟨hstorable.settled Layout.isBlank_compact, hstorable.settled Layout.isBlank_indented⟩
  · intro ms hparse
    constructor
    · intro hproper
      obtain ⟨r, hr⟩ := exists_describedBy_iff.mpr hproper
      exact ⟨r, parse_eq_ok_iff.mpr ⟨ms, hparse, hr⟩⟩
    · intro hproper
      cases hr : decoder.parse text with
      | error refusal => exact ⟨refusal, rfl⟩
      | ok r =>
        obtain ⟨others, hothers, hdescribed⟩ := parse_eq_ok_iff.mp hr
        cases hparse.symm.trans hothers
        exact absurd hdescribed.toNamedBy.proper hproper

/-- Members in any order, two of them repeated, and the uid under its other name. -/
theorem rewritten_of_parse_repeated :
    let zone := Json.object [("b", Json.count 1), ("a", .null), ("b", Json.count 2)]
    let ms := [("zone", zone), ("kind", .string "Pod"), ("app", .bool true), ("uid", .string "7"),
      ("name", .string "web"), ("app", .array [Json.count 8080])]
    let kept := [("app", Json.array [Json.count 8080]),
      ("zone", Json.object [("a", .null), ("b", Json.count 2)])]
    ∃ r, decoder.parse (Json.compact (.object ms)) = .ok r ∧ r.uid = "7" ∧
      r.extra.members = kept ∧ r.PrintsAll ms ∧ r.Settled Json.compact ∧
      r.Settled Json.pretty := by
  intro zone ms kept
  let r : Resource := { uid := "7", name := "web", kind := "Pod", extra := .ofMembers kept }
  have hinteger : ∀ n, (Json.count n).NumbersReadBack := fun _ => Json.readsBack_integer _ _
  have hms : Json.parse (Json.compact (.object ms)) = .ok (.object ms) :=
    parse_write Layout.isBlank_compact (by decide)
      ⟨⟨hinteger 1, trivial, hinteger 2, trivial⟩, trivial, trivial, trivial, trivial,
        ⟨hinteger 8080, trivial⟩, trivial⟩
  have hdescribed : r.DescribedBy ms :=
    ⟨⟨.inl rfl, rfl, .inr ⟨rfl, rfl⟩, .inr ⟨rfl, rfl⟩, rfl, .inr ⟨rfl, rfl⟩⟩, rfl⟩
  have hr : decoder.parse (Json.compact (.object ms)) = .ok r :=
    parse_eq_ok_iff.mpr ⟨ms, hms, hdescribed⟩
  obtain ⟨others, hothers, hprints, hsettled⟩ := (rewritten_of_parse _).1 r hr
  cases hms.symm.trans hothers
  have hkept : NumbersReadBackMembers kept :=
    ⟨⟨hinteger 8080, trivial⟩, ⟨trivial, hinteger 2, trivial⟩, trivial⟩
  exact ⟨r, hr, rfl, rfl, hprints, hsettled (numbersReadBackMembers_iff.mp hkept)⟩

end Resource
end ResourceSearch
