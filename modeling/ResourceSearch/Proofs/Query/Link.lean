import ResourceSearch.Proofs.Json.Restoring
import ResourceSearch.Proofs.Text.Percent
import ResourceSearch.Proofs.Text.Split
import ResourceSearch.Query.Link

/-!
Links say what was put into them, wherever they stand (`decode_encode_within`).  Around a query
string there may be a path and a fragment, and the value that holds the search text may be percent
coded as a whole once more (`recode`).  Whatever an address says, a link can say it too.
-/

namespace ResourceSearch

namespace Json

theorem escape_of_inert {c : Char} (h : Text.Percent.Inert c) : escape c = [c] := by
  obtain ⟨hmeaning, hcontrol⟩ := h
  unfold escape
  split
  case h_8 => rw [if_neg (Nat.not_lt.mpr hcontrol)]
  all_goals first
    | exact absurd (by decide) hmeaning
    | exact absurd hcontrol (by decide)

theorem escape_percent_encode (cs : List Char) :
    (Text.Percent.encode cs).flatMap escape = Text.Percent.encode cs := by
  have hsingle : ∀ c ∈ Text.Percent.encode cs, escape c = [c] :=
    fun c hc => escape_of_inert (Text.Percent.inert_of_mem_encode hc)
  rw [List.flatMap_def, List.map_congr_left hsingle, ← List.flatMap_def, List.flatMap_singleton']

end Json

namespace Link

open Text

/-! ## The value that holds the search text -/

theorem compact_object (text : String) :
    (Json.object [("textsearch", .string text)]).compact.toList =
      "\x7b\"textsearch\":\"".toList ++ text.toList.flatMap Json.escape ++ "\"\x7d".toList := by
  have hname : "textsearch".toList.flatMap Json.escape = "textsearch".toList := by decide
  rw [Json.compact, String.toList_ofList]
  simp only [Json.write, Json.writeString, Json.writeMembers, hname]
  simp [Json.Layout.compact]

theorem objectText?_object (text : String) :
    objectText? (Json.object [("textsearch", .string text)]).compact = some text := by
  have hrestores : textRecord.decoder.Restores (.object [("textsearch", .string text)]) text :=
    Json.Record.restores (.field (Json.Decoder.restores_string _) rfl rfl (.finish rfl))
  have hdepth : 1 ≤ Json.maxLevels := by decide
  have hparse := hrestores.parse_compact hdepth ⟨trivial, trivial⟩
  rw [objectText?, hparse]
  rfl

/-- The JSON object around a coded search text. -/
def textObject (text : String) : Json :=
  .object [("textsearch", .string (String.ofList (Percent.encode text.toList)))]

theorem compact_textObject (text : String) : (textObject text).compact.toList =
    "\x7b\"textsearch\":\"".toList ++ Percent.encode text.toList ++ "\"\x7d".toList := by
  have hcoded : (String.ofList (Percent.encode text.toList)).toList = Percent.encode text.toList :=
    String.toList_ofList
  rw [textObject, compact_object, hcoded, Json.escape_percent_encode]

theorem objectText?_compact (text : String) :
    objectText? (textObject text).compact = some (String.ofList (Percent.encode text.toList)) :=
  objectText?_object _

/-- A text that begins with a percent sign is no JSON. -/
theorem objectText?_percent (cs : List Char) : objectText? (String.ofList ('%' :: cs)) = none := by
  rw [objectText?, Json.Decoder.parse, Json.readAll, String.toList_ofList]
  rfl

theorem parameterText?_compact (text : String) :
    parameterText? (textObject text).compact.toList =
      some (String.ofList (Percent.encode text.toList)) := by
  rw [parameterText?, String.ofList_toList, objectText?_compact, Option.some_or]

theorem encode_compact_textObject (text : String) :
    ∃ cs, Percent.encode (textObject text).compact.toList = '%' :: cs := by
  have hbrace : (String.utf8EncodeChar '\x7b').flatMap Percent.encodeByte = ['%', '7', 'B'] := by
    decide +kernel
  obtain ⟨cs, hcs⟩ := Json.write_object_cons .compact 0
    [("textsearch", .string (String.ofList (Percent.encode text.toList)))]
  rw [textObject, Json.compact, String.toList_ofList, hcs, Percent.encode_cons, hbrace]
  exact ⟨_, rfl⟩

/-- A value that is coded as a whole is no JSON before it is decoded. -/
theorem parameterText?_encode_compact (text : String) :
    parameterText? (Percent.encode (textObject text).compact.toList) =
      some (String.ofList (Percent.encode text.toList)) := by
  have hdecode := Percent.decode?_encode (textObject text).compact.toList
  rw [String.ofList_toList] at hdecode
  obtain ⟨cs, hcs⟩ := encode_compact_textObject text
  rw [parameterText?, hdecode, hcs, objectText?_percent, Option.none_or, Option.bind_some,
    objectText?_compact]

/-! ## Reading the parameters -/

theorem textParameter_eq {text : String} (h : text ≠ "") :
    textParameter text = ["filters".toList ++ '=' :: (textObject text).compact.toList] := by
  rw [textParameter, if_neg h, compact_textObject]
  simp

theorem relatedParameter_eq {related : List String} (h : related ≠ []) :
    relatedParameter related =
      ["showrelated".toList ++ '=' :: join ',' (related.map fun kind =>
        Percent.encode kind.toList)] := by
  rw [relatedParameter, if_neg h]
  simp

theorem readParameter_text (l : Link) {value : List Char} {text : String}
    (h : parameterText? value = some text) :
    readParameter l ("filters".toList ++ '=' :: value) =
      { l with text := Percent.decode text.toList } := by
  rw [readParameter, cut_append (by decide)]
  simp [h]

theorem readParameter_related (l : Link) (value : List Char) :
    readParameter l ("showrelated".toList ++ '=' :: value) =
      { l with related := parameterKinds value } := by
  rw [readParameter, cut_append (by decide)]
  simp

theorem decode_text (text : String) :
    Percent.decode (String.ofList (Percent.encode text.toList)).toList = text := by
  rw [String.toList_ofList, Percent.decode_encode, String.ofList_toList]

/-- Kinds without a name are not read back. -/
theorem parameterKinds_join {related : List String} (h : related ≠ []) :
    parameterKinds (join ',' (related.map fun kind => Percent.encode kind.toList)) =
      related.filter (· ≠ "") := by
  have hne : (related.map fun kind => Percent.encode kind.toList) ≠ [] :=
    mt List.map_eq_nil_iff.mp h
  have hcomma : ∀ part ∈ related.map (fun kind => Percent.encode kind.toList), ',' ∉ part := by
    intro part hpart hc
    obtain ⟨kind, -, rfl⟩ := List.mem_map.mp hpart
    exact absurd (Percent.inert_of_mem_encode hc) (by decide)
  rw [parameterKinds, split_join hne hcomma, List.filter_map, List.map_map]
  have hkept : ∀ kind ∈ related, ((fun part : List Char => decide (part ≠ [])) ∘
      fun kind : String => Percent.encode kind.toList) kind = decide (kind ≠ "") := by
    intro kind _
    simp [Percent.encode_eq_nil_iff]
  have hread : ∀ kind ∈ related.filter (· ≠ ""),
      (Percent.decode ∘ fun kind : String => Percent.encode kind.toList) kind = kind := by
    intro kind _
    rw [Function.comp_apply, Percent.decode_encode, String.ofList_toList]
  rw [List.filter_congr hkept, List.map_congr_left hread, List.map_id']

/-- What a link says when it is read back: its related kinds, without those that have no name. -/
def named (l : Link) : Link := { l with related := l.related.filter (· ≠ "") }

def parameters (l : Link) : List (List Char) := textParameter l.text ++ relatedParameter l.related

/-- A parameter whose value is percent coded as a whole once more, if it holds the search text. -/
def recodeParameter (parameter : List Char) : List Char :=
  match cut '=' parameter with
  | some (name, value) =>
    if name = "filters".toList then name ++ '=' :: Percent.encode value else parameter
  | none => parameter

theorem recodeParameter_text (value : List Char) :
    recodeParameter ("filters".toList ++ '=' :: value) =
      "filters".toList ++ '=' :: Percent.encode value := by
  rw [recodeParameter, cut_append (by decide)]
  simp

theorem recodeParameter_related (value : List Char) :
    recodeParameter ("showrelated".toList ++ '=' :: value) =
      "showrelated".toList ++ '=' :: value := by
  rw [recodeParameter, cut_append (by decide)]
  simp

theorem foldl_textParameter (text : String) (related : List String) :
    (textParameter text).foldl readParameter ⟨"", related⟩ = ⟨text, related⟩ ∧
      ((textParameter text).map recodeParameter).foldl readParameter ⟨"", related⟩ =
        ⟨text, related⟩ := by
  by_cases h : text = ""
  · rw [h]
    exact ⟨rfl, rfl⟩
  · have hplain := readParameter_text ⟨"", related⟩ (parameterText?_compact text)
    have hcoded := readParameter_text ⟨"", related⟩ (parameterText?_encode_compact text)
    rw [decode_text] at hplain hcoded
    simp only [textParameter_eq h, List.map_cons, List.map_nil, recodeParameter_text,
      List.foldl_cons, List.foldl_nil]
    exact ⟨hplain, hcoded⟩

theorem foldl_relatedParameter (text : String) (related : List String) :
    (relatedParameter related).foldl readParameter ⟨text, []⟩ =
        ⟨text, related.filter (· ≠ "")⟩ ∧
      (relatedParameter related).map recodeParameter = relatedParameter related := by
  by_cases h : related = []
  · rw [h]
    exact ⟨rfl, rfl⟩
  · have hread := readParameter_related ⟨text, []⟩
      (join ',' (related.map fun kind => Percent.encode kind.toList))
    rw [parameterKinds_join h] at hread
    rw [relatedParameter_eq h, List.map_cons, List.map_nil, recodeParameter_related]
    exact ⟨hread, rfl⟩

theorem foldl_parameters (l : Link) : l.parameters.foldl readParameter {} = l.named := by
  rw [parameters, List.foldl_append, (foldl_textParameter l.text []).1]
  exact (foldl_relatedParameter l.text l.related).1

theorem foldl_recodeParameter (l : Link) :
    (l.parameters.map recodeParameter).foldl readParameter {} = l.named := by
  rw [parameters, List.map_append, List.foldl_append, (foldl_textParameter l.text []).2,
    (foldl_relatedParameter l.text l.related).2]
  exact (foldl_relatedParameter l.text l.related).1

/-! ## Query strings inside addresses -/

/-- A text that can stand in a query string between its separators. -/
def IsParameter (parameter : List Char) : Prop := '&' ∉ parameter ∧ '#' ∉ parameter

instance (parameter : List Char) : Decidable (IsParameter parameter) :=
  inferInstanceAs (Decidable (_ ∧ _))

theorem isParameter_append {before after : List Char} (hbefore : IsParameter before)
    (hafter : IsParameter after) : IsParameter (before ++ after) := by
  obtain ⟨hand, hhash⟩ := hbefore
  obtain ⟨hand', hhash'⟩ := hafter
  refine ⟨?_, ?_⟩
  · rw [List.mem_append, not_or]
    exact ⟨hand, hand'⟩
  · rw [List.mem_append, not_or]
    exact ⟨hhash, hhash'⟩

theorem isParameter_assign {name value : List Char} (hname : IsParameter name)
    (hvalue : IsParameter value) : IsParameter (name ++ '=' :: value) := by
  have hequals : IsParameter ['='] := by decide
  exact isParameter_append hname (isParameter_append hequals hvalue)

theorem isParameter_encode (cs : List Char) : IsParameter (Percent.encode cs) := by
  refine ⟨fun h => ?_, fun h => ?_⟩
  · exact absurd (Percent.inert_of_mem_encode h) (by decide)
  · exact absurd (Percent.inert_of_mem_encode h) (by decide)

theorem isParameter_join {parts : List (List Char)} (h : ∀ part ∈ parts, IsParameter part) :
    IsParameter (join ',' parts) := by
  refine ⟨fun hc => ?_, fun hc => ?_⟩
  · rcases mem_join hc with hcomma | ⟨part, hpart, hc⟩
    · cases hcomma
    · exact (h part hpart).1 hc
  · rcases mem_join hc with hcomma | ⟨part, hpart, hc⟩
    · cases hcomma
    · exact (h part hpart).2 hc

theorem isParameter_textParameter {text : String} {parameter : List Char}
    (h : parameter ∈ textParameter text) :
    IsParameter parameter ∧ IsParameter (recodeParameter parameter) := by
  by_cases htext : text = ""
  · rw [textParameter, if_pos htext] at h
    cases h
  · rw [textParameter_eq htext, List.mem_singleton] at h
    rw [h, recodeParameter_text, compact_textObject]
    have hname : IsParameter "filters".toList := by decide
    have hopen : IsParameter "\x7b\"textsearch\":\"".toList := by decide
    have hclose : IsParameter "\"\x7d".toList := by decide
    have hobject := isParameter_append (isParameter_append hopen (isParameter_encode text.toList))
      hclose
    exact ⟨isParameter_assign hname hobject, isParameter_assign hname (isParameter_encode _)⟩

theorem isParameter_relatedParameter {related : List String} {parameter : List Char}
    (h : parameter ∈ relatedParameter related) : IsParameter parameter := by
  by_cases hrelated : related = []
  · rw [relatedParameter, if_pos hrelated] at h
    cases h
  · rw [relatedParameter_eq hrelated, List.mem_singleton] at h
    rw [h]
    have hname : IsParameter "showrelated".toList := by decide
    refine isParameter_assign hname (isParameter_join fun part hpart => ?_)
    obtain ⟨kind, -, rfl⟩ := List.mem_map.mp hpart
    exact isParameter_encode kind.toList

theorem isParameter_parameters (l : Link) : ∀ parameter ∈ l.parameters,
    IsParameter parameter ∧ IsParameter (recodeParameter parameter) := by
  intro parameter h
  rcases List.mem_append.mp h with h | h
  · exact isParameter_textParameter h
  · have hmap := List.mem_map_of_mem (f := recodeParameter) h
    rw [(foldl_relatedParameter l.text l.related).2] at hmap
    exact ⟨isParameter_relatedParameter h, isParameter_relatedParameter hmap⟩

def queryString : List (List Char) → String
  | [] => ""
  | parameters => String.ofList ('?' :: join '&' parameters)

theorem encode_eq (l : Link) : l.encode = queryString l.parameters := rfl

/-- A query string with the value that holds the search text percent coded once more. -/
def recode (query : String) : String :=
  match query.toList with
  | '?' :: parameters => queryString ((split '&' parameters).map recodeParameter)
  | _ => query

theorem recode_queryString {parameters : List (List Char)}
    (h : ∀ parameter ∈ parameters, IsParameter parameter) :
    recode (queryString parameters) = queryString (parameters.map recodeParameter) := by
  cases parameters with
  | nil => rfl
  | cons first rest =>
    have hsplit := split_join (List.cons_ne_nil first rest) fun parameter hp => (h parameter hp).1
    simp only [recode, queryString, String.toList_ofList, hsplit]

/-- What may stand before a query string. -/
structure IsPath (path : String) : Prop where
  question : '?' ∉ path.toList
  hash : '#' ∉ path.toList
  equals : '=' ∉ path.toList

/-- What may stand after a query string: nothing, or a text that begins with a hash. -/
def IsFragment (fragment : String) : Prop := ∀ c ∈ fragment.toList.head?, c = '#'

theorem takeWhile_fragment {address : List Char} {fragment : String} (h : '#' ∉ address)
    (hfragment : IsFragment fragment) :
    (address ++ fragment.toList).takeWhile (· ≠ '#') = address := by
  have hdropped : fragment.toList.takeWhile (· ≠ '#') = [] := by
    unfold IsFragment at hfragment
    cases hcs : fragment.toList with
    | nil => rfl
    | cons c cs =>
      rw [hcs] at hfragment
      simp [hfragment c rfl]
  rw [Text.takeWhile_append h, hdropped, List.append_nil]

theorem foldl_readParameter_of_not_mem (l : Link) {texts : List (List Char)}
    (h : ∀ text ∈ texts, '=' ∉ text) : texts.foldl readParameter l = l := by
  induction texts with
  | nil => rfl
  | cons text texts ih =>
    have htext := cut_eq_none_iff.mpr (h text List.mem_cons_self)
    rw [List.foldl_cons, readParameter, htext]
    exact ih fun other hother => h other (List.mem_cons_of_mem text hother)

/-- A query string is read wherever it stands in an address. -/
theorem decode_within {path fragment : String} {parameters : List (List Char)}
    (hpath : IsPath path) (hfragment : IsFragment fragment)
    (h : ∀ parameter ∈ parameters, IsParameter parameter) :
    decode (path ++ queryString parameters ++ fragment) = parameters.foldl readParameter {} := by
  cases parameters with
  | nil =>
    have hpart : parameterPart (path ++ queryString [] ++ fragment).toList = path.toList := by
      rw [queryString, String.append_empty, String.toList_append, parameterPart,
        takeWhile_fragment hpath.hash hfragment, cut_eq_none_iff.mpr hpath.question]
    rw [decode, hpart]
    exact foldl_readParameter_of_not_mem {} fun part hpart hc =>
      hpath.equals (mem_of_mem_split hpart hc)
  | cons first rest =>
    have hhash : '#' ∉ path.toList ++ '?' :: join '&' (first :: rest) := by
      rw [List.mem_append, List.mem_cons, not_or, not_or]
      refine ⟨hpath.hash, by decide, fun hc => ?_⟩
      rcases mem_join hc with hand | ⟨parameter, hp, hc⟩
      · cases hand
      · exact (h parameter hp).2 hc
    have hpart : parameterPart (path ++ queryString (first :: rest) ++ fragment).toList =
        join '&' (first :: rest) := by
      rw [queryString, String.toList_append, String.toList_append, String.toList_ofList,
        parameterPart, takeWhile_fragment hhash hfragment, cut_append hpath.question]
      exact List.cons_ne_nil first rest
    rw [decode, hpart,
      split_join (List.cons_ne_nil first rest) fun parameter hp => (h parameter hp).1]

/-! ## Links that addresses say -/

theorem ne_empty_of_mem_parameterKinds {value : List Char} {kind : String}
    (h : kind ∈ parameterKinds value) : kind ≠ "" := by
  obtain ⟨part, hpart, rfl⟩ := List.mem_map.mp h
  have hne := (List.mem_filter.mp hpart).2
  exact Percent.decode_ne_empty (of_decide_eq_true hne)

/-- No parameter brings in a kind without a name. -/
theorem related_readParameter {l : Link} (h : "" ∉ l.related) (parameter : List Char) :
    "" ∉ (readParameter l parameter).related := by
  unfold readParameter
  split
  · exact h
  · split
    · split
      · exact h
      · exact h
    · split
      · exact fun hkind => ne_empty_of_mem_parameterKinds hkind rfl
      · exact h

theorem related_foldl_readParameter {l : Link} (h : "" ∉ l.related)
    (parameters : List (List Char)) : "" ∉ (parameters.foldl readParameter l).related := by
  induction parameters generalizing l with
  | nil => exact h
  | cons parameter parameters ih => exact ih (related_readParameter h parameter)

theorem related_decode (address : String) : "" ∉ (decode address).related :=
  related_foldl_readParameter List.not_mem_nil _

theorem named_eq_self {l : Link} (h : "" ∉ l.related) : l.named = l := by
  have hkept : ∀ kind ∈ l.related, decide (kind ≠ "") = true := by
    intro kind hkind
    exact decide_eq_true fun heq => h (heq ▸ hkind)
  rw [named, List.filter_eq_self.mpr hkept]

/-- A link says the same wherever its query string stands, and also when the value that holds the
search text was percent coded as a whole once more.  What any address says can be said by a link,
since none of its kinds is without a name. -/
theorem decode_encode_within :
    (∀ (l : Link) {path fragment : String}, IsPath path → IsFragment fragment →
      decode (path ++ l.encode ++ fragment) = l.named ∧
        decode (path ++ recode l.encode ++ fragment) = l.named) ∧
    ∀ address, "" ∉ (decode address).related ∧
      decode (decode address).encode = decode address := by
  have hwithin : ∀ (l : Link) {path fragment : String}, IsPath path → IsFragment fragment →
      decode (path ++ l.encode ++ fragment) = l.named := by
    intro l path fragment hpath hfragment
    rw [encode_eq, decode_within hpath hfragment fun p hp => (isParameter_parameters l p hp).1,
      foldl_parameters]
  refine ⟨fun l path fragment hpath hfragment => ⟨hwithin l hpath hfragment, ?_⟩, ?_⟩
  · have hcoded : ∀ p ∈ l.parameters.map recodeParameter, IsParameter p := by
      intro p hp
      obtain ⟨parameter, hparameter, rfl⟩ := List.mem_map.mp hp
      exact (isParameter_parameters l parameter hparameter).2
    rw [encode_eq, recode_queryString fun p hp => (isParameter_parameters l p hp).1,
      decode_within hpath hfragment hcoded, foldl_recodeParameter]
  · intro address
    have hpath : IsPath "" := ⟨by decide, by decide, by decide⟩
    have hfragment : IsFragment "" := by simp [IsFragment]
    have hrelated := related_decode address
    have halone := hwithin (decode address) hpath hfragment
    rw [String.empty_append, String.append_empty, named_eq_self hrelated] at halone
    exact ⟨hrelated, halone⟩

theorem decode_encode_search_page :
    let l : Link := ⟨"name:\"a&b\" 100%", ["pod", "", "config map"]⟩
    IsPath "/search" ∧ IsFragment "#top" ∧
      decode ("/search" ++ l.encode ++ "#top") =
        ⟨"name:\"a&b\" 100%", ["pod", "config map"]⟩ ∧
      decode ("/search" ++ recode l.encode ++ "#top") =
        ⟨"name:\"a&b\" 100%", ["pod", "config map"]⟩ := by
  have hpath : IsPath "/search" := ⟨by decide, by decide, by decide⟩
  have hfragment : IsFragment "#top" := by simp [IsFragment]
  exact ⟨hpath, hfragment, decode_encode_within.1 _ hpath hfragment⟩

end Link
end ResourceSearch
