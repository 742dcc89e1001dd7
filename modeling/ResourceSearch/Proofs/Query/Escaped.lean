import ResourceSearch.Proofs.Json.Depth
import ResourceSearch.Proofs.Json.Literal
import ResourceSearch.Proofs.Query.Link

/-!
Links whose quotes an address bar has escaped.  The value that holds the search text is no JSON
then until it is decoded, and decoding it decodes the text as well, which is decoded once more after
it was read.  Such a link gives back exactly the texts that a JSON string holds as they are and that
percent decoding leaves alone (`decode_escapeQuotes_text_iff`).  Its kinds always come back.
-/

namespace ResourceSearch
namespace Link

open Text Json

/-! ## The search text where it was decoded with the value around it -/

/-- What stands before the search text in the value that holds it. -/
def opening : List Char := "\x7b\"textsearch\":\"".toList

def closing : List Char := "\"\x7d".toList

theorem read_opening (cs : List Char) :
    textRecord.decoder.read maxLevels (opening ++ cs) =
      textRecord.readObject 126 ("\"textsearch\":\"".toList ++ cs) := rfl

theorem nextName_opening (cs : List Char) :
    nextName true ("\"textsearch\":\"".toList ++ cs) =
      .ok (some "textsearch", ':' :: '"' :: cs) := rfl

theorem readMember_text (levels : Nat) (cs : List Char) :
    textRecord.readMember levels "textsearch" (none, []) (':' :: '"' :: cs) =
      (readChars [] cs).map fun (s, rest) => ((some s, []), rest) := by
  show Except.map _ (Except.map _ (readChars [] cs)) = _
  cases readChars [] cs <;> rfl

/-- A text that was found is not overridden by what else stands in the object. -/
theorem readMember_found {levels : Nat} {name t : String} {others : List (String × Json)}
    {known : Option String × List (String × Json)} {cs rest : List Char}
    (h : textRecord.readMember levels name (some t, others) cs = .ok (known, rest)) :
    known = (some t, others) := by
  rw [Record.readMember] at h
  cases hfield : textRecord.field? name with
  | none =>
    rw [hfield] at h
    cases hcolon : (readColon cs).bind skipValue with
    | error f =>
      rw [hcolon] at h
      cases h
    | ok after =>
      rw [hcolon] at h
      cases h
      rfl
  | some f =>
    -- there is one field, and its text is known
    cases List.mem_singleton.mp (List.mem_of_find?_eq_some hfield)
    rw [hfield] at h
    cases h

/-- The text is read up to its closing quote, and that is not the end of the value. -/
theorem readChars_of_objectText? {cs : List Char} {t : String}
    (h : objectText? (String.ofList (opening ++ cs)) = some t) :
    ∃ rest, readChars [] cs = .ok (t, rest) ∧ rest ≠ [] := by
  have hparse : textRecord.decoder.parse (String.ofList (opening ++ cs)) = .ok t := by
    rw [objectText?] at h
    cases hparse : textRecord.decoder.parse (String.ofList (opening ++ cs)) with
    | error f =>
      rw [hparse] at h
      cases h
    | ok s =>
      rw [hparse] at h
      cases h
      rfl
  obtain ⟨_, hread, -⟩ := exists_of_readAll_ok hparse
  rw [String.toList_ofList, read_opening, Record.readObject] at hread
  obtain ⟨_, hread, -⟩ := closeObject_eq_ok_iff.mp hread
  rw [readMembers, nextName_opening] at hread
  dsimp only at hread
  rw [show textRecord.start = none from rfl, readMember_text] at hread
  cases hchars : readChars [] cs with
  | error f =>
    rw [hchars] at hread
    cases hread
  | ok read =>
    obtain ⟨s, rest⟩ := read
    rw [hchars] at hread
    dsimp only [Except.map] at hread
    cases hmembers : readMembers (textRecord.readMember 126)
        ("\"textsearch\":\"".toList ++ cs).length false (some s, []) rest with
    | error f =>
      rw [hmembers] at hread
      cases hread
    | ok found =>
      obtain ⟨known, after⟩ := found
      have hknown : known = (some s, []) := by
        refine readMembers_invariant (I := (· = (some s, []))) ?_ rfl hmembers
        rintro name _ cs next rest rfl hmember
        exact readMember_found hmember
      rw [hmembers, hknown] at hread
      cases hread
      refine ⟨rest, rfl, ?_⟩
      rintro rfl
      cases hmembers

/-- A text that an address bar does no harm to: a JSON string holds it as it is, and percent
decoding leaves it alone. -/
structure IsPlain (text : String) : Prop where
  literal : ∀ c ∈ text.toList, IsLiteral c
  uncoded : Percent.decode text.toList = text

/-- The search text, decoded along with the value that holds it. -/
def bare (text : String) : List Char := opening ++ (text.toList ++ closing)

theorem objectText?_bare {text : String} (h : ∀ c ∈ text.toList, IsLiteral c) :
    objectText? (String.ofList (bare text)) = some text := by
  have hescape : text.toList.flatMap escape = text.toList := by
    rw [List.flatMap_def, List.map_congr_left fun c hc => (h c hc).escape_eq, ← List.flatMap_def,
      List.flatMap_singleton']
  have hbare : bare text = (Json.object [("textsearch", .string text)]).compact.toList := by
    rw [compact_object, hescape, List.append_assoc]
    rfl
  rw [hbare, String.ofList_toList, objectText?_object]

/-- Only what was not escaped comes back.  Reading a string and decoding it make it no longer, so a
text as long as before was read to the closing quote, every character for itself. -/
theorem isPlain_of_objectText? {text t : String}
    (h : objectText? (String.ofList (bare text)) = some t)
    (hdecode : Percent.decode t.toList = text) : IsPlain text := by
  obtain ⟨rest, hchars, hrest⟩ := readChars_of_objectText? h
  obtain ⟨read, rfl, hreads⟩ := readChars_eq_ok hchars
  rw [List.reverse_nil, List.nil_append, String.toList_ofList] at hdecode
  have hdecoded := Percent.length_decode_le read
  rw [hdecode] at hdecoded
  have hpositive : 0 < rest.length := List.length_pos_iff.mpr hrest
  have hlength := length_le_length_bytes rest
  have hclosing : (bytes closing).length = 2 := by decide
  rcases hreads with ⟨hread, hliteral⟩ | hshorter
  · have hbytes : (bytes _).length = (bytes _).length :=
      congrArg (fun cs => (bytes cs).length) hread
    rw [length_bytes_append, length_bytes_append, length_bytes_cons, hclosing,
      show Char.utf8Size '"' = 1 from rfl] at hbytes
    have hone : closing.length = ('"' :: rest).length := by
      rw [List.length_cons]
      show 2 = rest.length + 1
      omega
    rw [← List.append_inj_left' hread hone] at hliteral hdecode
    exact ⟨hliteral, hdecode⟩
  · rw [length_bytes_append, hclosing] at hshorter
    omega

/-! ## Links in an address bar -/

def escapeQuote (c : Char) : List Char := if c = '"' then "%22".toList else [c]

/-- A query string as an address bar writes it: each quote is escaped, everything else stays. -/
def escapeQuotes (query : String) : String := String.ofList (query.toList.flatMap escapeQuote)

theorem flatMap_escapeQuote {cs : List Char} (h : '"' ∉ cs) : cs.flatMap escapeQuote = cs := by
  have hsingle : ∀ c ∈ cs, escapeQuote c = [c] :=
    fun c hc => if_neg fun heq : c = '"' => h (heq ▸ hc)
  rw [List.flatMap_def, List.map_congr_left hsingle, ← List.flatMap_def, List.flatMap_singleton']

theorem flatMap_escapeQuote_join (sep : Char) (hsep : sep ≠ '"') (parts : List (List Char)) :
    (join sep parts).flatMap escapeQuote = join sep (parts.map (·.flatMap escapeQuote)) := by
  have hkept : escapeQuote sep = [sep] := if_neg hsep
  induction parts with
  | nil => rfl
  | cons first rest ih =>
    cases rest with
    | nil => rw [List.map_singleton, join_singleton, join_singleton]
    | cons second rest =>
      rw [List.map_cons, List.map_cons, join_cons_cons, join_cons_cons, List.flatMap_append,
        List.flatMap_cons, hkept, List.singleton_append, ih, List.map_cons]

theorem escapeQuotes_queryString (parameters : List (List Char)) :
    escapeQuotes (queryString parameters) =
      queryString (parameters.map (·.flatMap escapeQuote)) := by
  cases parameters with
  | nil => rfl
  | cons first rest =>
    have hjoin := flatMap_escapeQuote_join '&' (by decide) (first :: rest)
    rw [List.map_cons] at hjoin
    rw [queryString, escapeQuotes, String.toList_ofList, List.flatMap_cons, hjoin]
    · rfl
    · exact List.cons_ne_nil first rest

theorem not_quote_encode (cs : List Char) : '"' ∉ Percent.encode cs :=
  fun h => absurd (Percent.inert_of_mem_encode h) (by decide)

theorem flatMap_escapeQuote_compact (text : String) :
    (textObject text).compact.toList.flatMap escapeQuote =
      "\x7b%22textsearch%22:%22".toList ++ (Percent.encode text.toList ++ "%22\x7d".toList) := by
  rw [compact_textObject, List.flatMap_append, List.flatMap_append,
    flatMap_escapeQuote (not_quote_encode text.toList), List.append_assoc]
  rfl

theorem decode?_escaped (text : String) :
    Percent.decode? ((textObject text).compact.toList.flatMap escapeQuote) =
      some (String.ofList (bare text)) := by
  have hopening : ∀ cs, Percent.decodeBytes ("\x7b%22textsearch%22:%22".toList ++ cs) =
      bytes opening ++ Percent.decodeBytes cs := fun _ => rfl
  have hclosing : Percent.decodeBytes "%22\x7d".toList = bytes closing := by decide
  have hbytes : bytes (bare text) =
      bytes opening ++ (bytes text.toList ++ bytes closing) := by
    rw [bare, bytes, List.flatMap_append, List.flatMap_append, bytes, bytes, bytes]
  rw [flatMap_escapeQuote_compact, Percent.decode?, hopening, Percent.decodeBytes_encode_append,
    hclosing, ← hbytes, ofBytes?_bytes]

/-- A value that begins with an escaped quote is no JSON before it is decoded. -/
theorem objectText?_escaped (cs : List Char) :
    objectText? (String.ofList ("\x7b%22textsearch%22:%22".toList ++ cs)) = none := by
  rw [objectText?, Json.Decoder.parse, Json.readAll, String.toList_ofList]
  rfl

theorem parameterText?_escaped (text : String) :
    parameterText? ((textObject text).compact.toList.flatMap escapeQuote) =
      objectText? (String.ofList (bare text)) := by
  rw [parameterText?, decode?_escaped, Option.bind_some, flatMap_escapeQuote_compact,
    objectText?_escaped, Option.none_or]

/-- The search text that comes back. -/
def unescaped (text : String) : String :=
  if text = "" then ""
  else ((objectText? (String.ofList (bare text))).map fun t => Percent.decode t.toList).getD ""

theorem unescaped_eq_iff {text : String} : unescaped text = text ↔ IsPlain text := by
  unfold unescaped
  split
  next hempty =>
    subst hempty
    exact ⟨fun _ => ⟨fun c hc => absurd hc List.not_mem_nil, rfl⟩, fun _ => rfl⟩
  next hne =>
    constructor
    · intro h
      cases hobject : objectText? (String.ofList (bare text)) with
      | none =>
        rw [hobject] at h
        exact absurd h.symm hne
      | some t =>
        rw [hobject] at h
        exact isPlain_of_objectText? hobject h
    · intro h
      rw [objectText?_bare h.literal, Option.map_some, Option.getD_some, h.uncoded]

theorem foldl_escaped_textParameter (text : String) :
    ((textParameter text).map (·.flatMap escapeQuote)).foldl readParameter {} =
      ⟨unescaped text, []⟩ := by
  by_cases h : text = ""
  · rw [h]
    rfl
  · have hname : "filters".toList.flatMap escapeQuote = "filters".toList := by decide
    have hequals : escapeQuote '=' = ['='] := by decide
    rw [textParameter_eq h, List.map_singleton, List.flatMap_append, List.flatMap_cons, hname,
      hequals, List.singleton_append, List.foldl_cons, List.foldl_nil, unescaped, if_neg h]
    cases hobject : objectText? (String.ofList (bare text)) with
    | none =>
      rw [readParameter, cut_append (by decide)]
      simp [parameterText?_escaped, hobject]
    | some t => rw [readParameter_text {} ((parameterText?_escaped text).trans hobject)]; rfl

theorem escaped_relatedParameter (related : List String) :
    (relatedParameter related).map (·.flatMap escapeQuote) = relatedParameter related := by
  by_cases h : related = []
  · rw [h]
    rfl
  · have hquote : '"' ∉ "showrelated".toList ++ '=' :: join ',' (related.map fun kind =>
        Percent.encode kind.toList) := by
      rw [List.mem_append, List.mem_cons, not_or, not_or]
      refine ⟨by decide, by decide, fun hc => ?_⟩
      rcases mem_join hc with hcomma | ⟨part, hpart, hc⟩
      · cases hcomma
      · obtain ⟨kind, -, rfl⟩ := List.mem_map.mp hpart
        exact not_quote_encode kind.toList hc
    rw [relatedParameter_eq h, List.map_singleton, flatMap_escapeQuote hquote]

theorem isParameter_flatMap {parameter : List Char} (h : IsParameter parameter) :
    IsParameter (parameter.flatMap escapeQuote) := by
  have hcode : ∀ c ∈ ['&', '#'], c ∉ "%22".toList :=
    List.forall_mem_cons.mpr ⟨by decide, List.forall_mem_singleton.mpr (by decide)⟩
  have hstays : ∀ c ∈ ['&', '#'], c ∈ parameter.flatMap escapeQuote → c ∈ parameter := by
    intro c hc hmem
    obtain ⟨d, hd, hcd⟩ := List.mem_flatMap.mp hmem
    unfold escapeQuote at hcd
    split at hcd
    · exact absurd hcd (hcode c hc)
    · cases List.mem_singleton.mp hcd
      exact hd
  exact ⟨fun hc => h.1 (hstays _ (by decide) hc), fun hc => h.2 (hstays _ (by decide) hc)⟩

theorem decode_escapeQuotes (l : Link) :
    decode (escapeQuotes l.encode) = ⟨unescaped l.text, l.related.filter (· ≠ "")⟩ := by
  have hpath : IsPath "" := ⟨by decide, by decide, by decide⟩
  have hfragment : IsFragment "" := by simp [IsFragment]
  have hparameters : ∀ parameter ∈ l.parameters.map (·.flatMap escapeQuote),
      IsParameter parameter := by
    intro parameter hmap
    obtain ⟨original, hparameter, rfl⟩ := List.mem_map.mp hmap
    exact isParameter_flatMap (isParameter_parameters l original hparameter).1
  have hwithin := decode_within hpath hfragment hparameters
  rw [String.empty_append, String.append_empty] at hwithin
  rw [encode_eq, escapeQuotes_queryString, hwithin, parameters, List.map_append,
    List.foldl_append, foldl_escaped_textParameter, escaped_relatedParameter,
    (foldl_relatedParameter _ _).1]

/-- After an address bar has escaped the quotes of a link, its kinds are as before, and its text is
so exactly if a JSON string holds the text as it is and percent decoding leaves it alone. -/
theorem decode_escapeQuotes_text_iff (l : Link) :
    (decode (escapeQuotes l.encode)).related = l.named.related ∧
      ((decode (escapeQuotes l.encode)).text = l.text ↔
        (∀ c ∈ l.text.toList, c ≠ '"' ∧ c ≠ '\\' ∧ ¬ c.toNat < 32) ∧
          Percent.decode l.text.toList = l.text) := by
  rw [decode_escapeQuotes]
  refine ⟨rfl, unescaped_eq_iff.trans ⟨fun h => ⟨fun c hc => ?_, h.uncoded⟩, fun h => ?_⟩⟩
  · have hliteral := h.literal c hc
    exact ⟨hliteral.quote, hliteral.backslash, hliteral.control⟩
  · exact ⟨fun c hc => ⟨(h.1 c hc).1, (h.1 c hc).2.1, (h.1 c hc).2.2⟩, h.2⟩

/-- A text with quotes is lost, and one that reads like a percent code is taken for what it codes.
-/
theorem decode_escapeQuotes_quoted :
    let quoted : Link := ⟨"name:\"a&b\" kind:pod,deployment cpu:>=2 100%", ["pod", "config map"]⟩
    let coded : Link := ⟨"100%25", []⟩
    "" ∉ quoted.related ∧
      decode (escapeQuotes quoted.encode) = ⟨"", ["pod", "config map"]⟩ ∧
      decode (escapeQuotes coded.encode) = ⟨"100%", []⟩ := by
  intro quoted coded
  refine ⟨by decide, ?_, ?_⟩
  · exact (decode_escapeQuotes quoted).trans (by decide +kernel)
  · exact (decode_escapeQuotes coded).trans (by decide +kernel)

end Link
end ResourceSearch
