import Mathlib.Data.List.Basic
import ResourceSearch.Proofs.Text.Split
import ResourceSearch.Query.Syntax

/-!
The searches that a text can say.  Their words and filters hold none of the characters that would
make them something else, and no filter stops at an operator (`WellFormed`).  These are the searches
that compiling gives, and the ones that compiling gets back from their text
(`compile_serialize_iff`).
-/

namespace ResourceSearch

/-- A filter that a token can say. -/
structure Filter.WellFormed (f : Filter) : Prop where
  property_space : ' ' ∉ f.property.toList
  property_colon : ':' ∉ f.property.toList
  values_ne_nil : f.values ≠ []
  value_space : ∀ v ∈ f.values, ' ' ∉ v.toList
  value_comma : ∀ v ∈ f.values, ',' ∉ v.toList
  first_value : ∀ v ∈ f.values.head?, v ∉ Query.operators

namespace Query

/-- A word that a token can say. -/
structure IsWord (w : String) : Prop where
  ne_empty : w ≠ ""
  space : ' ' ∉ w.toList
  colon : ':' ∉ w.toList

structure WellFormed (q : Query) : Prop where
  keywords : ∀ w ∈ q.keywords, IsWord w
  filters : ∀ f ∈ q.filters, f.WellFormed

theorem isOperator_iff {value : String} : isOperator value = true ↔ value ∈ operators :=
  List.contains_iff_mem

/-! ## One token -/

namespace Token

theorem ofChars_word {w : String} (h : IsWord w) : ofChars w.toList = .keyword w.toList := by
  rw [ofChars, Text.cut_eq_none_iff.mpr h.colon]

theorem ofChars_writeFilter {f : Filter} (h : f.WellFormed) :
    ofChars (writeFilter f) =
      .filter f.property.toList (Text.join ',' (f.values.map String.toList)) := by
  rw [ofChars, writeFilter, Text.cut_append h.property_colon]

theorem keyword?_keyword (w : String) : (Token.keyword w.toList).keyword? = some w := by
  rw [keyword?, String.ofList_toList]

theorem map_ofList_toList (values : List String) :
    (values.map String.toList).map String.ofList = values := by
  rw [List.map_map]
  have hid : ∀ v ∈ values, (String.ofList ∘ String.toList) v = v := fun v _ => String.ofList_toList
  rw [List.map_congr_left hid, List.map_id']

theorem filter?_writeFilter {f : Filter} (h : f.WellFormed) :
    (ofChars (writeFilter f)).filter? = some f := by
  have hne : f.values.map String.toList ≠ [] := mt List.map_eq_nil_iff.mp h.values_ne_nil
  have hcomma : ∀ part ∈ f.values.map String.toList, ',' ∉ part := by
    intro part hpart
    obtain ⟨v, hv, rfl⟩ := List.mem_map.mp hpart
    exact h.value_comma v hv
  have hfirst : f.values.head?.any isOperator = false := by
    cases hhead : f.values.head? with
    | none => rfl
    | some v => exact Bool.eq_false_iff.mpr (mt isOperator_iff.mp (h.first_value v hhead))
  rw [ofChars_writeFilter h, filter?, Text.split_join hne hcomma, map_ofList_toList]
  simp [hfirst]

/-- A token without spaces is a word or a filter that a text can say, or is not finished. -/
theorem isWord_of_keyword? {cs : List Char} {w : String} (hne : cs ≠ []) (hspace : ' ' ∉ cs)
    (h : (ofChars cs).keyword? = some w) : IsWord w := by
  unfold ofChars at h
  split at h
  · cases h
  · rename_i hcut
    cases h
    refine ⟨?_, ?_, ?_⟩
    · simpa using hne
    · rwa [String.toList_ofList]
    · rw [String.toList_ofList]
      exact Text.cut_eq_none_iff.mp hcut

theorem wellFormed_of_filter? {cs : List Char} {f : Filter} (hspace : ' ' ∉ cs)
    (h : (ofChars cs).filter? = some f) : f.WellFormed := by
  unfold ofChars at h
  split at h
  · rename_i property values hcut
    obtain ⟨rfl, hcolon⟩ := Text.cut_eq_some_iff.mp hcut
    rw [List.mem_append, List.mem_cons, not_or, not_or] at hspace
    obtain ⟨hproperty, -, hvalues⟩ := hspace
    dsimp only [filter?] at h
    split at h
    · cases h
    · rename_i hfirst
      cases h
      refine ⟨?_, ?_, ?_, ?_, ?_, ?_⟩
      · rwa [String.toList_ofList]
      · rwa [String.toList_ofList]
      · exact mt List.map_eq_nil_iff.mp (Text.split_ne_nil ',' values)
      · intro v hv
        obtain ⟨part, hpart, rfl⟩ := List.mem_map.mp hv
        rw [String.toList_ofList]
        exact fun hc => hvalues (Text.mem_of_mem_split hpart hc)
      · intro v hv
        obtain ⟨part, hpart, rfl⟩ := List.mem_map.mp hv
        rw [String.toList_ofList]
        exact Text.not_mem_of_mem_split hpart
      · intro v hv hoperator
        rw [Option.mem_def] at hv
        rw [hv, Option.any_some, isOperator_iff] at hfirst
        exact hfirst hoperator
  · cases h

end Token

/-! ## All tokens of a text -/

/-- The tokens of some texts that are joined by spaces. -/
theorem tokens_join {parts : List (List Char)} (hne : ∀ part ∈ parts, part ≠ [])
    (hspace : ∀ part ∈ parts, ' ' ∉ part) :
    tokens (Text.join ' ' parts) = parts.map Token.ofChars := by
  by_cases hparts : parts = []
  · subst hparts
    rfl
  · rw [tokens, Text.split_join hparts hspace, List.filter_eq_self.mpr (by simpa using hne)]

theorem mem_tokens {text : List Char} {t : Token} (h : t ∈ tokens text) :
    ∃ cs, cs ≠ [] ∧ ' ' ∉ cs ∧ t = Token.ofChars cs := by
  obtain ⟨cs, hcs, rfl⟩ := List.mem_map.mp h
  obtain ⟨hpart, hne⟩ := List.mem_filter.mp hcs
  exact ⟨cs, by simpa using hne, Text.not_mem_of_mem_split hpart, rfl⟩

theorem wellFormed_compile (text : String) : (compile text).WellFormed := by
  constructor
  · intro w hw
    obtain ⟨t, ht, htw⟩ := List.mem_filterMap.mp hw
    obtain ⟨cs, hne, hspace, rfl⟩ := mem_tokens ht
    exact Token.isWord_of_keyword? hne hspace htw
  · intro f hf
    obtain ⟨t, ht, htf⟩ := List.mem_filterMap.mp hf
    obtain ⟨cs, -, hspace, rfl⟩ := mem_tokens ht
    exact Token.wellFormed_of_filter? hspace htf

theorem writeFilter_ne_nil (f : Filter) : writeFilter f ≠ [] := by
  simp [writeFilter]

theorem space_not_mem_writeFilter {f : Filter} (h : f.WellFormed) : ' ' ∉ writeFilter f := by
  rw [writeFilter, List.mem_append, List.mem_cons, not_or, not_or]
  refine ⟨h.property_space, by decide, ?_⟩
  intro hmem
  rcases Text.mem_join hmem with hcomma | ⟨part, hpart, hc⟩
  · cases hcomma
  · obtain ⟨v, hv, rfl⟩ := List.mem_map.mp hpart
    exact h.value_space v hv hc

theorem tokens_serialize {q : Query} (h : q.WellFormed) :
    tokens q.serialize.toList = q.keywords.map (fun w => .keyword w.toList) ++
      q.filters.map fun f => Token.ofChars (writeFilter f) := by
  rw [serialize, String.toList_ofList, tokens_join, List.map_append, List.map_map, List.map_map]
  · refine congrArg (· ++ _) (List.map_congr_left fun w hw => ?_)
    exact Token.ofChars_word (h.keywords w hw)
  · intro part hpart
    rcases List.mem_append.mp hpart with hpart | hpart
    · obtain ⟨w, hw, rfl⟩ := List.mem_map.mp hpart
      exact mt String.toList_eq_nil_iff.mp (h.keywords w hw).ne_empty
    · obtain ⟨f, -, rfl⟩ := List.mem_map.mp hpart
      exact writeFilter_ne_nil f
  · intro part hpart
    rcases List.mem_append.mp hpart with hpart | hpart
    · obtain ⟨w, hw, rfl⟩ := List.mem_map.mp hpart
      exact (h.keywords w hw).space
    · obtain ⟨f, hf, rfl⟩ := List.mem_map.mp hpart
      exact space_not_mem_writeFilter (h.filters f hf)

theorem keywords_compile_serialize {q : Query} (h : q.WellFormed) :
    (compile q.serialize).keywords = q.keywords := by
  have hwords : q.keywords.filterMap (fun w => (Token.keyword w.toList).keyword?) = q.keywords := by
    rw [List.filterMap_congr fun w _ => Token.keyword?_keyword w, List.filterMap_some]
  have hfilters : q.filters.filterMap (fun f => (Token.ofChars (writeFilter f)).keyword?) = [] := by
    refine List.filterMap_eq_nil_iff.mpr fun f hf => ?_
    rw [Token.ofChars_writeFilter (h.filters f hf)]
    rfl
  show (tokens q.serialize.toList).filterMap Token.keyword? = q.keywords
  rw [tokens_serialize h, List.filterMap_append, List.filterMap_map, List.filterMap_map]
  exact (congrArg₂ (· ++ ·) hwords hfilters).trans (List.append_nil _)

theorem filters_compile_serialize {q : Query} (h : q.WellFormed) :
    (compile q.serialize).filters = q.filters := by
  have hwords : q.keywords.filterMap (fun w => (Token.keyword w.toList).filter?) = [] :=
    List.filterMap_eq_nil_iff.mpr fun _ _ => rfl
  have hfilters : q.filters.filterMap (fun f => (Token.ofChars (writeFilter f)).filter?) =
      q.filters := by
    rw [List.filterMap_congr fun f hf => Token.filter?_writeFilter (h.filters f hf),
      List.filterMap_some]
  show (tokens q.serialize.toList).filterMap Token.filter? = q.filters
  rw [tokens_serialize h, List.filterMap_append, List.filterMap_map, List.filterMap_map]
  exact congrArg₂ (· ++ ·) hwords hfilters

/-- A search that a text can say is said by its own text. -/
theorem compile_serialize {q : Query} (h : q.WellFormed) : compile q.serialize = q :=
  congrArg₂ Query.mk (keywords_compile_serialize h) (filters_compile_serialize h)

/-- Compiling gets a search back from its text if and only if the search is well formed, and these
are the searches that compiling gives at all.  So compiling what was compiled changes nothing. -/
theorem compile_serialize_iff (q : Query) :
    (compile q.serialize = q ↔ q.WellFormed) ∧ ((∃ text, q = compile text) ↔ q.WellFormed) ∧
      ∀ text, compile (compile text).serialize = compile text := by
  refine ⟨⟨?_, compile_serialize⟩, ⟨?_, fun h => ⟨q.serialize, (compile_serialize h).symm⟩⟩, ?_⟩
  · intro h
    rw [← h]
    exact wellFormed_compile _
  · rintro ⟨text, rfl⟩
    exact wellFormed_compile text
  · exact fun text => compile_serialize (wellFormed_compile text)

end Query
end ResourceSearch
