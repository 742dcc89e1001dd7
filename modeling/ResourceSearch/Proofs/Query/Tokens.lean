import ResourceSearch.Proofs.Query.WellFormed

/-!
What a search keeps of its text.  Compiling keeps the words of a text and its finished filters, both
in their order and letter by letter, and forgets all else: the spaces, how words and filters stand
among each other, and the filters that stop at an operator.  So two texts are the same search if and
only if they have the same words and the same finished filters (`compile_eq_iff`).
-/

namespace ResourceSearch
namespace Query

/-- What stands between the spaces of a text.  Nothing between two spaces is not a part. -/
def parts (text : List Char) : List (List Char) := (Text.split ' ' text).filter (· ≠ [])

/-- The parts of a text that have no colon. -/
def words (text : List Char) : List (List Char) := (parts text).filter (':' ∉ ·)

/-- What stands after the first colon, up to the next comma. -/
def firstValue (part : List Char) : List Char :=
  ((part.dropWhile (· ≠ ':')).drop 1).takeWhile (· ≠ ',')

/-- A part with a colon that does not stop at an operator. -/
def IsFinished (part : List Char) : Prop :=
  ':' ∈ part ∧ String.ofList (firstValue part) ∉ operators

instance (part : List Char) : Decidable (IsFinished part) :=
  inferInstanceAs (Decidable (_ ∧ _))

def finishedFilters (text : List Char) : List (List Char) := (parts text).filter IsFinished

/-- Two texts with the same words and the same finished filters. -/
def SameParts (s t : String) : Prop :=
  words s.toList = words t.toList ∧ finishedFilters s.toList = finishedFilters t.toList

/-! ## One part -/

namespace Token

theorem ofChars_of_not_mem {part : List Char} (h : ':' ∉ part) : ofChars part = .keyword part := by
  rw [ofChars, Text.cut_eq_none_iff.mpr h]

/-- The parts around the first colon, and the first value that stands after it. -/
theorem exists_of_mem {part : List Char} (h : ':' ∈ part) :
    ∃ property values, part = property ++ ':' :: values ∧ ofChars part = .filter property values ∧
      firstValue part = values.takeWhile (· ≠ ',') := by
  cases hcut : Text.cut ':' part with
  | none => exact absurd h (Text.cut_eq_none_iff.mp hcut)
  | some halves =>
    obtain ⟨property, values⟩ := halves
    obtain ⟨rfl, hproperty⟩ := Text.cut_eq_some_iff.mp hcut
    have hdrop : (property ++ ':' :: values).dropWhile (· ≠ ':') = ':' :: values := by
      rw [List.dropWhile_append_of_pos, List.dropWhile_cons_of_neg (by decide)]
      intro c hc
      have hne : c ≠ ':' := fun heq => hproperty (heq ▸ hc)
      simpa using hne
    refine ⟨property, values, rfl, ?_, ?_⟩
    · rw [ofChars, hcut]
    · rw [firstValue, hdrop]
      rfl

/-- A part is a word if it has no colon. -/
theorem keyword?_ofChars (part : List Char) :
    (ofChars part).keyword?.map String.toList = if ':' ∉ part then some part else none := by
  by_cases h : ':' ∈ part
  · obtain ⟨property, values, -, hofChars, -⟩ := exists_of_mem h
    rw [if_neg (not_not_intro h), hofChars]
    rfl
  · rw [if_pos h, ofChars_of_not_mem h, keyword?, Option.map_some, String.toList_ofList]

theorem writeFilter_ofList (property values : List Char) :
    writeFilter ⟨String.ofList property, (Text.split ',' values).map String.ofList⟩ =
      property ++ ':' :: values := by
  have hid : String.toList ∘ String.ofList = id := funext fun _ => String.toList_ofList
  rw [writeFilter, String.toList_ofList, List.map_map, hid, List.map_id,
    Text.join_split]

/-- A part is a filter if it is finished, and is then the text of that filter. -/
theorem filter?_ofChars (part : List Char) :
    (ofChars part).filter?.map writeFilter = if IsFinished part then some part else none := by
  by_cases h : ':' ∈ part
  · obtain ⟨property, values, hpart, hofChars, hfirst⟩ := exists_of_mem h
    have hhead : ((Text.split ',' values).map String.ofList).head? =
        some (String.ofList (firstValue part)) := by
      rw [List.head?_map, Text.head?_split, hfirst, Option.map_some]
    rw [hofChars]
    simp only [filter?, hhead, Option.any_some]
    by_cases hoperator : String.ofList (firstValue part) ∈ operators
    · rw [if_pos (isOperator_iff.mpr hoperator), if_neg fun hdone => hdone.2 hoperator,
        Option.map_none]
    · rw [if_neg (mt isOperator_iff.mp hoperator), if_pos ⟨h, hoperator⟩, Option.map_some,
        writeFilter_ofList, ← hpart]
  · rw [if_neg fun hdone => h hdone.1, ofChars_of_not_mem h, filter?, Option.map_none]

end Token

/-! ## All parts of a text -/

theorem filterMap_ite {α : Type} (p : α → Prop) [DecidablePred p] (xs : List α) :
    xs.filterMap (fun x => if p x then some x else none) = xs.filter p := by
  rw [← List.filterMap_eq_filter]
  refine List.filterMap_congr fun x _ => ?_
  by_cases h : p x <;> simp [Option.guard, h]

theorem mem_parts_iff {text part : List Char} :
    part ∈ parts text ↔ part ∈ Text.split ' ' text ∧ part ≠ [] := by
  simp [parts]

theorem parts_eq_split {text : List Char} (h : [] ∉ Text.split ' ' text) :
    parts text = Text.split ' ' text := by
  refine List.filter_eq_self.mpr fun part hpart => ?_
  have hne : part ≠ [] := fun hnil => h (hnil ▸ hpart)
  simpa using hne

/-- Of texts that are joined by spaces, those that are not empty are the parts of the whole. -/
theorem parts_join {ps : List (List Char)} (hspace : ∀ part ∈ ps, ' ' ∉ part) :
    parts (Text.join ' ' ps) = ps.filter (· ≠ []) := by
  by_cases hps : ps = []
  · subst hps
    rfl
  · rw [parts, Text.split_join hps hspace]

/-- The words and filters of a search, part by part. -/
theorem compile_eq_filterMap (text : String) : compile text =
    { keywords := (parts text.toList).filterMap fun part => (Token.ofChars part).keyword?
      filters := (parts text.toList).filterMap fun part => (Token.ofChars part).filter? } :=
  congrArg₂ Query.mk List.filterMap_map List.filterMap_map

theorem keywords_compile (text : String) :
    (compile text).keywords.map String.toList = words text.toList := by
  rw [compile_eq_filterMap, List.map_filterMap,
    List.filterMap_congr fun part _ => Token.keyword?_ofChars part, filterMap_ite]
  rfl

theorem filters_compile (text : String) :
    (compile text).filters.map writeFilter = finishedFilters text.toList := by
  rw [compile_eq_filterMap, List.map_filterMap,
    List.filterMap_congr fun part _ => Token.filter?_ofChars part, filterMap_ite]
  rfl

/-- Filters that a token can say are the same if they have the same texts. -/
theorem filters_eq_of_map_writeFilter {fs gs : List Filter} (hf : ∀ f ∈ fs, f.WellFormed)
    (hg : ∀ g ∈ gs, g.WellFormed) (h : fs.map writeFilter = gs.map writeFilter) : fs = gs := by
  have hread : ∀ hs : List Filter, (∀ f ∈ hs, f.WellFormed) →
      (hs.map writeFilter).filterMap (fun part => (Token.ofChars part).filter?) = hs := by
    intro hs hwell
    rw [List.filterMap_map]
    exact (List.filterMap_congr fun f hf => Token.filter?_writeFilter (hwell f hf)).trans
      List.filterMap_some
  rw [← hread fs hf, h, hread gs hg]

/-- Two texts are the same search if and only if they have the same words and the same finished
filters. -/
theorem compile_eq_iff (s t : String) : compile s = compile t ↔ SameParts s t := by
  constructor
  · intro h
    refine ⟨?_, ?_⟩
    · rw [← keywords_compile, h, keywords_compile]
    · rw [← filters_compile, h, filters_compile]
  · rintro ⟨hwords, hfilters⟩
    have hinjective : Function.Injective String.toList := fun _ _ => String.toList_inj.mp
    rw [← keywords_compile, ← keywords_compile] at hwords
    rw [← filters_compile, ← filters_compile] at hfilters
    exact congrArg₂ Query.mk (List.map_injective_iff.mpr hinjective hwords)
      (filters_eq_of_map_writeFilter (wellFormed_compile s).filters (wellFormed_compile t).filters
        hfilters)

end Query
end ResourceSearch
