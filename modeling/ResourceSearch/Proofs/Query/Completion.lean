import ResourceSearch.Proofs.Query.Tokens
import ResourceSearch.Query.Completion

/-!
What the search bar asks the service.  Text that stops in the middle of a filter asks for the values
of its last property, among what the text finds without the filters on that property
(`completionRequest_cases`).  Leaving filters out of a search is the same as leaving their tokens
out of the text (`compile_without`).
-/

namespace ResourceSearch
namespace Query

/-- A text that ends with a colon, or with a character that an operator ends with. -/
def EndsOpen (text : List Char) : Prop :=
  ∃ c ∈ [':', '=', '<', '>', '!'], text.getLast? = some c

/-- What stands behind the last space of a text, without one colon at its end if there is one. -/
def IsTarget (text property : List Char) : Prop :=
  ∃ last, (Text.split ' ' text).getLast? = some last ∧
    (last = property ++ [':'] ∨ last = property ∧ last.getLast? ≠ some ':')

/-- A part of a text with a colon, and with some property before the first one. -/
def IsFilterOn (property part : List Char) : Prop :=
  ':' ∈ part ∧ part.takeWhile (· ≠ ':') = property

instance (property part : List Char) : Decidable (IsFilterOn property part) :=
  inferInstanceAs (Decidable (_ ∧ _))

/-- A text without its filters on a property.  All spaces stay that separate the others. -/
def without (property text : List Char) : List Char :=
  Text.join ' ' ((Text.split ' ' text).filter (¬ IsFilterOn property ·))

/-! ## The end of a text -/

theorem asksForValue_iff (text : List Char) : asksForValue text = true ↔ EndsOpen text := by
  have hends : ∀ op ∈ ":" :: operators,
      ∃ c ∈ [':', '=', '<', '>', '!'], op.toList.getLast? = some c := by
    simp [operators]
  have hsingle : ∀ c ∈ [':', '=', '<', '>', '!'], ∃ op ∈ ":" :: operators, op.toList = [c] := by
    simp [operators]
  simp only [asksForValue, List.any_eq_true, List.isSuffixOf_iff_suffix]
  constructor
  · rintro ⟨op, hop, before, rfl⟩
    obtain ⟨c, hc, hlast⟩ := hends op hop
    exact ⟨c, hc, by rw [List.getLast?_append, hlast, Option.some_or]⟩
  · rintro ⟨c, hc, hlast⟩
    obtain ⟨front, rfl⟩ := List.getLast?_eq_some_iff.mp hlast
    obtain ⟨op, hop, hchars⟩ := hsingle c hc
    exact ⟨op, hop, front, by rw [hchars]⟩

theorem isTarget_iff {text property : List Char} :
    IsTarget text property ↔ property = target text := by
  rw [IsTarget, target, Text.getLast?_split, Text.dropLastIf]
  generalize Text.afterLast ' ' text = last
  simp only [Option.some.injEq, exists_eq_left']
  split
  next hcolon =>
    obtain ⟨front, rfl⟩ := List.getLast?_eq_some_iff.mp hcolon
    rw [List.dropLast_concat, List.append_left_inj]
    constructor
    · rintro (heq | ⟨-, hother⟩)
      · exact heq.symm
      · exact absurd hcolon hother
    · exact fun heq => .inl heq.symm
  next hother =>
    constructor
    · rintro (rfl | ⟨heq, -⟩)
      · exact absurd List.getLast?_concat hother
      · exact heq.symm
    · exact fun heq => .inr ⟨heq.symm, hother⟩

/-! ## Leaving filters out -/

namespace Token

/-- The filter of a part is on the property before the first colon. -/
theorem isFilterOn_of_filter? {part : List Char} {f : Filter}
    (h : (ofChars part).filter? = some f) (property : List Char) :
    IsFilterOn property part ↔ f.property = String.ofList property := by
  by_cases hcolon : ':' ∈ part
  · cases hcut : Text.cut ':' part with
    | none => exact absurd hcolon (Text.cut_eq_none_iff.mp hcut)
    | some halves =>
      obtain ⟨name, values⟩ := halves
      obtain ⟨rfl, hname⟩ := Text.cut_eq_some_iff.mp hcut
      have hbefore : (name ++ ':' :: values).takeWhile (· ≠ ':') = name := by
        rw [Text.takeWhile_append hname, List.takeWhile_cons_of_neg (by decide), List.append_nil]
      rw [ofChars, hcut, filter?] at h
      split at h
      · cases h
      · cases h
        rw [IsFilterOn, hbefore, and_iff_right hcolon, String.ofList_inj]
  · rw [ofChars_of_not_mem hcolon] at h
    cases h

theorem filter?_unless (property part : List Char) :
    (if ¬ IsFilterOn property part then (ofChars part).filter? else none) =
      (ofChars part).filter?.filter (·.property ≠ String.ofList property) := by
  cases hfilter : (ofChars part).filter? with
  | none => rw [ite_self, Option.filter_none]
  | some f =>
    have hon := isFilterOn_of_filter? hfilter property
    by_cases hp : f.property = String.ofList property
    · rw [if_neg (not_not_intro (hon.mpr hp)), Option.filter_some_neg (by simpa using hp)]
    · rw [if_pos (mt hon.mp hp), Option.filter_some_pos (by simpa using hp)]

theorem keyword?_unless (property part : List Char) :
    (if ¬ IsFilterOn property part then (ofChars part).keyword? else none) =
      (ofChars part).keyword? := by
  by_cases hcolon : ':' ∈ part
  · obtain ⟨name, values, -, hofChars, -⟩ := exists_of_mem hcolon
    rw [hofChars, keyword?, ite_self]
  · rw [if_pos fun hon => hcolon hon.1]

end Token

theorem parts_without (property text : List Char) :
    parts (without property text) = (parts text).filter (¬ IsFilterOn property ·) := by
  rw [without, parts_join fun part hpart =>
    Text.not_mem_of_mem_split (List.mem_filter.mp hpart).1, parts, List.filter_comm]

/-- A text without its filters on a property is the search without them. -/
theorem compile_without (text : String) (property : List Char) :
    compile (String.ofList (without property text.toList)) =
      (compile text).withoutProperty (String.ofList property) := by
  rw [compile_eq_filterMap, compile_eq_filterMap text, String.toList_ofList, parts_without,
    withoutProperty, List.filterMap_filter, List.filterMap_filter]
  simp only [decide_eq_true_eq]
  refine congrArg₂ Query.mk ?_ ?_
  · exact List.filterMap_congr fun part _ => Token.keyword?_unless property part
  · rw [List.filter_filterMap]
    exact List.filterMap_congr fun part _ => Token.filter?_unless property part

/-! ## The request -/

/-- The search of a text without its filters on a property. -/
structure IsWithout (text property : String) (query : Query) : Prop where
  compiled : query = compile (String.ofList (without property.toList text.toList))
  none_left : ∀ f ∈ query.filters, f.property ≠ property
  keywords : query.keywords = (compile text).keywords
  filters : query.filters = (compile text).filters.filter (·.property ≠ property)
  colon : ':' ∈ property.toList → query = compile text

theorem isWithout_withoutProperty (text property : String) :
    IsWithout text property ((compile text).withoutProperty property) where
  compiled := by rw [compile_without, String.ofList_toList]
  none_left f hf := by simpa using (List.mem_filter.mp hf).2
  keywords := rfl
  filters := rfl
  colon hcolon := by
    -- no filter of a text has a colon in its property
    have hall : ∀ f ∈ (compile text).filters, decide (f.property ≠ property) = true := by
      intro f hf
      refine decide_eq_true fun heq => ((wellFormed_compile text).filters f hf).property_colon ?_
      rwa [heq]
    rw [withoutProperty, List.filter_eq_self.mpr hall]

theorem completionRequest_of_endsOpen {text : String} (h : EndsOpen text.toList) :
    completionRequest text = .values (String.ofList (target text.toList))
      ((compile text).withoutProperty (String.ofList (target text.toList))) := by
  rw [completionRequest, detect, if_pos ((asksForValue_iff _).mpr h)]

theorem completionRequest_of_not_endsOpen {text : String} (h : ¬ EndsOpen text.toList) :
    completionRequest text = .schema := by
  rw [completionRequest, detect, if_neg (mt (asksForValue_iff _).mp h)]

/-- Text that ends with a colon or an operator asks for the values of the one property that it ends
with, among what it finds without the filters on that property.  Any other text asks for property
names. -/
theorem completionRequest_cases (text : String) :
    (¬ EndsOpen text.toList → completionRequest text = .schema) ∧
      (EndsOpen text.toList → ∃ property query,
        completionRequest text = .values property query ∧
          (∀ cs, IsTarget text.toList cs ↔ cs = property.toList) ∧
          IsWithout text property query) := by
  refine ⟨completionRequest_of_not_endsOpen, fun hopen => ?_⟩
  refine ⟨_, _, completionRequest_of_endsOpen hopen, fun cs => ?_, isWithout_withoutProperty _ _⟩
  rw [isTarget_iff, String.toList_ofList]

/-- A filter on the property that is given values, and one that stops at an operator. -/
theorem completionRequest_after_filters :
    let text := "nginx kind:pod cpu:> kind:"
    EndsOpen text.toList ∧ ∃ query, completionRequest text = .values "kind" query ∧
      query = ⟨["nginx"], []⟩ ∧ IsWithout text "kind" query := by
  intro text
  have hopen : EndsOpen text.toList := ⟨':', by decide, by decide +kernel⟩
  obtain ⟨property, query, hrequest, htarget, hwithout⟩ := (completionRequest_cases text).2 hopen
  have hkind : "kind".toList = property.toList :=
    (htarget _).mp ⟨"kind:".toList, by decide +kernel, .inl rfl⟩
  cases String.toList_inj.mp hkind
  have hquery : completionRequest text = .values "kind" ⟨["nginx"], []⟩ := by decide +kernel
  cases hrequest.symm.trans hquery
  exact ⟨hopen, _, hrequest, rfl, hwithout⟩

end Query
end ResourceSearch
