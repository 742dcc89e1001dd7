import ResourceSearch.Proofs.Query.Tokens
import ResourceSearch.Query.Link

/-!
Search texts that are put together.  Where no part reaches across the seam of two texts (`Apart`),
the search of both is the one search followed by the other (`compile_append`).  A space between two
texts keeps them apart, so searches are joined by joining their texts, and spaces and filters that
are still being typed may stand between any two parts without a difference (`compile_spaced`).
-/

namespace ResourceSearch
namespace Query

/-- No part of a text reaches from what stands before a place into what stands behind it. -/
def Apart (before after : List Char) : Prop :=
  before = [] ∨ after = [] ∨ before.getLast? = some ' ' ∨ after.head? = some ' '

/-- A part with a colon whose first value is an operator. -/
def IsUnfinished (part : List Char) : Prop :=
  ':' ∈ part ∧ String.ofList (firstValue part) ∈ operators

instance (part : List Char) : Decidable (IsUnfinished part) :=
  inferInstanceAs (Decidable (_ ∧ _))

/-! ## Parts of two texts -/

theorem parts_append_space (before after : List Char) :
    parts (before ++ ' ' :: after) = parts before ++ parts after := by
  rw [parts, Text.split_append, List.filter_append]
  rfl

/-- Everything about joined texts follows from their parts. -/
theorem parts_append {before after : List Char} (h : Apart before after) :
    parts (before ++ after) = parts before ++ parts after := by
  have hnil : parts [] = [] := rfl
  rcases h with rfl | rfl | hlast | hhead
  · rw [List.nil_append, hnil, List.nil_append]
  · rw [List.append_nil, hnil, List.append_nil]
  · obtain ⟨front, rfl⟩ := List.getLast?_eq_some_iff.mp hlast
    rw [List.append_assoc, List.singleton_append, parts_append_space, parts_append_space, hnil,
      List.append_nil]
  · obtain ⟨rest, rfl⟩ := List.head?_eq_some_iff.mp hhead
    have hrest : parts (' ' :: rest) = parts rest := parts_append_space [] rest
    rw [parts_append_space, hrest]

theorem parts_spaces (n : Nat) : parts (List.replicate n ' ') = [] := by
  induction n with
  | zero => rfl
  | succ n ih => exact (parts_append_space [] (List.replicate n ' ')).trans ih

namespace Apart

variable {before filler after : List Char}

/-- What stands between two places keeps apart what stands around it. -/
theorem append_left (hbefore : Apart before after) (hfiller : Apart filler after) :
    Apart (before ++ filler) after := by
  rcases hfiller with rfl | hafter | hlast | hhead
  · rwa [List.append_nil]
  · exact .inr (.inl hafter)
  · exact .inr (.inr (.inl (by rw [List.getLast?_append, hlast, Option.some_or])))
  · exact .inr (.inr (.inr hhead))

theorem spaces_right (before : List Char) (n : Nat) : Apart before (List.replicate n ' ') := by
  cases n with
  | zero => exact .inr (.inl rfl)
  | succ n => exact .inr (.inr (.inr rfl))

theorem spaces_left (n : Nat) (after : List Char) : Apart (List.replicate n ' ') after := by
  cases n with
  | zero => exact .inl rfl
  | succ n => exact .inr (.inr (.inl (by rw [List.replicate_succ', List.getLast?_concat])))

end Apart

/-! ## Searches of two texts -/

theorem keywords_append (q r : Query) : (q ++ r).keywords = q.keywords ++ r.keywords := rfl

theorem filters_append (q r : Query) : (q ++ r).filters = q.filters ++ r.filters := rfl

theorem append_empty (q : Query) : q ++ ({} : Query) = q :=
  congrArg₂ Query.mk (List.append_nil q.keywords) (List.append_nil q.filters)

theorem append_eq_empty_iff {q r : Query} : q ++ r = {} ↔ q = {} ∧ r = {} := by
  obtain ⟨ks, fs⟩ := q
  obtain ⟨ls, gs⟩ := r
  show Query.mk (ks ++ ls) (fs ++ gs) = _ ↔ _
  simp only [Query.mk.injEq, List.append_eq_nil_iff]
  exact and_and_and_comm

theorem compile_append {s t : String} (h : Apart s.toList t.toList) :
    compile (s ++ t) = compile s ++ compile t := by
  rw [compile_eq_filterMap, compile_eq_filterMap s, compile_eq_filterMap t, String.toList_append,
    parts_append h, List.filterMap_append, List.filterMap_append]
  rfl

theorem keyword?_of_isUnfinished {part : List Char} (h : IsUnfinished part) :
    (Token.ofChars part).keyword? = none := by
  rw [← Option.map_eq_none_iff, Token.keyword?_ofChars, if_neg (not_not_intro h.1)]

theorem filter?_of_isUnfinished {part : List Char} (h : IsUnfinished part) :
    (Token.ofChars part).filter? = none := by
  rw [← Option.map_eq_none_iff, Token.filter?_ofChars, if_neg fun hdone => hdone.2 h.2]

/-- Filters that are still being typed are no search. -/
theorem compile_eq_empty {text : String} (h : ∀ part ∈ parts text.toList, IsUnfinished part) :
    compile text = {} := by
  rw [compile_eq_filterMap,
    List.filterMap_eq_nil_iff.mpr fun part hpart => keyword?_of_isUnfinished (h part hpart),
    List.filterMap_eq_nil_iff.mpr fun part hpart => filter?_of_isUnfinished (h part hpart)]

theorem compile_space (s t : String) : compile (s ++ " " ++ t) = compile s ++ compile t := by
  have hleft : Apart s.toList " ".toList := Apart.spaces_right s.toList 1
  have hright : Apart (s ++ " ").toList t.toList := by
    rw [String.toList_append]
    exact .inr (.inr (.inl List.getLast?_concat))
  rw [compile_append hright, compile_append hleft, show compile " " = {} from rfl, append_empty]

/-- What is put between two parts of a text and is no search makes no difference. -/
theorem compile_between {before filler after : String} (h : Apart before.toList after.toList)
    (hleft : Apart before.toList filler.toList) (hright : Apart filler.toList after.toList)
    (hempty : compile filler = {}) :
    compile (before ++ filler ++ after) = compile (before ++ after) := by
  have hafter : Apart (before ++ filler).toList after.toList := by
    rw [String.toList_append]
    exact h.append_left hright
  rw [compile_append hafter, compile_append hleft, hempty, append_empty, compile_append h]

end Query

namespace Link

theorem view_eq_savedSearches_iff (l : Link) :
    l.view = .savedSearches ↔ Query.compile l.text = {} := by
  have hempty :
      l.text = "" ∨ (Query.compile l.text).isEmpty = true ↔ Query.compile l.text = {} := by
    rw [Query.isEmpty_iff, or_iff_right_iff_imp]
    intro htext
    rw [htext]
    rfl
  rw [← hempty, view]
  split
  next h => exact iff_of_true rfl h
  next h => exact iff_of_false (by simp) h

end Link

namespace Query

/-- A space joins searches: the words and filters of the one text come before those of the other,
and there are results to show unless neither text says what to search.  Between two parts of a text
any number of spaces may stand, and filters that are still being typed. -/
theorem compile_spaced :
    (∀ s t : String,
      (compile (s ++ " " ++ t)).keywords = (compile s).keywords ++ (compile t).keywords ∧
        (compile (s ++ " " ++ t)).filters = (compile s).filters ++ (compile t).filters ∧
        ∀ joined left right : List String,
          Link.view ⟨s ++ " " ++ t, joined⟩ = .savedSearches ↔
            Link.view ⟨s, left⟩ = .savedSearches ∧ Link.view ⟨t, right⟩ = .savedSearches) ∧
    ∀ before after : String, Apart before.toList after.toList →
      (∀ n, compile (before ++ String.ofList (List.replicate n ' ') ++ after) =
        compile (before ++ after)) ∧
      ∀ filler : String, Apart before.toList filler.toList → Apart filler.toList after.toList →
        (∀ part ∈ parts filler.toList, IsUnfinished part) →
        compile (before ++ filler ++ after) = compile (before ++ after) := by
  refine ⟨fun s t => ⟨?_, ?_, fun joined left right => ?_⟩, fun before after h => ⟨fun n => ?_, ?_⟩⟩
  · rw [compile_space, keywords_append]
  · rw [compile_space, filters_append]
  · rw [Link.view_eq_savedSearches_iff, Link.view_eq_savedSearches_iff,
      Link.view_eq_savedSearches_iff, compile_space, append_eq_empty_iff]
  · have hspaces : (String.ofList (List.replicate n ' ')).toList = List.replicate n ' ' :=
      String.toList_ofList
    refine compile_between h ?_ ?_ (compile_eq_empty ?_)
    · rw [hspaces]
      exact Apart.spaces_right before.toList n
    · rw [hspaces]
      exact Apart.spaces_left n after.toList
    · rw [hspaces, parts_spaces]
      exact List.forall_mem_nil _
  · intro filler hleft hright hunfinished
    exact compile_between h hleft hright (compile_eq_empty hunfinished)

/-- Between a word and a filter, two unfinished ones, the second with a value after its operator. -/
theorem compile_spaced_while_typing :
    Apart "pod".toList " kind:Pod".toList ∧
      (∀ part ∈ parts " name:=  cpu:>,2".toList, IsUnfinished part) ∧
      compile ("pod" ++ " name:=  cpu:>,2" ++ " kind:Pod") = compile ("pod" ++ " kind:Pod") ∧
      compile ("pod" ++ " kind:Pod") = ⟨["pod"], [⟨"kind", ["Pod"]⟩]⟩ := by
  have hseam : Apart "pod".toList " kind:Pod".toList := .inr (.inr (.inr rfl))
  have hleft : Apart "pod".toList " name:=  cpu:>,2".toList := .inr (.inr (.inr rfl))
  have hright : Apart " name:=  cpu:>,2".toList " kind:Pod".toList := .inr (.inr (.inr rfl))
  have hunfinished : ∀ part ∈ parts " name:=  cpu:>,2".toList, IsUnfinished part := by
    decide +kernel
  exact ⟨hseam, hunfinished,
    (compile_spaced.2 "pod" " kind:Pod" hseam).2 _ hleft hright hunfinished, by decide +kernel⟩

end Query
end ResourceSearch
