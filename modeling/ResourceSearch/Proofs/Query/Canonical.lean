import ResourceSearch.Proofs.Query.Tokens

/-!
Text that is written back as it stands.  Compiling a text and writing the search puts its words
before its finished filters, one space apart and letter by letter (`serialize_compile`), so a text
comes back as it is exactly if it was written like that (`serialize_compile_eq_self_iff`).
-/

namespace ResourceSearch

/-! ## Spaces -/

namespace Text

variable {sep : Char} {cs : List Char}

/-- A text has a separator at its start or its end, or two in a row. -/
def Ragged (sep : Char) (cs : List Char) : Prop :=
  cs.head? = some sep ∨ cs.getLast? = some sep ∨ [sep, sep] <:+: cs

/-- Between its separators a text has an empty part. -/
theorem nil_mem_split_iff : [] ∈ split sep cs ↔ cs = [] ∨ Ragged sep cs := by
  constructor
  · intro hmem
    obtain ⟨left, right, hsplit⟩ := List.append_of_mem hmem
    have hcs : cs = join sep (left ++ [] :: right) := by rw [← hsplit, join_split]
    by_cases hleft : left = []
    · subst hleft
      cases right with
      | nil => exact .inl hcs
      | cons part parts =>
        rw [List.nil_append, join_cons_cons] at hcs
        exact .inr (.inl (by rw [hcs]; rfl))
    · rw [join_append hleft (List.cons_ne_nil _ _)] at hcs
      cases right with
      | nil =>
        rw [join_singleton] at hcs
        exact .inr (.inr (.inl (by rw [hcs, List.getLast?_concat])))
      | cons part parts =>
        rw [join_cons_cons] at hcs
        refine .inr (.inr (.inr ⟨join sep left, join sep (part :: parts), ?_⟩))
        rw [hcs, List.append_assoc]
        rfl
  · rintro (rfl | hhead | hlast | ⟨before, after, rfl⟩)
    · exact List.mem_singleton.mpr rfl
    · obtain ⟨rest, rfl⟩ := List.head?_eq_some_iff.mp hhead
      rw [split, if_pos rfl]
      exact List.mem_cons_self
    · obtain ⟨front, rfl⟩ := List.getLast?_eq_some_iff.mp hlast
      rw [split_append]
      exact List.mem_append_right _ List.mem_cons_self
    · rw [List.append_assoc]
      show [] ∈ split sep (before ++ sep :: sep :: after)
      rw [split_append, split, if_pos rfl]
      exact List.mem_append_right _ List.mem_cons_self

end Text

namespace Query

/-! ## Canonical texts -/

/-- A text with its words first and then its filters, one space apart, and every filter finished. -/
structure Canonical (text : List Char) : Prop where
  spaces : ¬ Text.Ragged ' ' text
  ordered : (parts text).Pairwise fun earlier later => ':' ∈ earlier → ':' ∈ later
  finished : ∀ part ∈ parts text, ':' ∈ part → String.ofList (firstValue part) ∉ operators

/-- A search is written as the words of its text and then the finished filters. -/
theorem serialize_compile (s : String) : (compile s).serialize =
    String.ofList (Text.join ' ' (words s.toList ++ finishedFilters s.toList)) := by
  rw [serialize, keywords_compile, filters_compile]

theorem mem_parts_of_mem {text part : List Char} (h : part ∈ words text ++ finishedFilters text) :
    part ∈ parts text := by
  rcases List.mem_append.mp h with h | h
  · exact (List.mem_filter.mp h).1
  · exact (List.mem_filter.mp h).1

theorem space_not_mem {text part : List Char} (h : part ∈ words text ++ finishedFilters text) :
    ' ' ∉ part :=
  Text.not_mem_of_mem_split (mem_parts_iff.mp (mem_parts_of_mem h)).1

/-- The words and finished filters of a text are the parts of the text that is written. -/
theorem parts_written (text : List Char) :
    parts (Text.join ' ' (words text ++ finishedFilters text)) =
      words text ++ finishedFilters text := by
  rw [parts_join fun _ => space_not_mem]
  refine List.filter_eq_self.mpr fun part hpart => ?_
  simpa using (mem_parts_iff.mp (mem_parts_of_mem hpart)).2

theorem not_mem_of_mem_words {text part : List Char} (h : part ∈ words text) : ':' ∉ part := by
  simpa using (List.mem_filter.mp h).2

theorem isFinished_of_mem {text part : List Char} (h : part ∈ finishedFilters text) :
    IsFinished part := by
  simpa using (List.mem_filter.mp h).2

/-- What is written for a text is canonical, whatever the text. -/
theorem canonical_written (text : List Char) :
    Canonical (Text.join ' ' (words text ++ finishedFilters text)) where
  spaces hragged := by
    by_cases hnone : words text ++ finishedFilters text = []
    · rw [hnone] at hragged
      rcases hragged with h | h | h
      · cases h
      · cases h
      · cases List.infix_nil.mp h
    · have hnil := Text.nil_mem_split_iff.mpr (.inr hragged)
      rw [Text.split_join hnone fun _ => space_not_mem] at hnil
      exact (mem_parts_iff.mp (mem_parts_of_mem hnil)).2 rfl
  ordered := by
    rw [parts_written, List.pairwise_append]
    refine ⟨?_, ?_, ?_⟩
    · exact List.pairwise_of_forall_mem_list fun w hw _ _ hcolon =>
        absurd hcolon (not_mem_of_mem_words hw)
    · exact List.pairwise_of_forall_mem_list fun _ _ f hf _ => (isFinished_of_mem hf).1
    · exact fun _ _ f hf _ => (isFinished_of_mem hf).1
  finished part hpart hcolon := by
    rw [parts_written] at hpart
    rcases List.mem_append.mp hpart with hpart | hpart
    · exact absurd hcolon (not_mem_of_mem_words hpart)
    · exact (isFinished_of_mem hpart).2

/-- Things without a property and then those with it, if they already stand like that. -/
theorem filter_not_append_filter {α : Type} {p : α → Prop} [DecidablePred p] {xs : List α}
    (h : xs.Pairwise fun earlier later => p earlier → p later) :
    xs.filter (fun x => ¬ p x) ++ xs.filter (fun x => p x) = xs := by
  induction xs with
  | nil => rfl
  | cons x xs ih =>
    obtain ⟨hfirst, hrest⟩ := List.pairwise_cons.mp h
    by_cases hx : p x
    · have hall : ∀ y ∈ xs, p y := fun y hy => hfirst y hy hx
      rw [List.filter_eq_nil_iff.mpr (by simpa [hx] using hall),
        List.filter_eq_self.mpr (by simpa [hx] using hall), List.nil_append]
    · rw [List.filter_cons_of_pos (by simpa using hx), List.filter_cons_of_neg (by simpa using hx),
        List.cons_append, ih hrest]

theorem Canonical.words_append {text : List Char} (h : Canonical text) :
    words text ++ finishedFilters text = parts text := by
  have hfilters : finishedFilters text = (parts text).filter (':' ∈ ·) := by
    refine List.filter_congr fun part hpart => ?_
    exact decide_eq_decide.mpr ⟨And.left, fun hcolon => ⟨hcolon, h.finished part hpart hcolon⟩⟩
  rw [hfilters]
  exact filter_not_append_filter h.ordered

theorem Canonical.join_parts {text : List Char} (h : Canonical text) :
    Text.join ' ' (parts text) = text := by
  by_cases hnone : text = []
  · subst hnone
    rfl
  · have hnil : [] ∉ Text.split ' ' text :=
      fun hmem => (Text.nil_mem_split_iff.mp hmem).elim hnone h.spaces
    rw [parts_eq_split hnil, Text.join_split]

/-- Compiling a text and writing the search gives the text back if and only if the text is empty or
canonical.  What is written is always canonical: the words and then the finished filters of the
text, each of them letter by letter, one space apart. -/
theorem serialize_compile_eq_self_iff (s : String) :
    ((compile s).serialize = s ↔ s = "" ∨ Canonical s.toList) ∧
      Canonical (compile s).serialize.toList ∧
      (compile s).serialize =
        String.ofList (Text.join ' ' (words s.toList ++ finishedFilters s.toList)) := by
  have hwritten := canonical_written s.toList
  have hcanonical : Canonical (compile s).serialize.toList := by
    rwa [serialize_compile, String.toList_ofList]
  refine ⟨⟨fun h => .inr ?_, ?_⟩, hcanonical, serialize_compile s⟩
  · rwa [h] at hcanonical
  · rintro (rfl | h)
    · rfl
    · rw [serialize_compile, h.words_append, h.join_parts, String.ofList_toList]

end Query
end ResourceSearch
