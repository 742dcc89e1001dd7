import ResourceSearch.Text.Split

/-!
Cutting text apart and joining it.  Splitting undoes joining as long as no part holds the separator
(`split_join`), and a cut takes exactly what stands before the first separator (`cut_eq_some_iff`).
-/

namespace ResourceSearch
namespace Text

variable {sep : Char} {cs part : List Char} {parts : List (List Char)}

/-! ## Joining -/

theorem join_cons_cons (sep : Char) (first second : List Char) (rest : List (List Char)) :
    join sep (first :: second :: rest) = first ++ sep :: join sep (second :: rest) := by
  simp [join, List.intercalate_cons_cons]

theorem join_singleton (sep : Char) (part : List Char) : join sep [part] = part := by
  simp [join]

theorem mem_join {c : Char} (h : c ∈ join sep parts) : c = sep ∨ ∃ part ∈ parts, c ∈ part := by
  induction parts with
  | nil => cases h
  | cons first rest ih =>
    cases rest with
    | nil =>
      rw [join_singleton] at h
      exact .inr ⟨first, List.mem_cons_self, h⟩
    | cons second rest =>
      rw [join_cons_cons, List.mem_append, List.mem_cons] at h
      rcases h with h | h | h
      · exact .inr ⟨first, List.mem_cons_self, h⟩
      · exact .inl h
      · exact (ih h).imp_right fun ⟨part, hpart, hc⟩ => ⟨part, List.mem_cons_of_mem _ hpart, hc⟩

theorem mem_join_of_mem {c : Char} (hpart : part ∈ parts) (hc : c ∈ part) : c ∈ join sep parts := by
  induction parts with
  | nil => cases hpart
  | cons first rest ih =>
    cases rest with
    | nil =>
      rw [join_singleton]
      cases List.mem_singleton.mp hpart
      exact hc
    | cons second rest =>
      rw [join_cons_cons, List.mem_append, List.mem_cons]
      rcases List.mem_cons.mp hpart with rfl | hpart
      · exact .inl hc
      · exact .inr (.inr (ih hpart))

theorem join_append {left right : List (List Char)} (hleft : left ≠ []) (hright : right ≠ []) :
    join sep (left ++ right) = join sep left ++ sep :: join sep right := by
  obtain ⟨part, parts, rfl⟩ := List.exists_cons_of_ne_nil hright
  induction left with
  | nil => exact absurd rfl hleft
  | cons first rest ih =>
    cases rest with
    | nil => rw [List.singleton_append, join_cons_cons, join_singleton]
    | cons second rest =>
      have hrest := ih (List.cons_ne_nil second rest)
      rw [List.cons_append] at hrest
      rw [List.cons_append, List.cons_append, join_cons_cons, hrest, join_cons_cons,
        List.append_assoc, List.cons_append]

/-! ## Splitting -/

theorem split_append (sep : Char) (before after : List Char) :
    split sep (before ++ sep :: after) = split sep before ++ split sep after := by
  induction before with
  | nil => simp [split]
  | cons c cs ih =>
    obtain ⟨part, parts, hp⟩ := List.exists_cons_of_ne_nil (split_ne_nil sep cs)
    by_cases h : c = sep
    · simp only [List.cons_append, split, h, if_true, ih]
    · rw [hp, List.cons_append] at ih
      rw [List.cons_append, split_cons_ne h ih, split_cons_ne h hp, List.cons_append]

theorem split_of_not_mem (h : sep ∉ cs) : split sep cs = [cs] := by
  induction cs with
  | nil => rfl
  | cons c cs ih =>
    rw [List.mem_cons, not_or] at h
    exact split_cons_ne (Ne.symm h.1) (ih h.2)

/-- Parts that do not hold the separator are got back from the joined text. -/
theorem split_join (hne : parts ≠ []) (h : ∀ part ∈ parts, sep ∉ part) :
    split sep (join sep parts) = parts := by
  induction parts with
  | nil => exact absurd rfl hne
  | cons first rest ih =>
    have hfirst := h first List.mem_cons_self
    cases rest with
    | nil => rw [join_singleton, split_of_not_mem hfirst]
    | cons second rest =>
      have hrest : ∀ part ∈ second :: rest, sep ∉ part :=
        fun part hpart => h part (List.mem_cons_of_mem _ hpart)
      rw [join_cons_cons, split_append, split_of_not_mem hfirst,
        ih (List.cons_ne_nil second rest) hrest, List.singleton_append]

/-- A part holds nothing but what the text holds. -/
theorem mem_of_mem_split {c : Char} (hpart : part ∈ split sep cs) (hc : c ∈ part) : c ∈ cs := by
  rw [← join_split sep cs]
  exact mem_join_of_mem hpart hc

theorem head?_split (sep : Char) (cs : List Char) :
    (split sep cs).head? = some (cs.takeWhile (· ≠ sep)) := by
  induction cs with
  | nil => rfl
  | cons c cs ih =>
    obtain ⟨part, parts, hp⟩ := List.exists_cons_of_ne_nil (split_ne_nil sep cs)
    by_cases h : c = sep
    · simp [split, h]
    · rw [hp, List.head?_cons, Option.some.injEq] at ih
      rw [split_cons_ne h hp, List.head?_cons, List.takeWhile_cons_of_pos (by simpa using h), ih]

/-- What is taken up to a separator begins with all that stands before one. -/
theorem takeWhile_append (h : sep ∉ cs) (rest : List Char) :
    (cs ++ rest).takeWhile (· ≠ sep) = cs ++ rest.takeWhile (· ≠ sep) :=
  List.takeWhile_append_of_pos fun _ hc => decide_eq_true fun heq => h (heq ▸ hc)

theorem afterLast_of_not_mem (h : sep ∉ cs) : afterLast sep cs = cs := by
  have hall := takeWhile_append (mt List.mem_reverse.mp h) []
  rw [List.append_nil, List.takeWhile_nil, List.append_nil] at hall
  rw [afterLast, hall, List.reverse_reverse]

theorem afterLast_append (before : List Char) {last : List Char} (h : sep ∉ last) :
    afterLast sep (before ++ sep :: last) = last := by
  rw [afterLast, List.reverse_append, List.reverse_cons, List.append_assoc,
    takeWhile_append (mt List.mem_reverse.mp h), List.singleton_append,
    List.takeWhile_cons_of_neg (by simp), List.append_nil, List.reverse_reverse]

theorem getLast?_split (sep : Char) (cs : List Char) :
    (split sep cs).getLast? = some (afterLast sep cs) := by
  obtain ⟨front, last, hsplit⟩ : ∃ front last, split sep cs = front ++ [last] :=
    ⟨_, _, (List.dropLast_concat_getLast (split_ne_nil sep cs)).symm⟩
  have hmem : last ∈ split sep cs := by
    rw [hsplit]
    exact List.mem_append_right _ (List.mem_singleton.mpr rfl)
  have hlast : sep ∉ last := not_mem_of_mem_split hmem
  have hjoin := join_split sep cs
  rw [hsplit] at hjoin
  rw [hsplit, List.getLast?_concat, ← hjoin]
  by_cases hfront : front = []
  · rw [hfront, List.nil_append, join_singleton, afterLast_of_not_mem hlast]
  · rw [join_append hfront (List.cons_ne_nil last []), join_singleton, afterLast_append _ hlast]

/-! ## Cutting -/

theorem cut_append {before : List Char} (h : sep ∉ before) (after : List Char) :
    cut sep (before ++ sep :: after) = some (before, after) := by
  induction before with
  | nil => rw [List.nil_append, cut, if_pos rfl]
  | cons c before ih =>
    rw [List.mem_cons, not_or] at h
    rw [List.cons_append, cut, if_neg (Ne.symm h.1), ih h.2]
    rfl

theorem cut_eq_none_iff : cut sep cs = none ↔ sep ∉ cs := by
  induction cs with
  | nil => simp [cut]
  | cons c cs ih =>
    by_cases h : c = sep
    · simp [cut, h]
    · rw [cut, if_neg h, Option.map_eq_none_iff, ih, List.mem_cons, not_or]
      exact ⟨fun hcs => ⟨Ne.symm h, hcs⟩, And.right⟩

theorem cut_eq_some_iff {before after : List Char} :
    cut sep cs = some (before, after) ↔ cs = before ++ sep :: after ∧ sep ∉ before := by
  constructor
  · intro h
    induction cs generalizing before with
    | nil => cases h
    | cons c cs ih =>
      rw [cut] at h
      split at h
      · rename_i hc
        cases h
        exact ⟨by rw [hc, List.nil_append], List.not_mem_nil⟩
      · rename_i hc
        obtain ⟨⟨first, rest⟩, hcut, heq⟩ := Option.map_eq_some_iff.mp h
        cases heq
        obtain ⟨rfl, hfirst⟩ := ih hcut
        refine ⟨rfl, ?_⟩
        rw [List.mem_cons, not_or]
        exact ⟨Ne.symm hc, hfirst⟩
  · rintro ⟨rfl, h⟩
    exact cut_append h after

end Text
end ResourceSearch
