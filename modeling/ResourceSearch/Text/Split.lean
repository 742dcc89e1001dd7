/-!
Cutting text at a separator.  `split` keeps every part, the empty ones too, so joining the parts
with the separator gives the text back (`join_split`), and no part holds the separator
(`not_mem_of_mem_split`).  `cut` stops at the first separator.
-/

namespace ResourceSearch
namespace Text

/-- The parts of a text between the separators, in order.  There is always one more part than there
are separators. -/
def split (sep : Char) : List Char → List (List Char)
  | [] => [[]]
  | c :: cs =>
    if c = sep then [] :: split sep cs
    else
      match split sep cs with
      | [] => [[c]]
      | part :: parts => (c :: part) :: parts

def cut (sep : Char) : List Char → Option (List Char × List Char)
  | [] => none
  | c :: cs =>
    if c = sep then some ([], cs)
    else (cut sep cs).map fun (before, after) => (c :: before, after)

def join (sep : Char) (parts : List (List Char)) : List Char := List.intercalate [sep] parts

/-- What stands after the last separator, or the whole text when there is none. -/
def afterLast (sep : Char) (cs : List Char) : List Char :=
  (cs.reverse.takeWhile (· ≠ sep)).reverse

def dropLastIf (c : Char) (cs : List Char) : List Char :=
  if cs.getLast? = some c then cs.dropLast else cs

def occurs (part : List Char) : List Char → Bool
  | [] => part.isEmpty
  | c :: cs => part.isPrefixOf (c :: cs) || occurs part cs

theorem split_ne_nil (sep : Char) (cs : List Char) : split sep cs ≠ [] := by
  induction cs with
  | nil => simp [split]
  | cons c cs ih =>
    by_cases h : c = sep
    · simp [split, h]
    · obtain ⟨part, parts, hp⟩ := List.exists_cons_of_ne_nil ih
      simp [split, h, hp]

theorem split_cons_ne {sep c : Char} (h : c ≠ sep) {cs part : List Char} {parts : List (List Char)}
    (hp : split sep cs = part :: parts) : split sep (c :: cs) = (c :: part) :: parts := by
  simp [split, h, hp]

theorem join_split (sep : Char) (cs : List Char) : join sep (split sep cs) = cs := by
  induction cs with
  | nil => rfl
  | cons c cs ih =>
    obtain ⟨part, parts, hp⟩ := List.exists_cons_of_ne_nil (split_ne_nil sep cs)
    rw [hp] at ih
    by_cases h : c = sep
    · subst h
      simp [split, hp, join, List.intercalate] at ih ⊢
      exact ih
    · rw [split_cons_ne h hp]
      cases parts <;> simp_all [join, List.intercalate, List.intersperse]

theorem not_mem_of_mem_split {sep : Char} {cs part : List Char} (h : part ∈ split sep cs) :
    sep ∉ part := by
  induction cs generalizing part with
  | nil => simp_all [split]
  | cons c cs ih =>
    obtain ⟨first, parts, hp⟩ := List.exists_cons_of_ne_nil (split_ne_nil sep cs)
    by_cases hc : c = sep
    · simp only [split, hc, if_true, List.mem_cons] at h
      rcases h with rfl | h
      · simp
      · exact ih h
    · rw [split_cons_ne hc hp] at h
      rcases List.mem_cons.mp h with rfl | h
      · have := ih (hp ▸ List.mem_cons_self)
        simp [this, Ne.symm hc]
      · exact ih (hp ▸ List.mem_cons_of_mem _ h)

end Text
end ResourceSearch
