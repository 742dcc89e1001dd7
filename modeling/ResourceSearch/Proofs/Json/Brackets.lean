import ResourceSearch.Proofs.Json.Numbers
import ResourceSearch.Proofs.Json.Strings

/-!
Written arrays and objects.  A reader that reads the elements of an array wherever they stand reads
the array (`readElements_write`), and a reader of members that gets through the members of an object
gets through the object (`readMembers_write`).  Both hold for every layout of blanks and for every
reader, so they serve values and decoders alike.
-/

namespace ResourceSearch
namespace Json

/-- Text of blanks. -/
def Blank (cs : List Char) : Prop := ∀ c ∈ cs, isBlank c = true

/-- A layout that adds nothing but blanks. -/
structure Layout.IsBlank (layout : Layout) : Prop where
  line : ∀ depth, Blank (layout.line depth)
  gap : Blank layout.gap

theorem Layout.isBlank_compact : Layout.compact.IsBlank where
  line _ c hc := by cases hc
  gap c hc := by cases hc

theorem Layout.isBlank_indented : Layout.indented.IsBlank where
  line depth c hc := by
    rcases List.mem_cons.mp hc with rfl | hc
    · rfl
    · rw [List.eq_of_mem_replicate hc]
      rfl
  gap c hc := by
    rw [List.mem_singleton.mp hc]
    rfl

/-- A reader reads a text as a value wherever the text stands: behind blanks, and in front of any
text that no number can go on with. -/
def Reads {α : Type} (read : List Char → Reading α) (text : List Char) (a : α) : Prop :=
  ∀ ⦃blanks rest : List Char⦄, Blank blanks → Ends rest →
    read (blanks ++ (text ++ rest)) = .ok (a, rest)

theorem Reads.here {α : Type} {read : List Char → Reading α} {text rest : List Char} {a : α}
    (h : Reads read text a) (hrest : Ends rest) : read (text ++ rest) = .ok (a, rest) := by
  have hnone : Blank [] := fun c hc => by cases hc
  exact h hnone hrest

/-- A text that can stand first in an array. -/
def StartsValue (text : List Char) : Prop :=
  ∃ c cs, text = c :: cs ∧ isBlank c = false ∧ c ≠ ']'

theorem skipBlank_text {blanks text rest : List Char} (hb : Blank blanks) (h : StartsValue text) :
    skipBlank (blanks ++ (text ++ rest)) = text ++ rest := by
  obtain ⟨c, cs, rfl, hc, _⟩ := h
  rw [skipBlank_append hb, List.cons_append, skipBlank_cons hc]

theorem ends_append {blanks rest : List Char} (hb : Blank blanks) (h : Ends rest) :
    Ends (blanks ++ rest) := by
  cases blanks with
  | nil => exact h
  | cons c cs => exact ends_cons _ (.inr (.inr (.inr (hb c List.mem_cons_self))))

/-! ## Elements -/

theorem nextElement_first {blanks text rest : List Char} (hb : Blank blanks)
    (h : StartsValue text) :
    nextElement true (blanks ++ (text ++ rest)) = .ok (true, text ++ rest) := by
  rw [nextElement, skipBlank_text hb h]
  obtain ⟨c, cs, rfl, _, hc⟩ := h
  rw [List.cons_append]
  split
  next hnil => cases hnil
  next hbracket => exact absurd (List.cons.inj hbracket).1 hc
  next hcons =>
    obtain ⟨rfl, rfl⟩ := List.cons.inj hcons
    rfl

theorem nextElement_comma {blanks text rest : List Char} (hb : Blank blanks)
    (h : StartsValue text) :
    nextElement false (',' :: (blanks ++ (text ++ rest))) = .ok (true, text ++ rest) := by
  have hskip : skipBlank (',' :: (blanks ++ (text ++ rest))) = ',' :: (blanks ++ (text ++ rest)) :=
    skipBlank_cons rfl _
  rw [nextElement, hskip]
  simp only [Char.reduceEq, imp_false, not_false_eq_true, Bool.false_eq_true, if_false, if_true]
  rw [skipBlank_text hb h]
  obtain ⟨c, cs, rfl, _, hc⟩ := h
  rw [List.cons_append]
  split
  next hnil => cases hnil
  next hbracket => exact absurd (List.cons.inj hbracket).1 hc
  next => rfl

theorem nextElement_end {blanks : List Char} (hb : Blank blanks) (first : Bool)
    (rest : List Char) :
    nextElement first (blanks ++ ']' :: rest) = .ok (false, ']' :: rest) := by
  rw [nextElement, skipBlank_append hb, skipBlank_cons rfl]
  rfl

/-- A reader reads the texts of some values as elements. -/
inductive ReadsElements {α : Type} (read : List Char → Reading α) (layout : Layout) (depth : Nat) :
    List Json → List α → Prop
  | nil : ReadsElements read layout depth [] []
  | cons {x : Json} {a : α} {xs : List Json} {values : List α}
      (starts : StartsValue (write layout depth x)) (first : Reads read (write layout depth x) a)
      (rest : ReadsElements read layout depth xs values) :
      ReadsElements read layout depth (x :: xs) (a :: values)

section Elements

variable {α : Type} {read : List Char → Reading α} {layout : Layout}

/-- What follows an element cannot go on with a number: a comma, or the end of the array. -/
theorem ends_writeElements (hl : layout.IsBlank) (depth inner : Nat) (xs : List Json)
    (rest : List Char) :
    Ends (writeElements layout inner xs ++ (layout.line depth ++ ']' :: rest)) := by
  cases xs with
  | nil =>
    rw [writeElements, List.nil_append]
    exact ends_append (hl.line depth) (ends_cons rest (.inr (.inl rfl)))
  | cons x xs =>
    rw [writeElements, List.cons_append]
    exact ends_cons _ (.inl rfl)

theorem readElements_writeElements (hl : layout.IsBlank) (depth : Nat) {inner : Nat}
    {xs : List Json} {values : List α} (h : ReadsElements read layout inner xs values) {fuel : Nat}
    (hfuel : xs.length < fuel) (done : List α) (rest : List Char) :
    readElements read fuel false done
        (writeElements layout inner xs ++ (layout.line depth ++ ']' :: rest)) =
      .ok (done.reverse ++ values, ']' :: rest) := by
  induction h generalizing fuel done with
  | nil =>
    obtain ⟨fuel, rfl⟩ := Nat.exists_eq_succ_of_ne_zero (Nat.ne_of_gt hfuel)
    rw [readElements, writeElements, List.nil_append, nextElement_end (hl.line depth)]
    simp
  | @cons x a xs values starts first others ih =>
    obtain ⟨fuel, rfl⟩ := Nat.exists_eq_succ_of_ne_zero (Nat.ne_of_gt (Nat.zero_lt_of_lt hfuel))
    have hnext := first.here (ends_writeElements hl depth inner xs rest)
    rw [readElements, writeElements, List.cons_append, List.append_assoc, List.append_assoc,
      nextElement_comma (hl.line inner) starts]
    simp only [hnext]
    rw [ih (by simpa using hfuel)]
    simp

theorem length_le_writeElements (layout : Layout) (depth : Nat) (xs : List Json) :
    xs.length ≤ (writeElements layout depth xs).length := by
  induction xs with
  | nil => exact Nat.zero_le _
  | cons x xs ih =>
    simp only [writeElements, List.length_cons, List.length_append]
    omega

/-- A written array is read up to its closing bracket. -/
theorem readElements_write (hl : layout.IsBlank) {depth : Nat} {xs : List Json} {values : List α}
    (h : ReadsElements read layout (depth + 1) xs values) {cs rest : List Char}
    (hcs : write layout depth (.array xs) ++ rest = '[' :: cs) {fuel : Nat}
    (hfuel : cs.length ≤ fuel) :
    readElements read (fuel + 1) true [] cs = .ok (values, ']' :: rest) := by
  cases h with
  | nil =>
    obtain ⟨_, rfl⟩ := List.cons.inj hcs
    have hnext : nextElement true (']' :: rest) = .ok (false, ']' :: rest) := rfl
    simp [readElements, hnext]
  | @cons x a xs values starts first others =>
    rw [write, List.cons_append] at hcs
    obtain ⟨_, rfl⟩ := List.cons.inj hcs
    have hnext := first.here (ends_writeElements hl depth (depth + 1) xs rest)
    have hlength := length_le_writeElements layout (depth + 1) xs
    have hfuel : xs.length < fuel := by
      simp only [List.length_append, List.length_cons] at hfuel
      omega
    have hothers := readElements_writeElements hl depth others hfuel [a] rest
    simp only [List.append_assoc, List.nil_append, List.cons_append] at hnext hothers ⊢
    rw [readElements, nextElement_first (hl.line (depth + 1)) starts]
    simp [hnext, hothers]

theorem closeArray_ok (a : α) (rest : List Char) :
    closeArray (.ok (a, ']' :: rest)) = .ok (a, rest) := rfl

end Elements

/-! ## Members -/

theorem nextName_first {blanks : List Char} (hb : Blank blanks) (name : String)
    (rest : List Char) :
    nextName true (blanks ++ (writeString name ++ rest)) = .ok (some name, rest) := by
  rw [nextName, skipBlank_append hb, writeString_append, skipBlank_cons rfl]
  simp [readChars_writeString, Except.map]

theorem nextName_comma {blanks : List Char} (hb : Blank blanks) (name : String)
    (rest : List Char) :
    nextName false (',' :: (blanks ++ (writeString name ++ rest))) = .ok (some name, rest) := by
  rw [nextName, skipBlank_cons rfl]
  simp only [Char.reduceEq, imp_false, not_false_eq_true, Bool.false_eq_true, if_false, if_true]
  rw [skipBlank_append hb, writeString_append, skipBlank_cons rfl]
  simp [readChars_writeString, Except.map]

theorem nextName_end {blanks : List Char} (hb : Blank blanks) (first : Bool) (rest : List Char) :
    nextName first (blanks ++ '}' :: rest) = .ok (none, '}' :: rest) := by
  rw [nextName, skipBlank_append hb, skipBlank_cons rfl]
  rfl

/-- A reader goes on from a colon to the value behind it. -/
theorem afterColon_text {α : Type} {read : List Char → Reading α} {text gap rest : List Char}
    {a : α} (h : Reads read text a) (hgap : Blank gap) (hrest : Ends rest) :
    afterColon read (':' :: (gap ++ (text ++ rest))) = .ok (a, rest) := by
  have hcolon : readColon (':' :: (gap ++ (text ++ rest))) = .ok (gap ++ (text ++ rest)) := rfl
  rw [afterColon, hcolon]
  exact h hgap hrest

/-- A reader of members goes from one state to another over the texts of some members.  It starts
behind the name of each. -/
inductive ReadsMembers {σ : Type} (member : String → σ → List Char → Reading σ) (layout : Layout)
    (depth : Nat) : σ → List (String × Json) → σ → Prop
  | nil (s : σ) : ReadsMembers member layout depth s [] s
  | cons {s t u : σ} {name : String} {v : Json} {ms : List (String × Json)}
      (first : ∀ {rest : List Char}, Ends rest →
        member name s (':' :: (layout.gap ++ (write layout depth v ++ rest))) = .ok (t, rest))
      (rest : ReadsMembers member layout depth t ms u) :
      ReadsMembers member layout depth s ((name, v) :: ms) u

section Members

variable {σ : Type} {member : String → σ → List Char → Reading σ} {layout : Layout}

theorem ends_writeMembers (hl : layout.IsBlank) (depth inner : Nat) (ms : List (String × Json))
    (rest : List Char) :
    Ends (writeMembers layout inner ms ++ (layout.line depth ++ '}' :: rest)) := by
  cases ms with
  | nil =>
    rw [writeMembers, List.nil_append]
    exact ends_append (hl.line depth) (ends_cons rest (.inr (.inr (.inl rfl))))
  | cons m ms =>
    rw [writeMembers, List.cons_append]
    exact ends_cons _ (.inl rfl)

theorem readMembers_writeMembers (hl : layout.IsBlank) (depth : Nat) {inner : Nat}
    {ms : List (String × Json)} {s t : σ} (h : ReadsMembers member layout inner s ms t)
    {fuel : Nat} (hfuel : ms.length < fuel) (rest : List Char) :
    readMembers member fuel false s
        (writeMembers layout inner ms ++ (layout.line depth ++ '}' :: rest)) =
      .ok (t, '}' :: rest) := by
  induction h generalizing fuel with
  | nil s =>
    obtain ⟨fuel, rfl⟩ := Nat.exists_eq_succ_of_ne_zero (Nat.ne_of_gt hfuel)
    rw [readMembers, writeMembers, List.nil_append, nextName_end (hl.line depth)]
  | @cons s t u name v ms first others ih =>
    obtain ⟨fuel, rfl⟩ := Nat.exists_eq_succ_of_ne_zero (Nat.ne_of_gt (Nat.zero_lt_of_lt hfuel))
    have hnext := first (ends_writeMembers hl depth inner ms rest)
    have hothers := ih (Nat.lt_of_succ_lt_succ hfuel)
    simp only [readMembers, writeMembers, List.cons_append, List.append_assoc] at hnext hothers ⊢
    rw [nextName_comma (hl.line inner)]
    simp only [hnext, hothers]

theorem length_le_writeMembers (layout : Layout) (depth : Nat) (ms : List (String × Json)) :
    ms.length ≤ (writeMembers layout depth ms).length := by
  induction ms with
  | nil => exact Nat.zero_le _
  | cons m ms ih =>
    simp only [writeMembers, List.length_cons, List.length_append]
    omega

/-- A written object is read up to its closing bracket. -/
theorem readMembers_write (hl : layout.IsBlank) {depth : Nat} {ms : List (String × Json)}
    {s t : σ} (h : ReadsMembers member layout (depth + 1) s ms t) {cs rest : List Char}
    (hcs : write layout depth (.object ms) ++ rest = '{' :: cs) {fuel : Nat}
    (hfuel : cs.length ≤ fuel) :
    readMembers member (fuel + 1) true s cs = .ok (t, '}' :: rest) := by
  cases h with
  | nil =>
    obtain ⟨_, rfl⟩ := List.cons.inj hcs
    have hnext : nextName true ('}' :: rest) = .ok (none, '}' :: rest) := rfl
    simp [readMembers, hnext]
  | @cons _ t _ name v ms first others =>
    rw [write, List.cons_append] at hcs
    obtain ⟨_, rfl⟩ := List.cons.inj hcs
    have hnext := first (ends_writeMembers hl depth (depth + 1) ms rest)
    have hlength := length_le_writeMembers layout (depth + 1) ms
    have hfuel : ms.length < fuel := by
      simp only [List.length_append, List.length_cons] at hfuel
      omega
    have hothers := readMembers_writeMembers hl depth others hfuel rest
    simp only [List.append_assoc, List.nil_append, List.cons_append] at hnext hothers ⊢
    rw [readMembers, nextName_first (hl.line (depth + 1))]
    simp only [hnext, hothers]

theorem closeObject_ok (s : σ) (rest : List Char) :
    closeObject (.ok (s, '}' :: rest)) = .ok (s, rest) := rfl

end Members

end Json
end ResourceSearch
