import ResourceSearch.Json.Reader
import ResourceSearch.Proofs.Outcomes

/-!
What text looks like that was read as a value.  It spells the value (`spells_of_readValue`): behind
its blanks it begins as the value does, and what was read there is left over by the reader of that
kind of value.  Other readers that meet the same text can then be followed through it.
-/

namespace ResourceSearch
namespace Json

variable {cs rest : List Char}

/-! ## Separators and brackets -/

theorem skipBlank_skipBlank (cs : List Char) : skipBlank (skipBlank cs) = skipBlank cs := by
  induction cs with
  | nil => rfl
  | cons c cs ih =>
    rw [skipBlank]
    split
    · exact ih
    next hblank => rw [skipBlank, if_neg hblank]

theorem skipBlank_of_eq_cons {c : Char} (h : skipBlank cs = c :: rest) :
    skipBlank (c :: rest) = c :: rest := by
  rw [← h, skipBlank_skipBlank]

theorem readColon_eq_ok_iff : readColon cs = .ok rest ↔ skipBlank cs = ':' :: rest := by
  unfold readColon
  split
  next h => simp [h]
  next after h => simp [h]
  next hcolon => exact ⟨nofun, fun h => absurd h (hcolon rest)⟩

theorem endArray_eq_ok_iff : endArray cs = .ok rest ↔ skipBlank cs = ']' :: rest := by
  unfold endArray
  split
  next h => simp [h]
  next after h => simp [h]
  next after h =>
    rw [h]
    refine ⟨fun h => ?_, nofun⟩
    split at h <;> cases h
  next hend _ => exact ⟨nofun, fun h => absurd h (hend rest)⟩

theorem endObject_eq_ok_iff : endObject cs = .ok rest ↔ skipBlank cs = '}' :: rest := by
  unfold endObject
  split
  next h => simp [h]
  next after h => simp [h]
  next after h =>
    rw [h]
    exact ⟨nofun, nofun⟩
  next hend _ => exact ⟨nofun, fun h => absurd h (hend rest)⟩

section Closing

variable {α : Type} {r : Reading α} {a : α}

theorem closeArray_eq_ok_iff :
    closeArray r = .ok (a, rest) ↔ ∃ left, r = .ok (a, left) ∧ skipBlank left = ']' :: rest := by
  constructor
  · intro h
    unfold closeArray at h
    split at h
    next b left =>
      obtain ⟨after, hend, heq⟩ := exists_of_map_ok h
      cases heq
      exact ⟨left, rfl, endArray_eq_ok_iff.mp hend⟩
    · cases h
    · cases h
  · rintro ⟨left, rfl, h⟩
    show (endArray left).map _ = _
    rw [endArray_eq_ok_iff.mpr h]
    rfl

theorem closeObject_eq_ok_iff :
    closeObject r = .ok (a, rest) ↔ ∃ left, r = .ok (a, left) ∧ skipBlank left = '}' :: rest := by
  constructor
  · intro h
    unfold closeObject at h
    split at h
    next b left =>
      obtain ⟨after, hend, heq⟩ := exists_of_map_ok h
      cases heq
      exact ⟨left, rfl, endObject_eq_ok_iff.mp hend⟩
    · cases h
    · cases h
  · rintro ⟨left, rfl, h⟩
    show (endObject left).map _ = _
    rw [endObject_eq_ok_iff.mpr h]
    rfl

end Closing

/-- The way to an element of an array, over the comma before it unless it is the first one. -/
inductive ToElement : Bool → List Char → List Char → Prop
  | first {cs rest : List Char} {c : Char} (hc : c ≠ ']') (h : skipBlank cs = c :: rest) :
    ToElement true cs (c :: rest)
  | comma {cs between rest : List Char} {c : Char} (hcomma : skipBlank cs = ',' :: between)
    (hc : c ≠ ']') (h : skipBlank between = c :: rest) : ToElement false cs (c :: rest)

theorem toElement_of_nextElement {first : Bool} (h : nextElement first cs = .ok (true, rest)) :
    ToElement first cs rest := by
  unfold nextElement at h
  split at h
  · cases h
  · cases h
  next c after hend hcs =>
    cases first with
    | true =>
      cases h
      exact .first hend hcs
    | false =>
      rw [if_neg Bool.false_ne_true] at h
      split at h
      next hcomma =>
        rw [hcomma] at hcs
        cases hbetween : skipBlank after with
        | nil =>
          rw [hbetween] at h
          cases h
        | cons d ds =>
          rw [hbetween] at h
          split at h
          next heq => cases heq
          · cases h
          next hend' =>
            cases h
            exact .comma hcs (fun hd => hend' ds (hd ▸ rfl)) hbetween
      · cases h

theorem ToElement.nextElement_eq {first : Bool} (h : ToElement first cs rest) :
    nextElement first cs = .ok (true, rest) := by
  cases h with
  | first hc h => simp [nextElement, h]
  | comma hcomma hc h => simp [nextElement, hcomma, h, hc]

theorem nextElement_of_end (first : Bool) (h : skipBlank cs = ']' :: rest) :
    nextElement first cs = .ok (false, ']' :: rest) := by
  simp [nextElement, h]

theorem skipBlank_of_nextElement {first : Bool} (h : nextElement first cs = .ok (false, rest)) :
    ∃ after, skipBlank cs = ']' :: after ∧ rest = ']' :: after := by
  unfold nextElement at h
  split at h
  · cases h
  next after hcs =>
    cases h
    exact ⟨after, hcs, rfl⟩
  · split at h
    · cases h
    · split at h
      · split at h <;> cases h
      · cases h

/-- The way to the name of a member and over it, over the comma before it unless it is the first. -/
inductive OverName : Bool → List Char → String → List Char → Prop
  | first {cs after rest : List Char} {name : String} (h : skipBlank cs = '"' :: after)
    (hname : readChars [] after = .ok (name, rest)) : OverName true cs name rest
  | comma {cs between after rest : List Char} {name : String}
    (hcomma : skipBlank cs = ',' :: between) (h : skipBlank between = '"' :: after)
    (hname : readChars [] after = .ok (name, rest)) : OverName false cs name rest

theorem overName_of_nextName {first : Bool} {name : String}
    (h : nextName first cs = .ok (some name, rest)) : OverName first cs name rest := by
  unfold nextName at h
  split at h
  · cases h
  · cases h
  next c after hend hcs =>
    cases first with
    | true =>
      rw [if_pos rfl] at h
      split at h
      next hquote =>
        obtain ⟨read, hread, heq⟩ := exists_of_map_ok h
        cases heq
        rw [hquote] at hcs
        exact .first hcs hread
      · cases h
    | false =>
      rw [if_neg Bool.false_ne_true] at h
      split at h
      next hcomma =>
        rw [hcomma] at hcs
        split at h
        · cases h
        next hquote =>
          obtain ⟨read, hread, heq⟩ := exists_of_map_ok h
          cases heq
          exact .comma hcs hquote hread
        · cases h
        · cases h
      · cases h

theorem OverName.nextName_eq {first : Bool} {name : String} (h : OverName first cs name rest) :
    nextName first cs = .ok (some name, rest) := by
  cases h with
  | first h hname => simp [nextName, h, hname, Except.map]
  | comma hcomma h hname => simp [nextName, hcomma, h, hname, Except.map]

theorem nextName_of_end (first : Bool) (h : skipBlank cs = '}' :: rest) :
    nextName first cs = .ok (none, '}' :: rest) := by
  simp [nextName, h]

theorem skipBlank_of_nextName {first : Bool} (h : nextName first cs = .ok (none, rest)) :
    ∃ after, skipBlank cs = '}' :: after ∧ rest = '}' :: after := by
  unfold nextName at h
  split at h
  · cases h
  next after hcs =>
    cases h
    exact ⟨after, hcs, rfl⟩
  · split at h
    · split at h
      · obtain ⟨read, -, heq⟩ := exists_of_map_ok h
        cases heq
      · cases h
    · split at h
      · split at h
        · cases h
        · obtain ⟨read, -, heq⟩ := exists_of_map_ok h
          cases heq
        · cases h
        · cases h
      · cases h

/-! ## Elements and members -/

/-- Text behind an opening bracket spells the elements of an array, each for a reader, up to what
follows the closing bracket. -/
inductive SpellsElements {α : Type} (read : List Char → Reading α) :
    Bool → List Char → List α → List Char → Prop
  | nil {first : Bool} {cs rest : List Char} (h : skipBlank cs = ']' :: rest) :
    SpellsElements read first cs [] rest
  | cons {first : Bool} {cs after behind rest : List Char} {x : α} {xs : List α}
    (hto : ToElement first cs after) (hx : read after = .ok (x, behind))
    (hxs : SpellsElements read false behind xs rest) : SpellsElements read first cs (x :: xs) rest

theorem SpellsElements.forall_mem {α : Type} {read : List Char → Reading α} {p : α → Prop}
    (hread : ∀ {cs rest : List Char} {x : α}, read cs = .ok (x, rest) → p x) {first : Bool}
    {xs : List α} (h : SpellsElements read first cs xs rest) : ∀ x ∈ xs, p x := by
  induction h with
  | nil =>
    intro x hx
    cases hx
  | cons _ hx _ ih => exact List.forall_mem_cons.mpr ⟨hread hx, ih⟩

theorem spellsElements_of_readElements {α : Type} {read : List Char → Reading α} {fuel : Nat}
    {first : Bool} {done xs : List α} {left : List Char}
    (h : readElements read fuel first done cs = .ok (xs, left))
    (hend : skipBlank left = ']' :: rest) :
    ∃ ys, xs = done.reverse ++ ys ∧ SpellsElements read first cs ys rest := by
  induction fuel generalizing first done cs with
  | zero =>
    cases h
    exact ⟨[], (List.append_nil _).symm, .nil hend⟩
  | succ fuel ih =>
    rw [readElements] at h
    split at h
    · cases h
    next hnext =>
      obtain ⟨after, hcs, rfl⟩ := skipBlank_of_nextElement hnext
      cases h
      cases hend
      exact ⟨[], (List.append_nil _).symm, .nil hcs⟩
    next hnext =>
      split at h
      · cases h
      next x behind hx =>
        obtain ⟨ys, rfl, hys⟩ := ih h
        exact ⟨x :: ys, by simp, .cons (toElement_of_nextElement hnext) hx hys⟩

/-- Text behind an opening bracket spells the members of an object, each value for a reader, up to
what follows the closing bracket. -/
inductive SpellsMembers (read : List Char → Reading Json) :
    Bool → List Char → List (String × Json) → List Char → Prop
  | nil {first : Bool} {cs rest : List Char} (h : skipBlank cs = '}' :: rest) :
    SpellsMembers read first cs [] rest
  | cons {first : Bool} {cs after value behind rest : List Char} {name : String} {v : Json}
    {ms : List (String × Json)} (hname : OverName first cs name after)
    (hcolon : skipBlank after = ':' :: value) (hv : read value = .ok (v, behind))
    (hms : SpellsMembers read false behind ms rest) :
    SpellsMembers read first cs ((name, v) :: ms) rest

theorem SpellsMembers.forall_mem {read : List Char → Reading Json} {p : Json → Prop}
    (hread : ∀ {cs rest : List Char} {v : Json}, read cs = .ok (v, rest) → p v) {first : Bool}
    {ms : List (String × Json)} (h : SpellsMembers read first cs ms rest) :
    ∀ m ∈ ms, p m.2 := by
  induction h with
  | nil =>
    intro m hm
    cases hm
  | cons _ _ hv _ ih => exact List.forall_mem_cons.mpr ⟨hread hv, ih⟩

theorem spellsMembers_of_readMembers {read : List Char → Reading Json} {fuel : Nat}
    {first : Bool} {known all : List (String × Json)} {left : List Char}
    (h : readMembers (readMemberBefore read) fuel first known cs = .ok (all, left))
    (hend : skipBlank left = '}' :: rest) :
    ∃ ms, all = ms.reverse ++ known ∧ SpellsMembers read first cs ms rest := by
  induction fuel generalizing first known cs with
  | zero =>
    cases h
    exact ⟨[], rfl, .nil hend⟩
  | succ fuel ih =>
    rw [readMembers] at h
    split at h
    · cases h
    next hnext =>
      obtain ⟨after, hcs, rfl⟩ := skipBlank_of_nextName hnext
      cases h
      cases hend
      exact ⟨[], rfl, .nil hcs⟩
    next name after hnext =>
      split at h
      · cases h
      next more behind hmember =>
        obtain ⟨⟨v, _⟩, hv, heq⟩ := exists_of_map_ok hmember
        cases heq
        unfold afterColon at hv
        split at hv
        · cases hv
        next value hcolon =>
          obtain ⟨ms, rfl, hms⟩ := ih h
          refine ⟨(name, v) :: ms, by simp, ?_⟩
          exact .cons (overName_of_nextName hnext) (readColon_eq_ok_iff.mp hcolon) hv hms

/-! ## Values -/

/-- Text without blanks before it spells a value, up to the rest. -/
inductive Spells : Nat → List Char → Json → List Char → Prop
  | null {levels : Nat} {cs rest : List Char} (h : readWord ['u', 'l', 'l'] cs = .ok rest) :
    Spells levels ('n' :: cs) .null rest
  | true {levels : Nat} {cs rest : List Char} (h : readWord ['r', 'u', 'e'] cs = .ok rest) :
    Spells levels ('t' :: cs) (.bool true) rest
  | false {levels : Nat} {cs rest : List Char} (h : readWord ['a', 'l', 's', 'e'] cs = .ok rest) :
    Spells levels ('f' :: cs) (.bool false) rest
  | string {levels : Nat} {cs rest : List Char} {s : String}
    (h : readChars [] cs = .ok (s, rest)) : Spells levels ('"' :: cs) (.string s) rest
  | number {levels : Nat} {c : Char} {cs rest : List Char} {n : Number}
    (hc : startsNumber c = Bool.true) (h : readNumber (c :: cs) = .ok (n, rest)) :
    Spells levels (c :: cs) (.number n) rest
  | array {levels : Nat} {cs rest : List Char} {xs : List Json}
    (h : SpellsElements (readValue levels) Bool.true cs xs rest) :
    Spells (levels + 1) ('[' :: cs) (.array xs) rest
  | object {levels : Nat} {cs rest : List Char} {ms : List (String × Json)}
    (h : SpellsMembers (readValue levels) Bool.true cs ms rest) :
    Spells (levels + 1) ('{' :: cs) (.object ms) rest

theorem spells_of_readDatum {levels : Nat} {bracket : List Char → Reading Json} {j : Json}
    (h : readDatum bracket cs = .ok (j, rest))
    (harray : ∀ after, skipBlank cs = '[' :: after → bracket ('[' :: after) = .ok (j, rest) →
      Spells levels ('[' :: after) j rest)
    (hobject : ∀ after, skipBlank cs = '{' :: after → bracket ('{' :: after) = .ok (j, rest) →
      Spells levels ('{' :: after) j rest) : Spells levels (skipBlank cs) j rest := by
  unfold readDatum at h
  split at h
  · cases h
  next after hcs =>
    obtain ⟨read, hread, heq⟩ := exists_of_map_ok h
    cases heq
    rw [hcs]
    exact .null hread
  next after hcs =>
    obtain ⟨read, hread, heq⟩ := exists_of_map_ok h
    cases heq
    rw [hcs]
    exact .true hread
  next after hcs =>
    obtain ⟨read, hread, heq⟩ := exists_of_map_ok h
    cases heq
    rw [hcs]
    exact .false hread
  next after hcs =>
    obtain ⟨read, hread, heq⟩ := exists_of_map_ok h
    cases heq
    rw [hcs]
    exact .string hread
  next after hcs =>
    rw [hcs]
    exact harray after hcs h
  next after hcs =>
    rw [hcs]
    exact hobject after hcs h
  next c after _ _ _ _ _ _ hcs =>
    rw [hcs]
    split at h
    next hc =>
      obtain ⟨read, hread, heq⟩ := exists_of_map_ok h
      cases heq
      exact .number hc hread
    · cases h

/-- Text that is read as a value spells it. -/
theorem spells_of_readValue {levels : Nat} {j : Json} (h : readValue levels cs = .ok (j, rest)) :
    Spells levels (skipBlank cs) j rest := by
  cases levels with
  | zero => exact spells_of_readDatum h (fun _ _ h => by cases h) fun _ _ h => by cases h
  | succ levels =>
    refine spells_of_readDatum h (fun after _ h => ?_) fun after _ h => ?_
    · obtain ⟨⟨xs, _⟩, hread, heq⟩ := exists_of_map_ok h
      cases heq
      obtain ⟨left, hread, hend⟩ := closeArray_eq_ok_iff.mp hread
      obtain ⟨_, rfl, hxs⟩ := spellsElements_of_readElements hread hend
      exact .array hxs
    · obtain ⟨⟨ms, _⟩, hread, heq⟩ := exists_of_map_ok h
      cases heq
      obtain ⟨left, hread, hend⟩ := closeObject_eq_ok_iff.mp hread
      obtain ⟨⟨all, _⟩, hread, heq⟩ := exists_of_map_ok hread
      cases heq
      obtain ⟨ms, rfl, hms⟩ := spellsMembers_of_readMembers hread hend
      rw [List.append_nil, List.reverse_reverse]
      exact .object hms

end Json
end ResourceSearch
