import ResourceSearch.Proofs.Json.Members
import ResourceSearch.Proofs.Json.Nested

/-!
What stands where in a value.  A place is reached by element numbers and member names, and of some
members with one name the last one counts.  Putting the members of objects in order moves nothing:
the same stands at every place as before (`follow_canonical`).
-/

namespace ResourceSearch
namespace Json

/-- A step into a value. -/
inductive Step where
  | element (index : Nat)
  | member (name : String)
  deriving DecidableEq, Repr

/-- The last member with a name. -/
def lastUnder (name : String) (ms : List (String × Json)) : Option Json := (under name ms).getLast?

/-- What stands one step into a value. -/
def child : Json → Step → Option Json
  | .array xs, .element index => xs[index]?
  | .object ms, .member name => lastUnder name ms
  | _, _ => none

/-- What stands at a place of a value. -/
def follow (j : Json) : List Step → Option Json
  | [] => some j
  | step :: path => (j.child step).bind fun next => next.follow path

variable {name : String} {ms : List (String × Json)}

/-! ## Members under a name -/

theorem lastUnder_cons (name : String) (m : String × Json) (ms : List (String × Json)) :
    lastUnder name (m :: ms) =
      if m.1 = name then (lastUnder name ms).or (some m.2) else lastUnder name ms := by
  rw [lastUnder, under_cons]
  split
  · rw [List.getLast?_cons, lastUnder]
    cases (under name ms).getLast? <;> rfl
  · rfl

theorem isSome_lastUnder_iff : (lastUnder name ms).isSome ↔ name ∈ ms.map (·.1) := by
  induction ms with
  | nil => simp [lastUnder]
  | cons m ms ih =>
    rw [lastUnder_cons, List.map_cons, List.mem_cons, ← ih]
    split
    next h => simp [h]
    next h => simp [Ne.symm h]

/-- A member that is added to others before them all counts only if none of them has its name. -/
theorem lastUnder_addMember (name added : String) (v : Json) (ms : List (String × Json)) :
    lastUnder name (addMember added v ms) = lastUnder name ((added, v) :: ms) := by
  induction ms with
  | nil => rfl
  | cons m ms ih =>
    obtain ⟨other, w⟩ := m
    rw [addMember]
    split
    · rfl
    · split
      next heq =>
        subst heq
        simp only [lastUnder_cons]
        split <;> simp
      next hne =>
        simp only [lastUnder_cons, ih]
        by_cases hother : other = name
        · have hadded : added ≠ name := fun h => hne (h.trans hother.symm)
          simp [hother, hadded]
        · simp [hother]

theorem lastUnder_canonicalMembers (name : String) (ms : List (String × Json)) :
    lastUnder name (canonicalMembers ms) = (lastUnder name ms).map canonical := by
  induction ms with
  | nil => rfl
  | cons m ms ih =>
    obtain ⟨other, v⟩ := m
    rw [canonicalMembers, lastUnder_addMember, lastUnder_cons, lastUnder_cons, ih]
    split
    · cases lastUnder name ms <;> rfl
    · rfl

/-- Members that are left out have other names. -/
theorem lastUnder_filter {p : String → Prop} [DecidablePred p] (h : p name) :
    lastUnder name (ms.filter fun m => p m.1) = lastUnder name ms := by
  induction ms with
  | nil => rfl
  | cons m ms ih =>
    by_cases hm : p m.1
    · rw [List.filter_cons_of_pos (by simpa using hm), lastUnder_cons, lastUnder_cons, ih]
    · rw [List.filter_cons_of_neg (by simpa using hm), lastUnder_cons, ih,
        if_neg fun heq : m.1 = name => hm (heq ▸ h)]

theorem lastUnder_append_of_not_mem {before : List (String × Json)}
    (h : name ∉ before.map (·.1)) : lastUnder name (before ++ ms) = lastUnder name ms := by
  induction before with
  | nil => rfl
  | cons m before ih =>
    rw [List.map_cons, List.mem_cons, not_or] at h
    rw [List.cons_append, lastUnder_cons, if_neg (Ne.symm h.1), ih h.2]

/-! ## Values in order -/

theorem canonicalElements_eq_map (xs : List Json) : canonicalElements xs = xs.map canonical := by
  induction xs with
  | nil => rfl
  | cons x xs ih => rw [canonicalElements, ih, List.map_cons]

theorem child_canonical (j : Json) (step : Step) :
    j.canonical.child step = (j.child step).map canonical := by
  cases j with
  | array xs =>
    cases step with
    | element index => rw [canonical, child, child, canonicalElements_eq_map, List.getElem?_map]
    | member name => rfl
  | object ms =>
    cases step with
    | element index => rfl
    | member name => rw [canonical, child, child, lastUnder_canonicalMembers]
  | _ => cases step <;> rfl

/-- Every place of a value holds the same when the members of its objects are put in order. -/
theorem follow_canonical (j : Json) (path : List Step) :
    j.canonical.follow path = (j.follow path).map canonical := by
  induction path generalizing j with
  | nil => rfl
  | cons step path ih =>
    rw [follow, follow, child_canonical]
    cases j.child step with
    | none => rfl
    | some next => exact ih next

end Json
end ResourceSearch
