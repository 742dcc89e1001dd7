import ResourceSearch.Proofs.Json.Values

/-!
Nested values.  A value is readable at a number of levels if it is nested no deeper than that and
its numbers are given back by their texts; both are matters of its parts.  Putting the members of
objects in order does not nest them deeper, and changes nothing if they are in order.
-/

namespace ResourceSearch
namespace Json

theorem depthElements_le_iff {xs : List Json} {n : Nat} :
    depthElements xs ≤ n ↔ ∀ x ∈ xs, x.depth ≤ n := by
  induction xs with
  | nil => simp [depthElements]
  | cons x xs ih => rw [depthElements, Nat.max_le, ih, List.forall_mem_cons]

theorem depthMembers_le_iff {ms : List (String × Json)} {n : Nat} :
    depthMembers ms ≤ n ↔ ∀ m ∈ ms, m.2.depth ≤ n := by
  induction ms with
  | nil => simp [depthMembers]
  | cons m ms ih =>
    obtain ⟨name, v⟩ := m
    rw [depthMembers, Nat.max_le, ih, List.forall_mem_cons]

theorem numbersReadBackElements_iff {xs : List Json} :
    NumbersReadBackElements xs ↔ ∀ x ∈ xs, x.NumbersReadBack := by
  induction xs with
  | nil => simp [NumbersReadBackElements]
  | cons x xs ih => simp [NumbersReadBackElements, ih]

theorem numbersReadBackMembers_iff {ms : List (String × Json)} :
    NumbersReadBackMembers ms ↔ ∀ m ∈ ms, m.2.NumbersReadBack := by
  induction ms with
  | nil => simp [NumbersReadBackMembers]
  | cons m ms ih =>
    obtain ⟨name, v⟩ := m
    simp [NumbersReadBackMembers, ih]

/-! ## What can be read back -/

structure Readable (levels : Nat) (j : Json) : Prop where
  depth : j.depth ≤ levels
  numbers : j.NumbersReadBack

theorem Readable.mono {m n : Nat} {j : Json} (h : j.Readable m) (hmn : m ≤ n) : j.Readable n :=
  ⟨Nat.le_trans h.depth hmn, h.numbers⟩

theorem readable_string (levels : Nat) (s : String) : (Json.string s).Readable levels :=
  ⟨Nat.zero_le _, trivial⟩

theorem readable_count (levels n : Nat) : (count n).Readable levels :=
  ⟨Nat.zero_le _, readsBack_integer _ _⟩

theorem readable_array {levels : Nat} {xs : List Json} (h : ∀ x ∈ xs, x.Readable levels) :
    (Json.array xs).Readable (levels + 1) where
  depth := Nat.succ_le_succ (depthElements_le_iff.mpr fun x hx => (h x hx).depth)
  numbers := numbersReadBackElements_iff.mpr fun x hx => (h x hx).numbers

theorem readable_list {α : Type} {levels : Nat} {write : α → Json} {xs : List α}
    (h : ∀ x ∈ xs, (write x).Readable levels) :
    (Json.array (xs.map write)).Readable (levels + 1) := by
  refine readable_array fun j hj => ?_
  obtain ⟨x, hx, rfl⟩ := List.mem_map.mp hj
  exact h x hx

theorem readable_strings (levels : Nat) (values : List String) :
    (strings values).Readable (levels + 1) :=
  readable_list fun s _ => readable_string levels s

theorem readable_object {levels : Nat} {ms : List (String × Json)}
    (h : ∀ m ∈ ms, m.2.Readable levels) : (Json.object ms).Readable (levels + 1) where
  depth := Nat.succ_le_succ (depthMembers_le_iff.mpr fun m hm => (h m hm).depth)
  numbers := numbersReadBackMembers_iff.mpr fun m hm => (h m hm).numbers

theorem readable_pair {levels : Nat} {first second : String} {v w : Json} (hv : v.Readable levels)
    (hw : w.Readable levels) : (Json.object [(first, v), (second, w)]).Readable (levels + 1) := by
  refine readable_object fun m hm => ?_
  rcases List.mem_cons.mp hm with rfl | hm
  · exact hv
  · cases List.mem_singleton.mp hm
    exact hw

/-! ## Members in order -/

theorem addMember_of_lt {name : String} {value : Json} {ms : List (String × Json)}
    (h : ∀ m ∈ ms, name < m.1) : addMember name value ms = (name, value) :: ms := by
  cases ms with
  | nil => rfl
  | cons m ms => rw [addMember, if_pos (h m List.mem_cons_self)]

mutual

theorem canonical_of_canonical : ∀ {j : Json}, j.Canonical → j.canonical = j
  | .null, _ => rfl
  | .bool _, _ => rfl
  | .number _, _ => rfl
  | .string _, _ => rfl
  | .array xs, h => by
    rw [canonical, canonicalElements_of_canonical h]
  | .object ms, h => by
    rw [canonical, canonicalMembers_of_canonical h.1 h.2]

theorem canonicalElements_of_canonical : ∀ {xs : List Json}, CanonicalElements xs →
    canonicalElements xs = xs
  | [], _ => rfl
  | x :: xs, h => by
    rw [canonicalElements, canonical_of_canonical h.1, canonicalElements_of_canonical h.2]

theorem canonicalMembers_of_canonical : ∀ {ms : List (String × Json)}, Increasing ms →
    CanonicalMembers ms → canonicalMembers ms = ms
  | [], _, _ => rfl
  | (name, v) :: ms, hinc, h => by
    obtain ⟨hfirst, hrest⟩ := List.pairwise_cons.mp hinc
    rw [canonicalMembers, canonical_of_canonical h.1, canonicalMembers_of_canonical hrest h.2,
      addMember_of_lt hfirst]

end

theorem depthMembers_addMember_le (name : String) (value : Json) (ms : List (String × Json)) :
    depthMembers (addMember name value ms) ≤ max value.depth (depthMembers ms) := by
  induction ms with
  | nil => simp [addMember, depthMembers]
  | cons m ms ih =>
    obtain ⟨other, v⟩ := m
    rw [addMember]
    split
    · simp [depthMembers]
    · split
      · exact Nat.le_max_right _ _
      · simp only [depthMembers]
        omega

mutual

theorem depth_canonical_le : ∀ j : Json, j.canonical.depth ≤ j.depth
  | .null => Nat.le_refl _
  | .bool _ => Nat.le_refl _
  | .number _ => Nat.le_refl _
  | .string _ => Nat.le_refl _
  | .array xs => Nat.succ_le_succ (depthElements_canonical_le xs)
  | .object ms => Nat.succ_le_succ (depthMembers_canonical_le ms)

theorem depthElements_canonical_le : ∀ xs : List Json,
    depthElements (canonicalElements xs) ≤ depthElements xs
  | [] => Nat.le_refl _
  | x :: xs => by
    have hx := depth_canonical_le x
    have hxs := depthElements_canonical_le xs
    simp only [canonicalElements, depthElements]
    omega

theorem depthMembers_canonical_le : ∀ ms : List (String × Json),
    depthMembers (canonicalMembers ms) ≤ depthMembers ms
  | [] => Nat.le_refl _
  | (name, v) :: ms => by
    have hv := depth_canonical_le v
    have hms := depthMembers_canonical_le ms
    have hadd := depthMembers_addMember_le name v.canonical (canonicalMembers ms)
    simp only [canonicalMembers, depthMembers]
    omega

end

end Json
end ResourceSearch
