import ResourceSearch.Decimal.Shortest

/-!
JSON values.  A value keeps its members in the order in which they were written, repeated names
included; `canonical` sorts them by name and keeps the last member of each name, at every depth, and
gives a value in which this holds (`canonical_canonical`).
-/

namespace ResourceSearch

/-- A JSON number: a whole number of 64 bits, of either sign, or a binary floating-point number. -/
inductive Number where
  | integer (value : Int) (inRange : -0x8000000000000000 ≤ value ∧ value < 0x10000000000000000)
  | real (value : Binary64)
  deriving DecidableEq, Repr

namespace Number

/-- A whole number, or the largest one when it is larger than that. -/
def ofNat (n : Nat) : Number := .integer (min n 0xFFFFFFFFFFFFFFFF : Nat) (by omega)

/-- Numeric equality, within whole numbers and within the others. -/
def same : Number → Number → Bool
  | .integer m _, .integer n _ => m = n
  | .real x, .real y => x.same y
  | _, _ => false

theorem same_refl (n : Number) : n.same n = true := by
  cases n <;> simp [same, Binary64.same_refl]

end Number

inductive Json where
  | null
  | bool (value : Bool)
  | number (value : Number)
  | string (value : String)
  | array (elements : List Json)
  | object (members : List (String × Json))
  deriving Repr, Inhabited

namespace Json

def strings (values : List String) : Json := .array (values.map .string)

def count (n : Nat) : Json := .number (.ofNat n)

mutual

/-- Equality of values, under which the two zeros are one number. -/
def same : Json → Json → Bool
  | .null, .null => true
  | .bool a, .bool b => a = b
  | .number m, .number n => m.same n
  | .string s, .string t => s = t
  | .array xs, .array ys => sameElements xs ys
  | .object ms, .object ns => sameMembers ms ns
  | _, _ => false

def sameElements : List Json → List Json → Bool
  | [], [] => true
  | x :: xs, y :: ys => same x y && sameElements xs ys
  | _, _ => false

def sameMembers : List (String × Json) → List (String × Json) → Bool
  | [], [] => true
  | (a, x) :: ms, (b, y) :: ns => a = b && same x y && sameMembers ms ns
  | _, _ => false

end

/-- Adds a member to sorted ones, unless they have its name already. -/
def addMember (name : String) (value : Json) : List (String × Json) → List (String × Json)
  | [] => [(name, value)]
  | (other, v) :: ms =>
    if name < other then (name, value) :: (other, v) :: ms
    else if name = other then (other, v) :: ms
    else (other, v) :: addMember name value ms

mutual

/-- The value with the members of every object sorted by name, the last one of each name only. -/
def canonical : Json → Json
  | .array xs => .array (canonicalElements xs)
  | .object ms => .object (canonicalMembers ms)
  | j => j

def canonicalElements : List Json → List Json
  | [] => []
  | x :: xs => canonical x :: canonicalElements xs

def canonicalMembers : List (String × Json) → List (String × Json)
  | [] => []
  | (name, v) :: ms => addMember name (canonical v) (canonicalMembers ms)

end

/-- Names in strictly increasing order. -/
def Increasing (members : List (String × Json)) : Prop := members.Pairwise (·.1 < ·.1)

mutual

/-- Whether the members of every object are in strictly increasing order. -/
def Canonical : Json → Prop
  | .array xs => CanonicalElements xs
  | .object ms => Increasing ms ∧ CanonicalMembers ms
  | _ => True

def CanonicalElements : List Json → Prop
  | [] => True
  | x :: xs => Canonical x ∧ CanonicalElements xs

def CanonicalMembers : List (String × Json) → Prop
  | [] => True
  | (_, v) :: ms => Canonical v ∧ CanonicalMembers ms

end

mutual

/-- The number of objects and arrays around the innermost value, that value included. -/
def depth : Json → Nat
  | .array xs => depthElements xs + 1
  | .object ms => depthMembers ms + 1
  | _ => 0

def depthElements : List Json → Nat
  | [] => 0
  | x :: xs => max (depth x) (depthElements xs)

def depthMembers : List (String × Json) → Nat
  | [] => 0
  | (_, v) :: ms => max (depth v) (depthMembers ms)

end

theorem name_mem_addMember {name : String} {value : Json} {ms : List (String × Json)}
    {m : String × Json} (h : m ∈ addMember name value ms) : m.1 = name ∨ m ∈ ms := by
  induction ms with
  | nil => simp_all [addMember]
  | cons first rest ih =>
    unfold addMember at h
    split at h
    · rcases List.mem_cons.mp h with rfl | h
      · exact .inl rfl
      · exact .inr h
    · split at h
      · exact .inr h
      · rcases List.mem_cons.mp h with rfl | h
        · exact .inr List.mem_cons_self
        · rcases ih h with h | h
          · exact .inl h
          · exact .inr (List.mem_cons_of_mem _ h)

theorem increasing_addMember {name : String} {value : Json} {ms : List (String × Json)}
    (h : Increasing ms) : Increasing (addMember name value ms) := by
  induction ms with
  | nil => simp [addMember, Increasing]
  | cons first rest ih =>
    have hrest := List.pairwise_cons.mp h
    unfold addMember
    split
    next hlt =>
      refine List.pairwise_cons.mpr ⟨?_, h⟩
      intro m hm
      rcases List.mem_cons.mp hm with rfl | hm
      · exact hlt
      · exact String.lt_trans hlt (hrest.1 m hm)
    next hnlt =>
      split
      next => exact h
      next hne =>
        refine List.pairwise_cons.mpr ⟨?_, ih hrest.2⟩
        intro m hm
        rcases name_mem_addMember hm with hm | hm
        · rw [hm]
          by_cases hgt : first.1 < name
          · exact hgt
          · exact absurd (String.le_antisymm (String.not_lt.mp hgt) (String.not_lt.mp hnlt)) hne
        · exact hrest.1 m hm

theorem canonicalMembers_addMember {name : String} {value : Json} {ms : List (String × Json)}
    (hv : Canonical value) (h : CanonicalMembers ms) :
    CanonicalMembers (addMember name value ms) := by
  induction ms with
  | nil => exact ⟨hv, trivial⟩
  | cons first rest ih =>
    unfold addMember
    split
    · exact ⟨hv, h⟩
    · split
      · exact h
      · exact ⟨h.1, ih h.2⟩

mutual

theorem canonical_canonical : ∀ j : Json, Canonical (canonical j)
  | .null => trivial
  | .bool _ => trivial
  | .number _ => trivial
  | .string _ => trivial
  | .array xs => canonicalElements_canonical xs
  | .object ms => canonicalMembers_canonical ms

theorem canonicalElements_canonical : ∀ xs : List Json, CanonicalElements (canonicalElements xs)
  | [] => trivial
  | x :: xs => ⟨canonical_canonical x, canonicalElements_canonical xs⟩

theorem canonicalMembers_canonical : ∀ ms : List (String × Json),
    Increasing (canonicalMembers ms) ∧ CanonicalMembers (canonicalMembers ms)
  | [] => ⟨List.Pairwise.nil, trivial⟩
  | (_, v) :: ms =>
    have ih := canonicalMembers_canonical ms
    ⟨increasing_addMember ih.1, canonicalMembers_addMember (canonical_canonical v) ih.2⟩

end

mutual

theorem same_refl : ∀ j : Json, same j j = true
  | .null => rfl
  | .bool _ => by simp [same]
  | .number n => by simp [same, Number.same_refl]
  | .string _ => by simp [same]
  | .array xs => by simp [same, sameElements_refl xs]
  | .object ms => by simp [same, sameMembers_refl ms]

theorem sameElements_refl : ∀ xs : List Json, sameElements xs xs = true
  | [] => rfl
  | x :: xs => by simp [sameElements, same_refl x, sameElements_refl xs]

theorem sameMembers_refl : ∀ ms : List (String × Json), sameMembers ms ms = true
  | [] => rfl
  | (_, v) :: ms => by simp [sameMembers, same_refl v, sameMembers_refl ms]

end

end Json
end ResourceSearch
