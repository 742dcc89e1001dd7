import ResourceSearch.Proofs.Json.Faithful

/-!
Decoding the members of an object, name by name.  Each field of a record takes the values under its
name (`Decoder.Takes`), one at most, and members that no field takes are passed over.
-/

namespace ResourceSearch
namespace Json

/-- What stands under a name among the members of an object. -/
def under (name : String) (ms : List (String × Json)) : List Json :=
  (ms.filter fun m => m.1 = name).map (·.2)

@[simp] theorem under_nil (name : String) : under name [] = [] := rfl

theorem under_cons (name : String) (m : String × Json) (ms : List (String × Json)) :
    under name (m :: ms) = if m.1 = name then m.2 :: under name ms else under name ms := by
  by_cases h : m.1 = name <;> simp [under, h]

/-- What stands under any of some names. -/
def underAny (names : List String) (ms : List (String × Json)) : List Json :=
  (ms.filter fun m => m.1 ∈ names).map (·.2)

@[simp] theorem underAny_nil (names : List String) : underAny names [] = [] := rfl

theorem underAny_cons (names : List String) (m : String × Json) (ms : List (String × Json)) :
    underAny names (m :: ms) =
      if m.1 ∈ names then m.2 :: underAny names ms else underAny names ms := by
  by_cases h : m.1 ∈ names <;> simp [underAny, h]

theorem mem_underAny_iff {names : List String} {ms : List (String × Json)} {v : Json} :
    v ∈ underAny names ms ↔ ∃ name ∈ names, (name, v) ∈ ms := by
  simp only [underAny, List.mem_map, List.mem_filter, decide_eq_true_eq]
  constructor
  · rintro ⟨m, ⟨hm, hname⟩, rfl⟩
    exact ⟨m.1, hname, hm⟩
  · rintro ⟨name, hname, hm⟩
    exact ⟨(name, v), ⟨hm, hname⟩, rfl⟩

/-- From what is known of a field, decoding the values under its name leads to what is known then.
-/
def Decoder.Takes {β : Type} (d : Decoder β) : Option β → List Json → Option β → Prop
  | known, [], last => last = known
  | none, v :: vs, last => ∃ b, d.decode .given v = .ok b ∧ Takes d (some b) vs last
  | some _, _ :: _, _ => False

namespace Decoder

variable {β : Type} {d : Decoder β} {last : Option β}

theorem takes_nil_iff {known : Option β} : d.Takes known [] last ↔ last = known := by
  cases known <;> rfl

theorem takes_cons_iff {known : Option β} {v : Json} {vs : List Json} :
    d.Takes known (v :: vs) last ↔
      known = none ∧ ∃ b, d.decode .given v = .ok b ∧ d.Takes (some b) vs last := by
  cases known <;> simp [Takes]

theorem takes_some_iff {b : β} {vs : List Json} :
    d.Takes (some b) vs last ↔ vs = [] ∧ last = some b := by
  cases vs <;> simp [Takes]

theorem takes_none_iff {vs : List Json} :
    d.Takes none vs last ↔ vs = [] ∧ last = none ∨
      ∃ v b, vs = [v] ∧ d.decode .given v = .ok b ∧ last = some b := by
  cases vs with
  | nil => simp [Takes]
  | cons v vs =>
    simp only [takes_cons_iff, takes_some_iff, List.cons.injEq, reduceCtorEq, false_and, false_or,
      true_and]
    constructor
    · rintro ⟨b, hv, rfl, rfl⟩
      exact ⟨v, b, ⟨rfl, rfl⟩, hv, rfl⟩
    · rintro ⟨_, b, ⟨rfl, rfl⟩, hv, rfl⟩
      exact ⟨b, hv, rfl, rfl⟩

theorem takes_string_iff {vs : List Json} {last : Option String} :
    string.Takes none vs last ↔
      vs = [] ∧ last = none ∨ ∃ s, vs = [.string s] ∧ last = some s := by
  rw [takes_none_iff]
  refine or_congr_right ⟨?_, ?_⟩
  · rintro ⟨v, s, rfl, hv, rfl⟩
    cases v with
    | string t =>
      cases hv
      exact ⟨s, rfl, rfl⟩
    | _ => cases hv
  · rintro ⟨s, rfl, rfl⟩
    exact ⟨.string s, s, rfl, rfl, rfl⟩

end Decoder

namespace Record

variable {σ α β : Type} {r : Record σ α} {s t : σ} {others kept ms : List (String × Json)}

/-- A member of a field that is not known yet is decoded, and the members behind it then. -/
theorem foldlM_decodeMember_field {name own : String} {get : σ → Option β} {set : σ → β → σ}
    {d : Decoder β} {mayLack : Bool} {aliases : List String} {v : Json}
    (hfield : r.field? name = some (.of own get set d mayLack aliases)) :
    ((name, v) :: ms).foldlM (r.decodeMember .given) (s, others) = .ok (t, kept) ↔
      get s = none ∧ ∃ b, d.decode .given v = .ok b ∧
        ms.foldlM (r.decodeMember .given) (set s b, others) = .ok (t, kept) := by
  rw [List.foldlM_cons, decodeMember, hfield]
  cases hknown : get s with
  | some b => simp [Field.of, hknown, bind, Except.bind]
  | none =>
    cases hv : d.decode .given v <;> simp [Field.of, hknown, hv, Except.map, bind, Except.bind]

theorem foldlM_decodeMember_other {m : String × Json} (hfield : r.field? m.1 = none)
    (hkeeps : r.keepsOthers = false) :
    (m :: ms).foldlM (r.decodeMember .given) (s, others) =
      ms.foldlM (r.decodeMember .given) (s, others) := by
  rw [List.foldlM_cons, decodeMember, hfield]
  simp only [hkeeps]
  rfl

theorem foldlM_decodeMember_kept {m : String × Json} (hfield : r.field? m.1 = none)
    (hkeeps : r.keepsOthers = true) :
    (m :: ms).foldlM (r.decodeMember .given) (s, others) =
      ms.foldlM (r.decodeMember .given) (s, m :: others) := by
  rw [List.foldlM_cons, decodeMember, hfield]
  simp only [hkeeps]
  rfl

end Record
end Json
end ResourceSearch
