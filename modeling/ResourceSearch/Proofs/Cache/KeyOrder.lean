import Mathlib.Order.Defs.Unbundled
import ResourceSearch.Cache.Key
import ResourceSearch.Proofs.Text.Order

/-!
The order of keys, said without comparing.  Keys go by their document, then by what was asked, part
after part; texts go by their bytes and a list comes before the lists that extend it.  Comparing two
keys decides this order (`Key.compare_eq_lt_iff`), and of two keys that differ one is before the
other (`Key.isStrictTotalOrder_before`).
-/

namespace ResourceSearch

theorem Text.compare_eq_lt_iff {s t : String} :
    compare s t = .lt ↔ bytes s.toList < bytes t.toList := by
  show compareOfLessAndEq s t = .lt ↔ _
  rw [compareOfLessAndEq_eq_lt, bytes_lt_bytes_iff]

/-- Lists are compared element by element, if their elements are. -/
theorem compare_list_eq_lt_iff {α : Type} [Ord α] [Std.LawfulEqOrd α] {r : α → α → Prop}
    (h : ∀ {a b : α}, compare a b = .lt ↔ r a b) {xs ys : List α} :
    compare xs ys = .lt ↔ List.Lex r xs ys := by
  induction xs generalizing ys with
  | nil => cases ys <;> simp
  | cons x xs ih =>
    cases ys with
    | nil => simp
    | cons y ys =>
      rw [List.compare_cons_cons, Ordering.then_eq_lt, List.cons_lex_cons_iff, h, ih,
        Std.LawfulEqOrd.compare_eq_iff_eq]

/-- The order of lists of texts. -/
def Text.ListBefore : List String → List String → Prop :=
  List.Lex fun s t => bytes s.toList < bytes t.toList

theorem Text.compare_list_eq_lt_iff {ss ts : List String} :
    compare ss ts = .lt ↔ ListBefore ss ts :=
  ResourceSearch.compare_list_eq_lt_iff compare_eq_lt_iff

/-- Filters go by their property and then by their values. -/
def Filter.Before (f g : Filter) : Prop :=
  Text.bytes f.property.toList < Text.bytes g.property.toList ∨
    f.property = g.property ∧ Text.ListBefore f.values g.values

theorem Filter.compare_eq_lt_iff {f g : Filter} : compare f g = .lt ↔ f.Before g := by
  show (compare f.property g.property).then (compare f.values g.values) = .lt ↔ _
  rw [Ordering.then_eq_lt, Text.compare_eq_lt_iff, Std.LawfulEqOrd.compare_eq_iff_eq,
    Text.compare_list_eq_lt_iff]
  rfl

namespace Cache

inductive Document.Before : Document → Document → Prop
  | items_relatedItems : Before .items .relatedItems
  | items_relatedCount : Before .items .relatedCount
  | relatedItems_relatedCount : Before .relatedItems .relatedCount

theorem Document.compare_eq_lt_iff {d e : Document} : compare d e = .lt ↔ d.Before e := by
  refine ⟨fun h => ?_, fun h => by cases h <;> rfl⟩
  cases d <;> cases e <;> first | constructor | cases h

/-- A search that asks for no kinds is before one that asks for any, or for an empty list. -/
inductive KindsBefore : Option (List String) → Option (List String) → Prop
  | absent (kinds : List String) : KindsBefore none (some kinds)
  | listed {js ks : List String} (h : Text.ListBefore js ks) : KindsBefore (some js) (some ks)

theorem kindsBefore_iff {j k : Option (List String)} : compare j k = .lt ↔ KindsBefore j k := by
  cases j with
  | none =>
    cases k with
    | none => exact ⟨nofun, nofun⟩
    | some ks => exact ⟨fun _ => .absent ks, fun _ => rfl⟩
  | some js =>
    cases k with
    | none => exact ⟨nofun, nofun⟩
    | some ks =>
      show compare js ks = .lt ↔ _
      rw [Text.compare_list_eq_lt_iff]
      exact ⟨.listed, fun | .listed h => h⟩

/-- What was asked goes by its words, then by its filters, then by the related kinds. -/
def Input.Before (i j : Input) : Prop :=
  Text.ListBefore i.query.keywords j.query.keywords ∨
    i.query.keywords = j.query.keywords ∧
      (List.Lex Filter.Before i.query.filters j.query.filters ∨
        i.query.filters = j.query.filters ∧ KindsBefore i.relatedKinds j.relatedKinds)

theorem Input.compare_eq_lt_iff {i j : Input} : compare i j = .lt ↔ i.Before j := by
  show (compare i.query.keywords j.query.keywords).then
    ((compare i.query.filters j.query.filters).then (compare i.relatedKinds j.relatedKinds)) =
      .lt ↔ _
  rw [Ordering.then_eq_lt, Ordering.then_eq_lt, Text.compare_list_eq_lt_iff,
    compare_list_eq_lt_iff Filter.compare_eq_lt_iff, kindsBefore_iff,
    Std.LawfulEqOrd.compare_eq_iff_eq, Std.LawfulEqOrd.compare_eq_iff_eq]
  rfl

namespace Key

/-- Keys go by their document and then by what was asked. -/
def Before (j k : Key) : Prop :=
  j.document.Before k.document ∨
    j.document = k.document ∧ List.Lex Input.Before j.input k.input

theorem compare_eq_lt_iff {j k : Key} : compare j k = .lt ↔ j.Before k := by
  show (compare j.document k.document).then (compare j.input k.input) = .lt ↔ _
  rw [Ordering.then_eq_lt, Document.compare_eq_lt_iff, Std.LawfulEqOrd.compare_eq_iff_eq,
    compare_list_eq_lt_iff Input.compare_eq_lt_iff]
  rfl

theorem not_before_self (k : Key) : ¬ k.Before k := by
  rw [← compare_eq_lt_iff, Std.ReflOrd.compare_self]
  nofun

theorem Before.trans {i j k : Key} (hij : i.Before j) (hjk : j.Before k) : i.Before k := by
  rw [← compare_eq_lt_iff] at hij hjk ⊢
  exact Std.TransCmp.lt_trans hij hjk

theorem before_or_eq_or_before (j k : Key) : j.Before k ∨ j = k ∨ k.Before j := by
  cases h : compare j k with
  | lt => exact .inl (compare_eq_lt_iff.mp h)
  | eq => exact .inr (.inl (Std.LawfulEqOrd.eq_of_compare h))
  | gt => exact .inr (.inr (compare_eq_lt_iff.mp (Std.OrientedCmp.lt_of_gt h)))

theorem isStrictTotalOrder_before : IsStrictTotalOrder Key Key.Before where
  irrefl := not_before_self
  trans _ _ _ := Before.trans
  trichotomous j k hjk hkj :=
    ((before_or_eq_or_before j k).resolve_left hjk).resolve_right hkj

end Key
end Cache
end ResourceSearch
