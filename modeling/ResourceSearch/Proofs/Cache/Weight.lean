import ResourceSearch.Proofs.Cache.Adjust

/-!
What stores weigh.  Patching leaves stores as they are or makes them lighter (`reconcile_shrinks`),
so stores that were changed never come back, and a comparison that takes the two zeros for one
number tells changed stores from unchanged ones (`same_reconcile`).
-/

namespace ResourceSearch
namespace Cache

/-! ## Sums over lists -/

section Sums

variable {α : Type}

/-- What some things weigh together. -/
def total (w : α → Nat) : List α → Nat
  | [] => 0
  | x :: xs => w x + total w xs

variable {w : α → Nat}

theorem filterMap_shrinks {f : α → Option α}
    (h : ∀ x, f x = some x ∨ ((f x).map w).getD 0 < w x) (xs : List α) :
    xs.filterMap f = xs ∨ total w (xs.filterMap f) < total w xs := by
  induction xs with
  | nil => exact .inl rfl
  | cons x xs ih =>
    rw [total]
    rcases h x with hx | hx
    · rw [List.filterMap_cons_some hx, total]
      rcases ih with hxs | hxs
      · exact .inl (by rw [hxs])
      · exact .inr (by omega)
    · have hle : total w (xs.filterMap f) ≤ total w xs := by
        rcases ih with hxs | hxs
        · exact Nat.le_of_eq (by rw [hxs])
        · omega
      right
      cases hfx : f x with
      | none =>
        rw [hfx] at hx
        rw [List.filterMap_cons_none hfx]
        show _ < w x + _
        have hpos : 0 < w x := hx
        omega
      | some y =>
        rw [hfx] at hx
        rw [List.filterMap_cons_some hfx, total]
        have hlt : w y < w x := hx
        omega

theorem map_shrinks {f : α → α} (h : ∀ x, f x = x ∨ w (f x) < w x) (xs : List α) :
    xs.map f = xs ∨ total w (xs.map f) < total w xs := by
  have hsome : ∀ x, some (f x) = some x ∨ ((some (f x)).map w).getD 0 < w x := by
    intro x
    rcases h x with hx | hx
    · exact .inl (congrArg some hx)
    · exact .inr hx
  have hmap : xs.filterMap (fun x => some (f x)) = xs.map f :=
    congrFun (List.filterMap_eq_map (f := f)) xs
  have hxs := filterMap_shrinks hsome xs
  rwa [hmap] at hxs

theorem sum_eq_of_same {same : α → α → Bool} (h : ∀ x y, same x y = true → w x = w y)
    {xs ys : List α} (hlength : xs.length = ys.length)
    (hall : ((xs.zip ys).all fun (x, y) => same x y) = true) :
    total w xs = total w ys := by
  induction xs generalizing ys with
  | nil =>
    cases ys with
    | nil => rfl
    | cons y ys => cases hlength
  | cons x xs ih =>
    cases ys with
    | nil => cases hlength
    | cons y ys =>
      rw [List.zip_cons_cons, List.all_cons, Bool.and_eq_true] at hall
      simp only [total]
      rw [h x y hall.1, ih (Nat.succ.inj hlength) hall.2]

theorem all_zip_self {same : α → α → Bool} (h : ∀ x, same x x = true) (xs : List α) :
    ((xs.zip xs).all fun (x, y) => same x y) = true := by
  induction xs with
  | nil => rfl
  | cons x xs ih =>
    rw [List.zip_cons_cons, List.all_cons, ih, Bool.and_true]
    exact h x

end Sums

/-! ## Answers -/

def Entry.weight : Entry → Nat
  | .items xs => xs.length
  | .relatedItems groups => total (fun g => g.items.length) groups
  | .relatedCount groups => total (fun g => g.count.toNat + 1) groups

theorem remaining_shrinks (rule : MatchRule) (deleted : Resource) (xs : List Resource) :
    remaining rule deleted xs = xs ∨ (remaining rule deleted xs).length < xs.length := by
  have hle := List.length_filter_le (fun item => !rule.holds item deleted) xs
  rcases Nat.lt_or_eq_of_le hle with hlt | heq
  · exact .inr hlt
  · exact .inl (List.filter_eq_self.mpr (List.length_filter_eq_length_iff.mp heq))

namespace Entry

theorem dropItem_shrinks (rule : MatchRule) (deleted : Resource) (e : Entry) :
    e.dropItem rule deleted = e ∨ (e.dropItem rule deleted).weight < e.weight := by
  cases e with
  | items xs =>
    rcases remaining_shrinks rule deleted xs with h | h
    · exact .inl (congrArg Entry.items h)
    · exact .inr h
  | relatedItems groups => exact .inl rfl
  | relatedCount groups => exact .inl rfl

theorem dropRelated_shrinks (rule : MatchRule) (deleted : Resource) (e : Entry) :
    e.dropRelated rule deleted = e ∨ (e.dropRelated rule deleted).weight < e.weight := by
  cases e with
  | items xs => exact .inl rfl
  | relatedItems groups =>
    have hgroup : ∀ g : RelatedItems, patchGroup rule deleted g = g ∨
        (patchGroup rule deleted g).items.length < g.items.length := by
      intro g
      unfold patchGroup
      split
      · rcases remaining_shrinks rule deleted g.items with h | h
        · exact .inl (by rw [h])
        · exact .inr h
      · exact .inl rfl
    rcases map_shrinks (w := fun g => g.items.length) hgroup groups with h | h
    · exact .inl (congrArg Entry.relatedItems h)
    · exact .inr h
  | relatedCount groups => exact .inl rfl

theorem takeOne_shrinks (kind : String) (e : Entry) :
    e.takeOne kind = e ∨ (e.takeOne kind).weight < e.weight := by
  cases e with
  | items xs => exact .inl rfl
  | relatedItems groups => exact .inl rfl
  | relatedCount groups =>
    have hgroup : ∀ g : RelatedCount, decrement kind g = some g ∨
        ((decrement kind g).map fun g => g.count.toNat + 1).getD 0 < g.count.toNat + 1 := by
      intro g
      unfold decrement
      split
      · exact .inl rfl
      · split
        · rename_i hcount
          right
          have hone : 1 < g.count.toNat := by simpa [UInt64.lt_iff_toNat_lt] using hcount
          have hsub : (g.count - 1).toNat = g.count.toNat - 1 := by
            rw [UInt64.toNat_sub_of_le _ _ (UInt64.le_of_lt hcount)]
            rfl
          show (g.count - 1).toNat + 1 < g.count.toNat + 1
          omega
        · exact .inr (Nat.succ_pos _)
    rcases filterMap_shrinks hgroup groups with h | h
    · exact .inl (congrArg Entry.relatedCount h)
    · exact .inr h

theorem weight_of_same {a b : Entry} (h : a.same b = true) : a.weight = b.weight := by
  cases a with
  | items xs =>
    cases b with
    | items ys =>
      simp only [same, Bool.and_eq_true, decide_eq_true_eq] at h
      exact h.1
    | relatedItems groups => cases h
    | relatedCount groups => cases h
  | relatedItems groups =>
    cases b with
    | items ys => cases h
    | relatedItems others =>
      have hlength : ∀ g g' : RelatedItems, g.same g' = true →
          g.items.length = g'.items.length := by
        intro g g' hsame
        simp only [RelatedItems.same, Bool.and_eq_true, decide_eq_true_eq] at hsame
        exact hsame.1.2
      simp only [same, Bool.and_eq_true, decide_eq_true_eq] at h
      exact sum_eq_of_same hlength h.1 h.2
    | relatedCount others => cases h
  | relatedCount groups =>
    cases b with
    | items ys => cases h
    | relatedItems others => cases h
    | relatedCount others =>
      have hgroups : groups = others := by simpa [same] using h
      rw [hgroups]

theorem same_refl (e : Entry) : e.same e = true := by
  have hgroup : ∀ g : RelatedItems, g.same g = true := by
    intro g
    simp [RelatedItems.same, all_zip_self Resource.same_refl]
  cases e with
  | items xs => simp [same, all_zip_self Resource.same_refl]
  | relatedItems groups => simp [same, all_zip_self hgroup]
  | relatedCount groups => simp [same]

end Entry

/-! ## Stores -/

namespace Store

def weight (s : Store) : Nat := total (fun r => r.entry.weight) s.records

theorem adjust_shrinks {f : Entry → Entry} (hf : ∀ e, f e = e ∨ (f e).weight < e.weight)
    (s : Store) (key : Key) : s.adjust key f = s ∨ (s.adjust key f).weight < s.weight := by
  have hrecord : ∀ r : Record, r.adjust key f = r ∨
      (r.adjust key f).entry.weight < r.entry.weight := by
    intro r
    unfold Record.adjust
    split
    · rcases hf r.entry with h | h
      · exact .inl (by rw [h])
      · exact .inr h
    · exact .inl rfl
  rcases map_shrinks (w := fun r => r.entry.weight) hrecord s.records with h | h
  · exact .inl (Store.ext h)
  · exact .inr h

theorem weight_of_same {a b : Store} (h : a.same b = true) : a.weight = b.weight := by
  have hrecord : ∀ r t : Record, r.same t = true → r.entry.weight = t.entry.weight := by
    intro r t hsame
    simp only [Record.same, Bool.and_eq_true, decide_eq_true_eq] at hsame
    exact Entry.weight_of_same hsame.2
  simp only [same, Bool.and_eq_true, decide_eq_true_eq] at h
  exact sum_eq_of_same hrecord h.1 h.2

theorem same_refl (s : Store) : s.same s = true := by
  have hrecord : ∀ r : Record, r.same r = true := by
    intro r
    simp [Record.same, Entry.same_refl]
  simp [same, all_zip_self hrecord]

end Store

namespace Stores

def weight (s : Stores) : Nat := s.items.weight + s.related.weight

theorem weight_of_same {a b : Stores} (h : a.same b = true) : a.weight = b.weight := by
  rw [same, Bool.and_eq_true] at h
  rw [weight, weight, Store.weight_of_same h.1, Store.weight_of_same h.2]

theorem same_refl (s : Stores) : s.same s = true := by
  simp [same, Store.same_refl]

end Stores

/-- Patching stores leaves them as they are or makes them lighter. -/
theorem reconcile_shrinks (d : Deletion) (s : Stores) :
    (reconcile d s).2 = s ∨ (reconcile d s).2.weight < s.weight := by
  cases horigin : d.origin with
  | results =>
    rw [reconcile_results horigin]
    rcases Store.adjust_shrinks (Entry.dropItem_shrinks d.rule d.resource) s.items
      (.items (Query.compile d.text)) with h | h
    · exact .inl (by rw [h])
    · exact .inr (Nat.add_lt_add_right h _)
  | related =>
    rw [reconcile_related horigin]
    have hitems := Store.adjust_shrinks (Entry.dropRelated_shrinks d.rule d.resource) s.related
      (.relatedItems (Query.compile d.text) d.resource.kind)
    have hcount := Store.adjust_shrinks (Entry.takeOne_shrinks d.resource.kind)
      (s.related.adjust (.relatedItems (Query.compile d.text) d.resource.kind)
        (Entry.dropRelated d.rule d.resource)) (.relatedCount (Query.compile d.text))
    show _ ∨ s.items.weight + _ < s.items.weight + s.related.weight
    rcases hitems with hitems | hitems
    · rw [hitems] at hcount ⊢
      rcases hcount with hcount | hcount
      · exact .inl (by rw [hcount])
      · exact .inr (Nat.add_lt_add_left hcount _)
    · right
      rcases hcount with hcount | hcount
      · rw [hcount]
        exact Nat.add_lt_add_left hitems _
      · exact Nat.add_lt_add_left (Nat.lt_trans hcount hitems) _

/-- Patched stores compare equal to what they were only if nothing was changed. -/
theorem same_reconcile (d : Deletion) (s : Stores) :
    (reconcile d s).2.same s = true ↔ (reconcile d s).2 = s := by
  constructor
  · intro hsame
    rcases reconcile_shrinks d s with h | h
    · exact h
    · have hweight := Stores.weight_of_same hsame
      omega
  · intro h
    rw [h]
    exact Stores.same_refl s

end Cache
end ResourceSearch
