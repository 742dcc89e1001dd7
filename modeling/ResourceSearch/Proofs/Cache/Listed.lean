import ResourceSearch.Proofs.Cache.Weight

/-!
How much stores list.  A report never tells of more resources or groups that went than the stores
listed (`le_listed_of_patched`).
-/

namespace ResourceSearch
namespace Cache

theorem le_total_of_mem {α : Type} {w : α → Nat} {xs : List α} {x : α} (h : x ∈ xs) :
    w x ≤ total w xs := by
  induction xs with
  | nil => cases h
  | cons y ys ih =>
    rw [total]
    rcases List.mem_cons.mp h with rfl | h
    · exact Nat.le_add_right _ _
    · exact Nat.le_trans (ih h) (Nat.le_add_left _ _)

/-- The resources that an answer lists, or its counts. -/
def Entry.listed : Entry → Nat
  | .items xs => xs.length
  | .relatedItems groups => groupedCount groups
  | .relatedCount groups => groups.length

def Store.listed (s : Store) : Nat := total (fun r => r.entry.listed) s.records

def Stores.listed (s : Stores) : Nat := s.items.listed + s.related.listed

theorem Store.listed_le_of_get? {s : Store} {key : Key} {e : Entry} (h : s.get? key = some e) :
    e.listed ≤ s.listed :=
  le_total_of_mem (w := fun r : Record => r.entry.listed) (Store.mem_of_get?_eq_some h)

/-- The steps that a report tells of. -/
def Report.steps (r : Report) : List Outcome :=
  [r.items, r.relatedItems, r.relatedCount].filterMap id

variable {rule : MatchRule} {query : Query} {deleted : Resource} {kind : String} {s : Store}
  {n : Nat}

theorem removeFromItems_patched (h : (removeFromItems rule query deleted s).1 = .patched n) :
    n ≤ s.listed := by
  dsimp only [removeFromItems] at h
  cases hget : s.get? (.items query) with
  | none => rw [hget] at h; cases h
  | some e =>
    have hle := Store.listed_le_of_get? hget
    rw [hget] at h
    cases e with
    | items xs =>
      cases h
      exact Nat.le_trans (Nat.sub_le _ _) hle
    | relatedItems groups => cases h
    | relatedCount groups => cases h

theorem removeFromRelatedItems_patched
    (h : (removeFromRelatedItems rule query deleted s).1 = .patched n) : n ≤ s.listed := by
  dsimp only [removeFromRelatedItems] at h
  cases hget : s.get? (.relatedItems query deleted.kind) with
  | none => rw [hget] at h; cases h
  | some e =>
    have hle := Store.listed_le_of_get? hget
    rw [hget] at h
    cases e with
    | items xs => cases h
    | relatedItems groups =>
      cases h
      exact Nat.le_trans (Nat.sub_le _ _) hle
    | relatedCount groups => cases h

theorem decrementRelatedCount_patched (h : (decrementRelatedCount query kind s).1 = .patched n) :
    ∃ groups, s.get? (.relatedCount query) = some (.relatedCount groups) ∧ n ≤ groups.length := by
  dsimp only [decrementRelatedCount] at h
  cases hget : s.get? (.relatedCount query) with
  | none => rw [hget] at h; cases h
  | some e =>
    rw [hget] at h
    cases e with
    | items xs => cases h
    | relatedItems groups => cases h
    | relatedCount groups =>
      cases h
      exact ⟨groups, rfl, Nat.sub_le _ _⟩

/-- No step takes away more than the stores list. -/
theorem le_listed_of_patched {d : Deletion} {s : Stores}
    (h : .patched n ∈ (reconcile d s).1.steps) : n ≤ s.listed := by
  unfold reconcile at h
  cases horigin : d.origin with
  | results =>
    rw [horigin] at h
    have hpatched : (removeFromItems d.rule (Query.compile d.text) d.resource s.items).1 =
        .patched n := by simpa [Report.steps, eq_comm] using h
    have hle := removeFromItems_patched hpatched
    exact Nat.le_trans hle (Nat.le_add_right _ _)
  | related =>
    rw [horigin] at h
    have hpatched : (removeFromRelatedItems d.rule (Query.compile d.text) d.resource s.related).1 =
        .patched n ∨ (decrementRelatedCount (Query.compile d.text) d.resource.kind
          (removeFromRelatedItems d.rule (Query.compile d.text) d.resource s.related).2).1 =
        .patched n := by simpa [Report.steps, eq_comm] using h
    have hle : n ≤ s.related.listed := by
      rcases hpatched with hitems | hcount
      · exact removeFromRelatedItems_patched hitems
      · obtain ⟨groups, hget, hn⟩ := decrementRelatedCount_patched hcount
        -- the counts stand under another key than the resources that were dropped just before
        have hkeys : Key.relatedCount (Query.compile d.text) ≠
            Key.relatedItems (Query.compile d.text) d.resource.kind := by
          rintro ⟨⟩
        rw [removeFromRelatedItems_snd, Store.get?_adjust, if_neg hkeys] at hget
        exact Nat.le_trans hn (Store.listed_le_of_get? hget)
    exact Nat.le_trans hle (Nat.le_add_left _ _)

end Cache
end ResourceSearch
