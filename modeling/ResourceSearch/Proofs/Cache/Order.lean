import ResourceSearch.Proofs.Cache.Adjust

/-!
The order of deletes does not matter to the stores.  Each of the three functions that patch an
answer commutes with itself, for any two deletes, and with the other two, which change answers of
other kinds; two deletes then commute on whole stores, and a list of them may be permuted
(`reconcileAll_eq_of_perm`).
-/

namespace ResourceSearch
namespace Cache

/-- The stores after some deletes, one after the other. -/
def reconcileAll (deletions : List Deletion) (s : Stores) : Stores :=
  deletions.foldl (fun s d => (reconcile d s).2) s

@[simp] theorem reconcileAll_nil (s : Stores) : reconcileAll [] s = s := rfl

@[simp] theorem reconcileAll_cons (d : Deletion) (ds : List Deletion) (s : Stores) :
    reconcileAll (d :: ds) s = reconcileAll ds (reconcile d s).2 := rfl

theorem reconcileAll_append (ds es : List Deletion) (s : Stores) :
    reconcileAll (ds ++ es) s = reconcileAll es (reconcileAll ds s) := List.foldl_append

/-! ## Two deletes from one answer -/

theorem remaining_comm (r₁ r₂ : MatchRule) (d₁ d₂ : Resource) (items : List Resource) :
    remaining r₁ d₁ (remaining r₂ d₂ items) = remaining r₂ d₂ (remaining r₁ d₁ items) := by
  simp only [remaining, List.filter_filter]
  exact List.filter_congr fun item _ => Bool.and_comm _ _

@[simp] theorem patchGroup_kind (rule : MatchRule) (deleted : Resource) (g : RelatedItems) :
    (patchGroup rule deleted g).kind = g.kind := by
  unfold patchGroup
  split <;> rfl

/-- A group of another kind stays as it is. -/
theorem patchGroup_of_ne {rule : MatchRule} {deleted : Resource} {g : RelatedItems}
    (h : g.kind ≠ deleted.kind) : patchGroup rule deleted g = g := if_neg h

theorem patchGroup_of_eq {rule : MatchRule} {deleted : Resource} {g : RelatedItems}
    (h : g.kind = deleted.kind) :
    patchGroup rule deleted g = { g with items := remaining rule deleted g.items } := if_pos h

theorem patchGroup_comm (r₁ r₂ : MatchRule) (d₁ d₂ : Resource) (g : RelatedItems) :
    patchGroup r₁ d₁ (patchGroup r₂ d₂ g) = patchGroup r₂ d₂ (patchGroup r₁ d₁ g) := by
  by_cases h₁ : g.kind = d₁.kind
  · by_cases h₂ : g.kind = d₂.kind
    · rw [patchGroup_of_eq h₁, patchGroup_of_eq h₂, patchGroup_of_eq (by exact h₁),
        patchGroup_of_eq (by exact h₂), remaining_comm]
    · have hleft : (patchGroup r₁ d₁ g).kind ≠ d₂.kind := by rwa [patchGroup_kind]
      rw [patchGroup_of_ne h₂, patchGroup_of_ne hleft]
  · have hleft : (patchGroup r₂ d₂ g).kind ≠ d₁.kind := by rwa [patchGroup_kind]
    rw [patchGroup_of_ne h₁, patchGroup_of_ne hleft]

/-- A count of another kind stays as it is. -/
theorem decrement_of_ne {kind : String} {g : RelatedCount} (h : g.kind ≠ kind) :
    decrement kind g = some g := if_pos h

theorem kind_of_decrement {kind : String} {g left : RelatedCount}
    (h : decrement kind g = some left) : left.kind = g.kind := by
  unfold decrement at h
  split at h
  · rw [Option.some.inj h]
  · split at h
    · rw [← Option.some.inj h]
    · cases h

/-- A count is of one kind, so of two different decrements at most one changes it. -/
theorem decrement_comm (j k : String) (g : RelatedCount) :
    (decrement j g).bind (decrement k) = (decrement k g).bind (decrement j) := by
  by_cases hjk : j = k
  · rw [hjk]
  · by_cases hj : g.kind = j
    · have hk : g.kind ≠ k := fun h => hjk (hj.symm.trans h)
      rw [decrement_of_ne hk, Option.bind_some]
      cases h : decrement j g with
      | none => rfl
      | some left => exact decrement_of_ne (by rwa [kind_of_decrement h])
    · rw [decrement_of_ne hj, Option.bind_some]
      cases h : decrement k g with
      | none => rfl
      | some left => exact (decrement_of_ne (by rwa [kind_of_decrement h])).symm

namespace Entry

theorem dropItem_comm (r₁ r₂ : MatchRule) (d₁ d₂ : Resource) (e : Entry) :
    dropItem r₁ d₁ (dropItem r₂ d₂ e) = dropItem r₂ d₂ (dropItem r₁ d₁ e) := by
  cases e with
  | items xs => simp only [dropItem, remaining_comm r₁ r₂ d₁ d₂]
  | relatedItems groups => rfl
  | relatedCount groups => rfl

theorem dropRelated_comm (r₁ r₂ : MatchRule) (d₁ d₂ : Resource) (e : Entry) :
    dropRelated r₁ d₁ (dropRelated r₂ d₂ e) = dropRelated r₂ d₂ (dropRelated r₁ d₁ e) := by
  cases e with
  | items xs => rfl
  | relatedItems groups =>
    simp only [dropRelated, List.map_map]
    exact congrArg _ (List.map_congr_left fun g _ => patchGroup_comm r₁ r₂ d₁ d₂ g)
  | relatedCount groups => rfl

theorem takeOne_comm (j k : String) (e : Entry) :
    takeOne j (takeOne k e) = takeOne k (takeOne j e) := by
  cases e with
  | items xs => rfl
  | relatedItems groups => rfl
  | relatedCount groups =>
    simp only [takeOne, List.filterMap_filterMap]
    exact congrArg (fun f => relatedCount (groups.filterMap f)) (funext (decrement_comm k j))

theorem dropRelated_takeOne_comm (rule : MatchRule) (deleted : Resource) (kind : String)
    (e : Entry) :
    dropRelated rule deleted (takeOne kind e) = takeOne kind (dropRelated rule deleted e) := by
  cases e <;> rfl

end Entry

/-! ## Two deletes from the stores -/

theorem reconcile_comm (d₁ d₂ : Deletion) (s : Stores) :
    (reconcile d₂ (reconcile d₁ s).2).2 = (reconcile d₁ (reconcile d₂ s).2).2 := by
  cases h₁ : d₁.origin <;> cases h₂ : d₂.origin
  · simp only [reconcile_results h₁, reconcile_results h₂]
    rw [Store.adjust_comm fun _ e => Entry.dropItem_comm _ _ _ _ e]
  · simp only [reconcile_results h₁, reconcile_related h₂]
  · simp only [reconcile_related h₁, reconcile_results h₂]
  · simp only [reconcile_related h₁, reconcile_related h₂]
    -- the count step of the first delete moves past both steps of the second, then the items step
    rw [Store.adjust_comm (f := Entry.takeOne d₁.resource.kind)
        fun _ e => (Entry.dropRelated_takeOne_comm _ _ _ e).symm,
      Store.adjust_comm (f := Entry.takeOne d₁.resource.kind) fun _ e => Entry.takeOne_comm _ _ e,
      Store.adjust_comm (f := Entry.dropRelated d₁.rule d₁.resource)
        fun _ e => Entry.dropRelated_comm _ _ _ _ e,
      Store.adjust_comm (f := Entry.dropRelated d₁.rule d₁.resource)
        fun _ e => Entry.dropRelated_takeOne_comm _ _ _ e]

/-- Deletes may be reflected in any order: the stores come out the same. -/
theorem reconcileAll_eq_of_perm {ds es : List Deletion} (h : ds.Perm es) (s : Stores) :
    reconcileAll ds s = reconcileAll es s :=
  h.foldl_eq' (fun d₁ _ d₂ _ s => reconcile_comm d₁ d₂ s) s

/-- Two deletes under different rules that use up one count, in both orders. -/
theorem reconcileAll_swap_last_two :
    let pod : Resource := { name := "a", kind := "Pod" }
    let first : Deletion := { origin := .related, text := "", resource := pod }
    let second : Deletion := { first with rule := .composite, resource := { pod with uid := "1" } }
    let s : Stores :=
      { related := Store.empty.insert (.relatedCount {}) (.relatedCount [⟨"Pod", 2⟩]) }
    [first, second].Perm [second, first] ∧
      reconcileAll [first, second] s = reconcileAll [second, first] s ∧
      (reconcileAll [first, second] s).related.get? (.relatedCount {}) =
        some (.relatedCount []) := by
  intro pod first second s
  have hperm : [first, second].Perm [second, first] := List.Perm.swap second first []
  exact ⟨hperm, reconcileAll_eq_of_perm hperm s, rfl⟩

end Cache
end ResourceSearch
