import ResourceSearch.Proofs.Cache.Adjust
import ResourceSearch.Proofs.Cache.Restored

/-!
What stores hold.  A store is the store of its own records (`Store.ofList_records`), so a snapshot
of two stores gives them back (`Snapshot.stores_ofStores`); and patching brings nothing into a store
that was not there, so stores that fit into a file go on fitting (`Stores.Storable.reconcile`).
-/

namespace ResourceSearch
namespace Cache

theorem insertRecord_eq_append {r : Record} {records : List Record}
    (h : ∀ t ∈ records, compare t.key r.key = .lt) : insertRecord r records = records ++ [r] := by
  induction records with
  | nil => rfl
  | cons t rest ih =>
    have hgt : compare r.key t.key = .gt := Std.OrientedCmp.gt_of_lt (h t List.mem_cons_self)
    have hrest := ih fun u hu => h u (List.mem_cons_of_mem t hu)
    rw [insertRecord, hgt]
    simp only [hrest, List.cons_append]

namespace Store

theorem foldl_insert_records {s : Store} {records : List Record}
    (h : Increasing (s.records ++ records)) :
    (records.foldl (fun s r => s.insert r.key r.entry) s).records = s.records ++ records := by
  induction records generalizing s with
  | nil => simp
  | cons r rest ih =>
    have hlt : ∀ t ∈ s.records, compare t.key r.key = .lt :=
      fun t ht => (List.pairwise_append.mp h).2.2 t ht r List.mem_cons_self
    have hinsert : (s.insert r.key r.entry).records = s.records ++ [r] :=
      insertRecord_eq_append hlt
    rw [List.foldl_cons, ih, hinsert, List.append_assoc, List.singleton_append]
    rw [hinsert, List.append_assoc, List.singleton_append]
    exact h

/-- A store is the store of its records. -/
theorem ofList_records (s : Store) : ofList s.records = s := by
  apply Store.ext
  have hinc : Increasing (empty.records ++ s.records) := s.increasing
  exact foldl_insert_records hinc

theorem mem_foldl_insert {s : Store} {records : List Record} {r : Record}
    (h : r ∈ (records.foldl (fun s r => s.insert r.key r.entry) s).records) :
    r ∈ s.records ∨ r ∈ records := by
  induction records generalizing s with
  | nil => exact .inl h
  | cons t rest ih =>
    rcases ih h with hr | hr
    · rcases key_of_mem_insertRecord hr with rfl | hr
      · exact .inr List.mem_cons_self
      · exact .inl hr
    · exact .inr (List.mem_cons_of_mem t hr)

theorem mem_of_mem_ofList {records : List Record} {r : Record} (h : r ∈ (ofList records).records) :
    r ∈ records := by
  rcases mem_foldl_insert h with hr | hr
  · cases hr
  · exact hr

/-- A property of answers that an adjustment keeps is a property of the adjusted store. -/
theorem forall_adjust {p : Entry → Prop} {s : Store} {key : Key} {f : Entry → Entry}
    (hf : ∀ e, p e → p (f e)) (h : ∀ r ∈ s.records, p r.entry) :
    ∀ r ∈ (s.adjust key f).records, p r.entry := by
  intro r hr
  obtain ⟨t, ht, rfl⟩ := List.mem_map.mp hr
  unfold Record.adjust
  split
  · exact hf t.entry (h t ht)
  · exact h t ht

end Store

/-! ## Stores that fit into a file -/

def Entry.resources : Entry → List Resource
  | .items xs => xs
  | .relatedItems groups => groups.flatMap RelatedItems.items
  | .relatedCount _ => []

/-- Every resource in two stores. -/
def Stores.resources (s : Stores) : List Resource :=
  (s.items.records ++ s.related.records).flatMap fun r => r.entry.resources

namespace Entry

variable {e : Entry}

theorem Storable.dropItem (h : e.Storable) (rule : MatchRule) (deleted : Resource) :
    (e.dropItem rule deleted).Storable := by
  cases e with
  | items xs => exact fun r hr => h r (List.mem_filter.mp hr).1
  | relatedItems groups => exact h
  | relatedCount groups => trivial

theorem Storable.dropRelated (h : e.Storable) (rule : MatchRule) (deleted : Resource) :
    (e.dropRelated rule deleted).Storable := by
  cases e with
  | items xs => exact h
  | relatedItems groups =>
    intro g hg r hr
    obtain ⟨old, hold, rfl⟩ := List.mem_map.mp hg
    unfold patchGroup at hr
    split at hr
    · exact h old hold r (List.mem_filter.mp hr).1
    · exact h old hold r hr
  | relatedCount groups => trivial

theorem Storable.takeOne (h : e.Storable) (kind : String) : (e.takeOne kind).Storable := by
  cases e with
  | items xs => exact h
  | relatedItems groups => exact h
  | relatedCount groups => trivial

end Entry

structure Stores.Storable (s : Stores) : Prop where
  items : ∀ r ∈ s.items.records, r.entry.Storable
  related : ∀ r ∈ s.related.records, r.entry.Storable

theorem Entry.storable_of_resources {e : Entry} (h : ∀ r ∈ e.resources, r.Storable 119) :
    e.Storable := by
  cases e with
  | items xs => exact fun r hr => (h r hr).mono (by decide)
  | relatedItems groups => exact fun g hg r hr => h r (List.mem_flatMap.mpr ⟨g, hg, hr⟩)
  | relatedCount groups => trivial

theorem Stores.storable_of_resources {s : Stores} (h : ∀ r ∈ s.resources, r.Storable 119) :
    s.Storable where
  items t ht := Entry.storable_of_resources fun r hr =>
    h r (List.mem_flatMap.mpr ⟨t, List.mem_append_left _ ht, hr⟩)
  related t ht := Entry.storable_of_resources fun r hr =>
    h r (List.mem_flatMap.mpr ⟨t, List.mem_append_right _ ht, hr⟩)

/-- Resources with no properties of their own fit into a file. -/
theorem Stores.storable_of_bare {s : Stores} (h : ∀ r ∈ s.resources, r.extra.members = []) :
    s.Storable :=
  storable_of_resources fun r hr => by constructor <;> simp [h r hr]

theorem Stores.Storable.reconcile {s : Stores} (h : s.Storable) (d : Deletion) :
    (Cache.reconcile d s).2.Storable := by
  cases horigin : d.origin with
  | results =>
    rw [reconcile_results horigin]
    exact ⟨Store.forall_adjust (fun e he => he.dropItem _ _) h.items, h.related⟩
  | related =>
    rw [reconcile_related horigin]
    exact ⟨h.items, Store.forall_adjust (fun e he => he.takeOne _)
      (Store.forall_adjust (fun e he => he.dropRelated _ _) h.related)⟩

namespace Snapshot

/-- The stores of a snapshot of two stores are those stores. -/
theorem stores_ofStores (s : Stores) : (ofStores s).stores = s := by
  simp only [stores, ofStores, Store.ofList_records]

theorem storable_ofStores {s : Stores} (h : s.Storable) : (ofStores s).Storable :=
  ⟨h.items, h.related⟩

/-- A snapshot of stores is read back from the bytes of its file. -/
theorem ofBytes_ofStores (path : String) {s : Stores} (h : s.Storable) :
    ofBytes path (ofStores s).bytes = .ok (ofStores s) := by
  rw [ofBytes_bytes path (storable_ofStores h)]
  rfl

end Snapshot
end Cache
end ResourceSearch
