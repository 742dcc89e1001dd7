import ResourceSearch.Cache.Reconcile

/-!
Patching as the adjustment of one answer.  `Store.adjust` changes the answer for a key and adds
none, and every step of patching is one adjustment by a function of the answer alone
(`removeFromItems_snd`, `removeFromRelatedItems_snd`, `decrementRelatedCount_snd`).  Facts about
patching are then facts about adjustments and about those three functions.
-/

namespace ResourceSearch
namespace Cache

/-- A record with its answer changed, if it is the record of a key. -/
def Record.adjust (key : Key) (f : Entry → Entry) (r : Record) : Record :=
  if r.key = key then { r with entry := f r.entry } else r

namespace Record

@[simp] theorem adjust_key (key : Key) (f : Entry → Entry) (r : Record) :
    (r.adjust key f).key = r.key := by
  unfold adjust
  split <;> rfl

theorem adjust_of_ne {key : Key} {r : Record} (h : r.key ≠ key) (f : Entry → Entry) :
    r.adjust key f = r := if_neg h

/-- Two adjustments of the same record can change places if their functions can. -/
theorem adjust_comm {j k : Key} {f g : Entry → Entry} (h : j = k → ∀ e, f (g e) = g (f e))
    (r : Record) : (r.adjust j f).adjust k g = (r.adjust k g).adjust j f := by
  by_cases hj : r.key = j
  · by_cases hk : r.key = k
    · have hfg := h (hj.symm.trans hk) r.entry
      simp [adjust, hj, ← hfg, hj.symm.trans hk]
    · rw [adjust_of_ne hk, adjust_of_ne (r := r.adjust j f) (by rwa [adjust_key])]
  · rw [adjust_of_ne hj, adjust_of_ne (r := r.adjust k g) (by rwa [adjust_key])]

end Record

theorem Key.ne_of_compare_lt {j k : Key} (h : compare j k = .lt) : j ≠ k := by
  intro heq
  rw [heq, Std.ReflOrd.compare_self] at h
  cases h

/-- Keys are strictly increasing, so a record is the only one with its key. -/
theorem eq_of_key_eq {records : List Record} (h : Increasing records) {r t : Record}
    (hr : r ∈ records) (ht : t ∈ records) (hkey : r.key = t.key) : r = t := by
  induction records with
  | nil => cases hr
  | cons a rest ih =>
    obtain ⟨ha, hrest⟩ := List.pairwise_cons.mp h
    rcases List.mem_cons.mp hr with rfl | hrest_r
    · rcases List.mem_cons.mp ht with rfl | hrest_t
      · rfl
      · exact absurd hkey (Key.ne_of_compare_lt (ha t hrest_t))
    · rcases List.mem_cons.mp ht with rfl | hrest_t
      · exact absurd hkey.symm (Key.ne_of_compare_lt (ha r hrest_r))
      · exact ih hrest hrest_r hrest_t

theorem increasing_map_adjust {records : List Record} (key : Key) (f : Entry → Entry)
    (h : Increasing records) : Increasing (records.map (Record.adjust key f)) := by
  refine List.pairwise_map.mpr (h.imp fun hab => ?_)
  rwa [Record.adjust_key, Record.adjust_key]

/-- Putting a record over the one with its key changes that record and no other. -/
theorem insertRecord_eq_map {records : List Record} {key : Key} {old : Entry}
    (hinc : Increasing records) (h : ⟨key, old⟩ ∈ records) (entry : Entry) :
    insertRecord ⟨key, entry⟩ records = records.map (Record.adjust key fun _ => entry) := by
  induction records with
  | nil => cases h
  | cons r rest ih =>
    obtain ⟨hr, hrest⟩ := List.pairwise_cons.mp hinc
    rw [insertRecord, List.map_cons]
    rcases List.mem_cons.mp h with rfl | h
    · -- the keys that follow are greater, so nothing else is adjusted
      have hne : ∀ t ∈ rest, t.adjust key (fun _ => entry) = t := by
        intro t ht
        exact Record.adjust_of_ne (Key.ne_of_compare_lt (hr t ht)).symm _
      rw [Std.ReflOrd.compare_self, List.map_congr_left hne, List.map_id']
      simp [Record.adjust]
    · have hlt : compare r.key key = .lt := hr _ h
      have hne : r.key ≠ key := Key.ne_of_compare_lt hlt
      have hgt : compare key r.key = .gt := Std.OrientedCmp.gt_of_lt hlt
      simp only [hgt]
      rw [ih hrest h, Record.adjust_of_ne hne]

namespace Store

/-- Changes the answer for a key, if there is one. -/
def adjust (s : Store) (key : Key) (f : Entry → Entry) : Store :=
  ⟨s.records.map (Record.adjust key f), increasing_map_adjust key f s.increasing⟩

@[simp] theorem adjust_records (s : Store) (key : Key) (f : Entry → Entry) :
    (s.adjust key f).records = s.records.map (Record.adjust key f) := rfl

theorem mem_of_get?_eq_some {s : Store} {key : Key} {entry : Entry} (h : s.get? key = some entry) :
    ⟨key, entry⟩ ∈ s.records := by
  obtain ⟨r, hr, rfl⟩ := Option.map_eq_some_iff.mp h
  have hkey : r.key = key := by simpa using List.find?_some hr
  rw [← hkey]
  exact List.mem_of_find?_eq_some hr

theorem key_ne_of_get?_eq_none {s : Store} {key : Key} (h : s.get? key = none) {r : Record}
    (hr : r ∈ s.records) : r.key ≠ key := by
  have hnone := List.find?_eq_none.mp (Option.map_eq_none_iff.mp h) r hr
  simpa using hnone

theorem adjust_of_get?_eq_none {s : Store} {key : Key} (h : s.get? key = none)
    (f : Entry → Entry) : s.adjust key f = s := by
  apply Store.ext
  have hid : ∀ r ∈ s.records, r.adjust key f = r :=
    fun r hr => Record.adjust_of_ne (key_ne_of_get?_eq_none h hr) f
  rw [adjust_records, List.map_congr_left hid, List.map_id']

/-- Adjusting one answer leaves those for the other keys alone. -/
theorem get?_adjust (s : Store) (key other : Key) (f : Entry → Entry) :
    (s.adjust key f).get? other =
      if other = key then (s.get? other).map f else s.get? other := by
  have hfind : (s.adjust key f).records.find? (·.key = other) =
      (s.records.find? (·.key = other)).map (Record.adjust key f) := by
    rw [adjust_records, List.find?_map]
    refine congrArg (Option.map _) (congrArg (List.find? · s.records) (funext fun r => ?_))
    simp
  rw [get?, hfind, Option.map_map, get?]
  cases hr : s.records.find? (·.key = other) with
  | none => split <;> rfl
  | some r =>
    have hkey : r.key = other := by simpa using List.find?_some hr
    by_cases h : other = key
    · rw [if_pos h]
      simp [Record.adjust, hkey, h]
    · rw [if_neg h]
      simp [Record.adjust, hkey, h]

/-- Setting an answer that is there adjusts it. -/
theorem insert_eq_adjust {s : Store} {key : Key} {old entry : Entry} {f : Entry → Entry}
    (h : s.get? key = some old) (hf : f old = entry) : s.insert key entry = s.adjust key f := by
  have hmem := mem_of_get?_eq_some h
  apply Store.ext
  refine (insertRecord_eq_map s.increasing hmem entry).trans (List.map_congr_left ?_)
  intro r hr
  by_cases hkey : r.key = key
  · have hr : r = ⟨key, old⟩ := eq_of_key_eq s.increasing hr hmem hkey
    rw [hr]
    simp [Record.adjust, hf]
  · rw [Record.adjust_of_ne hkey, Record.adjust_of_ne hkey]

/-- Two adjustments can change places if they are of different keys or their functions can. -/
theorem adjust_comm {j k : Key} {f g : Entry → Entry} (h : j = k → ∀ e, f (g e) = g (f e))
    (s : Store) : (s.adjust j f).adjust k g = (s.adjust k g).adjust j f := by
  apply Store.ext
  simp only [adjust_records, List.map_map]
  exact List.map_congr_left fun r _ => Record.adjust_comm h r

end Store

/-! ## The steps of patching -/

namespace Entry

/-- The resources of an answer without the deleted one. -/
def dropItem (rule : MatchRule) (deleted : Resource) : Entry → Entry
  | .items xs => .items (remaining rule deleted xs)
  | e => e

/-- The related resources of an answer without the deleted one. -/
def dropRelated (rule : MatchRule) (deleted : Resource) : Entry → Entry
  | .relatedItems groups => .relatedItems (groups.map (patchGroup rule deleted))
  | e => e

/-- The counts of an answer with one less of a kind. -/
def takeOne (kind : String) : Entry → Entry
  | .relatedCount groups => .relatedCount (groups.filterMap (decrement kind))
  | e => e

end Entry

/-- An answer of a kind that the adjustment leaves alone is not adjusted. -/
theorem Store.adjust_of_fixed {s : Store} {key : Key} {e : Entry} {f : Entry → Entry}
    (h : s.get? key = some e) (hf : f e = e) : s.adjust key f = s := by
  have hmem := mem_of_get?_eq_some h
  apply Store.ext
  have hid : ∀ r ∈ s.records, r.adjust key f = r := by
    intro r hr
    by_cases hkey : r.key = key
    · rw [eq_of_key_eq s.increasing hr hmem hkey]
      simp [Record.adjust, hf]
    · exact Record.adjust_of_ne hkey f
  rw [adjust_records, List.map_congr_left hid, List.map_id']

theorem removeFromItems_snd (rule : MatchRule) (query : Query) (deleted : Resource) (s : Store) :
    (removeFromItems rule query deleted s).2 =
      s.adjust (.items query) (Entry.dropItem rule deleted) := by
  dsimp only [removeFromItems]
  cases h : s.get? (.items query) with
  | none => exact (Store.adjust_of_get?_eq_none h _).symm
  | some e =>
    cases e with
    | items xs => exact Store.insert_eq_adjust h rfl
    | relatedItems groups => exact (Store.adjust_of_fixed h rfl).symm
    | relatedCount groups => exact (Store.adjust_of_fixed h rfl).symm

theorem removeFromRelatedItems_snd (rule : MatchRule) (query : Query) (deleted : Resource)
    (s : Store) : (removeFromRelatedItems rule query deleted s).2 =
      s.adjust (.relatedItems query deleted.kind) (Entry.dropRelated rule deleted) := by
  dsimp only [removeFromRelatedItems]
  cases h : s.get? (.relatedItems query deleted.kind) with
  | none => exact (Store.adjust_of_get?_eq_none h _).symm
  | some e =>
    cases e with
    | items xs => exact (Store.adjust_of_fixed h rfl).symm
    | relatedItems groups => exact Store.insert_eq_adjust h rfl
    | relatedCount groups => exact (Store.adjust_of_fixed h rfl).symm

theorem decrementRelatedCount_snd (query : Query) (kind : String) (s : Store) :
    (decrementRelatedCount query kind s).2 =
      s.adjust (.relatedCount query) (Entry.takeOne kind) := by
  dsimp only [decrementRelatedCount]
  cases h : s.get? (.relatedCount query) with
  | none => exact (Store.adjust_of_get?_eq_none h _).symm
  | some e =>
    cases e with
    | items xs => exact (Store.adjust_of_fixed h rfl).symm
    | relatedItems groups => exact (Store.adjust_of_fixed h rfl).symm
    | relatedCount groups => exact Store.insert_eq_adjust h rfl

/-- A delete from the results adjusts one answer. -/
theorem reconcile_results {d : Deletion} (h : d.origin = .results) (s : Stores) :
    (reconcile d s).2 =
      { s with
        items := s.items.adjust (.items (Query.compile d.text))
          (Entry.dropItem d.rule d.resource) } := by
  unfold reconcile
  rw [h, ← removeFromItems_snd]

/-- A delete from a related table adjusts two answers, one after the other. -/
theorem reconcile_related {d : Deletion} (h : d.origin = .related) (s : Stores) :
    (reconcile d s).2 =
      { s with
        related :=
          (s.related.adjust (.relatedItems (Query.compile d.text) d.resource.kind)
            (Entry.dropRelated d.rule d.resource)).adjust (.relatedCount (Query.compile d.text))
            (Entry.takeOne d.resource.kind) } := by
  unfold reconcile
  rw [h, ← removeFromRelatedItems_snd, ← decrementRelatedCount_snd]

end Cache
end ResourceSearch
