import ResourceSearch.Proofs.Cache.Contents
import ResourceSearch.Proofs.Cache.Finding
import ResourceSearch.Proofs.Cache.KeyOrder

/-!
Stores by what was written into them.  A store is known by its look-ups alone
(`Store.ext_get?`), and a store that was written and filled in any order finds under each key the
last answer it was given (`Store.get?_built`).  So the order of the writes cannot be seen in the
store or in its file (`canonical_of_last_entries`).
-/

namespace ResourceSearch
namespace Cache

/-- One way to change a store. -/
inductive Change where
  | write (key : Key) (entry : Entry)
  /-- A new store of some records takes the place of the old one. -/
  | fill (records : List Record)

/-- The records that were given to a store, oldest first. -/
def Change.onto (given : List Record) : Change → List Record
  | .write key entry => given ++ [⟨key, entry⟩]
  | .fill records => records

def given (changes : List Change) : List Record := changes.foldl Change.onto []

/-- The entry of the last of some records with a key. -/
def latest? (records : List Record) (key : Key) : Option Entry :=
  (records.reverse.find? (·.key = key)).map (·.entry)

theorem latest?_cons (r : Record) (records : List Record) (key : Key) :
    latest? (r :: records) key =
      (latest? records key).or (if key = r.key then some r.entry else none) := by
  rw [latest?, List.reverse_cons, List.find?_append, Option.map_or, find?_key_cons, latest?]
  congr 1
  by_cases h : r.key = key
  · rw [if_pos h, if_pos h.symm, Option.map_some]
  · rw [if_neg h, if_neg (Ne.symm h), List.find?_nil, Option.map_none]

namespace Store

/-! ## Look-ups tell stores apart -/

theorem get?_eq_some_iff {s : Store} {key : Key} {entry : Entry} :
    s.get? key = some entry ↔ ⟨key, entry⟩ ∈ s.records := by
  refine ⟨mem_of_get?_eq_some, fun h => ?_⟩
  cases hget : s.get? key with
  | none => exact absurd rfl (key_ne_of_get?_eq_none hget h)
  | some other =>
    cases eq_of_key_eq s.increasing (mem_of_get?_eq_some hget) h rfl
    rfl

theorem nodup_records (s : Store) : s.records.Nodup :=
  s.increasing.imp fun hlt heq => Key.ne_of_compare_lt hlt (congrArg Record.key heq)

theorem ext_get? {a b : Store} (h : ∀ key, a.get? key = b.get? key) : a = b := by
  have hmem : ∀ r, r ∈ a.records ↔ r ∈ b.records := by
    intro r
    show ⟨r.key, r.entry⟩ ∈ a.records ↔ ⟨r.key, r.entry⟩ ∈ b.records
    rw [← get?_eq_some_iff, h, get?_eq_some_iff]
  refine Store.ext (List.Perm.eq_of_pairwise (fun r t _ _ hrt htr => ?_) a.increasing b.increasing
    ((List.perm_ext_iff_of_nodup a.nodup_records b.nodup_records).mpr hmem))
  -- no two keys are before each other
  rw [Std.OrientedCmp.gt_of_lt hrt] at htr
  cases htr

/-! ## What a store was given -/

theorem get?_foldl_insert (s : Store) (records : List Record) (key : Key) :
    (records.foldl (fun s r => s.insert r.key r.entry) s).get? key =
      (latest? records key).or (s.get? key) := by
  induction records generalizing s with
  | nil => rfl
  | cons r rest ih =>
    rw [List.foldl_cons, ih, latest?_cons, Option.or_assoc, get?_insert]
    congr 1
    split <;> rfl

theorem get?_ofList (records : List Record) (key : Key) :
    (ofList records).get? key = latest? records key := by
  rw [ofList, get?_foldl_insert, get?_empty, Option.or_none]

def change (s : Store) : Change → Store
  | .write key entry => s.insert key entry
  | .fill records => ofList records

/-- A new store after some changes. -/
def built (changes : List Change) : Store := changes.foldl change .empty

theorem change_ofList (records : List Record) (c : Change) :
    (ofList records).change c = ofList (c.onto records) := by
  cases c with
  | write key entry => rw [change, Change.onto, ofList, ofList, List.foldl_concat]
  | fill => rfl

/-- Each change does to the store what it does to the records that were given. -/
theorem built_eq_ofList (changes : List Change) : built changes = ofList (given changes) := by
  suffices ∀ records, changes.foldl change (ofList records) =
      ofList (changes.foldl Change.onto records) from this []
  intro records
  induction changes generalizing records with
  | nil => rfl
  | cons c rest ih => rw [List.foldl_cons, List.foldl_cons, change_ofList, ih]

theorem get?_built (changes : List Change) (key : Key) :
    (built changes).get? key = latest? (given changes) key := by
  rw [built_eq_ofList, get?_ofList]

/-- Stores that were given the same last entries are the same. -/
theorem built_eq_iff {cs ds : List Change} :
    built cs = built ds ↔ ∀ key, latest? (given cs) key = latest? (given ds) key := by
  refine ⟨fun h key => ?_, fun h => ext_get? fun key => ?_⟩
  · rw [← get?_built, ← get?_built, h]
  · rw [get?_built, get?_built, h]

theorem pairwise_before (s : Store) : s.records.Pairwise fun r t => r.key.Before t.key :=
  s.increasing.imp Key.compare_eq_lt_iff.mp

end Store

/-- Keys are totally ordered.  A store lists its records in that order, whatever was written and
filled into it and in whichever order, and is known by the last entry that each key was given. -/
theorem canonical_of_last_entries :
    (∀ j k : Key, (compare j k = .lt ↔ j.Before k) ∧ (compare j k = .eq ↔ j = k) ∧
        (compare j k = .gt ↔ k.Before j)) ∧
      IsStrictTotalOrder Key Key.Before ∧
      (∀ cs : List Change,
        ((Store.built cs).records.Pairwise fun r t => r.key.Before t.key) ∧
          (∀ key, (Store.built cs).get? key = latest? (given cs) key) ∧
          Store.ofList (Store.built cs).records = Store.built cs) ∧
      (∀ cs ds : List Change, Store.built cs = Store.built ds ↔
        ∀ key, latest? (given cs) key = latest? (given ds) key) ∧
      ∀ items items' related related' : List Change,
        (∀ key, latest? (given items) key = latest? (given items') key) →
          (∀ key, latest? (given related) key = latest? (given related') key) →
            (Snapshot.ofStores { items := .built items, related := .built related }).bytes =
              (Snapshot.ofStores { items := .built items', related := .built related' }).bytes := by
  refine ⟨fun j k => ⟨Key.compare_eq_lt_iff, Std.LawfulEqOrd.compare_eq_iff_eq, ?_⟩,
    Key.isStrictTotalOrder_before, fun cs => ⟨Store.pairwise_before _, Store.get?_built cs,
      Store.ofList_records _⟩, fun _ _ => Store.built_eq_iff, ?_⟩
  · rw [Std.OrientedCmp.gt_iff_lt, Key.compare_eq_lt_iff]
  · intro items items' related related' hitems hrelated
    rw [Store.built_eq_iff.mpr hitems, Store.built_eq_iff.mpr hrelated]

/-- Answers that were written one by one, with one of them overwritten, and answers that were
filled in the other order. -/
theorem canonical_overwritten :
    let pod : Resource := { name := "a", kind := "Pod" }
    let web := Key.items (Query.compile "web")
    let pods := Key.items (Query.compile "kind:Pod")
    let written : List Change :=
      [.write web (.items []), .write pods (.items []), .write web (.items [pod])]
    let filled : List Change :=
      [.write pods (.relatedCount []), .fill [⟨pods, .items []⟩, ⟨web, .items [pod]⟩]]
    (∀ key, latest? (given written) key = latest? (given filled) key) ∧
      (Snapshot.ofStores { items := .built written, related := .built filled }).bytes =
        (Snapshot.ofStores { items := .built filled, related := .built written }).bytes := by
  intro pod web pods written filled
  have hsame : ∀ key, latest? (given written) key = latest? (given filled) key := by
    intro key
    show latest? [⟨web, _⟩, ⟨pods, _⟩, ⟨web, _⟩] key = latest? [⟨pods, _⟩, ⟨web, _⟩] key
    simp only [latest?_cons]
    by_cases hweb : key = web
    · rw [if_pos hweb]
      rfl
    · simp only [if_neg hweb, Option.or_none]
  obtain ⟨-, -, -, -, hbytes⟩ := canonical_of_last_entries
  exact ⟨hsame, hbytes written filled filled written hsame fun key => (hsame key).symm⟩

end Cache
end ResourceSearch
