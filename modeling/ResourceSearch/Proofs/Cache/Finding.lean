import ResourceSearch.Proofs.Cache.Edits
import ResourceSearch.Proofs.Outcomes
import ResourceSearch.Proofs.Query.Tokens
import ResourceSearch.Service

/-!
Finding a cached answer again.  A store has the answer that was put in last for a key
(`Store.get?_insert`), keys are as different as what is asked with them, and texts ask the same if
they have the same words and the same finished filters.  So a delete finds the fetched results of a
search under exactly the texts of that search (`fetched_found_iff`).
-/

namespace ResourceSearch
namespace Cache

theorem find?_key_cons (r : Record) (records : List Record) (key : Key) :
    (r :: records).find? (·.key = key) =
      if r.key = key then some r else records.find? (·.key = key) := by
  by_cases h : r.key = key
  · rw [if_pos h, List.find?_cons_of_pos (by simpa using h)]
  · rw [if_neg h, List.find?_cons_of_neg (by simpa using h)]

theorem find?_insertRecord (r : Record) (records : List Record) (key : Key) :
    (insertRecord r records).find? (·.key = key) =
      if r.key = key then some r else records.find? (·.key = key) := by
  induction records with
  | nil => exact find?_key_cons r [] key
  | cons s rest ih =>
    rw [insertRecord]
    cases hcompare : compare r.key s.key with
    | lt => exact find?_key_cons r (s :: rest) key
    | eq =>
      have hkeys : r.key = s.key := Std.LawfulEqOrd.eq_of_compare hcompare
      show (r :: rest).find? _ = _
      rw [find?_key_cons, find?_key_cons, ← hkeys]
      split <;> rfl
    | gt =>
      -- the record goes behind one with a smaller key, so no key is that of both
      have hkeys : s.key ≠ r.key := Key.ne_of_compare_lt (Std.OrientedCmp.lt_of_gt hcompare)
      show (s :: insertRecord r rest).find? _ = _
      rw [find?_key_cons, find?_key_cons, ih]
      by_cases h : s.key = key
      · rw [if_pos h, if_pos h, if_neg fun heq => hkeys (h.trans heq.symm)]
      · rw [if_neg h, if_neg h]

namespace Store

theorem get?_empty (key : Key) : empty.get? key = none := rfl

/-- A store has the answer that was put in last for a key, and keeps the other answers. -/
theorem get?_insert (s : Store) (key other : Key) (entry : Entry) :
    (s.insert key entry).get? other = if other = key then some entry else s.get? other := by
  rw [get?, insert, find?_insertRecord]
  by_cases h : other = key
  · rw [if_pos h, if_pos h.symm, Option.map_some]
  · rw [if_neg h, if_neg (Ne.symm h), get?]

end Store

/-! ## Keys -/

namespace Key

theorem items_inj {q r : Query} : items q = items r ↔ q = r := by
  simp [items]

theorem relatedItems_inj {q r : Query} {j k : String} :
    relatedItems q j = relatedItems r k ↔ q = r ∧ j = k := by
  simp [relatedItems]

theorem relatedCount_inj {q r : Query} : relatedCount q = relatedCount r ↔ q = r := by
  simp [relatedCount]

theorem items_ne_relatedItems (q r : Query) (kind : String) : items q ≠ relatedItems r kind := by
  rintro ⟨⟩

theorem items_ne_relatedCount (q r : Query) : items q ≠ relatedCount r := by
  rintro ⟨⟩

end Key

/-! ## Fetched answers -/

/-- An answer is of the kind that its key asks for. -/
theorem document_of_ask {service : SearchService Id} {key : Key} {entry : Entry}
    (h : (service.ask key).run = .ok entry) : entry.document = key.document := by
  unfold SearchService.ask at h
  split at h <;> rename_i hdocument
  · obtain ⟨answer, -, rfl⟩ := exists_of_map_ok h
    exact hdocument.symm
  · obtain ⟨answer, -, rfl⟩ := exists_of_map_ok h
    exact hdocument.symm
  · obtain ⟨answer, -, rfl⟩ := exists_of_map_ok h
    exact hdocument.symm

/-- A search either fails and leaves the store alone, or its answer is kept. -/
theorem fetchResults_run (service : SearchService Id) (key : Key) (s : Store) :
    (service.fetchResults key s).run =
      match (service.ask key).run with
      | .error message => (.error (Alert.ofServiceError message), s)
      | .ok entry => (.ok entry, s.insert key entry) := by
  rw [SearchService.fetchResults, Id.run_bind]
  cases (service.ask key).run with
  | error message => rfl
  | ok entry => rfl

theorem fetchResults_ok {service : SearchService Id} {key : Key} {s store : Store} {entry : Entry}
    (h : (service.fetchResults key s).run = (.ok entry, store)) :
    (service.ask key).run = .ok entry ∧ store = s.insert key entry := by
  rw [fetchResults_run] at h
  split at h
  · cases h
  · rename_i hanswer
    cases h
    exact ⟨hanswer, rfl⟩

/-- Two texts are the same search if and only if they have the same words and the same finished
filters; keys are the same only if they are of the same kind and the same search, and of the same
kind of related resources.  So a delete from the results finds what was fetched under a text if it
is started under a text of the same search, and otherwise misses it and changes nothing. -/
theorem fetched_found_iff :
    (∀ s t : String, Query.compile s = Query.compile t ↔ Query.SameParts s t) ∧
      (∀ q r, Key.items q = Key.items r ↔ q = r) ∧
      (∀ q r j k, Key.relatedItems q j = Key.relatedItems r k ↔ q = r ∧ j = k) ∧
      (∀ q r, Key.relatedCount q = Key.relatedCount r ↔ q = r) ∧
      (∀ q r k, Key.items q ≠ Key.relatedItems r k ∧ Key.items q ≠ Key.relatedCount r ∧
        Key.relatedCount q ≠ Key.relatedItems r k) ∧
      ∀ (service : SearchService Id) (s t : String) (entry : Entry) (store related : Store),
        (service.fetchResults (.items (Query.compile s)) .empty).run = (.ok entry, store) →
        ∀ (rule : MatchRule) (resource : Resource),
          let d : Deletion := { rule, origin := .results, text := t, resource }
          let result := reconcile d { items := store, related }
          (Query.SameParts s t → ∃ n, result.1 = { items := some (.patched n) }) ∧
            (¬ Query.SameParts s t →
              result = ({ items := some .miss }, { items := store, related })) := by
  refine ⟨Query.compile_eq_iff, fun _ _ => Key.items_inj, fun _ _ _ _ => Key.relatedItems_inj,
    fun _ _ => Key.relatedCount_inj, fun q r k => ⟨Key.items_ne_relatedItems q r k,
      Key.items_ne_relatedCount q r, Key.relatedCount_ne_relatedItems q r k⟩, ?_⟩
  intro service s t entry store related hfetch rule resource d result
  obtain ⟨hanswer, rfl⟩ := fetchResults_ok hfetch
  have hdocument := document_of_ask hanswer
  let fetched : Stores := { items := Store.empty.insert (.items (Query.compile s)) entry, related }
  have hget := Store.get?_insert .empty (.items (Query.compile s)) (.items (Query.compile t)) entry
  obtain ⟨step, hreport, hedits⟩ := reconcile_results_edits (d := d) rfl fetched
  refine ⟨fun hsame => ?_, fun hother => ?_⟩
  · rw [if_pos (congrArg Key.items ((Query.compile_eq_iff s t).mpr hsame).symm)] at hget
    obtain ⟨n, rfl⟩ := hedits.exists_patched hget hdocument
    exact ⟨n, hreport⟩
  · have hkeys : Key.items (Query.compile t) ≠ Key.items (Query.compile s) := fun heq =>
      hother ((Query.compile_eq_iff s t).mp (Key.items_inj.mp heq).symm)
    rw [if_neg hkeys, Store.get?_empty] at hget
    refine Prod.ext ?_ ?_
    · rw [← hedits.miss_iff.mpr hget]
      exact hreport
    · show (reconcile d fetched).2 = fetched
      rw [reconcile_results rfl, Store.adjust_of_get?_eq_none hget]

/-- A delete that is started while a filter is still being typed finds the fetched results. -/
theorem fetched_found_while_typing :
    let pod : Resource := { name := "a", kind := "Pod" }
    let service : SearchService Id := {
      schema := .ok []
      complete := fun _ _ => .ok []
      items := fun _ => .ok [pod]
      relatedItems := fun _ => .ok []
      relatedCount := fun _ => .ok [] }
    let d : Deletion := { origin := .results, text := "web kind:Pod name:=", resource := pod }
    ∃ entry store n,
      (service.fetchResults (.items (Query.compile "kind:Pod  web")) .empty).run =
        (.ok entry, store) ∧
      (reconcile d { items := store }).1 = { items := some (.patched n) } := by
  intro pod service d
  have hsame : Query.SameParts "kind:Pod  web" d.text :=
    (Query.compile_eq_iff _ _).mp (by decide +kernel)
  obtain ⟨-, -, -, -, -, hfound⟩ := fetched_found_iff
  obtain ⟨n, hn⟩ := (hfound service "kind:Pod  web" d.text _ _ .empty rfl d.rule pod).1 hsame
  exact ⟨_, _, n, rfl, hn⟩

end Cache
end ResourceSearch
