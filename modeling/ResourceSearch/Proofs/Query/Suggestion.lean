import Mathlib.Data.List.Nodup
import ResourceSearch.Proofs.Query.Completion
import ResourceSearch.Query.Suggestion

/-!
What the list under the search bar offers.  Without repeated and selected values it offers every
other value at its first place (`list_eq_header_cons`).  The selected values are those that the
service does not see: they stand in the filters that the request leaves out of the search
(`selected_eq`).
-/

namespace ResourceSearch
namespace Suggestion

/-- The filters of typed text that its request leaves out of the search, or all of them if it asks
for property names. -/
def filtersLeftOut (typed : String) : List Filter :=
  match Query.completionRequest typed with
  | .values _ query => (Query.compile typed).filters.filter (· ∉ query.filters)
  | .schema => (Query.compile typed).filters

/-- The values of those filters.  A filter that is still empty has none. -/
def valuesLeftOut (typed : String) : List String :=
  ((filtersLeftOut typed).flatMap (·.values)).filter (· ≠ "")

/-- The values outside another list, each of them only where no earlier place holds it. -/
def firstPlaces (outside values : List String) : List String :=
  (values.zipIdx.filter fun (v, i) => v ∉ outside ∧ v ∉ values.take i).map (·.1)

/-! ## Selected values -/

theorem filter_not_mem_withoutProperty (q : Query) (property : String) :
    q.filters.filter (· ∉ (q.withoutProperty property).filters) =
      q.filters.filter (·.property = property) := by
  refine List.filter_congr fun f hf => decide_eq_decide.mpr ?_
  rw [Query.withoutProperty, List.mem_filter, and_iff_right hf, decide_eq_true_eq, not_not]

theorem selected_eq (typed : String) : selected typed = valuesLeftOut typed := by
  rw [selected, valuesLeftOut, filtersLeftOut]
  by_cases hopen : Query.EndsOpen typed.toList
  · rw [Query.completionRequest_of_endsOpen hopen, Query.detect,
      if_pos ((Query.asksForValue_iff _).mpr hopen)]
    dsimp only
    rw [filter_not_mem_withoutProperty, Query.valuesFor]
  · rw [Query.completionRequest_of_not_endsOpen hopen, Query.detect,
      if_neg (mt (Query.asksForValue_iff _).mp hopen), Query.allValues]

/-! ## Values at their first place -/

variable {seen values : List String}

theorem unseen_not_mem : ∀ v ∈ unseen seen values, v ∉ seen := by
  induction values generalizing seen with
  | nil =>
    intro v hv
    cases hv
  | cons first rest ih =>
    rw [unseen]
    split
    · exact ih
    next hfirst =>
      intro v hv hseen
      rcases List.mem_cons.mp hv with rfl | hv
      · exact hfirst hseen
      · exact ih v hv (List.mem_cons_of_mem _ hseen)

theorem nodup_unseen (seen values : List String) : (unseen seen values).Nodup := by
  induction values generalizing seen with
  | nil => exact List.nodup_nil
  | cons first rest ih =>
    rw [unseen]
    split
    · exact ih seen
    · refine List.nodup_cons.mpr ⟨fun hmem => ?_, ih (first :: seen)⟩
      exact unseen_not_mem first hmem List.mem_cons_self

theorem unseen_eq_self (hnodup : values.Nodup) (hseen : ∀ v ∈ values, v ∉ seen) :
    unseen seen values = values := by
  induction values generalizing seen with
  | nil => rfl
  | cons first rest ih =>
    obtain ⟨hfirst, hrest⟩ := List.nodup_cons.mp hnodup
    have hnot : ∀ v ∈ rest, v ∉ first :: seen := by
      intro v hv hmem
      rcases List.mem_cons.mp hmem with rfl | hmem
      · exact hfirst hv
      · exact hseen v (List.mem_cons_of_mem _ hv) hmem
    rw [unseen, if_neg (hseen first List.mem_cons_self), ih hrest hnot]

theorem unseen_unseen (seen values : List String) :
    unseen seen (unseen seen values) = unseen seen values :=
  unseen_eq_self (nodup_unseen seen values) unseen_not_mem

theorem unseen_eq_firstPlaces (seen values : List String) :
    unseen seen values = firstPlaces seen values := by
  induction values generalizing seen with
  | nil => rfl
  | cons first rest ih =>
    rw [firstPlaces, List.zipIdx_cons, Nat.zero_add]
    have hshift : rest.zipIdx 1 = rest.zipIdx.map fun (v, i) => (v, i + 1) := by
      rw [List.zipIdx_succ]
    -- behind the first value, an entry is left out if it is that value or was left out before
    have hrest : ∀ outside : List String, (∀ v, v ∈ outside ↔ v = first ∨ v ∈ seen) →
        ((rest.zipIdx 1).filter fun (v, i) => v ∉ seen ∧ v ∉ (first :: rest).take i).map (·.1) =
          firstPlaces outside rest := by
      intro outside houtside
      rw [hshift, List.filter_map, List.map_map, firstPlaces]
      refine congrArg _ (List.filter_congr fun (v, i) _ => decide_eq_decide.mpr ?_)
      simp only [List.take_succ_cons, List.mem_cons, houtside, not_or]
      exact and_left_comm.trans and_assoc.symm
    rw [unseen]
    split
    next hfirst =>
      have hout : ∀ v, v ∈ seen ↔ v = first ∨ v ∈ seen := fun v =>
        (or_iff_right_of_imp fun heq => heq ▸ hfirst).symm
      rw [List.filter_cons_of_neg (by simp [hfirst]), hrest seen hout, ih]
    next hfirst =>
      rw [List.filter_cons_of_pos (by simp [hfirst]), List.map_cons,
        hrest (first :: seen) fun v => List.mem_cons, ih]

example : firstPlaces ["pod"] ["job", "pod", "node", "job", "node"] = ["job", "node"] := by decide

/-! ## The list -/

theorem item_id_inj {kind : SuggestionKind} {v w : String} :
    (item kind v).id = (item kind w).id ↔ v = w :=
  String.append_right_inj "id-"

theorem item_key_inj {kind : SuggestionKind} {v w : String} :
    (item kind v).key = (item kind w).key ↔ v = w :=
  String.append_right_inj "key-"

/-- The names under the header of a list of suggestions. -/
structure Offers (values : List String) (kind : SuggestionKind) (typed : String)
    (options : SuggestionOptions) (names : List String) : Prop where
  everything : options.dedupe = false ∨ kind = .filter → names = values
  firsts : options.dedupe = true → kind = .value →
    names = firstPlaces (valuesLeftOut typed) values
  ids : options.dedupe = true → kind = .value → (names.map fun v => (item kind v).id).Nodup
  keys : options.dedupe = true → kind = .value → (names.map fun v => (item kind v).key).Nodup
  again : list names kind typed options = list values kind typed options

theorem offers_offered (values : List String) (kind : SuggestionKind) (typed : String)
    (options : SuggestionOptions) :
    Offers values kind typed options (offered values kind typed options) := by
  by_cases hdedupe : options.dedupe = true ∧ kind = .value
  · have hoffered : ∀ vs, offered vs kind typed options = unseen (selected typed) vs :=
      fun vs => if_pos hdedupe
    have hnodup := nodup_unseen (selected typed) values
    refine ⟨?_, fun _ _ => ?_, fun _ _ => ?_, fun _ _ => ?_, ?_⟩
    · rintro (hoff | hfilter)
      · rw [hdedupe.1] at hoff
        cases hoff
      · rw [hdedupe.2] at hfilter
        cases hfilter
    · rw [hoffered, unseen_eq_firstPlaces, selected_eq]
    · rw [hoffered]
      exact hnodup.map (fun _ _ => item_id_inj.mp)
    · rw [hoffered]
      exact hnodup.map (fun _ _ => item_key_inj.mp)
    · rw [list, list, hoffered values, hoffered, unseen_unseen]
  · have hoffered : offered values kind typed options = values := if_neg hdedupe
    rw [hoffered]
    exact ⟨fun _ => rfl, fun h hkind => absurd ⟨h, hkind⟩ hdedupe,
      fun h hkind => absurd ⟨h, hkind⟩ hdedupe, fun h hkind => absurd ⟨h, hkind⟩ hdedupe, rfl⟩

/-- A list of suggestions is a header that cannot be chosen and then entries that can.  On request
its names are the values that are not selected, each at its first place, and otherwise all values.
The id of an entry is that of the header for one value only. -/
theorem list_eq_header_cons (values : List String) (kind : SuggestionKind) (typed : String)
    (options : SuggestionOptions) :
    ∃ names, list values kind typed options = header kind :: names.map (item kind) ∧
      (header kind).disabled = true ∧
      (∀ v ∈ names, (item kind v).disabled = false ∧ (item kind v).name = v ∧
        ((item kind v).id = (header kind).id ↔ v = "suggestions-label")) ∧
      Offers values kind typed options names := by
  refine ⟨_, rfl, rfl, fun v _ => ⟨rfl, rfl, ?_⟩, offers_offered values kind typed options⟩
  show (item kind v).id = (item kind "suggestions-label").id ↔ v = "suggestions-label"
  exact item_id_inj

end Suggestion
end ResourceSearch
