import Mathlib.Data.List.Forall2
import ResourceSearch.Proofs.Cache.Order

/-!
What a delete does to the stores, and what it leaves alone.  A step of patching edits the answer for
its key, if there is one of its kind, and reports how much went (`Edits`); it neither adds nor takes
away keys and does not touch the other answers (`Store.KeepsOthers`).  The two steps of a delete
from a related table edit different keys, so each sees what was there before the delete
(`reconcile_edits`).
-/

namespace ResourceSearch
namespace Cache

/-- What a step of patching makes of the answer for its key, which should be of some kind.  `change`
relates the answer before and after, and the number of things that went. -/
inductive Edits (document : Document) (change : Entry → Entry → Nat → Prop) :
    Option Entry → Outcome → Option Entry → Prop
  | miss : Edits document change none .miss none
  | mismatch {e : Entry} (hkind : e.document ≠ document) :
    Edits document change (some e) .mismatch (some e)
  | patched {old new : Entry} {n : Nat} (hkind : old.document = document)
    (hchange : change old new n) : Edits document change (some old) (.patched n) (some new)

namespace Edits

variable {document : Document} {change : Entry → Entry → Nat → Prop} {before after : Option Entry}
  {o : Outcome}

theorem miss_iff (h : Edits document change before o after) : o = .miss ↔ before = none := by
  cases h <;> simp

theorem mismatch_iff (h : Edits document change before o after) :
    o = .mismatch ↔ ∃ e, before = some e ∧ e.document ≠ document := by
  cases h with
  | miss => simp
  | mismatch hkind => simpa using hkind
  | patched hkind hchange => simpa using hkind

theorem unchanged (h : Edits document change before o after) (ho : ∀ n, o ≠ .patched n) :
    after = before := by
  cases h with
  | miss => rfl
  | mismatch hkind => rfl
  | patched hkind hchange => exact absurd rfl (ho _)

theorem exists_patched {e : Entry} (h : Edits document change before o after)
    (hbefore : before = some e) (hkind : e.document = document) : ∃ n, o = .patched n := by
  cases h with
  | miss => cases hbefore
  | mismatch hother =>
    cases hbefore
    exact absurd hkind hother
  | patched _ hchange => exact ⟨_, rfl⟩

end Edits

/-- What a step of patching reports that is taken once more. -/
def Outcome.repeated : Outcome → Outcome
  | .patched _ => .patched 0
  | o => o

/-- A step that makes no difference the second time reports that nothing went. -/
theorem Edits.repeated {document : Document} {change : Entry → Entry → Nat → Prop}
    {before after : Option Entry} {o again : Outcome}
    (hkeeps : ∀ old new n, change old new n → new.document = document)
    (hzero : ∀ e n, change e e n → n = 0) (h : Edits document change before o after)
    (hagain : Edits document change after again after) : again = o.repeated := by
  cases h with
  | miss => exact hagain.miss_iff.mpr rfl
  | mismatch hkind => exact hagain.mismatch_iff.mpr ⟨_, rfl, hkind⟩
  | patched hkind hchange =>
    cases hagain with
    | mismatch hother => exact absurd (hkeeps _ _ _ hchange) hother
    | patched _ hsame => exact congrArg Outcome.patched (hzero _ _ hsame)

/-! ## The three edits -/

/-- The items that are not recognised stay, in their order. -/
def DropsItems (rule : MatchRule) (deleted : Resource) (old new : Entry) (n : Nat) : Prop :=
  ∃ xs left, old = .items xs ∧ new = .items left ∧
    left = xs.filter (fun x => !rule.holds x deleted) ∧ xs.length = left.length + n

/-- Items go from a group of the deleted resource's kind, and from no other. -/
structure GroupLeft (rule : MatchRule) (deleted : Resource) (g left : RelatedItems) : Prop where
  kind : left.kind = g.kind
  same_kind : g.kind = deleted.kind → left.items = g.items.filter fun x => !rule.holds x deleted
  other_kind : g.kind ≠ deleted.kind → left.items = g.items

/-- All groups stay, in their order, those without items as well. -/
def DropsRelated (rule : MatchRule) (deleted : Resource) (old new : Entry) (n : Nat) : Prop :=
  ∃ groups left, old = .relatedItems groups ∧ new = .relatedItems left ∧
    List.Forall₂ (GroupLeft rule deleted) groups left ∧ groupedCount groups = groupedCount left + n

/-- What stays of a count: all of it if it is of another kind, else a count of one less, or nothing
if it was not more than one. -/
inductive CountLeft (kind : String) (g : RelatedCount) : List RelatedCount → Prop
  | other (h : g.kind ≠ kind) : CountLeft kind g [g]
  | less {count : UInt64} (h : g.kind = kind) (hmore : 1 < g.count.toNat)
    (hcount : count.toNat + 1 = g.count.toNat) : CountLeft kind g [⟨kind, count⟩]
  | gone (h : g.kind = kind) (hone : g.count.toNat ≤ 1) : CountLeft kind g []

/-- The counts that stay keep their order. -/
def TakesOne (kind : String) (old new : Entry) (n : Nat) : Prop :=
  ∃ groups left, old = .relatedCount groups ∧ new = .relatedCount left.flatten ∧
    List.Forall₂ (CountLeft kind) groups left ∧ groups.length = left.flatten.length + n

variable {rule : MatchRule} {deleted : Resource} {kind : String}

theorem dropsItems_remaining (xs : List Resource) :
    DropsItems rule deleted (.items xs) (.items (remaining rule deleted xs))
      (xs.length - (remaining rule deleted xs).length) := by
  have hle : (remaining rule deleted xs).length ≤ xs.length := List.length_filter_le _ _
  exact ⟨xs, _, rfl, rfl, rfl, by omega⟩

theorem groupLeft_patchGroup (g : RelatedItems) :
    GroupLeft rule deleted g (patchGroup rule deleted g) where
  kind := patchGroup_kind rule deleted g
  same_kind h := by
    rw [patchGroup_of_eq h]
    rfl
  other_kind h := by rw [patchGroup_of_ne h]

theorem GroupLeft.length_le {g left : RelatedItems} (h : GroupLeft rule deleted g left) :
    left.items.length ≤ g.items.length := by
  by_cases hkind : g.kind = deleted.kind
  · rw [h.same_kind hkind]
    exact List.length_filter_le _ _
  · exact Nat.le_of_eq (congrArg List.length (h.other_kind hkind))

theorem groupedCount_le {groups left : List RelatedItems}
    (h : List.Forall₂ (GroupLeft rule deleted) groups left) :
    groupedCount left ≤ groupedCount groups := by
  induction h with
  | nil => exact Nat.le_refl _
  | cons hgroup _ ih => exact Nat.add_le_add hgroup.length_le ih

theorem dropsRelated_map (groups : List RelatedItems) :
    DropsRelated rule deleted (.relatedItems groups)
      (.relatedItems (groups.map (patchGroup rule deleted)))
      (groupedCount groups - groupedCount (groups.map (patchGroup rule deleted))) := by
  have hgroups : List.Forall₂ (GroupLeft rule deleted) groups
      (groups.map (patchGroup rule deleted)) := by
    rw [List.forall₂_map_right_iff, List.forall₂_same]
    exact fun g _ => groupLeft_patchGroup g
  have hle := groupedCount_le hgroups
  exact ⟨groups, _, rfl, rfl, hgroups, by omega⟩

theorem countLeft_decrement (g : RelatedCount) : CountLeft kind g (decrement kind g).toList := by
  unfold decrement
  split
  · rename_i hkind
    exact .other hkind
  · rename_i hkind
    obtain rfl := not_not.mp hkind
    split
    · rename_i hmore
      have hlt : 1 < g.count.toNat := UInt64.lt_iff_toNat_lt.mp hmore
      refine .less rfl hlt ?_
      rw [UInt64.toNat_sub_of_le _ _ (UInt64.le_of_lt hmore)]
      exact Nat.sub_add_cancel (Nat.le_of_lt hlt)
    · rename_i hmore
      refine .gone rfl (Nat.le_of_not_lt fun hlt => hmore (UInt64.lt_iff_toNat_lt.mpr hlt))

theorem takesOne_filterMap (groups : List RelatedCount) :
    TakesOne kind (.relatedCount groups) (.relatedCount (groups.filterMap (decrement kind)))
      (groups.length - (groups.filterMap (decrement kind)).length) := by
  have hflatten : (groups.map fun g => (decrement kind g).toList).flatten =
      groups.filterMap (decrement kind) := by
    rw [List.filterMap_eq_flatMap_toList, List.flatMap_def]
  have hle : (groups.filterMap (decrement kind)).length ≤ groups.length :=
    List.length_filterMap_le _ _
  refine ⟨groups, _, rfl, congrArg Entry.relatedCount hflatten.symm, ?_, ?_⟩
  · rw [List.forall₂_map_right_iff, List.forall₂_same]
    exact fun g _ => countLeft_decrement g
  · rw [hflatten]
    omega

theorem DropsItems.document {old new : Entry} {n : Nat} (h : DropsItems rule deleted old new n) :
    new.document = .items := by
  obtain ⟨xs, left, -, rfl, -⟩ := h
  rfl

theorem DropsItems.eq_zero {e : Entry} {n : Nat} (h : DropsItems rule deleted e e n) : n = 0 := by
  obtain ⟨xs, left, rfl, hleft, -, hlength⟩ := h
  cases hleft
  omega

theorem DropsRelated.document {old new : Entry} {n : Nat}
    (h : DropsRelated rule deleted old new n) : new.document = .relatedItems := by
  obtain ⟨groups, left, -, rfl, -⟩ := h
  rfl

theorem DropsRelated.eq_zero {e : Entry} {n : Nat} (h : DropsRelated rule deleted e e n) :
    n = 0 := by
  obtain ⟨groups, left, rfl, hleft, -, hcount⟩ := h
  cases hleft
  omega

/-! ## The steps of patching -/

theorem removeFromItems_edits (query : Query) (s : Store) :
    Edits .items (DropsItems rule deleted) (s.get? (.items query))
      (removeFromItems rule query deleted s).1
      ((removeFromItems rule query deleted s).2.get? (.items query)) := by
  rw [removeFromItems_snd, Store.get?_adjust, if_pos rfl]
  dsimp only [removeFromItems]
  cases s.get? (.items query) with
  | none => exact .miss
  | some e =>
    cases e with
    | items xs => exact .patched rfl (dropsItems_remaining xs)
    | relatedItems groups => exact .mismatch (by rintro ⟨⟩)
    | relatedCount groups => exact .mismatch (by rintro ⟨⟩)

theorem removeFromRelatedItems_edits (query : Query) (s : Store) :
    Edits .relatedItems (DropsRelated rule deleted) (s.get? (.relatedItems query deleted.kind))
      (removeFromRelatedItems rule query deleted s).1
      ((removeFromRelatedItems rule query deleted s).2.get?
        (.relatedItems query deleted.kind)) := by
  rw [removeFromRelatedItems_snd, Store.get?_adjust, if_pos rfl]
  dsimp only [removeFromRelatedItems]
  cases s.get? (.relatedItems query deleted.kind) with
  | none => exact .miss
  | some e =>
    cases e with
    | items xs => exact .mismatch (by rintro ⟨⟩)
    | relatedItems groups => exact .patched rfl (dropsRelated_map groups)
    | relatedCount groups => exact .mismatch (by rintro ⟨⟩)

theorem decrementRelatedCount_edits (query : Query) (s : Store) :
    Edits .relatedCount (TakesOne kind) (s.get? (.relatedCount query))
      (decrementRelatedCount query kind s).1
      ((decrementRelatedCount query kind s).2.get? (.relatedCount query)) := by
  rw [decrementRelatedCount_snd, Store.get?_adjust, if_pos rfl]
  dsimp only [decrementRelatedCount]
  cases s.get? (.relatedCount query) with
  | none => exact .miss
  | some e =>
    cases e with
    | items xs => exact .mismatch (by rintro ⟨⟩)
    | relatedItems groups => exact .mismatch (by rintro ⟨⟩)
    | relatedCount groups => exact .patched rfl (takesOne_filterMap groups)

/-! ## Whole stores -/

namespace Store

/-- A store has the keys of another one, and but for some keys the same answers. -/
structure KeepsOthers (touched : List Key) (s t : Store) : Prop where
  keys : t.records.map (·.key) = s.records.map (·.key)
  answers : ∀ key ∉ touched, t.get? key = s.get? key

theorem keepsOthers_adjust (s : Store) (key : Key) (f : Entry → Entry) :
    KeepsOthers [key] s (s.adjust key f) where
  keys := by
    rw [adjust_records, List.map_map]
    exact List.map_congr_left fun r _ => r.adjust_key key f
  answers other h := by rw [get?_adjust, if_neg fun heq => h (List.mem_singleton.mpr heq)]

theorem KeepsOthers.trans {s t u : Store} {ks ls : List Key} (h : KeepsOthers ks s t)
    (h' : KeepsOthers ls t u) : KeepsOthers (ks ++ ls) s u where
  keys := h'.keys.trans h.keys
  answers key hkey := by
    rw [List.mem_append, not_or] at hkey
    rw [h'.answers key hkey.2, h.answers key hkey.1]

/-- An adjustment that does not change the answer for its key changes nothing. -/
theorem adjust_eq_self {s : Store} {key : Key} {f : Entry → Entry}
    (h : (s.adjust key f).get? key = s.get? key) : s.adjust key f = s := by
  rw [get?_adjust, if_pos rfl] at h
  cases hget : s.get? key with
  | none => exact adjust_of_get?_eq_none hget f
  | some e =>
    rw [hget] at h
    exact adjust_of_fixed hget (Option.some.inj h)

theorem adjust_adjust_self {s : Store} {key : Key} {f : Entry → Entry} (h : ∀ e, f (f e) = f e) :
    (s.adjust key f).adjust key f = s.adjust key f := by
  apply adjust_eq_self
  rw [get?_adjust _ key key, if_pos rfl, get?_adjust, if_pos rfl, Option.map_map]
  exact congrArg (Option.map · _) (funext h)

end Store

theorem remaining_remaining (xs : List Resource) :
    remaining rule deleted (remaining rule deleted xs) = remaining rule deleted xs := by
  simp only [remaining, List.filter_filter, Bool.and_self]

theorem Entry.dropItem_dropItem (e : Entry) :
    (e.dropItem rule deleted).dropItem rule deleted = e.dropItem rule deleted := by
  cases e with
  | items xs => exact congrArg Entry.items (remaining_remaining xs)
  | relatedItems groups => rfl
  | relatedCount groups => rfl

theorem patchGroup_patchGroup (g : RelatedItems) :
    patchGroup rule deleted (patchGroup rule deleted g) = patchGroup rule deleted g := by
  by_cases h : g.kind = deleted.kind
  · rw [patchGroup_of_eq h, patchGroup_of_eq (by exact h), remaining_remaining]
  · rw [patchGroup_of_ne h, patchGroup_of_ne h]

theorem Entry.dropRelated_dropRelated (e : Entry) :
    (e.dropRelated rule deleted).dropRelated rule deleted = e.dropRelated rule deleted := by
  cases e with
  | items xs => rfl
  | relatedItems groups =>
    simp only [dropRelated, List.map_map]
    exact congrArg _ (List.map_congr_left fun g _ => patchGroup_patchGroup g)
  | relatedCount groups => rfl

/-! ## A delete -/

theorem Key.relatedCount_ne_relatedItems (q r : Query) (kind : String) :
    Key.relatedCount q ≠ Key.relatedItems r kind := by
  rintro ⟨⟩

theorem reconcile_eq_results {d : Deletion} (h : d.origin = .results) (s : Stores) :
    reconcile d s =
      let step := removeFromItems d.rule (Query.compile d.text) d.resource s.items
      ({ items := some step.1 }, { s with items := step.2 }) := by
  unfold reconcile
  rw [h]

theorem reconcile_eq_related {d : Deletion} (h : d.origin = .related) (s : Stores) :
    reconcile d s =
      let query := Query.compile d.text
      let first := removeFromRelatedItems d.rule query d.resource s.related
      let second := decrementRelatedCount query d.resource.kind first.2
      ({ relatedItems := some first.1, relatedCount := some second.1 },
        { s with related := second.2 }) := by
  unfold reconcile
  rw [h]

theorem reconcile_results_edits {d : Deletion} (h : d.origin = .results) (s : Stores) :
    let key := Key.items (Query.compile d.text)
    ∃ step, (reconcile d s).1 = { items := some step } ∧
      Edits .items (DropsItems d.rule d.resource) (s.items.get? key) step
        ((reconcile d s).2.items.get? key) := by
  rw [reconcile_eq_results h]
  exact ⟨_, rfl, removeFromItems_edits _ _⟩

/-- The steps of a delete from a related table edit what was there before the delete: each edits
another key than the other. -/
theorem reconcile_related_edits {d : Deletion} (h : d.origin = .related) (s : Stores) :
    let group := Key.relatedItems (Query.compile d.text) d.resource.kind
    let counts := Key.relatedCount (Query.compile d.text)
    ∃ first second,
      (reconcile d s).1 = { relatedItems := some first, relatedCount := some second } ∧
      Edits .relatedItems (DropsRelated d.rule d.resource) (s.related.get? group) first
        ((reconcile d s).2.related.get? group) ∧
      Edits .relatedCount (TakesOne d.resource.kind) (s.related.get? counts) second
        ((reconcile d s).2.related.get? counts) := by
  intro group counts
  have hkeys : counts ≠ group := Key.relatedCount_ne_relatedItems _ _ _
  have hfirst : Edits .relatedItems (DropsRelated d.rule d.resource) _ _ _ :=
    removeFromRelatedItems_edits (Query.compile d.text) s.related
  have hsecond : Edits .relatedCount (TakesOne d.resource.kind) _ _ _ :=
    decrementRelatedCount_edits (Query.compile d.text)
      (removeFromRelatedItems d.rule (Query.compile d.text) d.resource s.related).2
  rw [reconcile_eq_related h]
  refine ⟨_, _, rfl, ?_, ?_⟩
  · -- the count step leaves the answer of the step before it alone
    show Edits _ _ _ _ ((decrementRelatedCount (Query.compile d.text) _ _).2.get? group)
    rwa [decrementRelatedCount_snd, Store.get?_adjust, if_neg hkeys.symm]
  · rwa [removeFromRelatedItems_snd, Store.get?_adjust, if_neg hkeys,
      ← removeFromRelatedItems_snd] at hsecond

section Results

variable {d : Deletion} (h : d.origin = .results) (s : Stores)

include h

/-- The results are dropped from once and for all. -/
theorem reconcile_results_again :
    (reconcile d (reconcile d s).2).2 = (reconcile d s).2 := by
  rw [reconcile_results h (reconcile d s).2, reconcile_results h s,
    Store.adjust_adjust_self Entry.dropItem_dropItem]

theorem reconcile_results_eq_self
    (hanswer : (reconcile d s).2.items.get? (.items (Query.compile d.text)) =
      s.items.get? (.items (Query.compile d.text))) : (reconcile d s).2 = s := by
  rw [reconcile_results h s] at hanswer ⊢
  rw [Store.adjust_eq_self hanswer]

end Results

section Related

variable {d : Deletion} (h : d.origin = .related) (s : Stores)

include h

/-- A delete from a related table makes of the groups what their step makes of them. -/
theorem reconcile_related_get? :
    (reconcile d s).2.related.get? (.relatedItems (Query.compile d.text) d.resource.kind) =
      (s.related.get? (.relatedItems (Query.compile d.text) d.resource.kind)).map
        (Entry.dropRelated d.rule d.resource) := by
  rw [reconcile_related h]
  show (Store.adjust _ _ _).get? _ = _
  rw [Store.get?_adjust, if_neg (Key.relatedCount_ne_relatedItems _ _ _).symm, Store.get?_adjust,
    if_pos rfl]

/-- The groups are dropped from once and for all. -/
theorem reconcile_related_get?_again :
    let group := Key.relatedItems (Query.compile d.text) d.resource.kind
    (reconcile d (reconcile d s).2).2.related.get? group =
      (reconcile d s).2.related.get? group := by
  intro group
  rw [reconcile_related_get? h, reconcile_related_get? h, Option.map_map]
  exact congrArg (Option.map · _) (funext Entry.dropRelated_dropRelated)

theorem reconcile_related_eq_self
    (hgroup : (reconcile d s).2.related.get?
        (.relatedItems (Query.compile d.text) d.resource.kind) =
      s.related.get? (.relatedItems (Query.compile d.text) d.resource.kind))
    (hcount : (reconcile d s).2.related.get? (.relatedCount (Query.compile d.text)) =
      s.related.get? (.relatedCount (Query.compile d.text))) : (reconcile d s).2 = s := by
  have hfirst : s.related.adjust (.relatedItems (Query.compile d.text) d.resource.kind)
      (Entry.dropRelated d.rule d.resource) = s.related := by
    apply Store.adjust_eq_self
    rw [Store.get?_adjust, if_pos rfl, ← reconcile_related_get? h, hgroup]
  rw [reconcile_related h, hfirst] at hcount ⊢
  rw [Store.adjust_eq_self hcount]

end Related

/-- A delete edits the answers that it is about as documented, reports what it did to them, and
leaves everything else alone: it adds and takes away no key, and changes no other answer and not the
other store.  A delete from the results that is reflected once more changes nothing; one from a
related table finds no resource to take. -/
theorem reconcile_edits (d : Deletion) (s : Stores) :
    let query := Query.compile d.text
    let after := (reconcile d s).2
    let again := reconcile d after
    match d.origin with
    | .results =>
      ∃ step, (reconcile d s).1 = { items := some step } ∧
        Edits .items (DropsItems d.rule d.resource) (s.items.get? (.items query)) step
          (after.items.get? (.items query)) ∧
        s.items.KeepsOthers [.items query] after.items ∧ after.related = s.related ∧
        ((∀ n, step ≠ .patched n) → after = s) ∧
        again = ({ items := some step.repeated }, after)
    | .related =>
      let group := Key.relatedItems query d.resource.kind
      ∃ first second,
        (reconcile d s).1 = { relatedItems := some first, relatedCount := some second } ∧
        Edits .relatedItems (DropsRelated d.rule d.resource) (s.related.get? group) first
          (after.related.get? group) ∧
        Edits .relatedCount (TakesOne d.resource.kind) (s.related.get? (.relatedCount query)) second
          (after.related.get? (.relatedCount query)) ∧
        s.related.KeepsOthers [group, .relatedCount query] after.related ∧
        after.items = s.items ∧
        ((∀ n, first ≠ .patched n) → (∀ n, second ≠ .patched n) → after = s) ∧
        again.1.relatedItems = some first.repeated ∧
        again.2.related.get? group = after.related.get? group := by
  intro query after again
  cases horigin : d.origin with
  | results =>
    have hsame : again.2 = after := reconcile_results_again horigin s
    obtain ⟨step, hreport, hedits⟩ := reconcile_results_edits horigin s
    obtain ⟨next, hnext, hagain⟩ := reconcile_results_edits horigin after
    rw [show (reconcile d after).2 = after from hsame] at hagain
    have hrepeated : next = step.repeated :=
      hedits.repeated (fun _ _ _ => DropsItems.document) (fun _ _ => DropsItems.eq_zero) hagain
    have hafter : after = _ := reconcile_results horigin s
    refine ⟨step, hreport, hedits, ?_, ?_, ?_, ?_⟩
    · rw [hafter]
      exact Store.keepsOthers_adjust _ _ _
    · rw [hafter]
    · exact fun hstep => reconcile_results_eq_self horigin s (hedits.unchanged hstep)
    · rw [← hrepeated]
      exact Prod.ext hnext hsame
  | related =>
    have hsame : again.2.related.get? _ = after.related.get? _ :=
      reconcile_related_get?_again horigin s
    obtain ⟨first, second, hreport, hfirst, hsecond⟩ := reconcile_related_edits horigin s
    obtain ⟨next, _, hnext, hagain, -⟩ := reconcile_related_edits horigin after
    rw [show (reconcile d after).2.related.get? _ = _ from hsame] at hagain
    have hrepeated : next = first.repeated :=
      hfirst.repeated (fun _ _ _ => DropsRelated.document) (fun _ _ => DropsRelated.eq_zero) hagain
    have hafter : after = _ := reconcile_related horigin s
    refine ⟨first, second, hreport, hfirst, hsecond, ?_, ?_, ?_, ?_, hsame⟩
    · rw [hafter]
      exact (Store.keepsOthers_adjust _ _ _).trans (Store.keepsOthers_adjust _ _ _)
    · rw [hafter]
    · exact fun hone htwo =>
        reconcile_related_eq_self horigin s (hfirst.unchanged hone) (hsecond.unchanged htwo)
    · rw [← hrepeated]
      exact congrArg Report.relatedItems hnext

end Cache
end ResourceSearch
