import Mathlib.Data.List.Basic
import ResourceSearch.Proofs.Cache.Order

/-!
Related resources and their count.  A delete from a related table patches two answers, and neither
patch looks at the other answer; zero is treated differently in them, as a group without resources
stays and a count of nothing goes.  They stay in step all the same (`InStep.reconcile`): as long as
no two resources of a group are recognised as each other, every delete takes exactly one of them,
and one from the count.  So it goes on over any run of deletes from the group (`inStep_of_append`).
-/

namespace ResourceSearch
namespace Cache

namespace MatchRule

theorem holds_self (rule : MatchRule) (r : Resource) : rule.holds r r = true := by
  cases rule <;> simp [holds]

theorem holds_comm (rule : MatchRule) (a b : Resource) : rule.holds a b = rule.holds b a := by
  cases rule <;> simp only [holds, eq_comm]

end MatchRule

/-! ## One delete from a group -/

/-- Resources of which none is recognised as another. -/
def Distinct (rule : MatchRule) (xs : List Resource) : Prop :=
  xs.Pairwise fun a b => rule.holds a b = false

theorem Distinct.nodup {rule : MatchRule} {xs : List Resource} (h : Distinct rule xs) :
    xs.Nodup := by
  refine h.imp ?_
  rintro a _ hab rfl
  rw [rule.holds_self] at hab
  cases hab

/-- Exactly the deleted resource goes. -/
theorem remaining_of_mem {rule : MatchRule} {xs : List Resource} (h : Distinct rule xs)
    {r : Resource} (hr : r ∈ xs) :
    ∃ front back, xs = front ++ r :: back ∧ remaining rule r xs = front ++ back := by
  obtain ⟨front, back, rfl⟩ := List.append_of_mem hr
  obtain ⟨-, hback, hfront⟩ := List.pairwise_append.mp h
  have hfront : ∀ a ∈ front, rule.holds a r = false := fun a ha =>
    hfront a ha r List.mem_cons_self
  have hback : ∀ b ∈ back, rule.holds b r = false := by
    intro b hb
    rw [rule.holds_comm]
    exact (List.pairwise_cons.mp hback).1 b hb
  refine ⟨front, back, rfl, ?_⟩
  rw [remaining, List.filter_append, List.filter_cons_of_neg (by simp [rule.holds_self]),
    List.filter_eq_self.mpr (by simpa using hfront), List.filter_eq_self.mpr (by simpa using hback)]

theorem mem_remaining_iff {rule : MatchRule} {xs : List Resource} (h : Distinct rule xs)
    {r : Resource} (hr : r ∈ xs) (other : Resource) :
    other ∈ remaining rule r xs ↔ other ∈ xs ∧ other ≠ r := by
  have hnodup := h.nodup
  obtain ⟨front, back, rfl, hleft⟩ := remaining_of_mem h hr
  rw [List.perm_middle.nodup_iff, List.nodup_cons] at hnodup
  rw [hleft]
  constructor
  · intro hother
    refine ⟨?_, ?_⟩
    · simp only [List.mem_append, List.mem_cons] at hother ⊢
      exact hother.imp_right .inr
    · rintro rfl
      exact hnodup.1 hother
  · rintro ⟨hother, hne⟩
    simp only [List.mem_append, List.mem_cons] at hother ⊢
    rcases hother with hfront | heq | hback
    · exact .inl hfront
    · exact absurd heq hne
    · exact .inr hback

theorem length_remaining {rule : MatchRule} {xs : List Resource} (h : Distinct rule xs)
    {r : Resource} (hr : r ∈ xs) : (remaining rule r xs).length + 1 = xs.length := by
  obtain ⟨front, back, rfl, hleft⟩ := remaining_of_mem h hr
  rw [hleft, List.length_append, List.length_append, List.length_cons, Nat.add_assoc]

/-! ## The two answers -/

theorem map_patchGroup_of_ne {rule : MatchRule} {deleted : Resource} {groups : List RelatedItems}
    (h : ∀ g ∈ groups, g.kind ≠ deleted.kind) : groups.map (patchGroup rule deleted) = groups := by
  have hid : ∀ g ∈ groups, patchGroup rule deleted g = g := fun g hg => patchGroup_of_ne (h g hg)
  rw [List.map_congr_left hid, List.map_id']

theorem filterMap_decrement_of_ne {kind : String} {groups : List RelatedCount}
    (h : ∀ g ∈ groups, g.kind ≠ kind) : groups.filterMap (decrement kind) = groups := by
  rw [List.filterMap_congr fun g hg => decrement_of_ne (h g hg), List.filterMap_some]

theorem groupedCount_append (xs ys : List RelatedItems) :
    groupedCount (xs ++ ys) = groupedCount xs + groupedCount ys := by
  induction xs with
  | nil => exact (Nat.zero_add _).symm
  | cons g xs ih =>
    show g.items.length + groupedCount (xs ++ ys) = g.items.length + groupedCount xs + _
    omega

/-- The groups of a kind whose count is a number: one, or none for zero. -/
def countGroups (kind : String) (n : UInt64) : List RelatedCount :=
  if n = 0 then [] else [⟨kind, n⟩]

theorem filterMap_decrement_countGroups {kind : String} {n m : UInt64}
    (h : m.toNat + 1 = n.toNat) :
    (countGroups kind n).filterMap (decrement kind) = countGroups kind m := by
  have hn : n ≠ 0 := by
    rintro rfl
    cases h
  rw [countGroups, if_neg hn]
  by_cases hm : m = 0
  · subst hm
    have hone : ¬1 < n := by
      rw [UInt64.lt_iff_toNat_lt, ← h]
      decide
    simp [countGroups, decrement, hone]
  · have hpos : m.toNat ≠ 0 := fun hzero => hm (UInt64.toNat_inj.mp hzero)
    have hmore : 1 < n := by
      rw [UInt64.lt_iff_toNat_lt, ← h]
      show 1 < m.toNat + 1
      omega
    have hless : n - 1 = m := by
      apply UInt64.toNat_inj.mp
      rw [UInt64.toNat_sub_of_le _ _ (UInt64.le_of_lt hmore), ← h]
      exact Nat.add_sub_cancel m.toNat 1
    simp [countGroups, decrement, hm, hmore, hless]

/-! ## A run of deletes -/

/-- What deletes from one related table have made of the stores `s₀`: the group of the kind holds
some resources, the count of the kind is their number, and nothing else has changed.  `before` and
`after` are the other groups of related resources, `lower` and `upper` the other counts. -/
structure InStep (query : Query) (kind : String) (before after : List RelatedItems)
    (lower upper : List RelatedCount) (s₀ : Stores) (left : List Resource) (s : Stores) : Prop where
  group : s.related.get? (.relatedItems query kind) =
    some (.relatedItems (before ++ ⟨kind, left⟩ :: after))
  count : ∃ n : UInt64, n.toNat = left.length ∧
    s.related.get? (.relatedCount query) =
      some (.relatedCount (lower ++ (countGroups kind n ++ upper)))
  others : ∀ key, key ≠ .relatedItems query kind → key ≠ .relatedCount query →
    s.related.get? key = s₀.related.get? key
  results : s.items = s₀.items

/-- A delete of one of some resources, started from their related table. -/
structure DeletesFrom (rule : MatchRule) (query : Query) (xs : List Resource) (d : Deletion) :
    Prop where
  rule_eq : d.rule = rule
  origin_eq : d.origin = .related
  query_eq : Query.compile d.text = query
  mem : d.resource ∈ xs

section Run

variable {rule : MatchRule} {query : Query} {kind : String} {before after : List RelatedItems}
  {lower upper : List RelatedCount} {s₀ s : Stores} {left : List Resource}

variable (hgroups : ∀ g ∈ before ++ after, g.kind ≠ kind)
  (hcounts : ∀ g ∈ lower ++ upper, g.kind ≠ kind)

include hgroups

theorem map_patchGroup_group {deleted : Resource} (hkind : deleted.kind = kind) :
    (before ++ ⟨kind, left⟩ :: after).map (patchGroup rule deleted) =
      before ++ ⟨kind, remaining rule deleted left⟩ :: after := by
  subst hkind
  rw [List.forall_mem_append] at hgroups
  rw [List.map_append, List.map_cons, map_patchGroup_of_ne hgroups.1,
    map_patchGroup_of_ne hgroups.2, patchGroup_of_eq rfl]

/-- The delete reports that it took one resource. -/
theorem InStep.reconcile_report {d : Deletion}
    (h : InStep query kind before after lower upper s₀ left s) (hdistinct : Distinct rule left)
    (hkind : ∀ r ∈ left, r.kind = kind) (hd : DeletesFrom rule query left d) :
    (reconcile d s).1.relatedItems = some (.patched 1) := by
  obtain ⟨rfl, horigin, rfl, hmem⟩ := hd
  obtain rfl := hkind _ hmem
  have hlength := length_remaining hdistinct hmem
  have hone : groupedCount (before ++ ⟨d.resource.kind, left⟩ :: after) -
      groupedCount (before ++ ⟨d.resource.kind, remaining d.rule d.resource left⟩ :: after) =
        1 := by
    rw [groupedCount_append, groupedCount_append, groupedCount, groupedCount]
    show groupedCount before + (left.length + _) -
      (groupedCount before + ((remaining d.rule d.resource left).length + _)) = 1
    omega
  unfold reconcile removeFromRelatedItems
  rw [horigin]
  simp only [h.group, map_patchGroup_group hgroups rfl, hone]

include hcounts

/-- One delete keeps the group and the count in step. -/
theorem InStep.reconcile {d : Deletion}
    (h : InStep query kind before after lower upper s₀ left s) (hdistinct : Distinct rule left)
    (hkind : ∀ r ∈ left, r.kind = kind) (hd : DeletesFrom rule query left d) :
    InStep query kind before after lower upper s₀ (remaining rule d.resource left)
      (reconcile d s).2 := by
  obtain ⟨rfl, horigin, rfl, hmem⟩ := hd
  obtain rfl := hkind _ hmem
  have hlength := length_remaining hdistinct hmem
  have hkeys : Key.relatedCount (Query.compile d.text) ≠
      Key.relatedItems (Query.compile d.text) d.resource.kind := by
    rintro ⟨⟩
  rw [reconcile_related horigin]
  refine ⟨?_, ?_, ?_, h.results⟩
  · rw [Store.get?_adjust, if_neg hkeys.symm, Store.get?_adjust, if_pos rfl, h.group]
    show some (Entry.relatedItems (List.map _ (before ++ _))) = _
    rw [map_patchGroup_group hgroups rfl]
  · obtain ⟨n, hn, hcount⟩ := h.count
    rw [List.forall_mem_append] at hcounts
    have hone : 1 ≤ n := by
      rw [UInt64.le_iff_toNat_le, hn, ← hlength]
      exact Nat.succ_le_succ (Nat.zero_le _)
    have hless : (n - 1).toNat + 1 = n.toNat := by
      rw [UInt64.toNat_sub_of_le n 1 hone]
      exact Nat.sub_add_cancel (UInt64.le_iff_toNat_le.mp hone)
    refine ⟨n - 1, by omega, ?_⟩
    rw [Store.get?_adjust, if_pos rfl, Store.get?_adjust, if_neg hkeys, hcount]
    show some (Entry.relatedCount (List.filterMap _ (lower ++ _))) = _
    rw [List.filterMap_append, List.filterMap_append, filterMap_decrement_of_ne hcounts.1,
      filterMap_decrement_of_ne hcounts.2, filterMap_decrement_countGroups hless]
  · intro key hitems hcount
    rw [Store.get?_adjust, if_neg hcount, Store.get?_adjust, if_neg hitems]
    exact h.others key hitems hcount

/-- A run of deletes of different resources takes these and no others. -/
theorem InStep.reconcileAll {xs : List Resource} {ds : List Deletion}
    (h : InStep query kind before after lower upper s₀ xs s) (hdistinct : Distinct rule xs)
    (hkind : ∀ r ∈ xs, r.kind = kind) (hds : ∀ d ∈ ds, DeletesFrom rule query xs d)
    (honce : (ds.map (·.resource)).Nodup) :
    ∃ left, left.Sublist xs ∧ (∀ r, r ∈ left ↔ r ∈ xs ∧ r ∉ ds.map (·.resource)) ∧
      InStep query kind before after lower upper s₀ left (reconcileAll ds s) := by
  induction ds generalizing xs s with
  | nil => exact ⟨xs, List.Sublist.refl xs, by simp, h⟩
  | cons d ds ih =>
    have hd := hds d List.mem_cons_self
    have hsub : (remaining rule d.resource xs).Sublist xs := List.filter_sublist
    rw [List.map_cons, List.nodup_cons] at honce
    have hrest : ∀ e ∈ ds, DeletesFrom rule query (remaining rule d.resource xs) e := by
      intro e he
      obtain ⟨hrule, horigin, hquery, hmem⟩ := hds e (List.mem_cons_of_mem d he)
      refine ⟨hrule, horigin, hquery, (mem_remaining_iff hdistinct hd.mem _).mpr ⟨hmem, ?_⟩⟩
      intro heq
      exact honce.1 (heq ▸ List.mem_map_of_mem he)
    obtain ⟨left, hleft, hiff, hlast⟩ := ih (h.reconcile hgroups hcounts hdistinct hkind hd)
      (hdistinct.sublist hsub) (fun r hr => hkind r (hsub.subset hr)) hrest honce.2
    refine ⟨left, hleft.trans hsub, ?_, hlast⟩
    intro r
    rw [hiff, mem_remaining_iff hdistinct hd.mem, List.map_cons, List.mem_cons, not_or, and_assoc]

end Run

/-- Deletes of resources of one group, each of them at most once and in any order, keep the group
and its count in step: after every part of the run the group holds the resources that were not
deleted yet, in their order, the count of the kind is their number, or is gone when there are none,
and nothing else has changed; and the delete that comes next reports that it takes one resource. -/
theorem inStep_of_append {rule : MatchRule} {query : Query} {kind : String}
    {before after : List RelatedItems} {lower upper : List RelatedCount} {s : Stores}
    {xs : List Resource} {count : UInt64} {past future : List Deletion}
    (hitems : s.related.get? (.relatedItems query kind) =
      some (.relatedItems (before ++ ⟨kind, xs⟩ :: after)))
    (hgroups : ∀ g ∈ before ++ after, g.kind ≠ kind) (hkind : ∀ r ∈ xs, r.kind = kind)
    (hdistinct : Distinct rule xs)
    (hcount : s.related.get? (.relatedCount query) =
      some (.relatedCount (lower ++ ⟨kind, count⟩ :: upper)))
    (hcounts : ∀ g ∈ lower ++ upper, g.kind ≠ kind) (hnumber : count.toNat = xs.length)
    (hone : 1 ≤ count)
    (hds : ∀ d ∈ past ++ future, DeletesFrom rule query xs d)
    (honce : ((past ++ future).map (·.resource)).Nodup) :
    ∃ left, left.Sublist xs ∧ (∀ r, r ∈ left ↔ r ∈ xs ∧ r ∉ past.map (·.resource)) ∧
      InStep query kind before after lower upper s left (reconcileAll past s) ∧
      ∀ d ∈ future.head?, (reconcile d (reconcileAll past s)).1.relatedItems =
        some (.patched 1) := by
  have hstart : InStep query kind before after lower upper s xs s := by
    refine ⟨hitems, ⟨count, hnumber, ?_⟩, fun _ _ _ => rfl, rfl⟩
    have hne : count ≠ 0 := by
      rintro rfl
      cases hone
    rw [hcount, countGroups, if_neg hne]
    rfl
  rw [List.map_append, List.nodup_append] at honce
  obtain ⟨hpast, -, hdisjoint⟩ := honce
  rw [List.forall_mem_append] at hds
  obtain ⟨left, hleft, hiff, hlast⟩ :=
    hstart.reconcileAll hgroups hcounts hdistinct hkind hds.1 hpast
  refine ⟨left, hleft, hiff, hlast, ?_⟩
  intro d hd
  have hmem : d ∈ future := List.mem_of_mem_head? hd
  obtain ⟨hrule, horigin, hquery, hxs⟩ := hds.2 d hmem
  refine hlast.reconcile_report hgroups (hdistinct.sublist hleft)
    (fun r hr => hkind r (hleft.subset hr)) ⟨hrule, horigin, hquery, (hiff _).mpr ⟨hxs, ?_⟩⟩
  intro hagain
  exact hdisjoint _ hagain _ (List.mem_map_of_mem hmem) rfl

/-- The second of two pods is deleted first, next to a group and a count of another kind. -/
theorem inStep_second_of_two :
    let pod (name : String) : Resource := { name, kind := "Pod" }
    let delete (name : String) : Deletion :=
      { origin := .related, text := "kind:Node", resource := pod name }
    let query : Query := { filters := [⟨"kind", ["Node"]⟩] }
    let pods := [pod "a", pod "b"]
    let s : Stores :=
      { related := (Store.empty.insert (.relatedItems query "Pod")
          (.relatedItems [⟨"Service", [pod "a"]⟩, ⟨"Pod", pods⟩])).insert (.relatedCount query)
          (.relatedCount [⟨"Pod", 2⟩, ⟨"Service", 1⟩]) }
    ∃ left, left.Sublist pods ∧ (∀ r, r ∈ left ↔ r ∈ pods ∧ r ∉ [pod "b"]) ∧
      InStep query "Pod" [⟨"Service", [pod "a"]⟩] [] [] [⟨"Service", 1⟩] s left
        (reconcileAll [delete "b"] s) ∧
      (reconcile (delete "a") (reconcileAll [delete "b"] s)).1.relatedItems =
        some (.patched 1) := by
  intro pod delete query pods s
  have hcompile : Query.compile "kind:Node" = query := rfl
  have hds : ∀ d ∈ [delete "b"] ++ [delete "a"], DeletesFrom .uidAndName query pods d := by
    intro d hd
    simp only [List.cons_append, List.nil_append, List.mem_cons, List.not_mem_nil, or_false] at hd
    rcases hd with rfl | rfl
    · exact ⟨rfl, rfl, hcompile, List.mem_cons_of_mem _ List.mem_cons_self⟩
    · exact ⟨rfl, rfl, hcompile, List.mem_cons_self⟩
  have hdistinct : Distinct .uidAndName pods := by
    simp [Distinct, pods, pod, MatchRule.holds]
  have honce : (([delete "b"] ++ [delete "a"]).map (·.resource)).Nodup := by
    simp [delete, pod]
  have hitems : s.related.get? (.relatedItems query "Pod") =
      some (.relatedItems ([⟨"Service", [pod "a"]⟩] ++ ⟨"Pod", pods⟩ :: [])) := rfl
  have hcount : s.related.get? (.relatedCount query) =
      some (.relatedCount ([] ++ ⟨"Pod", 2⟩ :: [⟨"Service", 1⟩])) := rfl
  obtain ⟨left, hleft, hiff, hstep, hnext⟩ :=
    inStep_of_append hitems (by simp) (by simp [pods, pod]) hdistinct hcount (by simp) rfl
      (by decide) hds honce
  exact ⟨left, hleft, hiff, hstep, hnext _ rfl⟩

end Cache
end ResourceSearch
