import Mathlib.Algebra.Ring.Nat
import ResourceSearch.Proofs.Cache.Edits

/-!
Counts that are taken down one delete at a time.  After a number of deletes a count of the kind is
less by that number, and gone as soon as that would leave nothing, so the counts never go below zero
and every group goes exactly once (`countedDown_decrementTimes`).  The invariant of the run is
`CountedDown`, and one more delete keeps it (`CountedDown.succ`).
-/

namespace ResourceSearch
namespace Cache

/-- What is reported while the counts for a search are decremented a number of times, and the store
then. -/
def decrementTimes (query : Query) (kind : String) : Nat → Store → List Outcome × Store
  | 0, s => ([], s)
  | times + 1, s =>
    let (reports, s) := decrementTimes query kind times s
    let (outcome, s) := decrementRelatedCount query kind s
    (reports ++ [outcome], s)

/-- What stays of a count after a number of decrements: all of it if it is of another kind, else as
much less, or nothing if it was not more than that. -/
inductive CountAfter (kind : String) (times : Nat) (g : RelatedCount) : List RelatedCount → Prop
  | other (h : g.kind ≠ kind) : CountAfter kind times g [g]
  | less {count : UInt64} (h : g.kind = kind) (hmore : times < g.count.toNat)
    (hcount : count.toNat + times = g.count.toNat) : CountAfter kind times g [⟨kind, count⟩]
  | gone (h : g.kind = kind) (hused : g.count.toNat ≤ times) : CountAfter kind times g []

/-- The number of groups of a kind that a number of decrements uses up. -/
def usedUp (kind : String) (times : Nat) (groups : List RelatedCount) : Nat :=
  groups.countP fun g => g.kind = kind ∧ g.count.toNat ≤ times

/-- What a number of decrements makes of a store that has some groups as the counts for a search.
The groups that stay keep their order, and no other answer is touched. -/
structure CountedDown (query : Query) (kind : String) (groups : List RelatedCount) (before : Store)
    (times : Nat) (reports : List Outcome) (after : Store) : Prop where
  counts : ∃ left, after.get? (.relatedCount query) = some (.relatedCount left.flatten) ∧
    List.Forall₂ (CountAfter kind times) groups left
  removed : ∃ removed : List Nat, reports = removed.map .patched ∧ removed.length = times ∧
    removed.sum = usedUp kind times groups
  others : ∀ key, key ≠ .relatedCount query → after.get? key = before.get? key

variable {query : Query} {kind : String} {groups : List RelatedCount} {s : Store}

/-! ## One decrement -/

theorem decrementRelatedCount_fst (h : s.get? (.relatedCount query) = some (.relatedCount groups)) :
    (decrementRelatedCount query kind s).1 =
      .patched (groups.length - (groups.filterMap (decrement kind)).length) := by
  dsimp only [decrementRelatedCount]
  rw [h]

theorem get?_decrementRelatedCount
    (h : s.get? (.relatedCount query) = some (.relatedCount groups)) :
    (decrementRelatedCount query kind s).2.get? (.relatedCount query) =
      some (.relatedCount (groups.filterMap (decrement kind))) := by
  rw [decrementRelatedCount_snd, Store.get?_adjust, if_pos rfl, h]
  rfl

theorem get?_decrementRelatedCount_ne {key : Key} (h : key ≠ .relatedCount query) :
    (decrementRelatedCount query kind s).2.get? key = s.get? key := by
  rw [decrementRelatedCount_snd, Store.get?_adjust, if_neg h]

theorem CountLeft.countAfter {g : RelatedCount} {left : List RelatedCount}
    (h : CountLeft kind g left) : CountAfter kind 1 g left := by
  cases h with
  | other hkind => exact .other hkind
  | less hkind hmore hcount => exact .less hkind hmore hcount
  | gone hkind hone => exact .gone hkind hone

namespace CountAfter

variable {times : Nat} {g : RelatedCount} {left : List RelatedCount}

theorem succ (h : CountAfter kind times g left) :
    CountAfter kind (times + 1) g (left.filterMap (decrement kind)) := by
  cases h with
  | other hkind =>
    rw [List.filterMap_cons_some (decrement_of_ne hkind), List.filterMap_nil]
    exact .other hkind
  | @less count hkind hmore hcount =>
    have hstep : CountLeft kind ⟨kind, count⟩ (decrement kind ⟨kind, count⟩).toList :=
      countLeft_decrement _
    rw [List.filterMap_eq_flatMap_toList, List.flatMap_singleton]
    generalize (decrement kind ⟨kind, count⟩).toList = left at hstep ⊢
    cases hstep with
    | other hother => exact absurd rfl hother
    | less _ hmoreLeft hless =>
      dsimp only at hmoreLeft hless
      exact .less hkind (by omega) (by omega)
    | gone _ hone =>
      dsimp only at hone
      exact .gone hkind (by omega)
  | gone hkind hused => exact .gone hkind (Nat.le_succ_of_le hused)

end CountAfter

/-- Every group that does not stay was used up. -/
theorem length_eq_add_usedUp {times : Nat} {left : List (List RelatedCount)}
    (h : List.Forall₂ (CountAfter kind times) groups left) :
    groups.length = left.flatten.length + usedUp kind times groups := by
  induction h with
  | nil => rfl
  | @cons g after groups left hg _ ih =>
    rw [usedUp] at ih ⊢
    rw [List.flatten_cons, List.length_append, List.length_cons, List.countP_cons, ih]
    cases hg with
    | other hkind =>
      rw [if_neg (by simp [hkind]), List.length_singleton]
      omega
    | less hkind hmore =>
      rw [if_neg (by simp [Nat.not_le.mpr hmore]), List.length_singleton]
      omega
    | gone hkind hused =>
      rw [if_pos (by simp [hkind, hused]), List.length_nil]
      omega

/-! ## Many decrements -/

theorem countedDown_one (h : s.get? (.relatedCount query) = some (.relatedCount groups)) :
    CountedDown query kind groups s 1 (decrementTimes query kind 1 s).1
      (decrementTimes query kind 1 s).2 := by
  have htakes : TakesOne kind (.relatedCount groups)
      (.relatedCount (groups.filterMap (decrement kind))) _ := takesOne_filterMap groups
  obtain ⟨_, left, heq, hleft, hgroups, -⟩ := htakes
  cases heq
  have hflatten : groups.filterMap (decrement kind) = left.flatten := Entry.relatedCount.inj hleft
  have hafter := hgroups.imp fun _ _ => CountLeft.countAfter
  refine ⟨⟨left, ?_, hafter⟩, ⟨[groups.length - left.flatten.length], ?_, rfl, ?_⟩, ?_⟩
  · rw [← hflatten]
    exact get?_decrementRelatedCount h
  · rw [← hflatten]
    exact congrArg (fun outcome => [outcome]) (decrementRelatedCount_fst h)
  · have hlength := length_eq_add_usedUp hafter
    rw [List.sum_singleton]
    omega
  · exact fun key hkey => get?_decrementRelatedCount_ne hkey

/-- One more decrement takes one more from every count of the kind. -/
theorem CountedDown.succ {times : Nat} {reports : List Outcome} {after : Store}
    (h : CountedDown query kind groups s times reports after) :
    CountedDown query kind groups s (times + 1)
      (reports ++ [(decrementRelatedCount query kind after).1])
      (decrementRelatedCount query kind after).2 := by
  obtain ⟨left, hget, hleft⟩ := h.counts
  obtain ⟨removed, hreports, hlength, hsum⟩ := h.removed
  have hflatten : left.flatten.filterMap (decrement kind) =
      (left.map (List.filterMap (decrement kind))).flatten := List.filterMap_flatten
  have hnext : List.Forall₂ (CountAfter kind (times + 1)) groups
      (left.map (List.filterMap (decrement kind))) :=
    List.forall₂_map_right_iff.mpr (hleft.imp fun _ _ hg => hg.succ)
  refine ⟨⟨_, ?_, hnext⟩, ⟨removed ++ [left.flatten.length -
    (left.flatten.filterMap (decrement kind)).length], ?_, ?_, ?_⟩, ?_⟩
  · rw [← hflatten]
    exact get?_decrementRelatedCount hget
  · rw [decrementRelatedCount_fst hget, hreports, List.map_append]
    rfl
  · rw [List.length_append, hlength, List.length_singleton]
  · have hbefore := length_eq_add_usedUp hleft
    have hafter := length_eq_add_usedUp hnext
    have hle : (left.flatten.filterMap (decrement kind)).length ≤ left.flatten.length :=
      List.length_filterMap_le _ _
    rw [← hflatten] at hafter
    rw [List.sum_append, List.sum_singleton, hsum]
    omega
  · intro key hkey
    rw [get?_decrementRelatedCount_ne hkey, h.others key hkey]

/-- Decrements of a kind take the counts of that kind down by their number, without ever going below
zero, and each count goes at the decrement that would leave nothing of it.  What they report to have
removed adds up to the number of groups that have gone. -/
theorem countedDown_decrementTimes {times : Nat}
    (h : s.get? (.relatedCount query) = some (.relatedCount groups)) (htimes : 1 ≤ times) :
    CountedDown query kind groups s times (decrementTimes query kind times s).1
      (decrementTimes query kind times s).2 := by
  induction htimes with
  | refl => exact countedDown_one h
  | step _ ih => exact ih.succ

/-- Two groups of the kind that go at the first of three decrements and at the last, and one that
stays. -/
theorem countedDown_three_times :
    let groups : List RelatedCount :=
      [⟨"Pod", 0⟩, ⟨"Service", 1⟩, ⟨"Pod", 3⟩, ⟨"Pod", 18446744073709551615⟩]
    let s := Store.empty.insert (.relatedCount {}) (.relatedCount groups)
    s.get? (.relatedCount {}) = some (.relatedCount groups) ∧ 1 ≤ 3 ∧
      CountedDown {} "Pod" groups s 3 (decrementTimes {} "Pod" 3 s).1
        (decrementTimes {} "Pod" 3 s).2 ∧
      (decrementTimes {} "Pod" 3 s).1 = [.patched 1, .patched 0, .patched 1] ∧
      (decrementTimes {} "Pod" 3 s).2.get? (.relatedCount {}) =
        some (.relatedCount [⟨"Service", 1⟩, ⟨"Pod", 18446744073709551612⟩]) := by
  intro groups s
  have hget : s.get? (.relatedCount {}) = some (.relatedCount groups) := rfl
  have htimes : 1 ≤ 3 := by decide
  exact ⟨hget, htimes, countedDown_decrementTimes hget htimes, rfl, rfl⟩

end Cache
end ResourceSearch
