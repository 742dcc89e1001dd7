import Mathlib.Algebra.Group.Nat.Defs
import ResourceSearch.CommandLine.Run
import ResourceSearch.Proofs.Cache.Listed

/-!
Answers about a patched snapshot can be printed.  JSON and YAML can say any report; TOML can say
those whose counts are whole numbers of its range (`render_reconcileAnswer`, `render_dryRunAnswer`).
-/

namespace ResourceSearch

/-! ## What TOML can say -/

namespace Toml

theorem obstacleAmong?_eq_none {ms : List (String × Json)} (h : ∀ m ∈ ms, obstacle? m.2 = none) :
    obstacleAmong? ms = none := by
  induction ms with
  | nil => rfl
  | cons m ms ih =>
    obtain ⟨name, v⟩ := m
    have hv : obstacle? v = none := h (name, v) List.mem_cons_self
    rw [obstacleAmong?, hv, Option.none_or]
    exact ih fun m hm => h m (List.mem_cons_of_mem _ hm)

theorem obstacle?_string (s : String) : obstacle? (.string s) = none := rfl

theorem obstacle?_count {n : Nat} (h : n < 2 ^ 63) : obstacle? (Json.count n) = none := by
  have hmin : ((min n 0xFFFFFFFFFFFFFFFF : Nat) : Int) < 0x8000000000000000 := by omega
  simp only [Json.count, Number.ofNat, obstacle?]
  rw [if_pos hmin]

end Toml

theorem Format.render_object (f : Format) {ms : List (String × Json)}
    (h : f = .toml → ∀ m ∈ ms, Toml.obstacle? m.2 = none) :
    ∃ text, f.render (.object ms) = .ok text := by
  cases f with
  | json => exact ⟨_, rfl⟩
  | yaml => exact ⟨_, rfl⟩
  | toml =>
    have hnone : Toml.obstacle? (.object ms) = none := Toml.obstacleAmong?_eq_none (h rfl)
    refine ⟨String.ofList (Toml.document ms), ?_⟩
    simp only [Format.render, Toml.print, hnone]

/-! ## Reports -/

open Cache

/-- A format can say a report.  Only TOML has a largest whole number. -/
def Format.CanSay (f : Format) (r : Report) : Prop :=
  f = .toml → ∀ n, .patched n ∈ r.steps → n < 2 ^ 63

namespace Cache

theorem Outcome.obstacle?_toJson {o : Outcome} (h : ∀ n, o = .patched n → n < 2 ^ 63) :
    Toml.obstacle? o.toJson = none := by
  cases o with
  | patched n =>
    refine Toml.obstacleAmong?_eq_none fun m hm => ?_
    simp only [List.mem_cons, List.not_mem_nil, or_false] at hm
    rcases hm with rfl | rfl
    · exact Toml.obstacle?_string _
    · exact Toml.obstacle?_count (h n rfl)
  | miss => rfl
  | mismatch => rfl

theorem Report.obstacle?_toJson {r : Report} (h : ∀ n, .patched n ∈ r.steps → n < 2 ^ 63) :
    Toml.obstacle? r.toJson = none := by
  refine Toml.obstacleAmong?_eq_none fun m hm => ?_
  obtain ⟨⟨name, step⟩, hstep, hm⟩ := List.mem_filterMap.mp hm
  obtain ⟨o, rfl, rfl⟩ := Option.map_eq_some_iff.mp hm
  refine Outcome.obstacle?_toJson fun n hn => h n ?_
  have hsteps : some o ∈ [r.items, r.relatedItems, r.relatedCount] :=
    List.mem_map_of_mem (f := Prod.snd) hstep
  rw [← hn]
  exact List.mem_filterMap.mpr ⟨some o, hsteps, rfl⟩

end Cache

/-! ## Answers -/

namespace CommandLine

variable {f : Format} {report : Report}

theorem render_reconcileAnswer (h : f.CanSay report) (path : String) (origin : Cache.Origin) :
    ∃ text, f.render (reconcileAnswer path origin report) = .ok text := by
  refine f.render_object fun htoml m hm => ?_
  simp only [List.mem_cons, List.not_mem_nil, or_false] at hm
  rcases hm with rfl | rfl | rfl
  · exact Toml.obstacle?_string _
  · exact Toml.obstacle?_string _
  · exact Report.obstacle?_toJson (h htoml)

theorem render_dryRunAnswer (h : f.CanSay report) (path : String) :
    ∃ text, f.render (dryRunAnswer path report) = .ok text := by
  refine f.render_object fun htoml m hm => ?_
  simp only [List.mem_cons, List.not_mem_nil, or_false] at hm
  rcases hm with rfl | rfl | rfl
  · exact Toml.obstacle?_string _
  · exact Toml.obstacle?_string _
  · exact Report.obstacle?_toJson (h htoml)

end CommandLine
end ResourceSearch
