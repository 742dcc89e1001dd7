import ResourceSearch.Proofs.Cache.Loaded
import ResourceSearch.Proofs.Cache.Order
import ResourceSearch.Proofs.Cache.Weight

/-!
Patching a snapshot file over and over.  A run of patches that all come out well does to the file
what the same patches do to the stores in memory, and it writes the file only if they change the
stores (`updateAll_eq_reconcileAll`).
-/

namespace ResourceSearch
namespace Cache
namespace Snapshot

/-- Reflects one delete after the other in a snapshot file.  Each has a process of its own. -/
def updateAll {m : Type → Type} [Monad m] (files : Files m) (path : String)
    (calls : List (Nat × Deletion)) : m (List (Except Failure Report)) :=
  calls.mapM fun (process, deletion) =>
    update files process path fun stores => return reconcile deletion stores

/-- The reports of deletes that are reflected in stores one after the other. -/
def reports : List Deletion → Stores → List Report
  | [], _ => []
  | deletion :: rest, s => (reconcile deletion s).1 :: reports rest (reconcile deletion s).2

variable {d d' : Disk} {process : Nat} {path : String}

theorem updateAll_nil (path : String) (d : Disk) :
    (Snapshot.updateAll Disk.files path [] : StateM Disk _).run d =
      (([] : List Report).map .ok, d) := rfl

theorem updateAll_cons {next : Disk} {deletion : Deletion} {report : Report}
    {calls : List (Nat × Deletion)} {rs : List Report}
    (hfirst : (update Disk.files process path (fun s => pure (reconcile deletion s)) :
      StateM Disk _).run d = (.ok report, next))
    (hrest : (Snapshot.updateAll Disk.files path calls : StateM Disk _).run next =
      (rs.map .ok, d')) :
    (Snapshot.updateAll Disk.files path ((process, deletion) :: calls) : StateM Disk _).run d =
      ((report :: rs).map .ok, d') := by
  rw [Snapshot.updateAll] at hrest ⊢
  simp only [List.mapM_cons, StateT.run_bind, hfirst]
  show (_ :: ((calls.mapM _ : StateM Disk _).run next).1,
    ((calls.mapM _ : StateM Disk _).run next).2) = _
  rw [hrest]
  rfl

/-- Only a file that may be read gives stores that hold anything. -/
theorem refusal_of_storesAt {s : Stores} (h : storesAt d path = .ok s) (hs : 0 < s.weight) :
    d.refusal (.read path) = none := by
  rw [storesAt_eq] at h
  obtain ⟨snapshot, hsnapshot, rfl⟩ := exists_of_map_ok h
  cases hat : d.at? path with
  | none =>
    rw [hat] at hsnapshot
    cases hsnapshot
    exact absurd hs (Nat.lt_irrefl 0)
  | some n =>
    rw [hat] at hsnapshot
    cases hrefusal : d.refusal (.read path) with
    | none => rfl
    | some e =>
      rw [Disk.permit, hrefusal] at hsnapshot
      cases hsnapshot

/-- Where a run of patches has come to that began with the disk `d₀` and the stores `s₀`. -/
structure Follows (path : String) (d₀ : Disk) (s₀ : Stores) (d : Disk) (s : Stores) : Prop where
  stores : storesAt d path = .ok s
  storable : s.Storable
  refusal : d.refusal = d₀.refusal
  file : s = s₀ ∧ d.at? path = d₀.at? path ∨
    s.weight < s₀.weight ∧ d.at? path = some (.file (ofStores s).bytes)

theorem Follows.update {d₀ : Disk} {s₀ s : Stores} (h : Follows path d₀ s₀ d s)
    {deletion : Deletion} {report : Report}
    (hrun : (update Disk.files process path (fun stores => pure (reconcile deletion stores)) :
      StateM Disk _).run d = (.ok report, d')) :
    report = (reconcile deletion s).1 ∧ Follows path d₀ s₀ d' (reconcile deletion s).2 := by
  obtain ⟨t, ht, hreport, hrefusal, hfile⟩ := update_ok hrun
  obtain rfl : s = t := Except.ok.inj (h.stores.symm.trans ht)
  refine ⟨hreport, ?_⟩
  have hstorable := h.storable.reconcile deletion
  rcases hfile with ⟨hsame, hat⟩ | ⟨hsame, hat⟩
  · have hunchanged := (same_reconcile deletion s).mp hsame
    rw [hunchanged]
    refine ⟨(storesAt_congr hat hrefusal).trans ht, h.storable, hrefusal.trans h.refusal, ?_⟩
    rw [hat]
    exact h.file
  · have hlighter : (reconcile deletion s).2.weight < s.weight := by
      rcases reconcile_shrinks deletion s with hunchanged | hlighter
      · rw [(same_reconcile deletion s).mpr hunchanged] at hsame
        cases hsame
      · exact hlighter
    have hread : d'.refusal (.read path) = none := by
      rw [hrefusal]
      exact refusal_of_storesAt ht (Nat.zero_lt_of_lt hlighter)
    refine ⟨storesAt_file hat hread hstorable, hstorable, hrefusal.trans h.refusal,
      .inr ⟨?_, hat⟩⟩
    rcases h.file with ⟨rfl, -⟩ | ⟨hs, -⟩
    · exact hlighter
    · exact Nat.lt_trans hlighter hs

theorem Follows.updateAll {d₀ : Disk} {s₀ s : Stores} (h : Follows path d₀ s₀ d s)
    {calls : List (Nat × Deletion)} {rs : List Report}
    (hrun : (updateAll Disk.files path calls : StateM Disk _).run d = (rs.map .ok, d')) :
    rs = reports (calls.map (·.2)) s ∧
      Follows path d₀ s₀ d' (reconcileAll (calls.map (·.2)) s) := by
  induction calls generalizing d s rs with
  | nil =>
    cases rs with
    | nil =>
      cases hrun
      exact ⟨rfl, h⟩
    | cons r rs => cases hrun
  | cons call calls ih =>
    obtain ⟨process, deletion⟩ := call
    rw [Snapshot.updateAll, List.mapM_cons] at hrun
    obtain ⟨result, next, hfirst, hrun⟩ := exists_of_run_bind hrun
    obtain ⟨results, last, hrest, hrun⟩ := exists_of_run_bind hrun
    obtain ⟨hresults, rfl⟩ := Prod.mk.inj hrun
    cases rs with
    | nil => cases hresults
    | cons r rs =>
      obtain ⟨rfl, rfl⟩ := List.cons.inj hresults
      obtain ⟨rfl, hnext⟩ := h.update hfirst
      obtain ⟨rfl, hlast⟩ := ih hnext hrest
      exact ⟨rfl, hlast⟩

theorem follows_start {s : Stores} (h : storesAt d path = .ok s)
    (hnumbers : ∀ r ∈ s.resources, ∀ m ∈ r.extra.members, m.2.NumbersReadBack) :
    Follows path d s d s where
  stores := h
  storable := (fits_of_storesAt h).storable hnumbers
  refusal := rfl
  file := .inl ⟨rfl, rfl⟩

/-- The file is what it was if and only if the stores are: stores that got lighter are others. -/
theorem Follows.at?_eq_iff {d₀ : Disk} {s₀ s : Stores} (h : Follows path d₀ s₀ d s)
    (h₀ : storesAt d₀ path = .ok s₀) : d.at? path = d₀.at? path ↔ s = s₀ := by
  constructor
  · intro hat
    have hstores := storesAt_congr hat h.refusal
    rw [h.stores, h₀] at hstores
    exact Except.ok.inj hstores
  · intro hs
    rcases h.file with ⟨-, hat⟩ | ⟨hlighter, -⟩
    · exact hat
    · rw [hs] at hlighter
      exact absurd hlighter (Nat.lt_irrefl _)

/-- A run of calls of which none failed began with stores that could be loaded. -/
theorem exists_storesAt {calls : List (Nat × Deletion)} {rs : List Report} (hne : calls ≠ [])
    (hrun : (Snapshot.updateAll Disk.files path calls : StateM Disk _).run d = (rs.map .ok, d')) :
    ∃ s, storesAt d path = .ok s := by
  cases calls with
  | nil => exact absurd rfl hne
  | cons call calls =>
    rw [Snapshot.updateAll, List.mapM_cons] at hrun
    obtain ⟨result, next, hfirst, hrun⟩ := exists_of_run_bind hrun
    obtain ⟨results, last, hrest, hrun⟩ := exists_of_run_bind hrun
    cases rs with
    | nil => cases hrun
    | cons r rs =>
      cases hrun
      obtain ⟨s, hs, -⟩ := update_ok hfirst
      exact ⟨s, hs⟩

/-- A disk with nothing but a snapshot file. -/
def diskOf (s : Stores) : Disk :=
  { entries := [(⟨.above 0, ["cache.json"]⟩, .file (ofStores s).bytes)] }

theorem update_diskOf {patch : Stores → Report × Stores} {s after : Stores} {report : Report}
    (hs : s.Storable) (hpatch : patch s = (report, after)) (hsame : after.same s = false) :
    (update Disk.files 7 "cache.json" (fun s => pure (patch s)) : StateM Disk _).run (diskOf s) =
      (.ok report, diskOf after) := by
  let disk (contents : List UInt8) (others : List (Path.Location × Node)) : Disk :=
    { entries := (⟨.above 0, ["cache.json"]⟩, .file contents) :: others }
  let held : List (Path.Location × Node) :=
    [(⟨.above 0, ["cache.json.lock"]⟩, .file (Text.bytes ['7', '\n']))]
  have hlock : ∀ contents, (lock Disk.files 7 "cache.json" : StateM Disk _).run (disk contents []) =
      (.ok (), disk contents held) := fun _ => rfl
  have hat : ∀ contents, (disk contents held).at? "cache.json" = some (.file contents) :=
    fun _ => rfl
  have hreplace : ∀ old new, (replace Disk.files 7 "cache.json" new : StateM Disk _).run
      (disk old held) = (.ok (), disk new held) := fun _ _ => rfl
  have hremove : ∀ contents, (disk contents held).remove (lockPath "cache.json") =
      .ok (disk contents []) := fun _ => rfl
  have hafter : (patch s).2 = after := congrArg Prod.snd hpatch
  have hupdate := update_run patch (hlock _) (storesAt_file (hat _) rfl hs) (by rwa [hafter])
    (hreplace _ _) (hremove _)
  rw [hpatch] at hupdate
  exact hupdate

/-- Stores that differ are not written to one file. -/
theorem at?_diskOf_ne {s t : Stores} (hs : s.Storable) (ht : t.Storable) (h : s ≠ t) :
    (diskOf s).at? "cache.json" ≠ (diskOf t).at? "cache.json" := by
  intro hsame
  have hstores : storesAt (diskOf s) "cache.json" = storesAt (diskOf t) "cache.json" :=
    storesAt_congr hsame rfl
  rw [storesAt_file (s := s) rfl rfl hs, storesAt_file (s := t) rfl rfl ht] at hstores
  exact h (Except.ok.inj hstores)

/-- A run of patches on a snapshot file, none of which failed, leaves the stores that the same
patches make of the stores before, with the same reports.  The file is what it was if and only if
these stores are, and otherwise the text of the stores after.  The system need only give back the
numbers that it writes. -/
theorem updateAll_eq_reconcileAll {calls : List (Nat × Deletion)} {rs : List Report}
    (hnumbers : ∀ s, storesAt d path = .ok s →
      ∀ r ∈ s.resources, ∀ m ∈ r.extra.members, m.2.NumbersReadBack)
    (hrun : (Snapshot.updateAll Disk.files path calls : StateM Disk _).run d = (rs.map .ok, d')) :
    (calls ≠ [] → ∃ s, storesAt d path = .ok s) ∧
      (∀ s, storesAt d path = .ok s → rs = reports (calls.map (·.2)) s) ∧
      storesAt d' path = (storesAt d path).map (reconcileAll (calls.map (·.2))) ∧
      (d'.at? path = d.at? path ↔ storesAt d' path = storesAt d path) ∧
      ∀ s, storesAt d' path = .ok s → storesAt d path ≠ .ok s →
        d'.at? path = some (.file (ofStores s).bytes) := by
  refine ⟨fun hne => exists_storesAt hne hrun, ?_⟩
  cases hstores : storesAt d path with
  | error failure =>
    -- nothing was called, so the disk is the same
    cases calls with
    | cons call calls =>
      obtain ⟨s, hs⟩ := exists_storesAt (List.cons_ne_nil call calls) hrun
      rw [hstores] at hs
      cases hs
    | nil =>
      obtain ⟨-, rfl⟩ := Prod.mk.inj hrun
      refine ⟨fun s hs => (by cases hs), hstores, ⟨fun _ => hstores, fun _ => rfl⟩, ?_⟩
      intro s hs
      rw [hstores] at hs
      cases hs
  | ok s =>
    obtain ⟨hreports, hlast⟩ := (follows_start hstores (hnumbers s hstores)).updateAll hrun
    refine ⟨?_, hlast.stores, ?_, ?_⟩
    · intro t ht
      cases ht
      exact hreports
    · rw [hlast.at?_eq_iff hstores, hlast.stores, Except.ok.injEq]
    · intro t ht hne
      obtain rfl := Except.ok.inj (hlast.stores.symm.trans ht)
      rcases hlast.file with ⟨hsame, -⟩ | ⟨-, hat⟩
      · exact absurd (congrArg Except.ok hsame.symm) hne
      · exact hat

/-- Two deletes that take the two resources out of a file, one after the other. -/
theorem updateAll_both_items :
    let delete (name : String) : Deletion :=
      { origin := .results, text := "", resource := { name, kind := "Pod" } }
    let found (names : List String) : Stores :=
      { items := Store.empty.insert (.items {})
          (.items (names.map fun name => { name, kind := "Pod" })) }
    let calls := [(7, delete "a"), (7, delete "b")]
    ∃ (rs : List Report) (d' : Disk),
      (Snapshot.updateAll Disk.files "cache.json" calls : StateM Disk _).run
        (diskOf (found ["a", "b"])) = (rs.map .ok, d') ∧
      storesAt d' "cache.json" = .ok (found []) ∧
      d'.at? "cache.json" = some (.file (ofStores (found [])).bytes) := by
  intro delete found calls
  have hbare : ∀ names, ∀ r ∈ (found names).resources, r.extra.members = [] := by
    intro names r hr
    have hresources : (found names).resources =
        names.map (fun name => { name, kind := "Pod" }) ++ [] := rfl
    rw [hresources, List.append_nil] at hr
    obtain ⟨name, -, rfl⟩ := List.mem_map.mp hr
    rfl
  have hstorable : ∀ names, (found names).Storable := fun names =>
    Stores.storable_of_bare (hbare names)
  let report : Report := { items := some (.patched 1) }
  have ha : reconcile (delete "a") (found ["a", "b"]) = (report, found ["b"]) := rfl
  have hb : reconcile (delete "b") (found ["b"]) = (report, found []) := rfl
  have hfirst := update_diskOf (hstorable ["a", "b"]) ha rfl
  have hsecond := update_diskOf (hstorable ["b"]) hb rfl
  have hrun := updateAll_cons hfirst (updateAll_cons hsecond (updateAll_nil _ _))
  have hstart : storesAt (diskOf (found ["a", "b"])) "cache.json" = .ok (found ["a", "b"]) :=
    storesAt_file rfl rfl (hstorable _)
  have hnumbers : ∀ s, storesAt (diskOf (found ["a", "b"])) "cache.json" = .ok s →
      ∀ r ∈ s.resources, ∀ m ∈ r.extra.members, m.2.NumbersReadBack := by
    intro s hs r hr m hm
    obtain rfl := Except.ok.inj (hstart.symm.trans hs)
    rw [hbare _ r hr] at hm
    cases hm
  obtain ⟨-, -, hstores, -, hfile⟩ := updateAll_eq_reconcileAll hnumbers hrun
  have hall : reconcileAll (calls.map (·.2)) (found ["a", "b"]) = found [] := by
    show (reconcile (delete "b") (reconcile (delete "a") (found ["a", "b"])).2).2 = found []
    rw [ha, hb]
  rw [hstart] at hstores
  replace hstores : storesAt (diskOf (found [])) "cache.json" = .ok (found []) :=
    hstores.trans (congrArg Except.ok hall)
  have hne : (found ["a", "b"]).weight ≠ (found []).weight := by
    decide
  refine ⟨_, _, hrun, hstores, hfile _ hstores ?_⟩
  intro heq
  exact hne (congrArg Stores.weight (Except.ok.inj (hstart.symm.trans heq)))

end Snapshot
end Cache
end ResourceSearch
