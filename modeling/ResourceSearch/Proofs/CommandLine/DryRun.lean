import ResourceSearch.Proofs.CommandLine.Flags
import ResourceSearch.Proofs.CommandLine.Reconciling

/-!
What a dry run foretells.  A dry run and the command without it read the same settings, the same
request and the same stores (`plan`).  So a dry run answers with the report of a command that comes
out well, and what fails in it fails in the command (`dryRun_foretells`).
-/

namespace ResourceSearch

theorem Failure.code_ne (failure : Failure) : failure.exitCode.code ≠ 0 := by
  cases failure <;> exact Nat.succ_ne_zero _

namespace Cache
namespace Snapshot

variable {d before : Disk} {process : Nat} {path : String}

/-- Under a lock that was taken, the outcome is that of what was to be done. -/
theorem locked_fst {α : Type} (act : StateM Disk (Except Failure α))
    (hlock : (lock Disk.files process path : StateM Disk _).run d = (.ok (), before)) :
    ((locked Disk.files process path act).run d).1 = (act.run before).1 := by
  simp only [locked, StateT.run_bind, hlock]
  rfl

/-- Taking the lock leaves the stores as they are. -/
theorem storesAt_lock
    (hlock : (lock Disk.files process path : StateM Disk _).run d = (.ok (), before)) :
    storesAt before path = storesAt d path := by
  obtain ⟨contents, hcreate⟩ := lock_ok hlock
  exact storesAt_congr (at?_lock hcreate) (Disk.create_refusal hcreate)

/-- Where the lock can be taken, stores that cannot be loaded are the failure of a patch. -/
theorem update_fst_error {α : Type} (patch : Stores → α × Stores) {failure : Failure}
    (hlock : (lock Disk.files process path : StateM Disk _).run d = (.ok (), before))
    (hstores : storesAt d path = .error failure) :
    ((update Disk.files process path (fun s => pure (patch s)) : StateM Disk _).run d).1 =
      .error failure := by
  rw [← storesAt_lock hlock, storesAt_eq] at hstores
  rw [update, locked_fst _ hlock]
  cases hopened : orEmpty path (before.permit (.read path)) (before.at? path) with
  | ok s =>
    rw [hopened] at hstores
    cases hstores
  | error other =>
    rw [hopened] at hstores
    cases hstores
    simp only [StateT.run_bind, loadOrEmpty_run, hopened]
    rfl

end Snapshot
end Cache

namespace CommandLine

open Cache

variable {d : Disk} {process : Nat} {usual? : Option String} {c : Config} {o : Options}
  {r : ReconcileRequest} {words : List String}

/-! ## What a request comes to -/

/-- The file and the report that a request to patch comes to, unless something keeps it from
writing. -/
def plan (d : Disk) (r : ReconcileRequest) (c : Config) : Except Failure (String × Report) :=
  (resolve r c).bind fun (path, deletion) =>
    (Snapshot.storesAt d path).map fun s => (path, (reconcile deletion s).1)

theorem exists_of_plan_ok {path : String} {report : Report} (h : plan d r c = .ok (path, report)) :
    path ∈ r.cache?.or c.cachePath? ∧ ∃ deletion s, Snapshot.storesAt d path = .ok s ∧
      report = (reconcile deletion s).1 := by
  obtain ⟨⟨path, deletion⟩, hresolve, h⟩ := exists_of_bind_ok h
  obtain ⟨s, hs, heq⟩ := exists_of_map_ok h
  cases heq
  exact ⟨resolve_path hresolve, deletion, s, hs, rfl⟩

theorem run_fst (hwords : parse? words = some (.run o (.reconcile r))) :
    ((run Disk.files process usual? words : StateM Disk _).run d).1 =
      shown o (((settings Disk.files usual? o : StateM Disk _).run d).1.bind fun c =>
        ((reconcileFile Disk.files process c r : StateM Disk _).run d).1) := by
  rw [run_eq hwords]
  cases ((settings Disk.files usual? o : StateM Disk _).run d).1 <;> rfl

section Resolve

variable {path : String} {deletion : Deletion} {failure : Failure}

theorem plan_unresolved (h : resolve r c = .error failure) : plan d r c = .error failure := by
  rw [plan, h]
  rfl

theorem plan_resolved (h : resolve r c = .ok (path, deletion)) :
    plan d r c = (Snapshot.storesAt d path).map fun s => (path, (reconcile deletion s).1) := by
  rw [plan, h]
  rfl

end Resolve

/-- A dry run answers with what was planned. -/
theorem reconcileFile_eq_plan (hdry : r.dryRun = true) :
    ((reconcileFile Disk.files process c r : StateM Disk _).run d).1 =
      (plan d r c).map fun (path, report) => ⟨dryRunAnswer path report, none⟩ := by
  cases hresolve : resolve r c with
  | error failure =>
    rw [reconcileFile_unresolved hresolve, plan_unresolved hresolve]
    rfl
  | ok target =>
    rw [reconcileFile_dry hresolve hdry, plan_resolved hresolve]
    dsimp only
    cases Snapshot.storesAt d target.1 <;> rfl

/-- A request that is carried out comes to what was planned. -/
theorem plan_of_ok {a : Answer} (hwet : r.dryRun = false)
    (h : ((reconcileFile Disk.files process c r : StateM Disk _).run d).1 = .ok a) :
    ∃ path report, plan d r c = .ok (path, report) ∧
      a = ⟨reconcileAnswer path r.origin report, some ("Reconciled " ++ path)⟩ := by
  cases hresolve : resolve r c with
  | error failure =>
    rw [reconcileFile_unresolved hresolve] at h
    cases h
  | ok target =>
    obtain ⟨path, deletion⟩ := target
    rw [reconcileFile_wet hresolve hwet (Prod.eta _).symm] at h
    obtain ⟨report, hreport, rfl⟩ := exists_of_map_ok h
    obtain ⟨s, hs, rfl, -⟩ := Snapshot.update_ok (Prod.ext hreport rfl)
    refine ⟨path, _, ?_, rfl⟩
    rw [plan_resolved hresolve, hs]
    rfl

/-- Where the lock can be taken, a request that cannot be planned fails as the plan does. -/
theorem reconcileFile_of_plan_error {failure : Failure} (hwet : r.dryRun = false)
    (hlock : ∀ path ∈ r.cache?.or c.cachePath?,
      ((Snapshot.lock Disk.files process path : StateM Disk _).run d).1 = .ok ())
    (h : plan d r c = .error failure) :
    ((reconcileFile Disk.files process c r : StateM Disk _).run d).1 = .error failure := by
  cases hresolve : resolve r c with
  | error other =>
    cases (plan_unresolved hresolve).symm.trans h
    rw [reconcileFile_unresolved hresolve]
  | ok target =>
    obtain ⟨path, deletion⟩ := target
    have hlocked := hlock path (resolve_path hresolve)
    rw [plan_resolved hresolve] at h
    cases hstores : Snapshot.storesAt d path with
    | ok s =>
      rw [hstores] at h
      cases h
    | error other =>
      rw [hstores] at h
      cases h
      rw [reconcileFile_wet hresolve hwet (Prod.eta _).symm,
        Snapshot.update_fst_error (reconcile deletion) (Prod.ext hlocked rfl) hstores]
      rfl

/-! ## Printing -/

theorem printed_stdout {a : Answer} {text : String} (h : o.format.render a.value = .ok text) :
    (printed o a).stdout = text ++ "\n" := by
  simp only [printed, h]

/-- A command line that ends with 0 has printed an answer. -/
theorem exists_of_shown_code {result : Except Failure Answer} (h : (shown o result).code = 0) :
    ∃ a text, result = .ok a ∧ o.format.render a.value = .ok text := by
  cases result with
  | error failure => exact absurd h failure.code_ne
  | ok a =>
    cases hrender : o.format.render a.value with
    | ok text => exact ⟨a, text, rfl, hrender⟩
    | error failure =>
      simp only [shown, printed, hrender] at h
      exact absurd h failure.code_ne

/-- A format that can print what came of a command can print what was foretold of it. -/
theorem render_dryRunAnswer_of_render {f : Format} {report : Report} {path text : String}
    {origin : Cache.Origin} (h : f.render (reconcileAnswer path origin report) = .ok text) :
    ∃ text, f.render (dryRunAnswer path report) = .ok text := by
  refine f.render_object fun htoml m hm => ?_
  have hreport : Toml.obstacle? report.toJson = none := by
    subst htoml
    cases hobstacle : Toml.obstacle? report.toJson with
    | none => rfl
    | some o =>
      simp [Format.render, Toml.print, reconcileAnswer, Toml.obstacle?, Toml.obstacleAmong?,
        hobstacle] at h
  simp only [List.mem_cons, List.not_mem_nil, or_false] at hm
  rcases hm with rfl | rfl | rfl
  · exact Toml.obstacle?_string _
  · exact Toml.obstacle?_string _
  · exact hreport

/-! ## The command with and without the option -/

section Run

variable {dryWords : List String} {other : Nat}
  (hwords : parse? words = some (.run o (.reconcile r)))
  (hwet : r.dryRun = false)
  (hdry : parse? dryWords = some (.run o (.reconcile { r with dryRun := true })))

include hdry

theorem dryRun_fst (hsettings : ((settings Disk.files usual? o : StateM Disk _).run d).1 = .ok c) :
    ((run Disk.files other usual? dryWords : StateM Disk _).run d).1 =
      shown o ((plan d r c).map fun (path, report) => ⟨dryRunAnswer path report, none⟩) := by
  rw [run_fst hdry, hsettings]
  exact congrArg (shown o) (reconcileFile_eq_plan rfl)

include hwords hwet

/-- What a command that came out well has reported, a dry run reports too. -/
theorem dryRun_of_success
    (hcode : ((run Disk.files process usual? words : StateM Disk _).run d).1.code = 0) :
    ((run Disk.files other usual? dryWords : StateM Disk _).run d).1.code = 0 ∧
      ∃ path report text foretold,
        o.format.render (reconcileAnswer path r.origin report) = .ok text ∧
        o.format.render (dryRunAnswer path report) = .ok foretold ∧
        ((run Disk.files process usual? words : StateM Disk _).run d).1.stdout = text ++ "\n" ∧
        ((run Disk.files other usual? dryWords : StateM Disk _).run d).1.stdout =
          foretold ++ "\n" := by
  rw [run_fst hwords] at hcode ⊢
  obtain ⟨a, text, hresult, hrender⟩ := exists_of_shown_code hcode
  obtain ⟨c, hsettings, hreconcile⟩ := exists_of_bind_ok hresult
  obtain ⟨path, report, hplan, rfl⟩ := plan_of_ok hwet hreconcile
  obtain ⟨foretold, hforetold⟩ := render_dryRunAnswer_of_render hrender
  rw [hresult, dryRun_fst hdry hsettings, hplan]
  exact ⟨printed_code ⟨foretold, hforetold⟩, path, report, text, foretold, hrender, hforetold,
    printed_stdout hrender, printed_stdout hforetold⟩

/-- A dry run that fails shows how the command ends where its lock can be taken. -/
theorem eq_of_dryRun_failure
    (hlisted : o.format = .toml → ∀ path ∈ snapshotPath? d usual? o r, ∀ s,
      Snapshot.storesAt d path = .ok s → s.listed < 2 ^ 63)
    (hlock : ∀ path ∈ snapshotPath? d usual? o r,
      ((Snapshot.lock Disk.files process path : StateM Disk _).run d).1 = .ok ())
    (hcode : ((run Disk.files other usual? dryWords : StateM Disk _).run d).1.code ≠ 0) :
    ((run Disk.files process usual? words : StateM Disk _).run d).1 =
      ((run Disk.files other usual? dryWords : StateM Disk _).run d).1 := by
  cases hsettings : ((settings Disk.files usual? o : StateM Disk _).run d).1 with
  | error failure =>
    rw [run_fst hwords, run_fst hdry, hsettings]
    simp only [Except.bind]
  | ok c =>
    simp only [snapshotPath?, hsettings] at hlisted hlock
    rw [run_fst hwords, hsettings]
    rw [dryRun_fst hdry hsettings] at hcode ⊢
    cases hplan : plan d r c with
    | error failure =>
      exact congrArg (shown o) (reconcileFile_of_plan_error hwet hlock hplan)
    | ok planned =>
      -- a plan can be printed, so this dry run would not have failed
      obtain ⟨path, report⟩ := planned
      obtain ⟨hpath, deletion, s, hs, rfl⟩ := exists_of_plan_ok hplan
      have hsay : o.format.CanSay (reconcile deletion s).1 :=
        canSay_reconcile fun htoml => hlisted htoml path hpath s hs
      rw [hplan] at hcode
      exact absurd (printed_code (render_dryRunAnswer hsay path)) hcode

end Run

/-- A dry run foretells the command without it, on any disk.  One more word makes a command a dry
run, and whatever else asks for the same dry run will do.  If the command comes out well, so does
the dry run, with the same report; if the dry run fails, so does the command.  The command then ends
in just the same way where its lock can be taken, as long as TOML is not asked to say a number that
it does not have, which takes a list longer than any memory. -/
theorem dryRun_foretells (d : Disk) (process : Nat) (usual? : Option String)
    (hwords : parse? words = some (.run o (.reconcile r))) (hwet : r.dryRun = false) :
    (∃ front rest, words = front ++ "reconcile" :: rest ∧
      parse? (front ++ "reconcile" :: "--dry-run" :: rest) =
        some (.run o (.reconcile { r with dryRun := true }))) ∧
    ∀ dryWords other, parse? dryWords = some (.run o (.reconcile { r with dryRun := true })) →
      let real := ((run Disk.files process usual? words : StateM Disk _).run d).1
      let dry := ((run Disk.files other usual? dryWords : StateM Disk _).run d).1
      (real.code = 0 → dry.code = 0 ∧ ∃ path report text foretold,
        o.format.render (reconcileAnswer path r.origin report) = .ok text ∧
        o.format.render (dryRunAnswer path report) = .ok foretold ∧
        real.stdout = text ++ "\n" ∧ dry.stdout = foretold ++ "\n") ∧
      (dry.code ≠ 0 → real.code ≠ 0) ∧
      ((o.format = .toml → ∀ path ∈ snapshotPath? d usual? o r, ∀ s,
          Snapshot.storesAt d path = .ok s → s.listed < 2 ^ 63) →
        (∀ path ∈ snapshotPath? d usual? o r,
          ((Snapshot.lock Disk.files process path : StateM Disk _).run d).1 = .ok ()) →
        dry.code ≠ 0 → real = dry) := by
  refine ⟨parse?_dryRun hwords hwet, fun dryWords other hdry => ?_⟩
  refine ⟨dryRun_of_success hwords hwet hdry, ?_, eq_of_dryRun_failure hwords hwet hdry⟩
  exact fun hfailed hcode => hfailed (dryRun_of_success hwords hwet hdry hcode).1

/-- A dry run of a command on a snapshot that is missing, and on one that is a folder. -/
theorem dryRun_foretells_missing_and_folder :
    let rest := ["--cache", "cache.json", "--resource", "\x7b\"name\":\"a\",\"kind\":\"Pod\"\x7d"]
    let real (d : Disk) := ((run Disk.files 7 none ("reconcile" :: rest) : StateM Disk _).run d).1
    let dry (d : Disk) :=
      ((run Disk.files 8 none ("reconcile" :: "--dry-run" :: rest) : StateM Disk _).run d).1
    let folder : Disk := { entries := [(⟨.above 0, ["cache.json"]⟩, .folder)] }
    ((real {}).code = 0 ∧ (dry {}).code = 0 ∧ ∃ path report text foretold,
      Format.json.render (reconcileAnswer path .results report) = .ok text ∧
      Format.json.render (dryRunAnswer path report) = .ok foretold ∧
      (real {}).stdout = text ++ "\n" ∧ (dry {}).stdout = foretold ++ "\n") ∧
    (dry folder).code ≠ 0 ∧ real folder = dry folder := by
  intro rest real dry folder
  let request : ReconcileRequest :=
    { cache? := some "cache.json", resource := "\x7b\"name\":\"a\",\"kind\":\"Pod\"\x7d" }
  have hwords : parse? ("reconcile" :: rest) = some (.run {} (.reconcile request)) := by
    decide +kernel
  have hdry : parse? ("reconcile" :: "--dry-run" :: rest) =
      some (.run {} (.reconcile { request with dryRun := true })) := by
    decide +kernel
  obtain ⟨hsuccess, -, -⟩ := (dryRun_foretells {} 7 none hwords rfl).2 _ 8 hdry
  obtain ⟨-, -, hfailure⟩ := (dryRun_foretells folder 7 none hwords rfl).2 _ 8 hdry
  have hcode : (real {}).code = 0 := by decide +kernel
  have hfailed : (dry folder).code ≠ 0 := by decide +kernel
  refine ⟨⟨hcode, hsuccess hcode⟩, hfailed, hfailure (fun h => by cases h) ?_ hfailed⟩
  intro path hpath
  cases hpath
  rfl

end CommandLine
end ResourceSearch
