import ResourceSearch.Proofs.Cache.Finding
import ResourceSearch.Proofs.Cache.Listed
import ResourceSearch.Proofs.Cache.Replacing
import ResourceSearch.Proofs.Dialog.History

/-!
The stores of a page from its start on.  They start empty; searches fill them, deletes patch them,
and at any time they may be saved and loaded again.  Nothing in the types says that a key has an
answer of the kind that it asks for, but every step keeps it so (`Session.Holds.performed`), and no
step but a search that succeeds brings a key into a store.  So no delete ever meets an answer of
another kind, and it misses exactly the keys that were never fetched (`run_wellTyped`).
-/

namespace ResourceSearch
namespace Cache

/-- Every answer is of the kind that its key asks for. -/
def Store.WellTyped (s : Store) : Prop :=
  ∀ key entry, s.get? key = some entry → entry.document = key.document

/-- An answer that a file can hold: the further properties of its resources have names of their own,
are not nested too deep, and hold numbers that their text gives back. -/
def Entry.ReadsBack (e : Entry) : Prop :=
  ∀ r ∈ e.resources, ∀ m ∈ r.extra.members,
    m.1 ∉ Resource.ownNames ∧ m.2.depth ≤ 100 ∧ m.2.NumbersReadBack

/-- Saves two stores and loads what was saved. -/
def Snapshot.reload {m : Type → Type} [Monad m] (files : Files m) (process : Nat) (path : String)
    (s : Stores) : m (Except Failure Stores) := do
  match ← save files process path (ofStores s) with
  | .error failure => return .error failure
  | .ok () => return (← load files path).map stores

/-- One of the two stores of a page. -/
inductive Side where
  | items
  | related
  deriving DecidableEq, Repr

namespace Stores

def get (s : Stores) : Side → Store
  | .items => s.items
  | .related => s.related

def set (s : Stores) (store : Store) : Side → Stores
  | .items => { s with items := store }
  | .related => { s with related := store }

theorem get_set (s : Stores) (store : Store) (side other : Side) :
    (s.set store side).get other = if other = side then store else s.get other := by
  cases side <;> cases other <;> rfl

theorem set_get (s : Stores) (side : Side) : s.set (s.get side) side = s := by
  cases side <;> rfl

end Stores

namespace Session

/-- What can happen to the stores of a page, with what the outside is like at that time. -/
inductive Operation where
  | fetch (side : Side) (key : Key) (service : SearchService Id)
  | reconcile (deletion : Deletion)
  | complete (dialog : Dialog) (answer : Except String Unit) (rule : MatchRule)
  /-- The stores are saved and loaded in place of themselves, if both comes out well. -/
  | reload (disk : Disk) (process : Nat) (path : String)

def perform (s : Stores) : Operation → Stores
  | .fetch side key service => s.set (service.fetchResults key (s.get side)).run.2 side
  | .reconcile deletion => (Cache.reconcile deletion s).2
  | .complete dialog answer rule => (dialog.complete answer rule s).2.2
  | .reload disk process path =>
    ((Snapshot.reload Disk.files process path s : StateM Disk _).run disk).1.toOption.getD s

/-- The stores after some operations, from two empty ones. -/
def run (ops : List Operation) : Stores := ops.foldl perform {}

/-- The key that an operation fetches into a store, if the service answers. -/
def Operation.fetched? (side : Side) : Operation → Option Key
  | .fetch other key service =>
    if other = side ∧ (service.ask key).run.isOk then some key else none
  | _ => none

/-- The keys that some operations have fetched into a store. -/
def fetched (side : Side) (ops : List Operation) : List Key := ops.filterMap (·.fetched? side)

/-- What the service answers can be held by a file. -/
def Operation.ReadsBack : Operation → Prop
  | .fetch _ key service => ∀ entry, (service.ask key).run = .ok entry → entry.ReadsBack
  | _ => True

end Session

/-! ## What keeps the kinds of answers -/

namespace Entry

theorem document_dropItem (e : Entry) (rule : MatchRule) (deleted : Resource) :
    (e.dropItem rule deleted).document = e.document := by
  cases e <;> rfl

theorem document_dropRelated (e : Entry) (rule : MatchRule) (deleted : Resource) :
    (e.dropRelated rule deleted).document = e.document := by
  cases e <;> rfl

theorem document_takeOne (e : Entry) (kind : String) :
    (e.takeOne kind).document = e.document := by
  cases e <;> rfl

theorem ReadsBack.storable {e : Entry} (h : e.ReadsBack) : e.Storable := by
  refine storable_of_resources fun r hr => ⟨fun m hm => (h r hr m hm).1, fun m hm => ?_⟩
  obtain ⟨-, hdepth, hnumbers⟩ := h r hr m hm
  exact ⟨by omega, hnumbers⟩

end Entry

/-- Two stores with the same keys and answers of the same kinds. -/
def Store.SameKinds (s t : Store) : Prop :=
  ∀ key, (t.get? key).map Entry.document = (s.get? key).map Entry.document

namespace Store.SameKinds

theorem refl (s : Store) : s.SameKinds s := fun _ => rfl

theorem trans {s t u : Store} (h : s.SameKinds t) (h' : t.SameKinds u) : s.SameKinds u :=
  fun key => (h' key).trans (h key)

theorem adjust (s : Store) (key : Key) {f : Entry → Entry}
    (hf : ∀ e, (f e).document = e.document) : s.SameKinds (s.adjust key f) := by
  intro other
  rw [get?_adjust]
  split
  · rw [Option.map_map]
    exact congrArg (Option.map · _) (funext hf)
  · rfl

end Store.SameKinds

/-- A delete changes no answer into one of another kind. -/
theorem reconcile_sameKinds (d : Deletion) (s : Stores) (side : Side) :
    (s.get side).SameKinds ((reconcile d s).2.get side) := by
  cases horigin : d.origin with
  | results =>
    rw [reconcile_results horigin]
    cases side with
    | items => exact .adjust _ _ fun e => e.document_dropItem _ _
    | related => exact .refl _
  | related =>
    rw [reconcile_related horigin]
    cases side with
    | items => exact .refl _
    | related =>
      exact (Store.SameKinds.adjust _ _ fun e => e.document_dropRelated _ _).trans
        (.adjust _ _ fun e => e.document_takeOne _)

/-! ## What files give back -/

theorem Stores.Storable.set {s : Stores} (h : s.Storable) {store : Store}
    (hstore : ∀ r ∈ store.records, r.entry.Storable) (side : Side) :
    (s.set store side).Storable := by
  cases side with
  | items => exact ⟨hstore, h.related⟩
  | related => exact ⟨h.items, hstore⟩

theorem Stores.Storable.get {s : Stores} (h : s.Storable) (side : Side) :
    ∀ r ∈ (s.get side).records, r.entry.Storable := by
  cases side with
  | items => exact h.items
  | related => exact h.related

theorem Snapshot.ofBytes_of_ofNode {path : String} {permission : Except FileError Unit}
    {contents : List UInt8} {s : Snapshot}
    (h : ofNode path permission (.file contents) = .ok s) : ofBytes path contents = .ok s := by
  cases permission with
  | error e => cases h
  | ok allowed => exact h

/-- Stores that a file can hold come back from it, if anything does. -/
theorem Snapshot.reload_run {s t : Stores} (h : s.Storable) {d d' : Disk} {process : Nat}
    {path : String}
    (hrun : (reload Disk.files process path s : StateM Disk _).run d = (.ok t, d')) : t = s := by
  obtain ⟨saved, next, hsave, hrun⟩ := exists_of_run_bind hrun
  cases saved with
  | error failure => cases hrun
  | ok done =>
    obtain ⟨hat, -⟩ := save_ok hsave
    obtain ⟨loaded, last, hload, hrun⟩ := exists_of_run_bind hrun
    rw [load_run, hat] at hload
    obtain ⟨hloaded, rfl⟩ := Prod.mk.inj hload
    obtain ⟨hstores, -⟩ := Prod.mk.inj hrun
    obtain ⟨snapshot, rfl, rfl⟩ := exists_of_map_ok hstores
    have hread := ofBytes_of_ofNode hloaded
    rw [ofBytes_ofStores path h] at hread
    rw [← Except.ok.inj hread, stores_ofStores]

namespace Session

variable {past : List Operation} {s t : Stores} {op : Operation}

/-- What holds of the stores after some operations: they have an answer for the keys that were
fetched, of the kind that the key asks for, and for no others. -/
structure Holds (past : List Operation) (s : Stores) : Prop where
  kinds : ∀ side key, ((s.get side).get? key).map Entry.document =
    if key ∈ fetched side past then some key.document else none
  storable : s.Storable

theorem holds_nil : Holds [] {} where
  kinds side key := by cases side <;> rfl
  storable := ⟨fun r hr => (by cases hr), fun r hr => (by cases hr)⟩

theorem mem_fetched_append {side : Side} {key : Key} :
    key ∈ fetched side (past ++ [op]) ↔ key ∈ fetched side past ∨ op.fetched? side = some key := by
  simp [fetched]

/-- An operation that fetches nothing has to keep the kinds of the answers. -/
theorem Holds.kept (h : Holds past s) (hop : ∀ side, op.fetched? side = none)
    (hkinds : ∀ side, (s.get side).SameKinds (t.get side)) (ht : t.Storable) :
    Holds (past ++ [op]) t where
  kinds side key := by
    rw [hkinds, h.kinds]
    simp only [mem_fetched_append, hop, reduceCtorEq, or_false]
  storable := ht

theorem Holds.reconciled (h : Holds past s) (hop : ∀ side, op.fetched? side = none)
    (d : Deletion) : Holds (past ++ [op]) (reconcile d s).2 :=
  h.kept hop (reconcile_sameKinds d s) (h.storable.reconcile d)

theorem Holds.filled (h : Holds past s) {side : Side} {key : Key} {entry : Entry}
    (hop : ∀ other, op.fetched? other = if side = other then some key else none)
    (hkind : entry.document = key.document) (hentry : entry.Storable) :
    Holds (past ++ [op]) (s.set ((s.get side).insert key entry) side) where
  kinds other wanted := by
    have hold := h.kinds other wanted
    simp only [mem_fetched_append, hop, Stores.get_set]
    by_cases hside : other = side
    · subst hside
      rw [if_pos rfl, if_pos rfl, Store.get?_insert]
      by_cases hkey : wanted = key
      · simp [hkey, hkind]
      · simpa [hkey, Ne.symm hkey] using hold
    · simpa [hside, Ne.symm hside] using hold
  storable := by
    refine h.storable.set (fun r hr => ?_) side
    rcases key_of_mem_insertRecord hr with rfl | hr
    · exact hentry
    · exact h.storable.get side r hr

theorem Holds.performed (h : Holds past s) (hop : op.ReadsBack) :
    Holds (past ++ [op]) (perform s op) := by
  have hsame : ∀ side, (s.get side).SameKinds (s.get side) := fun side => .refl _
  cases op with
  | fetch side key service =>
    rw [perform, fetchResults_run]
    cases hask : (service.ask key).run with
    | error message =>
      have hnone : ∀ other, (Operation.fetch side key service).fetched? other = none := by
        intro other
        rw [Operation.fetched?, hask, if_neg fun hok => Bool.false_ne_true hok.2]
      show Holds _ (s.set (s.get side) side)
      rw [s.set_get]
      exact h.kept hnone hsame h.storable
    | ok entry =>
      have hnew : ∀ other, (Operation.fetch side key service).fetched? other =
          if side = other then some key else none := by
        intro other
        simp [Operation.fetched?, hask, Except.isOk, Except.toBool]
      exact h.filled hnew (document_of_ask hask) (hop entry hask).storable
  | reconcile deletion => exact h.reconciled (fun _ => rfl) deletion
  | complete dialog answer rule =>
    rw [perform]
    rcases dialog.complete_cases answer rule s with ⟨-, hresult⟩ | ⟨_, -, -, hresult⟩ |
      ⟨-, -, hresult⟩
    · rw [hresult]
      exact h.kept (fun _ => rfl) hsame h.storable
    · rw [hresult]
      exact h.kept (fun _ => rfl) hsame h.storable
    · rw [hresult]
      exact h.reconciled (fun _ => rfl) _
  | reload disk process path =>
    have hstores : perform s (.reload disk process path) = s := by
      rw [perform]
      generalize hrun : (Snapshot.reload Disk.files process path s : StateM Disk _).run disk = out
      obtain ⟨result, after⟩ := out
      cases result with
      | error failure => rfl
      | ok t => exact Snapshot.reload_run h.storable hrun
    rw [hstores]
    exact h.kept (fun _ => rfl) hsame h.storable

theorem run_holds {ops : List Operation} (hops : ∀ op ∈ ops, op.ReadsBack) :
    Holds ops (run ops) := by
  have hrun : ∀ {past : List Operation} {s : Stores}, Holds past s →
      Holds (past ++ ops) (ops.foldl perform s) := by
    induction ops with
    | nil =>
      intro past s h
      rwa [List.append_nil]
    | cons op rest ih =>
      intro past s h
      have hrest := ih (fun o ho => hops o (List.mem_cons_of_mem op ho))
        (h.performed (hops op List.mem_cons_self))
      rwa [List.append_assoc] at hrest
  exact hrun holds_nil

/-! ## Deletes in a session -/

theorem Holds.wellTyped (h : Holds past s) (side : Side) : (s.get side).WellTyped := by
  intro key entry hentry
  have hkind := h.kinds side key
  rw [hentry, Option.map_some] at hkind
  split at hkind
  · exact Option.some.inj hkind
  · cases hkind

theorem Holds.get?_eq_none (h : Holds past s) (side : Side) (key : Key) :
    (s.get side).get? key = none ↔ key ∉ fetched side past := by
  rw [← Option.map_eq_none_iff, h.kinds]
  simp

/-- A step of patching finds no answer of another kind, and misses what was never fetched. -/
theorem Holds.edits (h : Holds past s) (side : Side) (key : Key) {o : Outcome}
    {change : Entry → Entry → Nat → Prop} {after : Option Entry}
    (hedits : Edits key.document change ((s.get side).get? key) o after) :
    o ≠ .mismatch ∧ (o = .miss ↔ key ∉ Session.fetched side past) := by
  refine ⟨fun hmismatch => ?_, hedits.miss_iff.trans (h.get?_eq_none side key)⟩
  obtain ⟨e, he, hother⟩ := hedits.mismatch_iff.mp hmismatch
  exact hother (h.wellTyped side key e he)

theorem Holds.results (h : Holds past s) {d : Deletion} (horigin : d.origin = .results) :
    ∃ step, (Cache.reconcile d s).1 = { items := some step } ∧ step ≠ .mismatch ∧
      (step = .miss ↔ Key.items (Query.compile d.text) ∉ Session.fetched .items past) := by
  obtain ⟨step, hreport, hedits⟩ := reconcile_results_edits horigin s
  exact ⟨step, hreport, h.edits .items (.items _) hedits⟩

theorem Holds.related (h : Holds past s) {d : Deletion} (horigin : d.origin = .related) :
    ∃ first second,
      (Cache.reconcile d s).1 = { relatedItems := some first, relatedCount := some second } ∧
      (first ≠ .mismatch ∧ (first = .miss ↔
        Key.relatedItems (Query.compile d.text) d.resource.kind ∉ Session.fetched .related past)) ∧
      (second ≠ .mismatch ∧ (second = .miss ↔
        Key.relatedCount (Query.compile d.text) ∉ Session.fetched .related past)) := by
  obtain ⟨first, second, hreport, hfirst, hsecond⟩ := reconcile_related_edits horigin s
  exact ⟨first, second, hreport, h.edits .related (.relatedItems _ _) hfirst,
    h.edits .related (.relatedCount _) hsecond⟩

theorem Holds.mismatch_not_mem (h : Holds past s) (d : Deletion) :
    Outcome.mismatch ∉ (Cache.reconcile d s).1.steps := by
  cases horigin : d.origin with
  | results =>
    obtain ⟨step, hreport, hstep, -⟩ := h.results horigin
    rw [hreport]
    simpa [Report.steps] using hstep.symm
  | related =>
    obtain ⟨first, second, hreport, ⟨hfirst, -⟩, hsecond, -⟩ := h.related horigin
    rw [hreport]
    simpa [Report.steps] using ⟨hfirst.symm, hsecond.symm⟩

theorem Holds.miss_iff (h : Holds past s) (d : Deletion) :
    let query := Query.compile d.text
    let report := (Cache.reconcile d s).1
    match d.origin with
    | .results => report.items = some .miss ↔ Key.items query ∉ Session.fetched .items past
    | .related =>
      (report.relatedItems = some .miss ↔
        Key.relatedItems query d.resource.kind ∉ Session.fetched .related past) ∧
      (report.relatedCount = some .miss ↔
        Key.relatedCount query ∉ Session.fetched .related past) := by
  cases horigin : d.origin with
  | results =>
    obtain ⟨step, hreport, -, hmiss⟩ := h.results horigin
    simpa [hreport] using hmiss
  | related =>
    obtain ⟨first, second, hreport, ⟨-, hfirst⟩, -, hsecond⟩ := h.related horigin
    simpa [hreport] using And.intro hfirst hsecond

/-- A dialog that comes to its end reports what the delete did. -/
theorem report_of_complete {dialog : Dialog} {answer : Except String Unit} {rule : MatchRule}
    {report : Report} (h : (dialog.complete answer rule s).1 = .ok report) :
    report = (Cache.reconcile (dialog.deletion rule) s).1 := by
  rcases dialog.complete_cases answer rule s with ⟨-, hresult⟩ | ⟨_, -, -, hresult⟩ |
    ⟨-, -, hresult⟩
  · rw [hresult] at h
    cases h
  · rw [hresult] at h
    cases h
  · rw [hresult] at h
    exact (Except.ok.inj h).symm

theorem perform_fetch_error {side : Side} {key : Key} {service : SearchService Id} {alert : Alert}
    (h : (service.fetchResults key (s.get side)).run.1 = .error alert) :
    perform s (.fetch side key service) = s := by
  rw [fetchResults_run] at h
  rw [perform, fetchResults_run]
  cases hask : (service.ask key).run with
  | error message =>
    show s.set (s.get side) side = s
    exact s.set_get side
  | ok entry =>
    rw [hask] at h
    cases h

/-- Whatever has happened to the stores of a page, their answers are of the kinds that their keys
ask for.  The next delete meets no answer of another kind, and misses exactly what was never
fetched; the end of a dialog is such a delete; and the next search that fails changes nothing. -/
theorem run_wellTyped {ops : List Operation} (hops : ∀ op ∈ ops, op.ReadsBack) :
    let s := run ops
    (∀ side, (s.get side).WellTyped) ∧
      (∀ d : Deletion, Outcome.mismatch ∉ (Cache.reconcile d s).1.steps) ∧
      (∀ d : Deletion,
        let query := Query.compile d.text
        let report := (Cache.reconcile d s).1
        match d.origin with
        | .results => report.items = some .miss ↔ Key.items query ∉ fetched .items ops
        | .related =>
          (report.relatedItems = some .miss ↔
            Key.relatedItems query d.resource.kind ∉ fetched .related ops) ∧
          (report.relatedCount = some .miss ↔ Key.relatedCount query ∉ fetched .related ops)) ∧
      (∀ (dialog : Dialog) answer rule report, (dialog.complete answer rule s).1 = .ok report →
        report = (Cache.reconcile (dialog.deletion rule) s).1) ∧
      ∀ side key service alert,
        (SearchService.fetchResults service key (s.get side)).run.1 = .error alert →
        perform s (.fetch side key service) = s := by
  intro s
  have h : Holds ops s := run_holds hops
  exact ⟨h.wellTyped, h.mismatch_not_mem, h.miss_iff, fun _ _ _ _ => report_of_complete,
    fun _ _ _ _ => perform_fetch_error⟩

/-- Related resources are fetched and their count is not; the stores are saved and loaded.  The
delete of one of the resources then finds them and misses the count. -/
theorem run_wellTyped_count_failed :
    let ports := Json.array [.object [("port", Json.count 8080)], .null]
    let pod : Resource :=
      { name := "a", kind := "Pod", extra := Properties.ofMembers [("ports", ports)] }
    let service : SearchService Id := {
      schema := .ok []
      complete := fun _ _ => .ok []
      items := fun _ => .error "timeout"
      relatedItems := fun _ => .ok [⟨"Pod", [pod]⟩]
      relatedCount := fun _ => .error "timeout" }
    let ops : List Operation := [
      .fetch .related (.relatedItems {} "Pod") service, .fetch .related (.relatedCount {}) service,
      .reload {} 7 "cache.json"]
    let report := (Cache.reconcile { origin := .related, text := "", resource := pod } (run ops)).1
    (∀ op ∈ ops, op.ReadsBack) ∧ .mismatch ∉ report.steps ∧ report.relatedItems ≠ some .miss ∧
      report.relatedCount = some .miss := by
  intro ports pod service ops report
  have hmembers : pod.extra.members = [("ports", ports)] := rfl
  have hnumber : ports.NumbersReadBack :=
    ⟨⟨Json.readsBack_integer _ _, trivial⟩, trivial, trivial⟩
  have hpod : (Entry.relatedItems [⟨"Pod", [pod]⟩]).ReadsBack := by
    intro r hr m hm
    obtain rfl : r = pod := List.mem_singleton.mp hr
    rw [hmembers] at hm
    cases List.mem_singleton.mp hm
    exact ⟨by decide, by decide, hnumber⟩
  have hops : ∀ op ∈ ops, op.ReadsBack := by
    intro op hop
    simp only [ops, List.mem_cons, List.not_mem_nil, or_false] at hop
    rcases hop with rfl | rfl | rfl
    · intro entry hentry
      cases hentry
      exact hpod
    · intro entry hentry
      cases hentry
    · trivial
  have hfetched : fetched .related ops = [.relatedItems {} "Pod"] := rfl
  obtain ⟨-, hsteps, hmiss, -⟩ := run_wellTyped hops
  obtain ⟨hitems, hcount⟩ := hmiss { origin := .related, text := "", resource := pod }
  rw [hfetched] at hitems hcount
  refine ⟨hops, hsteps _, fun hnone => hitems.mp hnone List.mem_cons_self, hcount.mpr ?_⟩
  exact fun hmem => Key.relatedCount_ne_relatedItems _ _ _ (List.mem_singleton.mp hmem)

end Session
end Cache
end ResourceSearch
