import ResourceSearch.Proofs.Dialog.History

/-!
A page with any number of dialogs over the same two stores.  Operations on the dialogs come in any
order.  Each delete that the service carries out reaches the stores once, and nothing else does
(`run_opened`).
-/

namespace ResourceSearch

open Cache

structure Page (ι : Type) where
  dialogs : ι → Dialog
  stores : Stores

namespace Page

open Dialog (Operation Reply Half Follows Alternate accepted)

variable {ι : Type}

/-- Dialogs that have just been opened. -/
def opened (resource : ι → Resource) (text : ι → String) (origin : ι → Origin) (stores : Stores) :
    Page ι where
  dialogs i := { resource := resource i, text := text i, origin := origin i }
  stores

structure Event (ι : Type) where
  dialog : ι
  operation : Operation
  reply : Reply
  /-- What the dialog became. -/
  after : Dialog

def Event.halves (e : Event ι) : List Half := accepted e.operation e.reply

/-- The deletes that succeeded in some events, in order. -/
def successes (dialogs : ι → Dialog) (events : List (Event ι)) : List Deletion :=
  events.flatMap fun e => e.halves.filterMap (Half.deletion? (dialogs e.dialog))

theorem successes_cons (dialogs : ι → Dialog) (e : Event ι) (events : List (Event ι)) :
    successes dialogs (e :: events) = successes dialogs [e] ++ successes dialogs events := by
  simp [successes]

theorem follows_opened (resource : ι → Resource) (text : ι → String) (origin : ι → Origin)
    (stores : Stores) (i : ι) :
    let dialogs := (opened resource text origin stores).dialogs
    Follows (dialogs i) (dialogs i) [] where
  resource := rfl
  text := rfl
  table := rfl
  alternate := trivial
  inFlight := rfl
  once := Nat.zero_le 1
  closed hpos := absurd hpos (Nat.lt_irrefl 0)

variable [DecidableEq ι]

def step (p : Page ι) (i : ι) (op : Operation) : Event ι × Page ι :=
  let result := (p.dialogs i).perform p.stores op
  (⟨i, op, result.1, result.2.1⟩,
    { dialogs := fun j => if j = i then result.2.1 else p.dialogs j, stores := result.2.2 })

def run (p : Page ι) : List (ι × Operation) → List (Event ι) × Page ι
  | [] => ([], p)
  | (i, op) :: rest =>
    let first := p.step i op
    let others := first.2.run rest
    (first.1 :: others.1, others.2)

def history (i : ι) (events : List (Event ι)) : List Half :=
  events.flatMap fun e => if e.dialog = i then e.halves else []

/-! ## One operation -/

theorem step_follows {origins : ι → Dialog} {p : Page ι} {past : ι → List Half}
    (h : ∀ i, Follows (origins i) (p.dialogs i) (past i)) (i : ι) (op : Operation) (j : ι) :
    Follows (origins j) ((p.step i op).2.dialogs j) (past j ++ history j [(p.step i op).1]) := by
  by_cases hj : j = i
  · subst hj
    simpa [step, history, Event.halves] using ((h j).performed p.stores op).1
  · simpa [step, history, hj, Ne.symm hj] using h j

theorem step_stores {origins : ι → Dialog} {p : Page ι} {past : ι → List Half}
    (h : ∀ i, Follows (origins i) (p.dialogs i) (past i)) (i : ι) (op : Operation) :
    (p.step i op).2.stores = reconcileAll (successes origins [(p.step i op).1]) p.stores := by
  simpa [step, successes, Event.halves] using ((h i).performed p.stores op).2

/-! ## A run of operations -/

theorem history_cons (i : ι) (e : Event ι) (events : List (Event ι)) :
    history i (e :: events) = history i [e] ++ history i events := by
  simp [history]

/-- Every dialog stays in step with its history, whatever happens to the others. -/
theorem run_follows {origins : ι → Dialog} {p : Page ι} {past : ι → List Half}
    (h : ∀ i, Follows (origins i) (p.dialogs i) (past i)) (ops : List (ι × Operation)) (j : ι) :
    Follows (origins j) ((p.run ops).2.dialogs j) (past j ++ history j (p.run ops).1) := by
  induction ops generalizing p past with
  | nil => simpa [run, history] using h j
  | cons first rest ih =>
    obtain ⟨i, op⟩ := first
    have hrest := ih (step_follows h i op)
    rw [List.append_assoc, ← history_cons] at hrest
    exact hrest

theorem run_stores {origins : ι → Dialog} {p : Page ι} {past : ι → List Half}
    (h : ∀ i, Follows (origins i) (p.dialogs i) (past i)) (ops : List (ι × Operation)) :
    (p.run ops).2.stores = reconcileAll (successes origins (p.run ops).1) p.stores := by
  induction ops generalizing p past with
  | nil => rfl
  | cons first rest ih =>
    obtain ⟨i, op⟩ := first
    have hrest := ih (step_follows h i op)
    rw [step_stores h, ← reconcileAll_append, ← successes_cons] at hrest
    exact hrest

/-- A dialog with a success behind it is closed after every further event and refuses it. -/
theorem run_refused {origins : ι → Dialog} {p : Page ι} {past : ι → List Half} {j : ι}
    (h : ∀ i, Follows (origins i) (p.dialogs i) (past i))
    (hpos : 0 < (past j).countP Half.isSuccess) (ops : List (ι × Operation)) {e : Event ι}
    (he : e ∈ (p.run ops).1) (hj : e.dialog = j) :
    e.after.isOpen = false ∧ e.reply = (origins j).closedReply e.operation := by
  induction ops generalizing p past with
  | nil => cases he
  | cons first rest ih =>
    obtain ⟨i, op⟩ := first
    rcases List.mem_cons.mp he with rfl | he
    · obtain rfl : i = j := hj
      have hrefused := (h i).refused hpos p.stores op
      exact ⟨hrefused.2, hrefused.1⟩
    · refine ih (step_follows h i op) ?_ he
      rw [List.countP_append]
      omega

/-- An event that succeeds is the last one that its dialog accepts. -/
theorem run_refused_after {origins : ι → Dialog} {p : Page ι} {past : ι → List Half}
    (h : ∀ i, Follows (origins i) (p.dialogs i) (past i)) {ops : List (ι × Operation)}
    {before later : List (Event ι)} {e f : Event ι} (hrun : (p.run ops).1 = before ++ e :: later)
    (he : e.halves.any Half.isSuccess = true) (hf : f ∈ later) (hfe : f.dialog = e.dialog) :
    f.after.isOpen = false ∧ f.reply = (origins e.dialog).closedReply f.operation := by
  induction ops generalizing p past before with
  | nil => simp [run] at hrun
  | cons first rest ih =>
    obtain ⟨i, op⟩ := first
    rw [run] at hrun
    cases before with
    | nil =>
      obtain ⟨rfl, rfl⟩ := List.cons.inj hrun
      refine run_refused (step_follows h i op) ?_ rest hf hfe
      rw [List.countP_append]
      have hpos : 0 < (history i [(p.step i op).1]).countP Half.isSuccess := by
        rw [List.countP_pos_iff]
        simpa [history, step] using List.any_eq_true.mp he
      exact Nat.lt_of_lt_of_le hpos (Nat.le_add_left _ _)
    | cons b before => exact ih (step_follows h i op) (List.cons.inj hrun).2

/-- However operations on dialogs over the same stores are interleaved, the starts and ends of each
dialog go by turns, it is in flight exactly between them, at most one of its ends is a success, and
after that one it stays closed and refuses all.  The stores have each success applied once, in the
order in which they came. -/
theorem run_opened (resource : ι → Resource) (text : ι → String) (origin : ι → Origin)
    (stores : Stores) (ops : List (ι × Operation)) :
    let page := opened resource text origin stores
    let events := (page.run ops).1
    let after := (page.run ops).2
    (∀ i, Alternate false (history i events)) ∧
      (∀ i, (after.dialogs i).inFlight = true ↔
        (history i events).countP Half.isStart = (history i events).countP Half.isFinish + 1) ∧
      (∀ i, (history i events).countP Half.isSuccess ≤ 1) ∧
      (∀ i, 0 < (history i events).countP Half.isSuccess → (after.dialogs i).isOpen = false) ∧
      (∀ before e later, events = before ++ e :: later → e.halves.any Half.isSuccess = true →
        ∀ f ∈ later, f.dialog = e.dialog →
          f.after.isOpen = false ∧
            f.reply = (page.dialogs e.dialog).closedReply f.operation) ∧
      after.stores = reconcileAll (successes page.dialogs events) stores := by
  intro page events after
  have hstart := follows_opened resource text origin stores
  have hend : ∀ i, Follows (page.dialogs i) (after.dialogs i) (history i events) :=
    run_follows hstart ops
  refine ⟨fun i => (hend i).alternate, fun i => ?_, fun i => (hend i).once,
    fun i hpos => ((hend i).closed hpos).1, ?_, run_stores hstart ops⟩
  · have hcount := Dialog.count_of_alternate (hend i).alternate
    rw [← (hend i).inFlight] at hcount
    cases hflight : (after.dialogs i).inFlight <;> rw [hflight] at hcount <;>
      simp at hcount ⊢ <;> omega
  · intro before e later hrun he f hf hfe
    exact run_refused_after hstart hrun he hf hfe

end Page
end ResourceSearch
