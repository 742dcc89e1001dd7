import ResourceSearch.Proofs.Dialog.History

/-!
The gate of a dialog and the ways past it that fail.  The button is enabled exactly when a delete
can start (`obstacle?_eq_none_iff`): the dialog is open, nothing is under way, and the last access
review allowed it.  Whatever was done to a dialog before, what it refuses changes nothing, what it
accepts is asked of the service once, and a failure leaves a dialog that can try again
(`guarded_of_reached`).
-/

namespace ResourceSearch

open Cache

namespace Dialog

/-! ## Dialogs that operations lead to -/

/-- What operations make of a dialog.  The stores may be any at every operation, since others work
on them too. -/
inductive Reached (origin : Dialog) : List Operation → Dialog → Prop
  | start : Reached origin [] origin
  | perform {ops : List Operation} {d : Dialog} (before : Reached origin ops d) (s : Stores)
      (op : Operation) : Reached origin (ops ++ [op]) (d.perform s op).2.1

/-- What an access review answered, if an operation is one. -/
def Operation.answer? : Operation → Option (Except String Bool)
  | .review answer => some answer
  | _ => none

/-- What the last access review among some operations answered, if there was one. -/
def lastAnswer? (ops : List Operation) : Option (Except String Bool) :=
  (ops.filterMap Operation.answer?).getLast?

/-- What is known of the access after the last review. -/
def accessAfter : Option (Except String Bool) → AccessState
  | none => .loading
  | some (.ok true) => .allowed
  | some (.ok false) => .denied
  | some (.error message) => .failed message

/-- What every operation preserves: a dialog is about one resource, its access is what the last
review answered, and no error stands on it while a delete is under way. -/
structure Kept (resource : Resource) (ops : List Operation) (d : Dialog) : Prop where
  resource : d.resource = resource
  access : d.access = accessAfter (lastAnswer? ops)
  error : d.inFlight = true → d.error? = none

theorem accessAfter_eq_allowed_iff {answer : Option (Except String Bool)} :
    accessAfter answer = .allowed ↔ answer = some (.ok true) := by
  constructor
  · intro h
    match answer, h with
    | some (.ok true), _ => rfl
  · rintro rfl
    rfl

theorem lastAnswer?_review (ops : List Operation) (answer : Except String Bool) :
    lastAnswer? (ops ++ [.review answer]) = some answer := by
  rw [lastAnswer?, List.filterMap_append]
  exact List.getLast?_concat

theorem lastAnswer?_other {op : Operation} (ops : List Operation) (h : op.answer? = none) :
    lastAnswer? (ops ++ [op]) = lastAnswer? ops := by
  simp [lastAnswer?, h]

/-! ## The gate -/

/-- The button is enabled exactly when nothing is in the way of a start. -/
theorem obstacle?_eq_none_iff {d : Dialog} : d.obstacle? = none ↔ d.canDelete = true := by
  unfold obstacle? canDelete
  cases d.isOpen with
  | false => simp
  | true =>
    cases d.inFlight with
    | true => simp
    | false => cases d.access <;> simp

theorem begin_of_canDelete {d : Dialog} (h : d.canDelete = true) :
    d.begin = (.ok d.deleteRequest, { d with inFlight := true, error? := none }) := by
  rw [begin, obstacle?_eq_none_iff.mpr h]

theorem begin_of_not_canDelete {d : Dialog} (h : d.canDelete = false) :
    ∃ failure, d.obstacle? = some failure ∧ d.begin = (.error failure, d) := by
  cases hobstacle : d.obstacle? with
  | none =>
    rw [obstacle?_eq_none_iff, h] at hobstacle
    cases hobstacle
  | some failure => exact ⟨failure, rfl, by rw [begin, hobstacle]⟩

theorem canDelete_iff {d : Dialog} :
    d.canDelete = true ↔ d.isOpen = true ∧ d.inFlight = false ∧ d.access = .allowed := by
  simp [canDelete, and_assoc]

/-! ## Confirming -/

/-- A delete service that keeps a log of the requests put to it.  What it answers may depend on what
it was asked before. -/
def recorded (answer : List DeleteRequest → DeleteRequest → Except String Unit)
    (request : DeleteRequest) : StateM (List DeleteRequest) (Except String Unit) := do
  let asked ← get
  set (asked ++ [request])
  return answer asked request

section Confirm

variable {d : Dialog} (answer : List DeleteRequest → DeleteRequest → Except String Unit)
  (rule : MatchRule) (s : Stores) (asked : List DeleteRequest)

/-- A refused confirmation asks nothing of the service. -/
theorem confirm_of_not_canDelete (h : d.canDelete = false) :
    ∃ failure, isAccepted (.error failure) = false ∧
      (d.confirm (recorded answer) rule s).run asked = ((.error failure, d, s), asked) := by
  obtain ⟨failure, hobstacle, hbegin⟩ := begin_of_not_canDelete h
  refine ⟨failure, isAccepted_obstacle hobstacle, ?_⟩
  rw [confirm, hbegin]
  rfl

/-- An accepted confirmation is a start and an end, with one question to the service in between. -/
theorem confirm_of_canDelete (h : d.canDelete = true) :
    (d.confirm (recorded answer) rule s).run asked =
      (complete { d with inFlight := true, error? := none } (answer asked d.deleteRequest) rule s,
        asked ++ [d.deleteRequest]) := by
  rw [confirm, begin_of_canDelete h]
  rfl

theorem isAccepted_confirm :
    isAccepted ((d.confirm (recorded answer) rule s).run asked).1.1 = d.canDelete := by
  cases h : d.canDelete with
  | true =>
    rw [confirm_of_canDelete answer rule s asked h]
    exact Follows.isAccepted_complete rfl _ rule s
  | false =>
    obtain ⟨failure, hrefused, hconfirm⟩ := confirm_of_not_canDelete answer rule s asked h
    rw [hconfirm, hrefused]

end Confirm

/-- However a delete ends, it is not under way any more. -/
theorem inFlight_complete (d : Dialog) (answer : Except String Unit) (rule : MatchRule)
    (s : Stores) : (d.complete answer rule s).2.1.inFlight = false := by
  rcases complete_cases d answer rule s with
    ⟨hflight, hresult⟩ | ⟨message, -, -, hresult⟩ | ⟨-, -, hresult⟩
  · rw [hresult]
    exact hflight
  · rw [hresult]
  · rw [hresult]

/-! ## What every operation preserves -/

namespace Kept

variable {resource : Resource} {ops : List Operation} {d : Dialog}

theorem opened (resource : Resource) (text : String) (origin : Origin) :
    Kept resource [] { resource, text, origin } where
  resource := rfl
  access := rfl
  error h := by cases h

/-- An operation that is no review keeps the access, so it has to keep the rest. -/
theorem other {op : Operation} {after : Dialog} (h : Kept resource ops d) (hop : op.answer? = none)
    (hresource : after.resource = d.resource) (haccess : after.access = d.access)
    (herror : after.inFlight = true → after.error? = none) : Kept resource (ops ++ [op]) after where
  resource := hresource.trans h.resource
  access := by rw [haccess, h.access, lastAnswer?_other ops hop]
  error := herror

theorem reviewed (h : Kept resource ops d) (answer : Except String Bool) :
    Kept resource (ops ++ [.review answer]) (d.review answer) where
  resource := h.resource
  access := by
    rw [lastAnswer?_review]
    match answer with
    | .ok true => rfl
    | .ok false => rfl
    | .error _ => rfl
  error := h.error

theorem completed {op : Operation} (h : Kept resource ops d) (hop : op.answer? = none)
    (answer : Except String Unit) (rule : MatchRule) (s : Stores) :
    Kept resource (ops ++ [op]) (d.complete answer rule s).2.1 := by
  have hflight := inFlight_complete d answer rule s
  have herror : (d.complete answer rule s).2.1.inFlight = true →
      (d.complete answer rule s).2.1.error? = none := by
    intro hunder
    rw [hflight] at hunder
    cases hunder
  rcases complete_cases d answer rule s with
    ⟨-, hresult⟩ | ⟨message, -, -, hresult⟩ | ⟨-, -, hresult⟩
  all_goals
    rw [hresult] at herror ⊢
    exact h.other hop rfl rfl herror

theorem performed (h : Kept resource ops d) (s : Stores) (op : Operation) :
    Kept resource (ops ++ [op]) (d.perform s op).2.1 := by
  cases op with
  | review answer => exact h.reviewed answer
  | begin =>
    rcases begin_cases d with ⟨failure, -, hbegin⟩ | ⟨-, -, hbegin⟩
    · simp only [perform, hbegin]
      exact h.other rfl rfl rfl h.error
    · simp only [perform, hbegin]
      exact h.other rfl rfl rfl fun _ => rfl
  | complete answer rule => exact h.completed rfl answer rule s
  | confirm answer rule =>
    rcases begin_cases d with ⟨failure, -, hbegin⟩ | ⟨-, -, hbegin⟩
    · simp only [perform, confirm_eq, hbegin]
      exact h.other rfl rfl rfl h.error
    · simp only [perform, confirm_eq, hbegin]
      have hbegun : Kept resource ops { d with inFlight := true, error? := none } :=
        ⟨h.resource, h.access, fun _ => rfl⟩
      exact hbegun.completed rfl answer rule s
  | close => exact h.other rfl rfl rfl h.error

end Kept

theorem kept_of_reached {resource : Resource} {text : String} {origin : Origin}
    {ops : List Operation} {d : Dialog} (h : Reached { resource, text, origin } ops d) :
    Kept resource ops d := by
  induction h with
  | start => exact Kept.opened resource text origin
  | perform _ s op ih => exact ih.performed s op

/-- No operation opens a dialog. -/
theorem isOpen_perform {d : Dialog} (h : d.isOpen = false) (s : Stores) (op : Operation) :
    (d.perform s op).2.1.isOpen = false := by
  have hgate : d.canDelete = false := by simp [canDelete, h]
  obtain ⟨failure, -, hbegin⟩ := begin_of_not_canDelete hgate
  cases op with
  | review answer => exact h
  | begin => simpa only [perform, hbegin] using h
  | complete answer rule =>
    rcases complete_cases d answer rule s with
      ⟨-, hresult⟩ | ⟨message, -, -, hresult⟩ | ⟨-, -, hresult⟩
    · simpa only [perform, hresult] using h
    · simpa only [perform, hresult] using h
    · simp only [perform, hresult]
  | confirm answer rule => simpa only [perform, confirm_eq, hbegin] using h
  | close => rfl

theorem isOpen_of_reached {d after : Dialog} {ops : List Operation} (hclosed : d.isOpen = false)
    (h : Reached d ops after) : after.isOpen = false := by
  induction h with
  | start => exact hclosed
  | perform _ s op ih => exact isOpen_perform ih s op

theorem complete_error {d : Dialog} (h : d.inFlight = true) (message : String) (rule : MatchRule)
    (s : Stores) :
    d.complete (.error message) rule s =
      (.error (.deleteFailed message),
        { d with inFlight := false, error? := some message }, s) := by
  simp [complete, h]

theorem isAccepted_complete_eq (d : Dialog) (answer : Except String Unit) (rule : MatchRule)
    (s : Stores) : isAccepted (d.complete answer rule s).1 = d.inFlight := by
  cases h : d.inFlight with
  | true => exact Follows.isAccepted_complete h answer rule s
  | false => simp [complete, h, isAccepted]

/-! ## The gate and the error paths together -/

/-- What a dialog for a resource keeps to after some operations. -/
structure Guarded (resource : Resource) (ops : List Operation) (d : Dialog) : Prop where
  begin_iff : (∃ request, d.begin.1 = .ok request) ↔ d.canDelete = true
  canDelete_iff : d.canDelete = true ↔
    d.isOpen = true ∧ d.inFlight = false ∧ lastAnswer? ops = some (.ok true)
  /-- A refused start changes nothing. -/
  begin_refused : ∀ failure, d.begin.1 = .error failure →
    ∀ s, (d.perform s .begin).2 = (d, s)
  confirm_iff : ∀ answer rule s asked,
    isAccepted ((d.confirm (recorded answer) rule s).run asked).1.1 = d.canDelete
  /-- A refused confirmation changes nothing and asks nothing of the service. -/
  confirm_refused : ∀ answer rule s asked, d.canDelete = false →
    ∃ failure, (d.confirm (recorded answer) rule s).run asked = ((.error failure, d, s), asked)
  /-- An accepted confirmation puts one request to the service, and is over when it returns. -/
  confirm_accepted : ∀ answer rule s asked, d.canDelete = true →
    ∃ result after left,
      (d.confirm (recorded answer) rule s).run asked =
        ((result, after, left), asked ++ [{
          selfLink := resource.selfLink, name := resource.name,
          namespaceName := resource.namespaceName, cluster := resource.cluster,
          kind := resource.kind }]) ∧
      after.inFlight = false
  complete_iff : ∀ answer rule s, isAccepted (d.complete answer rule s).1 = d.inFlight
  /-- A refused end changes nothing. -/
  complete_refused : ∀ answer rule s, isAccepted (d.complete answer rule s).1 = false →
    (d.complete answer rule s).2 = (d, s)
  /-- A failed delete leaves its message on the dialog and the rest as it was. -/
  complete_failed : ∀ message rule s, d.inFlight = true →
    d.complete (.error message) rule s =
      (.error (.deleteFailed message), { d with inFlight := false, error? := some message }, s)
  /-- After a failure the delete can be tried again if the dialog is open and allows it. -/
  again_iff : ∀ message rule s, d.inFlight = true →
    ∀ answer rule' s' asked,
      isAccepted (((d.complete (.error message) rule s).2.1.confirm (recorded answer) rule' s').run
        asked).1.1 = true ↔ d.isOpen = true ∧ d.access = .allowed
  noError : d.inFlight = true → d.error? = none
  /-- A closed dialog stays closed, whatever is done to it. -/
  closed : d.isOpen = false → ∀ more after, Reached d more after → after.isOpen = false

/-- Whatever was done to a dialog since it was opened, it keeps to its gate: what it refuses changes
nothing, what it accepts is asked of the service once, a failure leaves its message and a dialog
that can try again, and a closed dialog stays closed. -/
theorem guarded_of_reached {resource : Resource} {text : String} {origin : Origin}
    {ops : List Operation} {d : Dialog} (h : Reached { resource, text, origin } ops d) :
    Guarded resource ops d := by
  have hkept := kept_of_reached h
  have hrequest : d.deleteRequest = {
      selfLink := resource.selfLink, name := resource.name,
      namespaceName := resource.namespaceName, cluster := resource.cluster,
      kind := resource.kind } := by
    rw [deleteRequest, hkept.resource]
  constructor
  case begin_iff =>
    cases hgate : d.canDelete with
    | true => simp [begin_of_canDelete hgate]
    | false =>
      obtain ⟨failure, -, hbegin⟩ := begin_of_not_canDelete hgate
      simp [hbegin]
  case canDelete_iff =>
    rw [canDelete_iff, hkept.access, accessAfter_eq_allowed_iff]
  case begin_refused =>
    intro failure hfailure s
    rcases begin_cases d with ⟨other, -, hbegin⟩ | ⟨-, -, hbegin⟩
    · rw [perform, hbegin]
    · rw [hbegin] at hfailure
      cases hfailure
  case confirm_iff =>
    intro answer rule s asked
    exact isAccepted_confirm answer rule s asked
  case confirm_refused =>
    intro answer rule s asked hgate
    obtain ⟨failure, -, hconfirm⟩ := confirm_of_not_canDelete answer rule s asked hgate
    exact ⟨failure, hconfirm⟩
  case confirm_accepted =>
    intro answer rule s asked hgate
    let begun := { d with inFlight := true, error? := none }
    let ended := begun.complete (answer asked d.deleteRequest) rule s
    refine ⟨ended.1, ended.2.1, ended.2.2, ?_, inFlight_complete begun _ rule s⟩
    rw [confirm_of_canDelete answer rule s asked hgate, ← hrequest]
  case complete_iff => exact isAccepted_complete_eq d
  case complete_refused =>
    intro answer rule s hrefused
    rw [isAccepted_complete_eq] at hrefused
    simp [complete, hrefused]
  case complete_failed =>
    intro message rule s hflight
    exact complete_error hflight message rule s
  case again_iff =>
    intro message rule s hflight answer rule' s' asked
    rw [complete_error hflight, isAccepted_confirm, canDelete_iff]
    exact ⟨fun hall => ⟨hall.1, hall.2.2⟩, fun hall => ⟨hall.1, rfl, hall.2⟩⟩
  case noError => exact hkept.error
  case closed => exact fun hclosed more after => isOpen_of_reached hclosed

/-- The access is reviewed again, and denied, while a delete is under way that then fails. -/
theorem guarded_denied_in_flight :
    let pod : Resource := { name := "a", kind := "Pod" }
    let ops : List Operation := [.review (.ok true), .begin, .review (.ok false),
      .complete (.error "timeout") .uidAndName]
    let d : Dialog := { resource := pod, text := "kind:Pod", origin := .results, access := .denied,
                        error? := some "timeout" }
    Reached { resource := pod, text := "kind:Pod", origin := .results } ops d ∧
      Guarded pod ops d := by
  intro pod ops d
  have hreached : Reached { resource := pod, text := "kind:Pod", origin := .results } ops d :=
    (((Reached.start.perform {} (.review (.ok true))).perform {} .begin).perform {}
      (.review (.ok false))).perform {} (.complete (.error "timeout") .uidAndName)
  exact ⟨hreached, guarded_of_reached hreached⟩

end Dialog
end ResourceSearch
