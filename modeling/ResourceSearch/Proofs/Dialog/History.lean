import ResourceSearch.Dialog
import ResourceSearch.Proofs.Cache.Order

/-!
The history of one dialog.  A delete has two halves, a start and an end, and a history is the list
of the halves that the dialog accepted.  `Follows` ties the fields of a dialog to its history, and
every operation preserves it (`Follows.performed`): the halves go by turns, at most one end is a
success, and after that one the dialog accepts nothing any more.
-/

namespace ResourceSearch

open Cache

namespace Dialog

/-- What can be done with a dialog, with the answer that the outside gives. -/
inductive Operation where
  | review (answer : Except String Bool)
  | begin
  | complete (answer : Except String Unit) (rule : MatchRule)
  | confirm (answer : Except String Unit) (rule : MatchRule)
  | close

/-- What an operation returns. -/
inductive Reply where
  | nothing
  | request (result : Except Failure DeleteRequest)
  | report (result : Except Failure Report)

/-- Carries out an operation on a dialog and the stores. -/
def perform (d : Dialog) (stores : Stores) : Operation → Reply × Dialog × Stores
  | .review answer => (.nothing, Id.run (d.reviewAccess fun _ => pure answer), stores)
  | .begin => (.request d.begin.1, d.begin.2, stores)
  | .complete answer rule =>
    let result := d.complete answer rule stores
    (.report result.1, result.2)
  | .confirm answer rule =>
    let result := Id.run (d.confirm (fun _ => pure answer) rule stores)
    (.report result.1, result.2)
  | .close => (.nothing, d.close, stores)

/-- One half of a delete. -/
inductive Half where
  | start
  | finish (answer : Except String Unit) (rule : MatchRule)

namespace Half

def isStart : Half → Bool
  | .start => true
  | .finish .. => false

def isFinish : Half → Bool
  | .start => false
  | .finish .. => true

def isSuccess : Half → Bool
  | .finish (.ok ()) _ => true
  | _ => false

/-- The delete that a half brings about for a dialog, if it does. -/
def deletion? (d : Dialog) : Half → Option Deletion
  | .finish (.ok ()) rule => some (d.deletion rule)
  | _ => none

end Half

/-- Whether the end of a delete was accepted, with what it returned. -/
def isAccepted : Except Failure Report → Bool
  | .ok _ => true
  | .error (.deleteFailed _) => true
  | .error _ => false

/-- The halves that an operation was accepted for, with what it returned. -/
def accepted : Operation → Reply → List Half
  | .begin, .request (.ok _) => [.start]
  | .complete answer rule, .report result =>
    if isAccepted result then [.finish answer rule] else []
  | .confirm answer rule, .report result =>
    if isAccepted result then [.start, .finish answer rule] else []
  | _, _ => []

/-- Whether halves go by turns.  A start comes first, unless a delete is under way. -/
def Alternate : Bool → List Half → Prop
  | _, [] => True
  | underWay, .start :: hs => underWay = false ∧ Alternate true hs
  | underWay, .finish _ _ :: hs => underWay = true ∧ Alternate false hs

/-- Whether a delete is under way after some halves. -/
def underWay (before : Bool) (hs : List Half) : Bool := hs.foldl (fun _ h => h.isStart) before

/-- What a dialog returns that is closed and has no delete under way. -/
def closedReply (d : Dialog) : Operation → Reply
  | .review _ => .nothing
  | .begin => .request (.error (.dialogClosed d.resource.kind d.resource.name))
  | .complete _ _ => .report (.error (.deleteNotStarted d.resource.kind d.resource.name))
  | .confirm _ _ => .report (.error (.dialogClosed d.resource.kind d.resource.name))
  | .close => .nothing

/-! ## The two halves of a delete -/

/-- A start is refused for an obstacle, with nothing changed, or accepted. -/
theorem begin_cases (d : Dialog) :
    (∃ failure, d.obstacle? = some failure ∧ d.begin = (.error failure, d)) ∨
      (d.isOpen = true ∧ d.inFlight = false ∧
        d.begin = (.ok d.deleteRequest, { d with inFlight := true, error? := none })) := by
  cases h : d.obstacle? with
  | some failure => exact .inl ⟨failure, rfl, by simp [begin, h]⟩
  | none =>
    have hopen : d.isOpen = true := by
      cases hopen : d.isOpen with
      | true => rfl
      | false => simp [obstacle?, hopen] at h
    have hflight : d.inFlight = false := by
      cases hflight : d.inFlight with
      | false => rfl
      | true => simp [obstacle?, hopen, hflight] at h
    exact .inr ⟨hopen, hflight, by simp [begin, h]⟩

/-- An end is refused if nothing was started, with nothing changed; it fails, or it succeeds. -/
theorem complete_cases (d : Dialog) (answer : Except String Unit) (rule : MatchRule) (s : Stores) :
    (d.inFlight = false ∧ d.complete answer rule s =
        (.error (.deleteNotStarted d.resource.kind d.resource.name), d, s)) ∨
      (∃ message, d.inFlight = true ∧ answer = .error message ∧ d.complete answer rule s =
        (.error (.deleteFailed message), { d with inFlight := false, error? := some message }, s)) ∨
      (d.inFlight = true ∧ answer = .ok () ∧ d.complete answer rule s =
        (.ok (reconcile (d.deletion rule) s).1, { d with inFlight := false, isOpen := false },
          (reconcile (d.deletion rule) s).2)) := by
  cases hflight : d.inFlight with
  | false => exact .inl ⟨rfl, by simp [complete, hflight]⟩
  | true =>
    cases answer with
    | error message => exact .inr (.inl ⟨message, rfl, rfl, by simp [complete, hflight]⟩)
    | ok value => exact .inr (.inr ⟨rfl, rfl, by simp [complete, hflight]⟩)

theorem isAccepted_obstacle {d : Dialog} {failure : Failure} (h : d.obstacle? = some failure) :
    isAccepted (.error failure) = false := by
  unfold obstacle? at h
  split at h
  · rw [← Option.some.inj h]
    rfl
  · split at h
    · rw [← Option.some.inj h]
      rfl
    · split at h
      · cases h
      · rw [← Option.some.inj h]
        rfl
      · rw [← Option.some.inj h]
        rfl
      · rw [← Option.some.inj h]
        rfl

/-- Confirming is starting and, if that is accepted, ending with the service's answer. -/
theorem confirm_eq (d : Dialog) (answer : Except String Unit) (rule : MatchRule) (s : Stores) :
    Id.run (d.confirm (fun _ => pure answer) rule s) =
      match d.begin with
      | (.error failure, d) => (.error failure, d, s)
      | (.ok _, d) => d.complete answer rule s := by
  unfold confirm
  rcases d.begin with ⟨result, d⟩
  cases result <;> rfl

/-! ## Histories -/

theorem underWay_start_cons (b : Bool) (hs : List Half) :
    underWay b (.start :: hs) = underWay true hs := rfl

theorem underWay_finish_cons (b : Bool) (answer : Except String Unit) (rule : MatchRule)
    (hs : List Half) : underWay b (.finish answer rule :: hs) = underWay false hs := rfl

theorem underWay_append (b : Bool) (hs ks : List Half) :
    underWay b (hs ++ ks) = underWay (underWay b hs) ks := List.foldl_append

theorem alternate_append {b : Bool} {hs ks : List Half} (h : Alternate b hs)
    (k : Alternate (underWay b hs) ks) : Alternate b (hs ++ ks) := by
  induction hs generalizing b with
  | nil => exact k
  | cons half rest ih =>
    cases half with
    | start => exact ⟨h.1, ih h.2 k⟩
    | finish answer rule => exact ⟨h.1, ih h.2 k⟩

/-- Where halves go by turns, the starts and the ends balance but for a delete under way. -/
theorem count_of_alternate {b : Bool} {hs : List Half} (h : Alternate b hs) :
    hs.countP Half.isStart + b.toNat = hs.countP Half.isFinish + (underWay b hs).toNat := by
  induction hs generalizing b with
  | nil => rfl
  | cons half rest ih =>
    cases half with
    | start =>
      have hrest := ih h.2
      rw [List.countP_cons_of_pos rfl, List.countP_cons_of_neg (by simp [Half.isFinish]),
        underWay_start_cons, h.1]
      simp only [Bool.toNat_true] at hrest
      simp only [Bool.toNat_false]
      omega
    | finish answer rule =>
      have hrest := ih h.2
      rw [List.countP_cons_of_pos (p := Half.isFinish) rfl,
        List.countP_cons_of_neg (by simp [Half.isStart]), underWay_finish_cons, h.1]
      simp only [Bool.toNat_false] at hrest
      simp only [Bool.toNat_true]
      omega

/-- A dialog `d` is what the dialog `origin` became through a history. -/
structure Follows (origin d : Dialog) (history : List Half) : Prop where
  /-- The delete that the dialog is about never changes. -/
  resource : d.resource = origin.resource
  text : d.text = origin.text
  table : d.origin = origin.origin
  alternate : Alternate false history
  inFlight : d.inFlight = underWay false history
  once : history.countP Half.isSuccess ≤ 1
  closed : 0 < history.countP Half.isSuccess → d.isOpen = false ∧ d.inFlight = false

namespace Follows

variable {origin d : Dialog} {history : List Half}

theorem deletion_eq (h : Follows origin d history) (rule : MatchRule) :
    d.deletion rule = origin.deletion rule := by
  simp [deletion, h.resource, h.text, h.table]

/-- An open dialog, and one with a delete under way, has no success behind it. -/
theorem countP_eq_zero (h : Follows origin d history) (hd : d.isOpen = true ∨ d.inFlight = true) :
    history.countP Half.isSuccess = 0 := by
  rcases Nat.eq_zero_or_pos (history.countP Half.isSuccess) with hzero | hpos
  · exact hzero
  · have hclosed := h.closed hpos
    simp [hclosed] at hd

theorem begun (h : Follows origin d history) (hopen : d.isOpen = true)
    (hflight : d.inFlight = false) :
    Follows origin { d with inFlight := true, error? := none } (history ++ [.start]) where
  resource := h.resource
  text := h.text
  table := h.table
  alternate := alternate_append h.alternate ⟨h.inFlight ▸ hflight, trivial⟩
  inFlight := by rw [underWay_append]; rfl
  once := by simpa [Half.isSuccess] using h.once
  closed hpos := by simp [Half.isSuccess, h.countP_eq_zero (.inl hopen)] at hpos

theorem failed (h : Follows origin d history) (hflight : d.inFlight = true) (message : String)
    (rule : MatchRule) :
    Follows origin { d with inFlight := false, error? := some message }
      (history ++ [.finish (.error message) rule]) where
  resource := h.resource
  text := h.text
  table := h.table
  alternate := alternate_append h.alternate ⟨h.inFlight ▸ hflight, trivial⟩
  inFlight := by rw [underWay_append]; rfl
  once := by simpa [Half.isSuccess] using h.once
  closed hpos := by simp [Half.isSuccess, h.countP_eq_zero (.inr hflight)] at hpos

theorem succeeded (h : Follows origin d history) (hflight : d.inFlight = true)
    (rule : MatchRule) :
    Follows origin { d with inFlight := false, isOpen := false }
      (history ++ [.finish (.ok ()) rule]) where
  resource := h.resource
  text := h.text
  table := h.table
  alternate := alternate_append h.alternate ⟨h.inFlight ▸ hflight, trivial⟩
  inFlight := by rw [underWay_append]; rfl
  once := by simp [Half.isSuccess, h.countP_eq_zero (.inr hflight)]
  closed _ := ⟨rfl, rfl⟩

theorem reviewed (h : Follows origin d history) (answer : Except String Bool) :
    Follows origin (d.review answer) history :=
  { h with }

theorem dismissed (h : Follows origin d history) : Follows origin d.close history :=
  { h with closed := fun hpos => ⟨rfl, (h.closed hpos).2⟩ }

/-- An end keeps the history right and patches the stores if it is a success. -/
theorem completed (h : Follows origin d history) (answer : Except String Unit) (rule : MatchRule)
    (s : Stores) :
    let result := d.complete answer rule s
    let halves := if isAccepted result.1 then [Half.finish answer rule] else []
    Follows origin result.2.1 (history ++ halves) ∧
      result.2.2 = reconcileAll (halves.filterMap (Half.deletion? origin)) s := by
  rcases complete_cases d answer rule s with
    ⟨hflight, hresult⟩ | ⟨message, hflight, rfl, hresult⟩ | ⟨hflight, rfl, hresult⟩
  · simp only [hresult]
    exact ⟨by simpa [isAccepted] using h, rfl⟩
  · simp only [hresult]
    exact ⟨h.failed hflight message rule, rfl⟩
  · simp only [hresult]
    refine ⟨h.succeeded hflight rule, ?_⟩
    rw [h.deletion_eq]
    rfl

/-- A delete that is under way can be ended. -/
theorem isAccepted_complete (hflight : d.inFlight = true) (answer : Except String Unit)
    (rule : MatchRule) (s : Stores) : isAccepted (d.complete answer rule s).1 = true := by
  rcases complete_cases d answer rule s with ⟨hnot, _⟩ | ⟨_, _, _, hresult⟩ | ⟨_, _, hresult⟩
  · rw [hflight] at hnot
    cases hnot
  · rw [hresult]
    rfl
  · rw [hresult]
    rfl

/-- Confirming accepts both halves or neither. -/
theorem confirmed (h : Follows origin d history) (answer : Except String Unit) (rule : MatchRule)
    (s : Stores) :
    let result := Id.run (d.confirm (fun _ => pure answer) rule s)
    let halves := if isAccepted result.1 then [Half.start, Half.finish answer rule] else []
    Follows origin result.2.1 (history ++ halves) ∧
      result.2.2 = reconcileAll (halves.filterMap (Half.deletion? origin)) s := by
  rcases begin_cases d with ⟨failure, hobstacle, hbegin⟩ | ⟨hopen, hflight, hbegin⟩
  · simp only [confirm_eq, hbegin, isAccepted_obstacle hobstacle]
    exact ⟨by simpa using h, rfl⟩
  · have hended := (h.begun hopen hflight).completed answer rule s
    have haccepted := isAccepted_complete (d := { d with inFlight := true, error? := none }) rfl
      answer rule s
    simp only [confirm_eq, hbegin]
    simp only [haccepted, if_true, List.append_assoc] at hended ⊢
    exact hended

/-- Every operation keeps a dialog in step with its history, and patches the stores for each success
that it was accepted for. -/
theorem performed (h : Follows origin d history) (s : Stores) (op : Operation) :
    Follows origin (d.perform s op).2.1 (history ++ accepted op (d.perform s op).1) ∧
      (d.perform s op).2.2 =
        reconcileAll ((accepted op (d.perform s op).1).filterMap (Half.deletion? origin)) s := by
  have hidle : ∀ {next : Dialog}, Follows origin next history →
      Follows origin next (history ++ []) := by
    intro next hnext
    rwa [List.append_nil]
  cases op with
  | review answer => exact ⟨hidle (h.reviewed answer), rfl⟩
  | begin =>
    rcases begin_cases d with ⟨failure, _, hbegin⟩ | ⟨hopen, hflight, hbegin⟩
    · simp only [perform, hbegin]
      exact ⟨hidle h, rfl⟩
    · simp only [perform, hbegin]
      exact ⟨h.begun hopen hflight, rfl⟩
  | complete answer rule => exact h.completed answer rule s
  | confirm answer rule => exact h.confirmed answer rule s
  | close => exact ⟨hidle h.dismissed, rfl⟩

/-- After a success a dialog stays closed and refuses to start or end a delete. -/
theorem refused (h : Follows origin d history) (hpos : 0 < history.countP Half.isSuccess)
    (s : Stores) (op : Operation) :
    (d.perform s op).1 = origin.closedReply op ∧ (d.perform s op).2.1.isOpen = false := by
  obtain ⟨hopen, hflight⟩ := h.closed hpos
  have hbegin : d.begin = (.error (.dialogClosed d.resource.kind d.resource.name), d) := by
    simp [begin, obstacle?, hopen]
  cases op with
  | review answer => exact ⟨rfl, hopen⟩
  | begin => simp [perform, closedReply, hbegin, hopen, h.resource]
  | complete answer rule => simp [perform, closedReply, complete, hflight, hopen, h.resource]
  | confirm answer rule => simp [perform, closedReply, confirm_eq, hbegin, hopen, h.resource]
  | close => exact ⟨rfl, rfl⟩

end Follows
end Dialog
end ResourceSearch
