import ResourceSearch.Json.Decoder
import ResourceSearch.Proofs.Json.Nested
import ResourceSearch.Proofs.Json.Spelling

/-!
What readers of nested text come to.  What holds of each part that is read holds of the whole
(`readElements_forall`, `readMembers_invariant`), and a value is nested no deeper than its reader
goes (`readValue_depth`).
-/

namespace ResourceSearch
namespace Json

/-! ## Readers -/

section Readers

variable {α : Type}

theorem exists_of_readFrom_ok {wanted : String} {start : Char → Bool} {read : List Char → Reading α}
    {cs : List Char} {out : α × List Char} (h : readFrom wanted start read cs = .ok out) :
    ∃ c after, skipBlank cs = c :: after ∧ start c = true ∧ read (c :: after) = .ok out := by
  unfold readFrom at h
  split at h
  · cases h
  next c after hcs =>
    split at h
    next hstart => exact ⟨c, after, hcs, hstart, h⟩
    · cases h

theorem exists_of_afterColon_ok {read : List Char → Reading α} {cs : List Char}
    {out : α × List Char} (h : afterColon read cs = .ok out) :
    ∃ value, readColon cs = .ok value ∧ read value = .ok out := by
  unfold afterColon at h
  split at h
  · cases h
  next value hcolon => exact ⟨value, hcolon, h⟩

theorem exists_of_readAll_ok {read : List Char → Reading α} {text : String} {a : α}
    (h : readAll read text = .ok a) :
    ∃ rest, read text.toList = .ok (a, rest) ∧ skipBlank rest = [] := by
  unfold readAll at h
  dsimp only at h
  split at h
  · cases h
  · rename_i b rest hread
    split at h
    next hend =>
      cases h
      exact ⟨rest, hread, hend⟩
    · cases h

theorem readElements_forall {p : α → Prop} {read : List Char → Reading α}
    (hread : ∀ cs a rest, read cs = .ok (a, rest) → p a) {fuel : Nat} {first : Bool}
    {done xs : List α} {cs rest : List Char} (hdone : ∀ a ∈ done, p a)
    (h : readElements read fuel first done cs = .ok (xs, rest)) : ∀ a ∈ xs, p a := by
  induction fuel generalizing first done cs with
  | zero =>
    cases h
    exact fun a ha => hdone a (List.mem_reverse.mp ha)
  | succ fuel ih =>
    rw [readElements] at h
    split at h
    · cases h
    · cases h
      exact fun a ha => hdone a (List.mem_reverse.mp ha)
    · split at h
      · cases h
      · rename_i a left ha
        refine ih ?_ h
        intro b hb
        rcases List.mem_cons.mp hb with rfl | hb
        · exact hread _ b left ha
        · exact hdone b hb

theorem readMembers_invariant {σ : Type} {I : σ → Prop}
    {member : String → σ → List Char → Reading σ}
    (hmember : ∀ name s cs t rest, I s → member name s cs = .ok (t, rest) → I t) {fuel : Nat}
    {first : Bool} {s t : σ} {cs rest : List Char} (hs : I s)
    (h : readMembers member fuel first s cs = .ok (t, rest)) : I t := by
  induction fuel generalizing first s cs with
  | zero =>
    cases h
    exact hs
  | succ fuel ih =>
    rw [readMembers] at h
    split at h
    · cases h
    · cases h
      exact hs
    · split at h
      · cases h
      · rename_i next left hnext
        exact ih (hmember _ s _ next left hs hnext) h

end Readers

/-! ## Values -/

/-- A value is nested no deeper than its reader goes. -/
theorem readValue_depth {levels : Nat} {cs rest : List Char} {j : Json}
    (h : readValue levels cs = .ok (j, rest)) : j.depth ≤ levels := by
  induction levels generalizing cs rest j with
  | zero =>
    have hspells := spells_of_readValue h
    generalize skipBlank cs = text at hspells
    cases hspells <;> exact Nat.le_refl 0
  | succ levels ih =>
    have hspells := spells_of_readValue h
    generalize skipBlank cs = text at hspells
    cases hspells with
    | array helements =>
      exact Nat.succ_le_succ (depthElements_le_iff.mpr (helements.forall_mem ih))
    | object hmembers =>
      exact Nat.succ_le_succ (depthMembers_le_iff.mpr (hmembers.forall_mem ih))
    | _ => exact Nat.zero_le _

end Json
end ResourceSearch
