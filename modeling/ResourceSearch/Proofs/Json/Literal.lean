import ResourceSearch.Proofs.Json.Strings
import ResourceSearch.Proofs.Text.Length

/-!
Text that a JSON string holds as it is.  A string is either read literally, every character for
itself up to the closing quote, or is shorter than what was written of it, since every escape is
longer than the character that it stands for (`readChars_eq_ok`).
-/

namespace ResourceSearch
namespace Json

open Text

/-- A character that stands for itself in a string. -/
structure IsLiteral (c : Char) : Prop where
  quote : c ≠ '"'
  backslash : c ≠ '\\'
  control : ¬ c.toNat < 32

theorem IsLiteral.escape_eq {c : Char} (h : IsLiteral c) : escape c = [c] := by
  have hcontrol := h.control
  unfold escape
  split
  case h_1 => exact absurd rfl h.quote
  case h_2 => exact absurd rfl h.backslash
  case h_8 => rw [if_neg hcontrol]
  all_goals exact absurd (by decide) hcontrol

/-- Text is read literally up to a quote, or as shorter text. -/
def ReadsAs (cs read rest : List Char) : Prop :=
  cs = read ++ '"' :: rest ∧ (∀ c ∈ read, IsLiteral c) ∨
    (bytes read).length + 1 + (bytes rest).length < (bytes cs).length

namespace ReadsAs

variable {cs read rest : List Char}

theorem length_le (h : ReadsAs cs read rest) :
    (bytes read).length + 1 + (bytes rest).length ≤ (bytes cs).length := by
  rcases h with ⟨rfl, -⟩ | h
  · have hquote : Char.utf8Size '"' = 1 := rfl
    rw [length_bytes_append, length_bytes_cons]
    omega
  · exact Nat.le_of_lt h

theorem nil (rest : List Char) : ReadsAs ('"' :: rest) [] rest :=
  .inl ⟨rfl, fun _ hc => absurd hc List.not_mem_nil⟩

theorem cons {c : Char} (hc : IsLiteral c) (h : ReadsAs cs read rest) :
    ReadsAs (c :: cs) (c :: read) rest := by
  rcases h with ⟨rfl, hread⟩ | h
  · exact .inl ⟨rfl, List.forall_mem_cons.mpr ⟨hc, hread⟩⟩
  · refine .inr ?_
    rw [length_bytes_cons, length_bytes_cons]
    omega

/-- An escape is longer than what it stands for. -/
theorem escaped (written : List Char) {c : Char} (hc : c.utf8Size < written.length)
    (h : ReadsAs cs read rest) : ReadsAs (written ++ cs) (c :: read) rest := by
  have hlength := h.length_le
  have hwritten := length_le_length_bytes written
  refine .inr ?_
  rw [length_bytes_cons, length_bytes_append]
  omega

end ReadsAs

theorem utf8Size_of_plainEscape? {e c : Char} (h : plainEscape? e = some c) : c.utf8Size = 1 := by
  unfold plainEscape? at h
  split at h
  all_goals first
    | cases h; rfl
    | cases h

/-- What is read is appended to what was read before. -/
theorem readChars_eq_ok {done cs rest : List Char} {s : String}
    (h : readChars done cs = .ok (s, rest)) :
    ∃ read, s = String.ofList (done.reverse ++ read) ∧ ReadsAs cs read rest := by
  have hfour := Char.utf8Size_le_four
  fun_induction readChars done cs with
  | case2 =>
    cases h
    exact ⟨[], by rw [List.append_nil], .nil rest⟩
  | case6 done a b c d m _ _ _ i j k l cs n _ _ ih =>
    obtain ⟨read, rfl, hread⟩ := ih h
    refine ⟨pairChar m n :: read, by simp, ?_⟩
    exact hread.escaped ['\\', 'u', a, b, c, d, '\\', 'u', i, j, k, l]
      (Nat.lt_of_le_of_lt (hfour _) (by simp))
  | case9 done a b c d cs n _ _ _ ih =>
    obtain ⟨read, rfl, hread⟩ := ih h
    refine ⟨Char.ofNat n :: read, by simp, ?_⟩
    exact hread.escaped ['\\', 'u', a, b, c, d]
      (Nat.lt_of_le_of_lt (hfour _) (by simp))
  | case12 done e cs _ _ c hescape ih =>
    obtain ⟨read, rfl, hread⟩ := ih h
    have hone := utf8Size_of_plainEscape? hescape
    refine ⟨c :: read, by simp, ?_⟩
    exact hread.escaped ['\\', e] (by simp [hone])
  | case15 done c cs hquote _ _ hlast hslash hcontrol ih =>
    obtain ⟨read, rfl, hread⟩ := ih h
    have hbackslash : c ≠ '\\' := by
      intro hc
      cases cs with
      | nil => exact hlast hc rfl
      | cons e cs => exact hslash e cs hc rfl
    exact ⟨c :: read, by simp, hread.cons ⟨hquote, hbackslash, hcontrol⟩⟩
  -- in the other cases the text is refused
  | _ => cases h

end Json
end ResourceSearch
