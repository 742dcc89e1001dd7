import ResourceSearch.Json.Reader

/-!
Strings survive writing and reading: `readChars_writeString`.  Reading starts after the opening
quote, and every character is given back by its escape (`readChars_escape`).  A string that is only
passed over ends at the same place (`skipChars_of_readChars`).
-/

namespace ResourceSearch
namespace Json

/-! ## Blanks -/

theorem skipBlank_cons {c : Char} (h : isBlank c = false) (cs : List Char) :
    skipBlank (c :: cs) = c :: cs := by
  simp [skipBlank, h]

theorem skipBlank_append {blanks : List Char} (h : ∀ c ∈ blanks, isBlank c = true)
    (cs : List Char) : skipBlank (blanks ++ cs) = skipBlank cs := by
  induction blanks with
  | nil => rfl
  | cons c rest ih =>
    rw [List.cons_append, skipBlank, if_pos (h c List.mem_cons_self)]
    exact ih fun d hd => h d (List.mem_cons_of_mem c hd)

/-! ## Strings -/

theorem value?_lower : ∀ n : Fin 16, Text.Hex.value? (Text.Hex.lower n) = some n.val := by decide

theorem hexNumber?_lower {n : Nat} (h : n < 32) :
    hexNumber? '0' '0' (Text.Hex.lower (n / 16)) (Text.Hex.lower (n % 16)) = some n := by
  have hhigh := value?_lower ⟨n / 16, by omega⟩
  have hlow := value?_lower ⟨n % 16, by omega⟩
  have hzero : Text.Hex.value? '0' = some 0 := rfl
  have hn : ((0 * 16 + 0) * 16 + n / 16) * 16 + n % 16 = n := by omega
  simp only at hhigh hlow
  simp only [hexNumber?, hzero, hhigh, hlow, hn]

/-- A control character below 32 is no half of a surrogate pair. -/
theorem readChars_control {c : Char} (h : c.toNat < 32) (done cs : List Char) :
    readChars done ('\\' :: 'u' :: '0' :: '0' :: Text.Hex.lower (c.toNat / 16) ::
      Text.Hex.lower (c.toNat % 16) :: cs) = readChars (c :: done) cs := by
  have htrailing : isTrailing c.toNat = false := by
    simp [isTrailing]
    omega
  have hleading : isLeading c.toNat = false := by
    simp [isLeading]
    omega
  rw [readChars, hexNumber?_lower h]
  simp [htrailing, hleading]

theorem readChars_plain {c : Char} (hquote : c ≠ '"') (hslash : c ≠ '\\') (h : ¬ c.toNat < 32)
    (done cs : List Char) : readChars done (c :: cs) = readChars (c :: done) cs := by
  rw [readChars]
  · rw [if_neg h]
  · exact hquote
  -- every other case of the reader begins with a backslash
  · exact fun _ _ _ _ _ hc => absurd hc hslash
  · exact fun _ hc => absurd hc hslash
  · exact fun hc => absurd hc hslash
  · exact fun _ _ hc => absurd hc hslash

/-- An escape is read as the character that it stands for. -/
theorem readChars_escape (c : Char) (done cs : List Char) :
    readChars done (escape c ++ cs) = readChars (c :: done) cs := by
  unfold escape
  split
  case h_8 hquote hslash hb hf hn hr ht =>
    split
    next hcontrol => exact readChars_control hcontrol done cs
    next hcontrol => exact readChars_plain hquote hslash hcontrol done cs
  all_goals simp [readChars, plainEscape?]

theorem readChars_escapes (text done cs : List Char) :
    readChars done (text.flatMap escape ++ '"' :: cs) =
      .ok (String.ofList (done.reverse ++ text), cs) := by
  induction text generalizing done with
  | nil => simp [readChars]
  | cons c rest ih =>
    rw [List.flatMap_cons, List.append_assoc, readChars_escape, ih]
    simp

theorem writeString_append (s : String) (cs : List Char) :
    writeString s ++ cs = '"' :: (s.toList.flatMap escape ++ '"' :: cs) := by
  simp [writeString]

/-- A written string is read back, from behind its opening quote. -/
theorem readChars_writeString (s : String) (cs : List Char) :
    readChars [] (s.toList.flatMap escape ++ '"' :: cs) = .ok (s, cs) := by
  simp [readChars_escapes]

/-- Passing over a string that can be read ends where reading it does. -/
theorem skipChars_of_readChars {done cs rest : List Char} {s : String}
    (h : readChars done cs = .ok (s, rest)) : skipChars cs = .ok rest := by
  fun_induction readChars done cs with
  | case2 =>
    cases h
    rfl
  | case6 done a b c d m hm _ _ i j k l cs n hn _ ih =>
    rw [skipChars, hm]
    dsimp only
    rw [skipChars, hn]
    exact ih h
  | case9 done a b c d cs n hn _ _ ih =>
    rw [skipChars, hn]
    exact ih h
  | case12 done e cs hfour hu c hescape ih =>
    rw [skipChars]
    · rw [hescape]
      exact ih h
    · exact hfour
    · exact hu
  | case15 done c cs hquote hfour hu hlast hslash hcontrol ih =>
    rw [skipChars]
    · rw [if_neg hcontrol]
      exact ih h
    all_goals assumption
  | _ => cases h

end Json
end ResourceSearch
