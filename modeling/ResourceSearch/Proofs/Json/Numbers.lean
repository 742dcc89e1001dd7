import ResourceSearch.Json.Reader

/-!
Numbers before other text.  Reading a number stops at the first character that cannot go on with it,
so a number that its own text gives back is also read in front of a comma, a bracket or a blank
(`readNumber_append`).  Whole numbers are always given back (`readsBack_integer`).
-/

namespace ResourceSearch

/-- A number that its text gives back. -/
def Number.ReadsBack (n : Number) : Prop := Json.readNumber (Json.writeNumber n) = .ok (n, [])

namespace Json

/-- A text that no number can go on with. -/
def Ends : List Char → Prop
  | [] => True
  | c :: _ => digit? c = none ∧ c ≠ '.' ∧ c ≠ 'e' ∧ c ≠ 'E'

theorem ends_nil : Ends [] := trivial

theorem ends_cons {c : Char} (cs : List Char) (h : c = ',' ∨ c = ']' ∨ c = '}' ∨ isBlank c = true) :
    Ends (c :: cs) := by
  have hc : c = ',' ∨ c = ']' ∨ c = '}' ∨ c = ' ' ∨ c = '\n' ∨ c = '\t' ∨ c = '\r' := by
    simpa [isBlank, or_assoc] using h
  rcases hc with rfl | rfl | rfl | rfl | rfl | rfl | rfl <;> exact ⟨rfl, by decide⟩

/-- A reader of numbers that stops where a number ends. -/
def Stops (read : List Char → Reading Number) : Prop :=
  ∀ {cs : List Char} {n : Number} {rest : List Char},
    read cs = .ok (n, []) → Ends rest → read (cs ++ rest) = .ok (n, rest)

theorem skipDigits_ends {rest : List Char} (h : Ends rest) : skipDigits rest = rest := by
  cases rest with
  | nil => rfl
  | cons c cs => simp [skipDigits, h.1]

theorem skipDigits_append (cs : List Char) {rest : List Char} (h : Ends rest) :
    skipDigits (cs ++ rest) = skipDigits cs ++ rest := by
  induction cs with
  | nil => exact skipDigits_ends h
  | cons c cs ih =>
    rw [List.cons_append, skipDigits, skipDigits]
    split
    · exact ih
    · rfl

/-- What is read does not depend on what follows. -/
theorem readReal_ok {negative : Bool} {significand : Nat} {power : Int} {cs rest : List Char}
    {n : Number} (h : readReal negative significand power cs = .ok (n, rest)) :
    cs = rest ∧ ∀ others, readReal negative significand power others = .ok (n, others) := by
  unfold readReal at h ⊢
  -- reducing the number would compute with large powers, so any number takes its place
  generalize (Binary64.ofNat? negative significand).bind (scale? · power) = x at h ⊢
  cases x with
  | some x =>
    obtain ⟨rfl, rfl⟩ := Prod.mk.inj (Except.ok.inj h)
    exact ⟨rfl, fun _ => rfl⟩
  | none => cases h

theorem readExponentDigits_stops (negative positive : Bool) (significand : Nat) (start : Int)
    (value : Nat) : Stops (readExponentDigits negative positive significand start value) := by
  intro cs n rest h hrest
  induction cs generalizing value with
  | nil =>
    have hread := (readReal_ok h).2
    cases rest with
    | nil => exact h
    | cons c cs =>
      rw [List.nil_append, readExponentDigits, hrest.1]
      exact hread _
  | cons c cs ih =>
    rw [List.cons_append, readExponentDigits]
    rw [readExponentDigits] at h
    split at h
    next d hd =>
      split at h
      next hlarge =>
        rw [if_pos hlarge]
        split at h
        · cases h
        next hzero =>
          rw [if_neg hzero]
          obtain ⟨rfl, hskip⟩ := Prod.mk.inj (Except.ok.inj h)
          rw [skipDigits_append cs hrest, hskip, List.nil_append]
      next hsmall =>
        rw [if_neg hsmall]
        exact ih _ h
    next => cases (readReal_ok h).1

theorem readUnsignedExponent_stops (negative positive : Bool) (significand : Nat) (start : Int) :
    Stops (readUnsignedExponent negative positive significand start) := by
  intro cs n rest h hrest
  cases cs with
  | nil => cases h
  | cons c cs =>
    rw [List.cons_append, readUnsignedExponent]
    rw [readUnsignedExponent] at h
    split at h
    · exact readExponentDigits_stops negative positive significand start _ h hrest
    · cases h

theorem readExponent_stops (negative : Bool) (significand : Nat) (start : Int) :
    Stops (readExponent negative significand start) := by
  intro cs n rest h hrest
  rw [readExponent.eq_def] at h
  split at h
  next cs =>
    exact readUnsignedExponent_stops negative true significand start h hrest
  next cs =>
    exact readUnsignedExponent_stops negative false significand start h hrest
  next hplus hminus =>
    cases cs with
    | nil => cases h
    | cons c cs =>
      have hread := readUnsignedExponent_stops negative true significand start h hrest
      rw [List.cons_append, readExponent]
      · exact hread
      · intro others heq
        obtain ⟨rfl, -⟩ := List.cons.inj heq
        exact hplus cs rfl
      · intro others heq
        obtain ⟨rfl, -⟩ := List.cons.inj heq
        exact hminus cs rfl

theorem readTail_ends (negative : Bool) (significand : Nat) (power : Int) {rest : List Char}
    (h : Ends rest) :
    readTail negative significand power rest = readReal negative significand power rest := by
  cases rest with
  | nil => rfl
  | cons c cs =>
    obtain ⟨_, _, he, hE⟩ := h
    rw [readTail]
    · simpa using he
    · simpa using hE

theorem readTail_stops (negative : Bool) (significand : Nat) (power : Int) :
    Stops (readTail negative significand power) := by
  intro cs n rest h hrest
  unfold readTail at h
  split at h
  · exact readExponent_stops negative significand power h hrest
  · exact readExponent_stops negative significand power h hrest
  · obtain ⟨rfl, hread⟩ := readReal_ok h
    rw [List.nil_append, readTail_ends negative significand power hrest]
    exact hread rest

/-- The digits after the point stop where a number ends, once there is one of them. -/
theorem readFraction_stops (negative : Bool) (significand : Nat) (power : Int) (started : Bool) :
    Stops (readFraction negative significand power started) := by
  intro cs n rest h hrest
  induction cs generalizing significand power started with
  | nil =>
    rw [readFraction] at h
    cases started with
    | false => cases h
    | true =>
      rw [if_pos rfl] at h
      have htail := readTail_stops negative significand power h hrest
      cases rest with
      | nil => rwa [List.nil_append, readFraction, if_pos rfl]
      | cons c cs =>
        rw [List.nil_append, readFraction, hrest.1]
        simp only [if_true]
        exact htail
  | cons c cs ih =>
    rw [List.cons_append, readFraction]
    rw [readFraction] at h
    split at h
    next d hd =>
      split at h
      next hlarge =>
        rw [if_pos hlarge, ← List.cons_append, skipDigits_append _ hrest]
        exact readTail_stops negative significand power h hrest
      next hsmall =>
        rw [if_neg hsmall]
        exact ih _ _ _ h
    next =>
      cases started with
      | false => cases h
      | true => exact readTail_stops negative significand power h hrest

theorem readLong_stops (negative : Bool) (significand : Nat) (power : Int) :
    Stops (readLong negative significand power) := by
  intro cs n rest h hrest
  induction cs generalizing power with
  | nil =>
    have hread := (readReal_ok h).2
    cases rest with
    | nil => exact h
    | cons c cs =>
      obtain ⟨hdigit, hpoint, _, _⟩ := id hrest
      rw [List.nil_append, readLong, if_neg (by simp [hdigit]),
        readTail_ends negative significand power hrest]
      · exact hread _
      · simpa using hpoint
  | cons c cs ih =>
    rw [List.cons_append]
    rw [readLong.eq_def] at h ⊢
    split at h
    next hnil => cases hnil
    next others hcons =>
      obtain ⟨rfl, rfl⟩ := List.cons.inj hcons
      exact readFraction_stops negative significand power false h hrest
    next d others hpoint hcons =>
      obtain ⟨rfl, rfl⟩ := List.cons.inj hcons
      have hc : c ≠ '.' := by simpa using hpoint
      simp only
      split at h
      next hdigit => simpa [hdigit, hc] using ih _ h
      next hdigit =>
        have htail := readTail_stops negative significand power h hrest
        simpa [hdigit, hc] using htail

theorem readWhole_ok {negative : Bool} {significand : Nat} {cs rest : List Char} {n : Number}
    (h : readWhole negative significand cs = .ok (n, rest)) :
    cs = rest ∧ ∀ others, readWhole negative significand others = .ok (n, others) := by
  unfold readWhole at h ⊢
  cases negative with
  | true =>
    rw [if_pos rfl] at h
    by_cases hfits : 0 < significand ∧ significand ≤ 0x8000000000000000
    · rw [dif_pos hfits] at h
      obtain ⟨rfl, rfl⟩ := Prod.mk.inj (Except.ok.inj h)
      refine ⟨rfl, fun others => ?_⟩
      rw [if_pos rfl, dif_pos hfits]
    · rw [dif_neg hfits] at h
      obtain ⟨hcs, hread⟩ := readReal_ok h
      refine ⟨hcs, fun others => ?_⟩
      rw [if_pos rfl, dif_neg hfits, hread]
  | false =>
    rw [if_neg Bool.false_ne_true] at h
    by_cases hfits : significand < 0x10000000000000000
    · rw [dif_pos hfits] at h
      obtain ⟨rfl, rfl⟩ := Prod.mk.inj (Except.ok.inj h)
      refine ⟨rfl, fun others => ?_⟩
      rw [if_neg Bool.false_ne_true, dif_pos hfits]
    · rw [dif_neg hfits] at h
      obtain ⟨hcs, hread⟩ := readReal_ok h
      refine ⟨hcs, fun others => ?_⟩
      rw [if_neg Bool.false_ne_true, dif_neg hfits, hread]

theorem readAfterWhole_ends (negative : Bool) (significand : Nat) {rest : List Char}
    (h : Ends rest) :
    readAfterWhole negative significand rest = readWhole negative significand rest := by
  cases rest with
  | nil => rfl
  | cons c cs =>
    obtain ⟨_, hpoint, he, hE⟩ := h
    rw [readAfterWhole]
    · simpa using hpoint
    · simpa using he
    · simpa using hE

theorem readAfterWhole_stops (negative : Bool) (significand : Nat) :
    Stops (readAfterWhole negative significand) := by
  intro cs n rest h hrest
  unfold readAfterWhole at h
  split at h
  · exact readFraction_stops negative significand 0 false h hrest
  · exact readExponent_stops negative significand 0 h hrest
  · exact readExponent_stops negative significand 0 h hrest
  · obtain ⟨rfl, hread⟩ := readWhole_ok h
    rw [List.nil_append, readAfterWhole_ends negative significand hrest]
    exact hread rest

theorem readDigits_stops (negative : Bool) (significand : Nat) :
    Stops (readDigits negative significand) := by
  intro cs n rest h hrest
  induction cs generalizing significand with
  | nil =>
    rw [readDigits] at h
    have hafter := readAfterWhole_stops negative significand h hrest
    cases rest with
    | nil => rwa [List.nil_append, readDigits]
    | cons c cs =>
      rw [List.nil_append, readDigits, hrest.1]
      exact hafter
  | cons c cs ih =>
    rw [List.cons_append, readDigits]
    rw [readDigits] at h
    split at h
    next d hd =>
      split at h
      next hlarge =>
        rw [if_pos hlarge]
        exact readLong_stops negative significand 0 h hrest
      next hsmall =>
        rw [if_neg hsmall]
        exact ih _ h
    next => exact readAfterWhole_stops negative significand h hrest

/-- After a leading zero there is no further digit. -/
theorem readMagnitude_zero {negative : Bool} {cs : List Char}
    (h : ∀ c ∈ cs.head?, digit? c = none) :
    readMagnitude negative ('0' :: cs) = readAfterWhole negative 0 cs := by
  cases cs with
  | nil => rw [readMagnitude]
  | cons c cs =>
    have hdigit := h c rfl
    rw [readMagnitude, if_neg (by simp [hdigit])]

theorem readMagnitude_zero_ok {negative : Bool} {cs rest : List Char} {n : Number}
    (h : readMagnitude negative ('0' :: cs) = .ok (n, rest)) :
    (∀ c ∈ cs.head?, digit? c = none) ∧ readAfterWhole negative 0 cs = .ok (n, rest) := by
  cases cs with
  | nil =>
    rw [readMagnitude] at h
    exact ⟨by simp, h⟩
  | cons c cs =>
    rw [readMagnitude] at h
    split at h
    next => cases h
    next hdigit => exact ⟨by simpa using hdigit, h⟩

theorem readMagnitude_stops (negative : Bool) : Stops (readMagnitude negative) := by
  intro cs n rest h hrest
  cases cs with
  | nil => cases h
  | cons c cs =>
    by_cases hc : c = '0'
    · subst hc
      obtain ⟨hdigit, hafter⟩ := readMagnitude_zero_ok h
      rw [List.cons_append, readMagnitude_zero]
      · exact readAfterWhole_stops negative 0 hafter hrest
      · cases cs with
        | nil =>
          cases rest with
          | nil => simp
          | cons d ds => simpa using hrest.1
        | cons d ds => exact hdigit
    · rw [List.cons_append, readMagnitude.eq_4 _ _ _ hc]
      rw [readMagnitude.eq_4 _ _ _ hc] at h
      split at h
      · exact readDigits_stops negative _ h hrest
      · cases h

/-- A number that its text gives back is also read in front of text that cannot go on with it. -/
theorem readNumber_append {n : Number} (h : n.ReadsBack) {rest : List Char} (hrest : Ends rest) :
    readNumber (writeNumber n ++ rest) = .ok (n, rest) := by
  unfold Number.ReadsBack at h
  generalize writeNumber n = cs at h ⊢
  rw [readNumber.eq_def] at h
  split at h
  next others =>
    rw [List.cons_append, readNumber]
    exact readMagnitude_stops true h hrest
  next hminus =>
    have hread := readMagnitude_stops false h hrest
    cases cs with
    | nil => cases h
    | cons c cs =>
      rw [List.cons_append, readNumber]
      · exact hread
      · simpa using hminus

/-! ## Whole numbers -/

theorem digit?_of_isDigit {c : Char} (h : c.isDigit = true) : digit? c = some (c.toNat - 48) := by
  have hc : '0' ≤ c ∧ c ≤ '9' := by
    simpa [Char.isDigit, Char.le_def] using h
  rw [digit?, if_pos hc]

theorem le_ofDigitChars (ds : List Char) (n : Nat) : n ≤ Nat.ofDigitChars 10 ds n := by
  rw [Nat.ofDigitChars_eq_ofDigitChars_zero]
  have hpow : 0 < 10 ^ ds.length := Nat.pow_pos (by decide)
  have hmul : 1 * n ≤ 10 ^ ds.length * n := Nat.mul_le_mul_right n hpow
  omega

theorem readDigits_ofDigitChars (negative : Bool) {ds : List Char} {n : Nat}
    (hds : ∀ c ∈ ds, c.isDigit = true) (h : Nat.ofDigitChars 10 ds n < 0x10000000000000000) :
    readDigits negative n ds = readAfterWhole negative (Nat.ofDigitChars 10 ds n) [] := by
  induction ds generalizing n with
  | nil => rw [readDigits, Nat.ofDigitChars_nil]
  | cons c ds ih =>
    rw [Nat.ofDigitChars_cons] at h ⊢
    have hdigit := digit?_of_isDigit (hds c List.mem_cons_self)
    have hzero : '0'.toNat = 48 := rfl
    have hle := le_ofDigitChars ds (10 * n + (c.toNat - '0'.toNat))
    have hn : n * 10 + (c.toNat - 48) = 10 * n + (c.toNat - '0'.toNat) := by omega
    rw [readDigits, hdigit]
    simp only [hn]
    rw [if_neg (by omega)]
    exact ih (fun d hd => hds d (List.mem_cons_of_mem c hd)) h

theorem head?_toDigits_ne_zero {n : Nat} (h : 0 < n) : (Nat.toDigits 10 n).head? ≠ some '0' := by
  induction n using Nat.strongRecOn with
  | ind n ih =>
    by_cases hn : n < 10
    · have hdigit : ∀ k : Fin 10, 0 < k.val → Nat.digitChar k ≠ '0' := by decide
      rw [Nat.toDigits_of_lt_base hn]
      simpa using hdigit ⟨n, hn⟩ h
    · have hhead := ih (n / 10) (by omega) (by omega)
      have hne : Nat.toDigits 10 (n / 10) ≠ [] := Nat.toDigits_ne_nil
      rw [Nat.toDigits_of_base_le (by decide) (by omega)]
      cases htail : Nat.toDigits 10 (n / 10) with
      | nil => exact absurd htail hne
      | cons c ds =>
        rw [htail] at hhead
        simpa using hhead

theorem isDigit_of_mem_toDigits {n : Nat} {c : Char} (h : c ∈ Nat.toDigits 10 n) :
    c.isDigit = true := Nat.isDigit_of_mem_toDigits (by decide) (by decide) h

theorem readMagnitude_toDigits (negative : Bool) {n : Nat} (h : n < 0x10000000000000000) :
    readMagnitude negative (Nat.toDigits 10 n) = readWhole negative n [] := by
  rcases Nat.eq_zero_or_pos n with rfl | hpos
  · rw [Nat.toDigits_zero, readMagnitude_zero (by simp), readAfterWhole_ends negative 0 ends_nil]
  · have hvalue : Nat.ofDigitChars 10 (Nat.toDigits 10 n) 0 = n := Nat.ofDigitChars_ten_toDigits
    have hdigits : ∀ c ∈ Nat.toDigits 10 n, c.isDigit = true := fun c => isDigit_of_mem_toDigits
    have hhead := head?_toDigits_ne_zero hpos
    cases hn : Nat.toDigits 10 n with
    | nil => exact absurd hn Nat.toDigits_ne_nil
    | cons c ds =>
      rw [hn] at hvalue hdigits hhead
      have hc : c ≠ '0' := by simpa using hhead
      have hfirst := digit?_of_isDigit (hdigits c List.mem_cons_self)
      have hvalue' : Nat.ofDigitChars 10 ds (c.toNat - 48) = n := by
        rw [Nat.ofDigitChars_cons] at hvalue
        simpa using hvalue
      rw [readMagnitude.eq_4 _ _ _ hc, hfirst]
      simp only
      rw [readDigits_ofDigitChars negative (fun d hd => hdigits d (List.mem_cons_of_mem c hd))
        (by omega), hvalue', readAfterWhole_ends negative n ends_nil]

theorem readsBack_integer (n : Int) (h : -0x8000000000000000 ≤ n ∧ n < 0x10000000000000000) :
    (Number.integer n h).ReadsBack := by
  unfold Number.ReadsBack
  rw [writeNumber, writeInt]
  by_cases hneg : n < 0
  · have hsize : 0 < n.natAbs ∧ n.natAbs ≤ 0x8000000000000000 := by omega
    have hn : -(n.natAbs : Int) = n := by omega
    rw [if_pos hneg, readNumber, readMagnitude_toDigits true (by omega), readWhole, if_pos rfl,
      dif_pos hsize]
    simp only [hn]
  · have hsize : n.natAbs < 0x10000000000000000 := by omega
    have hn : (n.natAbs : Int) = n := by omega
    have hminus : ∀ cs, Nat.toDigits 10 n.natAbs ≠ '-' :: cs := by
      intro cs hcs
      have hdigit := isDigit_of_mem_toDigits (n := n.natAbs) (hcs ▸ List.mem_cons_self)
      cases hdigit
    rw [if_neg hneg, readNumber.eq_2 _ fun cs hcs => hminus cs hcs,
      readMagnitude_toDigits false hsize, readWhole, if_neg (by simp), dif_pos hsize]
    simp only [hn]

end Json
end ResourceSearch
