import ResourceSearch.Proofs.Json.Spelling
import ResourceSearch.Proofs.Json.Values

/-!
Passing over what can be read.  A value that can be read is passed over to the place where reading
it ended (`skipValue_of_readValue`).  Passing over keeps its own account of the brackets that are
open, so a value is followed inside any of them (`Passes`), with enough fuel left for what comes
behind.
-/

namespace ResourceSearch
namespace Json

/-! ## Numbers -/

section Numbers

variable {negative : Bool} {significand : Nat} {power : Int} {cs rest : List Char} {n : Number}

theorem skipDigits_cons_some {c : Char} {d : Nat} (h : digit? c = some d) (cs : List Char) :
    skipDigits (c :: cs) = skipDigits cs := by
  rw [skipDigits, h]
  rfl

theorem skipDigits_cons_none {c : Char} (h : digit? c = none) (cs : List Char) :
    skipDigits (c :: cs) = c :: cs := by
  rw [skipDigits, h]
  rfl

theorem skipDigits_of_readExponentDigits {positive : Bool} {start : Int} {value : Nat}
    (h : readExponentDigits negative positive significand start value cs = .ok (n, rest)) :
    skipDigits cs = rest := by
  induction cs generalizing value with
  | nil => exact (readReal_ok h).1
  | cons c cs ih =>
    rw [readExponentDigits] at h
    cases hc : digit? c with
    | none =>
      rw [hc] at h
      rw [skipDigits_cons_none hc]
      exact (readReal_ok h).1
    | some d =>
      rw [hc] at h
      rw [skipDigits_cons_some hc]
      dsimp only at h
      split at h
      · split at h
        · cases h
        · cases h
          rfl
      · exact ih h

theorem exists_of_readUnsignedExponent {positive : Bool} {start : Int}
    (h : readUnsignedExponent negative positive significand start cs = .ok (n, rest)) :
    ∃ c ds d, cs = c :: ds ∧ digit? c = some d ∧ skipDigits ds = rest := by
  cases cs with
  | nil => cases h
  | cons c ds =>
    rw [readUnsignedExponent] at h
    cases hc : digit? c with
    | none =>
      rw [hc] at h
      cases h
    | some d =>
      rw [hc] at h
      exact ⟨c, ds, d, rfl, hc, skipDigits_of_readExponentDigits h⟩

theorem skipExponent_of_readExponent {start : Int}
    (h : readExponent negative significand start cs = .ok (n, rest)) :
    skipExponent cs = .ok rest := by
  unfold readExponent at h
  split at h
  · obtain ⟨c, ds, d, rfl, hc, rfl⟩ := exists_of_readUnsignedExponent h
    simp [skipExponent, hc]
  · obtain ⟨c, ds, d, rfl, hc, rfl⟩ := exists_of_readUnsignedExponent h
    simp [skipExponent, hc]
  next hplus hminus =>
    obtain ⟨c, ds, d, rfl, hc, rfl⟩ := exists_of_readUnsignedExponent h
    simp [skipExponent, hc]

/-- Passes over what may follow the digits after a point. -/
def skipTail : List Char → Except Fault (List Char)
  | 'e' :: cs => skipExponent cs
  | 'E' :: cs => skipExponent cs
  | cs => .ok cs

theorem skipTail_of_readTail (h : readTail negative significand power cs = .ok (n, rest)) :
    skipTail cs = .ok rest := by
  unfold readTail at h
  split at h
  · exact skipExponent_of_readExponent h
  · exact skipExponent_of_readExponent h
  next hsmall hlarge =>
    rw [skipTail, (readReal_ok h).1]
    · exact hsmall
    · exact hlarge

theorem skipFraction_cons {c : Char} {d : Nat} (hc : digit? c = some d) (cs : List Char) :
    skipFraction (c :: cs) = skipTail (skipDigits (c :: cs)) := by
  rw [skipFraction, hc]
  rfl

/-- A fraction that has started is a run of digits and its tail. -/
theorem skipTail_of_readFraction
    (h : readFraction negative significand power true cs = .ok (n, rest)) :
    skipTail (skipDigits cs) = .ok rest := by
  induction cs generalizing significand power with
  | nil =>
    rw [readFraction, if_pos rfl] at h
    exact skipTail_of_readTail h
  | cons c cs ih =>
    rw [readFraction] at h
    split at h
    next d hd =>
      split at h
      · exact skipTail_of_readTail h
      · rw [skipDigits_cons_some hd]
        exact ih h
    next hnone =>
      rw [if_pos rfl] at h
      rw [skipDigits_cons_none hnone]
      exact skipTail_of_readTail h

theorem skipFraction_of_readFraction
    (h : readFraction negative significand power false cs = .ok (n, rest)) :
    skipFraction cs = .ok rest := by
  cases cs with
  | nil => cases h
  | cons c cs =>
    rw [readFraction] at h
    split at h
    next d hd =>
      rw [skipFraction_cons hd]
      split at h
      · exact skipTail_of_readTail h
      · rw [skipDigits_cons_some hd]
        exact skipTail_of_readFraction h
    next => cases h

theorem skipAfterWhole_of_readTail (hpoint : ∀ ds, cs = '.' :: ds → False)
    (h : readTail negative significand power cs = .ok (n, rest)) :
    skipAfterWhole cs = .ok rest := by
  unfold readTail at h
  split at h
  · exact skipExponent_of_readExponent h
  · exact skipExponent_of_readExponent h
  next hsmall hlarge =>
    rw [skipAfterWhole, (readReal_ok h).1]
    · exact hpoint
    · exact hsmall
    · exact hlarge

theorem skipAfterWhole_of_readLong
    (h : readLong negative significand power cs = .ok (n, rest)) :
    skipAfterWhole (skipDigits cs) = .ok rest := by
  fun_induction readLong negative significand power cs with
  | case1 =>
    rw [← (readReal_ok h).1]
    rfl
  | case2 => exact skipFraction_of_readFraction h
  | case3 _ c cs _ hc ih =>
    obtain ⟨d, hd⟩ := Option.isSome_iff_exists.mp hc
    rw [skipDigits_cons_some hd]
    exact ih h
  | case4 _ c cs hpoint hc =>
    rw [skipDigits_cons_none (Option.not_isSome_iff_eq_none.mp hc)]
    exact skipAfterWhole_of_readTail (fun ds hds => hpoint (List.cons.inj hds).1) h

theorem skipAfterWhole_of_readAfterWhole
    (h : readAfterWhole negative significand cs = .ok (n, rest)) :
    skipAfterWhole cs = .ok rest := by
  unfold readAfterWhole at h
  split at h
  · exact skipFraction_of_readFraction h
  · exact skipExponent_of_readExponent h
  · exact skipExponent_of_readExponent h
  next hpoint hsmall hlarge =>
    rw [skipAfterWhole, (readWhole_ok h).1]
    · exact hpoint
    · exact hsmall
    · exact hlarge

theorem skipAfterWhole_of_readDigits
    (h : readDigits negative significand cs = .ok (n, rest)) :
    skipAfterWhole (skipDigits cs) = .ok rest := by
  induction cs generalizing significand with
  | nil => exact skipAfterWhole_of_readAfterWhole h
  | cons c cs ih =>
    rw [readDigits] at h
    split at h
    next d hd =>
      split at h
      · exact skipAfterWhole_of_readLong h
      · rw [skipDigits_cons_some hd]
        exact ih h
    next hnone =>
      rw [skipDigits_cons_none hnone]
      exact skipAfterWhole_of_readAfterWhole h

theorem skipMagnitude_of_readMagnitude (h : readMagnitude negative cs = .ok (n, rest)) :
    skipMagnitude cs = .ok rest := by
  unfold readMagnitude at h
  split at h
  · cases h
  · split at h
    · rw [← (readWhole_ok h).1]
      rfl
    next c ds =>
      rw [skipMagnitude]
      split at h
      · cases h
      next hc =>
        rw [if_neg hc]
        exact skipAfterWhole_of_readAfterWhole h
  next c cs hzero =>
    rw [skipMagnitude]
    · cases hc : digit? c with
      | none =>
        rw [hc] at h
        cases h
      | some d =>
        rw [hc] at h
        exact skipAfterWhole_of_readDigits h
    · exact hzero

theorem startsNumber_cases {c : Char} (h : startsNumber c = true) :
    c = '-' ∨ c ≠ '-' ∧ ∃ d, digit? c = some d := by
  by_cases hminus : c = '-'
  · exact .inl hminus
  · rw [startsNumber, Bool.or_eq_true, beq_iff_eq] at h
    exact .inr ⟨hminus, Option.isSome_iff_exists.mp (h.resolve_left hminus)⟩

end Numbers

/-! ## What is passed over is not passed over again -/

section Lengths

variable {cs rest : List Char}

theorem length_skipBlank_le (cs : List Char) : (skipBlank cs).length ≤ cs.length := by
  induction cs with
  | nil => exact Nat.le_refl 0
  | cons c cs ih =>
    rw [skipBlank]
    split
    · exact Nat.le_succ_of_le ih
    · exact Nat.le_refl _

theorem length_readWord_le {word : List Char} (h : readWord word cs = .ok rest) :
    rest.length ≤ cs.length := by
  induction word generalizing cs with
  | nil =>
    cases h
    exact Nat.le_refl _
  | cons w ws ih =>
    cases cs with
    | nil => cases h
    | cons c cs =>
      rw [readWord] at h
      split at h
      · exact Nat.le_succ_of_le (ih h)
      · cases h

theorem length_skipChars_lt (h : skipChars cs = .ok rest) : rest.length < cs.length := by
  fun_induction skipChars cs with
  | case2 cs =>
    cases h
    exact Nat.lt_succ_self _
  | case4 a b c d cs _ _ ih =>
    have hlength := ih h
    simp only [List.length_cons]
    omega
  | case7 e cs _ _ _ ih =>
    have hlength := ih h
    simp only [List.length_cons]
    omega
  | case10 c cs _ _ _ _ _ _ ih => exact Nat.lt_succ_of_lt (ih h)
  | _ => cases h

theorem length_skipDigits_le (cs : List Char) : (skipDigits cs).length ≤ cs.length := by
  induction cs with
  | nil => exact Nat.le_refl 0
  | cons c cs ih =>
    rw [skipDigits]
    split
    · exact Nat.le_succ_of_le ih
    · exact Nat.le_refl _

theorem length_skipExponent_lt (h : skipExponent cs = .ok rest) : rest.length < cs.length := by
  unfold skipExponent at h
  split at h
  all_goals
    dsimp only at h
    split at h
    · cases h
    · split at h
      · cases h
        refine Nat.lt_of_le_of_lt (length_skipDigits_le _) ?_
        simp only [List.length_cons]
        omega
      · cases h

theorem length_skipFraction_lt (h : skipFraction cs = .ok rest) : rest.length < cs.length := by
  unfold skipFraction at h
  split at h
  · cases h
  next c ds =>
    split at h
    next hc =>
      obtain ⟨d, hd⟩ := Option.isSome_iff_exists.mp hc
      have hdigits := length_skipDigits_le ds
      rw [skipDigits_cons_some hd] at h
      rw [List.length_cons]
      split at h
      next others heq =>
        have hexponent := length_skipExponent_lt h
        rw [heq, List.length_cons] at hdigits
        omega
      next others heq =>
        have hexponent := length_skipExponent_lt h
        rw [heq, List.length_cons] at hdigits
        omega
      · cases h
        omega
    · cases h

theorem length_skipAfterWhole_le (h : skipAfterWhole cs = .ok rest) : rest.length ≤ cs.length := by
  unfold skipAfterWhole at h
  split at h
  · exact Nat.le_of_lt (Nat.lt_succ_of_lt (length_skipFraction_lt h))
  · exact Nat.le_of_lt (Nat.lt_succ_of_lt (length_skipExponent_lt h))
  · exact Nat.le_of_lt (Nat.lt_succ_of_lt (length_skipExponent_lt h))
  · cases h
    exact Nat.le_refl _

theorem length_skipMagnitude_lt (h : skipMagnitude cs = .ok rest) : rest.length < cs.length := by
  unfold skipMagnitude at h
  split at h
  · cases h
  · split at h
    · cases h
      exact Nat.lt_succ_self _
    · split at h
      · cases h
      · exact Nat.lt_succ_of_le (length_skipAfterWhole_le h)
  next c ds _ =>
    split at h
    · exact Nat.lt_succ_of_le
        (Nat.le_trans (length_skipAfterWhole_le h) (length_skipDigits_le ds))
    · cases h

end Lengths

/-! ## Values -/

/-- A value is passed over to a place further on, whatever is around it.  There is enough fuel left
for what follows. -/
structure Passes (cs rest : List Char) : Prop where
  shorter : rest.length < cs.length
  skips : ∀ fuel frames, 2 * cs.length + 2 ≤ fuel →
    ∃ left, 2 * rest.length + 3 ≤ left ∧ skipInside fuel frames cs = skipAfter left frames true rest

/-- What stands in an array or object is passed over to its end. -/
structure PassesTo (frame : Frame) (comma : Bool) (cs rest : List Char) : Prop where
  shorter : rest.length < cs.length
  skips : ∀ fuel frames, 2 * cs.length + 3 ≤ fuel →
    ∃ left, 2 * rest.length + 3 ≤ left ∧
      skipAfter fuel (frame :: frames) comma cs = skipAfter left frames true rest

section Values

variable {cs rest : List Char}

theorem length_of_skipBlank_cons {c : Char} {after : List Char} (h : skipBlank cs = c :: after) :
    after.length < cs.length := by
  have hle := length_skipBlank_le cs
  rwa [h, List.length_cons] at hle

theorem ToElement.length_le {first : Bool} (h : ToElement first cs rest) :
    rest.length ≤ cs.length := by
  cases h with
  | first hc h => exact length_of_skipBlank_cons h
  | comma hcomma hc h =>
    have hbetween := length_of_skipBlank_cons hcomma
    exact Nat.le_of_lt (Nat.lt_of_le_of_lt (length_of_skipBlank_cons h) hbetween)

theorem OverName.length_lt {first : Bool} {name : String} (h : OverName first cs name rest) :
    rest.length < cs.length := by
  cases h with
  | first h hname =>
    have hafter := length_of_skipBlank_cons h
    exact Nat.lt_trans (length_skipChars_lt (skipChars_of_readChars hname)) hafter
  | comma hcomma h hname =>
    have hbetween := length_of_skipBlank_cons hcomma
    have hafter := Nat.lt_trans (length_of_skipBlank_cons h) hbetween
    exact Nat.lt_trans (length_skipChars_lt (skipChars_of_readChars hname)) hafter

/-- A value that has nothing inside is passed over in one step. -/
theorem Passes.of_scalar (hlength : rest.length < cs.length)
    (h : ∀ fuel frames, skipInside (fuel + 1) frames cs = skipAfter fuel frames true rest) :
    Passes cs rest := by
  refine ⟨hlength, fun fuel frames hfuel => ?_⟩
  obtain ⟨fuel, rfl⟩ : ∃ left, fuel = left + 1 := ⟨fuel - 1, by omega⟩
  exact ⟨fuel, by omega, h fuel frames⟩

theorem PassesTo.closing {frame : Frame} {comma : Bool} (h : skipBlank cs = frame.closing :: rest) :
    PassesTo frame comma cs rest := by
  have hlength := length_of_skipBlank_cons h
  have hcomma : frame.closing ≠ ',' := by cases frame <;> decide
  refine ⟨hlength, fun fuel frames hfuel => ?_⟩
  obtain ⟨fuel, rfl⟩ : ∃ left, fuel = left + 1 := ⟨fuel - 1, by omega⟩
  refine ⟨fuel, by omega, ?_⟩
  rw [skipAfter]
  simp only [h, hcomma, and_false, if_false, if_true]

/-- What stands behind an opening bracket, and the bracket. -/
theorem PassesTo.enclosed {frame : Frame} {opening : Char} (h : PassesTo frame false cs rest)
    (hopening : ∀ fuel frames, skipInside (fuel + 1) frames (opening :: cs) =
      skipAfter fuel (frame :: frames) false cs) : Passes (opening :: cs) rest := by
  refine ⟨Nat.lt_succ_of_lt h.shorter, fun fuel frames hfuel => ?_⟩
  rw [List.length_cons] at hfuel
  obtain ⟨fuel, rfl⟩ : ∃ left, fuel = left + 1 := ⟨fuel - 1, by omega⟩
  rw [hopening]
  exact h.skips fuel frames (by omega)

theorem skipInside_skipBlank (fuel : Nat) (frames : List Frame) (cs : List Char) :
    skipInside (fuel + 1) frames (skipBlank cs) = skipInside (fuel + 1) frames cs := by
  rw [skipInside, skipInside, skipBlank_skipBlank]

/-- What is passed over as it stands is passed over behind blanks. -/
theorem Passes.of_skipBlank (h : Passes (skipBlank cs) rest) : Passes cs rest := by
  obtain ⟨hlength, hpass⟩ := h
  have hle := length_skipBlank_le cs
  refine ⟨by omega, fun fuel frames hfuel => ?_⟩
  obtain ⟨fuel, rfl⟩ : ∃ left, fuel = left + 1 := ⟨fuel - 1, by omega⟩
  rw [← skipInside_skipBlank]
  exact hpass (fuel + 1) frames (by omega)

/-- A value on the way to the end of what stands in an array or object. -/
theorem Passes.then {frame : Frame} {comma : Bool} {value behind : List Char}
    (hvalue : Passes value behind) (hbehind : PassesTo frame true behind rest)
    (hlength : value.length ≤ cs.length)
    (h : ∀ fuel frames, skipAfter (fuel + 1) (frame :: frames) comma cs =
      skipInside fuel (frame :: frames) value) : PassesTo frame comma cs rest := by
  obtain ⟨hshorter, hvalue⟩ := hvalue
  obtain ⟨hshorter', hbehind⟩ := hbehind
  refine ⟨by omega, fun fuel frames hfuel => ?_⟩
  obtain ⟨fuel, rfl⟩ : ∃ left, fuel = left + 1 := ⟨fuel - 1, by omega⟩
  obtain ⟨left, hleft, hpass⟩ := hvalue fuel (frame :: frames) (by omega)
  obtain ⟨left', hleft', hpass'⟩ := hbehind left frames hleft
  exact ⟨left', hleft', by rw [h, hpass, hpass']⟩

variable {read : List Char → Reading Json}
  (hread : ∀ {cs rest : List Char} {j : Json}, read cs = .ok (j, rest) → Passes cs rest)

include hread

theorem passesTo_of_spellsElements {first : Bool} {xs : List Json}
    (h : SpellsElements read first cs xs rest) : PassesTo .list (!first) cs rest := by
  induction h with
  | nil h => exact .closing h
  | cons hto hx _ ih =>
    have hvalue := hread hx
    cases hto with
    | first hc h =>
      refine hvalue.then ih (length_of_skipBlank_cons h) fun fuel frames => ?_
      simp [skipAfter, h, hc, Frame.closing]
    | comma hcomma hc h =>
      rw [← h] at hvalue
      refine hvalue.of_skipBlank.then ih (Nat.le_of_lt (length_of_skipBlank_cons hcomma))
        fun fuel frames => ?_
      simp [skipAfter, hcomma]

theorem passesTo_of_spellsMembers {first : Bool} {ms : List (String × Json)}
    (h : SpellsMembers read first cs ms rest) : PassesTo .object (!first) cs rest := by
  induction h with
  | nil h => exact .closing h
  | cons hname hcolon hv _ ih =>
    have hlength := Nat.lt_trans (length_of_skipBlank_cons hcolon) hname.length_lt
    refine (hread hv).then ih (Nat.le_of_lt hlength) fun fuel frames => ?_
    rw [← readColon_eq_ok_iff] at hcolon
    cases hname with
    | first h hchars =>
      simp [skipAfter, h, Frame.closing, skipName, skipBlank_of_eq_cons h,
        skipChars_of_readChars hchars, hcolon]
    | comma hcomma h hchars =>
      simp [skipAfter, hcomma, skipName, h, skipChars_of_readChars hchars, hcolon]

end Values

theorem passes_of_spells {levels : Nat} {cs rest : List Char} {j : Json}
    (hread : ∀ {below : Nat} {cs rest : List Char} {j : Json}, below < levels →
      readValue below cs = .ok (j, rest) → Passes cs rest)
    (h : Spells levels (skipBlank cs) j rest) : Passes cs rest := by
  refine Passes.of_skipBlank ?_
  have hblank := skipBlank_skipBlank cs
  generalize skipBlank cs = text at h hblank ⊢
  cases h with
  | null h =>
    exact .of_scalar (Nat.lt_succ_of_le (length_readWord_le h)) fun fuel frames => by
      simp [skipInside, hblank, h]
  | true h =>
    exact .of_scalar (Nat.lt_succ_of_le (length_readWord_le h)) fun fuel frames => by
      simp [skipInside, hblank, h]
  | false h =>
    exact .of_scalar (Nat.lt_succ_of_le (length_readWord_le h)) fun fuel frames => by
      simp [skipInside, hblank, h]
  | string h =>
    have hskip := skipChars_of_readChars h
    exact .of_scalar (Nat.lt_succ_of_lt (length_skipChars_lt hskip)) fun fuel frames => by
      simp [skipInside, hblank, hskip]
  | number hc h =>
    rcases startsNumber_cases hc with rfl | ⟨hminus, d, hd⟩
    · have hskip := skipMagnitude_of_readMagnitude h
      exact .of_scalar (Nat.lt_succ_of_lt (length_skipMagnitude_lt hskip)) fun fuel frames => by
        simp [skipInside, hblank, hskip]
    · rw [readNumber] at h
      · have hskip := skipMagnitude_of_readMagnitude h
        obtain ⟨-, -, hn, ht, hf, hquote, hlist, hobject⟩ := startsNumber_not hc
        refine .of_scalar (length_skipMagnitude_lt hskip) fun fuel frames => ?_
        simp [skipInside, hblank, hd, hskip]
      · rintro ds ⟨⟩
        exact hminus rfl
  | array h =>
    refine (passesTo_of_spellsElements (hread (Nat.lt_succ_self _)) h).enclosed fun _ _ => ?_
    rw [skipInside, hblank]
    rfl
  | object h =>
    refine (passesTo_of_spellsMembers (hread (Nat.lt_succ_self _)) h).enclosed fun _ _ => ?_
    rw [skipInside, hblank]
    rfl

theorem passes_of_readValue {levels : Nat} {cs rest : List Char} {j : Json}
    (h : readValue levels cs = .ok (j, rest)) : Passes cs rest := by
  induction levels using Nat.strongRecOn generalizing cs rest j with
  | ind levels ih => exact passes_of_spells (fun hbelow h => ih _ hbelow h) (spells_of_readValue h)

/-- What can be read can be passed over. -/
theorem skipValue_of_readValue {levels : Nat} {cs rest : List Char} {j : Json}
    (h : readValue levels cs = .ok (j, rest)) : skipValue cs = .ok rest := by
  obtain ⟨left, hleft, hskip⟩ :=
    (passes_of_readValue h).skips (2 * cs.length + 2) [] (Nat.le_refl _)
  obtain ⟨left, rfl⟩ : ∃ fewer, left = fewer + 1 := ⟨left - 1, by omega⟩
  rw [skipValue, hskip, skipAfter]

end Json
end ResourceSearch
