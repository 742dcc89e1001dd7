import ResourceSearch.Proofs.Json.Brackets

/-!
Values survive writing and reading, in every layout of blanks and wherever their text stands
(`readValue_write`).  A value may be nested as deep as the reader goes; a number has to be one that
its own text gives back.
-/

namespace ResourceSearch
namespace Json

mutual

/-- Whether every number of a value is given back by its text. -/
def NumbersReadBack : Json → Prop
  | .number n => n.ReadsBack
  | .array xs => NumbersReadBackElements xs
  | .object ms => NumbersReadBackMembers ms
  | _ => True

def NumbersReadBackElements : List Json → Prop
  | [] => True
  | x :: xs => NumbersReadBack x ∧ NumbersReadBackElements xs

def NumbersReadBackMembers : List (String × Json) → Prop
  | [] => True
  | (_, v) :: ms => NumbersReadBack v ∧ NumbersReadBackMembers ms

end

/-! ## The first character of a value -/

theorem startsNumber_not {c : Char} (h : startsNumber c = true) :
    isBlank c = false ∧ c ≠ ']' ∧ c ≠ 'n' ∧ c ≠ 't' ∧ c ≠ 'f' ∧ c ≠ '"' ∧ c ≠ '[' ∧ c ≠ '{' := by
  have hother : ∀ d, startsNumber d = false → c ≠ d := by
    intro d hd hcd
    rw [hcd, hd] at h
    cases h
  have hblank : isBlank c = false := by
    simp [isBlank, hother ' ' rfl, hother '\n' rfl, hother '\t' rfl, hother '\r' rfl]
  exact ⟨hblank, hother _ rfl, hother _ rfl, hother _ rfl, hother _ rfl, hother _ rfl,
    hother _ rfl, hother _ rfl⟩

theorem writeNumber_starts {n : Number} (h : n.ReadsBack) :
    ∃ c cs, writeNumber n = c :: cs ∧ startsNumber c = true := by
  unfold Number.ReadsBack at h
  generalize writeNumber n = text at h ⊢
  cases text with
  | nil => cases h
  | cons c cs =>
    refine ⟨c, cs, rfl, ?_⟩
    by_cases hminus : c = '-'
    · rw [hminus]
      rfl
    · rw [readNumber.eq_2 _ fun _ hcs => hminus (List.cons.inj hcs).1] at h
      by_cases hzero : c = '0'
      · rw [hzero]
        rfl
      · rw [readMagnitude.eq_4 _ _ _ hzero] at h
        cases hdigit : digit? c with
        | some d => simp [startsNumber, hdigit]
        | none =>
          rw [hdigit] at h
          cases h

theorem startsValue_write (layout : Layout) (depth : Nat) {j : Json} (h : j.NumbersReadBack) :
    StartsValue (write layout depth j) := by
  cases j with
  | null => exact ⟨_, _, by rw [write], rfl, by decide⟩
  | bool b =>
    cases b with
    | true => exact ⟨_, _, by rw [write], rfl, by decide⟩
    | false => exact ⟨_, _, by rw [write], rfl, by decide⟩
  | number n =>
    obtain ⟨c, cs, hcs, hc⟩ := writeNumber_starts h
    exact ⟨c, cs, by rw [write, hcs], (startsNumber_not hc).1, (startsNumber_not hc).2.1⟩
  | string s => exact ⟨_, _, by rw [write, writeString], rfl, by decide⟩
  | array xs =>
    cases xs with
    | nil => exact ⟨_, _, by rw [write], rfl, by decide⟩
    | cons x xs => exact ⟨_, _, by rw [write], rfl, by decide⟩
  | object ms =>
    cases ms with
    | nil => exact ⟨_, _, by rw [write], rfl, by decide⟩
    | cons m ms => exact ⟨_, _, by rw [write], rfl, by decide⟩

theorem write_array_cons (layout : Layout) (depth : Nat) (xs : List Json) :
    ∃ cs, write layout depth (.array xs) = '[' :: cs := by
  cases xs with
  | nil => exact ⟨_, by rw [write]⟩
  | cons x xs => exact ⟨_, by rw [write]⟩

theorem write_object_cons (layout : Layout) (depth : Nat) (ms : List (String × Json)) :
    ∃ cs, write layout depth (.object ms) = '{' :: cs := by
  cases ms with
  | nil => exact ⟨_, by rw [write]⟩
  | cons m ms => exact ⟨_, by rw [write]⟩

/-- Behind its bracket, an array is text that its elements are read from. -/
theorem readElements_array {α : Type} {read : List Char → Reading α} {layout : Layout}
    (hl : layout.IsBlank) {depth : Nat} {xs : List Json} {values : List α}
    (h : ReadsElements read layout (depth + 1) xs values) (rest : List Char) :
    ∃ cs, write layout depth (.array xs) = '[' :: cs ∧
      readElements read ((cs ++ rest).length + 1) true [] (cs ++ rest) =
        .ok (values, ']' :: rest) := by
  obtain ⟨cs, hcs⟩ := write_array_cons layout depth xs
  have hopen : write layout depth (.array xs) ++ rest = '[' :: (cs ++ rest) := by
    rw [hcs, List.cons_append]
  exact ⟨cs, hcs, readElements_write hl h hopen (Nat.le_refl _)⟩

/-- Behind its bracket, an object is text that its members are read from. -/
theorem readMembers_object {σ : Type} {member : String → σ → List Char → Reading σ}
    {layout : Layout} (hl : layout.IsBlank) {depth : Nat} {ms : List (String × Json)} {s t : σ}
    (h : ReadsMembers member layout (depth + 1) s ms t) (rest : List Char) :
    ∃ cs, write layout depth (.object ms) = '{' :: cs ∧
      readMembers member ((cs ++ rest).length + 1) true s (cs ++ rest) = .ok (t, '}' :: rest) := by
  obtain ⟨cs, hcs⟩ := write_object_cons layout depth ms
  have hopen : write layout depth (.object ms) ++ rest = '{' :: (cs ++ rest) := by
    rw [hcs, List.cons_append]
  exact ⟨cs, hcs, readMembers_write hl h hopen (Nat.le_refl _)⟩

/-! ## Scalars -/

theorem readDatum_number {bracket : List Char → Reading Json} {c : Char} (cs : List Char)
    (h : startsNumber c = true) :
    readDatum bracket (c :: cs) = (readNumber (c :: cs)).map fun (n, cs) => (.number n, cs) := by
  obtain ⟨hblank, _, hn, ht, hf, hquote, hlist, hobject⟩ := startsNumber_not h
  rw [readDatum, skipBlank_cons hblank]
  simp only [h, if_true]

theorem readDatum_skip {bracket : List Char → Reading Json} {blanks text rest : List Char}
    (hb : Blank blanks) (h : StartsValue text) :
    readDatum bracket (blanks ++ (text ++ rest)) = readDatum bracket (text ++ rest) := by
  have hnone : Blank [] := fun c hc => by cases hc
  have hhere : skipBlank (text ++ rest) = text ++ rest := skipBlank_text hnone h
  rw [readDatum, skipBlank_text hb h, readDatum, hhere]

theorem reads_scalar {bracket : List Char → Reading Json} {text : List Char} {j : Json}
    (hstart : StartsValue text)
    (h : ∀ {rest : List Char}, Ends rest → readDatum bracket (text ++ rest) = .ok (j, rest)) :
    Reads (readDatum bracket) text j := by
  intro blanks rest hb hrest
  rw [readDatum_skip hb hstart]
  exact h hrest

/-- Scalars are read alike at every depth. -/
theorem readDatum_write {bracket : List Char → Reading Json} (layout : Layout) (depth : Nat)
    {j : Json} (hnumbers : j.NumbersReadBack) (hflat : j.depth = 0) :
    Reads (readDatum bracket) (write layout depth j) j := by
  refine reads_scalar (startsValue_write layout depth hnumbers) ?_
  intro rest hrest
  cases j with
  | null => rw [write]; rfl
  | bool b =>
    cases b with
    | true => rw [write]; rfl
    | false => rw [write]; rfl
  | number n =>
    have hread := readNumber_append hnumbers hrest
    obtain ⟨c, cs, hcs, hc⟩ := writeNumber_starts hnumbers
    rw [write, hcs, List.cons_append, readDatum_number _ hc, ← List.cons_append, ← hcs, hread]
    rfl
  | string s =>
    rw [write, writeString_append, readDatum, skipBlank_cons rfl]
    simp [readChars_writeString, Except.map]
  | array xs => simp [Json.depth] at hflat
  | object ms => simp [Json.depth] at hflat

theorem readValue_flat {layout : Layout} {depth levels : Nat} {j : Json}
    (hnumbers : j.NumbersReadBack) (hflat : j.depth = 0) :
    Reads (readValue levels) (write layout depth j) j := by
  cases levels with
  | zero =>
    rw [readValue]
    exact readDatum_write layout depth hnumbers hflat
  | succ levels =>
    rw [readValue]
    exact readDatum_write layout depth hnumbers hflat

/-! ## Arrays and objects -/

theorem readValue_skip {levels : Nat} {blanks text rest : List Char} (hb : Blank blanks)
    (h : StartsValue text) : readValue levels (blanks ++ (text ++ rest)) =
      readValue levels (text ++ rest) := by
  cases levels with
  | zero => rw [readValue, readDatum_skip hb h]
  | succ levels => rw [readValue, readDatum_skip hb h]

theorem readValue_array {levels : Nat} {cs rest : List Char} {xs : List Json}
    (h : readElements (readValue levels) (cs.length + 1) true [] cs = .ok (xs, ']' :: rest)) :
    readValue (levels + 1) ('[' :: cs) = .ok (.array xs, rest) := by
  rw [readValue, readDatum, skipBlank_cons rfl]
  simp [h, closeArray_ok, Except.map]

theorem readValue_object {levels : Nat} {cs rest : List Char} {ms : List (String × Json)}
    (h : readMembers (readMemberBefore (readValue levels)) (cs.length + 1) true [] cs =
      .ok (ms, '}' :: rest)) :
    readValue (levels + 1) ('{' :: cs) = .ok (.object ms.reverse, rest) := by
  rw [readValue, readDatum, skipBlank_cons rfl]
  simp [readAllMembers, h, closeObject_ok, Except.map]

mutual

/-- A value is read back from its text. -/
theorem readValue_write {layout : Layout} (hl : layout.IsBlank) : ∀ (j : Json) (depth levels : Nat),
    j.depth ≤ levels → j.NumbersReadBack → Reads (readValue levels) (write layout depth j) j
  | .null, _, _, _, hnumbers => readValue_flat hnumbers rfl
  | .bool _, _, _, _, hnumbers => readValue_flat hnumbers rfl
  | .number _, _, _, _, hnumbers => readValue_flat hnumbers rfl
  | .string _, _, _, _, hnumbers => readValue_flat hnumbers rfl
  | .array _, _, 0, hdepth, _ => absurd hdepth (Nat.not_succ_le_zero _)
  | .object _, _, 0, hdepth, _ => absurd hdepth (Nat.not_succ_le_zero _)
  | .array xs, depth, levels + 1, hdepth, hnumbers => by
    have helements := readsElements_write hl xs (depth + 1) levels
      (Nat.le_of_succ_le_succ hdepth) hnumbers
    intro blanks rest hb hrest
    obtain ⟨cs, hcs, hread⟩ := readElements_array hl helements rest
    rw [readValue_skip hb (startsValue_write layout depth hnumbers), hcs, List.cons_append]
    exact readValue_array hread
  | .object ms, depth, levels + 1, hdepth, hnumbers => by
    have hmembers := readsMembers_write hl ms [] (depth + 1) levels
      (Nat.le_of_succ_le_succ hdepth) hnumbers
    intro blanks rest hb hrest
    obtain ⟨cs, hcs, hread⟩ := readMembers_object hl hmembers rest
    rw [readValue_skip hb (startsValue_write layout depth hnumbers), hcs, List.cons_append,
      readValue_object hread, List.append_nil, List.reverse_reverse]

theorem readsElements_write {layout : Layout} (hl : layout.IsBlank) : ∀ (xs : List Json)
    (depth levels : Nat), depthElements xs ≤ levels → NumbersReadBackElements xs →
    ReadsElements (readValue levels) layout depth xs xs
  | [], _, _, _, _ => .nil
  | x :: xs, depth, levels, hdepth, hnumbers => by
    have hmax : max x.depth (depthElements xs) ≤ levels := hdepth
    exact .cons (startsValue_write layout depth hnumbers.1)
      (readValue_write hl x depth levels (by omega) hnumbers.1)
      (readsElements_write hl xs depth levels (by omega) hnumbers.2)

/-- Members are read backwards before those that are known. -/
theorem readsMembers_write {layout : Layout} (hl : layout.IsBlank) :
    ∀ (ms known : List (String × Json)) (depth levels : Nat), depthMembers ms ≤ levels →
      NumbersReadBackMembers ms →
      ReadsMembers (readMemberBefore (readValue levels)) layout depth known ms (ms.reverse ++ known)
  | [], known, _, _, _, _ => .nil known
  | (name, v) :: ms, known, depth, levels, hdepth, hnumbers => by
    have hmax : max v.depth (depthMembers ms) ≤ levels := hdepth
    have hv := readValue_write hl v depth levels (by omega) hnumbers.1
    have hrest := readsMembers_write hl ms ((name, v) :: known) depth levels (by omega) hnumbers.2
    rw [List.reverse_cons, List.append_assoc]
    refine .cons ?_ hrest
    intro rest hends
    rw [readMemberBefore, afterColon_text hv hl.gap hends]
    rfl

end

theorem parse_write {layout : Layout} (hl : layout.IsBlank) {j : Json}
    (hdepth : j.depth ≤ maxLevels) (hnumbers : j.NumbersReadBack) :
    parse (String.ofList (write layout 0 j)) = .ok j := by
  have hread := (readValue_write hl j 0 maxLevels hdepth hnumbers).here ends_nil
  rw [List.append_nil] at hread
  rw [parse, readAll, String.toList_ofList]
  simp [hread, skipBlank]

end Json
end ResourceSearch
