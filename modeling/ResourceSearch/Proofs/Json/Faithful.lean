import ResourceSearch.Proofs.Json.Depth
import ResourceSearch.Proofs.Json.Skipping

/-!
Reading a type from text is decoding the value that the text spells.  A decoder is faithful
(`Decoder.Faithful`) if it makes the same of both, and fails on both or on neither; only what it
says of a failure may differ.  Options, lists, records and tagged unions are faithful where their
parts are.
-/

namespace ResourceSearch
namespace Json

/-! ## Two outcomes -/

/-- What came of reading text, up to `rest`, and of decoding what it spells. -/
inductive Alike {α : Type} (rest : List Char) : Reading α → Except Cause α → Prop
  | ok (a : α) : Alike rest (.ok (a, rest)) (.ok a)
  | error (fault : Fault) (cause : Cause) : Alike rest (.error fault) (.error cause)

namespace Alike

variable {α β : Type} {rest left : List Char} {r : Reading α} {e : Except Cause α}

theorem cases (h : Alike rest r e) :
    (∃ a, r = .ok (a, rest) ∧ e = .ok a) ∨ ∃ fault cause, r = .error fault ∧ e = .error cause := by
  cases h with
  | ok a => exact .inl ⟨a, rfl, rfl⟩
  | error fault cause => exact .inr ⟨fault, cause, rfl, rfl⟩

theorem map (f : α → β) (h : Alike rest r e) :
    Alike rest (r.map fun (a, cs) => (f a, cs)) (e.map f) := by
  cases h with
  | ok a => exact .ok (f a)
  | error fault cause => exact .error fault cause

theorem check (rest : List Char) (e : Except Cause α) : Alike rest (Json.check rest e) e := by
  cases e with
  | ok a => exact .ok a
  | error cause => exact .error _ cause

theorem closeArray (h : Alike (']' :: rest) r e) : Alike rest (Json.closeArray r) e := by
  cases h with
  | ok a => exact .ok a
  | error fault cause =>
    obtain ⟨other, place⟩ := fault
    cases place <;> exact .error _ cause

theorem closeObject (h : Alike ('}' :: rest) r e) : Alike rest (Json.closeObject r) e := by
  cases h with
  | ok a => exact .ok a
  | error fault cause =>
    obtain ⟨other, place⟩ := fault
    cases place <;> exact .error _ cause

end Alike

/-! ## What stands in brackets -/

theorem SpellsElements.length_le {levels : Nat} {first : Bool} {cs rest : List Char}
    {xs : List Json} (h : SpellsElements (readValue levels) first cs xs rest) :
    xs.length ≤ cs.length := by
  induction h with
  | nil => exact Nat.zero_le _
  | cons hto hx _ ih =>
    have hvalue := (passes_of_readValue hx).shorter
    have hto := hto.length_le
    rw [List.length_cons]
    omega

theorem SpellsMembers.length_le {levels : Nat} {first : Bool} {cs rest : List Char}
    {ms : List (String × Json)} (h : SpellsMembers (readValue levels) first cs ms rest) :
    ms.length ≤ cs.length := by
  induction h with
  | nil => exact Nat.zero_le _
  | cons hname hcolon hv _ ih =>
    have hvalue := (passes_of_readValue hv).shorter
    have hcolon := length_of_skipBlank_cons hcolon
    have hname := hname.length_lt
    rw [List.length_cons]
    omega

theorem alike_readElements {α : Type} {levels fuel : Nat} {read : List Char → Reading α}
    {decode : Json → Except Cause α}
    (hread : ∀ {cs rest : List Char} {j : Json}, readValue levels cs = .ok (j, rest) →
      Alike rest (read cs) (decode j)) {first : Bool} {cs rest : List Char} {xs : List Json}
    (h : SpellsElements (readValue levels) first cs xs rest) (hfuel : xs.length < fuel)
    (done : List α) :
    Alike (']' :: rest) (readElements read fuel first done cs)
      ((xs.mapM decode).map fun ys => done.reverse ++ ys) := by
  induction h generalizing fuel done with
  | nil hend =>
    obtain ⟨fuel, rfl⟩ : ∃ left, fuel = left + 1 := ⟨fuel - 1, by omega⟩
    rw [readElements, nextElement_of_end _ hend]
    show Alike _ _ (.ok (done.reverse ++ []))
    rw [List.append_nil]
    exact .ok _
  | cons hto hx _ ih =>
    obtain ⟨fuel, rfl⟩ : ∃ left, fuel = left + 1 := ⟨fuel - 1, by omega⟩
    rw [readElements, hto.nextElement_eq, List.mapM_cons]
    dsimp only
    rcases (hread hx).cases with ⟨a, hr, he⟩ | ⟨fault, cause, hr, he⟩
    · rw [hr, he]
      have hrest := ih (Nat.lt_of_succ_lt_succ hfuel) (a :: done)
      simp only [List.reverse_cons, List.append_assoc, List.singleton_append] at hrest
      generalize List.mapM decode _ = ys at hrest ⊢
      cases ys <;> exact hrest
    · rw [hr, he]
      exact .error fault cause

theorem alike_elements {α : Type} {levels fuel : Nat} {read : List Char → Reading α}
    {decode : Json → Except Cause α}
    (hread : ∀ {cs rest : List Char} {j : Json}, readValue levels cs = .ok (j, rest) →
      Alike rest (read cs) (decode j)) {first : Bool} {cs rest : List Char} {xs : List Json}
    (h : SpellsElements (readValue levels) first cs xs rest) (hfuel : xs.length < fuel) :
    Alike (']' :: rest) (readElements read fuel first [] cs) (xs.mapM decode) := by
  have hall := alike_readElements hread h hfuel []
  generalize List.mapM decode xs = ys at hall ⊢
  cases ys <;> exact hall

theorem SpellsElements.readElements_eq {levels fuel : Nat} {first : Bool} {cs rest : List Char}
    {xs : List Json} (h : SpellsElements (readValue levels) first cs xs rest)
    (hfuel : xs.length < fuel) :
    readElements (readValue levels) fuel first [] cs = .ok (xs, ']' :: rest) := by
  have hvalue : ∀ {cs rest : List Char} {j : Json}, readValue levels cs = .ok (j, rest) →
      Alike rest (readValue levels cs) (.ok j) := by
    intro cs rest j hread
    rw [hread]
    exact .ok j
  have hpure : xs.mapM (Except.ok : Json → Except Cause Json) = .ok xs :=
    List.mapM_pure.trans (congrArg Except.ok (List.map_id xs))
  rcases (alike_elements hvalue h hfuel).cases with ⟨ys, hr, he⟩ | ⟨_, _, -, he⟩
  · rw [hpure] at he
    cases he
    exact hr
  · rw [hpure] at he
    cases he

/-- Members that are read one after the other come to what decoding them one after the other does,
if each of them does. -/
theorem alike_readMembers {σ : Type} {levels fuel : Nat}
    {member : String → σ → List Char → Reading σ} {step : σ → String × Json → Except Cause σ}
    (hmember : ∀ {after value behind : List Char} {v : Json} (name : String) (s : σ),
      readColon after = .ok value → readValue levels value = .ok (v, behind) →
      Alike behind (member name s after) (step s (name, v)))
    {first : Bool} {cs rest : List Char} {ms : List (String × Json)}
    (h : SpellsMembers (readValue levels) first cs ms rest) (hfuel : ms.length < fuel) (s : σ) :
    Alike ('}' :: rest) (readMembers member fuel first s cs) (ms.foldlM step s) := by
  induction h generalizing fuel s with
  | nil hend =>
    obtain ⟨fuel, rfl⟩ : ∃ left, fuel = left + 1 := ⟨fuel - 1, by omega⟩
    rw [readMembers, nextName_of_end _ hend]
    exact .ok s
  | cons hname hcolon hv _ ih =>
    obtain ⟨fuel, rfl⟩ : ∃ left, fuel = left + 1 := ⟨fuel - 1, by omega⟩
    rw [readMembers, hname.nextName_eq, List.foldlM_cons]
    dsimp only
    rcases (hmember _ s (readColon_eq_ok_iff.mpr hcolon) hv).cases with
      ⟨t, hr, he⟩ | ⟨fault, cause, hr, he⟩
    · rw [hr, he]
      exact ih (Nat.lt_of_succ_lt_succ hfuel) t
    · rw [hr, he]
      exact .error fault cause

/-! ## Decoders -/

section Starts

variable {α : Type} {levels : Nat} {cs rest : List Char} {j : Json}

theorem readValue_skipBlank (levels : Nat) (cs : List Char) :
    readValue levels (skipBlank cs) = readValue levels cs := by
  cases levels <;> simp only [readValue, readDatum, skipBlank_skipBlank]

theorem Spells.exists_cons {text : List Char} (h : Spells levels text j rest) :
    ∃ c after, text = c :: after := by
  cases h <;> exact ⟨_, _, rfl⟩

/-- A datum is read if it starts as wanted, and refused otherwise. -/
theorem alike_readFrom {wanted : String} {start : Char → Bool} {read : List Char → Reading α}
    {decoded : Except Cause α} (h : readValue levels cs = .ok (j, rest))
    (hstart : ∀ c after, start c = true → Spells levels (c :: after) j rest →
      Alike rest (read (c :: after)) decoded)
    (hother : ∀ c after, start c = false → Spells levels (c :: after) j rest →
      ∃ cause, decoded = .error cause) :
    Alike rest (readFrom wanted start read cs) decoded := by
  have hspells := spells_of_readValue h
  obtain ⟨c, after, hcs⟩ := hspells.exists_cons
  rw [hcs] at hspells
  simp only [readFrom, hcs]
  cases hc : start c with
  | true => exact hstart c after hc hspells
  | false =>
    obtain ⟨cause, rfl⟩ := hother c after hc hspells
    exact .error _ cause

end Starts

namespace Decoder

variable {α β : Type}

/-- A decoder that makes of text what it makes of the value that the text spells. -/
def Faithful (d : Decoder α) : Prop :=
  ∀ ⦃levels : Nat⦄ ⦃cs rest : List Char⦄ ⦃j : Json⦄, readValue levels cs = .ok (j, rest) →
    ∀ origin, Alike rest (d.read levels cs) (d.decode origin j)

/-! ### Scalars -/

theorem alike_readText {levels : Nat} {cs rest : List Char} {j : Json} (wanted : String)
    (h : readValue levels cs = .ok (j, rest)) (origin : Origin) :
    Alike rest (readText wanted cs) (string.decode origin j) := by
  refine alike_readFrom h (fun c after hc hspells => ?_) fun c after hc hspells => ?_
  · cases hspells with
    | string hchars =>
      show Alike rest (readChars [] after) _
      rw [hchars]
      exact .ok _
    | number hnumber => exact absurd (beq_iff_eq.mp hc) (startsNumber_not hnumber).2.2.2.2.2.1
    | _ => exact absurd hc (by decide)
  · cases hspells with
    | string => exact absurd hc (by decide)
    | _ => exact ⟨_, rfl⟩

@[simp] theorem faithful_string : string.Faithful := fun _ _ _ _ h => alike_readText "a string" h

@[simp] theorem faithful_count (limit : Nat) (name : String) : (count limit name).Faithful := by
  intro levels cs rest j h origin
  simp only [count]
  refine alike_readFrom h (fun c after hc hspells => ?_) fun c after hc hspells => ?_
  · cases hspells with
    | number _ hread =>
      simp only [hread]
      exact .check rest _
    | _ => exact absurd hc (by decide)
  · cases hspells with
    | number hnumber => rw [hnumber] at hc; cases hc
    | _ => exact ⟨_, rfl⟩

/-! ### Names with a fixed meaning -/

theorem alike_readName (known : List (String × α)) {levels : Nat} {cs rest : List Char} {j : Json}
    (h : readValue levels cs = .ok (j, rest)) (origin : Origin) :
    Alike rest (readName known cs) ((string.decode origin j).bind (meaning known)) := by
  rw [readName]
  rcases (alike_readText "variant identifier" h origin).cases with
    ⟨s, hr, he⟩ | ⟨fault, cause, hr, he⟩
  · rw [hr, he]
    exact .check rest _
  · rw [hr, he]
    exact .error fault cause

/-- `null` is read where it is wanted, and nothing else. -/
theorem readNull_cases {levels : Nat} {cs rest : List Char} {j : Json}
    (h : readValue levels cs = .ok (j, rest)) :
    j = .null ∧ readNull cs = .ok rest ∨ j ≠ .null ∧ ∃ fault, readNull cs = .error fault := by
  have hspells := spells_of_readValue h
  obtain ⟨c, after, hcs⟩ := hspells.exists_cons
  rw [hcs] at hspells
  simp only [readNull, readFrom, hcs]
  cases hspells with
  | null hword =>
    refine .inl ⟨rfl, ?_⟩
    rw [if_pos (beq_self_eq_true 'n'), List.drop_one, List.tail_cons, hword]
    rfl
  | number hnumber =>
    refine .inr ⟨nofun, ?_⟩
    rw [if_neg fun hc => (startsNumber_not hnumber).2.2.1 (beq_iff_eq.mp hc)]
    exact ⟨_, rfl⟩
  | _ => exact .inr ⟨nofun, _, rfl⟩

theorem readName_of_chars (known : List (String × α)) {cs rest : List Char} {s : String}
    (h : readChars [] cs = .ok (s, rest)) :
    readName known ('"' :: cs) = check rest (meaning known s) := by
  have hquote : skipBlank ('"' :: cs) = '"' :: cs := rfl
  simp [readName, readText, readFrom, hquote, h]

/-- One of some names as the only name of an object. -/
theorem alike_onlyName (known : List (String × α)) {levels : Nat} {cs rest : List Char}
    {ms : List (String × Json)} (h : SpellsMembers (readValue levels) true cs ms rest)
    (origin : Origin) :
    Alike rest ((choice known).read (levels + 1) ('{' :: cs))
      ((choice known).decode origin (.object ms)) := by
  have hopen : skipBlank ('{' :: cs) = '{' :: cs := rfl
  simp only [choice, hopen]
  cases h with
  | nil hend =>
    simp only [readKey, hend]
    exact .error _ _
  | cons hname hcolon hv hms =>
    rw [← readColon_eq_ok_iff] at hcolon
    cases hname with
    | first hquote hchars =>
      simp only [readKey, hquote, readName_of_chars known hchars]
      cases hmeaning : meaning known _ with
      | error cause =>
        cases hms with
        | nil =>
          simp only [hmeaning]
          exact .error _ _
        | cons => exact .error _ _
      | ok a =>
        simp only [check, hcolon, Except.bind]
        rcases readNull_cases hv with ⟨rfl, hnull⟩ | ⟨hother, fault, hfault⟩
        · simp only [hnull]
          cases hms with
          | nil hend =>
            simp only [hend, hmeaning]
            exact .ok a
          | cons hname _ _ _ =>
            cases hname with
            | comma hcomma _ _ =>
              simp only [hcomma]
              exact .error _ _
        · simp only [hfault]
          cases hms with
          | nil =>
            simp only [hmeaning]
            exact .error _ _
          | cons => exact .error _ _

@[simp] theorem faithful_choice (known : List (String × α)) : (choice known).Faithful := by
  intro levels cs rest j h origin
  have hspells := spells_of_readValue h
  rw [← readValue_skipBlank] at h
  have hread : (choice known).read levels cs = (choice known).read levels (skipBlank cs) := by
    simp only [choice, skipBlank_skipBlank]
  have hblank := skipBlank_skipBlank cs
  rw [hread]
  generalize skipBlank cs = text at h hspells hblank ⊢
  cases hspells with
  | object hmembers => exact alike_onlyName known hmembers origin
  | string hchars =>
    simp only [choice, hblank]
    exact alike_readName known h origin
  | number hnumber _ =>
    obtain ⟨-, -, -, -, -, hquote, -, hobject⟩ := startsNumber_not hnumber
    simp only [choice, hblank]
    split
    next heq => cases heq
    next heq => exact absurd (List.cons.inj heq).1 hquote
    next heq => exact absurd (List.cons.inj heq).1 hobject
    · exact .error _ _
  | _ =>
    simp only [choice, hblank]
    exact .error _ _

/-! ### Maps, options and lists -/

@[simp] theorem faithful_map {f : α → β} {d : Decoder α} (h : d.Faithful) : (d.map f).Faithful :=
  fun _ _ _ _ hread origin => (h hread origin).map f

@[simp] theorem faithful_optional {d : Decoder α} (h : d.Faithful) : (optional d).Faithful := by
  intro levels cs rest j hread origin
  have hspells := spells_of_readValue hread
  rw [← readValue_skipBlank] at hread
  simp only [optional]
  generalize skipBlank cs = text at hread hspells
  have hd := (h hread origin).map some
  cases hspells with
  | null hword =>
    simp only [hword]
    exact .ok none
  | number hnumber _ =>
    split
    next heq => exact absurd (List.cons.inj heq).1 (startsNumber_not hnumber).2.2.1
    · exact hd
  | _ => exact hd

@[simp] theorem faithful_list {d : Decoder α} (h : d.Faithful) : (list d).Faithful := by
  intro levels cs rest j hread origin
  simp only [list]
  refine alike_readFrom hread (fun c after hc hspells => ?_) fun c after hc hspells => ?_
  · cases hspells with
    | array helements =>
      have hfuel := Nat.lt_succ_of_le helements.length_le
      exact (alike_elements (fun hx => h hx origin) helements hfuel).closeArray
    | number hnumber =>
      exact absurd (beq_iff_eq.mp hc) (startsNumber_not hnumber).2.2.2.2.2.2.1
    | _ => exact absurd hc (by decide)
  · cases hspells with
    | array => exact absurd hc (by decide)
    | _ => exact ⟨_, rfl⟩

end Decoder

/-! ## Records -/

/-- A field that makes of text what it makes of the value that the text spells. -/
def Field.Faithful {σ : Type} (f : Field σ) : Prop :=
  ∀ ⦃levels : Nat⦄ ⦃cs rest : List Char⦄ ⦃j : Json⦄, readValue levels cs = .ok (j, rest) →
    ∀ origin s, Alike rest (f.read levels s cs) (f.decode origin s j)

@[simp] theorem Field.faithful_of {σ β : Type} {name : String} {get : σ → Option β}
    {set : σ → β → σ} {d : Decoder β} {mayLack : Bool} {aliases : List String} (h : d.Faithful) :
    (Field.of name get set d mayLack aliases).Faithful :=
  fun _ _ _ _ hread origin s => (h hread origin).map (set s)

namespace Record

variable {σ α : Type} {levels : Nat} {cs rest : List Char}

/-- What one member of an object adds to what is known of a record and to the members that are
kept. -/
def decodeMember (r : Record σ α) (origin : Origin) (known : σ × List (String × Json))
    (m : String × Json) : Except Cause (σ × List (String × Json)) :=
  match r.field? m.1 with
  | some f =>
    if f.isKnown known.1 then .error (.duplicateField f.name)
    else (f.decode origin known.1 m.2).map fun s => (s, known.2)
  | none => .ok (known.1, if r.keepsOthers then m :: known.2 else known.2)

theorem decodeMembers_eq (r : Record σ α) (origin : Origin) (s : σ)
    (others ms : List (String × Json)) :
    r.decodeMembers origin s others ms =
      (ms.foldlM (r.decodeMember origin) (s, others)).bind
        fun known => r.finish known.1 known.2.reverse := by
  induction ms generalizing s others with
  | nil => rfl
  | cons m ms ih =>
    rw [decodeMembers, List.foldlM_cons, decodeMember]
    cases r.field? m.1 with
    | none => exact ih s _
    | some f =>
      dsimp only
      split
      · rfl
      · cases f.decode origin s m.2 with
        | error cause => rfl
        | ok t => exact ih t others

theorem alike_member {r : Record σ α} (hfields : ∀ f ∈ r.fields, f.Faithful)
    {after value behind : List Char} {v : Json} (origin : Origin) (name : String)
    (known : σ × List (String × Json)) (hcolon : readColon after = .ok value)
    (hv : readValue levels value = .ok (v, behind)) :
    Alike behind (r.readMember levels name known after)
      (r.decodeMember origin known (name, v)) := by
  rw [readMember, decodeMember]
  cases hfield : r.field? name with
  | some f =>
    have hf := hfields f (List.mem_of_find?_eq_some hfield) hv origin known.1
    dsimp only
    split
    · exact .error _ _
    · simp only [afterColon, hcolon]
      exact hf.map fun s => (s, known.2)
  | none =>
    dsimp only
    cases r.keepsOthers with
    | true =>
      simp only [if_true, afterColon, hcolon, hv]
      exact .ok _
    | false =>
      simp only [hcolon, Except.bind, skipValue_of_readValue hv]
      exact .ok known

theorem alike_object {r : Record σ α} (hfields : ∀ f ∈ r.fields, f.Faithful)
    {ms : List (String × Json)} (h : SpellsMembers (readValue levels) true cs ms rest)
    (origin : Origin) : Alike rest (r.readObject levels cs) (r.decodeObject origin ms) := by
  have hms := alike_readMembers (fun name s => alike_member hfields origin name s) h
    (Nat.lt_succ_of_le h.length_le) (r.start, [])
  rw [readObject, decodeObject, decodeMembers_eq]
  refine Alike.closeObject ?_
  rcases hms.cases with ⟨⟨s, others⟩, hr, he⟩ | ⟨fault, cause, hr, he⟩
  · rw [hr, he]
    dsimp only [Except.bind]
    cases r.finish s others.reverse with
    | error cause => exact .error _ cause
    | ok a => exact .ok a
  · rw [hr, he]
    exact .error fault cause

/-- Makes a record of what its fields came to. -/
def concluding (r : Record σ α) : Reading σ → Reading α
  | .error fault => .error fault
  | .ok (s, rest) =>
    match r.finish s [] with
    | .ok a => .ok (a, rest)
    | .error cause => .error (.outer cause rest)

theorem alike_conclusion (r : Record σ α) {s : σ} (hend : skipBlank cs = ']' :: rest) :
    Alike rest (closeArray (r.concluding (.ok (s, cs)))) (r.finish s []) := by
  rw [concluding]
  cases r.finish s [] with
  | error cause => exact (Alike.error (.outer cause cs) cause).closeArray
  | ok a =>
    dsimp only
    rw [closeArray_eq_ok_iff.mpr ⟨cs, rfl, hend⟩]
    exact .ok a

/-- Before one more element there is no end of an array. -/
theorem closeArray_of_toElement {first : Bool} {after : List Char} {a : α}
    (h : ToElement first cs after) : ∃ fault, closeArray (.ok (a, cs)) = .error fault := by
  cases hclose : closeArray (.ok (a, cs)) with
  | error fault => exact ⟨fault, rfl⟩
  | ok out =>
    obtain ⟨left, heq, hend⟩ := closeArray_eq_ok_iff.mp hclose
    cases heq
    cases h with
    | first hc h =>
      rw [h] at hend
      exact absurd (List.cons.inj hend).1 hc
    | comma hcomma hc h =>
      rw [hcomma] at hend
      exact absurd (List.cons.inj hend).1 (by decide)

theorem alike_fields (r : Record σ α) {fs : List (Field σ)} (hfs : ∀ f ∈ fs, f.Faithful)
    {index : Nat} {xs : List Json}
    (h : SpellsElements (readValue levels) (index == 0) cs xs rest) (origin : Origin) (length : Nat)
    (s : σ) :
    Alike rest (closeArray (r.concluding (r.readFields levels index s fs cs)))
      (r.decodeFields origin length index s fs xs) := by
  induction fs generalizing index cs xs s with
  | nil =>
    cases h with
    | nil hend => exact alike_conclusion r hend
    | cons hto hx hxs =>
      rw [readFields, decodeFields, concluding]
      cases r.finish s [] with
      | error cause => exact (Alike.error (.outer cause cs) cause).closeArray
      | ok a =>
        obtain ⟨fault, hfault⟩ := closeArray_of_toElement (a := a) hto
        simp only [hfault]
        exact .error fault _
  | cons f fs ih =>
    have hrest : ∀ g ∈ fs, g.Faithful := fun g hg => hfs g (List.mem_cons_of_mem f hg)
    cases h with
    | nil hend =>
      rw [readFields, decodeFields, nextElement_of_end _ hend]
      dsimp only
      split
      · exact ih hrest (.nil (skipBlank_of_eq_cons hend)) s
      · exact (Alike.error _ _).closeArray
    | cons hto hx hxs =>
      rw [readFields, decodeFields, hto.nextElement_eq]
      dsimp only
      rcases (hfs f List.mem_cons_self hx origin s).cases with
        ⟨t, hr, he⟩ | ⟨fault, cause, hr, he⟩
      · rw [hr, he]
        have hnext : (index + 1 == 0) = false := rfl
        exact ih hrest (hnext ▸ hxs) t
      · rw [hr, he]
        exact (Alike.error fault cause).closeArray

theorem alike_array {r : Record σ α} (hfields : ∀ f ∈ r.fields, f.Faithful) {xs : List Json}
    (h : SpellsElements (readValue levels) true cs xs rest) (origin : Origin) :
    Alike rest (r.readArray levels cs) (r.decodeArray origin xs) :=
  alike_fields r hfields h origin xs.length r.start

theorem faithful {r : Record σ α} (hfields : ∀ f ∈ r.fields, f.Faithful) :
    r.decoder.Faithful := by
  intro levels cs rest j hread origin
  simp only [decoder]
  refine alike_readFrom hread (fun c after hc hspells => ?_) fun c after hc hspells => ?_
  · cases hspells with
    | object hmembers => exact alike_object hfields hmembers origin
    | array helements =>
      have hkeeps : r.keepsOthers = false := by simpa using hc
      simp only [hkeeps]
      exact alike_array hfields helements origin
    | number hnumber =>
      obtain ⟨-, -, -, -, -, -, hlist, hobject⟩ := startsNumber_not hnumber
      simp [hlist, hobject] at hc
    | _ => exact absurd hc (by simp)
  · cases hspells with
    | object => exact absurd hc (by simp)
    | array =>
      have hkeeps : r.keepsOthers = true := by simpa using hc
      exact ⟨_, if_pos hkeeps⟩
    | _ => exact ⟨_, rfl⟩

end Record

/-! ## Tagged unions -/

namespace Tagged

variable {α : Type} {levels : Nat} {cs rest : List Char}

theorem alike_decodeTag (t : Tagged α) {j : Json} (h : readValue levels cs = .ok (j, rest)) :
    Alike rest (Decoder.readName t.variants cs) (t.decodeTag j) := by
  have hname := Decoder.alike_readName t.variants h .given
  cases j with
  | string s => exact hname
  | _ =>
    rcases hname.cases with ⟨_, -, he⟩ | ⟨fault, _, hr, -⟩
    · cases he
    · rw [hr]
      exact .error fault _

/-- What one member of an object adds to the variant that is known and to the other members. -/
def decodeMember (t : Tagged α) (known : Option (Rest α) × List (String × Json))
    (m : String × Json) : Except Cause (Option (Rest α) × List (String × Json)) :=
  if m.1 = t.tag then
    if known.1.isSome then .error (.duplicateField t.tag)
    else (t.decodeTag m.2).map fun variant => (some variant, known.2)
  else .ok (known.1, m :: known.2)

/-- The variant and the other members, if the variant is known. -/
def found (t : Tagged α) :
    Option (Rest α) × List (String × Json) → Except Cause (Rest α × Json)
  | (some variant, others) => .ok (variant, .object others.reverse)
  | (none, _) => .error (.missingField t.tag)

theorem findTag_eq (t : Tagged α) (variant : Option (Rest α)) (others ms : List (String × Json)) :
    t.findTag variant others ms = (ms.foldlM t.decodeMember (variant, others)).bind t.found := by
  induction ms generalizing variant others with
  | nil => cases variant <;> rfl
  | cons m ms ih =>
    rw [findTag, List.foldlM_cons, decodeMember]
    split
    · split
      · rfl
      · cases t.decodeTag m.2 with
        | error cause => rfl
        | ok next => exact ih (some next) others
    · exact ih variant (m :: others)

theorem alike_member (t : Tagged α) {after value behind : List Char} {v : Json} (name : String)
    (known : Option (Rest α) × List (String × Json)) (hcolon : readColon after = .ok value)
    (hv : readValue levels value = .ok (v, behind)) :
    Alike behind (t.readMember levels name known after) (t.decodeMember known (name, v)) := by
  rw [readMember, decodeMember]
  dsimp only
  split
  · split
    · exact .error _ _
    · simp only [afterColon, hcolon]
      exact (alike_decodeTag t hv).map fun variant => (some variant, known.2)
  · simp only [afterColon, hcolon, hv]
    exact .ok _

theorem alike_object (t : Tagged α) {ms : List (String × Json)}
    (h : SpellsMembers (readValue levels) true cs ms rest) :
    Alike rest (t.readObject levels cs) (t.findTag none [] ms) := by
  have hms := alike_readMembers (alike_member t) h (Nat.lt_succ_of_le h.length_le) (none, [])
  rw [readObject, findTag_eq]
  refine Alike.closeObject ?_
  rcases hms.cases with ⟨⟨variant, others⟩, hr, he⟩ | ⟨fault, cause, hr, he⟩
  · rw [hr, he]
    cases variant with
    | none => exact .error _ _
    | some variant => exact .ok _
  · rw [hr, he]
    exact .error fault cause

/-- The variant that the first element of an array names, and the other elements. -/
def named (t : Tagged α) : List Json → Except Cause (Rest α × Json)
  | [] => .error (.missingField t.tag)
  | x :: xs => (t.decodeTag x).map fun variant => (variant, .array xs)

theorem alike_array (t : Tagged α) {xs : List Json}
    (h : SpellsElements (readValue levels) true cs xs rest) :
    Alike rest (t.readArray levels cs) (t.named xs) := by
  rw [readArray]
  refine Alike.closeArray ?_
  cases h with
  | nil hend =>
    rw [nextElement_of_end _ hend]
    exact .error _ _
  | cons hto hx hxs =>
    rw [hto.nextElement_eq, named]
    dsimp only
    rcases (alike_decodeTag t hx).cases with ⟨variant, hr, he⟩ | ⟨fault, cause, hr, he⟩
    · rw [hr, he]
      dsimp only
      rw [hxs.readElements_eq (Nat.lt_succ_of_le hxs.length_le)]
      exact .ok _
    · rw [hr, he]
      exact .error fault cause

/-- The variant that a value names, and the rest of the value. -/
def opened (t : Tagged α) : Json → Except Cause (Rest α × Json)
  | .object ms => t.findTag none [] ms
  | .array xs => t.named xs
  | j => .error (.invalidType (.of j) t.title)

theorem decode_eq (t : Tagged α) (origin : Origin) (j : Json) :
    t.decoder.decode origin j = (t.opened j).bind fun (variant, j) => variant j := by
  cases j with
  | object ms =>
    simp only [decoder, opened]
    cases t.findTag none [] ms <;> rfl
  | array xs =>
    cases xs with
    | nil => rfl
    | cons x xs =>
      simp only [decoder, opened, named]
      cases t.decodeTag x <;> rfl
  | _ => rfl

theorem faithful (t : Tagged α) : t.decoder.Faithful := by
  intro levels cs rest j hread origin
  rw [decode_eq]
  simp only [decoder]
  generalize hwhole : readFrom _ _ _ cs = whole
  have hopened : Alike rest whole (t.opened j) := by
    rw [← hwhole]
    refine alike_readFrom hread (fun c after hc hspells => ?_) fun c after hc hspells => ?_
    · cases hspells with
      | object hmembers => exact alike_object t hmembers
      | array helements => exact alike_array t helements
      | number hnumber =>
        obtain ⟨-, -, -, -, -, -, hlist, hobject⟩ := startsNumber_not hnumber
        simp [hlist, hobject] at hc
      | _ => exact absurd hc (by decide)
    · cases hspells with
      | object => exact absurd hc (by decide)
      | array => exact absurd hc (by decide)
      | _ => exact ⟨_, rfl⟩
  rcases hopened.cases with ⟨⟨variant, j⟩, hr, he⟩ | ⟨fault, cause, hr, he⟩
  · rw [hr, he]
    dsimp only [Except.bind]
    cases variant j with
    | error cause => exact .error _ cause
    | ok a => exact .ok a
  · rw [hr, he]
    exact .error fault cause

end Tagged

/-! ## Whole texts -/

namespace Decoder

variable {α : Type} {d : Decoder α} {text : String} {j : Json}

/-- What is made of a whole text is what is made of the value that it spells. -/
theorem Faithful.parse_eq_ok_iff (h : d.Faithful) (hparse : Json.parse text = .ok j) {a : α}
    (origin : Origin) : d.parse text = .ok a ↔ d.decode origin j = .ok a := by
  obtain ⟨rest, hread, hend⟩ := exists_of_readAll_ok hparse
  simp only [parse, readAll]
  rcases (h hread origin).cases with ⟨b, hr, he⟩ | ⟨fault, cause, hr, he⟩
  · rw [hr, he]
    simp [hend]
  · rw [hr, he]
    simp

end Decoder

end Json
end ResourceSearch
