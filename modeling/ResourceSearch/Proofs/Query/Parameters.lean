import Mathlib.Data.List.Basic
import Mathlib.Data.List.Induction
import ResourceSearch.Proofs.Json.Members
import ResourceSearch.Proofs.Query.Link

/-!
The parameters of a link, one after the other.  A link says what the last of its parameters say that
say something about the search text, and about the related kinds (`LastSaid`).  Parameters that say
nothing may stand anywhere, and those for the text may change places with those for the kinds
(`decode_parameters`).
-/

namespace ResourceSearch
namespace Link

open Text Json

/-! ## What one parameter says -/

/-- The search text in the object that a value is: one string under its name or as the only element,
and the empty text if there is nothing. -/
inductive TextIn : Json → String → Prop
  | member {ms : List (String × Json)} {text : String}
    (h : under "textsearch" ms = [.string text]) : TextIn (.object ms) text
  | noMember {ms : List (String × Json)} (h : under "textsearch" ms = []) : TextIn (.object ms) ""
  | element (text : String) : TextIn (.array [.string text]) text
  | noElement : TextIn (.array []) ""

/-- A parameter's value holds a search text in an object, as it stands or else once it is percent
decoded. -/
inductive HoldsText (value : List Char) (text : String) : Prop
  | plain (h : objectText? (String.ofList value) = some text)
  | coded {decoded : String} (hplain : objectText? (String.ofList value) = none)
    (hdecoded : Percent.decode? value = some decoded) (h : objectText? decoded = some text)

/-- A parameter for the search text whose value holds the text, percent coded. -/
def SaysText (parameter : List Char) (text : String) : Prop :=
  ∃ value coded, parameter = "filters".toList ++ '=' :: value ∧ HoldsText value coded ∧
    text = Percent.decode coded.toList

/-- A parameter for the related kinds.  They stand between commas, percent coded, and nothing
between two commas is no kind. -/
def SaysKinds (parameter : List Char) (kinds : List String) : Prop :=
  ∃ parts, parts ≠ [] ∧ (∀ part ∈ parts, ',' ∉ part) ∧
    parameter = "showrelated".toList ++ '=' :: join ',' parts ∧
    kinds = (parts.filter (· ≠ [])).map Percent.decode

/-- A parameter that says nothing. -/
inductive Idle : List Char → Prop
  | noValue {parameter : List Char} (h : '=' ∉ parameter) : Idle parameter
  | otherName {name value : List Char} (hname : '=' ∉ name) (htext : name ≠ "filters".toList)
    (hkinds : name ≠ "showrelated".toList) : Idle (name ++ '=' :: value)
  | unreadable {value : List Char} (h : ∀ text, ¬ HoldsText value text) :
    Idle ("filters".toList ++ '=' :: value)

/-- A parameter that gives a value to a name. -/
def Assigns (name : String) (parameter : List Char) : Prop := name.toList ++ ['='] <+: parameter

instance (name : String) (parameter : List Char) : Decidable (Assigns name parameter) :=
  inferInstanceAs (Decidable (_ <+: _))

/-! ## What many parameters say -/

/-- What the last parameter says that says anything, or what is so by default if none does. -/
inductive LastSaid {α : Type} (Says : List Char → α → Prop) (default : α)
    (parameters : List (List Char)) : α → Prop
  | said {before after : List (List Char)} {parameter : List Char} {a : α}
    (h : parameters = before ++ parameter :: after) (hsaid : Says parameter a)
    (hlast : ∀ later ∈ after, ∀ b, ¬ Says later b) : LastSaid Says default parameters a
  | unsaid (h : ∀ parameter ∈ parameters, ∀ b, ¬ Says parameter b) :
    LastSaid Says default parameters default

/-- Some parameters, and the same ones with parameters between them that say nothing. -/
inductive Padded : List (List Char) → List (List Char) → Prop
  | nil : Padded [] []
  | both (parameter : List Char) {ps qs : List (List Char)} (h : Padded ps qs) :
    Padded (parameter :: ps) (parameter :: qs)
  | idle {parameter : List Char} (hidle : Idle parameter) {ps qs : List (List Char)}
    (h : Padded ps qs) : Padded ps (parameter :: qs)

/-- The address that consists of some parameters. -/
def asked (parameters : List (List Char)) : String := String.ofList ('?' :: join '&' parameters)

/-! ## The object around a search text -/

theorem textRecord_faithful : textRecord.decoder.Faithful :=
  Record.faithful (by simp [textRecord])

theorem foldlM_decodeMember_eq_ok_iff {s t : Option String}
    {others kept ms : List (String × Json)} :
    ms.foldlM (textRecord.decodeMember .given) (s, others) = .ok (t, kept) ↔
      kept = others ∧ Decoder.string.Takes s (under "textsearch" ms) t := by
  induction ms generalizing s with
  | nil =>
    rw [under_nil, Decoder.takes_nil_iff]
    simp only [List.foldlM_nil, pure, Except.pure, Except.ok.injEq, Prod.mk.injEq]
    grind
  | cons m ms ih =>
    obtain ⟨name, v⟩ := m
    by_cases hname : name = "textsearch"
    · subst hname
      rw [Record.foldlM_decodeMember_field (d := .string) rfl, under_cons, if_pos rfl,
        Decoder.takes_cons_iff]
      simp only [ih]
      grind
    · rw [Record.foldlM_decodeMember_other _ rfl, under_cons, if_neg hname, ih]
      simp [Record.field?, textRecord, Field.of, Ne.symm hname]

theorem decode_object_iff {ms : List (String × Json)} {text : String} :
    textRecord.decoder.decode .given (.object ms) = .ok text ↔ TextIn (.object ms) text := by
  show textRecord.decodeMembers .given none [] ms = .ok text ↔ _
  rw [Record.decodeMembers_eq]
  constructor
  · intro h
    obtain ⟨⟨found, others⟩, hall, hfinish⟩ := exists_of_bind_ok h
    cases hfinish
    obtain ⟨-, htakes⟩ := foldlM_decodeMember_eq_ok_iff.mp hall
    rcases Decoder.takes_string_iff.mp htakes with ⟨hunder, rfl⟩ | ⟨text, hunder, rfl⟩
    · exact .noMember hunder
    · exact .member hunder
  · have hdecode : ∀ found, Decoder.string.Takes none (under "textsearch" ms) found →
        (ms.foldlM (textRecord.decodeMember .given) (none, [])).bind
          (fun known => textRecord.finish known.1 known.2.reverse) = .ok (found.getD "") := by
      intro found htakes
      rw [foldlM_decodeMember_eq_ok_iff.mpr ⟨rfl, htakes⟩]
      rfl
    intro h
    cases h with
    | member hunder => exact hdecode _ (Decoder.takes_string_iff.mpr (.inr ⟨_, hunder, rfl⟩))
    | noMember hunder => exact hdecode _ (Decoder.takes_string_iff.mpr (.inl ⟨hunder, rfl⟩))

theorem decode_array_iff {xs : List Json} {text : String} :
    textRecord.decoder.decode .given (.array xs) = .ok text ↔ TextIn (.array xs) text := by
  constructor
  · intro h
    match xs with
    | [] =>
      cases h
      exact .noElement
    | [.string t] =>
      cases h
      exact .element t
    | .string _ :: _ :: _ => cases h
    | .null :: _ => cases h
    | .bool _ :: _ => cases h
    | .number _ :: _ => cases h
    | .array _ :: _ => cases h
    | .object _ :: _ => cases h
  · intro h
    cases h with
    | element => rfl
    | noElement => rfl

theorem decode_textRecord_iff {j : Json} {text : String} :
    textRecord.decoder.decode .given j = .ok text ↔ TextIn j text := by
  cases j with
  | object ms => exact decode_object_iff
  | array xs => exact decode_array_iff
  | _ => exact iff_of_false (fun h => by cases h) (fun h => by cases h)

theorem objectText?_eq_some_iff {value text : String} {j : Json} (h : Json.parse value = .ok j) :
    objectText? value = some text ↔ TextIn j text := by
  rw [← decode_textRecord_iff, ← textRecord_faithful.parse_eq_ok_iff h, objectText?]
  cases textRecord.decoder.parse value <;> simp [Except.toOption]

/-! ## One parameter -/

theorem parameterText?_eq_some_iff {value : List Char} {text : String} :
    parameterText? value = some text ↔ HoldsText value text := by
  rw [parameterText?, Option.or_eq_some_iff, Option.bind_eq_some_iff]
  constructor
  · rintro (h | ⟨hplain, decoded, hdecoded, h⟩)
    · exact .plain h
    · exact .coded hplain hdecoded h
  · rintro (h | ⟨hplain, hdecoded, h⟩)
    · exact .inl h
    · exact .inr ⟨hplain, _, hdecoded, h⟩

/-- What a parameter gives to a name. -/
def valueOf? (name : String) (parameter : List Char) : Option (List Char) :=
  match cut '=' parameter with
  | some (given, value) => if given = name.toList then some value else none
  | none => none

def textOf? (parameter : List Char) : Option String :=
  ((valueOf? "filters" parameter).bind parameterText?).map fun text => Percent.decode text.toList

def kindsOf? (parameter : List Char) : Option (List String) :=
  (valueOf? "showrelated" parameter).map parameterKinds

theorem readParameter_eq (l : Link) (parameter : List Char) : readParameter l parameter =
    ⟨(textOf? parameter).getD l.text, (kindsOf? parameter).getD l.related⟩ := by
  unfold readParameter textOf? kindsOf? valueOf?
  cases cut '=' parameter with
  | none => rfl
  | some halves =>
    obtain ⟨name, value⟩ := halves
    dsimp only
    by_cases htext : name = "filters".toList
    · have hkinds : "filters".toList ≠ "showrelated".toList := by decide
      subst htext
      rw [if_pos rfl, if_pos rfl, if_neg hkinds, Option.bind_some]
      cases parameterText? value <;> rfl
    · rw [if_neg htext, if_neg htext]
      by_cases hkinds : name = "showrelated".toList
      · rw [if_pos hkinds, if_pos hkinds]
        rfl
      · rw [if_neg hkinds, if_neg hkinds]
        rfl

theorem valueOf?_of_not_mem {parameter : List Char} (h : '=' ∉ parameter) (name : String) :
    valueOf? name parameter = none := by
  rw [valueOf?, cut_eq_none_iff.mpr h]

theorem valueOf?_append {given : List Char} (h : '=' ∉ given) (name : String) (value : List Char) :
    valueOf? name (given ++ '=' :: value) = if given = name.toList then some value else none := by
  rw [valueOf?, cut_append h]

theorem valueOf?_eq_some_iff {name : String} (hname : '=' ∉ name.toList)
    {parameter value : List Char} :
    valueOf? name parameter = some value ↔ parameter = name.toList ++ '=' :: value := by
  unfold valueOf?
  constructor
  · intro h
    split at h
    next given rest hcut =>
      split at h
      next hgiven =>
        cases h
        rw [← hgiven]
        exact (cut_eq_some_iff.mp hcut).1
      next => cases h
    next => cases h
  · rintro rfl
    rw [cut_append hname]
    exact if_pos rfl

theorem valueOf?_of_not_assigns {name : String} (hname : '=' ∉ name.toList)
    {parameter : List Char} (h : ¬ Assigns name parameter) : valueOf? name parameter = none := by
  refine Option.eq_none_iff_forall_ne_some.mpr fun value hvalue => h ?_
  rw [(valueOf?_eq_some_iff hname).mp hvalue]
  exact ⟨value, by rw [List.append_assoc, List.singleton_append]⟩

theorem textOf?_eq_some_iff {parameter : List Char} {text : String} :
    textOf? parameter = some text ↔ SaysText parameter text := by
  simp only [textOf?, Option.map_eq_some_iff, Option.bind_eq_some_iff, parameterText?_eq_some_iff,
    valueOf?_eq_some_iff (show '=' ∉ "filters".toList by decide)]
  constructor
  · rintro ⟨coded, ⟨value, hparameter, hholds⟩, htext⟩
    exact ⟨value, coded, hparameter, hholds, htext.symm⟩
  · rintro ⟨value, coded, hparameter, hholds, htext⟩
    exact ⟨coded, ⟨value, hparameter, hholds⟩, htext.symm⟩

theorem kindsOf?_eq_some_iff {parameter : List Char} {kinds : List String} :
    kindsOf? parameter = some kinds ↔ SaysKinds parameter kinds := by
  simp only [kindsOf?, Option.map_eq_some_iff,
    valueOf?_eq_some_iff (show '=' ∉ "showrelated".toList by decide)]
  constructor
  · rintro ⟨value, hparameter, hkinds⟩
    refine ⟨split ',' value, split_ne_nil ',' value, fun part => not_mem_of_mem_split, ?_,
      hkinds.symm⟩
    rw [join_split, hparameter]
  · rintro ⟨parts, hne, hcomma, hparameter, hkinds⟩
    refine ⟨join ',' parts, hparameter, ?_⟩
    rw [hkinds, parameterKinds, split_join hne hcomma]

theorem parameterText?_eq_none {value : List Char} (h : ∀ text, ¬ HoldsText value text) :
    parameterText? value = none :=
  Option.eq_none_iff_forall_ne_some.mpr fun text htext =>
    h text (parameterText?_eq_some_iff.mp htext)

theorem textOf?_of_idle {parameter : List Char} (h : Idle parameter) :
    textOf? parameter = none := by
  cases h with
  | noValue hequals => rw [textOf?, valueOf?_of_not_mem hequals, Option.bind_none, Option.map_none]
  | otherName hname htext _ =>
    rw [textOf?, valueOf?_append hname, if_neg htext, Option.bind_none, Option.map_none]
  | unreadable hunreadable =>
    rw [textOf?, valueOf?_append (by decide), if_pos rfl, Option.bind_some,
      parameterText?_eq_none hunreadable, Option.map_none]

theorem kindsOf?_of_idle {parameter : List Char} (h : Idle parameter) :
    kindsOf? parameter = none := by
  cases h with
  | noValue hequals => rw [kindsOf?, valueOf?_of_not_mem hequals, Option.map_none]
  | otherName hname _ hkinds => rw [kindsOf?, valueOf?_append hname, if_neg hkinds, Option.map_none]
  | unreadable _ => rw [kindsOf?, valueOf?_append (by decide), if_neg (by decide), Option.map_none]

theorem textOf?_of_not_assigns {parameter : List Char} (h : ¬ Assigns "filters" parameter) :
    textOf? parameter = none := by
  rw [textOf?, valueOf?_of_not_assigns (by decide) h, Option.bind_none, Option.map_none]

theorem kindsOf?_of_not_assigns {parameter : List Char} (h : ¬ Assigns "showrelated" parameter) :
    kindsOf? parameter = none := by
  rw [kindsOf?, valueOf?_of_not_assigns (by decide) h, Option.map_none]

/-! ## All parameters -/

section Last

variable {α : Type} {Says : List Char → α → Prop} {said? : List Char → Option α}
  {ps qs : List (List Char)}

/-- What is said by the last of some parameters that says anything. -/
def lastOf (said? : List Char → Option α) (default : α) (ps : List (List Char)) : α :=
  (ps.filterMap said?).getLast?.getD default

theorem lastOf_cons (said? : List Char → Option α) (default : α) (p : List Char)
    (ps : List (List Char)) :
    lastOf said? default (p :: ps) = lastOf said? ((said? p).getD default) ps := by
  rw [lastOf, lastOf]
  cases h : said? p with
  | none => rw [List.filterMap_cons_none h, Option.getD_none]
  | some a =>
    rw [List.filterMap_cons_some h, List.getLast?_cons, Option.getD_some, Option.getD_some]

theorem LastSaid.concat {default a : α} (h : LastSaid Says default ps a) {p : List Char}
    (hsilent : ∀ b, ¬ Says p b) : LastSaid Says default (ps ++ [p]) a := by
  cases h with
  | said heq hsaid hlast =>
    refine .said (by rw [heq, List.append_assoc, List.cons_append]) hsaid ?_
    exact List.forall_mem_append.mpr ⟨hlast, List.forall_mem_singleton.mpr hsilent⟩
  | unsaid hnone =>
    exact .unsaid (List.forall_mem_append.mpr ⟨hnone, List.forall_mem_singleton.mpr hsilent⟩)

theorem lastSaid_lastOf (h : ∀ p a, said? p = some a ↔ Says p a) (default : α)
    (ps : List (List Char)) : LastSaid Says default ps (lastOf said? default ps) := by
  induction ps using List.reverseRecOn with
  | nil => exact .unsaid (List.forall_mem_nil _)
  | append_singleton ps p ih =>
    rw [lastOf, List.filterMap_append]
    cases hp : said? p with
    | none =>
      rw [List.filterMap_cons_none hp, List.filterMap_nil, List.append_nil]
      exact ih.concat fun b hb => by cases hp.symm.trans ((h p b).mpr hb)
    | some a =>
      rw [List.filterMap_cons_some hp, List.filterMap_nil, List.getLast?_concat, Option.getD_some]
      exact .said rfl ((h p a).mp hp) (List.forall_mem_nil _)

theorem lastOf_of_padded (h : Padded ps qs) (hidle : ∀ p, Idle p → said? p = none) (default : α) :
    lastOf said? default qs = lastOf said? default ps := by
  induction h generalizing default with
  | nil => rfl
  | both p _ ih => rw [lastOf_cons, lastOf_cons, ih]
  | idle hp _ ih => rw [lastOf_cons, hidle _ hp, Option.getD_none, ih]

/-- Only those parameters count that may say something. -/
theorem lastOf_filter {P : List Char → Prop} [DecidablePred P] (h : ∀ p, ¬ P p → said? p = none)
    (default : α) (ps : List (List Char)) :
    lastOf said? default (ps.filter P) = lastOf said? default ps := by
  rw [lastOf, List.filterMap_filter, lastOf]
  refine congrArg (fun said => (List.getLast? said).getD default) ?_
  refine List.filterMap_congr fun p _ => ?_
  by_cases hp : P p
  · rw [if_pos (decide_eq_true hp)]
  · rw [if_neg (by simpa using hp), h p hp]

end Last

theorem foldl_readParameter (l : Link) (ps : List (List Char)) :
    ps.foldl readParameter l = ⟨lastOf textOf? l.text ps, lastOf kindsOf? l.related ps⟩ := by
  induction ps generalizing l with
  | nil => rfl
  | cons p ps ih => rw [List.foldl_cons, ih, readParameter_eq, lastOf_cons, lastOf_cons]

theorem decode_asked {ps : List (List Char)} (h : ∀ p ∈ ps, IsParameter p) :
    decode (asked ps) = ⟨lastOf textOf? "" ps, lastOf kindsOf? [] ps⟩ := by
  rw [← foldl_readParameter {} ps]
  cases ps with
  | nil => rfl
  | cons first rest =>
    have hpath : IsPath "" := ⟨by decide, by decide, by decide⟩
    have hwithin := decode_within hpath (show IsFragment "" by simp [IsFragment]) h
    rwa [String.empty_append, String.append_empty] at hwithin

/-- A link says what the last parameter says that holds a search text, and what the last one says
that lists kinds.  So parameters that say nothing make no difference wherever they stand, and of the
others only the order of those for the text and the order of those for the kinds do.  A value that
is JSON holds a text if it is an object or an array that gives one string, or nothing, for it. -/
theorem decode_parameters :
    (∀ ps, (∀ p ∈ ps, IsParameter p) → LastSaid SaysText "" ps (decode (asked ps)).text ∧
      LastSaid SaysKinds [] ps (decode (asked ps)).related) ∧
    (∀ ps qs, (∀ p ∈ ps, IsParameter p) → (∀ q ∈ qs, IsParameter q) →
      (Padded ps qs → decode (asked qs) = decode (asked ps)) ∧
      (qs.filter (Assigns "filters") = ps.filter (Assigns "filters") →
        qs.filter (Assigns "showrelated") = ps.filter (Assigns "showrelated") →
        decode (asked qs) = decode (asked ps))) ∧
    ∀ value text j, Json.parse value = .ok j → (objectText? value = some text ↔ TextIn j text) := by
  refine ⟨fun ps hps => ?_, fun ps qs hps hqs => ⟨fun hpadded => ?_, fun htexts hkinds => ?_⟩,
    fun value text j hparse => objectText?_eq_some_iff hparse⟩
  · rw [decode_asked hps]
    exact ⟨lastSaid_lastOf (fun _ _ => textOf?_eq_some_iff) "" ps,
      lastSaid_lastOf (fun _ _ => kindsOf?_eq_some_iff) [] ps⟩
  · rw [decode_asked hps, decode_asked hqs, lastOf_of_padded hpadded fun _ => textOf?_of_idle,
      lastOf_of_padded hpadded fun _ => kindsOf?_of_idle]
  · have htext : lastOf textOf? "" qs = lastOf textOf? "" ps := by
      rw [← lastOf_filter (fun _ => textOf?_of_not_assigns), htexts,
        lastOf_filter fun _ => textOf?_of_not_assigns]
    have hrelated : lastOf kindsOf? [] qs = lastOf kindsOf? [] ps := by
      rw [← lastOf_filter (fun _ => kindsOf?_of_not_assigns), hkinds,
        lastOf_filter fun _ => kindsOf?_of_not_assigns]
    rw [decode_asked hps, decode_asked hqs, htext, hrelated]

/-- Among other parameters, one whose value is no JSON and an earlier list of kinds. -/
theorem decode_parameters_mixed :
    let text := "filters=\x7b\"textsearch\":\"kind%3Apod\"\x7d".toList
    let garbage := "filters=notjson".toList
    let earlier := "showrelated=pod".toList
    let kinds := "showrelated=,config%20map,".toList
    let ps := [text, earlier, garbage, kinds]
    (∀ p ∈ ps, IsParameter p) ∧ LastSaid SaysText "" ps "kind:pod" ∧
      LastSaid SaysKinds [] ps ["config map"] ∧
      Padded [text, earlier, kinds] ps ∧
      decode (asked [text, earlier, kinds]) = ⟨"kind:pod", ["config map"]⟩ ∧
      decode (asked [earlier, text, kinds, garbage]) = ⟨"kind:pod", ["config map"]⟩ ∧
      Json.parse "\x7b\x7d" = .ok (.object []) ∧ objectText? "\x7b\x7d" = some "" := by
  intro text garbage earlier kinds ps
  have hps : ∀ p ∈ ps, IsParameter p := by decide +kernel
  have hwithout : ∀ p ∈ [text, earlier, kinds], IsParameter p := by decide +kernel
  have hshuffled : ∀ p ∈ [earlier, text, kinds, garbage], IsParameter p := by decide +kernel
  have hdecode : decode (asked ps) = ⟨"kind:pod", ["config map"]⟩ := by decide +kernel
  have hunreadable : parameterText? "notjson".toList = none := by decide +kernel
  have hgarbage : Idle ("filters".toList ++ '=' :: "notjson".toList) := by
    refine .unreadable fun t ht => ?_
    cases hunreadable.symm.trans (parameterText?_eq_some_iff.mpr ht)
  have hpadded : Padded [text, earlier, kinds] ps :=
    .both text (.both earlier (.idle hgarbage (.both kinds .nil)))
  have hparse : Json.parse "\x7b\x7d" = .ok (.object []) := rfl
  obtain ⟨htext, hkinds⟩ := decode_parameters.1 ps hps
  rw [hdecode] at htext hkinds
  refine ⟨hps, htext, hkinds, hpadded, ?_, ?_, hparse, ?_⟩
  · rw [← (decode_parameters.2.1 _ _ hwithout hps).1 hpadded, hdecode]
  · rw [(decode_parameters.2.1 ps _ hps hshuffled).2 (by decide +kernel) (by decide +kernel),
      hdecode]
  · exact (decode_parameters.2.2 _ "" _ hparse).mpr (.noMember rfl)

end Link
end ResourceSearch
