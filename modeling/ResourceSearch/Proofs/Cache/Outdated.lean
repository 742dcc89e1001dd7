import ResourceSearch.Proofs.Cache.Loaded
import ResourceSearch.Proofs.Cache.Weight
import ResourceSearch.Proofs.Json.Members

/-!
Snapshot files of another version.  A file is decoded as a whole before its version is looked at,
so it is as good as an empty one only if it lists records where a file of this version does
(`Snapshot.goodAsEmpty_iff`).  Otherwise loading and patching fail, and the file stays as it is.
Members that this version does not know may be whatever they are.
-/

namespace ResourceSearch

open Json

/-! ## Faithful decoders -/

theorem Resource.faithful : Resource.decoder.Faithful :=
  Record.faithful (by simp [Resource.record])

namespace Cache

theorem Input.faithful : Input.decoder.Faithful :=
  Record.faithful fun f hf => by
    cases List.mem_singleton.mp hf
    exact Field.faithful_of (by simp)

theorem Key.faithful : Key.decoder.Faithful :=
  Record.faithful (by simp [Key.record, Document.decoder, Input.faithful])

theorem Entry.faithful : Entry.decoder.Faithful := Tagged.faithful _

theorem Record.faithful : Record.decoder.Faithful :=
  Json.Record.faithful (by simp [Record.record, Key.faithful, Entry.faithful])

theorem Snapshot.faithful : Snapshot.decoder.Faithful :=
  Json.Record.faithful (by simp [Snapshot.record, Record.faithful])

end Cache

/-! ## Decoding a snapshot -/

namespace Cache
namespace Snapshot

/-- Nothing is under a name, or a list of records and nothing else. -/
def Lists (name : String) (ms : List (String × Json)) : Prop :=
  under name ms = [] ∨
    ∃ v records, under name ms = [v] ∧ (Decoder.list Record.decoder).decode .given v = .ok records

def versionDecoder : Decoder UInt32 := .map UInt32.ofNat (.count UInt32.size "u32")

theorem foldlM_decodeMember_eq_ok_iff {s t : Draft} {others kept ms : List (String × Json)} :
    ms.foldlM (record.decodeMember .given) (s, others) = .ok (t, kept) ↔
      kept = others ∧ versionDecoder.Takes s.version (under "version" ms) t.version ∧
        (Decoder.list Record.decoder).Takes s.items (under "items" ms) t.items ∧
        (Decoder.list Record.decoder).Takes s.related (under "related" ms) t.related := by
  induction ms generalizing s with
  | nil =>
    cases s
    cases t
    simp only [List.foldlM_nil, pure, Except.pure, Except.ok.injEq, Prod.mk.injEq,
      Draft.mk.injEq, under_nil, Decoder.takes_nil_iff]
    grind
  | cons m ms ih =>
    obtain ⟨name, v⟩ := m
    by_cases hversion : name = "version"
    · subst hversion
      rw [Json.Record.foldlM_decodeMember_field (d := versionDecoder) rfl]
      simp only [ih, under_cons, String.reduceEq, ↓reduceIte, Decoder.takes_cons_iff]
      grind
    by_cases hitems : name = "items"
    · subst hitems
      rw [Json.Record.foldlM_decodeMember_field (d := .list Record.decoder) rfl]
      simp only [ih, under_cons, String.reduceEq, ↓reduceIte, Decoder.takes_cons_iff]
      grind
    by_cases hrelated : name = "related"
    · subst hrelated
      rw [Json.Record.foldlM_decodeMember_field (d := .list Record.decoder) rfl]
      simp only [ih, under_cons, String.reduceEq, ↓reduceIte, Decoder.takes_cons_iff]
      grind
    rw [Json.Record.foldlM_decodeMember_other _ rfl]
    · simp [under_cons, hversion, hitems, hrelated, ih]
    · simp [Json.Record.field?, record, Field.of, Ne.symm hversion, Ne.symm hitems,
        Ne.symm hrelated]

theorem decode_object_eq_ok_iff {s : Snapshot} {ms : List (String × Json)} :
    decoder.decode .given (.object ms) = .ok s ↔
      ∃ items related, versionDecoder.Takes none (under "version" ms) (some s.version) ∧
        (Decoder.list Record.decoder).Takes none (under "items" ms) items ∧
        (Decoder.list Record.decoder).Takes none (under "related" ms) related ∧
        s.items = items.getD [] ∧ s.related = related.getD [] := by
  show record.decodeMembers .given {} [] ms = .ok s ↔ _
  rw [Json.Record.decodeMembers_eq]
  constructor
  · intro h
    obtain ⟨⟨t, kept⟩, hall, hfinish⟩ := exists_of_bind_ok h
    obtain ⟨version, hversion, hfinish⟩ := exists_of_bind_ok hfinish
    cases hfinish
    obtain ⟨-, hversions, hitems, hrelated⟩ := foldlM_decodeMember_eq_ok_iff.mp hall
    rw [required_ok hversion] at hversions
    exact ⟨t.items, t.related, hversions, hitems, hrelated, rfl, rfl⟩
  · rintro ⟨items, related, hversions, hitems, hrelated, hitemsEq, hrelatedEq⟩
    have hall : ms.foldlM (record.decodeMember .given) ({}, []) =
        .ok (⟨some s.version, items, related⟩, []) :=
      foldlM_decodeMember_eq_ok_iff.mpr ⟨rfl, hversions, hitems, hrelated⟩
    rw [hall]
    obtain ⟨version, _, _⟩ := s
    cases hitemsEq
    cases hrelatedEq
    rfl

theorem lists_iff {name : String} {ms : List (String × Json)} :
    (∃ records, (Decoder.list Record.decoder).Takes none (under name ms) records) ↔
      Lists name ms := by
  simp only [Decoder.takes_none_iff, Lists]
  constructor
  · rintro ⟨records, ⟨hnone, -⟩ | ⟨v, rs, hone, hv, -⟩⟩
    · exact .inl hnone
    · exact .inr ⟨v, rs, hone, hv⟩
  · rintro (hnone | ⟨v, rs, hone, hv⟩)
    · exact ⟨none, .inl ⟨hnone, rfl⟩⟩
    · exact ⟨some rs, .inr ⟨v, rs, hone, hv, rfl⟩⟩

/-! ## Outdated files -/

/-- Members with one version among them, an integer in range that is not the one understood. -/
def OtherVersion (ms : List (String × Json)) : Prop :=
  ∃ n h, under "version" ms = [.number (.integer n h)] ∧ 0 ≤ n ∧ n < UInt32.size ∧
    n ≠ currentVersion.toNat

/-- A file of another version: a JSON object with whatever other members. -/
structure Outdated (contents : List UInt8) (ms : List (String × Json)) : Prop where
  spelled : ∃ text, Text.ofBytes? contents = some text ∧ Json.parse text = .ok (.object ms)
  version : OtherVersion ms

/-- Every text of an object with one other version is an outdated file. -/
theorem outdated_write {layout : Layout} {ms : List (String × Json)} (hl : layout.IsBlank)
    (hdepth : (Json.object ms).depth ≤ maxLevels) (hnumbers : (Json.object ms).NumbersReadBack)
    (hversion : OtherVersion ms) : Outdated (Text.bytes (write layout 0 (.object ms))) ms where
  spelled := ⟨_, Text.ofBytes?_bytes _, parse_write hl hdepth hnumbers⟩
  version := hversion

theorem Outdated.takes {contents : List UInt8} {ms : List (String × Json)}
    (h : Outdated contents ms) : ∃ version, version ≠ currentVersion ∧
      ∀ known, versionDecoder.Takes none (under "version" ms) known ↔ known = some version := by
  obtain ⟨n, hrange, hunder, hlow, hhigh, hother⟩ := h.version
  obtain ⟨n, rfl⟩ := Int.eq_ofNat_of_zero_le hlow
  have hsmall : n < UInt32.size := by omega
  have hdecode : versionDecoder.decode .given (.number (.integer n hrange)) =
      .ok (UInt32.ofNat n) := by
    simp only [versionDecoder, Decoder.map, Decoder.count, Decoder.countOf]
    rw [if_pos ⟨hlow, by omega⟩]
    rfl
  refine ⟨UInt32.ofNat n, fun hversion => hother ?_, fun known => ?_⟩
  · rw [← hversion, UInt32.toNat_ofNat_of_lt' hsmall]
  · rw [hunder, Decoder.takes_none_iff]
    constructor
    · rintro (⟨hnil, -⟩ | ⟨v, b, hv, hb, rfl⟩)
      · cases hnil
      · cases hv
        rw [hdecode] at hb
        cases hb
        rfl
    · rintro rfl
      exact .inr ⟨_, _, rfl, hdecode, rfl⟩

/-- An outdated file is loaded as an empty one, or cannot be parsed. -/
theorem ofBytes_outdated (path : String) {contents : List UInt8} {ms : List (String × Json)}
    (h : Outdated contents ms) :
    (Lists "items" ms ∧ Lists "related" ms → ofBytes path contents = .ok empty) ∧
      (¬ (Lists "items" ms ∧ Lists "related" ms) → ∃ message, ofBytes path contents =
        .error (.cache ("Failed to parse " ++ path ++ ": " ++ message))) := by
  obtain ⟨text, htext, hparse⟩ := h.spelled
  obtain ⟨version, hversion, htakes⟩ := h.takes
  have hdecode : ∀ s, decoder.parse text = .ok s ↔ _ := fun s =>
    (faithful.parse_eq_ok_iff hparse .given).trans decode_object_eq_ok_iff
  simp only [ofBytes, htext]
  constructor
  · rintro ⟨hitems, hrelated⟩
    obtain ⟨items, hitems⟩ := lists_iff.mpr hitems
    obtain ⟨related, hrelated⟩ := lists_iff.mpr hrelated
    have hok := (hdecode ⟨version, items.getD [], related.getD []⟩).mpr
      ⟨items, related, (htakes _).mpr rfl, hitems, hrelated, rfl, rfl⟩
    simp only [hok, current, if_neg hversion]
  · intro hlists
    cases hparsed : decoder.parse text with
    | error refusal => exact ⟨refusal.message, rfl⟩
    | ok s =>
      obtain ⟨items, related, -, hitems, hrelated, -, -⟩ := (hdecode s).mp hparsed
      exact absurd ⟨lists_iff.mp ⟨items, hitems⟩, lists_iff.mp ⟨related, hrelated⟩⟩ hlists

end Snapshot

/-- Every step that was taken missed. -/
def Report.AllMiss (r : Report) : Prop :=
  (∀ o ∈ r.items, o = .miss) ∧ (∀ o ∈ r.relatedItems, o = .miss) ∧ ∀ o ∈ r.relatedCount, o = .miss

/-- In empty stores there is nothing to patch. -/
theorem reconcile_empty (deletion : Deletion) :
    (reconcile deletion {}).1.AllMiss ∧ (reconcile deletion {}).2 = {} := by
  obtain ⟨rule, origin, text, resource⟩ := deletion
  cases origin with
  | results => exact ⟨⟨fun o ho => (Option.some.inj ho).symm, nofun, nofun⟩, rfl⟩
  | related =>
    exact ⟨⟨nofun, fun o ho => (Option.some.inj ho).symm, fun o ho => (Option.some.inj ho).symm⟩,
      rfl⟩

namespace Snapshot

variable {d : Disk} {path : String} {contents : List UInt8}

/-- A file that is as good as an empty one, whatever is deleted. -/
structure GoodAsEmpty (d : Disk) (path : String) : Prop where
  load : (load Disk.files path : StateM Disk _).run d = (.ok empty, d)
  update : ∀ {process : Nat} {before : Disk} (deletion : Deletion),
    (lock Disk.files process path : StateM Disk _).run d = (.ok (), before) →
      ∃ report d', (update Disk.files process path (fun s => pure (reconcile deletion s)) :
          StateM Disk _).run d = (.ok report, d') ∧ report.AllMiss ∧ d'.at? path = d.at? path

/-- A file that can be neither loaded nor patched, whatever is deleted. -/
structure Refused (d : Disk) (path : String) (failure : Failure) : Prop where
  load : (load Disk.files path : StateM Disk _).run d = (.error failure, d)
  update : ∀ {process : Nat} {before : Disk} (deletion : Deletion),
    (lock Disk.files process path : StateM Disk _).run d = (.ok (), before) →
      ∃ d', (update Disk.files process path (fun s => pure (reconcile deletion s)) :
          StateM Disk _).run d = (.error failure, d') ∧ d'.at? path = d.at? path

theorem goodAsEmpty_of_ofBytes (hfile : d.at? path = some (.file contents))
    (hread : d.refusal (.read path) = none) (hloaded : ofBytes path contents = .ok empty) :
    GoodAsEmpty d path where
  load := by rw [load_file hfile hread, hloaded]
  update deletion hlock := by
    obtain ⟨hmiss, hstores⟩ := reconcile_empty deletion
    have hsame : ∀ s, ofBytes path contents = .ok s →
        (reconcile deletion s.stores).2.same s.stores = true := by
      intro s hs
      cases hloaded.symm.trans hs
      show (reconcile deletion {}).2.same {} = true
      rw [hstores]
      exact Stores.same_refl {}
    obtain ⟨d', hrun, hat⟩ := update_idle (reconcile deletion) hfile hread hlock hsame
    rw [hloaded] at hrun
    exact ⟨_, d', hrun, hmiss, hat.trans hfile.symm⟩

theorem refused_of_ofBytes {failure : Failure} (hfile : d.at? path = some (.file contents))
    (hread : d.refusal (.read path) = none) (hfailed : ofBytes path contents = .error failure) :
    Refused d path failure where
  load := by rw [load_file hfile hread, hfailed]
  update deletion hlock := by
    obtain ⟨d', hrun, hat⟩ := update_idle (reconcile deletion) hfile hread hlock
      (by rw [hfailed]; exact nofun)
    rw [hfailed] at hrun
    exact ⟨d', hrun, hat.trans hfile.symm⟩

/-- A file of another version is as good as an empty one exactly if it lists records where a file of
this version does.  Otherwise it cannot be parsed, and stays as it is. -/
theorem goodAsEmpty_iff {ms : List (String × Json)} (hfile : d.at? path = some (.file contents))
    (hread : d.refusal (.read path) = none) (h : Outdated contents ms) :
    (GoodAsEmpty d path ↔ Lists "items" ms ∧ Lists "related" ms) ∧
      (¬ GoodAsEmpty d path →
        ∃ message, Refused d path (.cache ("Failed to parse " ++ path ++ ": " ++ message))) := by
  obtain ⟨hlisted, hother⟩ := ofBytes_outdated path h
  have hgood : Lists "items" ms ∧ Lists "related" ms → GoodAsEmpty d path :=
    fun hlists => goodAsEmpty_of_ofBytes hfile hread (hlisted hlists)
  have hrefused : ¬ (Lists "items" ms ∧ Lists "related" ms) →
      ∃ message, Refused d path (.cache ("Failed to parse " ++ path ++ ": " ++ message)) := by
    intro hlists
    obtain ⟨message, hfailed⟩ := hother hlists
    exact ⟨message, refused_of_ofBytes hfile hread hfailed⟩
  refine ⟨⟨fun hempty => Classical.byContradiction fun hlists => ?_, hgood⟩,
    fun hempty => hrefused (mt hgood hempty)⟩
  obtain ⟨message, hfailed⟩ := hrefused hlists
  cases hempty.load.symm.trans hfailed.load

/-- A disk with nothing but a snapshot file of some members. -/
def diskWith (ms : List (String × Json)) : Disk :=
  { entries := [(⟨.above 0, ["cache.json"]⟩, .file (Text.bytes (write .compact 0 (.object ms))))] }

theorem at?_diskWith (ms : List (String × Json)) : (diskWith ms).at? "cache.json" =
    some (.file (Text.bytes (write .compact 0 (.object ms)))) := rfl

/-- A file of the next version with a member that this one does not know, and one whose records have
another shape. -/
theorem goodAsEmpty_unknown_and_reshaped :
    let version : String × Json := ("version", .number (.integer 2 (by decide)))
    GoodAsEmpty (diskWith [version, ("others", .array [.null])]) "cache.json" ∧
      ∃ message, Refused (diskWith [version, ("items", .object [])]) "cache.json"
        (.cache ("Failed to parse cache.json: " ++ message)) := by
  intro version
  have hunknown : Outdated _ [version, ("others", .array [.null])] :=
    outdated_write Layout.isBlank_compact (by decide) ⟨rfl, ⟨trivial, trivial⟩, trivial⟩
      ⟨2, _, rfl, by decide, by decide, by decide⟩
  have hreshaped : Outdated _ [version, ("items", .object [])] :=
    outdated_write Layout.isBlank_compact (by decide) ⟨rfl, trivial, trivial⟩
      ⟨2, _, rfl, by decide, by decide, by decide⟩
  have hempty := (goodAsEmpty_iff (at?_diskWith _) rfl hunknown).1.mpr ⟨.inl rfl, .inl rfl⟩
  obtain ⟨hlists, hrefused⟩ := goodAsEmpty_iff (at?_diskWith _) rfl hreshaped
  refine ⟨hempty, hrefused fun h => ?_⟩
  obtain ⟨hnone | ⟨v, records, hv, hdecode⟩, -⟩ := hlists.mp h
  · cases hnone
  · cases hv
    cases hdecode

/-- A file of the next version whose records have another shape is not as good as an empty one. -/
theorem not_goodAsEmpty_reshaped :
    let members := [("version", .number (.integer 2 (by decide))), ("items", .object [])]
    Outdated (Text.bytes (write .compact 0 (.object members))) members ∧
      ¬ GoodAsEmpty (diskWith members) "cache.json" := by
  intro members
  constructor
  · exact outdated_write Layout.isBlank_compact (by decide) ⟨rfl, trivial, trivial⟩
      ⟨2, _, rfl, by decide, by decide, by decide⟩
  · intro h
    have hfailed : ((load Disk.files "cache.json" : StateM Disk _).run
        (diskWith members)).1.isOk = false := by decide +kernel
    rw [h.load] at hfailed
    cases hfailed

end Snapshot
end Cache
end ResourceSearch
