import ResourceSearch.Proofs.Json.Agreement

/-!
Decoders that restore what was written.  `Decoder.Restores d j a` says that `d` makes `a` of the
value `j`, whole or part of a text, and of every text of `j` (`Decoder.Restores.parse_pretty`).  The
combinators restore what their parts restore.
-/

namespace ResourceSearch
namespace Json

namespace Decoder

variable {α β : Type}

structure Restores (d : Decoder α) (j : Json) (a : α) : Prop where
  agrees : d.Agrees j
  decode : ∀ origin, d.decode origin j = .ok a

theorem Restores.parse_pretty {d : Decoder α} {j : Json} {a : α} (h : d.Restores j a)
    (hdepth : j.depth ≤ maxLevels) (hnumbers : j.NumbersReadBack) : d.parse j.pretty = .ok a :=
  parse_write Layout.isBlank_indented h.agrees (h.decode .given) hdepth hnumbers

theorem Restores.parse_compact {d : Decoder α} {j : Json} {a : α} (h : d.Restores j a)
    (hdepth : j.depth ≤ maxLevels) (hnumbers : j.NumbersReadBack) : d.parse j.compact = .ok a :=
  parse_write Layout.isBlank_compact h.agrees (h.decode .given) hdepth hnumbers

theorem restores_string (s : String) : string.Restores (.string s) s where
  agrees := agrees_string _
  decode _ := rfl

theorem restores_count {limit n : Nat} (h : n < limit) (hlimit : limit ≤ UInt64.size)
    (name : String) :
    (count limit name).Restores (Json.count n) n where
  agrees := agrees_count limit name _
  decode origin := by
    have hsize : UInt64.size = 0x10000000000000000 := rfl
    have hmin : min n 0xFFFFFFFFFFFFFFFF = n := by omega
    simp only [count, Json.count, Number.ofNat, countOf, hmin, Int.toNat_natCast]
    rw [if_pos (by omega)]

theorem restores_choice {known : List (String × α)} {s : String} {a : α}
    (h : meaning known s = .ok a) : (choice known).Restores (.string s) a where
  agrees := agrees_choice known s
  decode _ := h

theorem restores_map {d : Decoder α} {j : Json} {a : α} (f : α → β) (h : d.Restores j a) :
    (d.map f).Restores j (f a) where
  agrees := agrees_map h.agrees
  decode origin := by simp [map, h.decode origin, Except.map]

theorem restores_optional {d : Decoder α} {j : Json} {a : α} (hnull : j ≠ .null)
    (h : d.Restores j a) : (optional d).Restores j (some a) where
  agrees := agrees_optional h.agrees
  decode origin := by
    cases j with
    | null => exact absurd rfl hnull
    | _ => simp [optional, h.decode origin, Except.map]

theorem mapM_decode {d : Decoder α} {write : α → Json} {xs : List α}
    (h : ∀ x ∈ xs, d.Restores (write x) x) (origin : Origin) :
    (xs.map write).mapM (d.decode origin) = .ok xs := by
  induction xs with
  | nil => rfl
  | cons x xs ih =>
    have hx := (h x List.mem_cons_self).decode origin
    have hxs := ih fun y hy => h y (List.mem_cons_of_mem x hy)
    rw [List.map_cons, List.mapM_cons, hx]
    simp [hxs, bind, Except.bind, pure, Except.pure]

theorem restores_list {d : Decoder α} {write : α → Json} {xs : List α}
    (h : ∀ x ∈ xs, d.Restores (write x) x) : (list d).Restores (.array (xs.map write)) xs where
  agrees := by
    refine agrees_list fun j hj => ?_
    obtain ⟨x, hx, rfl⟩ := List.mem_map.mp hj
    exact (h x hx).agrees
  decode origin := mapM_decode h origin

theorem restores_strings (values : List String) :
    (list string).Restores (.strings values) values :=
  restores_list fun s _ => restores_string s

end Decoder

namespace Record

variable {σ α β : Type} {r : Record σ α} {s : σ} {others ms : List (String × Json)} {a : α}

/-- From what is known of a record and some kept members, the members left restore a thing. -/
structure RestoresMembers (r : Record σ α) (s : σ) (others ms : List (String × Json)) (a : α) :
    Prop where
  agrees : ∀ m ∈ ms, r.AgreesOn m
  decode : ∀ origin, r.decodeMembers origin s others ms = .ok a

theorem restores (h : r.RestoresMembers r.start [] ms a) : r.decoder.Restores (.object ms) a where
  agrees := agrees_object h.agrees
  decode := h.decode

namespace RestoresMembers

theorem finish (h : r.finish s others.reverse = .ok a) : r.RestoresMembers s others [] a where
  agrees m hm := by cases hm
  decode _ := h

/-- A member of a field that is not known yet. -/
theorem field {name own : String} {get : σ → Option β} {set : σ → β → σ} {d : Decoder β}
    {mayLack : Bool} {aliases : List String} {v : Json} {b : β} (hv : d.Restores v b)
    (hfield : r.field? name = some (.of own get set d mayLack aliases)) (hknown : get s = none)
    (h : r.RestoresMembers (set s b) others ms a) :
    r.RestoresMembers s others ((name, v) :: ms) a where
  agrees m hm := by
    rcases List.mem_cons.mp hm with rfl | hm
    · unfold AgreesOn
      simp only [hfield]
      exact Field.agrees_of hv.agrees
    · exact h.agrees m hm
  decode origin := by
    rw [decodeMembers, hfield]
    simp [Field.of, hknown, hv.decode origin, Except.map, h.decode origin]

/-- A member that is kept as it is. -/
theorem kept {name : String} {v : Json} (hkeeps : r.keepsOthers = true)
    (hfield : r.field? name = none) (h : r.RestoresMembers s ((name, v) :: others) ms a) :
    r.RestoresMembers s others ((name, v) :: ms) a where
  agrees m hm := by
    rcases List.mem_cons.mp hm with rfl | hm
    · unfold AgreesOn
      simp only [hfield]
      exact hkeeps
    · exact h.agrees m hm
  decode origin := by
    rw [decodeMembers, hfield]
    simp [hkeeps, h.decode origin]

theorem allKept (hkeeps : r.keepsOthers = true) (hfield : ∀ m ∈ ms, r.field? m.1 = none)
    (h : r.finish s (others.reverse ++ ms) = .ok a) : r.RestoresMembers s others ms a := by
  induction ms generalizing others with
  | nil => exact finish (by rwa [List.append_nil] at h)
  | cons m ms ih =>
    refine kept hkeeps (hfield m List.mem_cons_self) (ih ?_ ?_)
    · exact fun n hn => hfield n (List.mem_cons_of_mem m hn)
    · rwa [List.reverse_cons, List.append_assoc]

end RestoresMembers
end Record

namespace Tagged

variable {α : Type} {t : Tagged α}

/-- A variant behind its tag. -/
theorem restores {s : String} {variant : Rest α} {ms : List (String × Json)} {a : α}
    (hvariant : Decoder.meaning t.variants s = .ok variant) (hms : ∀ m ∈ ms, m.1 ≠ t.tag)
    (h : variant (.object ms) = .ok a) :
    t.decoder.Restores (.object ((t.tag, .string s) :: ms)) a where
  agrees := by
    refine agrees_object fun m hm htag => ?_
    rcases List.mem_cons.mp hm with rfl | hm
    · exact ⟨s, rfl⟩
    · exact absurd htag (hms m hm)
  decode origin := by
    have hothers : ∀ (left right : List (String × Json)), (∀ m ∈ right, m.1 ≠ t.tag) →
        t.findTag (some variant) left right = .ok (variant, .object (left.reverse ++ right)) := by
      intro left right hright
      induction right generalizing left with
      | nil => rw [findTag, List.append_nil]
      | cons m right ih =>
        have hrest := ih (m :: left) fun n hn => hright n (List.mem_cons_of_mem m hn)
        rw [findTag, if_neg (hright m List.mem_cons_self), hrest]
        simp
    simp [decoder, findTag, decodeTag, hvariant, hothers [] ms hms, h]

end Tagged
end Json
end ResourceSearch
