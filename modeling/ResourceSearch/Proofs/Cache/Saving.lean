import ResourceSearch.Proofs.Cache.Replacing

/-!
A snapshot of two stores that is saved is loaded as the same two stores (`load_save`).
-/

namespace ResourceSearch
namespace Cache

namespace Snapshot

/-- Saving two stores and loading them gives the same two stores.  Asked of the stores is only that
the further properties of their resources have names of their own, are not nested too deep and hold
numbers that their text gives back; asked of the system, that it lets the file be read. -/
theorem load_save {s : Stores} {d d' : Disk} {process : Nat} {path : String}
    (hnames : ∀ r ∈ s.resources, ∀ m ∈ r.extra.members, m.1 ∉ Resource.ownNames)
    (hdepth : ∀ r ∈ s.resources, ∀ m ∈ r.extra.members, m.2.depth ≤ 100)
    (hnumbers : ∀ r ∈ s.resources, ∀ m ∈ r.extra.members, m.2.NumbersReadBack)
    (hread : d.refusal (.read path) = none)
    (hsave : (save Disk.files process path (ofStores s) : StateM Disk _).run d = (.ok (), d')) :
    ∃ loaded, (load Disk.files path : StateM Disk _).run d' = (.ok loaded, d') ∧
      loaded.stores = s := by
  have hstorable : s.Storable := by
    apply Stores.storable_of_resources
    intro r hr
    refine ⟨hnames r hr, fun m hm => ⟨?_, hnumbers r hr m hm⟩⟩
    have hm := hdepth r hr m hm
    omega
  obtain ⟨hat, hrefusal⟩ := save_ok hsave
  have hpermit : d'.permit (.read path) = .ok () := by
    rw [Disk.permit, hrefusal, hread]
  refine ⟨ofStores s, ?_, stores_ofStores s⟩
  rw [load_run, hat, hpermit]
  show (ofBytes path (ofStores s).bytes, d') = _
  rw [ofBytes_ofStores path hstorable]

/-- A resource with nested properties, saved to an empty disk and loaded. -/
theorem load_save_nested :
    let ports := Json.array [.object [("port", Json.count 8080)], .null]
    let pod : Resource :=
      { name := "a", kind := "Pod", extra := Properties.ofMembers [("ports", ports)] }
    let s : Stores := { items := Store.empty.insert (.items {}) (.items [pod]) }
    ∃ d' loaded,
      (save Disk.files 7 "cache.json" (ofStores s) : StateM Disk _).run {} = (.ok (), d') ∧
      (load Disk.files "cache.json" : StateM Disk _).run d' = (.ok loaded, d') ∧
      loaded.stores = s := by
  intro ports pod s
  have hresources : s.resources = [pod] := rfl
  have hmembers : pod.extra.members = [("ports", ports)] := rfl
  have hforall : ∀ p : String × Json → Prop, p ("ports", ports) →
      ∀ r ∈ s.resources, ∀ m ∈ r.extra.members, p m := by
    intro p hp r hr m hm
    rw [hresources] at hr
    cases List.mem_singleton.mp hr
    rw [hmembers] at hm
    cases List.mem_singleton.mp hm
    exact hp
  have hsave : ((save Disk.files 7 "cache.json" (ofStores s) : StateM Disk _).run {}).1 = .ok () :=
    rfl
  have hnumber : ports.NumbersReadBack := ⟨⟨Json.readsBack_integer _ _, trivial⟩, trivial, trivial⟩
  obtain ⟨loaded, hload, hloaded⟩ :=
    load_save (hforall (fun m => m.1 ∉ Resource.ownNames) (by decide))
      (hforall (fun m => m.2.depth ≤ 100) (by decide))
      (hforall (fun m => m.2.NumbersReadBack) hnumber) rfl (Prod.ext hsave rfl)
  exact ⟨_, loaded, Prod.ext hsave rfl, hload, hloaded⟩

end Snapshot
end Cache
end ResourceSearch
