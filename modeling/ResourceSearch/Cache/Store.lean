import ResourceSearch.Cache.Entry

/-!
Stores of cached answers.  A store holds at most one answer for a key and lists its records by
increasing keys, so two stores with the same answers are the same store.  Reading never asks the
search service: a key that was not written has no answer.
-/

namespace ResourceSearch
namespace Cache

/-- Records by strictly increasing keys. -/
def Increasing (records : List Record) : Prop :=
  records.Pairwise fun a b => compare a.key b.key = .lt

structure Store where
  records : List Record
  increasing : Increasing records

/-- Puts a record in its place, over the one with its key if there is one. -/
def insertRecord (r : Record) : List Record → List Record
  | [] => [r]
  | s :: rest =>
    match compare r.key s.key with
    | .lt => r :: s :: rest
    | .eq => r :: rest
    | .gt => s :: insertRecord r rest

theorem key_of_mem_insertRecord {r t : Record} {records : List Record}
    (h : t ∈ insertRecord r records) : t = r ∨ t ∈ records := by
  induction records with
  | nil => simp_all [insertRecord]
  | cons s rest ih =>
    unfold insertRecord at h
    split at h
    · rcases List.mem_cons.mp h with rfl | h
      · exact .inl rfl
      · exact .inr h
    · rcases List.mem_cons.mp h with rfl | h
      · exact .inl rfl
      · exact .inr (List.mem_cons_of_mem _ h)
    · rcases List.mem_cons.mp h with rfl | h
      · exact .inr List.mem_cons_self
      · rcases ih h with h | h
        · exact .inl h
        · exact .inr (List.mem_cons_of_mem _ h)

theorem increasing_insertRecord {r : Record} {records : List Record} (h : Increasing records) :
    Increasing (insertRecord r records) := by
  induction records with
  | nil => simp [insertRecord, Increasing]
  | cons s rest ih =>
    obtain ⟨hs, hrest⟩ := List.pairwise_cons.mp h
    unfold insertRecord
    split
    next hlt =>
      refine List.pairwise_cons.mpr ⟨?_, h⟩
      intro t ht
      rcases List.mem_cons.mp ht with rfl | ht
      · exact hlt
      · exact Std.TransCmp.lt_trans hlt (hs t ht)
    next heq =>
      refine List.pairwise_cons.mpr ⟨?_, hrest⟩
      intro t ht
      rw [Std.LawfulEqOrd.eq_of_compare heq]
      exact hs t ht
    next hgt =>
      refine List.pairwise_cons.mpr ⟨?_, ih hrest⟩
      intro t ht
      rcases key_of_mem_insertRecord ht with rfl | ht
      · exact Std.OrientedCmp.lt_of_gt hgt
      · exact hs t ht

namespace Store

def empty : Store := ⟨[], List.Pairwise.nil⟩

instance : Inhabited Store := ⟨empty⟩

def size (s : Store) : Nat := s.records.length

def isEmpty (s : Store) : Bool := s.records.isEmpty

def get? (s : Store) (key : Key) : Option Entry :=
  (s.records.find? (·.key = key)).map (·.entry)

def insert (s : Store) (key : Key) (entry : Entry) : Store :=
  ⟨insertRecord ⟨key, entry⟩ s.records, increasing_insertRecord s.increasing⟩

/-- The store of some records.  The last one of each key counts. -/
def ofList (records : List Record) : Store :=
  records.foldl (fun s r => s.insert r.key r.entry) empty

/-- Equality, under which the two zeros are one number. -/
def same (a b : Store) : Bool :=
  a.records.length = b.records.length && (a.records.zip b.records).all fun (x, y) => x.same y

theorem ext {a b : Store} (h : a.records = b.records) : a = b := by
  cases a
  cases b
  cases h
  rfl

end Store
end Cache
end ResourceSearch
