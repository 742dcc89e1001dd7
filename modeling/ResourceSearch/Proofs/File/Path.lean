import ResourceSearch.File.Path
import ResourceSearch.Proofs.Text.Split

/-!
The last name of a path.  Where a path does not end in a slash, its last name is what stands after
the last slash (`names_last`).  The path beside it ends in that name and the suffix
(`sibling_of_name`), or goes on from it to the suffix.  Whatever a path is, the paths beside it
differ in nothing but their suffixes (`sibling_toList`).
-/

namespace ResourceSearch
namespace Path

/-- A text that a name can follow in a path. -/
def IsFront (front : List Char) : Prop := front = [] ∨ ∃ before, front = before ++ ['/']

theorem exists_last (cs : List Char) :
    ∃ front name, IsFront front ∧ '/' ∉ name ∧ cs = front ++ name := by
  by_cases h : '/' ∈ cs
  · obtain ⟨after, before, hcs, hafter⟩ := List.eq_append_cons_of_mem (List.mem_reverse.mpr h)
    refine ⟨before.reverse ++ ['/'], after.reverse, .inr ⟨_, rfl⟩, ?_, ?_⟩
    · rwa [List.mem_reverse]
    · rw [← List.reverse_reverse cs, hcs]
      simp
  · exact ⟨[], cs, .inl rfl, h, rfl⟩

variable {front name : List Char}

theorem takeWhile_last (hfront : IsFront front) (hname : '/' ∉ name) :
    (front ++ name).reverse.takeWhile (· ≠ '/') = name.reverse := by
  rw [List.reverse_append, Text.takeWhile_append (mt List.mem_reverse.mp hname)]
  rcases hfront with rfl | ⟨before, rfl⟩ <;> simp

theorem split_last (hfront : IsFront front) (hname : '/' ∉ name) :
    ∃ parts, Text.split '/' (front ++ name) = parts ++ [name] := by
  rcases hfront with rfl | ⟨before, rfl⟩
  · exact ⟨[], Text.split_of_not_mem hname⟩
  · refine ⟨Text.split '/' before, ?_⟩
    rw [List.append_assoc, List.singleton_append, Text.split_append, Text.split_of_not_mem hname]

theorem names_last {path : String} (hpath : path.toList = front ++ name) (hfront : IsFront front)
    (hname : '/' ∉ name) (hne : name ≠ []) :
    ∃ before, names path = before ++ [String.ofList name] := by
  obtain ⟨parts, hparts⟩ := split_last hfront hname
  have hlast : String.ofList name ≠ "" := by
    intro h
    exact hne (by simpa using congrArg String.toList h)
  refine ⟨(parts.map String.ofList).filter (· ≠ ""), ?_⟩
  rw [names, hpath, hparts, List.map_append, List.filter_append]
  simp [hlast]

theorem names_append (path name : String) :
    names (path ++ "/" ++ name) = names path ++ names name := by
  have htext : (path ++ "/" ++ name).toList = path.toList ++ '/' :: name.toList := by
    simp
  rw [names, htext, Text.split_append, List.map_append, List.filter_append, names, names]

theorem names_of_not_mem {name : String} (hname : '/' ∉ name.toList) (hne : name ≠ "") :
    names name = [name] := by
  rw [names, Text.split_of_not_mem hname]
  simp [hne]

/-! ## The path beside another -/

theorem trimBackwards_of_name {cs : List Char} (hslash : cs.head? ≠ some '/')
    (hdot : ∀ rest, cs ≠ '.' :: '/' :: rest) : trimBackwards cs = cs := by
  unfold trimBackwards
  split
  · rfl
  · exact absurd rfl hslash
  · exact absurd rfl (hdot _)
  · rfl

/-- Nothing is trimmed from a path that ends in a name other than `.`. -/
theorem trimBackwards_reverse (hname : '/' ∉ name) (hne : name ≠ []) (hdot : name ≠ ['.']) :
    trimBackwards (front ++ name).reverse = (front ++ name).reverse := by
  obtain ⟨before, c, rfl⟩ := (List.eq_nil_or_concat name).resolve_left hne
  rw [List.concat_eq_append] at hname hdot ⊢
  rw [List.reverse_append, List.reverse_append, List.reverse_singleton]
  have hc : c ≠ '/' := by
    rintro rfl
    exact hname (by simp)
  refine trimBackwards_of_name (by simpa using hc) ?_
  intro rest h
  simp only [List.cons_append, List.cons.injEq] at h
  obtain ⟨rfl, h⟩ := h
  rcases List.eq_nil_or_concat before with rfl | ⟨start, b, rfl⟩
  · exact hdot rfl
  · have hb : b = '/' := by simpa using congrArg List.head? h
    exact hname (by simp [hb])

theorem sibling_of_name {path : String} (suffix : String) (hpath : path.toList = front ++ name)
    (hfront : IsFront front) (hname : '/' ∉ name) (hne : name ≠ []) (hdot : name ≠ ['.'])
    (hdots : name ≠ ['.', '.']) :
    ∃ around, IsFront around ∧
      (sibling path suffix).toList = around ++ (name ++ suffix.toList) := by
  have htrimmed : trimBackwards path.toList.reverse = (front ++ name).reverse := by
    rw [hpath, trimBackwards_reverse hname hne hdot]
  have hlast : (trimBackwards path.toList.reverse).takeWhile (· ≠ '/') = name.reverse := by
    rw [htrimmed, takeWhile_last hfront hname]
  have hnone : ¬(name.reverse = [] ∨ name.reverse = ['.'] ∨ name.reverse = ['.', '.']) := by
    simp only [List.reverse_eq_iff, List.reverse_nil, List.reverse_cons, List.nil_append,
      List.singleton_append]
    simp [hne, hdot, hdots]
  simp only [sibling, hlast, if_neg hnone]
  generalize trimBackwards ((trimBackwards path.toList.reverse).drop _) = folder
  split
  · exact ⟨[], .inl rfl, by simp⟩
  · exact ⟨['/'], .inr ⟨[], rfl⟩, by simp⟩
  · exact ⟨folder.reverse ++ ['/'], .inr ⟨_, rfl⟩, by simp⟩

theorem sibling_of_dots {path suffix : String} (hpath : path.toList = front ++ ['.', '.'])
    (hfront : IsFront front) : sibling path suffix = path ++ "/" ++ suffix := by
  have htrimmed : trimBackwards path.toList.reverse = (front ++ ['.', '.']).reverse := by
    rw [hpath, trimBackwards_reverse (by decide) (by decide) (by decide)]
  have hlast : (trimBackwards path.toList.reverse).takeWhile (· ≠ '/') = ['.', '.'] := by
    rw [htrimmed, takeWhile_last hfront (by decide)]
    rfl
  have hnamed : ¬(path = "" ∨ endsInSlash path = true) := by
    rintro (rfl | h)
    · simp at hpath
    · simp [endsInSlash, hpath] at h
  simp only [sibling, hlast, if_neg hnamed]
  simp

/-- The paths beside a path are one text in front of their suffixes. -/
theorem sibling_toList (path : String) : ∃ front base, IsFront front ∧ '/' ∉ base ∧
    ∀ suffix, (sibling path suffix).toList = front ++ (base ++ suffix.toList) := by
  unfold sibling
  simp only
  generalize htrimmed : trimBackwards path.toList.reverse = trimmed
  split
  · split
    · rename_i _ hnamed
      refine ⟨path.toList, [], ?_, List.not_mem_nil, fun suffix => ?_⟩
      · rcases hnamed with rfl | hslash
        · exact .inl rfl
        · obtain ⟨before, hbefore⟩ := List.getLast?_eq_some_iff.mp (eq_of_beq hslash)
          exact .inr ⟨before, hbefore⟩
      · rw [String.toList_append, List.nil_append]
    · refine ⟨path.toList ++ ['/'], [], .inr ⟨_, rfl⟩, List.not_mem_nil, fun suffix => ?_⟩
      simp
  · generalize trimBackwards (trimmed.drop _) = folder
    have hbase : '/' ∉ (trimmed.takeWhile (· ≠ '/')).reverse := by
      intro h
      have hkept := List.all_eq_true.mp List.all_takeWhile _ (List.mem_reverse.mp h)
      exact absurd hkept (by decide)
    split
    · exact ⟨[], _, .inl rfl, hbase, fun suffix => by simp⟩
    · exact ⟨['/'], _, .inr ⟨[], rfl⟩, hbase, fun suffix => by simp⟩
    · exact ⟨folder.reverse ++ ['/'], _, .inr ⟨_, rfl⟩, hbase, fun suffix => by simp⟩

/-- What can follow a name beside it: a text without slashes that no special name ends in. -/
structure IsSuffix (suffix : String) : Prop where
  slash : '/' ∉ suffix.toList
  long : 2 < suffix.toList.length

theorem endsInSlash_sibling {suffix : String} (h : IsSuffix suffix) (path : String) :
    endsInSlash (sibling path suffix) = false := by
  obtain ⟨front, base, -, -, hsibling⟩ := sibling_toList path
  have hne : suffix.toList ≠ [] := by
    intro hnil
    have hlong := h.long
    rw [hnil] at hlong
    cases hlong
  rw [endsInSlash, hsibling, ← List.append_assoc, List.getLast?_append,
    List.getLast?_eq_some_getLast hne, Option.some_or]
  refine Bool.eq_false_iff.mpr fun hslash => h.slash ?_
  rw [← Option.some.inj (eq_of_beq hslash)]
  exact List.getLast_mem hne

end Path
end ResourceSearch
