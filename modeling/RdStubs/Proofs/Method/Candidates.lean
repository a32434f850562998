import RdStubs.Proofs.Method.PageName
import RdStubs.Proofs.Path

/-!
# Where a page is looked for

The page of a method is looked for in one place: the page name, with the ending of pages, joined to
the `man` directory. A page name is not kept from holding a separator, though, so the place is in
the directory itself exactly if the name of the method has none or is redirected.
-/

namespace RdStubs.Method

open Text

theorem getLast?_manDirectory (m : Method) : m.manDirectory.text.getLast? = some 'n' := by
  unfold manDirectory Path.join
  split
  · rfl
  · split <;> simp

theorem pageFile_plain (pageName : Text) :
    Path.isIdle (pageName ++ ".Rd".toList) = false ∧ pageName ++ ".Rd".toList ≠ ['.', '.'] := by
  have hlast : (pageName ++ ".Rd".toList).getLast? = some 'd' := by simp
  refine ⟨?_, fun h => ?_⟩
  · refine decide_eq_false fun h => ?_
    rcases h with h | h
    · rw [h] at hlast
      cases hlast
    · rw [h] at hlast
      exact absurd hlast (by decide)
  · rw [h] at hlast
    exact absurd hlast (by decide)

theorem slash_not_mem_pageName_iff {redirects : Redirects}
    (h : ∀ entry ∈ redirects.entries, '/' ∉ entry.2) (m : Method) :
    '/' ∉ m.pageName redirects ↔
      '/' ∉ m.name ∨ redirects.HasEntry (PageName.ofName m.name) := by
  have hpage := m.pageName_iff (P := fun page => '/' ∉ page) h
  rwa [PageName.slash_mem_ofName_iff] at hpage

theorem page?_of_lookUp {tree : FileTree} {redirects : Redirects} {m : Method} {page found : Path}
    (hpending : m.lookup = .pending) (hcandidates : m.candidates redirects = [page])
    (hfound : (m.lookUp tree redirects).page? = some found) : found = page := by
  rw [lookUp, hpending, page?, hcandidates] at hfound
  exact List.mem_singleton.1 (List.mem_of_find?_eq_some hfound)

/-- A method has one candidate, which lies directly in the `man` directory exactly if the method's
name has no separator or its page name is redirected. No other page is found for it. -/
theorem candidate_in_manDirectory_iff (m : Method) (redirects : Redirects)
    (hpages : ∀ entry ∈ redirects.entries, '/' ∉ entry.2) :
    ∃ page, m.candidates redirects = [page] ∧
      (page.components =
          m.manDirectory.components ++ [.name (m.pageName redirects ++ ".Rd".toList)] ↔
        '/' ∉ m.name ∨ redirects.HasEntry (PageName.ofName m.name)) ∧
      ∀ tree found, m.lookup = .pending → (m.lookUp tree redirects).page? = some found →
        found = page := by
  refine ⟨_, rfl, ?_, fun tree found hpending hfound => page?_of_lookUp hpending rfl hfound⟩
  have hlast := m.getLast?_manDirectory
  have hne : m.manDirectory.text ≠ [] := by
    intro hnil
    rw [hnil] at hlast
    cases hlast
  obtain ⟨hidle, hup⟩ := pageFile_plain (m.pageName redirects)
  rw [Path.components_join_eq_iff hne (by simp [hlast]) hidle hup,
    ← slash_not_mem_pageName_iff hpages]
  simp

def divisionMethod : Method where
  name := "%/%".toList
  signature := "Foo".toList
  formals := "(e1, e2)".toList
  source := ⟨"pkg/R/x.R".toList⟩

def divisionPages : Redirects := ⟨[("%/%".toList, "division".toList)]⟩

theorem division_page_redirected :
    (∀ entry ∈ divisionPages.entries, '/' ∉ entry.2) ∧
      ∃ page, divisionMethod.candidates divisionPages = [page] ∧
        page.components =
          divisionMethod.manDirectory.components ++ [.name "division.Rd".toList] := by
  have hpages : ∀ entry ∈ divisionPages.entries, '/' ∉ entry.2 :=
    List.forall_mem_singleton.2 (by decide)
  have hentry : divisionPages.HasEntry (PageName.ofName divisionMethod.name) :=
    List.mem_singleton.2 (by decide)
  obtain ⟨page, hpage, hcomponents, -⟩ :=
    candidate_in_manDirectory_iff divisionMethod divisionPages hpages
  exact ⟨hpages, page, hpage, hcomponents.2 (.inr hentry)⟩

/-- Without a redirect the page is looked for in a directory below, and the page of the plain
division outside of the package. -/
theorem division_page_elsewhere :
    ofParts "%/%".toList "\"Foo\"".toList "(e1, e2)".toList ⟨"pkg/R/x.R".toList⟩ =
        .ok divisionMethod ∧
      divisionMethod.candidates {} = [⟨"pkg/man/%/%.Rd".toList⟩] ∧
      Path.components ⟨"pkg/man/%/%.Rd".toList⟩ =
        divisionMethod.manDirectory.components ++ [.name "%".toList, .name "%.Rd".toList] ∧
      candidates {} { divisionMethod with name := "/".toList } = [⟨"/.Rd".toList⟩] := by
  decide

end RdStubs.Method
