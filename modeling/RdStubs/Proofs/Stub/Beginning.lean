import RdStubs.Proofs.Stub.Layout
import RdStubs.Proofs.Stub.Writing

/-!
# Where a stub begins

A stub is appended to its page as it is, with a line break behind each of its lines and none in
front of the first. So it begins on a line of its own if the old text of the page is empty or its last
line is finished, as it always is once a stub has been written; otherwise the document type is
read as the end of the last old line.
-/

namespace RdStubs

namespace Stub

section

variable {s : Stub} (redirects : Redirects)

theorem exists_text_eq (h : s.methods ≠ []) :
    ∃ rest, s.text redirects = Method.doctype ++ '\n' :: Text.unlines rest := by
  obtain ⟨first, others, hmethods⟩ := List.exists_cons_of_ne_nil h
  rw [text_eq_unlines (by rw [hmethods, List.head?_cons])]
  exact ⟨_, Text.unlines_cons _ _⟩

theorem text_of_nil (h : s.methods = []) : s.text redirects = [] := by
  unfold text items
  rw [h]
  rfl

theorem getLast?_text (h : s.methods ≠ []) (old : Text) :
    (old ++ s.text redirects).getLast? = some '\n' := by
  obtain ⟨rest, htext⟩ := exists_text_eq redirects h
  rw [htext, ← Text.unlines_cons,
    List.getLast?_append_of_ne_nil _ (by rw [Text.unlines_cons]; simp),
    Text.getLast?_unlines (List.cons_ne_nil _ _)]

theorem not_mem_doctype : '\n' ∉ Method.doctype := by decide

/-- The lines of a page are the old ones and those of the stub unless the last old line is
unfinished. -/
theorem lines_append_text_iff (s : Stub) (old : Text) :
    Text.lines (old ++ s.text redirects) = Text.lines old ++ Text.lines (s.text redirects) ↔
      s.methods = [] ∨ old = [] ∨ old.getLast? = some '\n' := by
  by_cases hmethods : s.methods = []
  · rw [text_of_nil redirects hmethods, List.append_nil]
    simp [Text.lines, hmethods]
  · obtain ⟨rest, htext⟩ := exists_text_eq redirects hmethods
    rw [htext, Text.lines_append_eq_iff not_mem_doctype, or_iff_right hmethods]

theorem lines_append_text_of_unfinished (h : s.methods ≠ []) {old : Text} (hold : old ≠ [])
    (hlast : old.getLast? ≠ some '\n') :
    ∃ before last, Text.lines old = before ++ [last] ∧
      Text.lines (old ++ s.text redirects) =
        before ++ (last ++ Method.doctype) :: (Text.lines (s.text redirects)).tail := by
  obtain ⟨rest, htext⟩ := exists_text_eq redirects h
  obtain ⟨before, last, hlines, hglued⟩ :=
    Text.lines_append_of_unfinished hold hlast not_mem_doctype (Text.unlines rest)
  refine ⟨before, last, hlines, ?_⟩
  rw [htext, hglued, Text.lines_append_break not_mem_doctype, List.tail_cons]
  have hend : (last ++ Method.doctype).getLast? = some '\x7d' := by
    rw [List.getLast?_append_of_ne_nil _ (by decide)]
    rfl
  rw [Text.dropReturn, hend, if_neg (by decide)]

end

/-- Stubs whose pages are different files are each appended to their own. The lines of a page are
then those it had and those of its stub, exactly if its old text was empty or ended in a line
break; else the document type stands on the last old line. In both cases the new text ends in a
line break, so the next stub begins on a line of its own. -/
theorem written_stub_begins_line_iff {tree final : FileTree} {redirects : Redirects}
    {stubs : List Stub} {notices notices' : List Notice}
    (hpages : stubs.Pairwise fun s s' => tree.locate s.page ≠ tree.locate s'.page)
    (hwrite : (writeAll redirects stubs).run ⟨tree, notices⟩ = .ok () ⟨final, notices'⟩) :
    ∀ s ∈ stubs,
      (∃ l content, tree.locate s.page = .ok l ∧ tree.entry? l = some (.file content) ∧
        final.entry? l = some (.file (content ++ FileTree.encode (s.text redirects)))) ∧
      ∀ old, tree.readText s.page = .ok old →
        final.readText s.page = .ok (old ++ s.text redirects) ∧
        (Text.lines (old ++ s.text redirects) =
            Text.lines old ++ Text.lines (s.text redirects) ↔
          s.methods = [] ∨ old = [] ∨ old.getLast? = some '\n') ∧
        (s.methods ≠ [] → (old ++ s.text redirects).getLast? = some '\n') ∧
        (s.methods ≠ [] → old ≠ [] → old.getLast? ≠ some '\n' →
          ∃ before last, Text.lines old = before ++ [last] ∧
            Text.lines (old ++ s.text redirects) =
              before ++ (last ++ Method.doctype) :: (Text.lines (s.text redirects)).tail) := by
  intro s hs
  have hreceives := receives_of_writeAll hwrite
  obtain ⟨l, content, hlocate, hentry⟩ := FileTree.isFile_iff.1 (isFile_of_writeAll hwrite s hs)
  have htext : textAt tree redirects stubs l = s.text redirects :=
    textAt_of_different hpages hs hlocate
  refine ⟨⟨l, content, hlocate, hentry, ?_⟩, fun old hold => ⟨?_, ?_, ?_, ?_⟩⟩
  · rw [hreceives.entry?, hentry, Option.map_some, Entry.append_file, htext]
  · rw [← htext]
    exact hreceives.readText_append hlocate hold
  · exact lines_append_text_iff redirects s old
  · intro hmethods
    exact getLast?_text redirects hmethods old
  · intro hmethods hne hlast
    exact lines_append_text_of_unfinished redirects hmethods hne hlast

def finishedPage : Path := ⟨"man/length.Rd".toList⟩

def unfinishedPage : Path := ⟨"man/show.Rd".toList⟩

/-- Two pages, of which the second has no line break at its end. -/
def twoPages : FileTree where
  workDir := []
  entries :=
    [(["man".toList], .directory),
      (["man".toList, "length.Rd".toList], .file (FileTree.encode "% length\n".toList)),
      (["man".toList, "show.Rd".toList], .file (FileTree.encode "% show".toList))]

def lengthStub : Stub :=
  ⟨finishedPage,
    [⟨"length".toList, "Box".toList, "(x)".toList, ⟨"R/box.R".toList⟩, .done finishedPage⟩]⟩

def showStub : Stub :=
  ⟨unfinishedPage,
    [⟨"show".toList, "Box".toList, "(object)".toList, ⟨"R/box.R".toList⟩, .done unfinishedPage⟩]⟩

theorem read_finishedPage : twoPages.readText finishedPage = .ok "% length\n".toList :=
  FileTree.readText_of_file (l := ["man".toList, "length.Rd".toList]) rfl rfl

theorem read_unfinishedPage : twoPages.readText unfinishedPage = .ok "% show".toList :=
  FileTree.readText_of_file (l := ["man".toList, "show.Rd".toList]) rfl rfl

theorem write_twoPages :
    ∃ final notices,
      (writeAll {} [lengthStub, showStub]).run ⟨twoPages, []⟩ = .ok () ⟨final, notices⟩ := by
  have hfiles : ∀ s ∈ [lengthStub, showStub], twoPages.isFile s.page = true := by decide
  obtain ⟨final, hwrite, -⟩ := writeAll_of_files {} (p := ⟨twoPages, []⟩) hfiles
  exact ⟨final, _, hwrite⟩

theorem written_twoPages :
    ([lengthStub, showStub].Pairwise fun s s' =>
        twoPages.locate s.page ≠ twoPages.locate s'.page) ∧
      ∃ final notices,
        (writeAll {} [lengthStub, showStub]).run ⟨twoPages, []⟩ = .ok () ⟨final, notices⟩ ∧
        final.readText finishedPage = .ok ("% length\n".toList ++ lengthStub.text {}) ∧
        Text.lines ("% length\n".toList ++ lengthStub.text {}) =
          Text.lines "% length\n".toList ++ Text.lines (lengthStub.text {}) ∧
        final.readText unfinishedPage = .ok ("% show".toList ++ showStub.text {}) ∧
        Text.lines ("% show".toList ++ showStub.text {}) ≠
          Text.lines "% show".toList ++ Text.lines (showStub.text {}) := by
  have hpages : [lengthStub, showStub].Pairwise fun s s' =>
      twoPages.locate s.page ≠ twoPages.locate s'.page := by
    decide
  obtain ⟨final, notices, hwrite⟩ := write_twoPages
  have hwritten := written_stub_begins_line_iff hpages hwrite
  obtain ⟨-, hlength⟩ := hwritten lengthStub (by simp)
  obtain ⟨-, hshow⟩ := hwritten showStub (by simp)
  obtain ⟨hread, hlines, -⟩ := hlength _ read_finishedPage
  obtain ⟨hread', hlines', -⟩ := hshow _ read_unfinishedPage
  exact ⟨hpages, final, notices, hwrite, hread, hlines.2 (by decide), hread',
    mt hlines'.1 (by decide)⟩

/-- The comment on the last old line takes the document type in. -/
theorem document_type_on_last_old_line :
    ∃ final notices, (writeAll {} [showStub]).run ⟨twoPages, []⟩ = .ok () ⟨final, notices⟩ ∧
      twoPages.readText unfinishedPage = .ok "% show".toList ∧
      ∃ new, final.readText unfinishedPage = .ok new ∧
        (Text.lines new).head? = some "% show\\docType\x7bmethods\x7d".toList ∧
        Text.lines new ≠ Text.lines "% show".toList ++ Text.lines (showStub.text {}) := by
  have hfiles : ∀ s ∈ [showStub], twoPages.isFile s.page = true := by decide
  obtain ⟨final, hwrite, hreceives⟩ := writeAll_of_files {} (p := ⟨twoPages, []⟩) hfiles
  have hlocate : twoPages.locate unfinishedPage = .ok ["man".toList, "show.Rd".toList] := rfl
  have hread := hreceives.readText_append hlocate read_unfinishedPage
  rw [textAt_of_different (List.pairwise_singleton _ _) (List.mem_singleton_self _) hlocate]
    at hread
  exact ⟨final, _, hwrite, read_unfinishedPage, _, hread, by decide, by decide⟩

end Stub

end RdStubs
