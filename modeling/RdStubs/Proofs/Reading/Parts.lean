import RdStubs.Proofs.Definition.Choice
import RdStubs.Proofs.FileTree.Append
import RdStubs.Proofs.Reading.Findings

/-!
# Cutting a source into parts

A source may be cut in front of any line on which a definition opens. The statement that is pending
there becomes methods when that line is reached, as it does at the end of a source, so reading the
whole is reading the parts one after another, and only the names that are recorded differ.
-/

namespace RdStubs.Source

open Definition

def BeginsWithOpener (text : Text) : Prop :=
  ∃ opener lines, Text.lines text = opener :: lines ∧ opensOn opener = true

section

variable {before behind : Text}

theorem Layout.steps_append (hbefore : EndsLine before) (hbehind : BeginsWithOpener behind) :
    (ofLines (Text.lines (before ++ behind))).steps =
      (ofLines (Text.lines before)).steps ++ (ofLines (Text.lines behind)).steps := by
  obtain ⟨opener, lines, hlines, hopens⟩ := hbehind
  have hpreamble : (ofLines (opener :: lines)).preamble = [] := by rw [ofLines_cons_opener hopens]
  rw [Text.lines_append hbefore, hlines, ofLines_append_opener hopens]
  simp only [steps, hpreamble, List.map_nil, List.nil_append, List.flatMap_append,
    List.append_assoc]

theorem readText_append (hbefore : EndsLine before) (hbehind : BeginsWithOpener behind)
    (source : Path) :
    readText source (before ++ behind) = (do
      let methods ← readText source before
      let more ← readText source behind
      return methods ++ more) := by
  simp only [readText_eq_runSteps, Layout.steps_append hbefore hbehind, runSteps_append]

/-- Reading a text is reading its parts one after another, where a definition opens on the first
line of the second part. So the files that a file is cut into come to what the file comes to, under
their own names, and leave the declarations that it leaves. -/
theorem parts_read_as_whole (hbefore : EndsLine before) (hbehind : BeginsWithOpener behind) :
    (∀ source, readText source (before ++ behind) = (do
      let methods ← readText source before
      let more ← readText source behind
      return methods ++ more)) ∧
      ∀ start, ∃ f g : Findings, ∀ (tree : FileTree) (whole first second : Path),
        tree.readText whole = .ok (before ++ behind) → tree.readText first = .ok before →
        tree.readText second = .ok behind →
          Task.result (readFiles tree [whole]) start = (f.append g).inSource whole ∧
          Task.result (readFiles tree [first, second]) start =
            (f.inSource first).bind (fun made => (made ++ ·) <$> g.inSource second) ∧
          (Task.after (readFiles tree [first, second]) start).state =
            (Task.after (readFiles tree [whole]) start).state := by
  refine ⟨readText_append hbefore hbehind, fun start => ?_⟩
  obtain ⟨f, d, hfront⟩ := exists_yields_text before start.state
  obtain ⟨g, d', hback⟩ := exists_yields_text behind d
  refine ⟨f, g, fun tree whole first second hwhole hfirst hsecond => ?_⟩
  have hparts : Yields (readFiles tree [first, second]) start.state
      ((f.inSource first).bind fun made => (made ++ ·) <$> g.inSource second) (f.leaves d d') := by
    rw [← List.singleton_append, readFiles_append, readFiles_singleton, readFiles_singleton]
    exact ((hfront first).file hfirst).append_findings ((hback second).file hsecond)
  have hall : Yields (readFiles tree [whole]) start.state ((f.append g).inSource whole)
      (f.leaves d d') := by
    rw [readFiles_singleton, Findings.inSource_append]
    refine Yields.file hwhole ?_
    rw [readText_append hbefore hbehind]
    exact (hfront whole).append_findings (hback whole)
  obtain ⟨hresult, hafter⟩ := hall start rfl
  obtain ⟨hresult', hafter'⟩ := hparts start rfl
  exact ⟨hresult, hresult', hafter'.trans hafter.symm⟩

end

def openRegionPart : Text :=
  Text.unlines ["#+".toList, "size".toList, "setMethod(func_, \"Box\", function(x) \x7b".toList]

def closeRegionPart : Text :=
  Text.unlines ["setMethod(\"show\", \"Box\", function(object)".toList, "\x7b".toList, "#-".toList]

def partedPackage : FileTree where
  workDir := []
  entries :=
    [(["R".toList], .directory),
      (["R".toList, "box.R".toList], .file (FileTree.encode (openRegionPart ++ closeRegionPart))),
      (["R".toList, "a.R".toList], .file (FileTree.encode openRegionPart)),
      (["R".toList, "b.R".toList], .file (FileTree.encode closeRegionPart))]

/-- The region that the first part opens is still open in the second one. -/
theorem parts_of_box_read_as_whole :
    EndsLine openRegionPart ∧ BeginsWithOpener closeRegionPart ∧
      ∃ f g : Findings,
        Task.result (readFiles partedPackage [⟨"R/box.R".toList⟩]) { state := {} } =
          (f.append g).inSource ⟨"R/box.R".toList⟩ ∧
        Task.result (readFiles partedPackage [⟨"R/a.R".toList⟩, ⟨"R/b.R".toList⟩]) { state := {} } =
          (f.inSource ⟨"R/a.R".toList⟩).bind
            (fun made => (made ++ ·) <$> g.inSource ⟨"R/b.R".toList⟩) ∧
        (Task.after (readFiles partedPackage [⟨"R/a.R".toList⟩, ⟨"R/b.R".toList⟩])
            { state := {} }).state =
          (Task.after (readFiles partedPackage [⟨"R/box.R".toList⟩]) { state := {} }).state := by
  have hbefore : EndsLine openRegionPart := .inr (by decide)
  have hbehind : BeginsWithOpener closeRegionPart := ⟨_, _, rfl, by decide⟩
  obtain ⟨f, g, hparts⟩ := (parts_read_as_whole hbefore hbehind).2 { state := {} }
  refine ⟨hbefore, hbehind, f, g, hparts partedPackage _ _ _ ?_ ?_ ?_⟩
  · exact FileTree.readText_of_file (l := ["R".toList, "box.R".toList]) rfl rfl
  · exact FileTree.readText_of_file (l := ["R".toList, "a.R".toList]) rfl rfl
  · exact FileTree.readText_of_file (l := ["R".toList, "b.R".toList]) rfl rfl

end RdStubs.Source
