import RdStubs.Proofs.Declarations.Regions
import RdStubs.Proofs.FileTree.Spelling
import RdStubs.Proofs.Stub.Layout
import RdStubs.Proofs.Update.Outcome

/-!
# Where methods are documented

An update that succeeds documents every method that was read once, in the stub of its page, and
appends the stub to the file that the page leads to. A file to which no method's page leads stays as
it was.
-/

namespace RdStubs

namespace Stub

variable {tree : FileTree} {redirects : Redirects} {methods : List Method} {stubs : List Stub}

/-- No text comes where no method's page leads. -/
theorem textAt_eq_nil (h : collect tree redirects methods = .ok stubs) {l : Location}
    (hl : ∀ m ∈ methods, ∀ page, (m.lookUp tree redirects).page? = some page →
      tree.locate page ≠ .ok l) :
    textAt tree redirects stubs l = [] := by
  refine textAt_eq_nil_of_locate fun s hs => ?_
  obtain ⟨m, hm, hpage⟩ := page_of_collect h hs
  exact hl m hm s.page hpage

/-- A method is in a stub whose page leads to where its own page leads. -/
theorem mem_stub_of_collect (hpending : ∀ m ∈ methods, m.lookup = .pending)
    (h : collect tree redirects methods = .ok stubs) {m : Method} (hm : m ∈ methods) :
    ∃ s ∈ stubs, m.lookUp tree redirects ∈ s.methods ∧
      ∃ page l, (m.lookUp tree redirects).page? = some page ∧ tree.locate page = .ok l ∧
        tree.locate s.page = .ok l := by
  have hsorts := collect_sorts h
  have hfound : m.lookUp tree redirects ∈ stubs.flatMap Stub.methods :=
    hsorts.perm.mem_iff.2 (List.mem_map_of_mem hm)
  obtain ⟨s, hs, hms⟩ := List.mem_flatMap.1 hfound
  obtain ⟨page, hpage⟩ := Option.isSome_iff_exists.1 ((collect_ok h).1 m hm)
  have hsame := hsorts.sameAs_of_mem hs hms hpage
  obtain ⟨l, hl⟩ := FileTree.locate_of_exists? (Method.exists?_of_lookUp (hpending m hm) hpage)
  obtain ⟨l', hl'⟩ := FileTree.locate_of_exists? (exists?_of_collect hpending h s hs)
  obtain rfl := FileTree.locate_eq_of_sameAs hsame hl' hl
  exact ⟨s, hs, hms, page, l', hpage, hl, hl'⟩

theorem text_of_collect (h : collect tree redirects methods = .ok stubs) {s : Stub}
    (hs : s ∈ stubs) :
    ∃ first, s.methods.head? = some first ∧
      s.text redirects = Text.unlines (linesWith first redirects s.methods) := by
  obtain ⟨first, hfirst, -⟩ := (collect_sorts h).first s hs
  exact ⟨first, hfirst, text_eq_unlines hfirst redirects⟩

end Stub

namespace Update

variable {tree : FileTree} {sources : List Path}

theorem collected_of_run_ok (h : (run tree sources).1 = .ok ()) :
    ∃ methods p stubs, (Source.readFiles tree sources).run { state := {} } = .ok methods p ∧
      Stub.collect tree p.state.redirects methods = .ok stubs ∧
      (∀ s ∈ stubs, tree.isFile s.page = true) ∧
      tree.Receives (Stub.textAt tree p.state.redirects stubs) (run tree sources).2.state := by
  cases hread : (Source.readFiles tree sources).run { state := {} } with
  | error e p =>
    rw [(run_of_unread hread).1] at h
    cases h
  | ok methods p =>
    cases hcollect : Stub.collect tree p.state.redirects methods with
    | error e =>
      rw [(run_of_uncollected hread hcollect).1] at h
      cases h
    | ok stubs =>
      rcases run_cases_of_collected hread hcollect with ⟨-, hfiles, hreceives⟩ |
        ⟨before, s, after, -, hstop, -⟩
      · exact ⟨methods, p, stubs, rfl, hcollect, hfiles, hreceives⟩
      · rw [hstop] at h
        cases h

/-- A successful update appends to a file the texts of the stubs whose pages lead there, in order.
Taken together the stubs hold every method once, with the page that was found for it; a stub lists
the methods of its page in the order in which they were read. -/
theorem run_documents_methods_once (h : (run tree sources).1 = .ok ()) :
    ∃ methods p stubs, (Source.readFiles tree sources).run { state := {} } = .ok methods p ∧
      Stub.collect tree p.state.redirects methods = .ok stubs ∧
      let redirects := p.state.redirects
      let found := methods.map (·.lookUp tree redirects)
      let final := (run tree sources).2.state
      (∀ l, (∀ m ∈ found, ∀ page, m.page? = some page → tree.locate page ≠ .ok l) →
        final.entry? l = tree.entry? l) ∧
      (∀ m ∈ found, ∃ s ∈ stubs, m ∈ s.methods ∧
        ∃ page l content, m.page? = some page ∧ tree.locate page = .ok l ∧
          tree.locate s.page = .ok l ∧ tree.entry? l = some (.file content) ∧
          final.entry? l =
            some (.file (content ++ FileTree.encode (Stub.textAt tree redirects stubs l)))) ∧
      (stubs.flatMap Stub.methods).Perm found ∧
      (stubs.Pairwise fun s s' => ¬ s.page.SameAs s'.page) ∧
      ∀ s ∈ stubs, s.methods = found.filter (·.hasPage s.page) ∧
        ∃ first, s.methods.head? = some first ∧
          s.text redirects = Text.unlines (Stub.linesWith first redirects s.methods) ∧
          ∀ m ∈ s.methods,
            (∀ family, Method.familyAlias family ∉ m.ownAliases redirects) ∧
            ∃ rest, m.usageLine =
              Method.braced "  \\S4method" m.usageName
                ++ (Method.braced "" m.signature ++ rest) := by
  obtain ⟨methods, p, stubs, hread, hcollect, hfiles, hreceives⟩ := collected_of_run_ok h
  have hpending := Source.pending_of_readFiles hread
  have hsorts := Stub.collect_sorts hcollect
  refine ⟨methods, p, stubs, hread, hcollect, ?_, ?_, hsorts.perm, hsorts.distinct, ?_⟩
  · intro l hl
    have htext := Stub.textAt_eq_nil hcollect (l := l) fun m hm =>
      hl _ (List.mem_map_of_mem hm)
    rw [hreceives.entry?, htext]
    cases tree.entry? l <;> simp
  · intro found hfound
    obtain ⟨m, hm, rfl⟩ := List.mem_map.1 hfound
    obtain ⟨s, hs, hms, page, l, hpage, hl, hsl⟩ := Stub.mem_stub_of_collect hpending hcollect hm
    obtain ⟨l', content, hsl', hentry⟩ := FileTree.isFile_iff.1 (hfiles s hs)
    obtain rfl : l' = l := Except.ok.inj (hsl'.symm.trans hsl)
    refine ⟨s, hs, hms, page, l', content, hpage, hl, hsl, hentry, ?_⟩
    rw [hreceives.entry?, hentry]
    rfl
  · intro s hs
    obtain ⟨first, hfirst, htext⟩ := Stub.text_of_collect hcollect hs
    refine ⟨hsorts.methods s hs, first, hfirst, htext, fun m _ => ⟨fun family => ?_, ?_⟩⟩
    · exact m.familyAlias_not_mem_ownAliases family p.state.redirects
    · exact m.usageLine_shows_usageName

def circleSource : Path := ⟨"R/circle.R".toList⟩

def circleArea : Text := "setMethod(\"area\", \"Circle\", function(shape) \x7b".toList

def circleShow : Text := "setMethod(\"show\", \"Circle\", function(object) \x7b".toList

def circleText : Text := Text.unlines [circleArea, "\x7d".toList, circleShow, "\x7d".toList]

def squareSource : Path := ⟨"R/square.R".toList⟩

def squareArea : Text := "setMethod(\"area\", \"Square\", function(shape) \x7b".toList

def squareText : Text := Text.unlines [squareArea, "\x7d".toList]

/-- Two sources whose methods have two of the three pages. -/
def shapePackage : FileTree where
  workDir := []
  entries :=
    [(["R".toList], .directory), (["man".toList], .directory),
      (["R".toList, "circle.R".toList], .file (FileTree.encode circleText)),
      (["R".toList, "square.R".toList], .file (FileTree.encode squareText)),
      (["man".toList, "area.Rd".toList], .file (FileTree.encode "% area\n".toList)),
      (["man".toList, "index.Rd".toList], .file (FileTree.encode "% index\n".toList)),
      (["man".toList, "show.Rd".toList], .file .empty)]

def shapeSources : List Path := [circleSource, squareSource]

def areaPlace : Location := ["man".toList, "area.Rd".toList]

def showPlace : Location := ["man".toList, "show.Rd".toList]

def circleAreaMethod : Method where
  name := "area".toList
  signature := "Circle".toList
  formals := "(shape)".toList
  source := circleSource

def circleShowMethod : Method where
  name := "show".toList
  signature := "Circle".toList
  formals := "(object)".toList
  source := circleSource

def squareAreaMethod : Method where
  name := "area".toList
  signature := "Square".toList
  formals := "(shape)".toList
  source := squareSource

theorem accept?_brace {p : Progress Declarations} (hp : p.state = {}) :
    p.state.accept? (Directive.ofLine "\x7d".toList) = some {} := by
  rw [hp]
  decide

theorem read_circleSource :
    ∃ notices, (Source.readFile shapePackage circleSource).run { state := {} } =
      .ok [circleAreaMethod, circleShowMethod] ⟨{}, notices⟩ := by
  have htext : shapePackage.readText circleSource = .ok circleText :=
    FileTree.readText_of_file (l := ["R".toList, "circle.R".toList]) rfl rfl
  have hsteps : (Source.Layout.ofLines (Text.lines circleText)).steps =
      [.declare "\x7d".toList, .define [circleArea]] ++
        [.declare "\x7d".toList, .define [circleShow]] := by
    decide
  have harea (group? : Option (List Text)) :
      Source.methodsFrom circleSource (Text.unlines [circleArea]) group? =
        .ok [circleAreaMethod] := rfl
  have hshow (group? : Option (List Text)) :
      Source.methodsFrom circleSource (Text.unlines [circleShow]) group? =
        .ok [circleShowMethod] := rfl
  obtain ⟨p, hfirst, hp⟩ :=
    Source.completes_definition (p := { state := {} }) (accept?_brace rfl) harea (by decide)
  obtain ⟨q, hsecond, hq⟩ := Source.completes_definition (accept?_brace hp) hshow (by decide)
  obtain ⟨notices, hread⟩ := Source.run_readFile htext
    (Source.run_readText_of_completes hsteps (hfirst.append hsecond))
  rw [hq] at hread
  exact ⟨notices, hread⟩

theorem read_squareSource (p : Progress Declarations) (hp : p.state = {}) :
    ∃ notices, (Source.readFile shapePackage squareSource).run p =
      .ok [squareAreaMethod] ⟨{}, notices⟩ := by
  have htext : shapePackage.readText squareSource = .ok squareText :=
    FileTree.readText_of_file (l := ["R".toList, "square.R".toList]) rfl rfl
  have hsteps : (Source.Layout.ofLines (Text.lines squareText)).steps =
      [.declare "\x7d".toList, .define [squareArea]] := by
    decide
  have harea (group? : Option (List Text)) :
      Source.methodsFrom squareSource (Text.unlines [squareArea]) group? =
        .ok [squareAreaMethod] := rfl
  obtain ⟨q, hfirst, hq⟩ := Source.completes_definition (accept?_brace hp) harea (by decide)
  obtain ⟨notices, hread⟩ :=
    Source.run_readFile htext (Source.run_readText_of_completes hsteps hfirst)
  rw [hq] at hread
  exact ⟨notices, hread⟩

theorem read_shapePackage :
    ∃ notices, (Source.readFiles shapePackage shapeSources).run { state := {} } =
      .ok [circleAreaMethod, circleShowMethod, squareAreaMethod] ⟨{}, notices⟩ := by
  obtain ⟨notices, hcircle⟩ := read_circleSource
  obtain ⟨notices', hsquare⟩ := read_squareSource ⟨{}, notices⟩ rfl
  exact ⟨notices', Source.run_readFiles_cons hcircle (Source.run_readFiles_cons hsquare rfl)⟩

def shapesFound : List Method :=
  [circleAreaMethod, circleShowMethod, squareAreaMethod].map (·.lookUp shapePackage {})

def areaStub : Stub :=
  ⟨⟨"man/area.Rd".toList⟩,
    [circleAreaMethod.lookUp shapePackage {}, squareAreaMethod.lookUp shapePackage {}]⟩

def showStub : Stub := ⟨⟨"man/show.Rd".toList⟩, [circleShowMethod.lookUp shapePackage {}]⟩

theorem page_of_mem_shapesFound :
    ∀ m ∈ shapesFound, m.page? = some areaStub.page ∨ m.page? = some showStub.page := by
  intro m hm
  simp only [shapesFound, List.map_cons, List.map_nil, List.mem_cons, List.not_mem_nil,
    or_false] at hm
  rcases hm with rfl | rfl | rfl
  · exact .inl rfl
  · exact .inr rfl
  · exact .inl rfl

theorem locate_areaStub : shapePackage.locate areaStub.page = .ok areaPlace := rfl

theorem locate_showStub : shapePackage.locate showStub.page = .ok showPlace := rfl

theorem collect_shapePackage :
    Stub.collect shapePackage {} [circleAreaMethod, circleShowMethod, squareAreaMethod] =
      .ok [areaStub, showStub] := rfl

theorem run_shapePackage : (run shapePackage shapeSources).1 = .ok () := by
  obtain ⟨notices, hread⟩ := read_shapePackage
  have hfiles : ∀ s ∈ [areaStub, showStub], shapePackage.isFile s.page = true := by decide
  exact run_ok_of_files hread collect_shapePackage hfiles

def areaLines : List Text :=
  ["\\docType\x7bmethods\x7d".toList, "\\alias\x7barea-methods\x7d".toList,
    "\\alias\x7barea,Circle-method\x7d".toList, "\\alias\x7barea,Square-method\x7d".toList,
    "\\usage\x7b".toList, "  \\S4method\x7barea\x7d\x7bCircle\x7d(shape)".toList, [],
    "  \\S4method\x7barea\x7d\x7bSquare\x7d(shape)".toList, [], "\x7d".toList]

def showLines : List Text :=
  ["\\docType\x7bmethods\x7d".toList, "\\alias\x7bshow-methods\x7d".toList,
    "\\alias\x7bshow,Circle-method\x7d".toList, "\\usage\x7b".toList,
    "  \\S4method\x7bshow\x7d\x7bCircle\x7d(object)".toList, [], "\x7d".toList]

theorem different_pages : [areaStub, showStub].Pairwise fun s s' =>
    shapePackage.locate s.page ≠ shapePackage.locate s'.page := by
  decide

theorem textAt_areaPlace :
    Stub.textAt shapePackage {} [areaStub, showStub] areaPlace = Text.unlines areaLines := by
  have hfirst : areaStub.methods.head? = some (circleAreaMethod.lookUp shapePackage {}) := rfl
  rw [Stub.textAt_of_different different_pages (by simp) locate_areaStub,
    Stub.text_eq_unlines hfirst]
  exact congrArg Text.unlines (by decide)

theorem textAt_showPlace :
    Stub.textAt shapePackage {} [areaStub, showStub] showPlace = Text.unlines showLines := by
  have hfirst : showStub.methods.head? = some (circleShowMethod.lookUp shapePackage {}) := rfl
  rw [Stub.textAt_of_different different_pages (by simp) locate_showStub,
    Stub.text_eq_unlines hfirst]
  exact congrArg Text.unlines (by decide)

/-- Two methods of different sources share a page, a third one has a page of its own, and the page
of no method stays as it is. -/
theorem run_shapePackage_documents_methods_once :
    (run shapePackage shapeSources).1 = .ok () ∧
      let methods := [circleAreaMethod, circleShowMethod, squareAreaMethod]
      let final := (run shapePackage shapeSources).2.state
      (∃ p, (Source.readFiles shapePackage shapeSources).run { state := {} } = .ok methods p ∧
        Stub.collect shapePackage p.state.redirects methods = .ok [areaStub, showStub]) ∧
        ([areaStub, showStub].flatMap Stub.methods).Perm shapesFound ∧
        final.entry? ["man".toList, "index.Rd".toList] =
          some (.file (FileTree.encode "% index\n".toList)) ∧
        final.entry? areaPlace =
          some (.file (FileTree.encode "% area\n".toList
            ++ FileTree.encode (Text.unlines areaLines))) ∧
        final.entry? showPlace =
          some (.file (.empty ++ FileTree.encode (Text.unlines showLines))) := by
  obtain ⟨methods, p, stubs, hread, hcollect, hkept, hadded, hperm, -⟩ :=
    run_documents_methods_once run_shapePackage
  obtain ⟨notices, hmethods⟩ := read_shapePackage
  obtain ⟨rfl, rfl⟩ := EStateM.Result.ok.inj (hmethods.symm.trans hread)
  obtain rfl := Except.ok.inj (collect_shapePackage.symm.trans hcollect)
  have hwritten {m : Method} {page : Path} {l : Location} {content : ByteArray}
      (hm : m ∈ shapesFound) (hpage : m.page? = some page)
      (hl : shapePackage.locate page = .ok l)
      (hcontent : shapePackage.entry? l = some (.file content)) :
      (run shapePackage shapeSources).2.state.entry? l = some (.file (content
        ++ FileTree.encode (Stub.textAt shapePackage {} [areaStub, showStub] l))) := by
    obtain ⟨_, -, -, page', l', content', hpage', hl', -, hcontent', hfinal⟩ := hadded m hm
    obtain rfl := Option.some.inj (hpage.symm.trans hpage')
    obtain rfl := Except.ok.inj (hl.symm.trans hl')
    obtain rfl := Entry.file.inj (Option.some.inj (hcontent.symm.trans hcontent'))
    exact hfinal
  refine ⟨run_shapePackage, ⟨_, hread, hcollect⟩, hperm, ?_, ?_, ?_⟩
  · refine hkept ["man".toList, "index.Rd".toList] fun m hm page hpage hl => ?_
    rcases page_of_mem_shapesFound m hm with hmine | hmine
    · obtain rfl := Option.some.inj (hmine.symm.trans hpage)
      exact absurd (locate_areaStub.symm.trans hl) (by decide)
    · obtain rfl := Option.some.inj (hmine.symm.trans hpage)
      exact absurd (locate_showStub.symm.trans hl) (by decide)
  · have hm : circleAreaMethod.lookUp shapePackage {} ∈ shapesFound := by simp [shapesFound]
    rw [← textAt_areaPlace]
    exact hwritten hm rfl locate_areaStub rfl
  · have hm : circleShowMethod.lookUp shapePackage {} ∈ shapesFound := by simp [shapesFound]
    rw [← textAt_showPlace]
    exact hwritten hm rfl locate_showStub rfl

end Update

end RdStubs
