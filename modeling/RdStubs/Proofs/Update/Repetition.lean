import RdStubs.Proofs.Update.Pages

/-!
# Updates and what the pages hold

An update reads its sources and asks which paths exist; into a page it never looks. Two trees that
give the same answers therefore receive the same texts in the same files, whatever their pages hold.
The tree that an update leaves gives the same answers as the tree it has found, so the next update
appends the same once more.
-/

namespace RdStubs

structure FileTree.Agree (sources : List Path) (t t' : FileTree) : Prop where
  workDir : t'.workDir = t.workDir
  exists? : ∀ p, t'.exists? p = t.exists? p
  readText : ∀ source ∈ sources, t'.readText source = t.readText source

theorem FileTree.Agree.locate {sources : List Path} {t t' : FileTree} (h : Agree sources t t')
    {p : Path} (hexists : t.exists? p = true) : t'.locate p = t.locate p := by
  obtain ⟨l, hl⟩ := locate_of_exists? hexists
  obtain ⟨l', hl'⟩ := locate_of_exists? ((h.exists? p).trans hexists)
  rw [hl, hl', locate_eq_of_workDir h.workDir hl hl']

section

variable {tree tree' : FileTree} {sources : List Path}

theorem Source.readFiles_congr
    (h : ∀ source ∈ sources, tree'.readText source = tree.readText source) :
    readFiles tree' sources = readFiles tree sources := by
  induction sources with
  | nil => rfl
  | cons source sources ih =>
    obtain ⟨hsource, hsources⟩ := List.forall_mem_cons.1 h
    rw [readFiles, readFiles, ih hsources, readFile, readFile, hsource]

theorem Method.lookUp_congr (h : ∀ p, tree'.exists? p = tree.exists? p) (redirects : Redirects)
    (m : Method) : m.lookUp tree' redirects = m.lookUp tree redirects := by
  rw [lookUp, lookUp, funext h]

theorem Stub.collect_congr (h : ∀ p, tree'.exists? p = tree.exists? p) (redirects : Redirects)
    (methods : List Method) : collect tree' redirects methods = collect tree redirects methods := by
  simp only [collect, collectInto, Method.lookUp_congr h]

end

namespace Update

def IsPage (tree : FileTree) (sources : List Path) (page : Path) : Prop :=
  ∃ methods p, (Source.readFiles tree sources).run { state := {} } = .ok methods p ∧
    ∃ m ∈ methods, (m.lookUp tree p.state.redirects).page? = some page

/-- What an update appends to each file where the pages are files: the texts of the stubs, if there
are any. -/
def appended (tree : FileTree) (sources : List Path) : Location → Text :=
  match (Source.readFiles tree sources).run { state := {} } with
  | .error _ _ => fun _ => []
  | .ok methods p =>
    match Stub.collect tree p.state.redirects methods with
    | .error _ => fun _ => []
    | .ok stubs => Stub.textAt tree p.state.redirects stubs

section

variable {tree tree' : FileTree} {sources : List Path} {methods : List Method} {stubs : List Stub}
  {p : Progress Declarations}

theorem isPage_of_collect
    (hread : (Source.readFiles tree sources).run { state := {} } = .ok methods p)
    (h : Stub.collect tree p.state.redirects methods = .ok stubs) :
    ∀ s ∈ stubs, IsPage tree sources s.page := fun _ hs =>
  ⟨methods, p, hread, Stub.page_of_collect h hs⟩

theorem IsPage.exists? {page : Path} (h : IsPage tree sources page) : tree.exists? page = true := by
  obtain ⟨methods, p, hread, m, hm, hpage⟩ := h
  exact Method.exists?_of_lookUp (Source.pending_of_readFiles hread m hm) hpage

theorem appended_of_collected
    (hread : (Source.readFiles tree sources).run { state := {} } = .ok methods p)
    (h : Stub.collect tree p.state.redirects methods = .ok stubs) :
    appended tree sources = Stub.textAt tree p.state.redirects stubs := by
  simp only [appended, hread, h]

/-- Text comes only to where the page of some method leads. -/
theorem exists_page_of_appended {l : Location} (h : appended tree sources l ≠ []) :
    ∃ page, IsPage tree sources page ∧ tree.locate page = .ok l := by
  unfold appended at h
  cases hread : (Source.readFiles tree sources).run { state := {} } with
  | error e p =>
    simp only [hread] at h
    exact absurd rfl h
  | ok methods p =>
    cases hcollect : Stub.collect tree p.state.redirects methods with
    | error e =>
      simp only [hread, hcollect] at h
      exact absurd rfl h
    | ok stubs =>
      simp only [hread, hcollect] at h
      by_contra hnone
      refine h (Stub.textAt_eq_nil hcollect fun m hm page hpage hl => hnone ⟨page, ?_, hl⟩)
      exact ⟨methods, p, hread, m, hm, hpage⟩

theorem receives_appended (h : ∀ page, IsPage tree sources page → tree.isFile page = true) :
    tree.Receives (appended tree sources) (run tree sources).2.state := by
  cases hread : (Source.readFiles tree sources).run { state := {} } with
  | error e p =>
    rw [(run_of_unread hread).2]
    simp only [appended, hread]
    exact .nothing tree
  | ok methods p =>
    cases hcollect : Stub.collect tree p.state.redirects methods with
    | error e =>
      rw [(run_of_uncollected hread hcollect).2]
      simp only [appended, hread, hcollect]
      exact .nothing tree
    | ok stubs =>
      obtain ⟨notices, hrun⟩ := run_of_collected hread hcollect
      obtain ⟨written, hwrite, hreceives⟩ :=
        Stub.writeAll_of_files p.state.redirects (p := ⟨tree, notices⟩) fun s hs =>
          h s.page (isPage_of_collect hread hcollect s hs)
      rw [hrun, hwrite, appended_of_collected hread hcollect]
      exact hreceives

theorem isPage_congr (h : FileTree.Agree sources tree tree') {page : Path} :
    IsPage tree' sources page ↔ IsPage tree sources page := by
  unfold IsPage
  simp only [Source.readFiles_congr h.readText, Method.lookUp_congr h.exists?]

theorem appended_congr (h : FileTree.Agree sources tree tree') :
    appended tree' sources = appended tree sources := by
  unfold appended
  rw [Source.readFiles_congr h.readText]
  cases hread : (Source.readFiles tree sources).run { state := {} } with
  | error e p => rfl
  | ok methods p =>
    simp only [Stub.collect_congr h.exists?]
    cases hcollect : Stub.collect tree p.state.redirects methods with
    | error e => rfl
    | ok stubs =>
      refine Stub.textAt_congr fun s hs => h.locate ?_
      exact (isPage_of_collect hread hcollect s hs).exists?

/-- Two trees that an update cannot tell apart let it end in the same way and speak of the same. -/
theorem run_congr (h : FileTree.Agree sources tree tree')
    (hfiles : ∀ page, IsPage tree sources page → tree.isFile page = true)
    (hfiles' : ∀ page, IsPage tree sources page → tree'.isFile page = true) :
    (run tree' sources).1 = (run tree sources).1 ∧
      (run tree' sources).2.notices = (run tree sources).2.notices := by
  unfold run
  rw [Source.readFiles_congr h.readText]
  cases hread : (Source.readFiles tree sources).run { state := {} } with
  | error e p => exact ⟨rfl, rfl⟩
  | ok methods p =>
    simp only [Stub.collect_congr h.exists?]
    cases hcollect : Stub.collect tree p.state.redirects methods with
    | error e => exact ⟨rfl, rfl⟩
    | ok stubs =>
      cases stubs with
      | nil => exact ⟨rfl, rfl⟩
      | cons s stubs =>
        have hpages := isPage_of_collect hread hcollect
        let notices := p.notices ++ [readNotice methods p.state] ++ [stubsNotice (s :: stubs)]
        obtain ⟨written, hwrite, -⟩ := Stub.writeAll_of_files p.state.redirects
          (p := ⟨tree, notices⟩) fun s' hs => hfiles s'.page (hpages s' hs)
        obtain ⟨written', hwrite', -⟩ := Stub.writeAll_of_files p.state.redirects
          (p := ⟨tree', notices⟩) fun s' hs => hfiles' s'.page (hpages s' hs)
        simp only [notices] at hwrite hwrite'
        simp only [hwrite, hwrite', and_self]

end

structure PlainPages (tree : FileTree) (sources : List Path) : Prop where
  isFile : ∀ page, IsPage tree sources page → tree.isFile page = true
  notSource : ∀ page, IsPage tree sources page → ∀ source ∈ sources, ∀ l,
    tree.locate source = .ok l → tree.locate page ≠ .ok l

section

variable {tree tree' : FileTree} {sources : List Path}

/-- What an update leaves cannot be told from what it has found. -/
theorem PlainPages.agree (h : PlainPages tree sources) :
    FileTree.Agree sources tree (run tree sources).2.state := by
  have hreceives := receives_appended h.isFile
  refine ⟨hreceives.workDir, hreceives.sameShape.exists?, fun source hsource => ?_⟩
  refine hreceives.readText fun l hl => ?_
  by_contra hne
  obtain ⟨page, hpage, hleads⟩ := exists_page_of_appended hne
  exact h.notSource page hpage source hsource l hl hleads

/-- Where text comes there is a file in every tree whose pages are files. -/
theorem exists_contents_of_appended (h : FileTree.Agree sources tree tree')
    (hfiles : ∀ page, IsPage tree sources page → tree.isFile page = true)
    (hfiles' : ∀ page, IsPage tree sources page → tree'.isFile page = true) {l : Location}
    (hne : appended tree sources l ≠ []) :
    ∃ content content', tree.entry? l = some (.file content) ∧
      tree'.entry? l = some (.file content') := by
  obtain ⟨page, hpage, hl⟩ := exists_page_of_appended hne
  obtain ⟨m, content, hm, hentry⟩ := FileTree.isFile_iff.1 (hfiles page hpage)
  obtain ⟨m', content', hm', hentry'⟩ := FileTree.isFile_iff.1 (hfiles' page hpage)
  rw [h.locate hpage.exists?, hl] at hm'
  obtain rfl := Except.ok.inj (hl.symm.trans hm)
  obtain rfl := Except.ok.inj hm'
  exact ⟨content, content', hentry, hentry'⟩

/-- What an update appends, how it ends and what it notes are the same in every tree that reads its
sources the same and has the same paths, whatever the pages hold. So an update that has succeeded
succeeds again, and appends the same texts to the same files once more. -/
theorem run_ignores_page_contents (h : PlainPages tree sources) :
    tree.Receives (appended tree sources) (run tree sources).2.state ∧
      (∀ tree', FileTree.Agree sources tree tree' →
        (∀ page, IsPage tree' sources page → tree'.isFile page = true) →
          (run tree' sources).1 = (run tree sources).1 ∧
          (run tree' sources).2.notices = (run tree sources).2.notices ∧
          tree'.Receives (appended tree sources) (run tree' sources).2.state ∧
          ∀ l, appended tree sources l ≠ [] → ∃ content content',
            tree.entry? l = some (.file content) ∧ tree'.entry? l = some (.file content')) ∧
      ((run tree sources).1 = .ok () →
        let once := (run tree sources).2.state
        let twice := (run once sources).2.state
        (run once sources).1 = .ok () ∧ once.Receives (appended tree sources) twice ∧
          ∀ l content, tree.entry? l = some (.file content) →
            let stub := FileTree.encode (appended tree sources l)
            once.entry? l = some (.file (content ++ stub)) ∧
              twice.entry? l = some (.file (content ++ stub ++ stub))) := by
  have hreceives := receives_appended h.isFile
  have hother (tree' : FileTree) (hagree : FileTree.Agree sources tree tree')
      (hfiles : ∀ page, IsPage tree sources page → tree'.isFile page = true) :
      tree'.Receives (appended tree sources) (run tree' sources).2.state := by
    rw [← appended_congr hagree]
    exact receives_appended fun page hpage => hfiles page ((isPage_congr hagree).1 hpage)
  refine ⟨hreceives, fun tree' hagree hfiles => ?_, fun hok => ?_⟩
  · have hfiles' : ∀ page, IsPage tree sources page → tree'.isFile page = true := fun page hpage =>
      hfiles page ((isPage_congr hagree).2 hpage)
    obtain ⟨hresult, hnotices⟩ := run_congr hagree h.isFile hfiles'
    exact ⟨hresult, hnotices, hother tree' hagree hfiles', fun l =>
      exists_contents_of_appended hagree h.isFile hfiles'⟩
  · intro once twice
    have hfiles : ∀ page, IsPage tree sources page → once.isFile page = true := fun page hpage =>
      (hreceives.sameShape.isFile page).trans (h.isFile page hpage)
    have hagain : once.Receives (appended tree sources) twice := hother once h.agree hfiles
    refine ⟨(run_congr h.agree h.isFile hfiles).1.trans hok, hagain, fun l content hentry => ?_⟩
    intro stub
    have honce : once.entry? l = some (.file (content ++ stub)) := by
      rw [hreceives.entry?, hentry]
      rfl
    refine ⟨honce, ?_⟩
    rw [hagain.entry?, honce]
    rfl

end

theorem plainPages_shapePackage : PlainPages shapePackage shapeSources := by
  have hpage {page : Path} (h : IsPage shapePackage shapeSources page) :
      page = areaStub.page ∨ page = showStub.page := by
    obtain ⟨methods, p, hread, m, hm, hfound⟩ := h
    obtain ⟨notices, hshapes⟩ := read_shapePackage
    obtain ⟨rfl, rfl⟩ := EStateM.Result.ok.inj (hshapes.symm.trans hread)
    have hmine := page_of_mem_shapesFound _ (List.mem_map_of_mem hm)
    exact hmine.imp (fun h => Option.some.inj (hfound.symm.trans h))
      fun h => Option.some.inj (hfound.symm.trans h)
  constructor
  · intro page h
    rcases hpage h with rfl | rfl
    · decide
    · decide
  · intro page h source hsource l hl
    have hsources : ∀ source ∈ shapeSources,
        shapePackage.locate areaStub.page ≠ shapePackage.locate source ∧
          shapePackage.locate showStub.page ≠ shapePackage.locate source := by
      decide
    obtain ⟨harea, hshow⟩ := hsources source hsource
    rw [← hl]
    rcases hpage h with rfl | rfl
    · exact harea
    · exact hshow

theorem appended_shapePackage :
    appended shapePackage shapeSources areaPlace = Text.unlines areaLines := by
  obtain ⟨notices, hread⟩ := read_shapePackage
  rw [appended_of_collected hread collect_shapePackage]
  exact textAt_areaPlace

/-- The page that two methods share has their stub twice in the end. -/
theorem run_shapePackage_twice :
    PlainPages shapePackage shapeSources ∧
      let once := (run shapePackage shapeSources).2.state
      let twice := (run once shapeSources).2.state
      (run once shapeSources).1 = .ok () ∧
        once.Receives (appended shapePackage shapeSources) twice ∧
        twice.entry? areaPlace =
          some (.file (FileTree.encode "% area\n".toList
            ++ FileTree.encode (Text.unlines areaLines)
            ++ FileTree.encode (Text.unlines areaLines))) := by
  obtain ⟨hok, hreceives, hentries⟩ :=
    (run_ignores_page_contents plainPages_shapePackage).2.2 run_shapePackage
  obtain ⟨-, hentry⟩ := hentries areaPlace (FileTree.encode "% area\n".toList) rfl
  rw [← appended_shapePackage]
  exact ⟨plainPages_shapePackage, hok, hreceives, hentry⟩

end Update

end RdStubs
