import RdStubs.Proofs.Reading.Files
import RdStubs.Proofs.Stub.Collecting
import RdStubs.Proofs.Stub.Writing
import RdStubs.Update

/-!
# How an update ends

An update that cannot read its sources, or cannot find the page of some method, has written nothing.
Otherwise it ends the way the writing of its stubs ends. Whatever happens, all that it does to the
file tree is to append to files.
-/

namespace RdStubs.Update

section

variable {tree : FileTree} {sources : List Path} {methods : List Method} {stubs : List Stub}
  {p : Progress Declarations}

theorem run_of_unread {e : Error}
    (h : (Source.readFiles tree sources).run { state := {} } = .error e p) :
    (run tree sources).1 = .error (.reading e) ∧ (run tree sources).2.state = tree := by
  simp only [run, h, and_self]

theorem run_of_uncollected {e : Error}
    (hread : (Source.readFiles tree sources).run { state := {} } = .ok methods p)
    (h : Stub.collect tree p.state.redirects methods = .error e) :
    (run tree sources).1 = .error (.collecting e) ∧ (run tree sources).2.state = tree := by
  simp only [run, hread, h, and_self]

theorem run_of_collected
    (hread : (Source.readFiles tree sources).run { state := {} } = .ok methods p)
    (h : Stub.collect tree p.state.redirects methods = .ok stubs) :
    ∃ notices, run tree sources =
      match (Stub.writeAll p.state.redirects stubs).run ⟨tree, notices⟩ with
      | .ok () q => (.ok (), q)
      | .error e q => (.error (.writing e), q) := by
  cases stubs with
  | nil => exact ⟨_, by simp only [run, hread, h]; rfl⟩
  | cons s stubs =>
    refine ⟨p.notices ++ [readNotice methods p.state] ++ [stubsNotice (s :: stubs)], ?_⟩
    simp only [run, hread, h]
    split
    · rename_i hwrite
      rw [hwrite]
    · rename_i hwrite
      rw [hwrite]

theorem run_ok_of_files
    (hread : (Source.readFiles tree sources).run { state := {} } = .ok methods p)
    (h : Stub.collect tree p.state.redirects methods = .ok stubs)
    (hfiles : ∀ s ∈ stubs, tree.isFile s.page = true) : (run tree sources).1 = .ok () := by
  obtain ⟨notices, hrun⟩ := run_of_collected hread h
  obtain ⟨written, hwrite, -⟩ :=
    Stub.writeAll_of_files p.state.redirects (p := ⟨tree, notices⟩) hfiles
  rw [hrun, hwrite]

/-- Every stub is written, or those in front of the first page that is a directory. -/
theorem run_cases_of_collected
    (hread : (Source.readFiles tree sources).run { state := {} } = .ok methods p)
    (h : Stub.collect tree p.state.redirects methods = .ok stubs) :
    ((run tree sources).1 = .ok () ∧ (∀ s ∈ stubs, tree.isFile s.page = true) ∧
      tree.Receives (Stub.textAt tree p.state.redirects stubs) (run tree sources).2.state) ∨
    ∃ before s after, stubs = before ++ s :: after ∧
      (run tree sources).1 = .error (.writing (.file s.page .isADirectory)) ∧
      (∀ s' ∈ before, tree.isFile s'.page = true) ∧ tree.isDirectory s.page = true ∧
      tree.Receives (Stub.textAt tree p.state.redirects before) (run tree sources).2.state := by
  have hpending := Source.pending_of_readFiles hread
  have hpages : ∀ s ∈ stubs, tree.exists? s.page = true := Stub.exists?_of_collect hpending h
  obtain ⟨notices, hrun⟩ := run_of_collected hread h
  rcases Stub.writeAll_cases p.state.redirects (p := ⟨tree, notices⟩) hpages with
    ⟨written, notices', hall, hfiles, hreceives⟩ |
    ⟨before, s, after, written, notices', hstubs, hstop, hfiles, hdirectory, hreceives⟩
  · rw [hall] at hrun
    rw [hrun]
    exact .inl ⟨rfl, hfiles, hreceives⟩
  · rw [hstop] at hrun
    rw [hrun]
    exact .inr ⟨before, s, after, hstubs, rfl, hfiles, hdirectory, hreceives⟩

end

/-- What an update leaves in the file tree, however it ends. Nothing changes unless the sources are
read and every method has a page; then the stubs are written in order, each of them once, up to
the first that cannot be. -/
theorem run_appends_stubs_up_to_failure (tree : FileTree) (sources : List Path) :
    let final := (run tree sources).2.state
    (∃ texts, tree.Receives texts final) ∧
      (∀ e p, (Source.readFiles tree sources).run { state := {} } = .error e p →
        (run tree sources).1 = .error (.reading e) ∧ final = tree) ∧
      ∀ methods p, (Source.readFiles tree sources).run { state := {} } = .ok methods p →
        let redirects := p.state.redirects
        (∀ m ∈ methods, (m.lookUp tree redirects).page? = none →
          ∃ e, Stub.collect tree redirects methods = .error e) ∧
        (∀ e, Stub.collect tree redirects methods = .error e →
          (run tree sources).1 = .error (.collecting e) ∧ final = tree ∧
          ∃ m ∈ methods, (m.lookUp tree redirects).page? = none ∧
            e = .noPage m.name (m.candidates redirects)) ∧
        ∀ stubs, Stub.collect tree redirects methods = .ok stubs →
          ((run tree sources).1 = .ok () ∧ (∀ s ∈ stubs, tree.isFile s.page = true) ∧
            tree.Receives (Stub.textAt tree redirects stubs) final) ∨
          ∃ before s after, stubs = before ++ s :: after ∧
            (run tree sources).1 = .error (.writing (.file s.page .isADirectory)) ∧
            (∀ s' ∈ before, tree.isFile s'.page = true) ∧ tree.isDirectory s.page = true ∧
            tree.Receives (Stub.textAt tree redirects before) final := by
  intro final
  refine ⟨?_, fun e p => run_of_unread, fun methods p hread => ⟨?_, fun e h => ?_, fun stubs =>
    run_cases_of_collected hread⟩⟩
  · cases hread : (Source.readFiles tree sources).run { state := {} } with
    | error e p =>
      have hfinal : final = tree := (run_of_unread hread).2
      exact ⟨fun _ => [], hfinal ▸ .nothing tree⟩
    | ok methods p =>
      cases h : Stub.collect tree p.state.redirects methods with
      | error e =>
        have hfinal : final = tree := (run_of_uncollected hread h).2
        exact ⟨fun _ => [], hfinal ▸ .nothing tree⟩
      | ok stubs =>
        rcases run_cases_of_collected hread h with ⟨-, -, hall⟩ | ⟨_, _, _, -, -, -, -, hsome⟩
        · exact ⟨_, hall⟩
        · exact ⟨_, hsome⟩
  · intro m hm hnone
    cases h : Stub.collect tree p.state.redirects methods with
    | error e => exact ⟨e, rfl⟩
    | ok stubs =>
      have hsome := (Stub.collect_ok h).1 m hm
      rw [hnone] at hsome
      cases hsome
  · obtain ⟨hresult, hfinal⟩ := run_of_uncollected hread h
    exact ⟨hresult, hfinal, Stub.collect_error h⟩

end RdStubs.Update
