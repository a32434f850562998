import RdStubs.Proofs.FileTree.Append
import RdStubs.Proofs.Task
import RdStubs.Stub

/-!
# Writing stubs

Stubs are written in order to pages that exist. A page that is a file receives the whole text of
its stub; the first page that is a directory ends the work, and the stubs from there on leave no
trace.
-/

namespace RdStubs

def FileTree.leadsTo (t : FileTree) (p : Path) (l : Location) : Bool :=
  (t.locate p).toOption = some l

theorem FileTree.leadsTo_iff {t : FileTree} {p : Path} {l : Location} :
    t.leadsTo p l = true ↔ t.locate p = .ok l := by
  unfold leadsTo
  cases t.locate p <;> simp [Except.toOption]

theorem FileTree.leadsTo_of_locate {t : FileTree} {p : Path} {l : Location} (h : t.locate p = .ok l)
    (m : Location) : t.leadsTo p m = decide (m = l) := by
  simp [leadsTo, h, Except.toOption, eq_comm]

namespace Stub

/-- What the stubs whose pages lead to a location bring there, in order. -/
def textAt (tree : FileTree) (redirects : Redirects) (stubs : List Stub) (l : Location) : Text :=
  (stubs.filter fun s => tree.leadsTo s.page l).flatMap (text redirects)

section

variable {tree tree' : FileTree} {redirects : Redirects}

@[simp] theorem textAt_nil (l : Location) : textAt tree redirects [] l = [] := rfl

theorem textAt_cons (s : Stub) (stubs : List Stub) (l : Location) :
    textAt tree redirects (s :: stubs) l =
      (if tree.leadsTo s.page l then s.text redirects else [])
        ++ textAt tree redirects stubs l := by
  by_cases h : tree.leadsTo s.page l = true <;> simp [textAt, h]

theorem textAt_eq_nil_of_locate {stubs : List Stub} {l : Location}
    (h : ∀ s ∈ stubs, tree.locate s.page ≠ .ok l) : textAt tree redirects stubs l = [] := by
  have hnone : stubs.filter (fun s => tree.leadsTo s.page l) = [] :=
    List.filter_eq_nil_iff.2 fun s hs hleads => h s hs (FileTree.leadsTo_iff.1 hleads)
  rw [textAt, hnone, List.flatMap_nil]

/-- Where the pages are different files, each of them gets the text of its own stub. -/
theorem textAt_of_different {stubs : List Stub} {s : Stub} {l : Location}
    (h : stubs.Pairwise fun s s' => tree.locate s.page ≠ tree.locate s'.page) (hs : s ∈ stubs)
    (hlocate : tree.locate s.page = .ok l) : textAt tree redirects stubs l = s.text redirects := by
  induction stubs with
  | nil => cases hs
  | cons first stubs ih =>
    obtain ⟨hfirst, hstubs⟩ := List.pairwise_cons.1 h
    rw [textAt_cons]
    rcases List.mem_cons.1 hs with rfl | hs
    · have hothers : ∀ s' ∈ stubs, tree.locate s'.page ≠ .ok l := fun s' hs' hsame =>
        hfirst s' hs' (hlocate.trans hsame.symm)
      rw [if_pos (FileTree.leadsTo_iff.2 hlocate), textAt_eq_nil_of_locate hothers, List.append_nil]
    · have hother : ¬ tree.leadsTo first.page l = true := fun hleads =>
        hfirst s hs ((FileTree.leadsTo_iff.1 hleads).trans hlocate.symm)
      rw [if_neg hother, ih hstubs hs, List.nil_append]

theorem textAt_congr {stubs : List Stub}
    (h : ∀ s ∈ stubs, tree'.locate s.page = tree.locate s.page) :
    textAt tree' redirects stubs = textAt tree redirects stubs := by
  funext l
  unfold textAt FileTree.leadsTo
  rw [List.filter_congr fun s hs => by rw [h s hs]]

theorem textAt_of_sameShape (h : FileTree.SameShape tree tree') (stubs : List Stub) :
    textAt tree' redirects stubs = textAt tree redirects stubs :=
  textAt_congr fun s _ => h.locate s.page

theorem run_write (redirects : Redirects) (s : Stub) (p : Progress FileTree) :
    ∃ notices, (s.write redirects).run p =
      match p.state.append s.page (s.text redirects) with
      | .ok written => .ok () ⟨written, notices⟩
      | .error cause => .error (.file s.page cause) ⟨p.state, notices⟩ := by
  refine ⟨p.notices ++ [⟨.info, .stubs, "Adding to ".toList ++ s.page.text⟩], ?_⟩
  simp only [write, EStateM.run_bind, Task.run_note, Task.run_state]
  cases p.state.append s.page (s.text redirects) <;> rfl

theorem write_file (redirects : Redirects) {s : Stub} {p : Progress FileTree}
    (h : p.state.isFile s.page = true) :
    ∃ written notices, (s.write redirects).run p = .ok () ⟨written, notices⟩ ∧
      p.state.Receives (textAt p.state redirects [s]) written := by
  obtain ⟨l, content, hlocate, hentry⟩ := FileTree.isFile_iff.1 h
  obtain ⟨notices, hrun⟩ := run_write redirects s p
  rw [FileTree.append_eq_ok hlocate hentry] at hrun
  have htext : textAt p.state redirects [s] = fun m => if m = l then s.text redirects else [] := by
    funext m
    simp [textAt_cons, FileTree.leadsTo_of_locate hlocate]
  exact ⟨_, notices, hrun, htext ▸ p.state.receives_appendAt l (s.text redirects)⟩

theorem write_directory (redirects : Redirects) {s : Stub} {p : Progress FileTree}
    (h : p.state.isDirectory s.page = true) :
    ∃ notices, (s.write redirects).run p =
      .error (.file s.page .isADirectory) ⟨p.state, notices⟩ := by
  obtain ⟨notices, hrun⟩ := run_write redirects s p
  rw [FileTree.append_eq_error h] at hrun
  exact ⟨notices, hrun⟩

theorem writeAll_cases (redirects : Redirects) {stubs : List Stub} {p : Progress FileTree}
    (h : ∀ s ∈ stubs, p.state.exists? s.page = true) :
    (∃ written notices, (writeAll redirects stubs).run p = .ok () ⟨written, notices⟩ ∧
      (∀ s ∈ stubs, p.state.isFile s.page = true) ∧
      p.state.Receives (textAt p.state redirects stubs) written) ∨
    ∃ before s after written notices, stubs = before ++ s :: after ∧
      (writeAll redirects stubs).run p = .error (.file s.page .isADirectory) ⟨written, notices⟩ ∧
      (∀ s' ∈ before, p.state.isFile s'.page = true) ∧ p.state.isDirectory s.page = true ∧
      p.state.Receives (textAt p.state redirects before) written := by
  induction stubs generalizing p with
  | nil => exact .inl ⟨p.state, p.notices, rfl, by simp, .nothing p.state⟩
  | cons s stubs ih =>
    obtain ⟨hs, hstubs⟩ := List.forall_mem_cons.1 h
    rcases FileTree.exists?_iff.1 hs with hfile | hdirectory
    · obtain ⟨first, notices, hrun, hfirst⟩ := write_file redirects hfile
      -- what stands in the tree of the remaining stubs is what stood there at the start
      have hshape := hfirst.sameShape
      have htext (before : List Stub) : (fun l => textAt p.state redirects [s] l
          ++ textAt first redirects before l) = textAt p.state redirects (s :: before) := by
        funext l
        rw [textAt_of_sameShape hshape, textAt_cons s before, textAt_cons s []]
        simp
      have hrest : ∀ s' ∈ stubs, first.exists? s'.page = true := fun s' hs' =>
        (hshape.exists? s'.page).trans (hstubs s' hs')
      rcases ih (p := ⟨first, notices⟩) hrest with
        ⟨written, notices', hall, hfiles, hreceives⟩ |
        ⟨before, s', after, written, notices', rfl, hstop, hfiles, hdirectory, hreceives⟩
      · refine .inl ⟨written, notices', ?_, ?_, htext stubs ▸ hfirst.trans hreceives⟩
        · simp [writeAll, hrun, hall]
        · simpa [hfile, hshape.isFile] using hfiles
      · refine .inr ⟨s :: before, s', after, written, notices', rfl, ?_, ?_, ?_,
          htext before ▸ hfirst.trans hreceives⟩
        · simp [writeAll, hrun, hstop]
        · simpa [hfile, hshape.isFile] using hfiles
        · simpa [hshape.isDirectory_path] using hdirectory
    · obtain ⟨notices, hrun⟩ := write_directory redirects hdirectory
      exact .inr ⟨[], s, stubs, p.state, notices, rfl, by simp [writeAll, hrun], by simp,
        hdirectory, .nothing p.state⟩

def writeNotice (s : Stub) : Notice := ⟨.info, .stubs, "Adding to ".toList ++ s.page.text⟩

theorem notices_write {s : Stub} {p q : Progress FileTree}
    (h : (s.write redirects).run p = .ok () q) : q.notices = p.notices ++ [s.writeNotice] := by
  simp only [write, EStateM.run_bind, Task.run_note, Task.run_state] at h
  cases happend : p.state.append s.page (s.text redirects) with
  | error cause =>
    rw [happend] at h
    cases h
  | ok written =>
    rw [happend] at h
    cases h
    rfl

theorem notices_writeAll {stubs : List Stub} {p q : Progress FileTree}
    (h : (writeAll redirects stubs).run p = .ok () q) :
    q.notices = p.notices ++ stubs.map writeNotice := by
  induction stubs generalizing p with
  | nil =>
    cases h
    exact (List.append_nil _).symm
  | cons s stubs ih =>
    obtain ⟨_, first, hfirst, hrest⟩ := Task.run_bind_eq_ok_iff.1 h
    rw [ih hrest, notices_write hfirst, List.append_assoc]
    rfl

/-- Where all pages are files, every stub is written. -/
theorem writeAll_of_files (redirects : Redirects) {stubs : List Stub} {p : Progress FileTree}
    (h : ∀ s ∈ stubs, p.state.isFile s.page = true) :
    ∃ written, (writeAll redirects stubs).run p =
        .ok () ⟨written, p.notices ++ stubs.map writeNotice⟩ ∧
      p.state.Receives (textAt p.state redirects stubs) written := by
  have hexists : ∀ s ∈ stubs, p.state.exists? s.page = true := fun s hs =>
    FileTree.exists?_iff.2 (.inl (h s hs))
  rcases writeAll_cases redirects hexists with ⟨written, notices, hrun, -, hreceives⟩ |
    ⟨before, s, after, _, _, rfl, -, -, hdirectory, -⟩
  · obtain rfl := notices_writeAll hrun
    exact ⟨written, hrun, hreceives⟩
  · obtain ⟨l, content, hlocate, hfile⟩ := FileTree.isFile_iff.1 (h s (by simp))
    obtain ⟨l', hlocate', hentry⟩ := FileTree.isDirectory_iff.1 hdirectory
    obtain rfl := Except.ok.inj (hlocate.symm.trans hlocate')
    rw [hfile] at hentry
    cases hentry

theorem isFile_of_writeAll {stubs : List Stub} {p q : Progress FileTree}
    (h : (writeAll redirects stubs).run p = .ok () q) :
    ∀ s ∈ stubs, p.state.isFile s.page = true := by
  induction stubs generalizing p with
  | nil => exact List.forall_mem_nil _
  | cons s stubs ih =>
    obtain ⟨_, first, hfirst, hrest⟩ := Task.run_bind_eq_ok_iff.1 h
    have hfile : p.state.isFile s.page = true := by
      obtain ⟨notices, hrun⟩ := run_write redirects s p
      rw [hfirst] at hrun
      cases happend : p.state.append s.page (s.text redirects) with
      | ok written => exact FileTree.isFile_of_append happend
      | error cause =>
        rw [happend] at hrun
        cases hrun
    obtain ⟨written, notices, hrun, hreceives⟩ := write_file redirects hfile
    obtain rfl : first = ⟨written, notices⟩ := (EStateM.Result.ok.inj (hfirst.symm.trans hrun)).2
    refine List.forall_mem_cons.2 ⟨hfile, fun s' hs' => ?_⟩
    rw [← hreceives.sameShape.isFile]
    exact ih hrest s' hs'

/-- Stubs that have all been written are in their pages. -/
theorem receives_of_writeAll {stubs : List Stub} {p q : Progress FileTree}
    (h : (writeAll redirects stubs).run p = .ok () q) :
    p.state.Receives (textAt p.state redirects stubs) q.state := by
  obtain ⟨written, hrun, hreceives⟩ := writeAll_of_files redirects (isFile_of_writeAll h)
  obtain rfl := (EStateM.Result.ok.inj (h.symm.trans hrun)).2
  exact hreceives

end

end Stub

end RdStubs
