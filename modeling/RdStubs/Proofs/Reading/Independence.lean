import RdStubs.Proofs.Declarations.Redirects
import RdStubs.Proofs.Reading.Findings
import RdStubs.Proofs.Reading.Openers

/-!
# Sources that do not meet

A source without signs between its statements and without definitions for placeholders has nothing
to do with the declarations: outside of a region it reads none of them and changes none. So the
order in which such sources are read has no part in what is found in them, and other sources come to
the same with such a source in front of them as without it.
-/

namespace RdStubs.Source

open Directive (Signless signless_iff ofLine)

structure Plain (text : Text) : Prop where
  signless : ∀ line ∈ (Layout.ofLines (Text.lines text)).declared, Signless line
  named : ∀ line ∈ Text.lines text, asksForGroup line = false

def Block.ownMethod? (source : Path) (b : Block) : Option Method :=
  match Definition.read? (Text.unlines b.statementLines) with
  | some d =>
    match d.slot with
    | .quoted name => some (d.method source name)
    | .placeholder => none
  | none => none

def ownMethods (source : Path) (text : Text) : List Method :=
  (Layout.ofLines (Text.lines text)).blocks.filterMap (Block.ownMethod? source)

theorem foldlM_accept?_signless {lines : List Text} (h : ∀ line ∈ lines, Signless line)
    {d : Declarations} (hclosed : d.current? = none) :
    (lines.map ofLine).foldlM Declarations.accept? d = some d := by
  induction lines with
  | nil => rfl
  | cons line lines ih =>
    obtain ⟨hline, hlines⟩ := List.forall_mem_cons.1 h
    have haccepts : d.accept? (ofLine line) = some d := by
      rw [signless_iff.1 hline]
      exact Declarations.accept?_eq_some_iff.2 (.ignores hclosed)
    rw [List.map_cons, List.foldlM_cons, haccepts]
    exact ih hlines

theorem Yields.behind_signless {source : Path} {lines : List Text} {steps : List Step}
    {d d' : Declarations} {outcome : Except Error (List Method)}
    (hlines : ∀ line ∈ lines, Signless line) (hclosed : d.current? = none)
    (h : Yields (runSteps source steps) d outcome d') :
    Yields (runSteps source (lines.map .declare ++ steps)) d outcome d' := by
  intro p hp
  subst hp
  obtain ⟨notices, hrun⟩ :=
    Declarations.run_forM_declare (foldlM_accept?_signless hlines hclosed)
  obtain ⟨hresult, hafter⟩ := Task.bind_of_run_eq_ok hrun fun _ => runSteps source steps
  rw [runSteps_declare, hresult, hafter]
  exact h ⟨p.state, notices⟩ rfl

namespace Plain

variable {text : Text}

theorem exists_method (h : Plain text) {b : Block}
    (hb : b ∈ (Layout.ofLines (Text.lines text)).blocks) (source : Path) :
    ∃ m, b.ownMethod? source = some m ∧
      asksForGroup (Text.unlines b.statementLines) = false ∧
      ∀ group?, methodsFrom source (Text.unlines b.statementLines) group? = .ok [m] := by
  obtain ⟨d, hopener⟩ := b.exists_read?_opener
  obtain ⟨d', hread, hslot, -⟩ := Layout.read?_statement hb hopener
  have hnamed : d.slot ≠ .placeholder := by
    have hline := Layout.mem_lines_of_mem_block hb List.mem_cons_self
    simpa [asksForGroup, hopener] using h.named b.opener hline
  cases hname : d'.slot with
  | placeholder => exact absurd (hslot.symm.trans hname) hnamed
  | quoted name =>
    have hne : name ≠ placeholderWord := by
      rintro rfl
      exact Definition.slot_ne_reserved hread hname
    refine ⟨d'.method source name, by simp [Block.ownMethod?, hread, hname],
      by simp [asksForGroup, hread, hname], fun group? => ?_⟩
    simp [methodsFrom, hread, hname, Definition.methods, Ne.symm hne]

theorem yields_define (h : Plain text) {b : Block}
    (hb : b ∈ (Layout.ofLines (Text.lines text)).blocks) (source : Path) (d : Declarations) :
    ∃ m, b.ownMethod? source = some m ∧
      Yields (methodsOf source (Text.unlines b.statementLines)) d (.ok [m]) d := by
  obtain ⟨m, hown, hasks, hmethods⟩ := h.exists_method hb source
  refine ⟨m, hown, fun p hp => ?_⟩
  obtain ⟨hresult, hafter⟩ := run_methodsOf source (Text.unlines b.statementLines) p
  rw [hmethods] at hresult
  rw [hasks, if_neg Bool.false_ne_true, Nat.add_zero] at hafter
  exact ⟨hresult, hafter.trans hp⟩

theorem yields_blocks (h : Plain text) {blocks : List Block}
    (hblocks : ∀ b ∈ blocks, b ∈ (Layout.ofLines (Text.lines text)).blocks) (source : Path)
    {d : Declarations} (hclosed : d.current? = none) :
    Yields (runSteps source (blocks.flatMap Block.steps)) d
      (.ok (blocks.filterMap (Block.ownMethod? source))) d := by
  induction blocks with
  | nil => exact fun p hp => ⟨rfl, hp⟩
  | cons b blocks ih =>
    obtain ⟨hb, hrest⟩ := List.forall_mem_cons.1 hblocks
    obtain ⟨m, hown, hdefine⟩ := h.yields_define hb source d
    have hbehind : ∀ line ∈ b.linesBehind, Signless line := fun line hline =>
      h.signless line (List.mem_append_right _ (List.mem_flatMap.2 ⟨b, hb, hline⟩))
    rw [List.flatMap_cons, Block.steps, List.append_assoc, List.filterMap_cons_some hown]
    exact (hdefine.append_ok (ih hrest)).behind_signless hbehind hclosed

/-- Outside of a region a plain text comes to the methods of its definitions and leaves the
declarations as they are. -/
theorem yields (h : Plain text) (source : Path) {d : Declarations} (hclosed : d.current? = none) :
    Yields (readText source text) d (.ok (ownMethods source text)) d := by
  have hpreamble : ∀ line ∈ (Layout.ofLines (Text.lines text)).preamble, Signless line :=
    fun line hline => h.signless line (List.mem_append_left _ hline)
  rw [readText_eq_runSteps, Layout.steps]
  exact (h.yields_blocks (fun _ => id) source hclosed).behind_signless hpreamble hclosed

end Plain

theorem yields_plain_files {tree : FileTree} {files : List (Path × Text)}
    (h : ∀ file ∈ files, tree.readText file.1 = .ok file.2 ∧ Plain file.2)
    {d : Declarations} (hclosed : d.current? = none) :
    Yields (readFiles tree (files.map Prod.fst)) d
      (.ok (files.flatMap fun file => ownMethods file.1 file.2)) d := by
  induction files with
  | nil => exact fun p hp => ⟨rfl, hp⟩
  | cons file files ih =>
    obtain ⟨⟨htext, hplain⟩, hfiles⟩ := List.forall_mem_cons.1 h
    exact ((hplain.yields file.1 hclosed).file htext).append_ok (ih hfiles)

theorem exists_yields_each (sources : List (Path × Text)) (d : Declarations) :
    ∃ results d', ∀ p : Progress Declarations, p.state = d →
      (readEach sources p).1 = results ∧ (readEach sources p).2.state = d' := by
  induction sources generalizing d with
  | nil => exact ⟨[], d, fun p hp => ⟨rfl, hp⟩⟩
  | cons first sources ih =>
    obtain ⟨f, d', hfirst⟩ := exists_yields_text first.2 d
    obtain ⟨results, d'', hrest⟩ := ih d'
    refine ⟨f.inSource first.1 :: results, d'', fun p hp => ?_⟩
    obtain ⟨hresult, hafter⟩ := hfirst first.1 p hp
    obtain ⟨hresults, hfinish⟩ := hrest _ hafter
    exact ⟨congrArg₂ List.cons hresult hresults, hfinish⟩

/-- A plain source between others adds its methods to what they come to. -/
theorem readFiles_insert {tree : FileTree} {source : Path} {text : Text}
    (htext : tree.readText source = .ok text) (hplain : Plain text) (before behind : List Path)
    (start : Progress Declarations)
    (hclosed : (Task.after (readFiles tree before) start).state.current? = none) :
    let first := Task.result (readFiles tree before) start
    let rest := Task.result (readFiles tree behind) (Task.after (readFiles tree before) start)
    Task.result (readFiles tree (before ++ behind)) start =
        first.bind (fun made => (made ++ ·) <$> rest) ∧
      Task.result (readFiles tree (before ++ source :: behind)) start =
        first.bind (fun made => (fun more => made ++ (ownMethods source text ++ more)) <$> rest) ∧
      (Task.after (readFiles tree (before ++ source :: behind)) start).state =
        (Task.after (readFiles tree (before ++ behind)) start).state := by
  intro first rest
  obtain ⟨outcome, d, hbefore⟩ := exists_yields_files tree before start.state
  obtain ⟨hfirst, hleft⟩ := hbefore start rfl
  obtain ⟨more, d', hbehind⟩ := exists_yields_files tree behind d
  have hrest : rest = more := (hbehind _ hleft).1
  have hown := (hplain.yields source (hleft ▸ hclosed)).file htext
  have hinserted : Yields (readFiles tree (source :: behind)) d
      ((ownMethods source text ++ ·) <$> more) d' := hown.append_ok hbehind
  rw [show first = outcome from hfirst, hrest, readFiles_append, readFiles_append]
  cases outcome with
  | ok made =>
    obtain ⟨hwithout, hstate⟩ := hbefore.append_ok hbehind start rfl
    obtain ⟨hwith, hstate'⟩ := hbefore.append_ok hinserted start rfl
    rw [← LawfulFunctor.comp_map] at hwith
    exact ⟨hwithout, hwith, hstate'.trans hstate.symm⟩
  | error e =>
    obtain ⟨hwithout, hstate⟩ := hbefore.append_error (readFiles tree behind) start rfl
    obtain ⟨hwith, hstate'⟩ := hbefore.append_error (readFiles tree (source :: behind)) start rfl
    exact ⟨hwithout, hwith, hstate'.trans hstate.symm⟩

theorem readEach_insert {text : Text} (hplain : Plain text) (source : Path)
    (before behind : List (Path × Text)) (start : Progress Declarations)
    (hclosed : (readEach before start).2.state.current? = none) :
    ∃ results, (readEach (before ++ behind) start).1 = (readEach before start).1 ++ results ∧
      (readEach (before ++ (source, text) :: behind) start).1 =
        (readEach before start).1 ++ .ok (ownMethods source text) :: results ∧
      (readEach (before ++ (source, text) :: behind) start).2.state =
        (readEach (before ++ behind) start).2.state := by
  obtain ⟨results, d, hbehind⟩ := exists_yields_each behind (readEach before start).2.state
  obtain ⟨hresult, hkept⟩ := hplain.yields source hclosed _ rfl
  obtain ⟨hwithout, hstate⟩ := readEach_append before behind start
  obtain ⟨hwith, hstate'⟩ := readEach_append before ((source, text) :: behind) start
  obtain ⟨hresults, hfinish⟩ := hbehind _ rfl
  obtain ⟨hresults', hfinish'⟩ := hbehind _ hkept
  refine ⟨results, hwithout.trans (congrArg _ hresults), hwith.trans (congrArg _ ?_), ?_⟩
  · exact congrArg₂ List.cons hresult hresults'
  · rw [hstate, hstate', hfinish]
    exact hfinish'

/-- Outside of a region a plain source is read without an error and leaves the declarations as they
are; its methods are those of its definitions. So plain sources come to the same in every order, and
such a source may be put between any others, where no region is open, without a change to what they
come to or to the errors that they stop with. -/
theorem plain_sources_do_not_interfere :
    (∀ source text, Plain text → ∀ start : Progress Declarations, start.state.current? = none →
      Task.result (readText source text) start = .ok (ownMethods source text) ∧
      (Task.after (readText source text) start).state = start.state) ∧
    (∀ (tree : FileTree) (files permuted : List (Path × Text)),
      (∀ file ∈ files, tree.readText file.1 = .ok file.2 ∧ Plain file.2) → permuted.Perm files →
        ∀ start : Progress Declarations, start.state.current? = none →
          Task.result (readFiles tree (permuted.map Prod.fst)) start =
            .ok (permuted.flatMap fun file => ownMethods file.1 file.2) ∧
          (Task.after (readFiles tree (permuted.map Prod.fst)) start).state = start.state) ∧
    (∀ (tree : FileTree) (source : Path) (text : Text), tree.readText source = .ok text →
      Plain text → ∀ (before behind : List Path) (start : Progress Declarations),
        (Task.after (readFiles tree before) start).state.current? = none →
          let first := Task.result (readFiles tree before) start
          let rest := Task.result (readFiles tree behind) (Task.after (readFiles tree before) start)
          Task.result (readFiles tree (before ++ behind)) start =
            first.bind (fun made => (made ++ ·) <$> rest) ∧
          Task.result (readFiles tree (before ++ source :: behind)) start =
            first.bind (fun made =>
              (fun more => made ++ (ownMethods source text ++ more)) <$> rest) ∧
          (Task.after (readFiles tree (before ++ source :: behind)) start).state =
            (Task.after (readFiles tree (before ++ behind)) start).state) ∧
    ∀ source text, Plain text → ∀ (before behind : List (Path × Text)) start,
      (readEach before start).2.state.current? = none →
        ∃ results, (readEach (before ++ behind) start).1 = (readEach before start).1 ++ results ∧
          (readEach (before ++ (source, text) :: behind) start).1 =
            (readEach before start).1 ++ .ok (ownMethods source text) :: results ∧
          (readEach (before ++ (source, text) :: behind) start).2.state =
            (readEach (before ++ behind) start).2.state := by
  refine ⟨?_, ?_, ?_, ?_⟩
  · intro source text hplain start hclosed
    exact hplain.yields source hclosed start rfl
  · intro tree files permuted hfiles hperm start hclosed
    have hpermuted : ∀ file ∈ permuted, tree.readText file.1 = .ok file.2 ∧ Plain file.2 :=
      fun file hfile => hfiles file (hperm.mem_iff.1 hfile)
    exact yields_plain_files hpermuted hclosed start rfl
  · intro tree source text htext hplain
    exact readFiles_insert htext hplain
  · intro source text hplain
    exact readEach_insert hplain source

def plainText : Text := Text.unlines ["# a person".toList, personDefinition, "\x7d".toList]

theorem plain_plainText : Plain plainText where
  signless := by
    have hdeclared : (Layout.ofLines (Text.lines plainText)).declared =
        ["# a person".toList, "\x7d".toList] := by decide
    rw [hdeclared]
    refine List.forall_mem_cons.2 ⟨signless_iff.2 (by decide), ?_⟩
    exact List.forall_mem_singleton.2 (signless_iff.2 (by decide))
  named := by
    have hlines : Text.lines plainText =
        ["# a person".toList, personDefinition, "\x7d".toList] := by decide
    rw [hlines]
    decide

def redirectSource : Path := ⟨"R/aliases.R".toList⟩

def redirectText : Text := Text.unlines [personRedirect]

theorem closed_behind_redirectText :
    (readEach [(redirectSource, redirectText)] { state := {} }).2.state.current? = none := by
  have hsteps : (Layout.ofLines (Text.lines redirectText)).steps = [.declare personRedirect] := by
    decide
  have haccept : ({} : Declarations).accept? (ofLine personRedirect) =
      some { redirects := ⟨[("show".toList, "people".toList)]⟩ } := by decide
  obtain ⟨notices, hline⟩ := run_declare_step redirectSource (p := { state := {} }) haccept
  have hread := (runSteps_eq_ok_iff redirectSource _ _ _ _).2 (.cons hline (.nil _))
  rw [← hsteps, ← readText_eq_runSteps] at hread
  have hafter := (Task.run_eq_ok_iff.1 hread).2
  rw [readEach, readEach, hafter]

theorem plainText_between_others :
    Plain plainText ∧ ownMethods personSource plainText = [personMethod] ∧
      (readEach [(redirectSource, redirectText)] { state := {} }).2.state.current? = none ∧
      ∃ results,
        (readEach [(redirectSource, redirectText), (personSource, personText)]
            { state := {} }).1 =
          (readEach [(redirectSource, redirectText)] { state := {} }).1 ++ results ∧
        (readEach [(redirectSource, redirectText), (personSource, plainText),
            (personSource, personText)] { state := {} }).1 =
          (readEach [(redirectSource, redirectText)] { state := {} }).1 ++
            .ok [personMethod] :: results := by
  obtain ⟨results, hwithout, hwith, -⟩ := plain_sources_do_not_interfere.2.2.2 personSource
    plainText plain_plainText [(redirectSource, redirectText)] [(personSource, personText)]
    { state := {} } closed_behind_redirectText
  exact ⟨plain_plainText, rfl, closed_behind_redirectText, results, hwithout, hwith⟩

end RdStubs.Source
