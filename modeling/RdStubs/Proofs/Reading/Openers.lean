import Mathlib.Data.List.Forall2
import RdStubs.Proofs.Declarations.Regions
import RdStubs.Proofs.Definition.Extension
import RdStubs.Proofs.Reading.Methods
import RdStubs.Proofs.Reading.Steps

/-!
# What the opener says of a statement

A statement begins with the line on which its definition opens. What is read from the statement has
the slot that is read from this line alone, so no statement fails to be a definition, and no quoted
name is the reserved one. The class expression is that of the line too, as long as no parameter
list follows a comma further down.
-/

namespace RdStubs

namespace Text

theorem not_mem_of_mem_lines {line s : Text} (h : line ∈ lines s) : '\n' ∉ line := by
  fun_induction lines s generalizing line with
  | case1 => cases h
  | case2 s ih | case3 s ih =>
    rcases List.mem_cons.1 h with rfl | h
    · exact List.not_mem_nil
    · exact ih h
  | case4 c s hbreak _ ih =>
    exact not_mem_of_mem_consFirst (fun heq => hbreak heq.symm) (fun _ => ih) h

end Text

namespace Definition

theorem slot_ne_reserved {t : Text} {d : Definition} (h : read? t = some d) :
    d.slot ≠ .quoted placeholderWord := by
  obtain ⟨_, w, -, rfl⟩ := read?_eq_some_iff.1 h
  intro hslot
  exact (w.call.word.slot_eq_quoted_iff placeholderWord).1 hslot |>.1 rfl

end Definition

namespace Source

def Block.below (b : Block) : Text := Text.unlines b.statementLines.tail

theorem Block.unlines_statementLines (b : Block) :
    Text.unlines b.statementLines = b.opener ++ '\n' :: b.below := by
  obtain ⟨lines, hlines⟩ := List.head?_eq_some_iff.1 b.head?_statementLines
  rw [below, hlines, Text.unlines_cons, List.tail_cons]

theorem Layout.mem_lines_of_mem_block {text : Text} {b : Block}
    (hb : b ∈ (Layout.ofLines (Text.lines text)).blocks) {line : Text} (hline : line ∈ b.lines) :
    line ∈ Text.lines text := by
  rw [← Layout.lines_ofLines (Text.lines text)]
  exact List.mem_append_right _ (List.mem_flatMap.2 ⟨b, hb, hline⟩)

theorem Layout.not_mem_opener {text : Text} {b : Block}
    (hb : b ∈ (Layout.ofLines (Text.lines text)).blocks) : '\n' ∉ b.opener :=
  Text.not_mem_of_mem_lines (Layout.mem_lines_of_mem_block hb List.mem_cons_self)

theorem Layout.exists_block_of_define {l : Layout} {lines : List Text}
    (h : .define lines ∈ l.steps) : ∃ b ∈ l.blocks, lines = b.statementLines := by
  simpa [Layout.steps, Block.steps] using h

theorem Block.exists_read?_opener (b : Block) : ∃ d, Definition.read? b.opener = some d :=
  Option.isSome_iff_exists.1 b.opens

theorem Layout.read?_statement {text : Text} {b : Block}
    (hb : b ∈ (Layout.ofLines (Text.lines text)).blocks) {d : Definition}
    (hread : Definition.read? b.opener = some d) :
    ∃ d', Definition.read? (Text.unlines b.statementLines) = some d' ∧ d'.slot = d.slot ∧
      (d'.classExpr = d.classExpr ↔ ¬ Definition.HasFormals (d.formals ++ '\n' :: b.below)) ∧
      (d'.formals = d.formals ++ '\n' :: b.below ↔
        ¬ Definition.HasFormals (d.formals ++ '\n' :: b.below)) := by
  rw [b.unlines_statementLines]
  exact Definition.read?_append_lines (Layout.not_mem_opener hb) hread b.below

theorem methodsFrom_error {source : Path} {statement : Text} {group? : Option (List Text)}
    {e : Error} (h : methodsFrom source statement group? = .error e) :
    Definition.read? statement = none ∧ e = .notADefinition (Text.trimEnd statement) ∨
      ∃ d, Definition.read? statement = some d ∧
        (d.slot = .quoted placeholderWord ∧ e = d.reserved source ∨
          d.slot = .placeholder ∧
            (e = .noPlaceholders (Text.trimEnd statement) ∨
              ∃ names, group? = some names ∧ placeholderWord ∈ names ∧ e = d.reserved source)) := by
  unfold methodsFrom at h
  cases hread : Definition.read? statement with
  | none =>
    rw [hread] at h
    cases h
    exact .inl ⟨rfl, rfl⟩
  | some d =>
    simp only [hread] at h
    refine .inr ⟨d, rfl, ?_⟩
    cases hslot : d.slot with
    | quoted name =>
      rw [hslot] at h
      obtain ⟨hname, he⟩ := Definition.methods_error h
      exact .inl ⟨by rw [List.mem_singleton.1 hname], he⟩
    | placeholder =>
      rw [hslot] at h
      refine .inr ⟨rfl, ?_⟩
      rcases group? with _ | _ | ⟨n, names⟩
      · cases h
        exact .inl rfl
      · cases h
        exact .inl rfl
      · obtain ⟨hname, he⟩ := Definition.methods_error h
        exact .inr ⟨n :: names, rfl, hname, he⟩

theorem run_declare_error {source : Path} {line : Text} {p q : Progress Declarations} {e : Error}
    (h : ((Step.declare line).run source).run p = .error e q) :
    e = .malformedDirective (Text.trimEnd line) := by
  rcases Task.run_bind_eq_error_iff.1 h with h | ⟨_, _, -, ⟨⟩⟩
  cases haccept : p.state.accept? (Directive.ofLine line) with
  | some d =>
    obtain ⟨notices, hrun⟩ := Declarations.run_declare_of_accept haccept
    rw [hrun] at h
    cases h
  | none =>
    rw [Declarations.run_declare_of_refuse haccept] at h
    cases h
    rfl

theorem Layout.read?_define {text : Text} {lines : List Text}
    (h : .define lines ∈ (Layout.ofLines (Text.lines text)).steps) :
    ∃ opener d d', lines.head? = some opener ∧ Definition.read? opener = some d ∧
      Definition.read? (Text.unlines lines) = some d' ∧ d'.slot = d.slot ∧
      d'.slot ≠ .quoted placeholderWord := by
  obtain ⟨b, hb, rfl⟩ := Layout.exists_block_of_define h
  obtain ⟨d, hopener⟩ := b.exists_read?_opener
  obtain ⟨d', hstatement, hslot, -⟩ := Layout.read?_statement hb hopener
  exact ⟨b.opener, d, d', b.head?_statementLines, hopener, hstatement, hslot,
    Definition.slot_ne_reserved hstatement⟩

/-- Reading stops at a line that is refused, or at a placeholder definition for the group that it
is given. -/
theorem readText_error {source : Path} {text : Text} {start finish : Progress Declarations}
    {e : Error} (h : (readText source text).run start = .error e finish) :
    (∃ line, e = .malformedDirective line) ∨
      ∃ done lines todo methods p d,
        (Layout.ofLines (Text.lines text)).steps = done ++ .define lines :: todo ∧
        Completes source done start methods p ∧
        Definition.read? (Text.unlines lines) = some d ∧ d.slot = .placeholder ∧
        finish.state = { p.state with taken := p.state.taken + 1 } ∧
        (e = .noPlaceholders (Text.trimEnd (Text.unlines lines)) ∨
          ∃ names, p.state.groups[p.state.taken]? = some names ∧ placeholderWord ∈ names ∧
            e = d.reserved source) := by
  rw [readText_eq_runSteps, runSteps_eq_error_iff] at h
  obtain ⟨done, step, todo, methods, p, hsplit, hdone, hfails⟩ := h
  cases step with
  | declare line => exact .inl ⟨_, run_declare_error hfails⟩
  | define lines =>
    have hmem : .define lines ∈ (Layout.ofLines (Text.lines text)).steps := by
      rw [hsplit]
      exact List.mem_append_right _ List.mem_cons_self
    obtain ⟨-, -, d, -, -, hd, -, hname⟩ := Layout.read?_define hmem
    obtain ⟨hresult, hafter⟩ := run_methodsOf source (Text.unlines lines) p
    obtain ⟨hresult', hafter'⟩ := Task.run_eq_error_iff.1 hfails
    rcases methodsFrom_error (hresult.symm.trans hresult') with
      ⟨hnone, -⟩ | ⟨d', hd', ⟨hslot, -⟩ | ⟨hslot, hcause⟩⟩
    · rw [hd] at hnone
      cases hnone
    · rw [hd] at hd'
      cases hd'
      exact absurd hslot hname
    · have hasks : asksForGroup (Text.unlines lines) = true := by
        simp [asksForGroup, hd', hslot]
      rw [hasks, if_pos rfl] at hafter
      exact .inr ⟨done, lines, todo, methods, p, d', hsplit, hdone, hd', hslot,
        hafter' ▸ hafter, hcause⟩

/-- Every statement is a definition, with the slot that its opener has. So reading never fails for
want of one, and a name is found to be reserved only where it is listed in the group that a
placeholder definition has just been given. -/
theorem statements_are_definitions (source : Path) (text : Text) (start : Progress Declarations) :
    let layout := Layout.ofLines (Text.lines text)
    readText source text = runSteps source layout.steps ∧
      (∀ lines, .define lines ∈ layout.steps → ∃ opener d d', lines.head? = some opener ∧
        Definition.read? opener = some d ∧ Definition.read? (Text.unlines lines) = some d' ∧
        d'.slot = d.slot ∧ d'.slot ≠ .quoted placeholderWord) ∧
      (∀ statement,
        Task.result (readText source text) start ≠ .error (.notADefinition statement)) ∧
      ∀ context finish, (readText source text).run start = .error (.reservedName context) finish →
        ∃ done lines todo methods p d names, layout.steps = done ++ .define lines :: todo ∧
          Completes source done start methods p ∧
          Definition.read? (Text.unlines lines) = some d ∧ d.slot = .placeholder ∧
          p.state.groups[p.state.taken]? = some names ∧
          finish.state = { p.state with taken := p.state.taken + 1 } ∧
          placeholderWord ∈ names ∧ d.reserved source = .reservedName context := by
  intro layout
  refine ⟨readText_eq_runSteps source text, fun _ => Layout.read?_define, ?_, ?_⟩
  · intro statement h
    rcases readText_error (Task.run_eq_error_iff.2 ⟨h, rfl⟩) with
      ⟨_, hcause⟩ | ⟨_, _, _, _, _, _, -, -, -, -, -, hcause | ⟨_, -, -, hcause⟩⟩
    all_goals cases hcause
  · intro context finish h
    rcases readText_error h with ⟨_, hcause⟩ |
      ⟨done, lines, todo, methods, p, d, hsplit, hdone, hd, hslot, hstate,
        hcause | ⟨names, hgroup, hname, hcause⟩⟩
    · cases hcause
    · cases hcause
    · exact ⟨done, lines, todo, methods, p, d, names, hsplit, hdone, hd, hslot, hgroup, hstate,
        hname, hcause.symm⟩

theorem Completes.of_declares {source : Path} {lines : List Text} {steps : List Step}
    {p r : Progress Declarations} {methods : List Method}
    (h : Completes source (lines.map .declare ++ steps) p methods r) :
    ∃ q, Completes source steps q methods r := by
  rw [← runSteps_eq_ok_iff, runSteps_declare] at h
  obtain ⟨-, q, -, hsteps⟩ := Task.run_bind_eq_ok_iff.1 h
  exact ⟨q, (runSteps_eq_ok_iff source steps q r methods).1 hsteps⟩

/-- The methods of a reading, block by block. -/
theorem Completes.blocks {source : Path} {blocks : List Block} {p r : Progress Declarations}
    {methods : List Method} (h : Completes source (blocks.flatMap Block.steps) p methods r) :
    ∃ made : List (List Method), methods = made.flatten ∧
      List.Forall₂ (fun b ms => ∃ group?,
        methodsFrom source (Text.unlines b.statementLines) group? = .ok ms) blocks made := by
  induction blocks generalizing p methods with
  | nil =>
    cases h
    exact ⟨[], rfl, .nil⟩
  | cons b blocks ih =>
    rw [List.flatMap_cons, Block.steps, List.append_assoc] at h
    obtain ⟨q, hdefine⟩ := h.of_declares
    cases hdefine with
    | cons first rest =>
      obtain ⟨made, rfl, hmade⟩ := ih rest
      have hresult := (run_methodsOf source (Text.unlines b.statementLines) q).1
      have hfirst := (Task.run_eq_ok_iff.1 first).1
      exact ⟨_ :: made, rfl, .cons ⟨_, hresult.symm.trans hfirst⟩ hmade⟩

theorem exists_made_of_readText {source : Path} {text : Text} {start finish : Progress Declarations}
    {methods : List Method} (h : (readText source text).run start = .ok methods finish) :
    ∃ made : List (List Method), methods = made.flatten ∧
      List.Forall₂ (fun b ms => b ∈ (Layout.ofLines (Text.lines text)).blocks ∧
          ∃ group?, methodsFrom source (Text.unlines b.statementLines) group? = .ok ms)
        (Layout.ofLines (Text.lines text)).blocks made := by
  rw [readText_eq_runSteps, runSteps_eq_ok_iff] at h
  obtain ⟨_, hblocks⟩ := h.of_declares
  obtain ⟨made, hmethods, hmade⟩ := hblocks.blocks
  exact ⟨made, hmethods, (List.forall₂_and_left _ _).2 ⟨fun _ => id, hmade⟩⟩

/-- The class expression and the parameters of a definition are those that its opener states, with
the lines below it behind the parameters, unless a parameter list follows a comma further down. So
the methods of a statement have the class of its opener where none does. -/
theorem opener_states_class_unless_list_follows (source : Path) (text : Text)
    (start : Progress Declarations) :
    (∀ line d more, '\n' ∉ line → Definition.read? line = some d →
      ∃ d', Definition.read? (line ++ '\n' :: more) = some d' ∧ d'.slot = d.slot ∧
        (d'.classExpr = d.classExpr ↔ ¬ Definition.HasFormals (d.formals ++ '\n' :: more)) ∧
        (d'.formals = d.formals ++ '\n' :: more ↔
          ¬ Definition.HasFormals (d.formals ++ '\n' :: more))) ∧
      ∀ methods finish, (readText source text).run start = .ok methods finish →
        ∃ made : List (List Method), methods = made.flatten ∧
          List.Forall₂ (fun b ms => ∃ (d d' : Definition) (names : List Text),
            Definition.read? b.opener = some d ∧
            Definition.read? (b.opener ++ '\n' :: b.below) = some d' ∧
            ms = names.map (d'.method source) ∧
            (d'.classExpr = d.classExpr ↔ ¬ Definition.HasFormals (d.formals ++ '\n' :: b.below)) ∧
            (¬ Definition.HasFormals (d.formals ++ '\n' :: b.below) →
              ∀ m ∈ ms, m.signature = Signature.ofExpr d.classExpr))
            (Layout.ofLines (Text.lines text)).blocks made := by
  refine ⟨fun line d more hline h => Definition.read?_append_lines hline h more, ?_⟩
  intro methods finish h
  obtain ⟨made, hmethods, hmade⟩ := exists_made_of_readText h
  refine ⟨made, hmethods, hmade.imp ?_⟩
  rintro b ms ⟨hb, group?, hms⟩
  obtain ⟨d, hopener⟩ := b.exists_read?_opener
  obtain ⟨d', hread, -, hclass, -⟩ := Layout.read?_statement hb hopener
  obtain ⟨d'', names, hread', -, rfl⟩ := methodsFrom_ok hms
  obtain rfl : d' = d'' := Option.some.inj (hread.symm.trans hread')
  rw [b.unlines_statementLines] at hread
  refine ⟨d, d', names, hopener, hread, rfl, hclass, ?_⟩
  intro hlast m hm
  obtain ⟨name, -, rfl⟩ := List.mem_map.1 hm
  exact congrArg Signature.ofExpr (hclass.2 hlast)

def applyingOpener : Text := "setMethod(\"f\", \"A\", function(x)".toList

def applyingLine : Text := "  lapply(x, function(z) \x7b".toList

/-- A function that is passed on in the body is taken for the method, and all in front of it for
the class. -/
theorem class_of_statement_with_list_below :
    (Layout.ofLines [applyingOpener, applyingLine]).steps =
        [.define [applyingOpener, applyingLine]] ∧
      Definition.read? applyingOpener = some ⟨.quoted ['f'], "\"A\"".toList, "(x)".toList⟩ ∧
      Definition.read? (applyingOpener ++ '\n' :: Text.unlines [applyingLine]) =
        some ⟨.quoted ['f'], "\"A\", function(x)\n  lapply(x".toList, "(z) \x7b\n".toList⟩ ∧
      Signature.ofExpr "\"A\"".toList = "A".toList ∧
      Signature.ofExpr "\"A\", function(x)\n  lapply(x".toList = "A,function,x,lapply,x".toList := by
  decide

end Source

end RdStubs
