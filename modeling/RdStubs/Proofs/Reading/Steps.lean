import Mathlib.Data.List.Perm.Basic
import RdStubs.Proofs.Reading.Layout
import RdStubs.Proofs.Task

/-!
# Reading a source block by block

The layout of a source says which steps its reading takes: the preamble is declared line by line;
then, for each block, the lines behind its statement are declared and only after them the statement
becomes methods. Reading line by line carries a pending statement instead, and is the same task.
-/

namespace RdStubs.Source

inductive Step where
  | declare (line : Text)
  | define (lines : List Text)
deriving DecidableEq, Repr

namespace Step

def lines : Step → List Text
  | declare line => [line]
  | define lines => lines

def opener? : Step → Option Text
  | declare _ => none
  | define lines => lines.head?

def run (source : Path) : Step → Task Declarations (List Method)
  | declare line => do
    Declarations.declare line
    return []
  | define lines => methodsOf source (Text.unlines lines)

end Step

def Block.steps (b : Block) : List Step := b.linesBehind.map .declare ++ [.define b.statementLines]

def Layout.steps (l : Layout) : List Step := l.preamble.map .declare ++ l.blocks.flatMap Block.steps

def runSteps (source : Path) : List Step → Task Declarations (List Method)
  | [] => return []
  | step :: steps => do
    let methods ← step.run source
    let more ← runSteps source steps
    return methods ++ more

section

variable (source : Path)

theorem runSteps_declare (lines : List Text) (steps : List Step) :
    runSteps source (lines.map .declare ++ steps) = (do
      lines.forM Declarations.declare
      runSteps source steps) := by
  induction lines with
  | nil => simp
  | cons line lines ih => simp [runSteps, Step.run, ih]

theorem runSteps_append (steps more : List Step) :
    runSteps source (steps ++ more) = (do
      let methods ← runSteps source steps
      let others ← runSteps source more
      return methods ++ others) := by
  induction steps with
  | nil => simp [runSteps]
  | cons step steps ih =>
    simp only [List.cons_append, runSteps, ih, bind_assoc, pure_bind, List.append_assoc]

def Block.pending (b : Block) : Pending :=
  if b.lines.any endsInBrace then .complete (Text.unlines b.statementLines)
  else .growing (Text.unlines b.statementLines)

theorem flush_pending (b : Block) :
    flush source b.pending = methodsOf source (Text.unlines b.statementLines) := by
  unfold Block.pending
  split <;> rfl

theorem readLines_settled {pending : Pending} (hp : ∀ statement, pending ≠ .growing statement)
    {before : List Text} (h : ∀ line ∈ before, Definition.opensOn line = false)
    (lines : List Text) :
    readLines source pending (before ++ lines) = (do
      before.forM Declarations.declare
      readLines source pending lines) := by
  induction before with
  | nil => simp
  | cons line before ih =>
    obtain ⟨hline, hbefore⟩ := List.forall_mem_cons.1 h
    cases pending with
    | none => simp [readLines, hline, ih hbefore]
    | growing statement => exact absurd rfl (hp statement)
    | complete statement => simp [readLines, hline, ih hbefore]

/-- A statement takes its lines up to the first brace; the others are declared. -/
theorem readLines_extend {before : List Text}
    (h : ∀ line ∈ before, Definition.opensOn line = false) (statement line : Text)
    (lines : List Text) :
    readLines source (.extend statement line) (before ++ lines) = (do
      (behindBrace (line :: before)).forM Declarations.declare
      let taken := statement ++ Text.unlines (throughBrace (line :: before))
      readLines source
        (if (line :: before).any endsInBrace then .complete taken else .growing taken) lines) := by
  induction before generalizing statement line with
  | nil =>
    cases hline : endsInBrace line <;>
      simp [Pending.extend, behindBrace_cons, throughBrace_cons, hline]
  | cons next before ih =>
    obtain ⟨hnext, hbefore⟩ := List.forall_mem_cons.1 h
    cases hline : endsInBrace line with
    | true =>
      have hcomplete (taken : Text) :
          Pending.complete (statement ++ line ++ ['\n']) ≠ .growing taken := by
        simp
      have hsettled := readLines_settled source hcomplete h lines
      simpa [Pending.extend, behindBrace_cons, throughBrace_cons, hline] using hsettled
    | false =>
      have hread := ih hbefore (statement ++ line ++ ['\n']) next
      simpa [Pending.extend, readLines, hnext, behindBrace_cons line, throughBrace_cons line, hline]
        using hread

theorem readLines_block (pending : Pending) (b : Block) (lines : List Text) :
    readLines source pending (b.lines ++ lines) = do
      let done ← flush source pending
      b.linesBehind.forM Declarations.declare
      let more ← readLines source b.pending lines
      return done ++ more := by
  have hread := readLines_extend source b.plain [] b.opener lines
  simp only [Block.lines, List.cons_append, readLines, b.opens, if_true, hread]
  simp [Block.linesBehind, Block.pending, Block.statementLines, Block.lines]

theorem readLines_blocks (pending : Pending) (blocks : List Block) :
    readLines source pending (blocks.flatMap Block.lines) = do
      let done ← flush source pending
      let more ← runSteps source (blocks.flatMap Block.steps)
      return done ++ more := by
  induction blocks generalizing pending with
  | nil => simp [readLines, runSteps]
  | cons b blocks ih =>
    rw [List.flatMap_cons, readLines_block, List.flatMap_cons, Block.steps, List.append_assoc,
      runSteps_declare, ih, flush_pending]
    simp [runSteps, Step.run]

theorem readText_eq_runSteps (text : Text) :
    readText source text = runSteps source (Layout.ofLines (Text.lines text)).steps := by
  have hlines := Layout.lines_ofLines (Text.lines text)
  generalize Layout.ofLines (Text.lines text) = layout at hlines
  rw [readText, ← hlines, Layout.lines, Layout.steps,
    readLines_settled source (by simp) layout.plain, readLines_blocks, runSteps_declare]
  simp [flush]

/-- All steps succeed, one after another; `methods` is what they yield, in order. -/
inductive Completes : List Step → Progress Declarations → List Method → Progress Declarations → Prop
  | nil (p : Progress Declarations) : Completes [] p [] p
  | cons {step : Step} {steps : List Step} {p q r : Progress Declarations}
      {methods more : List Method} (first : (step.run source).run p = .ok methods q)
      (rest : Completes steps q more r) : Completes (step :: steps) p (methods ++ more) r

/-- Some step fails with `e` after all those before it have succeeded; it leaves `finish`. -/
def Stops (steps : List Step) (start : Progress Declarations) (e : Error)
    (finish : Progress Declarations) : Prop :=
  ∃ done step todo methods q, steps = done ++ step :: todo ∧ Completes source done start methods q ∧
    (step.run source).run q = .error e finish

theorem runSteps_eq_ok_iff (steps : List Step) (p r : Progress Declarations)
    (methods : List Method) :
    (runSteps source steps).run p = .ok methods r ↔ Completes source steps p methods r := by
  induction steps generalizing p r methods with
  | nil =>
    constructor
    · rintro ⟨⟩
      exact .nil _
    · rintro ⟨⟩
      rfl
  | cons step steps ih =>
    simp only [runSteps, Task.run_bind_eq_ok_iff, ih]
    constructor
    · rintro ⟨first, q, hstep, more, _, hrest, ⟨⟩⟩
      exact .cons hstep hrest
    · rintro (_ | ⟨hstep, hrest⟩)
      exact ⟨_, _, hstep, _, _, hrest, rfl⟩

theorem runSteps_eq_error_iff (steps : List Step) (p r : Progress Declarations) (e : Error) :
    (runSteps source steps).run p = .error e r ↔ Stops source steps p e r := by
  induction steps generalizing p r with
  | nil =>
    constructor
    · rintro ⟨⟩
    · rintro ⟨done, step, todo, _, _, hsteps, _⟩
      simp at hsteps
  | cons step steps ih =>
    simp only [runSteps, Task.run_bind_eq_error_iff, ih]
    constructor
    · rintro (hstep |
        ⟨first, q, hstep, ⟨done, last, todo, more, q', rfl, hdone, hlast⟩ | ⟨_, _, _, ⟨⟩⟩⟩)
      · exact ⟨[], step, steps, [], p, rfl, .nil p, hstep⟩
      · exact ⟨step :: done, last, todo, _, q', rfl, .cons hstep hdone, hlast⟩
    · rintro ⟨done, last, todo, _, q', hsteps, hdone, hlast⟩
      cases hdone with
      | nil =>
        obtain ⟨rfl, rfl⟩ := List.cons.inj hsteps
        exact .inl hlast
      | cons hstep hrest =>
        obtain ⟨rfl, rfl⟩ := List.cons.inj hsteps
        exact .inr ⟨_, _, hstep, .inl ⟨_, last, todo, _, q', rfl, hrest, hlast⟩⟩

end

theorem Completes.append {source : Path} {steps more : List Step} {p q r : Progress Declarations}
    {methods others : List Method} (h : Completes source steps p methods q)
    (hmore : Completes source more q others r) :
    Completes source (steps ++ more) p (methods ++ others) r := by
  induction h with
  | nil p => exact hmore
  | cons first _ ih =>
    rw [List.append_assoc]
    exact .cons first (ih hmore)

theorem Block.steps_lines_perm (b : Block) : (b.steps.flatMap Step.lines).Perm b.lines := by
  have hbehind : (b.linesBehind.map Step.declare).flatMap Step.lines = b.linesBehind := by
    simp [List.flatMap_map, Step.lines]
  rw [Block.steps, List.flatMap_append, hbehind]
  calc
    _ = b.linesBehind ++ b.statementLines := by simp [Step.lines]
    List.Perm _ (b.statementLines ++ b.linesBehind) := List.perm_append_comm
    _ = b.lines := throughBrace_append_behindBrace b.lines

/-- Every line of a layout is used by one step, once. -/
theorem Layout.steps_lines_perm (l : Layout) : (l.steps.flatMap Step.lines).Perm l.lines := by
  have hpreamble : (l.preamble.map Step.declare).flatMap Step.lines = l.preamble := by
    simp [List.flatMap_map, Step.lines]
  rw [Layout.steps, List.flatMap_append, hpreamble, List.flatMap_assoc]
  exact (List.Perm.flatMap_left _ fun b _ => b.steps_lines_perm).append_left _

theorem Block.steps_openers (b : Block) : b.steps.filterMap Step.opener? = [b.opener] := by
  simp [Block.steps, Step.opener?, List.filterMap_append, Block.head?_statementLines]

theorem Layout.steps_openers (l : Layout) :
    l.steps.filterMap Step.opener? = l.lines.filter Definition.opensOn := by
  have hpreamble : l.preamble.filter Definition.opensOn = [] := by
    simpa using l.plain
  simp only [Layout.steps, Layout.lines, List.filterMap_append, List.filter_append, hpreamble,
    List.filterMap_flatMap, List.filter_flatMap, Block.steps_openers, Block.filter_opensOn_lines]
  simp [Step.opener?]

/-- Reading a text takes the steps of its one layout, in order. It yields the methods of all of
them, or stops at the first that fails with what that step left; each line is used by one step, and
each line on which a definition opens has a step that defines it. -/
theorem readText_takes_steps_of_layout (source : Path) (text : Text)
    (start finish : Progress Declarations) :
    let layout := Layout.ofLines (Text.lines text)
    (∀ l : Layout, l.lines = Text.lines text ↔ l = layout) ∧
      (∀ methods, (readText source text).run start = .ok methods finish ↔
        Completes source layout.steps start methods finish) ∧
      (∀ e, (readText source text).run start = .error e finish ↔
        Stops source layout.steps start e finish) ∧
      (layout.steps.flatMap Step.lines).Perm (Text.lines text) ∧
      layout.steps.filterMap Step.opener? = (Text.lines text).filter Definition.opensOn := by
  intro layout
  have hlines : layout.lines = Text.lines text := Layout.lines_ofLines _
  refine ⟨fun l => l.lines_eq_iff _, fun methods => ?_, fun e => ?_, ?_, ?_⟩
  · rw [readText_eq_runSteps, runSteps_eq_ok_iff]
  · rw [readText_eq_runSteps, runSteps_eq_error_iff]
  · exact hlines ▸ layout.steps_lines_perm
  · exact hlines ▸ layout.steps_openers

/-- The line behind the statement is declared before the statement becomes a method. -/
example :
    let opener := "setMethod(func_, \"A\", function(x)".toList
    (Layout.ofLines [opener, "\x7b".toList, "#+".toList]).steps =
      [.declare "#+".toList, .define [opener, "\x7b".toList]] := by
  decide

end RdStubs.Source
