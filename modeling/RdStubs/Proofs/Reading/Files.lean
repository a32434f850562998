import RdStubs.Proofs.Declarations.Regions
import RdStubs.Proofs.Reading.Methods
import RdStubs.Proofs.Reading.Steps

/-!
# Reading files

Reading a file is reading its text, step by step, and reading several files reads one after
another. A method that comes out of it has been made from the pieces of a definition, so nobody has
looked for its page yet.
-/

namespace RdStubs.Source

theorem run_declare_step (source : Path) {line : Text} {p : Progress Declarations}
    {d : Declarations} (h : p.state.accept? (Directive.ofLine line) = some d) :
    ∃ notices, ((Step.declare line).run source).run p = .ok [] ⟨d, notices⟩ := by
  obtain ⟨notices, hdeclare⟩ := Declarations.run_declare_of_accept h
  exact ⟨notices, Task.run_bind_eq_ok_iff.2 ⟨(), _, hdeclare, rfl⟩⟩

theorem run_define_step_of_group {source : Path} {lines : List Text} {methods : List Method}
    {p : Progress Declarations}
    (h : methodsFrom source (Text.unlines lines) p.state.groups[p.state.taken]? = .ok methods) :
    ∃ q, ((Step.define lines).run source).run p = .ok methods q ∧
      q.state = { p.state with
        taken := p.state.taken + if asksForGroup (Text.unlines lines) then 1 else 0 } := by
  obtain ⟨hresult, hafter⟩ := run_methodsOf source (Text.unlines lines) p
  rw [h] at hresult
  exact ⟨_, Task.run_eq_ok_iff.2 ⟨hresult, rfl⟩, hafter⟩

/-- A statement that comes to the same methods with every group. -/
theorem run_define_step {source : Path} {lines : List Text} {methods : List Method}
    (h : ∀ group?, methodsFrom source (Text.unlines lines) group? = .ok methods)
    (p : Progress Declarations) :
    ∃ q, ((Step.define lines).run source).run p = .ok methods q ∧
      q.state = { p.state with
        taken := p.state.taken + if asksForGroup (Text.unlines lines) then 1 else 0 } :=
  run_define_step_of_group (h _)

/-- A definition of names that it states, and a line behind it that is accepted. -/
theorem completes_definition {source : Path} {line : Text} {lines : List Text}
    {methods : List Method} {p : Progress Declarations} {d : Declarations}
    (haccept : p.state.accept? (Directive.ofLine line) = some d)
    (hmethods : ∀ group?, methodsFrom source (Text.unlines lines) group? = .ok methods)
    (hasks : asksForGroup (Text.unlines lines) = false) :
    ∃ q, Completes source [.declare line, .define lines] p methods q ∧ q.state = d := by
  obtain ⟨notices, hdeclare⟩ := run_declare_step source haccept
  obtain ⟨q, hdefine, hq⟩ := run_define_step hmethods ⟨d, notices⟩
  rw [hasks] at hq
  have hsteps : Completes source [.declare line, .define lines] p ([] ++ (methods ++ [])) q :=
    .cons hdeclare (.cons hdefine (.nil q))
  rw [List.nil_append, List.append_nil] at hsteps
  exact ⟨q, hsteps, hq⟩

theorem run_readText_of_completes {source : Path} {text : Text} {steps : List Step}
    {methods : List Method} {p q : Progress Declarations}
    (hsteps : (Layout.ofLines (Text.lines text)).steps = steps)
    (h : Completes source steps p methods q) : (readText source text).run p = .ok methods q := by
  rwa [readText_eq_runSteps, runSteps_eq_ok_iff, hsteps]

/-- Made by the definition in some statement, of a name that is not reserved. -/
def Makes (source : Path) (m : Method) : Prop :=
  ∃ (statement : Text) (d : Definition) (name : Text), Definition.read? statement = some d ∧
    name ≠ placeholderWord ∧ m = d.method source name

theorem Makes.pending {source : Path} {m : Method} (h : Makes source m) : m.lookup = .pending := by
  obtain ⟨_, d, name, -, -, rfl⟩ := h
  rfl

theorem makes_of_run_step {source : Path} {step : Step} {p q : Progress Declarations}
    {methods : List Method} (h : (step.run source).run p = .ok methods q) :
    ∀ m ∈ methods, Makes source m := by
  cases step with
  | declare line =>
    obtain ⟨_, _, -, ⟨⟩⟩ := Task.run_bind_eq_ok_iff.1 h
    simp
  | define lines =>
    have hresult : Task.result (methodsOf source (Text.unlines lines)) p = .ok methods :=
      (Task.run_eq_ok_iff.1 h).1
    rw [(run_methodsOf source (Text.unlines lines) p).1] at hresult
    obtain ⟨d, names, hread, hreserved, rfl⟩ := methodsFrom_ok hresult
    intro m hm
    obtain ⟨name, hname, rfl⟩ := List.mem_map.1 hm
    exact ⟨_, d, name, hread, fun heq => hreserved (heq ▸ hname), rfl⟩

theorem Completes.makes {source : Path} {steps : List Step} {p q : Progress Declarations}
    {methods : List Method} (h : Completes source steps p methods q) :
    ∀ m ∈ methods, Makes source m := by
  induction h with
  | nil => simp
  | cons first _ ih =>
    intro m hm
    rcases List.mem_append.1 hm with hm | hm
    · exact makes_of_run_step first m hm
    · exact ih m hm

/-- A file that is read is text, and reading it is reading that text. -/
theorem readFile_ok {tree : FileTree} {source : Path} {p q : Progress Declarations}
    {methods : List Method} (h : (readFile tree source).run p = .ok methods q) :
    ∃ text q', tree.readText source = .ok text ∧ (readText source text).run p = .ok methods q' ∧
      q.state = q'.state := by
  unfold readFile at h
  cases hfile : tree.readText source with
  | error cause =>
    rw [hfile] at h
    cases h
  | ok text =>
    rw [hfile, Task.ofFile, pure_bind] at h
    obtain ⟨read, q', hread, hnotes⟩ := Task.run_bind_eq_ok_iff.1 h
    obtain ⟨_, _, ⟨⟩, hdone⟩ := Task.run_bind_eq_ok_iff.1 hnotes
    dsimp only at hdone
    split at hdone
    all_goals
      cases hdone
      exact ⟨text, q', rfl, hread, rfl⟩

theorem run_readFile {tree : FileTree} {source : Path} {text : Text} {p q : Progress Declarations}
    {methods : List Method} (htext : tree.readText source = .ok text)
    (h : (readText source text).run p = .ok methods q) :
    ∃ notices, (readFile tree source).run p = .ok methods ⟨q.state, notices⟩ := by
  simp only [readFile, htext, Task.ofFile, pure_bind, EStateM.run_bind, h, Task.run_state]
  split <;> exact ⟨_, rfl⟩

theorem run_readFiles_cons {tree : FileTree} {source : Path} {sources : List Path}
    {methods more : List Method} {p q r : Progress Declarations}
    (h : (readFile tree source).run p = .ok methods q)
    (hmore : (readFiles tree sources).run q = .ok more r) :
    (readFiles tree (source :: sources)).run p = .ok (methods ++ more) r :=
  Task.run_bind_eq_ok_iff.2 ⟨methods, q, h, Task.run_bind_eq_ok_iff.2 ⟨more, r, hmore, rfl⟩⟩

theorem readFiles_singleton (tree : FileTree) (source : Path) :
    readFiles tree [source] = readFile tree source := by
  simp [readFiles]

theorem readFiles_append (tree : FileTree) (sources more : List Path) :
    readFiles tree (sources ++ more) = (do
      let methods ← readFiles tree sources
      let others ← readFiles tree more
      return methods ++ others) := by
  induction sources with
  | nil => simp [readFiles]
  | cons source sources ih =>
    simp only [List.cons_append, readFiles, ih, bind_assoc, pure_bind, List.append_assoc]

theorem makes_of_readFiles {tree : FileTree} {sources : List Path} {p q : Progress Declarations}
    {methods : List Method} (h : (readFiles tree sources).run p = .ok methods q) :
    ∀ m ∈ methods, ∃ source ∈ sources, Makes source m := by
  induction sources generalizing p q methods with
  | nil =>
    cases h
    simp
  | cons source sources ih =>
    obtain ⟨first, p', hfirst, h⟩ := Task.run_bind_eq_ok_iff.1 h
    obtain ⟨more, q', hmore, ⟨⟩⟩ := Task.run_bind_eq_ok_iff.1 h
    obtain ⟨text, _, -, htext, -⟩ := readFile_ok hfirst
    rw [readText_eq_runSteps, runSteps_eq_ok_iff] at htext
    intro m hm
    rcases List.mem_append.1 hm with hm | hm
    · exact ⟨source, List.mem_cons_self, htext.makes m hm⟩
    · obtain ⟨source', hsource, hmakes⟩ := ih hmore m hm
      exact ⟨source', List.mem_cons_of_mem _ hsource, hmakes⟩

theorem pending_of_readFiles {tree : FileTree} {sources : List Path} {p q : Progress Declarations}
    {methods : List Method} (h : (readFiles tree sources).run p = .ok methods q) :
    ∀ m ∈ methods, m.lookup = .pending := by
  intro m hm
  obtain ⟨_, -, hmakes⟩ := makes_of_readFiles h m hm
  exact hmakes.pending

end RdStubs.Source
