import RdStubs.Proofs.Reading.Files

/-!
# What a reading finds

What a reading comes to depends on the text and on the declarations that it begins with. What has
been noted before has no part in it, and neither has the name of the source: that is only recorded,
in the methods and in the error for a reserved name.
-/

namespace RdStubs.Source

/-- With the declarations `d` the task comes to this outcome and leaves `d'`, whatever has been
noted before. -/
def Yields (task : Task Declarations (List Method)) (d : Declarations)
    (outcome : Except Error (List Method)) (d' : Declarations) : Prop :=
  ∀ p, p.state = d → Task.result task p = outcome ∧ (Task.after task p).state = d'

/-- What is found in a text, whatever the source is called: definitions with the names that they
are given, or why the reading stops. -/
inductive Findings where
  | methods (made : List (Definition × Text))
  | reserved (d : Definition)
  | fails (e : Error)

namespace Findings

def inSource (source : Path) : Findings → Except Error (List Method)
  | methods made => .ok (made.map fun m => m.1.method source m.2)
  | reserved d => .error (d.reserved source)
  | fails e => .error e

def append : Findings → Findings → Findings
  | methods made, methods more => methods (made ++ more)
  | methods _, stop => stop
  | stop, _ => stop

theorem inSource_append (f g : Findings) (source : Path) :
    (f.append g).inSource source =
      (f.inSource source).bind fun made => (made ++ ·) <$> g.inSource source := by
  cases f with
  | methods made => cases g <;> simp [append, inSource, Except.bind]
  | reserved d => rfl
  | fails e => rfl

/-- The declarations behind two tasks, of which the second begins where the first has succeeded. -/
def leaves : Findings → Declarations → Declarations → Declarations
  | methods _, _, d' => d'
  | _, d, _ => d

end Findings

namespace Yields

variable {x y : Task Declarations (List Method)} {d d' d'' : Declarations}

theorem append_ok {made : List Method} {outcome : Except Error (List Method)}
    (hx : Yields x d (.ok made) d') (hy : Yields y d' outcome d'') :
    Yields (do
        let made ← x
        let more ← y
        return made ++ more) d ((made ++ ·) <$> outcome) d'' := by
  intro p hp
  obtain ⟨hmade, hleft⟩ := hx p hp
  obtain ⟨hmore, hleft'⟩ := hy (Task.after x p) hleft
  rw [Task.result_append, Task.after_bind, hmade, hmore]
  refine ⟨rfl, ?_⟩
  simp only [Task.after_bind]
  cases Task.result y (Task.after x p) <;> exact hleft'

theorem append_error {e : Error} (hx : Yields x d (.error e) d')
    (y : Task Declarations (List Method)) :
    Yields (do
        let made ← x
        let more ← y
        return made ++ more) d (.error e) d' := by
  intro p hp
  obtain ⟨hmade, hleft⟩ := hx p hp
  rw [Task.result_append, Task.after_bind, hmade]
  exact ⟨rfl, hleft⟩

theorem append_findings {source source' : Path} {f g : Findings}
    (hx : Yields x d (f.inSource source) d') (hy : Yields y d' (g.inSource source') d'') :
    Yields (do
        let made ← x
        let more ← y
        return made ++ more) d
      ((f.inSource source).bind fun made => (made ++ ·) <$> g.inSource source')
      (f.leaves d' d'') := by
  cases f with
  | methods made => exact append_ok hx hy
  | reserved d => exact append_error hx y
  | fails e => exact append_error hx y

end Yields

theorem exists_findings_of_names (d : Definition) (names : List Text) :
    ∃ f : Findings, ∀ source, d.methods source names = f.inSource source := by
  by_cases hnames : placeholderWord ∈ names
  · exact ⟨.reserved d, fun source => if_pos hnames⟩
  · refine ⟨.methods (names.map (d, ·)), fun source => ?_⟩
    rw [Definition.methods, if_neg hnames, Findings.inSource, List.map_map]
    rfl

theorem exists_findings_of_statement (statement : Text) (group? : Option (List Text)) :
    ∃ f : Findings, ∀ source, methodsFrom source statement group? = f.inSource source := by
  unfold methodsFrom
  cases hread : Definition.read? statement with
  | none => exact ⟨.fails (.notADefinition (Text.trimEnd statement)), fun _ => rfl⟩
  | some d =>
    cases hslot : d.slot with
    | quoted name => simpa only [hslot] using exists_findings_of_names d [name]
    | placeholder =>
      simp only [hslot]
      rcases group? with _ | _ | ⟨n, names⟩
      · exact ⟨.fails (.noPlaceholders (Text.trimEnd statement)), fun _ => rfl⟩
      · exact ⟨.fails (.noPlaceholders (Text.trimEnd statement)), fun _ => rfl⟩
      · exact exists_findings_of_names d (n :: names)

theorem exists_yields_step (step : Step) (d : Declarations) :
    ∃ (f : Findings) (d' : Declarations),
      ∀ source, Yields (step.run source) d (f.inSource source) d' := by
  cases step with
  | declare line =>
    cases haccept : d.accept? (Directive.ofLine line) with
    | some d' =>
      refine ⟨.methods [], d', fun source p hp => ?_⟩
      obtain ⟨notices, hrun⟩ := run_declare_step source (hp ▸ haccept)
      obtain ⟨hresult, hafter⟩ := Task.run_eq_ok_iff.1 hrun
      exact ⟨hresult, congrArg Progress.state hafter⟩
    | none =>
      refine ⟨.fails (.malformedDirective (Text.trimEnd line)), d, fun source p hp => ?_⟩
      obtain ⟨hresult, hafter⟩ :=
        Task.run_eq_error_iff.1 (Declarations.run_declare_of_refuse (hp ▸ haccept))
      rw [Step.run, Task.result_bind, Task.after_bind, hresult, hafter]
      exact ⟨rfl, hp⟩
  | define lines =>
    obtain ⟨f, hf⟩ := exists_findings_of_statement (Text.unlines lines) d.groups[d.taken]?
    have hcount (source : Path) := run_methodsOf source (Text.unlines lines)
    refine ⟨f, { d with taken := d.taken + if asksForGroup (Text.unlines lines) then 1 else 0 },
      fun source p hp => ?_⟩
    subst hp
    exact ⟨(hcount source p).1.trans (hf source), (hcount source p).2⟩

theorem exists_yields_steps (steps : List Step) (d : Declarations) :
    ∃ (f : Findings) (d' : Declarations),
      ∀ source, Yields (runSteps source steps) d (f.inSource source) d' := by
  induction steps generalizing d with
  | nil => exact ⟨.methods [], d, fun source p hp => ⟨rfl, hp⟩⟩
  | cons step steps ih =>
    obtain ⟨f, d', hstep⟩ := exists_yields_step step d
    obtain ⟨g, d'', hsteps⟩ := ih d'
    refine ⟨f.append g, f.leaves d' d'', fun source => ?_⟩
    rw [Findings.inSource_append]
    exact (hstep source).append_findings (hsteps source)

/-- The findings in a text are the same under every name of the source. -/
theorem exists_yields_text (text : Text) (d : Declarations) :
    ∃ (f : Findings) (d' : Declarations),
      ∀ source, Yields (readText source text) d (f.inSource source) d' := by
  obtain ⟨f, d', hsteps⟩ := exists_yields_steps (Layout.ofLines (Text.lines text)).steps d
  refine ⟨f, d', fun source => ?_⟩
  rw [readText_eq_runSteps]
  exact hsteps source

theorem result_readFile {tree : FileTree} {source : Path} {text : Text}
    (htext : tree.readText source = .ok text) (p : Progress Declarations) :
    Task.result (readFile tree source) p = Task.result (readText source text) p ∧
      (Task.after (readFile tree source) p).state =
        (Task.after (readText source text) p).state := by
  cases hread : (readText source text).run p with
  | ok methods q =>
    obtain ⟨notices, hfile⟩ := run_readFile htext hread
    obtain ⟨hresult, hafter⟩ := Task.run_eq_ok_iff.1 hread
    obtain ⟨hresult', hafter'⟩ := Task.run_eq_ok_iff.1 hfile
    rw [hresult, hresult', hafter, hafter']
    exact ⟨rfl, rfl⟩
  | error e q =>
    obtain ⟨hresult, hafter⟩ := Task.run_eq_error_iff.1 hread
    rw [readFile, htext, Task.ofFile, pure_bind, Task.result_bind, Task.after_bind, hresult, hafter]
    exact ⟨rfl, rfl⟩

theorem Yields.file {tree : FileTree} {source : Path} {text : Text} {d d' : Declarations}
    {outcome : Except Error (List Method)} (htext : tree.readText source = .ok text)
    (h : Yields (readText source text) d outcome d') :
    Yields (readFile tree source) d outcome d' := by
  intro p hp
  obtain ⟨hresult, hafter⟩ := result_readFile htext p
  rw [hresult, hafter]
  exact h p hp

theorem exists_yields_file (tree : FileTree) (source : Path) (d : Declarations) :
    ∃ outcome d', Yields (readFile tree source) d outcome d' := by
  cases htext : tree.readText source with
  | ok text =>
    obtain ⟨f, d', h⟩ := exists_yields_text text d
    exact ⟨f.inSource source, d', (h source).file htext⟩
  | error cause =>
    refine ⟨.error (.file source cause), d, fun p hp => ?_⟩
    rw [readFile, htext]
    exact ⟨rfl, hp⟩

theorem exists_yields_files (tree : FileTree) (sources : List Path) (d : Declarations) :
    ∃ outcome d', Yields (readFiles tree sources) d outcome d' := by
  induction sources generalizing d with
  | nil => exact ⟨.ok [], d, fun p hp => ⟨rfl, hp⟩⟩
  | cons source sources ih =>
    obtain ⟨outcome, d', hfile⟩ := exists_yields_file tree source d
    cases outcome with
    | ok made =>
      obtain ⟨outcome, d'', hfiles⟩ := ih d'
      exact ⟨_, d'', hfile.append_ok hfiles⟩
    | error e => exact ⟨_, d', hfile.append_error _⟩

end RdStubs.Source
