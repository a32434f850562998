import RdStubs.Proofs.Declarations.Regions
import RdStubs.Source

/-!
# The methods of a statement

A definition makes one method of each name that it is given: its own name, or those of the group
that it is handed. What a statement comes to is said here by its definition and the group alone; on
the declarations it has no effect but to count a request.
-/

namespace RdStubs

namespace Definition

def method (d : Definition) (source : Path) (name : Text) : Method where
  name := Text.unwrap '\x60' name
  signature := Signature.ofExpr d.classExpr
  formals := Formals.clean d.formals
  source := source

def reserved (d : Definition) (source : Path) : Error :=
  .reservedName (Text.join ", ".toList [d.classExpr, Text.trimEnd d.formals, source.text])

def methods (d : Definition) (source : Path) (names : List Text) : Except Error (List Method) :=
  if placeholderWord ∈ names then .error (d.reserved source)
  else .ok (names.map (d.method source))

theorem methods_ok {d : Definition} {source : Path} {names : List Text} {methods : List Method}
    (h : d.methods source names = .ok methods) :
    placeholderWord ∉ names ∧ methods = names.map (d.method source) := by
  unfold Definition.methods at h
  split at h
  · cases h
  · cases h
    exact ⟨‹_›, rfl⟩

theorem methods_error {d : Definition} {source : Path} {names : List Text} {e : Error}
    (h : d.methods source names = .error e) :
    placeholderWord ∈ names ∧ e = d.reserved source := by
  unfold Definition.methods at h
  split at h
  · cases h
    exact ⟨‹_›, rfl⟩
  · cases h

/-- What a placeholder definition comes to with the group it is handed, if there is one. -/
def methodsOfGroup (d : Definition) (source : Path) (statement : Text) :
    Option (List Text) → Except Error (List Method)
  | some (n :: names) => d.methods source (n :: names)
  | _ => .error (.noPlaceholders (Text.trimEnd statement))

theorem mapM_ofParts (d : Definition) (source : Path) (names : List Text) :
    names.mapM (Method.ofParts · d.classExpr d.formals source) = d.methods source names := by
  induction names with
  | nil => rfl
  | cons n names ih =>
    rw [List.mapM_cons, ih]
    by_cases hn : n = placeholderWord
    · simp [Method.ofParts, methods, hn, reserved]
      rfl
    · by_cases hnames : placeholderWord ∈ names
      · simp [Method.ofParts, methods, hn, hnames]
        rfl
      · simp [Method.ofParts, methods, method, hn, hnames, Ne.symm hn]
        rfl

end Definition

namespace Source

def asksForGroup (statement : Text) : Bool :=
  (Definition.read? statement).any (·.slot = .placeholder)

/-- What a statement comes to when `group?` is the group that is next. -/
def methodsFrom (source : Path) (statement : Text) (group? : Option (List Text)) :
    Except Error (List Method) :=
  match Definition.read? statement with
  | none => .error (.notADefinition (Text.trimEnd statement))
  | some d =>
    match d.slot with
    | .quoted name => d.methods source [name]
    | .placeholder => d.methodsOfGroup source statement group?

def noteMethods (d : Definition) (source : Path) (names : List Text) :
    Task Declarations (List Method) :=
  match d.methods source names with
  | .ok methods => do
    methods.forM fun m => Task.note .debug .source ("found ".toList ++ m.label)
    return methods
  | .error e => throw e

theorem run_noteMethods (d : Definition) (source : Path) (names : List Text)
    (p : Progress Declarations) :
    Task.result (noteMethods d source names) p = d.methods source names ∧
      (Task.after (noteMethods d source names) p).state = p.state := by
  unfold Task.result Task.after noteMethods
  cases d.methods source names with
  | ok methods =>
    obtain ⟨notices, h⟩ := Task.forM_note .debug .source
      (fun m : Method => "found ".toList ++ m.label) methods p
    simp only [EStateM.run_bind, h, EStateM.run_pure, and_self]
  | error e => exact ⟨rfl, rfl⟩

theorem methodsOf_eq {statement : Text} {d : Definition} (h : Definition.read? statement = some d)
    (source : Path) :
    methodsOf source statement = (match d.slot with
      | .quoted name => pure [name]
      | .placeholder => Declarations.takeGroup statement) >>= noteMethods d source := by
  unfold methodsOf noteMethods
  simp only [h, d.mapM_ofParts source]
  cases d.slot with
  | quoted name =>
    simp only [pure_bind]
    cases d.methods source [name] <;> rfl
  | placeholder =>
    refine bind_congr fun names => ?_
    cases d.methods source names <;> rfl

theorem run_methodsOf (source : Path) (statement : Text) (p : Progress Declarations) :
    Task.result (methodsOf source statement) p =
        methodsFrom source statement p.state.groups[p.state.taken]? ∧
      (Task.after (methodsOf source statement) p).state =
        { p.state with taken := p.state.taken + if asksForGroup statement then 1 else 0 } := by
  unfold methodsFrom asksForGroup
  cases hread : Definition.read? statement with
  | none => simp [Task.result, Task.after, methodsOf, hread]
  | some d =>
    rw [methodsOf_eq hread]
    cases hslot : d.slot with
    | quoted name => simpa [hslot] using run_noteMethods d source [name] p
    | placeholder =>
      obtain ⟨htaken, hcount⟩ := Declarations.run_takeGroup statement p
      simp only [Task.result_bind, Task.after_bind, htaken]
      rcases p.state.groups[p.state.taken]? with _ | _ | ⟨n, names⟩
      · simpa [hslot, Declarations.handOut, Definition.methodsOfGroup, Except.bind] using hcount
      · simpa [hslot, Declarations.handOut, Definition.methodsOfGroup, Except.bind] using hcount
      · obtain ⟨hmade, hkept⟩ := run_noteMethods d source (n :: names)
          (Task.after (Declarations.takeGroup statement) p)
        simpa [hslot, Declarations.handOut, Definition.methodsOfGroup, Except.bind, hmade, hkept]
          using hcount

def namesOf (statement : Text) (group? : Option (List Text)) : List Text :=
  match Definition.read? statement with
  | none => []
  | some d =>
    match d.slot with
    | .quoted name => [name]
    | .placeholder => group?.getD []

theorem methodsFrom_namesOf {source : Path} {statement : Text} {group? : Option (List Text)}
    {methods : List Method} (h : methodsFrom source statement group? = .ok methods) :
    ∃ d, Definition.read? statement = some d ∧ placeholderWord ∉ namesOf statement group? ∧
      methods = (namesOf statement group?).map (d.method source) := by
  unfold methodsFrom at h
  unfold namesOf
  cases hread : Definition.read? statement with
  | none => simp [hread] at h
  | some d =>
    simp only [hread] at h
    refine ⟨d, rfl, ?_⟩
    cases hslot : d.slot with
    | quoted name =>
      rw [hslot] at h
      simp only [hslot]
      exact Definition.methods_ok h
    | placeholder =>
      rw [hslot] at h
      simp only [hslot]
      rcases group? with _ | _ | ⟨n, names⟩
      · cases h
      · cases h
      · exact Definition.methods_ok h

/-- Every method that a statement comes to is made by its definition of a name that is not
reserved. -/
theorem methodsFrom_ok {source : Path} {statement : Text} {group? : Option (List Text)}
    {methods : List Method} (h : methodsFrom source statement group? = .ok methods) :
    ∃ (d : Definition) (names : List Text), Definition.read? statement = some d ∧
      placeholderWord ∉ names ∧
      methods = names.map (d.method source) := by
  obtain ⟨d, hread, hreserved, hmethods⟩ := methodsFrom_namesOf h
  exact ⟨d, namesOf statement group?, hread, hreserved, hmethods⟩

end Source

end RdStubs
