import Mathlib.Data.List.Induction
import RdStubs.Proofs.Reading.Steps

/-!
# Histories of reading

Several texts are read one after another from the same declarations, and one that fails does not
keep the next from being read. The history of such a reading lists every step that was taken and
what the step found; results and end are those of the steps, and each step begins where the one
before it has ended.
-/

namespace RdStubs.Source

/-- The results of reading several texts in order, and where the last one leaves things. -/
def readEach : List (Path × Text) → Progress Declarations →
    List (Except Error (List Method)) × Progress Declarations
  | [], p => ([], p)
  | (source, text) :: sources, p =>
    let (results, finish) := readEach sources (Task.after (readText source text) p)
    (Task.result (readText source text) p :: results, finish)

theorem readEach_append (sources more : List (Path × Text)) (p : Progress Declarations) :
    (readEach (sources ++ more) p).1 =
        (readEach sources p).1 ++ (readEach more (readEach sources p).2).1 ∧
      (readEach (sources ++ more) p).2 = (readEach more (readEach sources p).2).2 := by
  induction sources generalizing p with
  | nil => exact ⟨rfl, rfl⟩
  | cons first sources ih =>
    obtain ⟨hresults, hfinish⟩ := ih (Task.after (readText first.1 first.2) p)
    exact ⟨congrArg (Task.result (readText first.1 first.2) p :: ·) hresults, hfinish⟩

structure Event where
  source : Path
  step : Step
  before : Progress Declarations

namespace Event

def result (event : Event) : Except Error (List Method) :=
  Task.result (event.step.run event.source) event.before

def after (event : Event) : Progress Declarations :=
  Task.after (event.step.run event.source) event.before

end Event

/-- The events of steps that are taken until one fails. -/
def events (source : Path) : List Step → Progress Declarations → List Event
  | [], _ => []
  | step :: steps, p =>
    let event : Event := ⟨source, step, p⟩
    event ::
      match event.result with
      | .ok _ => events source steps event.after
      | .error _ => []

def histories : List (Path × Text) → Progress Declarations → List (List Event)
  | [], _ => []
  | (source, text) :: sources, p =>
    events source (Layout.ofLines (Text.lines text)).steps p
      :: histories sources (Task.after (readText source text) p)

def outcome (history : List Event) : Except Error (List Method) :=
  List.flatten <$> history.mapM Event.result

def finish (start : Progress Declarations) (history : List Event) : Progress Declarations :=
  (history.getLast?.map Event.after).getD start

@[simp] theorem finish_append_singleton (start : Progress Declarations) (history : List Event)
    (event : Event) : finish start (history ++ [event]) = event.after := by
  simp [finish]

theorem finish_cons (start : Progress Declarations) (event : Event) (history : List Event) :
    finish start (event :: history) = finish event.after history := by
  cases history with
  | nil => rfl
  | cons next history => simp [finish, List.getLast?_cons]

theorem finish_append (start : Progress Declarations) (history more : List Event) :
    finish start (history ++ more) = finish (finish start history) more := by
  induction history generalizing start with
  | nil => rfl
  | cons event history ih => rw [List.cons_append, finish_cons, finish_cons, ih]

theorem flatten_mapM_cons {α β ε : Type} (f : α → Except ε (List β)) (a : α) (as : List α) :
    List.flatten <$> (a :: as).mapM f =
      (f a).bind fun bs => (bs ++ ·) <$> (List.flatten <$> as.mapM f) := by
  rw [List.mapM_cons]
  cases f a with
  | error e => rfl
  | ok bs => cases as.mapM f <;> rfl

theorem flatten_mapM_singleton {α β ε : Type} (f : α → Except ε (List β)) (a : α) :
    List.flatten <$> [a].mapM f = f a := by
  rw [flatten_mapM_cons]
  cases f a with
  | error e => rfl
  | ok bs => exact congrArg Except.ok (List.append_nil bs)

theorem outcome_cons (event : Event) (history : List Event) :
    outcome (event :: history) =
      event.result.bind fun methods => (methods ++ ·) <$> outcome history :=
  flatten_mapM_cons Event.result event history

theorem outcome_cons_ok {event : Event} {history : List Event} {made : List Method}
    (h : outcome (event :: history) = .ok made) :
    ∃ first more, event.result = .ok first ∧ outcome history = .ok more ∧ made = first ++ more := by
  rw [outcome_cons] at h
  cases hfirst : event.result with
  | error e =>
    rw [hfirst] at h
    cases h
  | ok first =>
    cases hmore : outcome history with
    | error e =>
      rw [hfirst, hmore] at h
      cases h
    | ok more =>
      rw [hfirst, hmore] at h
      cases h
      exact ⟨first, more, rfl, rfl, rfl⟩

theorem events_cons_of_ok {source : Path} {step : Step} {p : Progress Declarations}
    {methods : List Method} (h : Event.result ⟨source, step, p⟩ = .ok methods)
    (steps : List Step) :
    events source (step :: steps) p =
      ⟨source, step, p⟩ :: events source steps (Event.after ⟨source, step, p⟩) := by
  simp only [events, h]

theorem runSteps_eq_events (source : Path) (steps : List Step) (p : Progress Declarations) :
    Task.result (runSteps source steps) p = outcome (events source steps p) ∧
      Task.after (runSteps source steps) p = finish p (events source steps p) := by
  induction steps generalizing p with
  | nil => exact ⟨rfl, rfl⟩
  | cons step steps ih =>
    rw [runSteps, Task.result_bind, Task.after_bind, events, outcome_cons, finish_cons]
    cases hstep : Task.result (step.run source) p with
    | error e => simp [Event.result, Event.after, hstep, Except.bind, finish]
    | ok methods =>
      obtain ⟨hresult, hafter⟩ := ih (Task.after (step.run source) p)
      simp only [Event.result, Event.after, hstep, Task.result_bind, Task.after_bind, Except.bind]
      cases hrest : Task.result (runSteps source steps) (Task.after (step.run source) p) with
      | error e => exact ⟨by simp [← hresult, hrest], hafter⟩
      | ok more => exact ⟨by simp [← hresult, hrest], hafter⟩

theorem readText_eq_events (source : Path) (text : Text) (p : Progress Declarations) :
    let history := events source (Layout.ofLines (Text.lines text)).steps p
    Task.result (readText source text) p = outcome history ∧
      Task.after (readText source text) p = finish p history := by
  rw [readText_eq_runSteps]
  exact runSteps_eq_events source _ p

theorem readEach_eq_histories (sources : List (Path × Text)) (p : Progress Declarations) :
    (readEach sources p).1 = (histories sources p).map outcome ∧
      (readEach sources p).2 = finish p (histories sources p).flatten := by
  induction sources generalizing p with
  | nil => exact ⟨rfl, rfl⟩
  | cons first sources ih =>
    obtain ⟨source, text⟩ := first
    obtain ⟨hresult, hafter⟩ := readText_eq_events source text p
    obtain ⟨hresults, hfinish⟩ := ih (Task.after (readText source text) p)
    constructor
    · simp only [readEach, histories, List.map_cons, hresults, hresult]
    · simp only [readEach, histories, List.flatten_cons, finish_append, hfinish, ← hafter]

/-- Where no step fails, all steps are taken. -/
theorem events_of_outcome_ok {source : Path} {steps : List Step} {p : Progress Declarations}
    {methods : List Method} (h : outcome (events source steps p) = .ok methods) :
    (events source steps p).map Event.step = steps ∧
      ∀ event ∈ events source steps p, ∃ made, event.result = .ok made := by
  induction steps generalizing p methods with
  | nil => exact ⟨rfl, fun _ hevent => absurd hevent List.not_mem_nil⟩
  | cons step steps ih =>
    obtain ⟨first, -, hfirst, -, -⟩ := outcome_cons_ok h
    rw [events_cons_of_ok hfirst] at h ⊢
    obtain ⟨-, more, -, hmore, -⟩ := outcome_cons_ok h
    obtain ⟨hsteps, hok⟩ := ih hmore
    exact ⟨congrArg (step :: ·) hsteps, List.forall_mem_cons.2 ⟨⟨first, hfirst⟩, hok⟩⟩

theorem histories_of_ok {sources : List (Path × Text)} {p : Progress Declarations}
    {made : List (List Method)} (h : (readEach sources p).1 = made.map .ok) :
    (histories sources p).flatten.map Event.step =
        sources.flatMap (fun s => (Layout.ofLines (Text.lines s.2)).steps) ∧
      ∀ event ∈ (histories sources p).flatten, ∃ methods, event.result = .ok methods := by
  rw [(readEach_eq_histories sources p).1] at h
  induction sources generalizing p made with
  | nil => exact ⟨rfl, fun _ hevent => absurd hevent List.not_mem_nil⟩
  | cons first sources ih =>
    obtain ⟨source, text⟩ := first
    cases made with
    | nil => cases h
    | cons methods made =>
      obtain ⟨hfirst, hrest⟩ := List.cons.inj h
      obtain ⟨hsteps, hok⟩ := events_of_outcome_ok hfirst
      obtain ⟨hlater, hoks⟩ := ih hrest
      rw [histories, List.flatten_cons, List.map_append, hsteps, hlater]
      exact ⟨rfl, List.forall_mem_append.2 ⟨hok, hoks⟩⟩

def Chained : Progress Declarations → List Event → Prop
  | _, [] => True
  | p, event :: history => event.before = p ∧ Chained event.after history

theorem chained_append {p : Progress Declarations} {history more : List Event} :
    Chained p (history ++ more) ↔ Chained p history ∧ Chained (finish p history) more := by
  induction history generalizing p with
  | nil => simp [Chained, finish]
  | cons event history ih =>
    simp only [List.cons_append, Chained, ih, finish_cons, and_assoc]

theorem chained_events (source : Path) (steps : List Step) (p : Progress Declarations) :
    Chained p (events source steps p) := by
  induction steps generalizing p with
  | nil => trivial
  | cons step steps ih =>
    refine ⟨rfl, ?_⟩
    cases Event.result ⟨source, step, p⟩ with
    | ok methods => exact ih _
    | error e => trivial

theorem chained_histories (sources : List (Path × Text)) (p : Progress Declarations) :
    Chained p (histories sources p).flatten := by
  induction sources generalizing p with
  | nil => trivial
  | cons first sources ih =>
    obtain ⟨source, text⟩ := first
    rw [histories, List.flatten_cons, chained_append]
    refine ⟨chained_events source _ p, ?_⟩
    rw [← (readText_eq_events source text p).2]
    exact ih _

/-- What holds before the first event and is handed on by every event holds after all of them. -/
theorem Chained.invariant {Holds : List Event → Progress Declarations → Prop}
    {start : Progress Declarations} (first : Holds [] start)
    (next : ∀ history event, Holds history event.before → Holds (history ++ [event]) event.after)
    {history : List Event} (h : Chained start history) : Holds history (finish start history) := by
  induction history using List.reverseRecOn with
  | nil => exact first
  | append_singleton history event ih =>
    obtain ⟨hhistory, hevent, -⟩ := chained_append.1 h
    rw [finish_append_singleton]
    exact next history event (hevent ▸ ih hhistory)

end RdStubs.Source
