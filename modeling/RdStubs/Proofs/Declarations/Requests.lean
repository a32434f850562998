import RdStubs.Proofs.Declarations.RegionLines
import RdStubs.Proofs.Reading.History
import RdStubs.Proofs.Reading.Methods

/-!
# Placeholder definitions and their groups

Over a whole reading the n-th definition that asks for a group is handed the n-th region that was
opened, with the names that are listed in it at that moment. Directives and definitions take turns
in any order, so the count of requests and the groups are tied to the history of the reading.
-/

namespace RdStubs.Source

open Directive

namespace Event

def asks (event : Event) : Bool :=
  match event.step with
  | .declare _ => false
  | .define lines => asksForGroup (Text.unlines lines)

/-- The directive that was taken in, if the step declares a line that is not refused. -/
def accepted? (event : Event) : Option Directive :=
  match event.step, event.result with
  | .declare line, .ok _ => some (Directive.ofLine line)
  | _, _ => none

def acceptedLine? (event : Event) : Option Text :=
  match event.step, event.result with
  | .declare line, .ok _ => some line
  | _, _ => none

theorem accepted?_eq (event : Event) : event.accepted? = event.acceptedLine?.map ofLine := by
  unfold accepted? acceptedLine?
  cases event.step with
  | declare line => cases event.result <;> rfl
  | define lines => rfl

end Event

def accepted (history : List Event) : List Directive := history.filterMap Event.accepted?

theorem accepted_append (history more : List Event) :
    accepted (history ++ more) = accepted history ++ accepted more := List.filterMap_append

def acceptedLines (history : List Event) : List Text := history.filterMap Event.acceptedLine?

theorem accepted_eq_map (history : List Event) :
    accepted history = (acceptedLines history).map ofLine := by
  rw [accepted, acceptedLines, List.map_filterMap]
  exact List.filterMap_congr fun event _ => event.accepted?_eq

namespace Event

theorem declare_cases {event : Event} {line : Text} (h : event.step = .declare line) :
    (∃ d, event.before.state.Accepts (Directive.ofLine line) d ∧ event.result = .ok [] ∧
      event.after.state = d) ∨
    (event.result = .error (.malformedDirective (Text.trimEnd line)) ∧
      event.after = event.before) := by
  unfold result after
  rw [h, Step.run, Task.result_bind, Task.after_bind]
  rcases Declarations.declare_cases line event.before with
    ⟨d, haccepts, hresult, hafter⟩ | ⟨-, hresult, hafter⟩
  · rw [hresult]
    exact .inl ⟨d, haccepts, rfl, hafter⟩
  · rw [hresult]
    exact .inr ⟨rfl, hafter⟩

theorem result_define {event : Event} {lines : List Text} (h : event.step = .define lines) :
    event.result = methodsFrom event.source (Text.unlines lines)
      event.before.state.groups[event.before.state.taken]? := by
  unfold result
  rw [h]
  exact (run_methodsOf event.source (Text.unlines lines) event.before).1

theorem asks_iff {event : Event} : event.asks = true ↔ ∃ lines d, event.step = .define lines ∧
    Definition.read? (Text.unlines lines) = some d ∧ d.slot = .placeholder := by
  unfold asks asksForGroup
  cases event.step with
  | declare line => simp
  | define lines => simp [Option.any_eq_true]

theorem result_placeholder {event : Event} {lines : List Text} {d : Definition}
    (hstep : event.step = .define lines)
    (hread : Definition.read? (Text.unlines lines) = some d) (hslot : d.slot = .placeholder) :
    event.result = d.methodsOfGroup event.source (Text.unlines lines)
      event.before.state.groups[event.before.state.taken]? := by
  rw [result_define hstep]
  simp only [methodsFrom, hread, hslot]

theorem after_define {event : Event} {lines : List Text} (h : event.step = .define lines) :
    event.after.state = { event.before.state with
      taken := event.before.state.taken + if event.asks then 1 else 0 } := by
  unfold after asks
  rw [h]
  exact (run_methodsOf event.source (Text.unlines lines) event.before).2

/-- A request is counted, met or not; nothing else moves the count. -/
theorem taken_after (event : Event) :
    event.after.state.taken = event.before.state.taken + if event.asks then 1 else 0 := by
  cases hstep : event.step with
  | declare line =>
    have hasks : event.asks = false := by simp [asks, hstep]
    rcases declare_cases hstep with ⟨d, haccepts, -, hafter⟩ | ⟨-, hafter⟩
    · simp [hafter, haccepts.taken_eq, hasks]
    · simp [hafter, hasks]
  | define lines => rw [after_define hstep]

theorem groupsThrough_after (event : Event) (more : List Directive) :
    event.after.state.groupsThrough more =
      event.before.state.groupsThrough (accepted [event] ++ more) := by
  cases hstep : event.step with
  | declare line =>
    rcases declare_cases hstep with ⟨d, haccepts, hresult, hafter⟩ | ⟨hresult, hafter⟩
    · have haccepted : accepted [event] = [Directive.ofLine line] := by
        simp [accepted, accepted?, hstep, hresult]
      rw [hafter, haccepted]
      exact haccepts.groupsThrough_eq more
    · have haccepted : accepted [event] = [] := by simp [accepted, accepted?, hstep, hresult]
      rw [hafter, haccepted, List.nil_append]
  | define lines =>
    have haccepted : accepted [event] = [] := by simp [accepted, accepted?, hstep]
    rw [after_define hstep, haccepted, List.nil_append]
    exact Declarations.groupsThrough_taken _ _ more

end Event

structure Accounted (history : List Event) (p : Progress Declarations) : Prop where
  taken : p.state.taken = history.countP Event.asks
  groupsThrough : ∀ more, p.state.groupsThrough more = regions (accepted history ++ more)

namespace Accounted

theorem nil : Accounted [] { state := {} } := ⟨rfl, fun _ => rfl⟩

theorem snoc {history : List Event} {event : Event} (h : Accounted history event.before) :
    Accounted (history ++ [event]) event.after where
  taken := by
    rw [event.taken_after, h.taken, List.countP_append, List.countP_singleton]
  groupsThrough more := by
    rw [event.groupsThrough_after, h.groupsThrough, accepted_append, List.append_assoc]

theorem groups {history : List Event} {p : Progress Declarations} (h : Accounted history p) :
    p.state.groups = regions (accepted history) := by
  rw [← p.state.groupsThrough_nil, h.groupsThrough, List.append_nil]

theorem of_split {sources : List (Path × Text)} {earlier later : List Event} {event : Event}
    (h : (histories sources { state := {} }).flatten = earlier ++ event :: later) :
    Accounted earlier event.before := by
  have hchained := chained_histories sources { state := {} }
  rw [h] at hchained
  obtain ⟨hearlier, hbefore, -⟩ := chained_append.1 hchained
  rw [hbefore]
  exact hearlier.invariant nil fun _ _ => snoc

end Accounted

/-- In a reading of several texts the count of requests is that of the placeholder definitions so
far, and each of these definitions comes to what it makes of the region whose place in the order
of regions is that count. -/
theorem placeholder_definitions_take_regions_in_order (sources : List (Path × Text)) :
    let start : Progress Declarations := { state := {} }
    let history := (histories sources start).flatten
    (readEach sources start).1 = (histories sources start).map outcome ∧
      (readEach sources start).2.state.taken = history.countP Event.asks ∧
      ∀ earlier event later, history = earlier ++ event :: later →
        event.before = finish start earlier ∧
        event.before.state.taken = earlier.countP Event.asks ∧
        event.before.state.groups = regions (accepted earlier) ∧
        (∀ i group, (regions (accepted earlier))[i]? = some group ↔
          ∃ behind, BeginsRegion (acceptedLines earlier) i behind ∧ group = namesOn behind) ∧
        event.after.state.taken = event.before.state.taken + (if event.asks then 1 else 0) ∧
        ∀ lines d, event.step = .define lines → Definition.read? (Text.unlines lines) = some d →
          d.slot = .placeholder →
          event.result = d.methodsOfGroup event.source (Text.unlines lines)
            (regions (accepted earlier))[earlier.countP Event.asks]? := by
  intro start history
  have hchained : Chained start history := chained_histories sources start
  have haccounted {past : List Event} (h : Chained start past) :
      Accounted past (finish start past) :=
    h.invariant Accounted.nil fun _ _ => Accounted.snoc
  obtain ⟨hresults, hfinish⟩ := readEach_eq_histories sources start
  refine ⟨hresults, hfinish ▸ (haccounted hchained).taken, ?_⟩
  intro earlier event later hsplit
  obtain ⟨hearlier, hbefore, -⟩ := chained_append.1 (hsplit ▸ hchained)
  have hpast : Accounted earlier event.before := hbefore ▸ haccounted hearlier
  refine ⟨hbefore, hpast.taken, hpast.groups, ?_, event.taken_after, ?_⟩
  · intro i group
    rw [accepted_eq_map]
    exact getElem?_regions_map_ofLine_iff
  · intro lines d hstep hread hslot
    rw [Event.result_define hstep, hpast.groups, hpast.taken]
    simp only [methodsFrom, hread, hslot]

end RdStubs.Source
