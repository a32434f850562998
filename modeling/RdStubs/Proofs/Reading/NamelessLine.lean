import RdStubs.Proofs.Definition.Choice
import RdStubs.Proofs.Directive
import RdStubs.Proofs.Reading.Files
import RdStubs.Proofs.Reading.ReservedName

/-!
# Lines that hold no name

A name in quotes is never empty, neither where a definition states it nor where a region lists it,
and no name becomes empty when its backticks go. A line of a region that is blank, or holds only a
comma, lists the empty name all the same. So a reading makes a method without a name exactly where
a definition is handed a region with such a line, and a region is taken for empty only if it lists
no line at all.
-/

namespace RdStubs

open Text

namespace Source

open Directive

namespace Event

theorem nil_mem_names_iff (event : Event) :
    [] ∈ event.names ↔ event.asks = true ∧
      ∃ names, event.before.state.groups[event.before.state.taken]? = some names ∧
        [] ∈ names := by
  unfold names asks asksForGroup namesOf
  cases event.step with
  | declare line => simp
  | define lines =>
    cases hread : Definition.read? (unlines lines) with
    | none => simp [hread]
    | some d =>
      cases hslot : d.slot with
      | quoted name =>
        have hname := (Definition.quoted_ne_nil hread hslot).symm
        simpa [hread, hslot] using hname
      | placeholder =>
        cases event.before.state.groups[event.before.state.taken]? <;> simp [hread, hslot]

theorem noPlaceholders_iff {event : Event} (h : event.asks = true) :
    (∃ statement, event.result = .error (.noPlaceholders statement)) ↔
      ∀ names, event.before.state.groups[event.before.state.taken]? = some names → names = [] := by
  obtain ⟨lines, d, hstep, hread, hslot⟩ := asks_iff.1 h
  rw [result_placeholder hstep hread hslot]
  rcases event.before.state.groups[event.before.state.taken]? with _ | _ | ⟨n, names⟩
  · exact iff_of_true ⟨_, rfl⟩ (by simp)
  · exact iff_of_true ⟨_, rfl⟩ (by simp)
  · refine iff_of_false ?_ (by simp)
    rintro ⟨statement, hresult⟩
    cases (Definition.methods_error hresult).2

end Event

/-- The lines in the region that the next request is for. -/
def nextLines (history : List Event) : Option (List Text) :=
  (regionLines (acceptedLines history))[history.countP Event.asks]?

theorem Accounted.group_eq {history : List Event} {p : Progress Declarations}
    (h : Accounted history p) :
    p.state.groups[p.state.taken]? = (nextLines history).map (·.map listedName) := by
  rw [h.groups, h.taken, accepted_eq_map, regions_map_ofLine, List.getElem?_map, nextLines]

theorem exists_nameless_iff {history : List Event} {made : List Method}
    (h : outcome history = .ok made) :
    (∃ m ∈ made, m.name = []) ↔ ∃ event ∈ history, event.asks = true ∧
      ∃ names, event.before.state.groups[event.before.state.taken]? = some names ∧
        [] ∈ names := by
  rw [← List.mem_map, map_name_of_outcome h, List.mem_map]
  simp only [unwrap_eq_nil_iff, exists_eq_right, List.mem_flatMap, Event.nil_mem_names_iff]

/-- A line declares the empty name exactly if it is blank or holds only a comma. In a reading of
several texts a method without a name is made exactly where a definition asks for a group and a
line of the region that is next holds no name; the region is taken for empty only if no line is
listed in it. -/
theorem nameless_methods_come_from_nameless_lines (sources : List (Path × Text)) :
    let start : Progress Declarations := { state := {} }
    let history := (histories sources start).flatten
    (∀ line, ofLine line = .name [] ↔ Nameless line) ∧
      (readEach sources start).1 = (histories sources start).map outcome ∧
      (∀ past ∈ histories sources start, ∀ made, outcome past = .ok made →
        ((∃ m ∈ made, m.name = []) ↔ ∃ earlier event later lines,
          history = earlier ++ event :: later ∧ event ∈ past ∧ event.asks = true ∧
            nextLines earlier = some lines ∧ ∃ line ∈ lines, Nameless line)) ∧
      ∀ earlier event later, history = earlier ++ event :: later → event.asks = true →
        ((∃ statement, event.result = .error (.noPlaceholders statement)) ↔
          ∀ lines, nextLines earlier = some lines → lines = []) := by
  intro start history
  have hgroup {earlier later : List Event} {event : Event}
      (hsplit : history = earlier ++ event :: later) :
      event.before.state.groups[event.before.state.taken]? =
        (nextLines earlier).map (·.map listedName) :=
    (Accounted.of_split hsplit).group_eq
  refine ⟨fun _ => ofLine_eq_name_nil_iff, (readEach_eq_histories sources start).1, ?_, ?_⟩
  · intro past hpast made hmade
    rw [exists_nameless_iff hmade]
    constructor
    · rintro ⟨event, hevent, hasks, names, hnames, hnil⟩
      obtain ⟨earlier, later, hsplit⟩ :=
        List.append_of_mem (List.mem_flatten.2 ⟨past, hpast, hevent⟩)
      rw [hgroup hsplit] at hnames
      obtain ⟨lines, hlines, rfl⟩ := Option.map_eq_some_iff.1 hnames
      obtain ⟨line, hline, hname⟩ := List.mem_map.1 hnil
      exact ⟨earlier, event, later, lines, hsplit, hevent, hasks, hlines, line, hline,
        listedName_eq_nil_iff.1 hname⟩
    · rintro ⟨earlier, event, later, lines, hsplit, hevent, hasks, hlines, line, hline, hname⟩
      refine ⟨event, hevent, hasks, lines.map listedName, ?_, ?_⟩
      · rw [hgroup hsplit, hlines, Option.map_some]
      · exact List.mem_map.2 ⟨line, hline, listedName_eq_nil_iff.2 hname⟩
  · intro earlier event later hsplit hasks
    rw [Event.noPlaceholders_iff hasks, hgroup hsplit]
    simp

def blankSource : Path := ⟨"pkg/R/x.R".toList⟩

def blankDefinition : Text := "setMethod(func_, \"A\", function(x) \x7b".toList

def blankText : Text := unlines ["#+".toList, [], "#-".toList, blankDefinition]

theorem steps_blankText : (Layout.ofLines (Text.lines blankText)).steps =
    ["#+".toList, [], "#-".toList].map .declare ++ [.define [blankDefinition]] := by
  decide

/-- The region lists one line, so it is not empty, and the method that is made of it has no name. -/
theorem method_of_blank_line :
    (readEach [(blankSource, blankText)] { state := {} }).1 =
      [.ok [⟨[], "A".toList, "(x)".toList, blankSource, .pending⟩]] := by
  have hregion : (["#+".toList, [], "#-".toList].map ofLine).foldlM Declarations.accept? {} =
      some { closed := [[[]]] } := by
    decide
  obtain ⟨notices, hdeclares⟩ := Declarations.run_forM_declare (p := { state := {} }) hregion
  have hmethods : methodsFrom blankSource (unlines [blankDefinition]) (some [[]]) =
      .ok [⟨[], "A".toList, "(x)".toList, blankSource, .pending⟩] := rfl
  obtain ⟨q, hdefine, -⟩ := run_define_step_of_group
    (p := ⟨{ closed := [[[]]] }, notices⟩) hmethods
  have hsteps : Completes blankSource [.define [blankDefinition]] _ _ q := .cons hdefine (.nil q)
  have hbehind := (Task.bind_of_run_eq_ok hdeclares fun _ =>
    runSteps blankSource [.define [blankDefinition]]).1
  have hread : Task.result (readText blankSource blankText) { state := {} } =
      .ok [⟨[], "A".toList, "(x)".toList, blankSource, .pending⟩] := by
    rw [readText_eq_runSteps, steps_blankText, runSteps_declare, hbehind]
    exact (Task.run_eq_ok_iff.1 ((runSteps_eq_ok_iff _ _ _ _ _).2 hsteps)).1
  exact congrArg (fun result => [result]) hread

end Source

end RdStubs
