import RdStubs.Proofs.Declarations.Requests
import RdStubs.Proofs.Reading.Places

/-!
# Which regions a definition can take

A placeholder definition takes a region that was opened before its methods are made, and these are
made after the lines behind its statement have been declared. So the region stands in front of the
definition, or right behind its statement, before the next definition opens; no later line
counts.
-/

namespace RdStubs

namespace Source

open Directive

/-- In the history the `j`-th region is opened by line `k`, and `group` is listed in it. -/
def OpenedAt (history : List (Nat × Event)) (j k : Nat) (group : List Text) : Prop :=
  ∃ before opening after, history = before ++ (k, opening) :: after ∧
    opening.accepted? = some .opens ∧ (accepted (before.map Prod.snd)).count .opens = j ∧
    group = listed (accepted (after.map Prod.snd))

/-- Line `k` opens a region behind the statement of the block that begins with line `n`. -/
def Block.OpensBehind (b : Block) (n k : Nat) : Prop :=
  ∃ line, (k, .declare line) ∈ b.placedBehind n ∧ Directive.ofLine line = .opens

theorem Block.OpensBehind.le {b : Block} {n k : Nat} (h : b.OpensBehind n k) : n ≤ k := by
  obtain ⟨line, hmem, -⟩ := h
  exact Nat.le_of_lt (Block.bounds_of_mem_placedBehind hmem).1

theorem exists_openedAt {history : List (Nat × Event)} {j : Nat} {group : List Text}
    (h : (regions (accepted (history.map Prod.snd)))[j]? = some group) :
    ∃ k, OpenedAt history j k group := by
  obtain ⟨back, ⟨front, hsplit, rfl⟩, rfl⟩ := getElem?_regions_iff.1 h
  obtain ⟨events, later, hevents, rfl, hback⟩ := List.filterMap_eq_append_iff.1 hsplit
  obtain ⟨skipped, opening, after, rfl, hskipped, hopening, rfl⟩ :=
    List.filterMap_eq_cons_iff.1 hback
  rw [← List.append_assoc] at hevents
  obtain ⟨before, rest, rfl, hbefore, hrest⟩ := List.map_eq_append_iff.1 hevents
  obtain ⟨⟨k, opening⟩, after, rfl, rfl, rfl⟩ := List.map_eq_cons_iff.1 hrest
  have hnone : accepted skipped = [] := List.filterMap_eq_nil_iff.2 hskipped
  have hcount : accepted (before.map Prod.snd) = accepted events := by
    rw [hbefore, accepted_append, hnone, List.append_nil]
  exact ⟨k, before, opening, after, rfl, hopening, congrArg (List.count .opens) hcount, rfl⟩

namespace OpenedAt

variable {history : List (Nat × Event)} {j k : Nat} {group : List Text}

theorem mem (h : OpenedAt history j k group) :
    ∃ opening, (k, opening) ∈ history ∧ opening.accepted? = some .opens := by
  obtain ⟨before, opening, after, rfl, hopens, -⟩ := h
  exact ⟨opening, List.mem_append_right _ List.mem_cons_self, hopens⟩

end OpenedAt

theorem Event.exists_line_of_accepted? {event : Event} {directive : Directive}
    (h : event.accepted? = some directive) :
    ∃ line, event.step = .declare line ∧ Directive.ofLine line = directive := by
  unfold accepted? at h
  split at h
  case h_1 line methods hstep hresult => exact ⟨line, hstep, Option.some.inj h⟩
  case h_2 => cases h

theorem events_declare (source : Path) {line : Text} {d d' : Declarations}
    (notices : List Notice) (h : d.accept? (Directive.ofLine line) = some d') :
    let event : Event := ⟨source, .declare line, ⟨d, notices⟩⟩
    event.accepted? = some (Directive.ofLine line) ∧
      ∃ notices', ∀ steps, events source (.declare line :: steps) ⟨d, notices⟩ =
        event :: events source steps ⟨d', notices'⟩ := by
  intro event
  obtain ⟨notices', hrun⟩ := Declarations.run_declare_of_accept (p := ⟨d, notices⟩) h
  have hstep : (event.step.run source).run event.before = .ok [] ⟨d', notices'⟩ :=
    Task.run_bind_eq_ok_iff.2 ⟨(), _, hrun, rfl⟩
  obtain ⟨hresult, hafter⟩ := Task.run_eq_ok_iff.1 hstep
  have haccepted : event.accepted? = some (Directive.ofLine line) := by
    simp only [Event.accepted?, Event.result, event, hresult]
  exact ⟨haccepted, notices', fun steps => hafter ▸ events_cons_of_ok hresult steps⟩

/-- A placeholder definition is handed a region that one of the lines in front of it opens, or a
line behind its statement in the same block, and never one that a later line opens. Where no such
line has opened a region the definition fails. -/
theorem definitions_take_regions_opened_before_next_definition (sources : List (Path × Text)) :
    let start : Progress Declarations := { state := {} }
    let history := placedHistory 0 sources start
    history.map Prod.snd = (histories sources start).flatten ∧
      (∀ k event, (k, event) ∈ history → event.step.lines <+: (linesOf sources).drop k) ∧
      ∀ earlier n event later lines d, history = earlier ++ (n, event) :: later →
        event.step = .define lines → Definition.read? (Text.unlines lines) = some d →
        d.slot = .placeholder →
        ∃ b, BeginsAt sources n b ∧ lines = b.statementLines ∧
          let group? := event.before.state.groups[event.before.state.taken]?
          event.result = d.methodsOfGroup event.source (Text.unlines lines) group? ∧
          (∀ group, group? = some group →
            ∃ k, OpenedAt earlier event.before.state.taken k group ∧ (n ≤ k ↔ b.OpensBehind n k)) ∧
          ((∀ k opening, (k, opening) ∈ history → opening.accepted? = some .opens →
              n ≤ k ∧ ¬ b.OpensBehind n k) →
            event.result = .error (.noPlaceholders (Text.trimEnd (Text.unlines lines)))) := by
  intro start history
  have hevents : history.map Prod.snd = (histories sources start).flatten :=
    map_snd_placedHistory 0 sources start
  refine ⟨hevents, fun k event h => fits_placedHistory [] sources start (k, event) h, ?_⟩
  intro earlier n event later lines d hsplit hstep hread hslot
  obtain ⟨m, b, rfl, hbegins, hlines, hplaces⟩ := placedHistory_split hsplit hstep
  rw [Nat.zero_add] at hplaces ⊢
  rw [hsplit, List.map_append, List.map_cons] at hevents
  have haccounted : Accounted (earlier.map Prod.snd) event.before := .of_split hevents.symm
  have hresult := Event.result_placeholder hstep hread hslot
  have hopened (group : List Text)
      (hgroup : event.before.state.groups[event.before.state.taken]? = some group) :
      ∃ k, OpenedAt earlier event.before.state.taken k group ∧ (m ≤ k ↔ b.OpensBehind m k) := by
    rw [haccounted.groups] at hgroup
    obtain ⟨k, hk⟩ := exists_openedAt hgroup
    obtain ⟨opening, hmem, hopens⟩ := hk.mem
    obtain ⟨line, hdeclare, hline⟩ := Event.exists_line_of_accepted? hopens
    refine ⟨k, hk, fun hle => ?_, Block.OpensBehind.le⟩
    rcases hplaces (k, opening) hmem with hlt | hbehind
    · exact absurd hlt (Nat.not_lt.2 hle)
    · rw [placedStep, hdeclare] at hbehind
      exact ⟨line, hbehind, hline⟩
  refine ⟨b, hbegins, hlines, hresult, hopened, ?_⟩
  intro hlate
  rw [hresult]
  cases hgroup : event.before.state.groups[event.before.state.taken]? with
  | none => rfl
  | some group =>
    obtain ⟨k, hk, hbehind⟩ := hopened group hgroup
    obtain ⟨opening, hmem, hopens⟩ := hk.mem
    have hhistory : (k, opening) ∈ history := by
      rw [hsplit]
      exact List.mem_append_left _ hmem
    obtain ⟨hle, hnot⟩ := hlate k opening hhistory hopens
    exact absurd (hbehind.1 hle) hnot

def earlySource : Path := ⟨"early.R".toList⟩

def earlyDefinition : Text := "setMethod(func_, \"A\", function(x) \x7b".toList

def earlyText : Text := Text.unlines [earlyDefinition, "#+".toList, "a".toList, "#-".toList]

theorem placed_early : (Layout.ofLines (Text.lines earlyText)).placed 0 =
    [(1, .declare "#+".toList), (2, .declare "a".toList), (3, .declare "#-".toList),
      (0, .define [earlyDefinition])] := by
  decide

theorem steps_early : (Layout.ofLines (Text.lines earlyText)).steps =
    [.declare "#+".toList, .declare "a".toList, .declare "#-".toList,
      .define [earlyDefinition]] := by
  rw [← Layout.map_snd_placed 0, placed_early]
  rfl

/-- The definition on the first line takes the region that the second line opens. -/
theorem definition_takes_region_of_next_line :
    ∃ earlier event, placedHistory 0 [(earlySource, earlyText)] { state := {} } =
        earlier ++ [(0, event)] ∧
      OpenedAt earlier event.before.state.taken 1 ["a".toList] ∧
      event.before.state.groups[event.before.state.taken]? = some ["a".toList] ∧
      event.result = .ok [⟨"a".toList, "A".toList, "(x)".toList, earlySource, .pending⟩] := by
  have hopens : ({} : Declarations).accept? (Directive.ofLine "#+".toList) =
      some { current? := some [] } := by
    decide
  have hlists : ({ current? := some [] } : Declarations).accept? (Directive.ofLine "a".toList) =
      some { current? := some ["a".toList] } := by
    decide
  have hcloses : ({ current? := some ["a".toList] } : Declarations).accept?
      (Directive.ofLine "#-".toList) = some { closed := [["a".toList]] } := by
    decide
  have hmethods : methodsFrom earlySource (Text.unlines [earlyDefinition]) (some ["a".toList]) =
      .ok [⟨"a".toList, "A".toList, "(x)".toList, earlySource, .pending⟩] := rfl
  obtain ⟨hopened, notices₁, hfirst⟩ := events_declare earlySource [] hopens
  obtain ⟨hlisted, notices₂, hsecond⟩ := events_declare earlySource notices₁ hlists
  obtain ⟨hclosed, notices₃, hthird⟩ := events_declare earlySource notices₂ hcloses
  let opening : Event := ⟨earlySource, .declare "#+".toList, ⟨{}, []⟩⟩
  let listing : Event := ⟨earlySource, .declare "a".toList, ⟨{ current? := some [] }, notices₁⟩⟩
  let closing : Event :=
    ⟨earlySource, .declare "#-".toList, ⟨{ current? := some ["a".toList] }, notices₂⟩⟩
  let definition : Event :=
    ⟨earlySource, .define [earlyDefinition], ⟨{ closed := [["a".toList]] }, notices₃⟩⟩
  have hgroup : definition.before.state.groups[definition.before.state.taken]? =
      some ["a".toList] := rfl
  have hresult : definition.result =
      .ok [⟨"a".toList, "A".toList, "(x)".toList, earlySource, .pending⟩] := by
    rw [Event.result_define rfl, hgroup]
    exact hmethods
  have hlast : events earlySource [.define [earlyDefinition]] definition.before = [definition] := by
    rw [events_cons_of_ok hresult, events]
  have hevents : events earlySource (Layout.ofLines (Text.lines earlyText)).steps ⟨{}, []⟩ =
      [opening, listing, closing, definition] := by
    rw [steps_early, hfirst, hsecond, hthird, hlast]
  have haccepted : accepted [listing, closing] =
      [Directive.ofLine "a".toList, Directive.ofLine "#-".toList] := by
    simp only [accepted, List.filterMap_cons, List.filterMap_nil, listing, closing, hlisted, hclosed]
  refine ⟨[(1, opening), (2, listing), (3, closing)], definition, ?_,
    ⟨[], opening, [(2, listing), (3, closing)], rfl, hopened.trans (by decide), rfl, ?_⟩,
    hgroup, hresult⟩
  · rw [placedHistory, placedHistory, placedEvents, List.append_nil, placed_early, hevents]
    rfl
  · rw [List.map_cons, List.map_singleton, haccepted]
    decide

end Source

end RdStubs
