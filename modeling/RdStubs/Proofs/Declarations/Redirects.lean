import RdStubs.Proofs.Declarations.Requests
import RdStubs.Proofs.Directive
import RdStubs.Proofs.Reading.Files

/-!
# Where redirects lead

A redirect holds for the whole reading, for the methods in front of it as for those behind it. The
page of a method is the one that the last redirect of its own page name gives, and that page name is
not redirected again. Lines of a statement are never declared, so they redirect nothing.
-/

namespace RdStubs

namespace Redirects

theorem lookup_filter_ne {entries : List (Text × Text)} {raw name : Text} (h : name ≠ raw) :
    (entries.filter (·.1 ≠ raw)).lookup name = entries.lookup name := by
  induction entries with
  | nil => rfl
  | cons e entries ih =>
    obtain ⟨key, page⟩ := e
    by_cases hkey : key = raw
    · have hne : (name == key) = false := beq_false_of_ne (hkey ▸ h)
      rw [List.filter_cons_of_neg (by simpa using hkey), ih, List.lookup_cons, hne]
    · rw [List.filter_cons_of_pos (by simpa using hkey), List.lookup_cons, List.lookup_cons, ih]

theorem resolve_insert_of_ne (r : Redirects) {raw name : Text} (h : name ≠ raw) (page : Text) :
    (r.insert raw page).resolve name = r.resolve name := by
  have hne : (name == raw) = false := beq_false_of_ne h
  rw [resolve, insert, List.lookup_cons, hne, lookup_filter_ne h, resolve]

def follow (r : Redirects) : Directive → Redirects
  | .redirect raw page => r.insert raw page
  | _ => r

end Redirects

open Directive

/-- What `raw` is redirected to by the last of the lines that redirects it, or `raw` itself if none
of them does. -/
def LastRedirect (lines : List Text) (raw page : Text) : Prop :=
  (∃ before line after, lines = before ++ line :: after ∧ LineRedirects line raw page ∧
    ∀ later ∈ after, ∀ other, ¬ LineRedirects later raw other) ∨
  (page = raw ∧ ∀ line ∈ lines, ∀ other, ¬ LineRedirects line raw other)

namespace LastRedirect

variable {lines : List Text} {line raw page : Text}

theorem snoc_redirect (lines : List Text) (h : LineRedirects line raw page) :
    LastRedirect (lines ++ [line]) raw page :=
  .inl ⟨lines, line, [], rfl, h, fun _ hlater => absurd hlater List.not_mem_nil⟩

theorem snoc_other (h : LastRedirect lines raw page)
    (hline : ∀ other, ¬ LineRedirects line raw other) :
    LastRedirect (lines ++ [line]) raw page := by
  rcases h with ⟨before, last, after, rfl, hlast, hafter⟩ | ⟨rfl, hnone⟩
  · refine .inl ⟨before, last, after ++ [line], by simp, hlast, ?_⟩
    exact List.forall_mem_append.2 ⟨hafter, List.forall_mem_singleton.2 hline⟩
  · exact .inr ⟨rfl, List.forall_mem_append.2 ⟨hnone, List.forall_mem_singleton.2 hline⟩⟩

/-- Following the lines in order finds the last redirect. -/
theorem of_follow (lines : List Text) (raw : Text) :
    LastRedirect lines raw (((lines.map ofLine).foldl Redirects.follow {}).resolve raw) := by
  induction lines using List.reverseRecOn with
  | nil => exact .inr ⟨rfl, fun _ hline => absurd hline List.not_mem_nil⟩
  | append_singleton lines line ih =>
    rw [List.map_append, List.foldl_append, List.map_singleton, List.foldl_cons, List.foldl_nil]
    by_cases hraw : ∃ page, ofLine line = .redirect raw page
    · obtain ⟨page, hpage⟩ := hraw
      rw [hpage, Redirects.follow, Redirects.resolve_insert_self]
      exact snoc_redirect lines (ofLine_eq_redirect_iff.1 hpage)
    · have hother : ∀ page, ¬ LineRedirects line raw page := fun page hline =>
        hraw ⟨page, ofLine_eq_redirect_iff.2 hline⟩
      cases hdirective : ofLine line with
      | redirect key page =>
        have hkey : raw ≠ key := by
          rintro rfl
          exact hraw ⟨page, hdirective⟩
        rw [Redirects.follow, Redirects.resolve_insert_of_ne _ hkey]
        exact ih.snoc_other hother
      | _ => exact ih.snoc_other hother

end LastRedirect

theorem Declarations.Accepts.redirects_eq {d d' : Declarations} {directive : Directive}
    (h : d.Accepts directive d') : d'.redirects = d.redirects.follow directive := by
  cases h <;> rfl

namespace Source

def Step.declared? : Step → Option Text
  | declare line => some line
  | define _ => none

/-- The lines outside of statements, in order. -/
def Layout.declared (l : Layout) : List Text := l.preamble ++ l.blocks.flatMap Block.linesBehind

def declaredLines (sources : List (Path × Text)) : List Text :=
  sources.flatMap fun s => (Layout.ofLines (Text.lines s.2)).declared

theorem filterMap_declared?_map_declare (lines : List Text) :
    (lines.map Step.declare).filterMap Step.declared? = lines := by
  rw [List.filterMap_map]
  exact List.filterMap_some

theorem Layout.filterMap_declared?_steps (l : Layout) :
    l.steps.filterMap Step.declared? = l.declared := by
  have hblock (b : Block) : b.steps.filterMap Step.declared? = b.linesBehind := by
    rw [Block.steps, List.filterMap_append, filterMap_declared?_map_declare]
    exact List.append_nil _
  rw [Layout.steps, List.filterMap_append, filterMap_declared?_map_declare, List.filterMap_flatMap]
  simp only [hblock, Layout.declared]

theorem Event.accepted?_of_ok {event : Event} {methods : List Method}
    (h : event.result = .ok methods) :
    event.accepted? = (event.step.declared?).map ofLine := by
  unfold Event.accepted? Step.declared?
  rw [h]
  cases event.step <;> rfl

theorem accepted_of_ok {history : List Event}
    (h : ∀ event ∈ history, ∃ methods, event.result = .ok methods) :
    accepted history = ((history.map Event.step).filterMap Step.declared?).map ofLine := by
  rw [List.filterMap_map, List.map_filterMap]
  refine List.filterMap_congr fun event hevent => ?_
  obtain ⟨methods, hok⟩ := h event hevent
  exact Event.accepted?_of_ok hok

theorem Event.redirects_after (event : Event) :
    event.after.state.redirects =
      (accepted [event]).foldl Redirects.follow event.before.state.redirects := by
  cases hstep : event.step with
  | declare line =>
    rcases declare_cases hstep with ⟨d, haccepts, hresult, hafter⟩ | ⟨hresult, hafter⟩
    · have haccepted : accepted [event] = [ofLine line] := by
        simp [accepted, accepted?, hstep, hresult]
      rw [hafter, haccepted]
      exact haccepts.redirects_eq
    · have haccepted : accepted [event] = [] := by simp [accepted, accepted?, hstep, hresult]
      rw [hafter, haccepted]
      rfl
  | define lines =>
    have haccepted : accepted [event] = [] := by simp [accepted, accepted?, hstep]
    rw [after_define hstep, haccepted]
    rfl

/-- The redirects are those that the directives accepted since `start` have given. -/
def Followed (start : Progress Declarations) (past : List Event) (p : Progress Declarations) :
    Prop :=
  p.state.redirects = (accepted past).foldl Redirects.follow start.state.redirects

theorem Followed.snoc {start : Progress Declarations} {past : List Event} {event : Event}
    (h : Followed start past event.before) : Followed start (past ++ [event]) event.after := by
  rw [Followed, event.redirects_after, h, accepted_append, List.foldl_append]

theorem Chained.followed {start : Progress Declarations} {history : List Event}
    (h : Chained start history) : Followed start history (finish start history) :=
  h.invariant rfl fun _ _ => Followed.snoc

theorem redirects_of_ok {sources : List (Path × Text)} {made : List (List Method)}
    (h : (readEach sources { state := {} }).1 = made.map .ok) :
    (readEach sources { state := {} }).2.state.redirects =
      ((declaredLines sources).map ofLine).foldl Redirects.follow {} := by
  obtain ⟨hsteps, hok⟩ := histories_of_ok h
  have hdeclared : (sources.flatMap fun s => (Layout.ofLines (Text.lines s.2)).steps).filterMap
      Step.declared? = declaredLines sources := by
    rw [List.filterMap_flatMap]
    simp only [Layout.filterMap_declared?_steps, declaredLines]
  have hfollowed := (chained_histories sources { state := {} }).followed
  rw [Followed, accepted_of_ok hok, hsteps, hdeclared] at hfollowed
  rw [(readEach_eq_histories sources _).2, hfollowed]

theorem Event.current?_of_redirect {event : Event} {methods : List Method} {line raw page : Text}
    (hok : event.result = .ok methods) (hstep : event.step = .declare line)
    (hline : LineRedirects line raw page) : event.before.state.current? = none := by
  rcases declare_cases hstep with ⟨d, haccepts, -⟩ | ⟨hresult, -⟩
  · rw [ofLine_eq_redirect_iff.2 hline] at haccepts
    cases haccepts
    assumption
  · rw [hok] at hresult
    cases hresult

/-- In a reading without an error every redirect stands outside of the regions, and the one place
where a method's page may be is the page that the last redirect of its page name gives, or that of
its page name itself, wherever in the reading redirect and method are. -/
theorem candidates_follow_last_redirect {sources : List (Path × Text)}
    {made : List (List Method)} (h : (readEach sources { state := {} }).1 = made.map .ok) :
    let redirects := (readEach sources { state := {} }).2.state.redirects
    (∀ event ∈ (histories sources { state := {} }).flatten, ∀ line raw page,
      event.step = .declare line → LineRedirects line raw page →
        event.before.state.current? = none) ∧
      ∀ m : Method, ∃ page, LastRedirect (declaredLines sources) (PageName.ofName m.name) page ∧
        m.candidates redirects = [m.manDirectory.join ⟨page ++ ".Rd".toList⟩] := by
  intro redirects
  constructor
  · intro event hevent line raw page hstep hline
    obtain ⟨methods, hok⟩ := (histories_of_ok h).2 event hevent
    exact event.current?_of_redirect hok hstep hline
  · intro m
    refine ⟨redirects.resolve (PageName.ofName m.name), ?_, rfl⟩
    have hlast := LastRedirect.of_follow (declaredLines sources) (PageName.ofName m.name)
    rwa [← redirects_of_ok h] at hlast

def personSource : Path := ⟨"R/show.R".toList⟩

def personDefinition : Text := "setMethod(\"show\", \"Person\", function(object) \x7b".toList

def personRedirect : Text := " #=show people and more".toList

def personText : Text := Text.unlines [personDefinition, personRedirect]

def personMethod : Method where
  name := "show".toList
  signature := "Person".toList
  formals := "(object)".toList
  source := personSource

theorem read_person :
    ∃ q, (readText personSource personText).run { state := {} } = .ok [personMethod] q := by
  have hsteps : (Layout.ofLines (Text.lines personText)).steps =
      [.declare personRedirect, .define [personDefinition]] := by
    decide
  have haccept : ({} : Declarations).accept? (ofLine personRedirect) =
      some { redirects := ⟨[("show".toList, "people".toList)]⟩ } := by
    decide
  have hmethods (group? : Option (List Text)) :
      methodsFrom personSource (Text.unlines [personDefinition]) group? = .ok [personMethod] := rfl
  obtain ⟨q, hread, -⟩ :=
    completes_definition (p := { state := {} }) haccept hmethods (by decide)
  exact ⟨q, run_readText_of_completes hsteps hread⟩

theorem candidates_of_person :
    (readEach [(personSource, personText)] { state := {} }).1 = [[personMethod]].map .ok ∧
      ∃ page, LastRedirect (declaredLines [(personSource, personText)]) "show".toList page ∧
        personMethod.candidates
            (readEach [(personSource, personText)] { state := {} }).2.state.redirects =
          [personMethod.manDirectory.join ⟨page ++ ".Rd".toList⟩] := by
  obtain ⟨q, hread⟩ := read_person
  have hok : (readEach [(personSource, personText)] { state := {} }).1 =
      [[personMethod]].map .ok := by
    simp only [readEach, (Task.run_eq_ok_iff.1 hread).1, List.map_cons, List.map_nil]
  exact ⟨hok, (candidates_follow_last_redirect hok).2 personMethod⟩

end Source

end RdStubs
