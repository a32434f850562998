import RdStubs.Proofs.Declarations.Regions
import RdStubs.Proofs.Directive

/-!
# Calls in any order

The declarations are called to take in a line or to hand out a group, in any order, and a call that
fails does not keep the next from being made. A line is refused where its sign may not stand, and a
refused line changes nothing: without the calls that declare such lines, every other call finds
things as it found them with them.
-/

namespace RdStubs.Declarations

open Directive

inductive Call where
  | declare (line : Text)
  | takeGroup (statement : Text)
deriving DecidableEq, Repr

namespace Call

def run : Call → Task Declarations (List Text)
  | declare line => do
    Declarations.declare line
    return []
  | takeGroup statement => Declarations.takeGroup statement

def asks : Call → Bool
  | declare _ => false
  | takeGroup _ => true

end Call

/-- A call that was made, and how things stood before it. -/
structure Exchange where
  call : Call
  before : Progress Declarations

namespace Exchange

def result (x : Exchange) : Except Error (List Text) := Task.result x.call.run x.before

def after (x : Exchange) : Progress Declarations := Task.after x.call.run x.before

/-- The directive that was taken in, if the call declares a line that is not refused. -/
def accepted? (x : Exchange) : Option Directive :=
  match x.call, x.result with
  | .declare line, .ok _ => some (ofLine line)
  | _, _ => none

def refused (x : Exchange) : Bool :=
  match x.call, x.result with
  | .declare _, .error _ => true
  | _, _ => false

end Exchange

/-- Calls that are made one after another, whether those before them have failed or not. -/
def exchanges : List Call → Progress Declarations → List Exchange
  | [], _ => []
  | call :: calls, p =>
    let x : Exchange := ⟨call, p⟩
    x :: exchanges calls x.after

def finish (start : Progress Declarations) (calls : List Call) : Progress Declarations :=
  calls.foldl (fun p call => Exchange.after ⟨call, p⟩) start

namespace Exchange

variable {x : Exchange}

theorem declare_cases {line : Text} (h : x.call = .declare line) :
    (∃ d, x.before.state.Accepts (ofLine line) d ∧ x.accepted? = some (ofLine line) ∧
      x.refused = false ∧ x.after.state = d) ∨
    (x.before.state.accept? (ofLine line) = none ∧ x.accepted? = none ∧ x.refused = true ∧
      x.after = x.before) := by
  unfold accepted? refused result after
  rw [h, Call.run, Task.result_bind, Task.after_bind]
  rcases Declarations.declare_cases line x.before with
    ⟨d, haccepts, hresult, hafter⟩ | ⟨hrefused, hresult, hafter⟩
  · rw [hresult]
    exact .inl ⟨d, haccepts, rfl, rfl, hafter⟩
  · rw [hresult]
    exact .inr ⟨hrefused, rfl, rfl, hafter⟩

theorem after_of_accepts {line : Text} {d : Declarations} (h : x.call = .declare line)
    (haccepts : x.before.state.Accepts (ofLine line) d) : x.after.state = d := by
  have haccept := accept?_eq_some_iff.2 haccepts
  rcases declare_cases h with ⟨d', haccepts', -, -, hafter⟩ | ⟨hrefused, -⟩
  · rw [accept?_eq_some_iff.2 haccepts'] at haccept
    exact hafter.trans (Option.some.inj haccept)
  · rw [hrefused] at haccept
    cases haccept

theorem not_declare_of_takeGroup {statement : Text} (h : x.call = .takeGroup statement) :
    x.accepted? = none ∧ x.refused = false := by
  unfold accepted? refused
  rw [h]
  exact ⟨rfl, rfl⟩

theorem run_takeGroup {statement : Text} (h : x.call = .takeGroup statement) :
    x.result = handOut statement x.before.state.groups[x.before.state.taken]? ∧
      x.after.state = { x.before.state with taken := x.before.state.taken + 1 } := by
  unfold result after
  rw [h]
  exact Declarations.run_takeGroup statement x.before

theorem after_of_refused (h : x.refused = true) : x.after = x.before := by
  cases hcall : x.call with
  | declare line =>
    rcases declare_cases hcall with ⟨_, -, -, hnot, -⟩ | ⟨-, -, -, hafter⟩
    · rw [hnot] at h
      cases h
    · exact hafter
  | takeGroup statement =>
    rw [(not_declare_of_takeGroup hcall).2] at h
    cases h

end Exchange

theorem finish_append (start : Progress Declarations) (calls more : List Call) :
    finish start (calls ++ more) = finish (finish start calls) more := List.foldl_append

theorem exchanges_append (calls more : List Call) (p : Progress Declarations) :
    exchanges (calls ++ more) p = exchanges calls p ++ exchanges more (finish p calls) := by
  induction calls generalizing p with
  | nil => rfl
  | cons call calls ih => exact congrArg (Exchange.mk call p :: ·) (ih _)

/-- An exchange begins where the calls before it have ended. -/
theorem before_eq_finish {calls : List Call} {p : Progress Declarations}
    {earlier later : List Exchange} {x : Exchange}
    (h : exchanges calls p = earlier ++ x :: later) :
    x.before = finish p (earlier.map Exchange.call) := by
  induction earlier generalizing calls p with
  | nil =>
    cases calls with
    | nil => cases h
    | cons call calls =>
      obtain ⟨rfl, -⟩ := List.cons.inj h
      rfl
  | cons first earlier ih =>
    cases calls with
    | nil => cases h
    | cons call calls =>
      obtain ⟨rfl, hrest⟩ := List.cons.inj h
      exact ih hrest

/-- The line may not stand here: a region is open, and the line would open one or redirect; or none
is open, and the line would close one or is a redirect without two fields. -/
def Misplaced (d : Declarations) (line : Text) : Prop :=
  (d.hasOpenRegion = true ∧ (LineOpens line ∨ ∃ spec, LineMaps line spec)) ∨
    (d.hasOpenRegion = false ∧
      (LineCloses line ∨ ∃ spec, LineMaps line spec ∧ (Text.fields spec).length < 2))

section

variable {d : Declarations}

theorem accept?_opens_eq_none_iff : d.accept? .opens = none ↔ d.hasOpenRegion = true := by
  simp [accept?]

theorem accept?_closes_eq_none_iff : d.accept? .closes = none ↔ d.hasOpenRegion = false := by
  simp [accept?, hasOpenRegion]

theorem accept?_ofFields_eq_none_iff {names : List Text} :
    d.accept? (ofFields names) = none ↔ d.hasOpenRegion = true ∨ names.length < 2 := by
  rcases names with _ | ⟨raw, _ | ⟨page, more⟩⟩
  · simp [ofFields, accept?]
  · simp [ofFields, accept?]
  · have hlength : ¬ (raw :: page :: more).length < 2 := by
      simp only [List.length_cons]
      omega
    rw [or_iff_left hlength]
    simp [ofFields, accept?]

theorem accept?_ofLine_eq_none_iff {line : Text} :
    d.accept? (ofLine line) = none ↔ d.Misplaced line := by
  constructor
  · intro h
    rcases ofLine_cases line with hline | hline | ⟨spec, hline⟩ | hline
    · rw [hline.ofLine_eq, accept?_opens_eq_none_iff] at h
      exact .inl ⟨h, .inl hline⟩
    · rw [hline.ofLine_eq, accept?_closes_eq_none_iff] at h
      exact .inr ⟨h, .inl hline⟩
    · rw [hline.ofLine_eq, accept?_ofFields_eq_none_iff] at h
      cases hopen : d.hasOpenRegion with
      | true => exact .inl ⟨hopen, .inr ⟨spec, hline⟩⟩
      | false =>
        rw [hopen] at h
        exact .inr ⟨hopen, .inr ⟨spec, hline, h.resolve_left Bool.false_ne_true⟩⟩
    · rw [hline] at h
      cases h
  · rintro (⟨hopen, hline | ⟨spec, hline⟩⟩ | ⟨hopen, hline | ⟨spec, hline, hfields⟩⟩)
    · rwa [hline.ofLine_eq, accept?_opens_eq_none_iff]
    · rw [hline.ofLine_eq, accept?_ofFields_eq_none_iff]
      exact .inl hopen
    · rwa [hline.ofLine_eq, accept?_closes_eq_none_iff]
    · rw [hline.ofLine_eq, accept?_ofFields_eq_none_iff]
      exact .inr hfields

end

/-- Without the calls that are refused the others are the same exchanges. -/
theorem exchanges_kept (calls : List Call) (p : Progress Declarations) :
    let kept := (exchanges calls p).filter (!·.refused)
    exchanges (kept.map Exchange.call) p = kept ∧
      finish p (kept.map Exchange.call) = finish p calls := by
  induction calls generalizing p with
  | nil => exact ⟨rfl, rfl⟩
  | cons call calls ih =>
    obtain ⟨hkept, hfinish⟩ := ih (Exchange.after ⟨call, p⟩)
    cases hrefused : Exchange.refused ⟨call, p⟩ with
    | true =>
      have hafter : Exchange.after ⟨call, p⟩ = p := Exchange.after_of_refused hrefused
      rw [hafter] at hkept hfinish
      simp only [exchanges, List.filter_cons, hrefused, hafter]
      exact ⟨hkept, hfinish.trans (congrArg (finish · calls) hafter.symm)⟩
    | false =>
      simp only [exchanges, List.filter_cons, hrefused]
      exact ⟨congrArg (Exchange.mk call p :: ·) hkept, hfinish⟩

/-- Declaring a line fails exactly where the line may not stand, and then changes nothing. So the
calls that declare such lines can be left out, and every other call does and finds the same. -/
theorem refused_lines_leave_no_trace (p : Progress Declarations) :
    (∀ line e, Task.result (declare line) p = .error e ↔
      e = .malformedDirective (Text.trimEnd line) ∧ p.state.Misplaced line) ∧
      (∀ line e, Task.result (declare line) p = .error e → Task.after (declare line) p = p) ∧
      ∀ calls,
        let kept := (exchanges calls p).filter (!·.refused)
        exchanges (kept.map Exchange.call) p = kept ∧
          finish p (kept.map Exchange.call) = finish p calls := by
  refine ⟨fun line e => ?_, fun line e h => ?_, fun calls => exchanges_kept calls p⟩
  · rw [← accept?_ofLine_eq_none_iff]
    rcases declare_cases line p with ⟨d, haccepts, hresult, -⟩ | ⟨hrefused, hresult, -⟩
    · rw [hresult, accept?_eq_some_iff.2 haccepts]
      simp
    · rw [hresult, hrefused]
      simp [eq_comm]
  · rcases declare_cases line p with ⟨d, -, hresult, -⟩ | ⟨-, -, hafter⟩
    · rw [hresult] at h
      cases h
    · exact hafter

end RdStubs.Declarations
