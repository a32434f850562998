import Mathlib.Data.List.Forall2
import RdStubs.Proofs.Declarations.Calls

/-!
# Blanks around a line

A line with blanks around it has the sign, the redirect or the name that it has without them. So it
is taken in or refused like the line itself and leaves the same behind, and only the error that
names a refused line keeps the blanks in front. The same holds call by call of lines that are
declared one after another, with other blanks around each.
-/

namespace RdStubs

open Text

namespace Directive

structure ReadAlike (line line' : Text) : Prop where
  opens_iff : LineOpens line ↔ LineOpens line'
  closes_iff : LineCloses line ↔ LineCloses line'
  redirects_iff (raw page : Text) : LineRedirects line raw page ↔ LineRedirects line' raw page
  signless_iff : Signless line ↔ Signless line'
  listedName_eq : listedName line = listedName line'

theorem readAlike_of_trim_eq {line line' : Text} (h : trim line = trim line') :
    ReadAlike line line' := by
  have hread : ofLine line = ofLine line' := ofLine_of_trim_eq h
  have hname : listedName line = listedName line' := by
    rw [listedName, listedName, h]
  refine ⟨?_, ?_, fun raw page => ?_, ?_, hname⟩
  · rw [lineOpens_iff, lineOpens_iff, h]
  · rw [lineCloses_iff, lineCloses_iff, h]
  · rw [← ofLine_eq_redirect_iff, ← ofLine_eq_redirect_iff, hread]
  · rw [signless_iff, signless_iff, hread, hname]

theorem trim_padded (g g' : Gap) (line : Text) : trim (g ++ (line ++ g')) = trim line := by
  rw [trim_gap_append, trim_append_gap]

end Directive

/-- The error, with more in front of the line of a directive that it names. -/
def Error.indented (indent : Text) : Error → Error
  | .malformedDirective line => .malformedDirective (indent ++ line)
  | e => e

namespace Declarations

open Directive

theorem trim_ne_nil_of_refused {d : Declarations} {line : Text}
    (h : d.accept? (ofLine line) = none) : trim line ≠ [] := by
  intro hblank
  have hname : ofLine line = .name (listedName line) := by
    apply ofLine_eq_name
    rw [hblank]
    decide
  rw [hname] at h
  cases h

/-- What is done with a line is done with it between blanks, and an error keeps those in front. -/
theorem declare_padded (g g' : Gap) (line : Text) (p : Progress Declarations) :
    Task.after (declare (g ++ (line ++ g'))) p = Task.after (declare line) p ∧
      Task.result (declare (g ++ (line ++ g'))) p =
        (Task.result (declare line) p).mapError (Error.indented g) := by
  have hread : ofLine (g ++ (line ++ g')) = ofLine line := ofLine_of_trim_eq (trim_padded g g' line)
  cases haccept : p.state.accept? (ofLine line) with
  | none =>
    have hline := Task.run_eq_error_iff.1 (run_declare_of_refuse haccept)
    have hne := trim_ne_nil_of_refused haccept
    have hindent : trimEnd (g ++ (line ++ g')) = g ++ trimEnd line := by
      rw [trimEnd_gap_append (by rwa [trim_append_gap]), trimEnd_append_gap]
    rw [← hread] at haccept
    have hpadded := Task.run_eq_error_iff.1 (run_declare_of_refuse haccept)
    rw [hpadded.1, hpadded.2, hline.1, hline.2, hindent]
    exact ⟨rfl, rfl⟩
  | some d =>
    obtain ⟨notices, hline⟩ := run_declare_of_accept haccept
    have hpadded : (declare (g ++ (line ++ g'))).run p = .ok () ⟨d, notices⟩ := by
      rw [run_declare_eq_announce (hread ▸ haccept), hread, ← run_declare_eq_announce haccept,
        hline]
    obtain ⟨hresult, hafter⟩ := Task.run_eq_ok_iff.1 hline
    obtain ⟨hresult', hafter'⟩ := Task.run_eq_ok_iff.1 hpadded
    rw [hresult', hafter', hresult, hafter]
    exact ⟨rfl, rfl⟩

inductive Call.Padded : Call → Call → Prop
  | declare (g g' : Gap) (line : Text) : Padded (.declare line) (.declare (g ++ (line ++ g')))
  | takeGroup (statement : Text) : Padded (.takeGroup statement) (.takeGroup statement)

/-- The two calls find the same and leave the same, and come to the same but for blanks in front of
a line that is refused. -/
structure Exchange.Alike (x y : Exchange) : Prop where
  before_eq : y.before = x.before
  after_eq : y.after = x.after
  result_eq : ∃ g : Gap, y.result = x.result.mapError (Error.indented g)

theorem alike_of_padded {call padded : Call} (h : call.Padded padded) (p : Progress Declarations) :
    Exchange.Alike ⟨call, p⟩ ⟨padded, p⟩ := by
  cases h with
  | declare g g' line =>
    obtain ⟨hafter, hresult⟩ := declare_padded g g' line p
    refine ⟨rfl, ?_, g, ?_⟩
    · simp only [Exchange.after, Call.run, Task.after_bind, hresult, hafter]
      cases Task.result (declare line) p <;> rfl
    · simp only [Exchange.result, Call.run, Task.result_bind, hresult, hafter]
      cases Task.result (declare line) p <;> rfl
  | takeGroup statement =>
    refine ⟨rfl, rfl, ⟨[], List.forall_mem_nil _⟩, ?_⟩
    cases hresult : Exchange.result ⟨.takeGroup statement, p⟩ with
    | ok names => rfl
    | error e => cases e <;> rfl

theorem exchanges_padded {calls padded : List Call} (h : List.Forall₂ Call.Padded calls padded)
    (p : Progress Declarations) :
    List.Forall₂ Exchange.Alike (exchanges calls p) (exchanges padded p) ∧
      finish p padded = finish p calls := by
  induction h generalizing p with
  | nil => exact ⟨.nil, rfl⟩
  | @cons call call' calls padded hcall _ ih =>
    have halike := alike_of_padded hcall p
    have hafter : Exchange.after ⟨call', p⟩ = Exchange.after ⟨call, p⟩ := halike.after_eq
    obtain ⟨hexchanges, hfinish⟩ := ih (Exchange.after ⟨call, p⟩)
    refine ⟨.cons halike ?_, ?_⟩
    · rw [hafter]
      exact hexchanges
    · rw [← hafter] at hfinish
      exact hfinish.trans (congrArg (finish · calls) hafter)

/-- Blanks around a line change neither what it is read as nor what declaring it does, in any state.
Only the error for a line that is refused has the blanks in front, where it names the line. So any
calls do and find the same when blanks are put around the lines that they declare. -/
theorem blanks_only_indent_errors (p : Progress Declarations) :
    (∀ (g g' : Gap) (line : Text),
      ReadAlike (g ++ (line ++ g')) line ∧
        Task.after (declare (g ++ (line ++ g'))) p = Task.after (declare line) p ∧
        Task.result (declare (g ++ (line ++ g'))) p =
          (Task.result (declare line) p).mapError (Error.indented g)) ∧
      ∀ calls padded, List.Forall₂ Call.Padded calls padded →
        List.Forall₂ Exchange.Alike (exchanges calls p) (exchanges padded p) ∧
          finish p padded = finish p calls := by
  refine ⟨fun g g' line => ⟨?_, declare_padded g g' line p⟩,
    fun calls padded h => exchanges_padded h p⟩
  exact readAlike_of_trim_eq (trim_padded g g' line)

end Declarations

end RdStubs
