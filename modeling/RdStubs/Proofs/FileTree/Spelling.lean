import Mathlib.Data.List.Basic
import RdStubs.FileTree
import RdStubs.Proofs.Text

/-!
# Spellings of a path

The components of a path say where it starts and which of its segments are not idle. An idle segment
leads nowhere, so two spellings of a path that can both be followed lead to the same location. Where
a path leads, if it can be followed, does not depend on what stands on the way.
-/

namespace RdStubs

namespace Path

def Component.segment? : Component → Option Text
  | root => none
  | here => none
  | up => some ['.', '.']
  | name n => some n

theorem Component.segment?_ofSegment? (segment : Text) :
    (ofSegment? segment).bind segment? = if isIdle segment then none else some segment := by
  unfold ofSegment?
  by_cases hidle : isIdle segment = true
  · simp [hidle]
  · by_cases hup : segment = ['.', '.']
    · subst hup
      rfl
    · simp [hidle, hup, segment?]

theorem Component.segment?_ofFirst? (segment : Text) (more : Bool) :
    (ofFirst? segment more).bind segment? = if isIdle segment then none else some segment := by
  unfold ofFirst?
  by_cases hempty : segment = []
  · cases more <;> simp [hempty, isIdle, segment?]
  · by_cases hdot : segment = ['.']
    · simp [hdot, isIdle, segment?]
    · simp [hempty, hdot, segment?_ofSegment?]

theorem filterMap_components (p : Path) :
    p.components.filterMap Component.segment? =
      p.segments.filter fun segment => !isIdle segment := by
  have hrest (segments : List Text) :
      (segments.filterMap Component.ofSegment?).filterMap Component.segment? =
        segments.filter fun segment => !isIdle segment := by
    rw [List.filterMap_filterMap, ← List.filterMap_eq_filter]
    refine List.filterMap_congr fun segment _ => ?_
    rw [Component.segment?_ofSegment?]
    cases hidle : isIdle segment <;> simp [Option.guard, hidle]
  unfold components
  cases p.segments with
  | nil => rfl
  | cons first rest =>
    have hfirst := Component.segment?_ofFirst? first !rest.isEmpty
    rw [List.filterMap_append, hrest, List.filter_cons]
    cases hcomponent : Component.ofFirst? first !rest.isEmpty <;> cases hidle : isIdle first <;>
      simp_all

theorem Component.ofSegment?_ne_root (segment : Text) : ofSegment? segment ≠ some root := by
  unfold ofSegment?
  split
  · simp
  · split <;> simp

theorem Component.ofFirst?_ne_root {segment : Text} (h : segment ≠ []) (more : Bool) :
    ofFirst? segment more ≠ some root := by
  unfold ofFirst?
  rw [if_neg h]
  split
  · simp
  · exact ofSegment?_ne_root segment

theorem isAbsolute_iff (p : Path) : p.isAbsolute = true ↔ .root ∈ p.components := by
  obtain ⟨text⟩ := p
  cases text with
  | nil => decide
  | cons c s =>
    by_cases hc : c = '/'
    · have hmore : (Text.split '/' s).isEmpty = false := by simp [Text.split_ne_nil]
      simp [isAbsolute, components, segments, Text.split, Component.ofFirst?, hc, hmore]
    · obtain ⟨piece, pieces, hsplit⟩ := Text.split_cons_of_ne hc s
      have hfirst := Component.ofFirst?_ne_root (List.cons_ne_nil c piece) !pieces.isEmpty
      simp [isAbsolute, components, segments, hsplit, hc, hfirst, Component.ofSegment?_ne_root]

theorem SameAs.isAbsolute {p q : Path} (h : p.SameAs q) : p.isAbsolute = q.isAbsolute := by
  rw [Bool.eq_iff_iff, isAbsolute_iff, isAbsolute_iff, h]

end Path

namespace FileTree

variable {t : FileTree}

theorem resolve_cons (here : Location) (segment : Text) (segments : List Text) :
    resolve here (segment :: segments) = resolve (resolve here [segment]) segments := by
  simp only [resolve]
  split
  · rfl
  · split <;> rfl

theorem step_ok {here l : Location} {segment : Text} (h : t.step here segment = .ok l) :
    l = resolve here [segment] := by
  unfold step at h
  rw [resolve, resolve, resolve, resolve]
  split at h
  · cases h
  · split at h
    · next hidle => rw [if_pos hidle, ← Except.ok.inj h]
    · next hidle =>
      rw [if_neg hidle]
      split at h
      · next hup => rw [if_pos hup, ← Except.ok.inj h]
      · next hup =>
        rw [if_neg hup]
        split at h
        · cases h
        · split at h
          · cases h
          · exact (Except.ok.inj h).symm

theorem walk_ok {segments : List Text} {here l : Location}
    (h : segments.foldlM t.step here = .ok l) : l = resolve here segments := by
  induction segments generalizing here with
  | nil => exact (Except.ok.inj h).symm
  | cons segment segments ih =>
    rw [List.foldlM_cons] at h
    cases hstep : t.step here segment with
    | error cause =>
      rw [hstep] at h
      cases h
    | ok next =>
      rw [hstep] at h
      rw [resolve_cons, ← step_ok hstep]
      exact ih h

theorem walk_of_locate {p : Path} {l : Location} (h : t.locate p = .ok l) :
    p.segments.foldlM t.step (if p.isAbsolute then [] else t.workDir) = .ok l := by
  unfold locate at h
  split at h
  · cases h
  · split at h
    · cases h
    · split at h
      · cases h
      · exact h

/-- Two trees with the same working directory lead a path to the same location, if at all. -/
theorem locate_eq_of_workDir {t' : FileTree} (hdir : t'.workDir = t.workDir) {p : Path}
    {l m : Location} (h : t.locate p = .ok l) (h' : t'.locate p = .ok m) : l = m := by
  rw [walk_ok (walk_of_locate h), walk_ok (walk_of_locate h'), hdir]

theorem step_idle {here l : Location} {segment : Text} (hidle : Path.isIdle segment = true)
    (h : t.step here segment = .ok l) : l = here := by
  rw [step_ok h, resolve, if_pos hidle, resolve]

/-- A walk that succeeds does so without its idle segments. -/
theorem foldlM_filter_of_ok {segments : List Text} {here l : Location}
    (h : segments.foldlM t.step here = .ok l) :
    (segments.filter fun segment => !Path.isIdle segment).foldlM t.step here = .ok l := by
  induction segments generalizing here with
  | nil => exact h
  | cons segment segments ih =>
    rw [List.foldlM_cons] at h
    cases hstep : t.step here segment with
    | error cause =>
      rw [hstep] at h
      cases h
    | ok next =>
      rw [hstep] at h
      have hrest := ih h
      cases hidle : Path.isIdle segment with
      | true => simpa [hidle, ← step_idle hidle hstep] using hrest
      | false => simpa [hidle, hstep, bind, Except.bind] using hrest

theorem locate_components {p : Path} {l : Location} (h : t.locate p = .ok l) :
    (p.components.filterMap Path.Component.segment?).foldlM t.step
      (if p.isAbsolute then [] else t.workDir) = .ok l := by
  rw [p.filterMap_components]
  exact foldlM_filter_of_ok (walk_of_locate h)

theorem locate_eq_of_sameAs {p q : Path} {l m : Location} (h : p.SameAs q)
    (hp : t.locate p = .ok l) (hq : t.locate q = .ok m) : l = m := by
  have hwalk := locate_components hp
  rw [h, h.isAbsolute, locate_components hq] at hwalk
  exact (Except.ok.inj hwalk).symm

end FileTree

end RdStubs
