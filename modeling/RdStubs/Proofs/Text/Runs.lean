import Mathlib.Data.List.Basic
import RdStubs.Text.Runs

/-!
# Whole runs of a character class

A text may be cut anywhere but inside a run: the runs of the parts are those of the text. So there
is one way only to take a text apart into whole runs and what stands between them, and where a run
stands tells which runs are in front of it.
-/

namespace RdStubs.Text

variable {p : Char → Bool} {s t : Text}

theorem runs_of_none (h : ∀ c ∈ s, p c = false) : runs p s = [] := by
  induction s with
  | nil => rfl
  | cons c s ih =>
    obtain ⟨hc, hs⟩ := List.forall_mem_cons.1 h
    rw [runs, hc]
    exact ih hs

theorem forall_of_mem_consFirst {P : Char → Prop} {c : Char} {s : Text} {pieces : List Text}
    (hc : P c) (hpieces : ∀ piece ∈ pieces, ∀ d ∈ piece, P d) (h : s ∈ consFirst c pieces) :
    ∀ d ∈ s, P d := by
  cases pieces with
  | nil =>
    obtain rfl := List.mem_singleton.1 h
    exact List.forall_mem_singleton.2 hc
  | cons piece pieces =>
    obtain ⟨hpiece, hrest⟩ := List.forall_mem_cons.1 hpieces
    rcases List.mem_cons.1 h with rfl | hs
    · exact List.forall_mem_cons.2 ⟨hc, hpiece⟩
    · exact hrest s hs

theorem of_mem_runs {run : Text} (h : run ∈ runs p s) : ∀ c ∈ run, p c = true := by
  induction s generalizing run with
  | nil => cases h
  | cons d s ih =>
    rw [runs] at h
    split at h
    · next hd =>
      split at h
      · exact forall_of_mem_consFirst hd (fun _ => ih) h
      · rcases List.mem_cons.1 h with rfl | hmore
        · exact List.forall_mem_singleton.2 hd
        · exact ih hmore
    · exact ih h

theorem runs_ne_nil {c : Char} (hc : p c = true) (s : Text) : runs p (c :: s) ≠ [] := by
  rw [runs, if_pos hc]
  split
  · cases runs p s <;> simp [consFirst]
  · exact List.cons_ne_nil _ _

theorem consFirst_append {pieces : List Text} (h : pieces ≠ []) (c : Char) (more : List Text) :
    consFirst c (pieces ++ more) = consFirst c pieces ++ more := by
  obtain ⟨piece, pieces, rfl⟩ := List.exists_cons_of_ne_nil h
  rfl

/-- A text may be cut anywhere but inside a run. -/
theorem runs_append (h : s.getLast?.any p = false ∨ t.head?.any p = false) :
    runs p (s ++ t) = runs p s ++ runs p t := by
  induction s with
  | nil => rfl
  | cons c s ih =>
    cases s with
    | nil =>
      rw [List.singleton_append, runs, runs, runs]
      cases hc : p c with
      | false => rfl
      | true =>
        have hhead : t.head?.any p = false := h.resolve_left (by simp [hc])
        rw [hhead]
        rfl
    | cons d s =>
      rw [List.getLast?_cons_cons] at h
      rw [List.cons_append, runs, runs, ih h, List.cons_append, List.head?_cons, List.head?_cons]
      cases hc : p c with
      | false => rfl
      | true =>
        cases hd : p d with
        | false => simp [hd]
        | true => simpa [hd] using consFirst_append (runs_ne_nil hd s) c (runs p t)

theorem head?_any_of_none (h : ∀ c ∈ s, p c = false) : s.head?.any p = false :=
  (Option.any_eq_false _ _).2 fun c hc => h c (List.mem_of_mem_head? hc)

theorem getLast?_any_of_none (h : ∀ c ∈ s, p c = false) : s.getLast?.any p = false :=
  (Option.any_eq_false _ _).2 fun c hc => h c (List.mem_of_getLast? hc)

theorem runs_append_of_none {more : Text} (h : ∀ c ∈ more, p c = false) (s : Text) :
    runs p (s ++ more) = runs p s := by
  rw [runs_append (.inr (head?_any_of_none h)), runs_of_none h, List.append_nil]

/-- Text without the class keeps the runs in front of it and behind it apart. -/
theorem runs_append_gap_append {gap : Text} (hne : gap ≠ []) (h : ∀ c ∈ gap, p c = false)
    (s t : Text) : runs p (s ++ (gap ++ t)) = runs p s ++ runs p t := by
  have hhead : (gap ++ t).head?.any p = false := by
    obtain ⟨c, gap, rfl⟩ := List.exists_cons_of_ne_nil hne
    simpa using h c List.mem_cons_self
  rw [runs_append (.inr hhead), runs_append (.inl (getLast?_any_of_none h)), runs_of_none h,
    List.nil_append]

theorem runs_join {sep : Char} (h : p sep = false) (pieces : List Text) :
    runs p (join [sep] pieces) = pieces.flatMap (runs p) := by
  induction pieces with
  | nil => rfl
  | cons piece pieces ih =>
    cases pieces with
    | nil => simp [join]
    | cons next pieces =>
      rw [join] at ih
      rw [join, List.intercalate_cons_cons, List.append_assoc,
        runs_append_gap_append (List.cons_ne_nil sep []) (List.forall_mem_singleton.2 h), ih]
      exact List.flatMap_cons.symm

theorem runs_eq_self {run : Text} (hne : run ≠ []) (h : ∀ c ∈ run, p c = true) :
    runs p run = [run] := by
  induction run with
  | nil => exact absurd rfl hne
  | cons c run ih =>
    obtain ⟨hc, hrun⟩ := List.forall_mem_cons.1 h
    rw [runs, if_pos hc]
    cases run with
    | nil => rfl
    | cons d run =>
      have hd : p d = true := hrun d List.mem_cons_self
      rw [ih (List.cons_ne_nil d run) hrun, List.head?_cons, Option.any_some, if_pos hd]
      rfl

structure RunAt (p : Char → Bool) (s before run after : Text) : Prop where
  text_eq : s = before ++ (run ++ after)
  ne_nil : run ≠ []
  chars : ∀ c ∈ run, p c = true
  starts : before.getLast?.any p = false
  ends : after.head?.any p = false

/-- The text is made of these whole runs in order, with text without the class in front of each and
behind the last. -/
inductive MaximalRuns (p : Char → Bool) : Text → List Text → Prop
  | nil {s : Text} (h : ∀ c ∈ s, p c = false) : MaximalRuns p s []
  | cons {s gap run rest : Text} {found : List Text} (hgap : ∀ c ∈ gap, p c = false)
      (hrun : RunAt p s gap run rest) (hrest : MaximalRuns p rest found) :
      MaximalRuns p s (run :: found)

variable {before run after : Text}

theorem RunAt.runs_eq (h : RunAt p s before run after) :
    runs p s = runs p before ++ run :: runs p after := by
  rw [h.text_eq, runs_append (.inl h.starts), runs_append (.inr h.ends),
    runs_eq_self h.ne_nil h.chars, List.singleton_append]

theorem RunAt.mem_runs (h : RunAt p s before run after) : run ∈ runs p s := by
  rw [h.runs_eq]
  exact List.mem_append_right _ List.mem_cons_self

theorem MaximalRuns.runs_eq {found : List Text} (h : MaximalRuns p s found) :
    runs p s = found := by
  induction h with
  | nil h => exact runs_of_none h
  | cons hgap hrun _ ih => rw [hrun.runs_eq, runs_of_none hgap, ih, List.nil_append]

theorem MaximalRuns.cons_outside {c : Char} (hc : p c = false) {found : List Text}
    (h : MaximalRuns p s found) : MaximalRuns p (c :: s) found := by
  cases h with
  | nil h => exact .nil (List.forall_mem_cons.2 ⟨hc, h⟩)
  | @cons _ gap run rest _ hgap hrun hrest =>
    have hgap' : ∀ d ∈ c :: gap, p d = false := List.forall_mem_cons.2 ⟨hc, hgap⟩
    refine .cons hgap' { hrun with text_eq := ?_, starts := getLast?_any_of_none hgap' } hrest
    rw [hrun.text_eq, List.cons_append]

/-- A run that begins at the start of the text goes on from a character of the class. -/
theorem MaximalRuns.cons_inside {c : Char} (hc : p c = true) (hhead : s.head?.any p = true)
    {found : List Text} (h : MaximalRuns p s found) :
    MaximalRuns p (c :: s) (consFirst c found) := by
  cases h with
  | nil h =>
    rw [head?_any_of_none h] at hhead
    cases hhead
  | @cons _ gap run rest _ hgap hrun hrest =>
    cases gap with
    | cons d gap =>
      have hd : p d = false := hgap d List.mem_cons_self
      rw [hrun.text_eq, List.cons_append, List.head?_cons, Option.any_some, hd] at hhead
      cases hhead
    | nil =>
      exact .cons (List.forall_mem_nil _)
        ⟨congrArg (c :: ·) hrun.text_eq, List.cons_ne_nil c run,
          List.forall_mem_cons.2 ⟨hc, hrun.chars⟩, rfl, hrun.ends⟩ hrest

theorem maximalRuns_runs (p : Char → Bool) (s : Text) : MaximalRuns p s (runs p s) := by
  induction s with
  | nil => exact .nil (List.forall_mem_nil _)
  | cons c s ih =>
    rw [runs]
    cases hc : p c with
    | false => exact ih.cons_outside hc
    | true =>
      cases hhead : s.head?.any p with
      | false =>
        exact .cons (List.forall_mem_nil _)
          ⟨rfl, List.cons_ne_nil c [], List.forall_mem_singleton.2 hc, rfl, hhead⟩ ih
      | true => exact ih.cons_inside hc hhead

theorem maximalRuns_iff {found : List Text} : MaximalRuns p s found ↔ found = runs p s := by
  constructor
  · exact fun h => h.runs_eq.symm
  · rintro rfl
    exact maximalRuns_runs p s

theorem runs_eq_nil_iff : runs p s = [] ↔ ∀ c ∈ s, p c = false := by
  refine ⟨fun h => ?_, runs_of_none⟩
  have hruns := maximalRuns_runs p s
  rw [h] at hruns
  cases hruns with
  | nil h => exact h

theorem RunAt.head?_any (h : RunAt p s [] run after) : s.head?.any p = true := by
  obtain ⟨c, rest, hrun⟩ := List.exists_cons_of_ne_nil h.ne_nil
  rw [h.text_eq, hrun, List.nil_append, List.cons_append, List.head?_cons, Option.any_some]
  exact h.chars c (hrun ▸ List.mem_cons_self)

/-- A whole run is whole in any part of the text that holds it. -/
theorem RunAt.of_append {more : Text} (h : RunAt p s before run (after ++ more)) :
    RunAt p (before ++ (run ++ after)) before run after where
  text_eq := rfl
  ne_nil := h.ne_nil
  chars := h.chars
  starts := h.starts
  ends := by
    cases after with
    | nil => rfl
    | cons c after => exact h.ends

theorem MaximalRuns.exists_runAt {earlier later : List Text}
    (h : MaximalRuns p s (earlier ++ run :: later)) :
    ∃ before after, RunAt p s before run after ∧ runs p before = earlier := by
  induction earlier generalizing s with
  | nil =>
    cases h with
    | cons hgap hrun _ => exact ⟨_, _, hrun, runs_of_none hgap⟩
  | cons first earlier ih =>
    cases h with
    | @cons _ gap _ rest _ hgap hfirst hrest =>
      obtain ⟨before, after, hrun, hearlier⟩ := ih hrest
      have hne : before ≠ [] := by
        rintro rfl
        have hhead := hrun.head?_any
        rw [hfirst.ends] at hhead
        cases hhead
      have hfront : RunAt p (gap ++ (first ++ before)) gap first before :=
        (hrun.text_eq ▸ hfirst).of_append
      refine ⟨gap ++ (first ++ before), after, { hrun with text_eq := ?_, starts := ?_ }, ?_⟩
      · rw [hfirst.text_eq, hrun.text_eq, List.append_assoc, List.append_assoc]
      · rw [← List.append_assoc, List.getLast?_append_of_ne_nil _ hne]
        exact hrun.starts
      · rw [hfront.runs_eq, runs_of_none hgap, hearlier, List.nil_append]

/-- A run that is found stands in the text behind those that are found before it. -/
theorem exists_runAt {earlier later : List Text} (h : runs p s = earlier ++ run :: later) :
    ∃ before after, RunAt p s before run after ∧ runs p before = earlier :=
  MaximalRuns.exists_runAt (h ▸ maximalRuns_runs p s)

theorem nil_not_mem_runs (p : Char → Bool) (s : Text) : [] ∉ runs p s := by
  intro h
  obtain ⟨earlier, later, hruns⟩ := List.append_of_mem h
  obtain ⟨before, after, hrun, -⟩ := exists_runAt hruns
  exact hrun.ne_nil rfl

namespace RunAt

variable {before' run' after' : Text}

/-- A run that begins earlier is one of the runs in front. -/
theorem mem_runs_before (h : RunAt p s before run after) (h' : RunAt p s before' run' after')
    (hlt : before'.length < before.length) : run' ∈ runs p before := by
  have htext := h'.text_eq.symm.trans h.text_eq
  rw [List.append_eq_append_iff] at htext
  rcases htext with ⟨between, rfl, hbehind⟩ | ⟨between, rfl, -⟩
  · have hne : between ≠ [] := by
      rintro rfl
      simp at hlt
    have hlast := h.starts
    rw [List.getLast?_append_of_ne_nil _ hne] at hlast
    rcases List.append_eq_append_iff.1 hbehind with ⟨rest, rfl, rfl⟩ | ⟨rest, rfl, -⟩
    · exact h'.of_append.mem_runs
    · -- the last character in front of the later run would be one of the earlier run
      have hmem := h'.chars _ (List.mem_append_left rest (List.getLast_mem hne))
      rw [List.getLast?_eq_some_getLast hne, Option.any_some, hmem] at hlast
      cases hlast
  · rw [List.length_append] at hlt
    omega

theorem takeWhile_eq (h : RunAt p s before run after) : (run ++ after).takeWhile p = run := by
  have hafter : after.takeWhile p = [] := by
    cases after with
    | nil => rfl
    | cons c after => exact List.takeWhile_cons_of_neg (by simpa using h.ends)
  rw [List.takeWhile_append_of_pos h.chars, hafter, List.append_nil]

/-- At most one whole run begins at a place. -/
theorem run_eq (h : RunAt p s before run after) (h' : RunAt p s before' run' after')
    (hlength : before.length = before'.length) : run = run' := by
  have htext := h.text_eq.symm.trans h'.text_eq
  obtain ⟨-, hbehind⟩ := List.append_inj htext hlength
  rw [← h.takeWhile_eq, hbehind, h'.takeWhile_eq]

variable {q : Char → Bool} {front left right back : Text}

/-- A run of one class within a run of another is whole there. -/
theorem within (h : RunAt q s (front ++ left) run after)
    (h' : RunAt p s front (left ++ (run ++ right)) back) :
    RunAt q (left ++ (run ++ right)) left run right where
  text_eq := rfl
  ne_nil := h.ne_nil
  chars := h.chars
  starts := by
    have hstarts := h.starts
    by_cases hleft : left = []
    · rw [hleft]
      rfl
    · rwa [List.getLast?_append_of_ne_nil _ hleft] at hstarts
  ends := by
    have htext := h.text_eq.symm.trans h'.text_eq
    have hafter : after = right ++ back := by
      simpa only [List.append_assoc, List.append_cancel_left_eq] using htext
    cases right with
    | nil => rfl
    | cons c right =>
      have hends := h.ends
      rw [hafter] at hends
      exact hends

/-- A whole run of a smaller class within a whole run is whole in the text. -/
theorem of_within (hclass : ∀ c, q c = true → p c = true)
    (h : RunAt p s front run back) (h' : RunAt q run left run' right) :
    RunAt q s (front ++ left) run' (right ++ back) := by
  have houtside {c? : Option Char} (hc : c?.any p = false) : c?.any q = false := by
    rw [Option.any_eq_false] at hc ⊢
    intro c hsome
    exact Bool.eq_false_iff.2 fun hqc => absurd (hclass c hqc) (by simp [hc c hsome])
  refine ⟨?_, h'.ne_nil, h'.chars, ?_, ?_⟩
  · rw [h.text_eq, h'.text_eq]
    simp only [List.append_assoc]
  · by_cases hleft : left = []
    · rw [hleft, List.append_nil]
      exact houtside h.starts
    · rw [List.getLast?_append_of_ne_nil _ hleft]
      exact h'.starts
  · cases right with
    | nil => exact houtside h.ends
    | cons c right => exact h'.ends

end RunAt

end RdStubs.Text
