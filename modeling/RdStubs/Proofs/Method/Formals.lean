import RdStubs.Method.Formals
import RdStubs.Proofs.Text.Blank

/-!
# Blanks behind a parameter list

How a parameter list is shown does not depend on the blanks behind it, as long as the list itself is
on one line: a brace is the last of its line with them or without them, and no slot access begins or
ends in a blank.
-/

namespace RdStubs.Formals

open Text

theorem fromLastBreak?_eq_none {s : Text} (h : '\n' ∉ s) : fromLastBreak? s = none := by
  induction s with
  | nil => rfl
  | cons c s ih =>
    obtain ⟨hc, hs⟩ := not_or.1 (mt List.mem_cons.2 h)
    rw [fromLastBreak?, ih hs]
    exact if_neg (Ne.symm hc)

theorem afterBodyBrace?_of_ne {c : Char} (h : c ≠ '\x7b') (s : Text) :
    afterBodyBrace? (c :: s) = none := by
  unfold afterBodyBrace?
  split
  · next heq => exact absurd (List.cons.inj heq).1 h
  · rfl

/-- On one line the brace goes exactly when nothing but blanks stand behind it. -/
theorem afterBodyBrace?_brace_append_gap {s : Text} (h : '\n' ∉ s) (g : Gap) :
    afterBodyBrace? ('\x7b' :: (s ++ g)) = if dropBlank s = [] then some [] else none := by
  obtain ⟨before, hs⟩ := exists_gap_append_dropBlank s
  rw [afterBodyBrace?]
  cases hrest : dropBlank s with
  | nil =>
    have hnil : dropBlank (s ++ g) = [] := by
      rw [← hs, hrest, List.append_nil, dropBlank_gap_append]
      exact List.dropWhile_eq_nil_iff.2 g.2
    rw [hnil, if_pos rfl, if_pos rfl]
  | cons c rest =>
    have hblank : isBlank c = false := isBlank_of_dropBlank hrest
    have htext : s ++ g.1 = before ++ c :: (rest ++ g) := by
      rw [← hs, hrest, List.append_assoc, List.cons_append]
    have htake : (s ++ g.1).takeWhile isBlank = before := by
      rw [htext, List.takeWhile_append_of_pos before.2,
        List.takeWhile_cons_of_neg (by simp [hblank]), List.append_nil]
    have hbreak : '\n' ∉ before.1 := fun hmem => h (hs ▸ List.mem_append_left _ hmem)
    have hdrop : dropBlank (s ++ g) = c :: (rest ++ g) := by
      rw [htext, dropBlank_gap_append, dropBlank_cons hblank]
    rw [hdrop, htake, fromLastBreak?_eq_none hbreak]
    rfl

theorem afterBodyBrace?_append_gap {c : Char} {s : Text} (h : '\n' ∉ s) (g : Gap) :
    afterBodyBrace? (c :: (s ++ g)) = afterBodyBrace? (c :: s) := by
  by_cases hc : c = '\x7b'
  · subst hc
    have hnone := afterBodyBrace?_brace_append_gap h ⟨[], List.forall_mem_nil _⟩
    rw [List.append_nil] at hnone
    rw [afterBodyBrace?_brace_append_gap h, hnone]
  · rw [afterBodyBrace?_of_ne hc, afterBodyBrace?_of_ne hc]

theorem eraseFirst_append_gap {s : Text} (h : '\n' ∉ s) (g : Gap) :
    ∃ g' : Gap, eraseFirst afterBodyBrace? (s ++ g) = eraseFirst afterBodyBrace? s ++ g' := by
  induction s with
  | nil =>
    refine ⟨g, ?_⟩
    obtain ⟨g, hg⟩ := g
    induction g with
    | nil => rfl
    | cons c g ih =>
      obtain ⟨hc, hg⟩ := List.forall_mem_cons.1 hg
      have hne : c ≠ '\x7b' := by
        rintro rfl
        exact absurd hc (by decide)
      have hrest := ih hg
      simp only [List.nil_append, eraseFirst, afterBodyBrace?_of_ne hne, Option.getD_none]
        at hrest ⊢
      rw [hrest]
  | cons c s ih =>
    have hs : '\n' ∉ s := fun hmem => h (List.mem_cons_of_mem c hmem)
    obtain ⟨g', hg'⟩ := ih hs
    rw [List.cons_append, eraseFirst, eraseFirst, afterBodyBrace?_append_gap hs]
    cases afterBodyBrace? (c :: s) with
    | none => exact ⟨g', congrArg (c :: ·) hg'⟩
    | some rest => exact ⟨⟨[], List.forall_mem_nil _⟩, (List.append_nil _).symm⟩

theorem isWordChar_of_isBlank {c : Char} (h : isBlank c = true) : isWordChar c = false := by
  have hall : (blanks.all fun c => !isWordChar c) = true := by decide
  simpa using List.all_eq_true.1 hall c (List.contains_iff_mem.1 h)

theorem head?_append_gap {c : Char} (h : isBlank c = false) (s : Text) (g : Gap) :
    (s ++ g.1).head? = some c ↔ s.head? = some c := by
  cases s with
  | nil =>
    have hgap : g.1.head? ≠ some c := by
      intro hhead
      rw [g.2 c (List.mem_of_mem_head? hhead)] at h
      exact absurd h (by decide)
    simpa using hgap
  | cons d s => rfl

theorem dropWhile_append_gap (s : Text) (g : Gap) :
    ∃ g' : Gap, (s ++ g.1).dropWhile isWordChar = s.dropWhile isWordChar ++ g' := by
  rw [List.dropWhile_append]
  split
  · next hempty =>
    refine ⟨⟨g.1.dropWhile isWordChar, ?_⟩, ?_⟩
    · exact fun c hc => g.2 c (List.dropWhile_subset _ hc)
    · rw [List.isEmpty_iff.1 hempty]
      rfl
  · exact ⟨g, rfl⟩

theorem startsSlotAccess_append_gap (s : Text) (g : Gap) :
    startsSlotAccess (s ++ g) = startsSlotAccess s := by
  obtain ⟨g', hword⟩ := dropBlank_append_gap s g
  obtain ⟨g'', hrest⟩ := dropWhile_append_gap (dropBlank s) g'
  have hat := head?_append_gap (c := '@') (by decide) ((dropBlank s).dropWhile isWordChar) g''
  have hhead : (dropBlank s ++ g'.1).head?.any isWordChar =
      (dropBlank s).head?.any isWordChar := by
    cases hs : dropBlank s with
    | nil =>
      cases hg : g'.1 with
      | nil => rfl
      | cons c g => simp [isWordChar_of_isBlank (g'.2 c (by simp [hg]))]
    | cons c rest => rfl
  unfold startsSlotAccess
  simp only [hword, hrest, hat, hhead]

theorem cutAt_isPrefix (stop : Text → Bool) (s : Text) : cutAt stop s <+: s := by
  induction s with
  | nil => exact List.prefix_refl _
  | cons c s ih =>
    rw [cutAt]
    split
    · exact List.nil_prefix
    · exact List.cons_prefix_cons.2 ⟨rfl, ih⟩

theorem cutAt_append_gap (s : Text) (g : Gap) :
    ∃ g' : Gap, cutAt startsSlotAccess (s ++ g) = cutAt startsSlotAccess s ++ g' := by
  induction s with
  | nil =>
    exact ⟨⟨cutAt startsSlotAccess g, fun c hc => g.2 c ((cutAt_isPrefix _ _).subset hc)⟩, rfl⟩
  | cons c s ih =>
    obtain ⟨g', hg'⟩ := ih
    rw [List.cons_append, cutAt, cutAt, ← List.cons_append, startsSlotAccess_append_gap]
    cases startsSlotAccess (c :: s) with
    | true => exact ⟨⟨[], List.forall_mem_nil _⟩, rfl⟩
    | false => exact ⟨g', congrArg (c :: ·) hg'⟩

/-- Blanks behind a list on one line are not shown. -/
theorem clean_append_gap {s : Text} (h : '\n' ∉ s) (g : Gap) : clean (s ++ g) = clean s := by
  obtain ⟨g', hbrace⟩ := eraseFirst_append_gap h g
  obtain ⟨g'', hslot⟩ := cutAt_append_gap (eraseFirst afterBodyBrace? s) g'
  rw [clean, hbrace, hslot, trimEnd_append_gap, clean]

end RdStubs.Formals
