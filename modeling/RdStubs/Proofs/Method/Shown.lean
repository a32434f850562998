import RdStubs.Proofs.Method.Formals

/-!
# Parameter lists as they are shown

What is taken off a parameter list is found by its place. The brace of the body goes with all blanks
behind it when it is the last thing in the text and no earlier line ends in a brace. The list is cut
in front of the first run of word characters that is directly followed by `@`, and the blanks before
that run go too, so no such run is left in what is shown.
-/

namespace RdStubs.Formals

open Text

/-- Some brace has only blanks between it and the end of a line, this one or a later one. -/
def HasBodyBrace (s : Text) : Prop :=
  ∃ (before : Text) (g : Gap) (rest : Text), s = before ++ '\x7b' :: (g ++ rest) ∧
    (rest = [] ∨ rest.head? = some '\n')

theorem HasBodyBrace.append_left {s : Text} (h : HasBodyBrace s) (front : Text) :
    HasBodyBrace (front ++ s) := by
  obtain ⟨before, g, rest, rfl, hrest⟩ := h
  exact ⟨front ++ before, g, rest, (List.append_assoc _ _ _).symm, hrest⟩

theorem exists_of_afterBodyBrace? {s t : Text} (h : afterBodyBrace? s = some t) :
    ∃ (g : Gap) (rest : Text), s = '\x7b' :: (g ++ rest) ∧
      (rest = [] ∨ rest.head? = some '\n') := by
  cases s with
  | nil => cases h
  | cons c s =>
    by_cases hc : c = '\x7b'
    · subst hc
      rw [afterBodyBrace?] at h
      split at h
      · next hend =>
        have hblank : ∀ c ∈ s, isBlank c = true := List.dropWhile_eq_nil_iff.1 hend
        exact ⟨⟨s, hblank⟩, [], by rw [List.append_nil], .inl rfl⟩
      · -- the blanks cross a line break: the brace ends the line in front of it
        have hbreak : '\n' ∈ s.takeWhile isBlank := by
          by_contra hno
          rw [fromLastBreak?_eq_none hno] at h
          cases h
        obtain ⟨g, later, hrun⟩ := List.append_of_mem hbreak
        have hblank : ∀ c ∈ g, isBlank c = true := fun c hc =>
          List.mem_takeWhile_imp (p := isBlank) (l := s)
            (hrun ▸ List.mem_append_left _ hc)
        refine ⟨⟨g, hblank⟩, '\n' :: (later ++ dropBlank s), ?_, .inr rfl⟩
        have hs := List.takeWhile_append_dropWhile (p := isBlank) (l := s)
        rw [hrun, List.append_assoc] at hs
        exact congrArg ('\x7b' :: ·) hs.symm
    · rw [afterBodyBrace?_of_ne hc] at h
      cases h

theorem eraseFirst_of_not_hasBodyBrace {s : Text} (h : ¬ HasBodyBrace s) :
    eraseFirst afterBodyBrace? s = s := by
  induction s with
  | nil => rfl
  | cons c s ih =>
    have hrest : ¬ HasBodyBrace s := fun hs => h (hs.append_left [c])
    rw [eraseFirst, ih hrest]
    cases hafter : afterBodyBrace? (c :: s) with
    | none => rfl
    | some t =>
      obtain ⟨g, rest, hs, hend⟩ := exists_of_afterBodyBrace? hafter
      exact absurd ⟨[], g, rest, hs, hend⟩ h

/-- A brace at the end of the text goes if no earlier one ends a line. -/
theorem eraseFirst_last_brace {before : Text} {g : Gap}
    (h : ∀ (front : Text) (g' : Gap) (rest : Text),
      before ≠ front ++ '\x7b' :: (g' ++ '\n' :: rest)) :
    eraseFirst afterBodyBrace? (before ++ '\x7b' :: g) = before := by
  induction before with
  | nil =>
    have hblank : dropBlank g.1 = [] := List.dropWhile_eq_nil_iff.2 g.2
    rw [List.nil_append, eraseFirst, afterBodyBrace?]
    simp only [hblank, if_true, Option.getD_some]
  | cons c before ih =>
    have hnone : afterBodyBrace? (c :: (before ++ '\x7b' :: g)) = none := by
      by_contra hsome
      obtain ⟨t, ht⟩ := Option.ne_none_iff_exists'.1 hsome
      obtain ⟨g', rest, htext, hend⟩ := exists_of_afterBodyBrace? ht
      obtain ⟨rfl, hbehind⟩ := List.cons.inj htext
      obtain ⟨between, rfl, rfl⟩ := exists_append_of_gap_append (by decide) hbehind
      -- the last brace stands behind the blanks, so a line break has to end them
      cases between with
      | nil => simp at hend
      | cons d between =>
        obtain rfl : d = '\n' := by simpa using hend
        exact h [] g' between rfl
    rw [List.cons_append, eraseFirst, hnone, Option.getD_none,
      ih fun front g' rest hbefore => h (c :: front) g' rest (congrArg (c :: ·) hbefore)]

/-- Some word character is directly followed by `@`. -/
def HasSlotAccess (s : Text) : Prop :=
  ∃ (before : Text) (c : Char) (after : Text), isWordChar c = true ∧
    s = before ++ c :: '@' :: after

/-- The first run of word characters that is directly followed by `@` is `word`; it stands behind
`front` and the gap `g`. -/
structure FirstAccess (s front : Text) (g : Gap) (word rest : Text) : Prop where
  text_eq : s = front ++ (g ++ (word ++ '@' :: rest))
  ne_nil : word ≠ []
  chars : ∀ c ∈ word, isWordChar c = true
  whole : ∀ c, (front ++ g.1).getLast? = some c → isWordChar c = false
  first : ¬ HasSlotAccess (front ++ (g ++ word))
  tight : ∀ c, front.getLast? = some c → isBlank c = false

theorem HasSlotAccess.append_right {s : Text} (h : HasSlotAccess s) (more : Text) :
    HasSlotAccess (s ++ more) := by
  obtain ⟨before, c, after, hc, rfl⟩ := h
  exact ⟨before, c, after ++ more, hc, by simp⟩

theorem startsSlotAccess_iff {s : Text} :
    startsSlotAccess s = true ↔ ∃ (g : Gap) (word rest : Text),
      s = g ++ (word ++ '@' :: rest) ∧ word ≠ [] ∧ ∀ c ∈ word, isWordChar c = true := by
  simp only [startsSlotAccess, Bool.and_eq_true, decide_eq_true_eq]
  constructor
  · rintro ⟨hword, hat⟩
    obtain ⟨g, hg⟩ := exists_gap_append_dropBlank s
    obtain ⟨rest, hrest⟩ := List.head?_eq_some_iff.1 hat
    have hsplit := List.takeWhile_append_dropWhile (p := isWordChar) (l := dropBlank s)
    refine ⟨g, (dropBlank s).takeWhile isWordChar, rest, ?_, ?_, fun c => List.mem_takeWhile_imp⟩
    · rw [← hrest, hsplit, hg]
    · intro hnil
      rw [hnil, List.nil_append, hrest] at hsplit
      rw [← hsplit, List.head?_cons, Option.any_some] at hword
      exact absurd hword (by decide)
  · rintro ⟨g, word, rest, rfl, hne, hchars⟩
    obtain ⟨c, more, rfl⟩ := List.exists_cons_of_ne_nil hne
    have hc : isBlank c = false := by
      by_contra hblank
      have hnot := isWordChar_of_isBlank (by simpa using hblank)
      rw [hchars c List.mem_cons_self] at hnot
      cases hnot
    have hstart : dropBlank (g ++ (c :: more ++ '@' :: rest)) = c :: more ++ '@' :: rest := by
      rw [dropBlank_gap_append, List.cons_append, dropBlank_cons hc]
    have hat : isWordChar '@' = false := by decide
    rw [hstart, List.dropWhile_append_of_pos hchars, List.dropWhile_cons_of_neg (by simp [hat])]
    exact ⟨by simpa using hchars c List.mem_cons_self, rfl⟩

/-- A cut is behind the text, or in front of the first rest at which it stops. -/
theorem cutAt_cases (stop : Text → Bool) (s : Text) :
    (cutAt stop s = s ∧ ∀ before c after, s = before ++ c :: after → stop (c :: after) = false) ∨
      ∃ tail, s = cutAt stop s ++ tail ∧ stop tail = true ∧
        ∀ before c after, cutAt stop s = before ++ c :: after →
          stop (c :: (after ++ tail)) = false := by
  induction s with
  | nil => exact .inl ⟨rfl, by simp⟩
  | cons c s ih =>
    rw [cutAt]
    cases hstop : stop (c :: s) with
    | true =>
      rw [if_pos rfl]
      exact .inr ⟨c :: s, rfl, hstop, by simp⟩
    | false =>
      rw [if_neg (by simp)]
      rcases ih with ⟨hcut, hnone⟩ | ⟨tail, hs, htail, hnone⟩
      · refine .inl ⟨by rw [hcut], fun before d after htext => ?_⟩
        cases before with
        | nil =>
          obtain ⟨rfl, rfl⟩ := List.cons.inj htext
          exact hstop
        | cons b before => exact hnone before d after (List.cons.inj htext).2
      · refine .inr ⟨tail, congrArg (c :: ·) hs, htail, fun before d after htext => ?_⟩
        cases before with
        | nil =>
          obtain ⟨rfl, rfl⟩ := List.cons.inj htext
          rwa [← hs]
        | cons b before => exact hnone before d after (List.cons.inj htext).2

theorem startsSlotAccess_cons {c : Char} (h : isWordChar c = true) (rest : Text) :
    startsSlotAccess (c :: '@' :: rest) = true :=
  startsSlotAccess_iff.2 ⟨⟨[], List.forall_mem_nil _⟩, [c], rest, rfl, List.cons_ne_nil c [],
    List.forall_mem_singleton.2 h⟩

/-- In front of a run that is cut off no word character is followed by `@`, nor is there one in the
run itself. -/
theorem not_hasSlotAccess_of_cut {front word rest : Text} {g : Gap}
    (hchars : ∀ c ∈ word, isWordChar c = true)
    (hnone : ∀ before c after, front = before ++ c :: after →
      startsSlotAccess (c :: (after ++ (g ++ (word ++ '@' :: rest)))) = false) :
    ¬ HasSlotAccess (front ++ (g ++ word)) := by
  rintro ⟨before, c, after, hc, htext⟩
  have hat : '@' ∉ g.1 ++ word := by
    rw [List.mem_append, not_or]
    exact ⟨not_mem_gap (by decide) g, fun hmem => absurd (hchars '@' hmem) (by decide)⟩
  rcases List.append_eq_append_iff.1 htext with ⟨z, -, hz⟩ | ⟨z, hfront, hz⟩
  · exact hat (hz ▸ List.mem_append_right z (by simp))
  · cases z with
    | nil => exact hat (hz ▸ by simp)
    | cons d z =>
      obtain ⟨rfl, hz⟩ := List.cons.inj hz
      have hearlier := hnone before c z hfront
      have hstop : c :: (z ++ (g ++ (word ++ '@' :: rest))) =
          c :: '@' :: (after ++ '@' :: rest) := by
        simpa using congrArg (c :: · ++ '@' :: rest) hz.symm
      rw [hstop, startsSlotAccess_cons hc] at hearlier
      cases hearlier

theorem firstAccess_of_cut {front tail : Text} (htail : startsSlotAccess tail = true)
    (hnone : ∀ before c after, front = before ++ c :: after →
      startsSlotAccess (c :: (after ++ tail)) = false) :
    ∃ g word rest, FirstAccess (front ++ tail) front g word rest := by
  obtain ⟨g, word, rest, rfl, hne, hchars⟩ := startsSlotAccess_iff.1 htail
  have hlast {c : Char} (hc : front.getLast? = some c) :
      ¬ startsSlotAccess (c :: (g ++ (word ++ '@' :: rest))) = true := by
    obtain ⟨before, hfront⟩ := List.getLast?_eq_some_iff.1 hc
    exact Bool.eq_false_iff.1 (hnone before c [] hfront)
  refine ⟨g, word, rest, rfl, hne, hchars, fun c hc => ?_,
    not_hasSlotAccess_of_cut hchars hnone, fun c hc => ?_⟩
  · by_contra hword
    rw [Bool.not_eq_false] at hword
    rcases getLast?_append_gap hc with ⟨hg, hc⟩ | hblank
    · refine hlast hc (startsSlotAccess_iff.2 ⟨g, c :: word, rest, ?_, List.cons_ne_nil c word,
        List.forall_mem_cons.2 ⟨hword, hchars⟩⟩)
      rw [hg]
      rfl
    · rw [isWordChar_of_isBlank hblank] at hword
      cases hword
  · by_contra hblank
    rw [Bool.not_eq_false] at hblank
    exact hlast hc (startsSlotAccess_iff.2
      ⟨⟨c :: g, List.forall_mem_cons.2 ⟨hblank, g.2⟩⟩, word, rest, rfl, hne, hchars⟩)

theorem cutAt_startsSlotAccess_cases (s : Text) :
    (¬ HasSlotAccess s ∧ cutAt startsSlotAccess s = s) ∨
      ∃ g word rest, FirstAccess s (cutAt startsSlotAccess s) g word rest := by
  rcases cutAt_cases startsSlotAccess s with ⟨hcut, hnone⟩ | ⟨tail, hs, htail, hnone⟩
  · refine .inl ⟨?_, hcut⟩
    rintro ⟨before, c, after, hc, htext⟩
    have hstop := hnone before c ('@' :: after) htext
    rw [startsSlotAccess_cons hc] at hstop
    cases hstop
  · right
    have hfirst := firstAccess_of_cut htail hnone
    rwa [← hs] at hfirst

/-- What is left of a list in front of its first slot access, if there is one. -/
def Kept (s shown : Text) : Prop :=
  ¬ HasSlotAccess s ∧ shown = trimEnd s ∨ ∃ g word rest, FirstAccess s shown g word rest

structure Shown (s : Text) : Prop where
  opens : s.head? = some '('
  tight : ∀ c, s.getLast? = some c → isBlank c = false
  plain : ¬ HasSlotAccess s

theorem kept_clean (s : Text) : Kept (eraseFirst afterBodyBrace? s) (clean s) := by
  rcases cutAt_startsSlotAccess_cases (eraseFirst afterBodyBrace? s) with
    ⟨hnone, hcut⟩ | ⟨g, word, rest, hfirst⟩
  · exact .inl ⟨hnone, by rw [clean, hcut]⟩
  · refine .inr ⟨g, word, rest, ?_⟩
    rwa [clean, trimEnd_eq_self hfirst.tight]

theorem Kept.not_hasSlotAccess {s shown : Text} (h : Kept s shown) : ¬ HasSlotAccess shown := by
  rcases h with ⟨hnone, rfl⟩ | ⟨g, word, rest, hfirst⟩
  · obtain ⟨g, hg⟩ := exists_trimEnd_append_gap s
    intro haccess
    exact hnone (hg ▸ haccess.append_right g)
  · exact fun haccess => hfirst.first (haccess.append_right _)

theorem clean_cons_paren (s : Text) : ∃ rest, clean ('(' :: s) = trimEnd ('(' :: rest) := by
  have hbrace : eraseFirst afterBodyBrace? ('(' :: s) = '(' :: eraseFirst afterBodyBrace? s := by
    rw [eraseFirst, afterBodyBrace?_of_ne (by decide), Option.getD_none]
  have haccess (t : Text) : startsSlotAccess ('(' :: t) = false := by
    have hstart : dropBlank ('(' :: t) = '(' :: t := dropBlank_cons (by decide) t
    have hparen : isWordChar '(' = false := by decide
    simp [startsSlotAccess, hstart, hparen]
  refine ⟨cutAt startsSlotAccess (eraseFirst afterBodyBrace? s), ?_⟩
  rw [clean, hbrace, cutAt, haccess, if_neg (by simp)]

theorem shown_clean {s : Text} (h : s.head? = some '(') : Shown (clean s) := by
  obtain ⟨list, rfl⟩ := List.head?_eq_some_iff.1 h
  obtain ⟨rest, hrest⟩ := clean_cons_paren list
  have hparen : Tight ['('] := ⟨⟨'(', rfl, by decide⟩, '(', rfl, by decide⟩
  have hopens : trimEnd ('(' :: rest) = '(' :: trimEnd rest := hparen.trimEnd_append rest
  obtain ⟨c, hlast, hc⟩ := (tight_trimEnd_cons (c := '(') (by decide) rest).last
  refine ⟨by rw [hrest, hopens, List.head?_cons], fun d hd => ?_, (kept_clean _).not_hasSlotAccess⟩
  rw [hrest, hlast] at hd
  rwa [← Option.some.inj hd]

end RdStubs.Formals
