import Mathlib.Data.List.Forall2
import RdStubs.Proofs.Text.Blank

/-!
# Texts made of lines and of pieces

`unlines` puts a line break behind every line. It turns appended lists of lines into appended
texts, and taking its text apart gives the lines again, but for a carriage return at the end of a
line: lines that a text is written with are read clipped. Splitting a text always leaves a first
piece.
-/

namespace RdStubs.Text

def unlines (lines : List Text) : Text := lines.flatMap (· ++ ['\n'])

@[simp] theorem unlines_nil : unlines [] = [] := rfl

@[simp] theorem unlines_cons (line : Text) (lines : List Text) :
    unlines (line :: lines) = line ++ '\n' :: unlines lines := by
  simp [unlines]

@[simp] theorem unlines_append (lines more : List Text) :
    unlines (lines ++ more) = unlines lines ++ unlines more := List.flatMap_append

theorem join_break {pieces : List Text} (h : pieces ≠ []) :
    join ['\n'] pieces ++ ['\n'] = unlines pieces := by
  induction pieces with
  | nil => exact absurd rfl h
  | cons piece pieces ih =>
    cases pieces with
    | nil => simp [join]
    | cons next pieces =>
      have hnext := ih (by simp)
      simp only [join] at hnext
      simp [join, List.intercalate_cons_cons, hnext]

theorem mem_join {c : Char} {sep : Text} {pieces : List Text} (h : c ∈ join sep pieces) :
    c ∈ sep ∨ ∃ piece ∈ pieces, c ∈ piece := by
  induction pieces with
  | nil => simp [join] at h
  | cons piece pieces ih =>
    cases pieces with
    | nil => exact .inr ⟨piece, List.mem_cons_self, by simpa [join] using h⟩
    | cons next pieces =>
      rw [join, List.intercalate_cons_cons, List.append_assoc, List.mem_append,
        List.mem_append] at h
      rcases h with hpiece | hsep | hrest
      · exact .inr ⟨piece, List.mem_cons_self, hpiece⟩
      · exact .inl hsep
      · rcases ih hrest with hsep | ⟨other, hother, hc⟩
        · exact .inl hsep
        · exact .inr ⟨other, List.mem_cons_of_mem piece hother, hc⟩

theorem join_append {sep : Text} {pieces more : List Text} (h : pieces ≠ []) (hmore : more ≠ []) :
    join sep (pieces ++ more) = join sep pieces ++ (sep ++ join sep more) := by
  induction pieces with
  | nil => exact absurd rfl h
  | cons piece pieces ih =>
    cases pieces with
    | nil =>
      obtain ⟨first, more, rfl⟩ := List.exists_cons_of_ne_nil hmore
      simp [join, List.intercalate_cons_cons]
    | cons next pieces =>
      have hrest := ih (List.cons_ne_nil next pieces)
      simp only [join, List.cons_append] at hrest
      simp only [join, List.cons_append, List.intercalate_cons_cons, hrest, List.append_assoc]

theorem join_singleton (sep s : Text) : join sep [s] = s := List.intercalate_singleton

/-- Joined lists may be joined again, where one that comes to nothing leaves no separator. -/
theorem join_append_eq_join {sep : Text} {pieces more : List Text}
    (h : join sep pieces = [] → pieces = []) (hmore : join sep more = [] → more = []) :
    join sep (pieces ++ more) = join sep ([join sep pieces, join sep more].filter (· ≠ [])) := by
  have hnil : join sep [] = [] := rfl
  by_cases hpieces : pieces = []
  · subst hpieces
    by_cases hrest : more = []
    · subst hrest
      rfl
    · rw [hnil, List.nil_append, List.filter_cons_of_neg (by simp),
        List.filter_cons_of_pos (by simpa using mt hmore hrest), List.filter_nil, join_singleton]
  · have hfirst : join sep pieces ≠ [] := mt h hpieces
    by_cases hrest : more = []
    · subst hrest
      rw [hnil, List.append_nil, List.filter_cons_of_pos (by simpa using hfirst),
        List.filter_cons_of_neg (by simp), List.filter_nil, join_singleton]
    · have hpair : join sep [join sep pieces, join sep more] =
          join sep pieces ++ (sep ++ join sep more) := by
        simp [join, List.intercalate_cons_cons]
      rw [join_append hpieces hrest, List.filter_cons_of_pos (by simpa using hfirst),
        List.filter_cons_of_pos (by simpa using mt hmore hrest), List.filter_nil, hpair]

/-- A line without the carriage return that a line break may have in front of it. -/
def dropReturn (line : Text) : Text := if line.getLast? = some '\r' then line.dropLast else line

theorem dropReturn_cons {c : Char} {line : Text} (h : line ≠ [] ∨ c ≠ '\r') :
    dropReturn (c :: line) = c :: dropReturn line := by
  cases line with
  | nil => simpa [dropReturn] using h
  | cons d line =>
    unfold dropReturn
    rw [List.getLast?_cons_cons]
    split <;> simp

theorem eq_dropReturn_or (line : Text) :
    line = dropReturn line ∨ line = dropReturn line ++ ['\r'] := by
  unfold dropReturn
  split
  · next hlast =>
    obtain ⟨rest, rfl⟩ := List.getLast?_eq_some_iff.1 hlast
    exact .inr (by rw [List.dropLast_concat])
  · exact .inl rfl

theorem lines_cons_of_ne {c : Char} {s : Text} (hc : c ≠ '\n')
    (h : c = '\r' → s.head? ≠ some '\n') : lines (c :: s) = consFirst c (lines s) := by
  rw [lines]
  · exact hc
  · rintro s' rfl rfl
    exact h rfl rfl

theorem lines_append_break {line : Text} (h : '\n' ∉ line) (s : Text) :
    lines (line ++ '\n' :: s) = dropReturn line :: lines s := by
  induction line with
  | nil => rfl
  | cons c line ih =>
    obtain ⟨hc, hline⟩ := not_or.1 (mt List.mem_cons.2 h)
    by_cases hother : line ≠ [] ∨ c ≠ '\r'
    · have hlines : lines (c :: (line ++ '\n' :: s)) = consFirst c (lines (line ++ '\n' :: s)) := by
        apply lines_cons_of_ne (Ne.symm hc)
        rintro rfl
        obtain ⟨d, line, rfl⟩ := List.exists_cons_of_ne_nil (hother.resolve_right (by simp))
        simpa using fun hd : d = '\n' => hline (by simp [hd])
      rw [List.cons_append, hlines, ih hline, dropReturn_cons hother]
      rfl
    · -- the line is a carriage return, which goes with the break
      simp only [ne_eq, not_or, Decidable.not_not] at hother
      obtain ⟨rfl, rfl⟩ := hother
      rfl

theorem lines_of_no_break {line : Text} (h : '\n' ∉ line) (hne : line ≠ []) :
    lines line = [line] := by
  induction line with
  | nil => exact absurd rfl hne
  | cons c line ih =>
    obtain ⟨hc, hline⟩ := not_or.1 (mt List.mem_cons.2 h)
    rw [lines_cons_of_ne (Ne.symm hc)]
    · cases line with
      | nil => rfl
      | cons d line =>
        rw [ih hline (List.cons_ne_nil d line)]
        rfl
    · intro _ hhead
      exact hline (List.mem_of_mem_head? hhead)

theorem lines_unlines_append {before : List Text} (h : ∀ line ∈ before, '\n' ∉ line) (s : Text) :
    lines (unlines before ++ s) = before.map dropReturn ++ lines s := by
  induction before with
  | nil => rfl
  | cons line before ih =>
    obtain ⟨hline, hbefore⟩ := List.forall_mem_cons.1 h
    rw [unlines_cons, List.append_assoc, List.cons_append, lines_append_break hline, ih hbefore]
    rfl

/-- The line as it is read: blanks at its end may be missing. -/
def Clipped (read line : Text) : Prop := ∃ g : Gap, read ++ g = line

theorem Clipped.refl (line : Text) : Clipped line line :=
  ⟨⟨[], List.forall_mem_nil _⟩, List.append_nil line⟩

theorem clipped_dropReturn (line : Text) : Clipped (dropReturn line) line := by
  rcases eq_dropReturn_or line with h | h
  · rw [← h]
    exact Clipped.refl line
  · exact ⟨⟨['\r'], List.all_eq_true.1 (by decide)⟩, h.symm⟩

/-- The text has these lines, or is made of them with a line break behind each, which the last one
may lack. -/
def Spells (text : Text) (written : List Text) : Prop :=
  lines text = written ∨ text = unlines written ∨ text ++ ['\n'] = unlines written

theorem Spells.clipped {text : Text} {written : List Text} (h : Spells text written)
    (hbreak : ∀ line ∈ written, '\n' ∉ line) (hlast : written.getLast? ≠ some []) :
    List.Forall₂ Clipped (lines text) written := by
  have hcut (before : List Text) : List.Forall₂ Clipped (before.map dropReturn) before :=
    List.forall₂_map_left_iff.2 (List.forall₂_same.2 fun line _ => clipped_dropReturn line)
  rcases h with rfl | rfl | h
  · exact List.forall₂_same.2 fun line _ => Clipped.refl line
  · have hlines := lines_unlines_append hbreak []
    rw [List.append_nil, lines, List.append_nil] at hlines
    rw [hlines]
    exact hcut written
  · induction written using List.reverseRecOn with
    | nil => simp at h
    | append_singleton before last =>
      obtain ⟨hbefore, hline⟩ := List.forall_mem_append.1 hbreak
      have htext : text = unlines before ++ last := by
        rw [unlines_append, unlines_cons, unlines_nil, ← List.append_assoc] at h
        exact List.append_cancel_right h
      have hne : last ≠ [] := by simpa using hlast
      rw [htext, lines_unlines_append hbefore,
        lines_of_no_break (hline last List.mem_cons_self) hne]
      exact List.rel_append (hcut before) (.cons (Clipped.refl last) .nil)

theorem not_mem_of_mem_consFirst {c d : Char} {s : Text} {pieces : List Text} (hd : d ≠ c)
    (hpieces : ∀ piece ∈ pieces, d ∉ piece) (h : s ∈ consFirst c pieces) : d ∉ s := by
  have hother : ∀ piece ∈ pieces, ∀ e ∈ piece, d ≠ e := fun piece hpiece e he heq =>
    hpieces piece hpiece (heq ▸ he)
  exact fun hmem => forall_of_mem_consFirst hd hother h d hmem rfl

theorem split_ne_nil (sep : Char) (s : Text) : split sep s ≠ [] := by
  cases s with
  | nil => simp [split]
  | cons c s =>
    unfold split
    split
    · simp
    · cases split sep s <;> simp [consFirst]

theorem split_cons_of_ne {sep c : Char} (h : c ≠ sep) (s : Text) :
    ∃ piece pieces, split sep (c :: s) = (c :: piece) :: pieces := by
  rw [split, if_neg h]
  cases split sep s with
  | nil => exact ⟨[], [], rfl⟩
  | cons piece pieces => exact ⟨piece, pieces, rfl⟩

theorem eq_nil_of_split {sep : Char} {s : Text} (h : split sep s = [[]]) : s = [] := by
  cases s with
  | nil => rfl
  | cons c s =>
    by_cases hc : c = sep
    · rw [split, if_pos hc] at h
      exact absurd (List.cons.inj h).2 (split_ne_nil sep s)
    · obtain ⟨piece, pieces, hsplit⟩ := split_cons_of_ne hc s
      rw [hsplit] at h
      cases (List.cons.inj h).1

theorem split_append_sep (sep : Char) (s t : Text) :
    split sep (s ++ sep :: t) = split sep s ++ split sep t := by
  induction s with
  | nil => simp [split]
  | cons c s ih =>
    by_cases hc : c = sep
    · simp only [List.cons_append, split, if_pos hc, ih]
    · obtain ⟨piece, pieces, hsplit⟩ := List.exists_cons_of_ne_nil (split_ne_nil sep s)
      simp only [List.cons_append, split, if_neg hc, ih, hsplit, consFirst]

theorem split_of_not_mem {sep : Char} {s : Text} (h : sep ∉ s) : split sep s = [s] := by
  induction s with
  | nil => rfl
  | cons c s ih =>
    obtain ⟨hc, hs⟩ := not_or.1 (mt List.mem_cons.2 h)
    rw [split, if_neg (Ne.symm hc), ih hs, consFirst]

theorem not_mem_of_mem_split {sep : Char} {s piece : Text} (h : piece ∈ split sep s) :
    sep ∉ piece := by
  induction s generalizing piece with
  | nil =>
    obtain rfl := List.mem_singleton.1 h
    exact List.not_mem_nil
  | cons c s ih =>
    rw [split] at h
    split at h
    · rcases List.mem_cons.1 h with rfl | h
      · exact List.not_mem_nil
      · exact ih h
    · next hc => exact not_mem_of_mem_consFirst (Ne.symm hc) (fun _ => ih) h

theorem split_join {sep : Char} {pieces : List Text} (hne : pieces ≠ [])
    (h : ∀ piece ∈ pieces, sep ∉ piece) : split sep (join [sep] pieces) = pieces := by
  induction pieces with
  | nil => exact absurd rfl hne
  | cons piece pieces ih =>
    obtain ⟨hpiece, hpieces⟩ := List.forall_mem_cons.1 h
    cases pieces with
    | nil => simpa [join] using split_of_not_mem hpiece
    | cons next pieces =>
      have hrest := ih (List.cons_ne_nil next pieces) hpieces
      rw [join] at hrest
      rw [join, List.intercalate_cons_cons, List.append_assoc, List.singleton_append,
        split_append_sep, split_of_not_mem hpiece, hrest, List.singleton_append]

/-- A text that starts with a separator, or has nothing in it, has an empty piece. -/
theorem exists_head?_of_nil_not_mem_split {sep : Char} {s : Text} (h : [] ∉ split sep s) :
    ∃ c, s.head? = some c ∧ c ≠ sep := by
  cases s with
  | nil => exact absurd List.mem_cons_self h
  | cons c s =>
    refine ⟨c, rfl, fun hc => h ?_⟩
    rw [split, if_pos hc]
    exact List.mem_cons_self

theorem exists_getLast?_of_nil_not_mem_split {sep : Char} {s : Text} (h : [] ∉ split sep s) :
    ∃ c, s.getLast? = some c ∧ c ≠ sep := by
  rcases List.eq_nil_or_concat s with rfl | ⟨front, c, rfl⟩
  · exact absurd List.mem_cons_self h
  · rw [List.concat_eq_append] at h ⊢
    refine ⟨c, List.getLast?_concat, ?_⟩
    rintro rfl
    rw [split_append_sep] at h
    exact h (List.mem_append_right _ List.mem_cons_self)

theorem unlines_split (s : Text) : unlines (split '\n' s) = s ++ ['\n'] := by
  induction s with
  | nil => rfl
  | cons c s ih =>
    by_cases hc : c = '\n'
    · rw [split, if_pos hc, unlines_cons, ih, hc]
      rfl
    · obtain ⟨piece, pieces, hsplit⟩ := List.exists_cons_of_ne_nil (split_ne_nil '\n' s)
      rw [hsplit, unlines_cons] at ih
      rw [split, if_neg hc, hsplit, consFirst, unlines_cons, List.cons_append, ih]
      rfl

/-- A text is a list of lines that are finished and a rest on a line of its own, which may be
empty. -/
theorem exists_unlines_append (s : Text) :
    ∃ before last, s = unlines before ++ last ∧ (∀ line ∈ before, '\n' ∉ line) ∧ '\n' ∉ last := by
  have hbreak : ∀ piece ∈ split '\n' s, '\n' ∉ piece := fun _ => not_mem_of_mem_split
  have hpieces := unlines_split s
  rcases List.eq_nil_or_concat (split '\n' s) with hnil | ⟨before, last, hsplit⟩
  · exact absurd hnil (split_ne_nil '\n' s)
  · rw [List.concat_eq_append] at hsplit
    rw [hsplit, unlines_append, unlines_cons, unlines_nil, ← List.append_assoc] at hpieces
    rw [hsplit] at hbreak
    obtain ⟨hbefore, hlast⟩ := List.forall_mem_append.1 hbreak
    exact ⟨before, last, (List.append_cancel_right hpieces).symm, hbefore,
      hlast last List.mem_cons_self⟩

theorem getLast?_unlines {lines : List Text} (h : lines ≠ []) :
    (unlines lines).getLast? = some '\n' := by
  obtain ⟨front, last, rfl⟩ := (List.eq_nil_or_concat lines).resolve_left h
  rw [List.concat_eq_append, unlines_append, unlines_cons, unlines_nil, ← List.append_assoc,
    List.getLast?_concat]

/-- Behind a line break the lines begin anew. -/
theorem lines_append {s : Text} (h : s = [] ∨ s.getLast? = some '\n') (t : Text) :
    lines (s ++ t) = lines s ++ lines t := by
  rcases h with rfl | hlast
  · rfl
  · obtain ⟨front, rfl⟩ := List.getLast?_eq_some_iff.1 hlast
    have hbreak : ∀ line ∈ split '\n' front, '\n' ∉ line := fun _ => not_mem_of_mem_split
    have hfront := lines_unlines_append hbreak []
    rw [List.append_nil, lines, List.append_nil] at hfront
    rw [← unlines_split, lines_unlines_append hbreak, hfront]

/-- A line that is not finished goes on with the first of the lines behind it. -/
theorem lines_append_of_unfinished {s line : Text} (hs : s ≠ []) (hlast : s.getLast? ≠ some '\n')
    (hline : '\n' ∉ line) (rest : Text) :
    ∃ before last, lines s = before ++ [last] ∧
      lines (s ++ (line ++ '\n' :: rest)) = before ++ dropReturn (last ++ line) :: lines rest := by
  obtain ⟨before, last, rfl, hbreak, hrest⟩ := exists_unlines_append s
  have hne : last ≠ [] := by
    rintro rfl
    rw [List.append_nil] at hs hlast
    have hbefore : before ≠ [] := by
      rintro rfl
      exact hs unlines_nil
    exact hlast (getLast?_unlines hbefore)
  have hglued : '\n' ∉ last ++ line := by
    rw [List.mem_append, not_or]
    exact ⟨hrest, hline⟩
  refine ⟨before.map dropReturn, last, ?_, ?_⟩
  · rw [lines_unlines_append hbreak, lines_of_no_break hrest hne]
  · rw [List.append_assoc, ← List.append_assoc last, lines_unlines_append hbreak,
      lines_append_break hglued]

/-- Lines behind a text are lines of their own exactly if the text has no unfinished line. -/
theorem lines_append_eq_iff {line : Text} (hline : '\n' ∉ line) (s rest : Text) :
    lines (s ++ (line ++ '\n' :: rest)) = lines s ++ lines (line ++ '\n' :: rest) ↔
      s = [] ∨ s.getLast? = some '\n' := by
  constructor
  · intro hlines
    by_contra hunfinished
    obtain ⟨hs, hlast⟩ := not_or.1 hunfinished
    obtain ⟨before, last, hfront, hglued⟩ := lines_append_of_unfinished hs hlast hline rest
    have hcount := congrArg List.length hlines
    rw [hglued, hfront, lines_append_break hline] at hcount
    simp only [List.length_append, List.length_cons, List.length_nil] at hcount
    omega
  · exact fun h => lines_append h _

end RdStubs.Text
