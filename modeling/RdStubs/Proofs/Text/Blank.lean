import Mathlib.Data.List.DropRight
import RdStubs.Proofs.Text.Runs

/-!
# Blanks around and between words

A gap is a run of blanks, possibly empty. A text is a gap and what remains when leading blanks are
dropped; it is also what remains when it is trimmed at the end, and a gap. A tight text is not
empty and has no blank at either end, so trimming finds it again behind any gap. Gaps at the ends of
a text have no part in what it is trimmed to, nor in its fields.
-/

namespace RdStubs.Text

abbrev Gap := { s : Text // ∀ c ∈ s, isBlank c = true }

structure Tight (s : Text) : Prop where
  head : ∃ c, s.head? = some c ∧ isBlank c = false
  last : ∃ c, s.getLast? = some c ∧ isBlank c = false

theorem not_mem_gap {c : Char} (h : isBlank c = false) (g : Gap) : c ∉ g.1 := by
  intro hmem
  rw [g.2 c hmem] at h
  cases h

/-- A gap at the start of a text ends in front of the first character that is not blank. -/
theorem exists_append_of_gap_append {c : Char} (h : isBlank c = false) {before more rest : Text}
    {g : Gap} (htext : before ++ c :: more = g ++ rest) :
    ∃ between, before = g ++ between ∧ rest = between ++ c :: more := by
  rcases List.append_eq_append_iff.1 htext with ⟨z, hg, hmore⟩ | ⟨z, hbefore, hrest⟩
  · cases z with
    | nil =>
      rw [List.append_nil] at hg
      exact ⟨[], by rw [hg, List.append_nil], hmore.symm⟩
    | cons d z =>
      obtain ⟨rfl, -⟩ := List.cons.inj hmore
      exact absurd (hg ▸ List.mem_append_right before List.mem_cons_self) (not_mem_gap h g)
  · exact ⟨z, hbefore, hrest⟩

theorem dropBlank_gap_append (g : Gap) (s : Text) : dropBlank (g ++ s) = dropBlank s :=
  List.dropWhile_append_of_pos g.2

theorem dropBlank_cons {c : Char} (h : isBlank c = false) (s : Text) :
    dropBlank (c :: s) = c :: s :=
  List.dropWhile_cons_of_neg (by simp [h])

theorem dropBlank_dropBlank (s : Text) : dropBlank (dropBlank s) = dropBlank s :=
  List.dropWhile_idempotent (p := isBlank) s

theorem isBlank_of_dropBlank {c : Char} {s rest : Text} (h : dropBlank s = c :: rest) :
    isBlank c = false := by
  have hhead := List.head?_dropWhile_not isBlank s
  unfold dropBlank at h
  rw [h] at hhead
  exact hhead

theorem exists_gap_append_dropBlank (s : Text) : ∃ g : Gap, g ++ dropBlank s = s :=
  ⟨⟨s.takeWhile isBlank, fun _ => List.mem_takeWhile_imp⟩, List.takeWhile_append_dropWhile⟩

theorem dropBlank_append {s : Text} (hs : dropBlank s = s) (hne : s ≠ []) (more : Text) :
    dropBlank (s ++ more) = s ++ more := by
  cases s with
  | nil => exact absurd rfl hne
  | cons c s =>
    have hc := List.dropWhile_eq_self_iff.1 hs (by simp)
    exact dropBlank_cons (by simpa using hc) (s ++ more)

theorem trimEnd_append_gap (s : Text) (g : Gap) : trimEnd (s ++ g) = trimEnd s := by
  unfold trimEnd
  rw [List.reverse_append, List.dropWhile_append_of_pos]
  intro c hc
  exact g.2 c (List.mem_reverse.1 hc)

theorem exists_trimEnd_append_gap (s : Text) : ∃ g : Gap, trimEnd s ++ g = s :=
  ⟨⟨s.rtakeWhile isBlank, fun _ => List.mem_rtakeWhile_imp⟩, List.rdropWhile_append_rtakeWhile⟩

theorem trimEnd_append_singleton {c : Char} (h : isBlank c = false) (s : Text) :
    trimEnd (s ++ [c]) = s ++ [c] := by
  simp [trimEnd, h]

theorem trimEnd_eq_self {s : Text} (h : ∀ c, s.getLast? = some c → isBlank c = false) :
    trimEnd s = s := by
  rcases List.eq_nil_or_concat s with rfl | ⟨front, c, rfl⟩
  · rfl
  · rw [List.concat_eq_append] at h ⊢
    exact trimEnd_append_singleton (h c List.getLast?_concat) front

theorem getLast?_append_gap {s : Text} {g : Gap} {c : Char} (h : (s ++ g.1).getLast? = some c) :
    (g.1 = [] ∧ s.getLast? = some c) ∨ isBlank c = true := by
  rcases List.eq_nil_or_concat g.1 with hg | ⟨front, d, hg⟩
  · rw [hg, List.append_nil] at h
    exact .inl ⟨hg, h⟩
  · rw [List.concat_eq_append] at hg
    rw [hg, ← List.append_assoc, List.getLast?_concat] at h
    obtain rfl := Option.some.inj h
    exact .inr (g.2 d (hg ▸ List.mem_append_right front List.mem_cons_self))

theorem dropBlank_append_gap (s : Text) (g : Gap) :
    ∃ g' : Gap, dropBlank (s ++ g) = dropBlank s ++ g' := by
  unfold dropBlank
  rw [List.dropWhile_append]
  split
  · next hempty =>
    refine ⟨⟨[], List.forall_mem_nil _⟩, ?_⟩
    rw [List.isEmpty_iff.1 hempty, List.dropWhile_eq_nil_iff.2 g.2, List.append_nil]
  · exact ⟨g, rfl⟩

theorem trim_gap_append (g : Gap) (s : Text) : trim (g ++ s) = trim s :=
  congrArg trimEnd (dropBlank_gap_append g s)

theorem trim_append_gap (s : Text) (g : Gap) : trim (s ++ g) = trim s := by
  obtain ⟨g', hg'⟩ := dropBlank_append_gap s g
  rw [trim, hg', trimEnd_append_gap, trim]

theorem exists_gaps_append_trim (s : Text) : ∃ g g' : Gap, g ++ (trim s ++ g') = s := by
  obtain ⟨g, hg⟩ := exists_gap_append_dropBlank s
  obtain ⟨g', hg'⟩ := exists_trimEnd_append_gap (dropBlank s)
  exact ⟨g, g', by rw [trim, hg', hg]⟩

namespace Tight

theorem eq_cons {s : Text} (h : Tight s) : ∃ c t, s = c :: t ∧ isBlank c = false := by
  obtain ⟨c, hc, hblank⟩ := h.head
  obtain ⟨t, rfl⟩ := List.head?_eq_some_iff.1 hc
  exact ⟨c, t, rfl, hblank⟩

theorem dropBlank_append {s : Text} (h : Tight s) (more : Text) :
    dropBlank (s ++ more) = s ++ more := by
  obtain ⟨c, t, rfl, hblank⟩ := h.eq_cons
  exact dropBlank_cons hblank (t ++ more)

theorem trimEnd_eq {s : Text} (h : Tight s) : trimEnd s = s := by
  obtain ⟨c, hc, hblank⟩ := h.last
  obtain ⟨t, rfl⟩ := List.getLast?_eq_some_iff.1 hc
  exact trimEnd_append_singleton hblank t

theorem trimEnd_append {s : Text} (h : Tight s) (more : Text) :
    trimEnd (s ++ more) = s ++ trimEnd more := by
  have hs := h.trimEnd_eq
  unfold trimEnd at hs ⊢
  rw [List.reverse_append, List.dropWhile_append]
  split
  · next hempty =>
    rw [List.isEmpty_iff.1 hempty, List.reverse_nil, List.append_nil, hs]
  · rw [List.reverse_append, List.reverse_reverse]

theorem trim_eq {s : Text} (h : Tight s) : trim s = s := by
  have hstart := h.dropBlank_append []
  rw [List.append_nil] at hstart
  rw [trim, hstart, h.trimEnd_eq]

/-- A text is trimmed to a tight one exactly if it is that one between two gaps. -/
theorem trim_eq_iff {s : Text} (h : Tight s) {line : Text} :
    trim line = s ↔ ∃ g g' : Gap, line = g ++ (s ++ g') := by
  constructor
  · rintro rfl
    obtain ⟨g, g', hline⟩ := exists_gaps_append_trim line
    exact ⟨g, g', hline.symm⟩
  · rintro ⟨g, g', rfl⟩
    rw [trim_gap_append, trim_append_gap, h.trim_eq]

/-- The last character of `p` is not in the gap that trimming takes off. -/
theorem length_le_trimEnd {p s : Text} (h : Tight p) (hstart : p <+: s) :
    p.length ≤ (trimEnd s).length := by
  obtain ⟨c, hc, hblank⟩ := h.last
  obtain ⟨t, rfl⟩ := List.getLast?_eq_some_iff.1 hc
  obtain ⟨g, hg⟩ := exists_trimEnd_append_gap s
  by_contra hlt
  have hin : (trimEnd s).length ≤ t.length := by
    simp only [List.length_append, List.length_singleton] at hlt
    omega
  obtain ⟨rest, hrest⟩ := hstart
  have hlast : s[t.length]? = some c := by
    simp [← hrest]
  rw [← hg, List.getElem?_append_right hin] at hlast
  rw [g.2 c (List.mem_of_getElem? hlast)] at hblank
  exact absurd hblank (by decide)

end Tight

theorem tight_trimEnd_cons {c : Char} (h : isBlank c = false) (s : Text) :
    Tight (trimEnd (c :: s)) := by
  have hne : trimEnd (c :: s) ≠ [] := by
    intro hnil
    have hall := List.rdropWhile_eq_nil_iff.1 hnil
    rw [hall c List.mem_cons_self] at h
    exact absurd h (by decide)
  constructor
  · obtain ⟨d, t, ht⟩ := List.exists_cons_of_ne_nil hne
    have hstart : d :: t <+: c :: s := ht ▸ List.rdropWhile_prefix isBlank (c :: s)
    refine ⟨c, ?_, h⟩
    rw [ht, List.head?_cons, (List.cons_prefix_cons.1 hstart).1]
  · have hlast := List.rdropWhile_last_not isBlank (c :: s) hne
    exact ⟨_, List.getLast?_eq_some_getLast hne, eq_false_of_ne_true hlast⟩

theorem tight_trim {s : Text} (h : trim s ≠ []) : Tight (trim s) := by
  rw [trim] at h ⊢
  cases hdrop : dropBlank s with
  | nil =>
    rw [hdrop] at h
    exact absurd rfl h
  | cons c rest => exact tight_trimEnd_cons (isBlank_of_dropBlank hdrop) rest

theorem trim_eq_nil_iff {s : Text} : trim s = [] ↔ ∀ c ∈ s, isBlank c = true := by
  constructor
  · intro htrim c hc
    obtain ⟨g, g', hs⟩ := exists_gaps_append_trim s
    rw [htrim, List.nil_append] at hs
    rw [← hs] at hc
    exact (List.mem_append.1 hc).elim (g.2 c) (g'.2 c)
  · intro hblank
    have hdrop : dropBlank s = [] := List.dropWhile_eq_nil_iff.2 hblank
    rw [trim, hdrop]
    rfl

theorem head?_trim_cons {c : Char} (h : isBlank c = false) (s : Text) :
    (trim (c :: s)).head? = some c := by
  have hc : Tight [c] := ⟨⟨c, rfl, h⟩, c, rfl, h⟩
  have hsplit : trimEnd (c :: s) = c :: trimEnd s := hc.trimEnd_append s
  rw [trim, dropBlank_cons h, hsplit, List.head?_cons]

/-- Blanks in front of a text that is not blank stay when it is trimmed at the end. -/
theorem trimEnd_gap_append {s : Text} (h : trim s ≠ []) (g : Gap) :
    trimEnd (g ++ s) = g ++ trimEnd s := by
  have hne : s.reverse.dropWhile isBlank ≠ [] := by
    intro hnil
    refine h (trim_eq_nil_iff.2 fun c hc => ?_)
    exact List.dropWhile_eq_nil_iff.1 hnil c (List.mem_reverse.2 hc)
  rw [trimEnd, List.reverse_append, List.dropWhile_append,
    if_neg (by simpa [List.isEmpty_iff] using hne), List.reverse_append, List.reverse_reverse]
  rfl

theorem fields_append_gap (s : Text) (g : Gap) : fields (s ++ g) = fields s := by
  apply runs_append_of_none
  intro c hc
  rw [g.2 c hc, Bool.not_true]

end RdStubs.Text
