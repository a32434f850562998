import RdStubs.Proofs.Text
import RdStubs.Text.Search

/-!
# Escaped characters

A character is escaped in a text if it stands nowhere but directly behind the mark. Pieces that are
put together keep this, and nothing is gained by putting them together unless one piece ends in the
mark. As neither the character nor the mark is part of a line break, a text can be judged line by
line.
-/

namespace RdStubs.Text

def Escaped (c mark : Char) (s : Text) : Prop :=
  ∀ before after, s = before ++ c :: after → before.getLast? = some mark

variable {c mark : Char} {s t : Text}

theorem escaped_of_not_mem (h : c ∉ s) : Escaped c mark s := by
  rintro before after rfl
  exact absurd (List.mem_append_right before List.mem_cons_self) h

theorem Escaped.append (hs : Escaped c mark s) (ht : Escaped c mark t) :
    Escaped c mark (s ++ t) := by
  intro before after heq
  rcases List.append_eq_append_iff.1 heq with ⟨middle, rfl, hmiddle⟩ | ⟨middle, rfl, hmiddle⟩
  · have hlast := ht middle after hmiddle
    rw [List.getLast?_append, hlast, Option.some_or]
  · cases middle with
    | nil => exact absurd (ht [] after hmiddle.symm) (by simp)
    | cons d middle =>
      obtain ⟨rfl, -⟩ := List.cons.inj hmiddle
      exact hs before middle rfl

theorem escaped_append_iff (h : s.getLast? ≠ some mark ∨ t.head? ≠ some c) :
    Escaped c mark (s ++ t) ↔ Escaped c mark s ∧ Escaped c mark t := by
  refine ⟨fun hst => ⟨?_, ?_⟩, fun ⟨hs, ht⟩ => hs.append ht⟩
  · rintro before after rfl
    exact hst before (after ++ t) (by simp)
  · rintro before after rfl
    have hlast := hst (s ++ before) after (by simp)
    cases before with
    | nil => simp_all
    | cons d before => simpa [List.getLast?_append] using hlast

theorem escaped_append_plain_iff (h : c ∉ t) : Escaped c mark (s ++ t) ↔ Escaped c mark s := by
  have hhead : t.head? ≠ some c := fun hc => h (List.mem_of_mem_head? hc)
  rw [escaped_append_iff (.inr hhead), and_iff_left (escaped_of_not_mem h)]

/-- A frame without the character, which does not end in the mark in front, changes nothing. -/
theorem escaped_framed_iff {left right : Text} (hleft : c ∉ left)
    (hlast : left.getLast? ≠ some mark) (hright : c ∉ right) :
    Escaped c mark (left ++ s ++ right) ↔ Escaped c mark s := by
  rw [escaped_append_plain_iff hright, escaped_append_iff (.inl hlast),
    and_iff_right (escaped_of_not_mem hleft)]

theorem escaped_escape (h : c ≠ mark) (s : Text) : Escaped c mark (escape c mark s) := by
  induction s with
  | nil => exact escaped_of_not_mem List.not_mem_nil
  | cons d s ih =>
    rw [escape, List.flatMap_cons]
    refine Escaped.append ?_ ih
    by_cases hd : d = c
    · subst hd
      rw [if_pos rfl]
      intro before after heq
      cases before with
      | nil => exact absurd (List.cons.inj heq).1.symm h
      | cons e before =>
        obtain ⟨rfl, hrest⟩ := List.cons.inj heq
        cases before with
        | nil => rfl
        | cons e' before => simp at hrest
    · rw [if_neg hd]
      exact escaped_of_not_mem (by simpa using Ne.symm hd)

theorem escaped_break_iff (hc : c ≠ '\n') (hmark : mark ≠ '\n') :
    Escaped c mark (s ++ '\n' :: t) ↔ Escaped c mark s ∧ Escaped c mark t := by
  have hbreak : Escaped c mark ['\n'] := escaped_of_not_mem (by simpa using hc)
  rw [escaped_append_iff (.inr (by simpa using Ne.symm hc)), ← List.singleton_append,
    escaped_append_iff (.inl (by simpa using Ne.symm hmark))]
  simp only [hbreak, true_and]

theorem escaped_unlines_iff (hc : c ≠ '\n') (hmark : mark ≠ '\n') {lines : List Text} :
    Escaped c mark (unlines lines) ↔ ∀ line ∈ lines, Escaped c mark line := by
  induction lines with
  | nil => simp [escaped_of_not_mem]
  | cons line lines ih =>
    rw [unlines_cons, escaped_break_iff hc hmark, ih, List.forall_mem_cons]

theorem escaped_dropReturn_iff (hc : c ≠ '\r') :
    Escaped c mark (dropReturn s) ↔ Escaped c mark s := by
  rcases eq_dropReturn_or s with h | h
  · rw [← h]
  · conv_rhs => rw [h, escaped_append_plain_iff (by simpa using hc)]

theorem escaped_iff_lines (hbreak : c ≠ '\n' ∧ c ≠ '\r') (hmark : mark ≠ '\n') (s : Text) :
    Escaped c mark s ↔ ∀ line ∈ lines s, Escaped c mark line := by
  induction hn : s.length using Nat.strong_induction_on generalizing s with
  | h n ih =>
    by_cases hs : '\n' ∈ s
    · obtain ⟨line, rest, rfl, hline⟩ := List.eq_append_cons_of_mem hs
      have hrest : rest.length < n := by
        rw [← hn, List.length_append, List.length_cons]
        omega
      rw [lines_append_break hline, List.forall_mem_cons, escaped_dropReturn_iff hbreak.2,
        escaped_break_iff hbreak.1 hmark, ih rest.length hrest rest rfl]
    · by_cases hne : s = []
      · subst hne
        simp [lines, escaped_of_not_mem]
      · rw [lines_of_no_break hs hne, List.forall_mem_singleton]

end RdStubs.Text
