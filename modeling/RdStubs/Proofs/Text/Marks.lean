import RdStubs.Text.Search

/-!
# Texts between marks

A text is marked when it stands between two marks `q` and is neither empty nor has the mark in it.
Unwrapping takes the marks off a marked text and leaves every other text as it is; it does so once,
so what stood between the marks is not looked at again.
-/

namespace RdStubs.Text

def marked (q : Char) (t : Text) : Text := q :: (t ++ [q])

theorem getLast?_marked (q : Char) (t : Text) : (marked q t).getLast? = some q :=
  List.getLast?_concat (l := q :: t)

theorem unwrap?_eq_some_iff {q : Char} {s t : Text} :
    unwrap? q s = some t ↔ s = marked q t ∧ t ≠ [] ∧ q ∉ t := by
  cases s with
  | nil => simp [unwrap?, marked]
  | cons c s =>
    rw [unwrap?, marked]
    constructor
    · intro h
      split at h
      · next hmarks =>
        obtain ⟨rfl, hlast, hne, hplain⟩ := hmarks
        obtain rfl := Option.some.inj h
        obtain ⟨t, rfl⟩ := List.getLast?_eq_some_iff.1 hlast
        rw [List.dropLast_concat] at hne hplain ⊢
        exact ⟨rfl, hne, hplain⟩
      · cases h
    · rintro ⟨heq, hne, hplain⟩
      obtain ⟨rfl, rfl⟩ := List.cons.inj heq
      rw [List.dropLast_concat, List.getLast?_concat, if_pos ⟨rfl, rfl, hne, hplain⟩]

theorem unwrap_marked {q : Char} {t : Text} (hne : t ≠ []) (hplain : q ∉ t) :
    unwrap q (marked q t) = t := by
  rw [unwrap, unwrap?_eq_some_iff.2 ⟨rfl, hne, hplain⟩, Option.getD_some]

/-- A text comes out of unwrapping as it went in if it is not marked, and went in between marks
otherwise. -/
theorem unwrap_cases (q : Char) (s : Text) :
    (unwrap q s = s ∧ ∀ t, t ≠ [] → q ∉ t → s ≠ marked q t) ∨
      (s = marked q (unwrap q s) ∧ unwrap q s ≠ [] ∧ q ∉ unwrap q s) := by
  cases h : unwrap? q s with
  | none =>
    refine .inl ⟨by rw [unwrap, h, Option.getD_none], fun t hne hplain hs => ?_⟩
    rw [unwrap?_eq_some_iff.2 ⟨hs, hne, hplain⟩] at h
    cases h
  | some t =>
    have ht : unwrap q s = t := by rw [unwrap, h, Option.getD_some]
    rw [ht]
    exact .inr (unwrap?_eq_some_iff.1 h)

theorem unwrap_eq_nil_iff {q : Char} {s : Text} : unwrap q s = [] ↔ s = [] := by
  rcases unwrap_cases q s with ⟨hsame, -⟩ | ⟨hmarked, hne, -⟩
  · rw [hsame]
  · refine iff_of_false hne ?_
    rw [hmarked]
    exact List.cons_ne_nil _ _

end RdStubs.Text
