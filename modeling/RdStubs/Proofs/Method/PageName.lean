import Mathlib.Data.List.Basic
import RdStubs.Method.Basic
import RdStubs.Proofs.Text.Marks

/-!
# What a page name is made of

A page name comes about in one of four ways: four operators have words of their own, a replacement
method is named for what it replaces, an operator whose letters are all small or all capital for its
letters, and every other name stands for itself. Only what is replaced and a name that stands for
itself keep characters that are no part of a word: a page name holds a separator of paths exactly if
the method's name does. A redirected page name is one of the table instead.
-/

namespace RdStubs

open Text

namespace PageName

/-- An infix operator whose letters are all small or all capital, in double quotes or not. -/
def IsOperator (name : Text) : Prop :=
  ∃ letters, letters ≠ [] ∧ (letters.all Char.isLower = true ∨ letters.all Char.isUpper = true) ∧
    (name = marked '%' letters ∨ name = marked '"' (marked '%' letters))

def isDotted (s : Text) : Bool := s.all fun c => isWordChar c || c = '.'

def symbols : List Text := ["[".toList, "[[".toList, "+".toList, "-".toList]

theorem not_mem_of_mem_symbols {name : Text} {c : Char} (h : name ∈ symbols)
    (hc : c ∉ "[+-".toList) : c ∉ name := by
  have hall : symbols.all (fun name => name.all (· ∈ "[+-".toList)) = true := by decide
  intro hmem
  have hmark := List.all_eq_true.1 (List.all_eq_true.1 hall name h) c hmem
  exact hc (of_decide_eq_true hmark)

theorem isWordChar_of_isLower {c : Char} (h : c.isLower = true) : isWordChar c = true := by
  unfold isWordChar Char.isAlphanum Char.isAlpha
  simp [h]

theorem isWordChar_of_isUpper {c : Char} (h : c.isUpper = true) : isWordChar c = true := by
  unfold isWordChar Char.isAlphanum Char.isAlpha
  simp [h]

theorem isLower_toLower {c : Char} (h : c.isUpper = true) : c.toLower.isLower = true := by
  unfold Char.isUpper at h
  have hrange := of_decide_eq_true h
  unfold Char.toLower Char.isLower
  rw [dif_pos hrange]
  simp only [ge_iff_le, UInt32.le_iff_toNat_le] at hrange
  simp [UInt32.le_iff_toNat_le] at hrange ⊢
  omega

theorem not_mem_of_all {isLetter : Char → Bool} {c : Char} {letters : Text}
    (h : letters.all isLetter = true) (hc : isLetter c = false) : c ∉ letters := by
  intro hmem
  rw [List.all_eq_true.1 h c hmem] at hc
  cases hc

theorem not_mem_of_isDotted {c : Char} {s : Text} (h : isDotted s = true)
    (hc : isWordChar c = false) (hdot : c ≠ '.') : c ∉ s :=
  not_mem_of_all h (by simp [hc, hdot])

theorem replaced?_eq_some_iff {name base : Text} :
    replaced? name = some base ↔ name = base ++ "<-".toList := by
  rw [replaced?, List.isSuffixOf?_eq_some_iff_append_eq, eq_comm]

theorem operatorLetters?_eq_some_iff (isLetter : Char → Bool) (hpercent : isLetter '%' = false)
    (hquote : isLetter '"' = false) {name letters : Text} :
    operatorLetters? isLetter name = some letters ↔
      letters ≠ [] ∧ letters.all isLetter = true ∧
        (name = marked '%' letters ∨ name = marked '"' (marked '%' letters)) := by
  rw [operatorLetters?, Option.filter_eq_some_iff, unwrap?_eq_some_iff]
  constructor
  · rintro ⟨⟨hinner, hne, -⟩, hall⟩
    refine ⟨hne, hall, ?_⟩
    rcases unwrap_cases '"' name with ⟨hsame, -⟩ | ⟨hmarked, -⟩
    · exact .inl (hsame.symm.trans hinner)
    · exact .inr (hinner ▸ hmarked)
  · rintro ⟨hne, hall, rfl | rfl⟩
    · refine ⟨⟨?_, hne, not_mem_of_all hall hpercent⟩, hall⟩
      rcases unwrap_cases '"' (marked '%' letters) with ⟨hsame, -⟩ | ⟨hmarked, -⟩
      · exact hsame
      · exact absurd (List.cons.inj hmarked).1 (by decide)
    · have hplain : '"' ∉ marked '%' letters := by
        simp [marked, not_mem_of_all hall hquote]
      exact ⟨⟨unwrap_marked (List.cons_ne_nil _ _) hplain, hne, not_mem_of_all hall hpercent⟩, hall⟩

theorem isOperator_iff {name : Text} :
    IsOperator name ↔ (operatorLetters? Char.isLower name).isSome ∨
      (operatorLetters? Char.isUpper name).isSome := by
  simp only [Option.isSome_iff_exists,
    operatorLetters?_eq_some_iff Char.isLower (by decide) (by decide),
    operatorLetters?_eq_some_iff Char.isUpper (by decide) (by decide), IsOperator]
  constructor
  · rintro ⟨letters, hne, hlower | hupper, hname⟩
    · exact .inl ⟨letters, hne, hlower, hname⟩
    · exact .inr ⟨letters, hne, hupper, hname⟩
  · rintro (⟨letters, hne, hlower, hname⟩ | ⟨letters, hne, hupper, hname⟩)
    · exact ⟨letters, hne, .inl hlower, hname⟩
    · exact ⟨letters, hne, .inr hupper, hname⟩

theorem IsOperator.getLast? {name : Text} (h : IsOperator name) :
    name.getLast? = some '%' ∨ name.getLast? = some '"' := by
  obtain ⟨letters, -, -, rfl | rfl⟩ := h
  · exact .inl (getLast?_marked '%' letters)
  · exact .inr (getLast?_marked '"' _)

theorem IsOperator.not_mem {name : Text} {c : Char} (h : IsOperator name)
    (hc : isWordChar c = false) (hpercent : c ≠ '%') (hquote : c ≠ '"') : c ∉ name := by
  obtain ⟨letters, -, hall, hname⟩ := h
  have hletters : c ∉ letters := by
    intro hmem
    have hword : isWordChar c = true := by
      rcases hall with hlower | hupper
      · exact isWordChar_of_isLower (List.all_eq_true.1 hlower c hmem)
      · exact isWordChar_of_isUpper (List.all_eq_true.1 hupper c hmem)
    rw [hc] at hword
    cases hword
  rcases hname with rfl | rfl <;> simp [marked, hletters, hpercent, hquote]

theorem isDotted_append {s t : Text} :
    isDotted (s ++ t) = true ↔ isDotted s = true ∧ isDotted t = true := by
  simp [isDotted]

theorem isDotted_of_all {isLetter : Char → Bool} {letters : Text} {f : Char → Char}
    (h : letters.all isLetter = true) (hf : ∀ c, isLetter c = true → isWordChar (f c) = true) :
    isDotted (letters.map f) = true := by
  rw [isDotted, List.all_map, List.all_eq_true]
  intro c hc
  simp [hf c (List.all_eq_true.1 h c hc)]

theorem ofName_cases (name : Text) :
    (name ∈ symbols ∧ isDotted (ofName name) = true) ∨
    (∃ base, name = base ++ "<-".toList ∧ ofName name = base ++ ".set".toList) ∨
    (IsOperator name ∧ isDotted (ofName name) = true) ∨
    (¬ IsOperator name ∧ ofName name = name) := by
  by_cases hsymbol : name ∈ symbols
  · refine .inl ⟨hsymbol, ?_⟩
    have hall : symbols.all (fun name => isDotted (ofName name)) = true := by decide
    exact List.all_eq_true.1 hall name hsymbol
  · rw [or_iff_right (fun h => hsymbol h.1)]
    simp only [symbols, List.mem_cons, List.not_mem_nil, or_false, not_or] at hsymbol
    obtain ⟨hbracket, hdouble, hplus, hminus⟩ := hsymbol
    unfold ofName
    rw [if_neg hbracket, if_neg hdouble, if_neg hplus, if_neg hminus]
    cases hreplaced : replaced? name with
    | some base => exact .inl ⟨base, replaced?_eq_some_iff.1 hreplaced, rfl⟩
    | none =>
      cases hlower : operatorLetters? Char.isLower name with
      | some letters =>
        have hall := ((operatorLetters?_eq_some_iff _ (by decide) (by decide)).1 hlower).2.1
        have hletters := isDotted_of_all (f := id) hall fun c => isWordChar_of_isLower
        rw [List.map_id] at hletters
        exact .inr (.inl ⟨isOperator_iff.2 (.inl (by simp [hlower])),
          isDotted_append.2 ⟨by decide, hletters⟩⟩)
      | none =>
        cases hupper : operatorLetters? Char.isUpper name with
        | some letters =>
          have hall := ((operatorLetters?_eq_some_iff _ (by decide) (by decide)).1 hupper).2.1
          have hletters := isDotted_of_all (f := Char.toLower) hall fun c hc =>
            isWordChar_of_isLower (isLower_toLower hc)
          exact .inr (.inl ⟨isOperator_iff.2 (.inr (by simp [hupper])),
            isDotted_append.2 ⟨by decide, hletters⟩⟩)
        | none => exact .inr (.inr ⟨by simp [isOperator_iff, hlower, hupper], rfl⟩)

theorem slash_mem_ofName_iff (name : Text) : '/' ∈ ofName name ↔ '/' ∈ name := by
  have hdotted (h : isDotted (ofName name) = true) : '/' ∉ ofName name :=
    not_mem_of_isDotted h (by decide) (by decide)
  rcases ofName_cases name with ⟨hsymbol, h⟩ | ⟨base, rfl, hname⟩ | ⟨hoperator, h⟩ | ⟨-, hname⟩
  · exact iff_of_false (hdotted h) (not_mem_of_mem_symbols hsymbol (by decide))
  · rw [hname]
    simp
  · exact iff_of_false (hdotted h) (hoperator.not_mem (by decide) (by decide) (by decide))
  · rw [hname]

end PageName

namespace Redirects

def HasEntry (r : Redirects) (name : Text) : Prop := name ∈ r.entries.map Prod.fst

theorem resolve_cases (r : Redirects) (name : Text) :
    (r.HasEntry name ∧ ∃ entry ∈ r.entries, r.resolve name = entry.2) ∨
      (¬ r.HasEntry name ∧ r.resolve name = name) := by
  obtain ⟨entries⟩ := r
  simp only [resolve, HasEntry]
  induction entries with
  | nil => exact .inr ⟨List.not_mem_nil, rfl⟩
  | cons entry entries ih =>
    by_cases hname : name = entry.1
    · refine .inl ⟨by simp [hname], entry, List.mem_cons_self, ?_⟩
      rw [List.lookup_cons, hname, beq_self_eq_true]
      rfl
    · rw [List.lookup_cons, beq_false_of_ne hname, List.map_cons, List.mem_cons, or_iff_right hname]
      rcases ih with ⟨hmem, page, hpage, hresolve⟩ | ⟨hmem, hresolve⟩
      · exact .inl ⟨hmem, page, List.mem_cons_of_mem _ hpage, hresolve⟩
      · exact .inr ⟨hmem, hresolve⟩

end Redirects

/-- Where all pages of the table have a property, a page name has it unless it stands for itself and
does not. -/
theorem Method.pageName_iff {P : Text → Prop} {redirects : Redirects}
    (h : ∀ entry ∈ redirects.entries, P entry.2) (m : Method) :
    P (m.pageName redirects) ↔
      P (PageName.ofName m.name) ∨ redirects.HasEntry (PageName.ofName m.name) := by
  unfold pageName
  rcases redirects.resolve_cases (PageName.ofName m.name) with
    ⟨hentry, entry, hmem, hresolve⟩ | ⟨hentry, hresolve⟩
  · rw [hresolve]
    exact iff_of_true (h entry hmem) (.inr hentry)
  · rw [hresolve, or_iff_left hentry]

end RdStubs
