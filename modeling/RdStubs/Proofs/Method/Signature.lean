import RdStubs.Method.Signature
import RdStubs.Proofs.Text

/-!
# The normal form of a class signature

Splitting a signature at its commas gives back the names that its class expression has, so it is
its own normal form, and text that separates two expressions comes down to one comma. The first word
of a signature is the first word of the expression that is part of a name.
-/

namespace RdStubs.Signature

open Text

variable {classExpr : Text}

theorem isClassChar_of_isWordChar (c : Char) (h : isWordChar c = true) : isClassChar c = true := by
  rw [isClassChar, h, Bool.true_or]

theorem ne_nil_of_mem_classNames {name : Text} (h : name ∈ classNames classExpr) : name ≠ [] := by
  rintro rfl
  exact nil_not_mem_runs isClassChar classExpr (List.mem_of_mem_filter h)

theorem comma_not_mem_name {name : Text} (h : name ∈ classNames classExpr) : ',' ∉ name := by
  intro hmem
  have hcomma := of_mem_runs (List.mem_of_mem_filter h) ',' hmem
  exact absurd hcomma (by decide)

/-- The names of a signature are those it was made of. -/
theorem classNames_ofExpr (classExpr : Text) :
    classNames (ofExpr classExpr) = classNames classExpr := by
  have hself : ∀ name ∈ classNames classExpr, runs isClassChar name = [name] := fun name hname =>
    runs_eq_self (ne_nil_of_mem_classNames hname) (of_mem_runs (List.mem_of_mem_filter hname))
  have hruns : runs isClassChar (ofExpr classExpr) = classNames classExpr := by
    rw [ofExpr, runs_join (by decide), List.flatMap_congr hself, List.flatMap_singleton']
  rw [classNames, hruns]
  exact List.filter_eq_self.2 fun name hname => (List.mem_filter.1 hname).2

theorem ofExpr_ofExpr (classExpr : Text) : ofExpr (ofExpr classExpr) = ofExpr classExpr :=
  congrArg (join [',']) (classNames_ofExpr classExpr)

theorem ofExpr_eq_nil_iff : ofExpr classExpr = [] ↔ classNames classExpr = [] := by
  constructor
  · intro h
    rw [← classNames_ofExpr, h]
    rfl
  · intro h
    rw [ofExpr, h]
    rfl

theorem split_ofExpr (h : classNames classExpr ≠ []) :
    split ',' (ofExpr classExpr) = classNames classExpr :=
  split_join h fun _ => comma_not_mem_name

theorem of_mem_ofExpr {c : Char} (h : c ∈ ofExpr classExpr) : isClassChar c = true ∨ c = ',' := by
  rcases mem_join h with hsep | ⟨name, hname, hmem⟩
  · exact .inr (List.mem_singleton.1 hsep)
  · exact .inl (of_mem_runs (List.mem_of_mem_filter hname) c hmem)

/-- A comma separates two names, none of which is empty. -/
theorem comma_between_names {before after : Text} (h : ofExpr classExpr = before ++ ',' :: after) :
    (∃ c, before.getLast? = some c ∧ isClassChar c = true) ∧
      ∃ c, after.head? = some c ∧ isClassChar c = true := by
  have hnames : classNames classExpr ≠ [] := by
    intro hnil
    rw [ofExpr_eq_nil_iff.2 hnil] at h
    simp at h
  have hsplit := split_ofExpr hnames
  rw [h, split_append_sep] at hsplit
  have hpieces : [] ∉ split ',' before ++ split ',' after := by
    intro hmem
    rw [hsplit] at hmem
    exact ne_nil_of_mem_classNames hmem rfl
  rw [List.mem_append, not_or] at hpieces
  obtain ⟨c, hc, hlast⟩ := exists_getLast?_of_nil_not_mem_split hpieces.1
  obtain ⟨d, hd, hhead⟩ := exists_head?_of_nil_not_mem_split hpieces.2
  have hcmem : c ∈ ofExpr classExpr :=
    h ▸ List.mem_append_left _ (List.mem_of_getLast? hc)
  have hdmem : d ∈ ofExpr classExpr :=
    h ▸ List.mem_append_right before (List.mem_cons_of_mem _ (List.mem_of_mem_head? hd))
  exact ⟨⟨c, hc, (of_mem_ofExpr hcmem).resolve_right hlast⟩,
    d, hd, (of_mem_ofExpr hdmem).resolve_right hhead⟩

theorem classNames_append {gap : Text} (hne : gap ≠ []) (h : ∀ c ∈ gap, isClassChar c = false)
    (classExpr more : Text) :
    classNames (classExpr ++ (gap ++ more)) = classNames classExpr ++ classNames more := by
  rw [classNames, runs_append_gap_append hne h, List.filter_append]
  rfl

theorem ofExpr_append {gap : Text} (hne : gap ≠ []) (h : ∀ c ∈ gap, isClassChar c = false)
    (classExpr more : Text) :
    ofExpr (classExpr ++ (gap ++ more)) =
      join [','] ([ofExpr classExpr, ofExpr more].filter (· ≠ [])) := by
  rw [ofExpr, classNames_append hne h]
  exact join_append_eq_join ofExpr_eq_nil_iff.1 ofExpr_eq_nil_iff.1

structure NamedWord (classExpr before word after : Text) : Prop where
  whole : RunAt isWordChar classExpr before word after
  inName : ∃ front left right back, before = front ++ left ∧
    RunAt isClassChar classExpr front (left ++ (word ++ right)) back ∧
    left ++ (word ++ right) ≠ ['c']

def FirstNamedWord (classExpr word : Text) : Prop :=
  ∃ before after, NamedWord classExpr before word after ∧
    ∀ before' word' after', NamedWord classExpr before' word' after' →
      before.length ≤ before'.length

variable {before word after : Text}

theorem primary?_ofExpr (classExpr : Text) :
    primary? (ofExpr classExpr) = ((classNames classExpr).flatMap (runs isWordChar)).head? := by
  rw [primary?, ofExpr, runs_join (by decide)]

theorem NamedWord.primary?_ne_none (h : NamedWord classExpr before word after) :
    primary? (ofExpr classExpr) ≠ none := by
  obtain ⟨front, left, right, back, rfl, hname, hkept⟩ := h.inName
  have hmem : left ++ (word ++ right) ∈ classNames classExpr :=
    List.mem_filter.2 ⟨hname.mem_runs, by simpa using hkept⟩
  have hword : word ∈ runs isWordChar (left ++ (word ++ right)) := (h.whole.within hname).mem_runs
  rw [primary?_ofExpr, ne_eq, List.head?_eq_none_iff]
  exact List.ne_nil_of_mem (List.mem_flatMap.2 ⟨_, hmem, hword⟩)

/-- The first word of a signature is in a name that has no other word in front of it, be it in a
name further to the left or in the same one. -/
theorem exists_name_of_primary? (h : primary? (ofExpr classExpr) = some word) :
    ∃ front name back left right, RunAt isClassChar classExpr front name back ∧ name ≠ ['c'] ∧
      (∀ other ∈ classNames front, runs isWordChar other = []) ∧
      RunAt isWordChar name left word right ∧ runs isWordChar left = [] := by
  rw [primary?_ofExpr, List.head?_flatMap, List.findSome?_eq_some_iff] at h
  obtain ⟨earlier, name, later, hnames, hword, hearlier⟩ := h
  -- runs that are no names may stand between the names in front and this one
  obtain ⟨start, rest, hruns, hstart, hrest⟩ := List.filter_eq_append_iff.1 hnames
  obtain ⟨skipped, later', rfl, hskipped, hname, -⟩ := List.filter_eq_cons_iff.1 hrest
  rw [← List.append_assoc] at hruns
  obtain ⟨front, back, hrun, hfront⟩ := exists_runAt hruns
  obtain ⟨words, hwords⟩ := List.head?_eq_some_iff.1 hword
  obtain ⟨left, right, hrun', hleft⟩ := exists_runAt (hwords.trans (List.nil_append _).symm)
  refine ⟨front, name, back, left, right, hrun, by simpa using hname, fun other hother => ?_,
    hrun', hleft⟩
  rw [classNames, hfront, List.filter_append, hstart, List.filter_eq_nil_iff.2 hskipped,
    List.append_nil] at hother
  exact List.head?_eq_none_iff.1 (hearlier other hother)

/-- A word that is part of a name begins at the first one or behind it. -/
theorem NamedWord.length_le {front name back left : Text}
    (h : NamedWord classExpr before word after)
    (hname : RunAt isClassChar classExpr front name back)
    (hfront : ∀ other ∈ classNames front, runs isWordChar other = [])
    (hstart : left <+: name) (hleft : runs isWordChar left = []) :
    (front ++ left).length ≤ before.length := by
  obtain ⟨front', left', right', back', rfl, hname', hkept⟩ := h.inName
  by_contra hlt
  rw [not_le, List.length_append, List.length_append] at hlt
  by_cases hearlier : (front' ++ left').length < front.length
  · -- the word would be in a name in front
    have hlt' : front'.length < front.length := by
      rw [List.length_append] at hearlier
      omega
    have hother : left' ++ (word ++ right') ∈ classNames front :=
      List.mem_filter.2 ⟨hname.mem_runs_before hname' hlt', by simpa using hkept⟩
    have hword := (h.whole.within hname').mem_runs
    rw [hfront _ hother] at hword
    cases hword
  · -- the word would begin in front of the first one in its name
    rw [List.length_append] at hearlier
    obtain ⟨rest, rfl⟩ := hstart
    obtain ⟨c, more, hword⟩ := List.exists_cons_of_ne_nil h.whole.ne_nil
    have hplace : classExpr[(front' ++ left').length]? = some c := by
      rw [h.whole.text_eq, hword]
      simp
    rw [hname.text_eq, List.length_append, List.getElem?_append_right (by omega),
      List.append_assoc, List.getElem?_append_left (by omega)] at hplace
    have hnot := runs_eq_nil_iff.1 hleft c (List.mem_of_getElem? hplace)
    rw [h.whole.chars c (hword ▸ List.mem_cons_self)] at hnot
    cases hnot

theorem firstNamedWord_of_primary? (h : primary? (ofExpr classExpr) = some word) :
    FirstNamedWord classExpr word := by
  obtain ⟨front, name, back, left, right, hname, hkept, hfront, hword, hleft⟩ :=
    exists_name_of_primary? h
  have hwhole := hname.of_within isClassChar_of_isWordChar hword
  rw [hword.text_eq] at hname hkept
  refine ⟨front ++ left, right ++ back, ⟨hwhole, front, left, right, back, rfl, hname, hkept⟩,
    fun before' word' after' h' => ?_⟩
  exact h'.length_le hname hfront (List.prefix_append left _) hleft

theorem primary?_eq_some_iff :
    primary? (ofExpr classExpr) = some word ↔ FirstNamedWord classExpr word := by
  constructor
  · exact firstNamedWord_of_primary?
  · rintro ⟨before, after, hword, hleast⟩
    obtain ⟨first, hfirst⟩ := Option.ne_none_iff_exists'.1 hword.primary?_ne_none
    obtain ⟨before', after', hword', hleast'⟩ := firstNamedWord_of_primary? hfirst
    have hlength : before.length = before'.length :=
      le_antisymm (hleast _ _ _ hword') (hleast' _ _ _ hword)
    rw [hfirst, hword.whole.run_eq hword'.whole hlength]

theorem primary?_eq_none_iff : primary? (ofExpr classExpr) = none ↔
    ∀ before word after, ¬ NamedWord classExpr before word after := by
  constructor
  · exact fun h before word after hword => hword.primary?_ne_none h
  · intro h
    by_contra hsome
    obtain ⟨word, hword⟩ := Option.ne_none_iff_exists'.1 hsome
    obtain ⟨before, after, hnamed, -⟩ := firstNamedWord_of_primary? hword
    exact h before word after hnamed

/-- The signature of a class expression is split into the maximal runs of class characters that the
expression has, less the runs that are just `c`; it is empty if there are none. So every comma has a
class character on both sides, a signature is its own normal form, and of expressions with other
text between them the signatures are joined. The first word of the signature is the first word of
the expression that is part of a name, and there is none only if no name has a word. -/
theorem signature_is_normal_form (classExpr : Text) :
    (∃ found, (∀ other, MaximalRuns isClassChar classExpr other ↔ other = found) ∧
      let names := found.filter (· ≠ ['c'])
      (names ≠ [] → split ',' (ofExpr classExpr) = names) ∧
        (names = [] → ofExpr classExpr = [])) ∧
      (∀ c ∈ ofExpr classExpr, isClassChar c = true ∨ c = ',') ∧
      (∀ before after, ofExpr classExpr = before ++ ',' :: after →
        (∃ c, before.getLast? = some c ∧ isClassChar c = true) ∧
          ∃ c, after.head? = some c ∧ isClassChar c = true) ∧
      ofExpr (ofExpr classExpr) = ofExpr classExpr ∧
      (∀ gap more, gap ≠ [] → (∀ c ∈ gap, isClassChar c = false) →
        ofExpr (classExpr ++ (gap ++ more)) =
          join [','] ([ofExpr classExpr, ofExpr more].filter (· ≠ []))) ∧
      (∀ word, primary? (ofExpr classExpr) = some word ↔ FirstNamedWord classExpr word) ∧
      (primary? (ofExpr classExpr) = none ↔
        ∀ before word after, ¬ NamedWord classExpr before word after) := by
  refine ⟨⟨runs isClassChar classExpr, fun _ => maximalRuns_iff, split_ofExpr,
    ofExpr_eq_nil_iff.2⟩, fun c => of_mem_ofExpr, fun before after => comma_between_names,
    ofExpr_ofExpr classExpr, fun gap more hne hgap => ?_, fun word => primary?_eq_some_iff,
    primary?_eq_none_iff⟩
  exact ofExpr_append hne hgap classExpr more

end RdStubs.Signature
