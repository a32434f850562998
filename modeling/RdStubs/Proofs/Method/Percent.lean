import RdStubs.Proofs.Method.PageName
import RdStubs.Proofs.Method.Signature
import RdStubs.Proofs.Stub.Layout
import RdStubs.Proofs.Text.Escape

/-!
# Percent signs in markup

A percent sign starts a comment in a page unless it is escaped. The name of a method is escaped
where it is given as it is, but not where it is given as page name, nor where a replacement method
is shown by what it replaces. So the aliases of a method have all their percent signs escaped
exactly if its name has none to escape, is an operator with a page name of its own, or is
redirected; and its usage line exactly if it is no replacement method with a percent sign to escape.
-/

namespace RdStubs

open Text

abbrev PercentsEscaped (s : Text) : Prop := Escaped '%' '\\' s

namespace Method

/-- The method was made of the pieces of some definition. Its page may have been looked for
since. -/
def Made (m : Method) : Prop :=
  ∃ name classExpr formals,
    ofParts name classExpr formals m.source = .ok { m with lookup := .pending }

theorem Made.signature {m : Method} (h : m.Made) :
    ∃ classExpr, m.signature = Signature.ofExpr classExpr := by
  obtain ⟨name, classExpr, formals, hparts⟩ := h
  unfold ofParts at hparts
  split at hparts
  · cases hparts
  · exact ⟨classExpr, (congrArg Method.signature (Except.ok.inj hparts)).symm⟩

theorem Made.percent_not_mem_signature {m : Method} (h : m.Made) : '%' ∉ m.signature := by
  obtain ⟨classExpr, hsignature⟩ := h.signature
  rw [hsignature]
  intro hmem
  rcases Signature.of_mem_ofExpr hmem with hchar | hcomma
  · exact absurd hchar (by decide)
  · exact absurd hcomma (by decide)

variable {m : Method}

theorem percentsEscaped_familyAlias_iff {name : Text} :
    PercentsEscaped (familyAlias name) ↔ PercentsEscaped name := by
  have hframe : familyAlias name = "\\alias\x7b".toList ++ name ++ "-methods\x7d".toList := by
    simp [familyAlias, braced]
  rw [hframe]
  exact escaped_framed_iff (by decide) (by decide) (by decide)

theorem percentsEscaped_methodAlias_iff (hm : m.Made) {name : Text} :
    PercentsEscaped (methodAlias name m.signature) ↔ PercentsEscaped name := by
  have hframe : methodAlias name m.signature =
      "\\alias\x7b".toList ++ name ++ (',' :: m.signature ++ "-method\x7d".toList) := by
    simp [methodAlias, braced]
  rw [hframe]
  refine escaped_framed_iff (by decide) (by decide) ?_
  simp [hm.percent_not_mem_signature]

theorem percentsEscaped_escapedName (m : Method) : PercentsEscaped m.escapedName :=
  escaped_escape (by decide) m.name

theorem percentsEscaped_ownAliases_iff (hm : m.Made) (redirects : Redirects) :
    (∀ line ∈ m.ownAliases redirects, PercentsEscaped line) ↔
      PercentsEscaped (m.aliasName redirects) := by
  rw [ownAliases, List.forall_mem_cons, percentsEscaped_methodAlias_iff hm]
  refine and_iff_left ?_
  split
  · exact List.forall_mem_nil _
  · exact List.forall_mem_singleton.2
      ((percentsEscaped_methodAlias_iff hm).2 m.percentsEscaped_escapedName)

/-- The family alias has the name that the other aliases of the method have. -/
theorem percentsEscaped_of_mem_familyAliases {redirects : Redirects}
    (h : PercentsEscaped (m.aliasName redirects)) :
    ∀ line ∈ m.familyAliases redirects, PercentsEscaped line := by
  unfold familyAliases
  split
  · exact List.forall_mem_singleton.2 (percentsEscaped_familyAlias_iff.2 h)
  · exact List.forall_mem_nil _

theorem percentsEscaped_aliasLines_iff (hm : m.Made) (first : Bool) (redirects : Redirects) :
    PercentsEscaped (m.aliasLines first redirects) ↔ PercentsEscaped (m.aliasName redirects) := by
  have hbreak : PercentsEscaped (m.aliasLines first redirects ++ ['\n']) ↔
      PercentsEscaped (m.aliasLines first redirects) := escaped_append_plain_iff (by decide)
  rw [← hbreak, aliasLines_break, List.append_nil, PercentsEscaped,
    escaped_unlines_iff (by decide) (by decide), List.forall_mem_append,
    percentsEscaped_ownAliases_iff hm]
  refine and_iff_right_of_imp fun h => ?_
  cases first with
  | true => exact percentsEscaped_of_mem_familyAliases h
  | false => exact List.forall_mem_nil _

theorem percentsEscaped_of_hasPlainName (h : m.hasPlainName = true) : PercentsEscaped m.name := by
  refine escaped_of_not_mem fun hmem => ?_
  have hplain := List.all_eq_true.1 h '%' hmem
  exact absurd hplain (by decide)

theorem percentsEscaped_ofName_iff (name : Text) :
    PercentsEscaped (PageName.ofName name) ↔ PercentsEscaped name ∨ PageName.IsOperator name := by
  have hdotted (h : PageName.isDotted (PageName.ofName name) = true) :
      PercentsEscaped (PageName.ofName name) :=
    escaped_of_not_mem (PageName.not_mem_of_isDotted h (by decide) (by decide))
  rcases PageName.ofName_cases name with
    ⟨hsymbol, h⟩ | ⟨base, rfl, hname⟩ | ⟨hoperator, h⟩ | ⟨hoperator, hname⟩
  · have hnot : '%' ∉ name := PageName.not_mem_of_mem_symbols hsymbol (by decide)
    exact iff_of_true (hdotted h) (.inl (escaped_of_not_mem hnot))
  · have hoperator : ¬ PageName.IsOperator (base ++ "<-".toList) := fun h => by
      rcases h.getLast? with hend | hend <;> simp at hend
    rw [hname, or_iff_left hoperator, PercentsEscaped, PercentsEscaped,
      escaped_append_plain_iff (by decide), escaped_append_plain_iff (by decide)]
  · exact iff_of_true (hdotted h) (.inr hoperator)
  · rw [hname, or_iff_left hoperator]

theorem percentsEscaped_aliasName_iff {redirects : Redirects}
    (h : ∀ entry ∈ redirects.entries, '%' ∉ entry.2) (m : Method) :
    PercentsEscaped (m.aliasName redirects) ↔
      PercentsEscaped m.name ∨ PageName.IsOperator m.name ∨
        redirects.HasEntry (PageName.ofName m.name) := by
  have hpages : ∀ entry ∈ redirects.entries, PercentsEscaped entry.2 := fun entry hentry =>
    escaped_of_not_mem (h entry hentry)
  unfold aliasName
  split
  · next hplain =>
    exact iff_of_true (percentsEscaped_of_hasPlainName hplain)
      (.inl (percentsEscaped_of_hasPlainName hplain))
  · rw [m.pageName_iff hpages, percentsEscaped_ofName_iff, or_assoc]

theorem percentsEscaped_usageName_iff (m : Method) :
    PercentsEscaped m.usageName ↔ ∀ base, m.name = base ++ "<-".toList → PercentsEscaped base := by
  unfold usageName
  cases hreplaced : PageName.replaced? m.name with
  | some base =>
    have hname := PageName.replaced?_eq_some_iff.1 hreplaced
    constructor
    · intro h base' hname'
      rwa [List.append_cancel_right (hname'.symm.trans hname)]
    · exact fun h => h base hname
  | none =>
    refine iff_of_true m.percentsEscaped_escapedName fun base hname => ?_
    rw [PageName.replaced?_eq_some_iff.2 hname] at hreplaced
    cases hreplaced

/-- When the percent signs of a method's markup are escaped, for the aliases, in the first place of
a stub or another, and for the name in the usage line. -/
theorem percent_signs_escaped_iff (m : Method) (hm : m.Made) (redirects : Redirects)
    (hpages : ∀ entry ∈ redirects.entries, '%' ∉ entry.2) :
    (∀ first, (∀ line ∈ Text.lines (m.aliasLines first redirects), PercentsEscaped line) ↔
      PercentsEscaped m.name ∨ PageName.IsOperator m.name ∨
        redirects.HasEntry (PageName.ofName m.name)) ∧
    (∃ rest, m.usageLine = braced "  \\S4method" m.usageName ++ (braced "" m.signature ++ rest)) ∧
    (PercentsEscaped m.usageName ↔
      ∀ base, m.name = base ++ "<-".toList → PercentsEscaped base) := by
  refine ⟨fun first => ?_, m.usageLine_shows_usageName, m.percentsEscaped_usageName_iff⟩
  have hlines : PercentsEscaped (m.aliasLines first redirects) ↔
      ∀ line ∈ Text.lines (m.aliasLines first redirects), PercentsEscaped line :=
    escaped_iff_lines (by decide) (by decide) _
  exact hlines.symm.trans ((percentsEscaped_aliasLines_iff hm first redirects).trans
    (percentsEscaped_aliasName_iff hpages m))

def infixMethod : Method where
  name := "%in_x%".toList
  signature := "Foo".toList
  formals := "(x, table)".toList
  source := ⟨"pkg/R/x.R".toList⟩

theorem made_infixMethod : infixMethod.Made :=
  ⟨"%in_x%".toList, "\"Foo\"".toList, "(x, table)".toList, by decide⟩

def infixPages : Redirects := ⟨[("%in_x%".toList, "operators".toList)]⟩

theorem percent_signs_escaped_of_redirected :
    infixMethod.Made ∧ (∀ entry ∈ infixPages.entries, '%' ∉ entry.2) ∧
      ∀ first, ∀ line ∈ Text.lines (infixMethod.aliasLines first infixPages),
        PercentsEscaped line := by
  have hpages : ∀ entry ∈ infixPages.entries, '%' ∉ entry.2 :=
    List.forall_mem_singleton.2 (by decide)
  have hentry : infixPages.HasEntry (PageName.ofName infixMethod.name) :=
    List.mem_singleton.2 (by decide)
  obtain ⟨haliases, -⟩ := percent_signs_escaped_iff infixMethod made_infixMethod infixPages hpages
  exact ⟨made_infixMethod, hpages, fun first => (haliases first).2 (.inr (.inr hentry))⟩

def replacementMethod : Method where
  name := "%a%<-".toList
  signature := "Foo".toList
  formals := "(x, value)".toList
  source := ⟨"pkg/R/x.R".toList⟩

/-- Without a redirect the name is its own page name, and stands in the first alias as it is. What a
replacement method replaces stands in the usage line as it is. -/
theorem bare_percent_in_alias_and_usage :
    (infixMethod.Made ∧
      Text.lines (infixMethod.aliasLines false {}) =
        ["\\alias\x7b%in_x%,Foo-method\x7d".toList,
          "\\alias\x7b\\%in_x\\%,Foo-method\x7d".toList] ∧
      ¬ PercentsEscaped "\\alias\x7b%in_x%,Foo-method\x7d".toList) ∧
    replacementMethod.Made ∧ replacementMethod.usageName = "%a%".toList ∧
      ¬ PercentsEscaped "%a%".toList := by
  refine ⟨⟨made_infixMethod, by decide, fun h => ?_⟩, ⟨"%a%<-".toList, "Foo".toList,
    "(x, value)".toList, by decide⟩, by decide, fun h => ?_⟩
  · have hlast := h "\\alias\x7b".toList "in_x%,Foo-method\x7d".toList (by decide)
    exact absurd hlast (by decide)
  · have hlast := h [] "a%".toList (by decide)
    exact absurd hlast (by decide)

end Method

end RdStubs
