import RdStubs.Proofs.Definition.Choice

/-!
# More text behind a definition

A definition that is read from a text is still read from it, with the same slot, when more text
follows. Its class expression and the beginning of its parameter list stay as they are exactly when
no comma from the list on is followed by another parameter list; otherwise the class expression
swallows the first list.
-/

namespace RdStubs.Definition

open Text

variable {t classExpr formals : Text}

theorem head?_append_of_eq {c : Char} (h : t.head? = some c) (more : Text) :
    (t ++ more).head? = some c := by
  rw [List.head?_append, h, Option.some_or]

theorem classAndFormals?_append (h : classAndFormals? t = some (classExpr, formals)) {more : Text}
    (hlast : ¬ HasFormals (formals ++ more)) :
    classAndFormals? (t ++ more) = some (classExpr, formals ++ more) := by
  obtain ⟨htight, hparen, -, lead, rfl⟩ := classAndFormals?_eq_some_iff.1 h
  exact classAndFormals?_eq_some_iff.2
    ⟨htight, head?_append_of_eq hparen more, hlast, lead, by simp only [List.append_assoc]⟩

/-- Where a later list follows, the class expression grows beyond its comma. -/
theorem classAndFormals?_append_of_hasFormals (h : classAndFormals? t = some (classExpr, formals))
    {more : Text} (hlater : HasFormals (formals ++ more)) :
    ∃ classExpr' formals', classAndFormals? (t ++ more) = some (classExpr', formals') ∧
      classExpr.length < classExpr'.length := by
  obtain ⟨htight, -, -, lead, rfl⟩ := classAndFormals?_eq_some_iff.1 h
  obtain ⟨before, later, formals', hmore, hparen⟩ := hlater
  obtain ⟨c, s, rfl, hblank⟩ := htight.eq_cons
  obtain ⟨classExpr', formals'', hread, hlongest⟩ :=
    exists_classAndFormals?_cons hblank (s ++ (lead.text ++ before)) later hparen
  refine ⟨classExpr', formals'', ?_, ?_⟩
  · rw [← hread]
    simp only [List.append_assoc, List.cons_append, hmore]
  · -- the comma of the lead is not blank, so it belongs to the longer expression
    have hcomma : Tight ((c :: s) ++ lead.beforeComma.1 ++ [',']) :=
      ⟨⟨c, rfl, hblank⟩, ',', List.getLast?_concat, by decide⟩
    have hin : (c :: s) ++ lead.beforeComma.1 ++ [','] <+: c :: (s ++ (lead.text ++ before)) :=
      ⟨lead.behindComma ++ ("function".toList ++ (lead.behindWord ++ before)), by simp [Lead.text]⟩
    have hle := hlongest _ hcomma hin
    simp only [List.length_append, List.length_singleton] at hle
    omega

theorem afterSignature?_append {u : Text} (h : afterSignature? t = some u) (hne : u ≠ [])
    (more : Text) : afterSignature? (t ++ more) = some (u ++ more) := by
  obtain ⟨label, rfl, hu⟩ := afterSignature?_eq_some_iff.1 h
  exact afterSignature?_eq_some_iff.2
    ⟨label, (List.append_assoc _ _ _).symm, dropBlank_append hu hne more⟩

theorem ne_nil_of_classAndFormals? (h : classAndFormals? t = some (classExpr, formals)) :
    t ≠ [] := by
  rintro rfl
  cases h

/-- A label that could not be left out cannot be left out later either, unless a later list
follows. -/
theorem unlabelled_append (hread : classAndFormals? t = some (classExpr, formals))
    (h : (afterSignature? t).bind classAndFormals? = none) {more : Text}
    (hlast : ¬ HasFormals (formals ++ more)) :
    (afterSignature? (t ++ more)).bind classAndFormals? = none := by
  obtain ⟨-, hparen, -, lead, rfl⟩ := classAndFormals?_eq_some_iff.1 hread
  rw [Option.eq_none_iff_forall_ne_some]
  rintro ⟨classExpr', formals'⟩ hread'
  obtain ⟨u, hafter, hread'⟩ := Option.bind_eq_some_iff.1 hread'
  obtain ⟨label, htext, -⟩ := afterSignature?_eq_some_iff.1 hafter
  obtain ⟨htight', hparen', -, lead', rfl⟩ := classAndFormals?_eq_some_iff.1 hread'
  have hwhole : (classExpr ++ lead.text) ++ (formals ++ more) =
      (label.text ++ classExpr') ++ (lead'.text ++ formals') := by
    simpa only [List.append_assoc] using htext.symm
  obtain ⟨y, rfl⟩ := suffix_of_not_hasFormals hwhole (head?_append_of_eq hparen more) hlast rfl
    hparen'
  -- the wording with the label ends inside the old text, so it was there before
  have hold : label.text ++ (classExpr' ++ (lead'.text ++ (y ++ formals))) =
      classExpr ++ (lead.text ++ formals) := by
    refine List.append_cancel_right (?_ : _ ++ more = _ ++ more)
    simpa only [List.append_assoc] using htext
  have hparen'' : (y ++ formals).head? = some '(' := by
    obtain ⟨rest, rfl⟩ := List.head?_eq_some_iff.1 hparen
    cases y with
    | nil => rfl
    | cons d y => simpa using hparen'
  obtain ⟨_, _, hfound, -⟩ := exists_classAndFormals? htight' lead' hparen''
  rw [← hold, afterSignature?_text label (htight'.dropBlank_append _), Option.bind_some,
    hfound] at h
  cases h

theorem Label.not_mem_text (label : Label) : ',' ∉ label.text := by
  have htext := label.text_append []
  rw [List.append_nil] at htext
  rw [htext]
  simp only [List.mem_append, not_or]
  exact ⟨by decide, not_mem_gap (by decide) _, by decide, not_mem_gap (by decide) _, by simp⟩

/-- A label that can be left out only later is all that stands in front of the comma. -/
theorem head?_of_unlabelled_append (hread : classAndFormals? t = some (classExpr, formals))
    (h : (afterSignature? t).bind classAndFormals? = none) {more u : Text}
    (hafter : afterSignature? (t ++ more) = some u) :
    classExpr.head? = some 's' ∧ u.head? = some ',' := by
  obtain ⟨htight, hparen, -, lead, rfl⟩ := classAndFormals?_eq_some_iff.1 hread
  obtain ⟨label, htext, hu⟩ := afterSignature?_eq_some_iff.1 hafter
  constructor
  · obtain ⟨c, s, rfl, -⟩ := htight.eq_cons
    have hhead := congrArg List.head? htext
    rw [label.text_append] at hhead
    simpa using hhead.symm
  · let behind : Text := lead.behindComma ++ ("function".toList ++ (lead.behindWord ++ formals))
    have hcut : label.text ++ u = (classExpr ++ lead.beforeComma) ++ ',' :: (behind ++ more) := by
      rw [htext]
      simp only [behind, Lead.text, List.append_assoc, List.cons_append]
    rcases List.append_eq_append_iff.1 hcut with ⟨z, hz, rfl⟩ | ⟨z, hz, hcomma⟩
    · cases z with
      | nil => rfl
      | cons d z =>
        have hblank : isBlank d = false := by
          simpa using List.dropWhile_eq_self_iff.1 hu (by simp)
        let nearLead : Lead := ⟨⟨[], List.forall_mem_nil _⟩, lead.behindComma, lead.behindWord⟩
        have hold : label.text ++ (d :: (z ++ (nearLead.text ++ formals))) =
            classExpr ++ (lead.text ++ formals) := by
          calc
            _ = (label.text ++ d :: z) ++ ',' :: behind := by simp [nearLead, behind, Lead.text]
            _ = (classExpr ++ lead.beforeComma) ++ ',' :: behind := by rw [← hz]
            _ = classExpr ++ (lead.text ++ formals) := by simp [behind, Lead.text]
        obtain ⟨_, _, hfound, -⟩ := exists_classAndFormals?_cons hblank z nearLead hparen
        rw [← hold, afterSignature?_text label (dropBlank_cons hblank _), Option.bind_some,
          hfound] at h
        cases h
    · cases z with
      | nil =>
        rw [List.nil_append] at hcomma
        rw [← hcomma, List.head?_cons]
      | cons d z =>
        refine absurd ?_ label.not_mem_text
        rw [hz, ← (List.cons.inj hcomma).1]
        simp

theorem rest?_append (h : rest? t = some (classExpr, formals)) {more : Text}
    (hlast : ¬ HasFormals (formals ++ more)) :
    rest? (t ++ more) = some (classExpr, formals ++ more) := by
  rw [rest?_eq_some_iff] at h ⊢
  rcases h with h | ⟨hnone, hread⟩
  · obtain ⟨u, hafter, hread⟩ := Option.bind_eq_some_iff.1 h
    refine .inl (Option.bind_eq_some_iff.2 ⟨u ++ more, ?_, classAndFormals?_append hread hlast⟩)
    exact afterSignature?_append hafter (ne_nil_of_classAndFormals? hread) more
  · exact .inr ⟨unlabelled_append hread hnone hlast, classAndFormals?_append hread hlast⟩

theorem not_hasFormals_of_rest? (h : rest? t = some (classExpr, formals)) :
    ¬ HasFormals formals := by
  rcases rest?_eq_some_iff.1 h with h | ⟨-, hread⟩
  · obtain ⟨_, -, hread⟩ := Option.bind_eq_some_iff.1 h
    exact (classAndFormals?_eq_some_iff.1 hread).2.2.1
  · exact (classAndFormals?_eq_some_iff.1 hread).2.2.1

theorem rest?_append_of_hasFormals (h : rest? t = some (classExpr, formals)) {more : Text}
    (hlater : HasFormals (formals ++ more)) :
    ∃ classExpr' formals', rest? (t ++ more) = some (classExpr', formals') ∧
      classExpr' ≠ classExpr ∧ formals' ≠ formals ++ more := by
  obtain ⟨classExpr', formals', hrest, hclass⟩ : ∃ classExpr' formals',
      rest? (t ++ more) = some (classExpr', formals') ∧ classExpr' ≠ classExpr := by
    simp only [rest?_eq_some_iff]
    rcases rest?_eq_some_iff.1 h with h | ⟨hnone, hread⟩
    · obtain ⟨u, hafter, hread⟩ := Option.bind_eq_some_iff.1 h
      obtain ⟨classExpr', formals', hread', hlength⟩ :=
        classAndFormals?_append_of_hasFormals hread hlater
      refine ⟨classExpr', formals', .inl (Option.bind_eq_some_iff.2 ⟨u ++ more, ?_, hread'⟩), ?_⟩
      · exact afterSignature?_append hafter (ne_nil_of_classAndFormals? hread) more
      · rintro rfl
        omega
    · cases hlabelled : (afterSignature? (t ++ more)).bind classAndFormals? with
      | some found =>
        obtain ⟨classExpr', formals'⟩ := found
        refine ⟨classExpr', formals', .inl rfl, ?_⟩
        obtain ⟨u, hafter, hread'⟩ := Option.bind_eq_some_iff.1 hlabelled
        obtain ⟨hs, hcomma⟩ := head?_of_unlabelled_append hread hnone hafter
        obtain ⟨htight', -, -, lead', rfl⟩ := classAndFormals?_eq_some_iff.1 hread'
        rintro rfl
        obtain ⟨c, s, rfl, -⟩ := htight'.eq_cons
        have hsame := hs.symm.trans hcomma
        cases hsame
      | none =>
        obtain ⟨classExpr', formals', hread', hlength⟩ :=
          classAndFormals?_append_of_hasFormals hread hlater
        refine ⟨classExpr', formals', .inr ⟨rfl, hread'⟩, ?_⟩
        rintro rfl
        omega
  refine ⟨classExpr', formals', hrest, hclass, ?_⟩
  rintro rfl
  exact not_hasFormals_of_rest? hrest hlater

theorem readHere?_append {s : Text} {d : Definition} (h : readHere? s = some d) (more : Text) :
    ∃ d', readHere? (s ++ more) = some d' ∧ d'.slot = d.slot ∧
      (d'.classExpr = d.classExpr ↔ ¬ HasFormals (d.formals ++ more)) ∧
      (d'.formals = d.formals ++ more ↔ ¬ HasFormals (d.formals ++ more)) := by
  obtain ⟨u, hcall, hrest⟩ := readHere?_eq_some_iff.1 h
  have hne : u ≠ [] := by
    rintro rfl
    cases hrest
  have hcall' : call? (s ++ more) = some (d.slot, u ++ more) := by
    obtain ⟨call, rfl, hslot, hu⟩ := call?_eq_some_iff.1 hcall
    exact call?_eq_some_iff.2
      ⟨call, (List.append_assoc _ _ _).symm, hslot, dropBlank_append hu hne more⟩
  by_cases hlater : HasFormals (d.formals ++ more)
  · obtain ⟨classExpr', formals', hrest', hclass, hformals⟩ :=
      rest?_append_of_hasFormals hrest hlater
    refine ⟨⟨d.slot, classExpr', formals'⟩, readHere?_eq_some_iff.2 ⟨_, hcall', hrest'⟩, rfl, ?_⟩
    simp only [hclass, hformals, hlater, not_true_eq_false, and_self]
  · refine ⟨⟨d.slot, d.classExpr, d.formals ++ more⟩,
      readHere?_eq_some_iff.2 ⟨_, hcall', rest?_append hrest hlater⟩, rfl, ?_⟩
    simp only [hlater, not_false_eq_true, and_self]

theorem laterLines_of_no_break {line : Text} (h : '\n' ∉ line) : laterLines line = [] := by
  induction line with
  | nil => rfl
  | cons c line ih =>
    obtain ⟨hc, hline⟩ := not_or.1 (mt List.mem_cons.2 h)
    rw [laterLines, if_neg (Ne.symm hc), ih hline]

theorem read?_eq_readHere? {line : Text} (h : '\n' ∉ line) : read? line = readHere? line := by
  rw [read?, laterLines_of_no_break h, List.findSome?_singleton]

/-- A line on which a definition opens still opens it when more lines follow. -/
theorem read?_append_lines {line : Text} {d : Definition} (hline : '\n' ∉ line)
    (h : read? line = some d) (more : Text) :
    ∃ d', read? (line ++ '\n' :: more) = some d' ∧ d'.slot = d.slot ∧
      (d'.classExpr = d.classExpr ↔ ¬ HasFormals (d.formals ++ '\n' :: more)) ∧
      (d'.formals = d.formals ++ '\n' :: more ↔ ¬ HasFormals (d.formals ++ '\n' :: more)) := by
  rw [read?_eq_readHere? hline] at h
  obtain ⟨d', hread, hpieces⟩ := readHere?_append h ('\n' :: more)
  exact ⟨d', by rw [read?, List.findSome?_cons, hread], hpieces⟩

/-- What begins with a parenthesis does not begin in a gap. -/
theorem append_gap_cases {front formals s : Text} {g : Gap} (h : front ++ formals = s ++ g)
    (hparen : formals.head? = some '(') :
    ∃ formals', front ++ formals' = s ∧ formals = formals' ++ g ∧ formals'.head? = some '(' := by
  obtain ⟨rest, rfl⟩ := List.head?_eq_some_iff.1 hparen
  have hgap : '(' ∉ g.1 := not_mem_gap (by decide) g
  rcases List.append_eq_append_iff.1 h with ⟨z, rfl, hformals⟩ | ⟨z, rfl, hg⟩
  · cases z with
    | nil =>
      rw [List.nil_append] at hformals
      rw [← hformals] at hgap
      exact absurd List.mem_cons_self hgap
    | cons c z =>
      obtain ⟨rfl, -⟩ := List.cons.inj hformals
      exact ⟨'(' :: z, rfl, hformals, rfl⟩
  · rw [hg] at hgap
    exact absurd (List.mem_append_right z List.mem_cons_self) hgap

theorem not_hasFormals_append_gap {s : Text} (h : ¬ HasFormals s) (g : Gap) :
    ¬ HasFormals (s ++ g) := by
  rintro ⟨before, lead, formals, hs, hparen⟩
  rw [← List.append_assoc] at hs
  obtain ⟨formals', rfl, -, hparen'⟩ := append_gap_cases hs hparen
  exact h ⟨before, lead, formals', (List.append_assoc _ _ _).symm, hparen'⟩

def withText (d : Definition) (more : Text) : Definition :=
  { d with formals := d.formals ++ more }

theorem readHere?_append_gap {s : Text} {d : Definition} (h : readHere? s = some d) (g : Gap) :
    readHere? (s ++ g) = some (d.withText g) := by
  obtain ⟨w, -, rfl, hlast, -⟩ := exists_wording_of_readHere? h
  obtain ⟨d', hread, hslot, hclass, hformals⟩ := readHere?_append h g
  have hnone := not_hasFormals_append_gap hlast g
  obtain ⟨slot, classExpr, formals⟩ := d'
  obtain rfl : slot = _ := hslot
  obtain rfl : classExpr = _ := hclass.2 hnone
  obtain rfl : formals = _ := hformals.2 hnone
  exact hread

theorem exists_readHere?_of_append_gap {s : Text} {g : Gap} {d : Definition}
    (h : readHere? (s ++ g) = some d) : ∃ d₀, readHere? s = some d₀ ∧ d = d₀.withText g := by
  obtain ⟨w, htext, -⟩ := exists_wording_of_readHere? h
  simp only [Wording.text, Wording.rest, Wording.body, ← List.append_assoc] at htext
  obtain ⟨formals, hs, -, hparen⟩ := append_gap_cases htext w.opens
  let shorter : Wording := { w with formals := formals, opens := hparen }
  have hshorter : shorter.text = s := by
    rw [← hs]
    simp only [Wording.text, Wording.rest, Wording.body, List.append_assoc]
    rfl
  obtain ⟨d₀, hread⟩ := shorter.exists_readHere?_text
  rw [hshorter] at hread
  exact ⟨d₀, hread, Option.some.inj (h.symm.trans (readHere?_append_gap hread g))⟩

theorem read?_append_gap {line : Text} {d : Definition} (hline : '\n' ∉ line)
    (h : read? line = some d) (g : Gap) : read? (line ++ g) = some (d.withText g) := by
  rw [read?_eq_readHere? hline] at h
  rw [read?, List.findSome?_cons, readHere?_append_gap h g]

theorem exists_read?_of_append_gap {line : Text} {g : Gap} {d : Definition}
    (hline : '\n' ∉ line ++ g) (h : read? (line ++ g) = some d) :
    ∃ d₀, read? line = some d₀ ∧ d = d₀.withText g := by
  rw [read?_eq_readHere? hline] at h
  rw [read?_eq_readHere? fun hmem => hline (List.mem_append_left _ hmem)]
  exact exists_readHere?_of_append_gap h

/-- A line opens a definition with blanks at its end or without them. -/
theorem opensOn_append_gap {line : Text} {g : Gap} (hline : '\n' ∉ line ++ g) :
    opensOn (line ++ g) = opensOn line := by
  have hfront : '\n' ∉ line := fun hmem => hline (List.mem_append_left _ hmem)
  rw [opensOn, opensOn, Bool.eq_iff_iff, Option.isSome_iff_exists, Option.isSome_iff_exists]
  constructor
  · rintro ⟨d, hread⟩
    obtain ⟨d₀, hread₀, -⟩ := exists_read?_of_append_gap hline hread
    exact ⟨d₀, hread₀⟩
  · rintro ⟨d, hread⟩
    exact ⟨d.withText g, read?_append_gap hfront hread g⟩

theorem opensOn_of_head? {line : Text} {c : Char} (hline : '\n' ∉ line)
    (hhead : (dropBlank line).head? = some c) (hc : c ≠ 's') : opensOn line = false := by
  obtain ⟨rest, hrest⟩ := List.head?_eq_some_iff.1 hhead
  have hword : after? "set" (dropBlank line) = none := by
    rw [hrest, after?]
    simp [List.isPrefixOf?, Ne.symm hc]
  rw [opensOn, read?_eq_readHere? hline, readHere?, hword]
  rfl

theorem formals_suffix {t : Text} {d : Definition} (h : read? t = some d) : d.formals <:+ t := by
  obtain ⟨before, w, ⟨-, rfl, -, -, -⟩, rfl⟩ := read?_eq_some_iff.1 h
  refine ⟨before ++ (w.call.text ++ (w.labelText ++ (w.classExpr ++ w.lead.text))), ?_⟩
  simp only [Wording.text, Wording.rest, Wording.body, Wording.definition, List.append_assoc]

theorem formals_opens {t : Text} {d : Definition} (h : read? t = some d) :
    d.formals.head? = some '(' := by
  obtain ⟨_, w, -, rfl⟩ := read?_eq_some_iff.1 h
  exact w.opens

end RdStubs.Definition
