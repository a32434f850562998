import RdStubs.Proofs.Definition.Wording

/-!
# Which wording is read

A text may be worded as a definition in several ways: from several lines on, with `signature =` as
a label or as part of the class expression, and with a class expression that ends at one comma or
at another. The preferred wording starts first, has a label if it can, and has the longest class
expression then. It is the one that is read, and there is one whenever there is any wording.
-/

namespace RdStubs.Definition

open Text

def EndsLine (before : Text) : Prop := before = [] ∨ before.getLast? = some '\n'

/-- The wording `w` behind `before` is the one that counts among all wordings in the text. -/
structure Preferred (t before : Text) (w : Wording) : Prop where
  endsLine : EndsLine before
  text_eq : before ++ w.text = t
  first (before' : Text) (w' : Wording) :
    EndsLine before' → before' ++ w'.text = t → before.length ≤ before'.length
  labelled (w' : Wording) : w'.text = w.text → w'.label?.isSome → w.label?.isSome
  longest (w' : Wording) : w'.text = w.text → w'.label?.isSome = w.label?.isSome →
    w'.classExpr.length ≤ w.classExpr.length

theorem mem_laterLines {s t : Text} : s ∈ laterLines t ↔ ∃ before, before ++ '\n' :: s = t := by
  induction t with
  | nil => simp [laterLines]
  | cons c t ih =>
    have hstep : (∃ before, before ++ '\n' :: s = c :: t) ↔
        ('\n' = c ∧ s = t) ∨ ∃ before, before ++ '\n' :: s = t := by
      constructor
      · rintro ⟨before, h⟩
        cases before with
        | nil => exact .inl (List.cons.inj h)
        | cons b before => exact .inr ⟨before, (List.cons.inj h).2⟩
      · rintro (⟨rfl, rfl⟩ | ⟨before, rfl⟩)
        · exact ⟨[], rfl⟩
        · exact ⟨c :: before, rfl⟩
    rw [hstep, ← ih, laterLines]
    split
    · next hc => simp [hc]
    · next hc => simp [Ne.symm hc]

theorem mem_lines {s t : Text} :
    s ∈ t :: laterLines t ↔ ∃ before, EndsLine before ∧ before ++ s = t := by
  rw [List.mem_cons, mem_laterLines]
  constructor
  · rintro (rfl | ⟨before, rfl⟩)
    · exact ⟨[], .inl rfl, rfl⟩
    · exact ⟨before ++ ['\n'], .inr (by simp), by simp⟩
  · rintro ⟨before, rfl | hlast, rfl⟩
    · exact .inl rfl
    · obtain ⟨before', rfl⟩ := List.getLast?_eq_some_iff.1 hlast
      exact .inr ⟨before', by simp⟩

theorem length_lt_of_mem_laterLines {s t : Text} (h : s ∈ laterLines t) : s.length < t.length := by
  obtain ⟨before, rfl⟩ := mem_laterLines.1 h
  simp only [List.length_append, List.length_cons]
  omega

theorem pairwise_lines (t : Text) :
    (t :: laterLines t).Pairwise fun s s' => s'.length < s.length := by
  induction t with
  | nil => exact List.pairwise_singleton _ _
  | cons c t ih =>
    rw [List.pairwise_cons]
    refine ⟨fun s => length_lt_of_mem_laterLines, ?_⟩
    rw [laterLines]
    split
    · exact ih
    · exact ih.of_cons

namespace Wording

variable (w : Wording)

theorem dropBlank_body : dropBlank w.body = w.body := w.tight.dropBlank_append _

theorem rest_eq_body (h : w.label? = none) : w.rest = w.body := by
  rw [rest, labelText, h]
  rfl

theorem afterSignature?_rest (h : w.label?.isSome) : afterSignature? w.rest = some w.body := by
  obtain ⟨label, hlabel⟩ := Option.isSome_iff_exists.1 h
  rw [rest, labelText, hlabel]
  exact afterSignature?_text label w.dropBlank_body

theorem dropBlank_rest : dropBlank w.rest = w.rest := by
  cases hlabel : w.label? with
  | none => rw [w.rest_eq_body hlabel, w.dropBlank_body]
  | some label =>
    rw [rest, labelText, hlabel]
    exact label.dropBlank_text_append _

theorem call?_text : call? w.text = some (w.call.word.slot, w.rest) :=
  Definition.call?_text w.call w.dropBlank_rest

theorem exists_classAndFormals?_body : ∃ classExpr formals,
    classAndFormals? w.body = some (classExpr, formals) ∧
      w.classExpr.length ≤ classExpr.length :=
  exists_classAndFormals? w.tight w.lead w.opens

theorem exists_rest? : ∃ classExpr formals, rest? w.rest = some (classExpr, formals) := by
  obtain ⟨classExpr, formals, hread, -⟩ := w.exists_classAndFormals?_body
  unfold rest?
  cases hlabel : w.label? with
  | some label =>
    rw [w.afterSignature?_rest (by simp [hlabel]), Option.bind_some, hread]
    exact ⟨_, _, rfl⟩
  | none =>
    rw [w.rest_eq_body hlabel, hread]
    cases (afterSignature? w.body).bind classAndFormals? with
    | none => exact ⟨_, _, rfl⟩
    | some found => exact ⟨_, _, rfl⟩

theorem exists_readHere?_text : ∃ d, readHere? w.text = some d := by
  obtain ⟨classExpr, formals, hrest⟩ := w.exists_rest?
  exact ⟨⟨_, classExpr, formals⟩, readHere?_eq_some_iff.2 ⟨_, w.call?_text, hrest⟩⟩

variable {w} {w' : Wording}

theorem rest_eq_of_text_eq (h : w.text = w'.text) :
    w.call.word.slot = w'.call.word.slot ∧ w.rest = w'.rest := by
  have hcall := w.call?_text
  rw [h, w'.call?_text, Option.some.injEq, Prod.mk.injEq] at hcall
  exact ⟨hcall.1.symm, hcall.2.symm⟩

theorem body_eq_of_text_eq (h : w.text = w'.text) (hlabel : w.label?.isSome = w'.label?.isSome) :
    w.body = w'.body := by
  have hrest := (rest_eq_of_text_eq h).2
  cases hsome : w.label?.isSome with
  | true =>
    have hafter := w.afterSignature?_rest hsome
    rw [hrest, w'.afterSignature?_rest (hlabel ▸ hsome)] at hafter
    exact (Option.some.inj hafter).symm
  | false =>
    have hnone : w.label? = none := by simpa using hsome
    have hnone' : w'.label? = none := by simpa using hlabel.symm.trans hsome
    rw [← w.rest_eq_body hnone, hrest, w'.rest_eq_body hnone']

end Wording

/-- Where a lead ends, the parameter list is found again. -/
theorem formals_eq_of_lead_append {lead lead' : Lead} {formals formals' : Text}
    (h : lead.text ++ formals = lead'.text ++ formals') (hparen : formals.head? = some '(')
    (hparen' : formals'.head? = some '(') : formals = formals' := by
  have hcut := congrArg dropBlank h
  simp only [Lead.text, List.append_assoc, List.cons_append] at hcut
  rw [dropBlank_gap_append, dropBlank_gap_append, dropBlank_cons (by decide),
    dropBlank_cons (by decide)] at hcut
  have hread := congrArg formals? (List.cons.inj hcut).2
  rw [formals?_eq_some_iff.2 ⟨hparen, _, _, rfl⟩,
    formals?_eq_some_iff.2 ⟨hparen', _, _, rfl⟩] at hread
  exact Option.some.inj hread

theorem exists_wording_of_readHere? {s : Text} {d : Definition} (h : readHere? s = some d) :
    ∃ w : Wording, w.text = s ∧ w.definition = d ∧ ¬ HasFormals w.formals ∧
      (∀ w' : Wording, w'.text = s → w'.label?.isSome → w.label?.isSome) ∧
      ∀ w' : Wording, w'.text = s → w'.label?.isSome = w.label?.isSome →
        w'.classExpr.length ≤ w.classExpr.length := by
  obtain ⟨slot, classExpr, formals⟩ := d
  obtain ⟨t, hcall, hrest⟩ := readHere?_eq_some_iff.1 h
  obtain ⟨call, rfl, rfl, ht⟩ := call?_eq_some_iff.1 hcall
  have hsame (w' : Wording) (hw' : w'.text = call.text ++ t) : w'.rest = t := by
    have hcall' := w'.call?_text
    rw [hw', hcall] at hcall'
    exact (Prod.mk.inj (Option.some.inj hcall')).2.symm
  have hlongest (w' : Wording) {u : Text} (hbody : w'.body = u)
      (hread : classAndFormals? u = some (classExpr, formals)) :
      w'.classExpr.length ≤ classExpr.length := by
    obtain ⟨_, _, hread', hlength⟩ := w'.exists_classAndFormals?_body
    rw [hbody, hread] at hread'
    cases hread'
    exact hlength
  rcases rest?_eq_some_iff.1 hrest with hlabelled | ⟨hunlabelled, hread⟩
  · obtain ⟨u, hafter, hread⟩ := Option.bind_eq_some_iff.1 hlabelled
    obtain ⟨label, rfl, -⟩ := afterSignature?_eq_some_iff.1 hafter
    obtain ⟨htight, hparen, hlast, lead, rfl⟩ := classAndFormals?_eq_some_iff.1 hread
    refine ⟨⟨call, some label, classExpr, htight, lead, formals, hparen⟩, rfl, rfl, hlast,
      fun _ _ _ => rfl, fun w' hw' hlabel => hlongest w' ?_ hread⟩
    have hafter' := w'.afterSignature?_rest hlabel
    rw [hsame w' hw', hafter] at hafter'
    exact (Option.some.inj hafter').symm
  · obtain ⟨htight, hparen, hlast, lead, rfl⟩ := classAndFormals?_eq_some_iff.1 hread
    refine ⟨⟨call, none, classExpr, htight, lead, formals, hparen⟩, rfl, rfl, hlast, ?_, ?_⟩
    · intro w' hw' hlabel
      obtain ⟨_, _, hread', -⟩ := w'.exists_classAndFormals?_body
      rw [← hsame w' hw', w'.afterSignature?_rest hlabel, Option.bind_some, hread'] at hunlabelled
      cases hunlabelled
    · intro w' hw' hlabel
      have hnone : w'.label? = none := by simpa using hlabel
      refine hlongest w' ?_ hread
      rw [← w'.rest_eq_body hnone, hsame w' hw']

theorem Preferred.definition_eq {t before before' : Text} {w w' : Wording}
    (h : Preferred t before w) (h' : Preferred t before' w') : w.definition = w'.definition := by
  have hlength : before.length = before'.length :=
    Nat.le_antisymm (h.first before' w' h'.endsLine h'.text_eq)
      (h'.first before w h.endsLine h.text_eq)
  obtain ⟨-, htext⟩ := List.append_inj (h.text_eq.trans h'.text_eq.symm) hlength
  have hlabel : w.label?.isSome = w'.label?.isSome :=
    Bool.eq_iff_iff.2 ⟨h'.labelled w htext, h.labelled w' htext.symm⟩
  have hclass : w.classExpr.length = w'.classExpr.length :=
    Nat.le_antisymm (h'.longest w htext hlabel) (h.longest w' htext.symm hlabel.symm)
  have hbody := Wording.body_eq_of_text_eq htext hlabel
  obtain ⟨hclass, hlead⟩ := List.append_inj hbody hclass
  have hformals := formals_eq_of_lead_append hlead w.opens w'.opens
  simp only [Wording.definition, (Wording.rest_eq_of_text_eq htext).1, hclass, hformals]

theorem exists_preferred_of_read? {t : Text} {d : Definition} (h : read? t = some d) :
    ∃ before w, Preferred t before w ∧ w.definition = d ∧ ¬ HasFormals w.formals := by
  obtain ⟨earlier, s, later, hlines, hread, hnone⟩ := List.findSome?_eq_some_iff.1 h
  obtain ⟨w, rfl, hdefinition, hlast, hlabelled, hlongest⟩ := exists_wording_of_readHere? hread
  have hmem : w.text ∈ t :: laterLines t := by
    rw [hlines]
    exact List.mem_append_right _ List.mem_cons_self
  obtain ⟨before, hends, htext⟩ := mem_lines.1 hmem
  refine ⟨before, w, ⟨hends, htext, ?_, hlabelled, hlongest⟩, hdefinition, hlast⟩
  intro before' w' hends' htext'
  by_contra hlt
  have hlength := congrArg List.length (htext.trans htext'.symm)
  simp only [List.length_append] at hlength
  have hearlier : w'.text ∈ earlier := by
    have hmem' := mem_lines.2 ⟨before', hends', htext'⟩
    have hpairwise := pairwise_lines t
    rw [hlines] at hmem' hpairwise
    rcases List.mem_append.1 hmem' with hin | hin
    · exact hin
    · rcases List.mem_cons.1 hin with heq | hin
      · rw [heq] at hlength
        omega
      · have hshorter := List.rel_of_pairwise_cons (List.pairwise_append.1 hpairwise).2.1 hin
        omega
  obtain ⟨d', hd'⟩ := w'.exists_readHere?_text
  rw [hnone _ hearlier] at hd'
  cases hd'

theorem exists_read?_of_wording {t before : Text} {w : Wording} (hends : EndsLine before)
    (htext : before ++ w.text = t) : ∃ d, read? t = some d := by
  obtain ⟨d, hread⟩ := w.exists_readHere?_text
  rw [← Option.isSome_iff_exists, read?, List.findSome?_isSome_iff]
  exact ⟨w.text, mem_lines.2 ⟨before, hends, htext⟩, by rw [hread]; rfl⟩

theorem read?_eq_some_iff {t : Text} {d : Definition} :
    read? t = some d ↔ ∃ before w, Preferred t before w ∧ w.definition = d := by
  constructor
  · intro h
    obtain ⟨before, w, hpreferred, hdefinition, -⟩ := exists_preferred_of_read? h
    exact ⟨before, w, hpreferred, hdefinition⟩
  · rintro ⟨before, w, hpreferred, rfl⟩
    obtain ⟨d, hread⟩ := exists_read?_of_wording hpreferred.endsLine hpreferred.text_eq
    obtain ⟨before', w', hpreferred', rfl, -⟩ := exists_preferred_of_read? hread
    rw [hread, hpreferred.definition_eq hpreferred']

theorem Preferred.not_hasFormals {t before : Text} {w : Wording} (h : Preferred t before w) :
    ¬ HasFormals w.formals := by
  obtain ⟨before', w', hpreferred, hdefinition, hlast⟩ :=
    exists_preferred_of_read? (read?_eq_some_iff.2 ⟨before, w, h, rfl⟩)
  have hformals : w'.formals = w.formals := congrArg Definition.formals hdefinition
  exact hformals ▸ hlast

theorem Lead.not_mem_text (lead : Lead) : '(' ∉ lead.text := by
  have hbehind := not_mem_behind_comma (.inr rfl) lead.behindComma lead.behindWord
  simp only [Lead.text, List.mem_append, List.mem_cons, not_or]
  simp only [List.mem_append, not_or] at hbehind
  exact ⟨not_mem_gap (by decide) _, by decide, hbehind⟩

/-- No parameter list behind a comma begins later than one that has none in it. -/
theorem suffix_of_not_hasFormals {t front front' formals formals' : Text} {lead : Lead}
    (htext : front ++ formals = t) (hparen : formals.head? = some '(')
    (hlast : ¬ HasFormals formals) (htext' : front' ++ (lead.text ++ formals') = t)
    (hparen' : formals'.head? = some '(') : formals <:+ formals' := by
  have hsuffix : formals <:+ t := ⟨front, htext⟩
  have hsuffix' : formals' <:+ t := ⟨front' ++ lead.text, by rw [List.append_assoc, htext']⟩
  rcases List.suffix_or_suffix_of_suffix hsuffix hsuffix' with hle | ⟨y, rfl⟩
  · exact hle
  · have hcut : front' ++ lead.text = front ++ y := by
      have hwhole : (front' ++ lead.text) ++ formals' = (front ++ y) ++ formals' := by
        rw [List.append_assoc, htext', List.append_assoc, htext]
      exact List.append_cancel_right hwhole
    rcases List.append_eq_append_iff.1 hcut with ⟨z, -, hlead⟩ | ⟨z, -, rfl⟩
    · -- what precedes the later list would be part of the lead and begin with a parenthesis
      cases y with
      | nil => exact List.suffix_refl _
      | cons c y =>
        have hc : c = '(' := by simpa using hparen
        refine absurd ?_ lead.not_mem_text
        rw [hlead, hc]
        simp
    · exact absurd ⟨z, lead, formals', by rw [List.append_assoc], hparen'⟩ hlast

namespace SlotWord

theorem slot_eq_placeholder_iff (word : SlotWord) :
    word.slot = .placeholder ↔
      word.text = placeholderWord ∨ word.text = '"' :: placeholderWord ++ ['"'] := by
  cases word with
  | bare => exact ⟨fun _ => .inl rfl, fun _ => rfl⟩
  | quoted name hne hplain =>
    have hbare : (SlotWord.quoted name hne hplain).text ≠ placeholderWord := by
      simp [text, placeholderWord]
    by_cases hname : name = placeholderWord
    · simp [slot, text, hname]
    · simpa [slot, hname, text] using hbare

theorem slot_eq_quoted_iff (word : SlotWord) (name : Text) :
    word.slot = .quoted name ↔ name ≠ placeholderWord ∧ word.text = '"' :: name ++ ['"'] := by
  cases word with
  | bare => simp [slot, text, placeholderWord]
  | quoted name' hne hplain =>
    by_cases hname : name' = placeholderWord
    · simp only [slot, hname, if_true, text]
      simp [eq_comm]
    · simp only [slot, if_neg hname, text, NameSlot.quoted.injEq, List.cons_append, List.cons.injEq,
        true_and, List.append_cancel_right_eq]
      exact ⟨fun h => ⟨h ▸ hname, h⟩, fun h => h.2⟩

end SlotWord

theorem quoted_ne_nil {t name : Text} {d : Definition} (h : read? t = some d)
    (hslot : d.slot = .quoted name) : name ≠ [] := by
  obtain ⟨_, w, -, rfl⟩ := read?_eq_some_iff.1 h
  obtain ⟨-, htext⟩ := (w.call.word.slot_eq_quoted_iff name).1 hslot
  rintro rfl
  cases hword : w.call.word with
  | bare =>
    rw [hword] at htext
    exact absurd htext (by decide)
  | quoted name hne _ =>
    rw [hword] at htext
    exact hne (by simpa [SlotWord.text] using htext)

/-- A definition is read from a text exactly when some line begins a wording, and then the
preferred one is read. Its parameter list is the last behind any comma of the text. -/
theorem read?_takes_preferred_wording (t : Text) :
    (opensOn t = true ↔ (read? t).isSome = true) ∧
      ((read? t).isSome = true ↔
        ∃ (before : Text) (w : Wording), EndsLine before ∧ before ++ w.text = t) ∧
      (∀ d, read? t = some d ↔ ∃ before w, Preferred t before w ∧ w.definition = d) ∧
      ∀ before w, Preferred t before w →
        (∀ (front : Text) (lead : Lead) (formals : Text), front ++ (lead.text ++ formals) = t →
          formals.head? = some '(' → w.formals <:+ formals) ∧
        (w.definition.slot = .placeholder ↔
          w.call.word.text = placeholderWord ∨
            w.call.word.text = '"' :: placeholderWord ++ ['"']) ∧
        ∀ name, w.definition.slot = .quoted name ↔
          name ≠ placeholderWord ∧ w.call.word.text = '"' :: name ++ ['"'] := by
  refine ⟨Iff.rfl, ?_, fun d => read?_eq_some_iff, ?_⟩
  · rw [Option.isSome_iff_exists]
    constructor
    · rintro ⟨d, hread⟩
      obtain ⟨before, w, hpreferred, -⟩ := read?_eq_some_iff.1 hread
      exact ⟨before, w, hpreferred.endsLine, hpreferred.text_eq⟩
    · rintro ⟨before, w, hends, htext⟩
      exact exists_read?_of_wording hends htext
  · intro before w hpreferred
    refine ⟨?_, w.call.word.slot_eq_placeholder_iff, w.call.word.slot_eq_quoted_iff⟩
    intro front lead formals htext hparen
    have hfront : (before ++ (w.call.text ++ (w.labelText ++ (w.classExpr ++ w.lead.text)))) ++
        w.formals = t := by
      rw [← hpreferred.text_eq]
      simp only [Wording.text, Wording.rest, Wording.body, List.append_assoc]
    exact suffix_of_not_hasFormals hfront w.opens hpreferred.not_hasFormals htext hparen

end RdStubs.Definition
