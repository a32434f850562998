import RdStubs.Definition
import RdStubs.Proofs.Text.Blank

/-!
# How a definition is written

A wording is one way to write a definition, piece by piece: the call up to the class expression,
`signature =` where it is not part of that expression, the expression, the lead from there to the
parameter list, and the list with everything behind it. Its text is what it looks like in a source.

The reader of a piece returns what stands behind the piece. For each reader it is said here which
texts it accepts and what it returns then.
-/

namespace RdStubs.Definition

open Text

inductive SlotWord where
  | bare
  | quoted (name : Text) (ne_nil : name ≠ []) (plain : '"' ∉ name)

def SlotWord.text : SlotWord → Text
  | bare => placeholderWord
  | quoted name _ _ => '"' :: name ++ ['"']

def SlotWord.slot : SlotWord → NameSlot
  | bare => .placeholder
  | quoted name _ _ => if name = placeholderWord then .placeholder else .quoted name

/-- What stands in front of the class expression, but for `signature =`. -/
structure Call where
  indent : Gap
  replaces : Bool
  beforeParen : Gap
  beforeSlot : Gap
  word : SlotWord
  behindSlot : Gap
  behindComma : Gap

def Call.text (call : Call) : Text :=
  call.indent ++ ("set".toList ++ ((if call.replaces then "Replace".toList else []) ++
    ("Method".toList ++ (call.beforeParen ++ ("(".toList ++ (call.beforeSlot ++ (call.word.text ++
      (call.behindSlot ++ (",".toList ++ call.behindComma)))))))))

/-- The words `signature =`, with the blanks around the sign. -/
structure Label where
  beforeSign : Gap
  behindSign : Gap

def Label.text (label : Label) : Text :=
  "signature".toList ++ (label.beforeSign ++ ("=".toList ++ label.behindSign))

/-- A comma and the word `function`, with the blanks around both. -/
structure Lead where
  beforeComma : Gap
  behindComma : Gap
  behindWord : Gap

def Lead.text (lead : Lead) : Text :=
  lead.beforeComma ++ ',' :: (lead.behindComma ++ ("function".toList ++ lead.behindWord))

structure Wording where
  call : Call
  label? : Option Label
  classExpr : Text
  tight : Tight classExpr
  lead : Lead
  formals : Text
  opens : formals.head? = some '('

namespace Wording

def labelText (w : Wording) : Text := (w.label?.map Label.text).getD []

def body (w : Wording) : Text := w.classExpr ++ (w.lead.text ++ w.formals)

def rest (w : Wording) : Text := w.labelText ++ w.body

def text (w : Wording) : Text := w.call.text ++ w.rest

def definition (w : Wording) : Definition := ⟨w.call.word.slot, w.classExpr, w.formals⟩

end Wording

/-- Some comma of the text is followed by a parameter list. -/
def HasFormals (s : Text) : Prop :=
  ∃ (before : Text) (lead : Lead) (formals : Text),
    before ++ (lead.text ++ formals) = s ∧ formals.head? = some '('

theorem after?_eq_some_iff {w : String} {s t : Text} : after? w s = some t ↔ w.toList ++ t = s :=
  List.isPrefixOf?_eq_some_iff_append_eq

theorem after?_append (w : String) (t : Text) : after? w (w.toList ++ t) = some t :=
  after?_eq_some_iff.2 rfl

theorem slot?_quoted {name : Text} (hne : name ≠ []) (hplain : '"' ∉ name) (t : Text) :
    slot? ('"' :: (name ++ '"' :: t)) =
      some (if name = placeholderWord then .placeholder else .quoted name, t) := by
  have hall : ∀ c ∈ name, decide (c ≠ '"') = true := by
    intro c hc
    simpa using fun h : c = '"' => hplain (h ▸ hc)
  have htake : (name ++ '"' :: t).takeWhile (fun c => decide (c ≠ '"')) = name := by
    rw [List.takeWhile_append_of_pos hall]
    simp
  have hdrop : (name ++ '"' :: t).dropWhile (fun c => decide (c ≠ '"')) = '"' :: t := by
    rw [List.dropWhile_append_of_pos hall]
    simp
  have hquote : after? "\"" ('"' :: (name ++ '"' :: t)) = some (name ++ '"' :: t) :=
    after?_append "\"" _
  unfold slot?
  simp only [hquote, htake, hdrop, if_neg hne]

theorem slot?_bare (t : Text) : slot? (placeholderWord ++ t) = some (.placeholder, t) := by
  have hquote : after? "\"" (placeholderWord ++ t) = none := rfl
  have hword : placeholderWord.isPrefixOf? (placeholderWord ++ t) = some t :=
    List.isPrefixOf?_eq_some_iff_append_eq.2 rfl
  simp only [slot?, hquote, hword, Option.map_some]

theorem slot?_text (word : SlotWord) (t : Text) :
    slot? (word.text ++ t) = some (word.slot, t) := by
  cases word with
  | bare => exact slot?_bare t
  | quoted name hne hplain =>
    have htext : (SlotWord.quoted name hne hplain).text ++ t = '"' :: (name ++ '"' :: t) := by
      simp [SlotWord.text]
    rw [htext]
    exact slot?_quoted hne hplain t

theorem slot?_eq_some_iff {s t : Text} {slot : NameSlot} :
    slot? s = some (slot, t) ↔ ∃ word : SlotWord, word.text ++ t = s ∧ word.slot = slot := by
  constructor
  · intro h
    cases hquote : after? "\"" s with
    | none =>
      simp only [slot?, hquote, Option.map_eq_some_iff] at h
      obtain ⟨t', ht', heq⟩ := h
      cases heq
      exact ⟨.bare, List.isPrefixOf?_eq_some_iff_append_eq.1 ht', rfl⟩
    | some u =>
      have hsplit := List.takeWhile_append_dropWhile (p := fun c => decide (c ≠ '"')) (l := u)
      have hplain : '"' ∉ u.takeWhile (fun c => decide (c ≠ '"')) := by
        intro hmem
        have hne := List.mem_takeWhile_imp hmem
        simp at hne
      have hend := List.head?_dropWhile_not (fun c => decide (c ≠ '"')) u
      simp only [slot?, hquote] at h
      split at h
      · next c rest hdrop =>
        rw [hdrop, List.head?_cons] at hend
        obtain rfl : c = '"' := by simpa using hend
        split at h
        · cases h
        · next hne =>
          cases h
          rw [hdrop] at hsplit
          refine ⟨.quoted _ hne hplain, ?_, rfl⟩
          rw [← after?_eq_some_iff.1 hquote, SlotWord.text, List.append_assoc]
          exact congrArg ('"' :: ·) hsplit
      · cases h
  · rintro ⟨word, rfl, rfl⟩
    exact slot?_text word t

def call? (s : Text) : Option (NameSlot × Text) := do
  let s ← after? "set" (dropBlank s)
  let s ← after? "Method" ((after? "Replace" s).getD s)
  let s ← after? "(" (dropBlank s)
  let (slot, s) ← slot? (dropBlank s)
  let s ← after? "," (dropBlank s)
  some (slot, dropBlank s)

theorem after?_replace (replaces : Bool) (t : Text) :
    (after? "Replace" ((if replaces then "Replace".toList else []) ++ ("Method".toList ++ t))).getD
      ((if replaces then "Replace".toList else []) ++ ("Method".toList ++ t)) =
        "Method".toList ++ t := by
  cases replaces with
  | true => rw [if_pos rfl, after?_append, Option.getD_some]
  | false => rfl

theorem dropBlank_gap_append_word (g : Gap) {w : Text} (h : dropBlank w = w) (hne : w ≠ [])
    (t : Text) : dropBlank (g ++ (w ++ t)) = w ++ t := by
  rw [dropBlank_gap_append, dropBlank_append h hne]

theorem SlotWord.dropBlank_text (word : SlotWord) : dropBlank word.text = word.text := by
  cases word <;> rfl

theorem SlotWord.text_ne_nil (word : SlotWord) : word.text ≠ [] := by
  cases word <;> simp [SlotWord.text, placeholderWord]

theorem call?_text (call : Call) {t : Text} (ht : dropBlank t = t) :
    call? (call.text ++ t) = some (call.word.slot, t) := by
  simp only [call?, Call.text, List.append_assoc, Option.bind_eq_bind]
  rw [dropBlank_gap_append_word _ rfl (by decide), after?_append, Option.bind_some, after?_replace,
    after?_append, Option.bind_some, dropBlank_gap_append_word _ rfl (by decide), after?_append,
    Option.bind_some,
    dropBlank_gap_append_word _ call.word.dropBlank_text call.word.text_ne_nil, slot?_text,
    Option.bind_some, dropBlank_gap_append_word _ rfl (by decide), after?_append, Option.bind_some,
    dropBlank_gap_append, ht]

theorem call?_eq_some_iff {s t : Text} {slot : NameSlot} :
    call? s = some (slot, t) ↔
      ∃ call : Call, call.text ++ t = s ∧ call.word.slot = slot ∧ dropBlank t = t := by
  constructor
  · intro h
    simp only [call?, Option.bind_eq_bind, Option.bind_eq_some_iff, Option.some.injEq] at h
    obtain ⟨s₁, h₁, s₂, h₂, s₃, h₃, ⟨slot', s₄⟩, h₄, s₅, h₅, heq⟩ := h
    cases heq
    obtain ⟨indent, hindent⟩ := exists_gap_append_dropBlank s
    obtain ⟨beforeParen, hbeforeParen⟩ := exists_gap_append_dropBlank s₂
    obtain ⟨beforeSlot, hbeforeSlot⟩ := exists_gap_append_dropBlank s₃
    obtain ⟨word, hword, rfl⟩ := slot?_eq_some_iff.1 h₄
    obtain ⟨behindSlot, hbehindSlot⟩ := exists_gap_append_dropBlank s₄
    obtain ⟨behindComma, hbehindComma⟩ := exists_gap_append_dropBlank s₅
    obtain ⟨replaces, hreplaces⟩ : ∃ replaces : Bool,
        (if replaces then "Replace".toList else []) ++ ("Method".toList ++ s₂) = s₁ := by
      rw [after?_eq_some_iff] at h₂
      cases hreplace : after? "Replace" s₁ with
      | none => exact ⟨false, by simpa [hreplace] using h₂⟩
      | some u =>
        rw [hreplace, Option.getD_some] at h₂
        exact ⟨true, by rw [h₂, if_pos rfl, after?_eq_some_iff.1 hreplace]⟩
    refine ⟨⟨indent, replaces, beforeParen, beforeSlot, word, behindSlot, behindComma⟩, ?_, rfl,
      dropBlank_dropBlank s₅⟩
    rw [after?_eq_some_iff] at h₁ h₃ h₅
    simp only [Call.text, List.append_assoc]
    rw [hbehindComma, h₅, hbehindSlot, hword, hbeforeSlot, h₃, hbeforeParen, hreplaces, h₁, hindent]
  · rintro ⟨call, rfl, rfl, ht⟩
    exact call?_text call ht

theorem formals?_eq_some_iff {s formals : Text} :
    formals? s = some formals ↔
      formals.head? = some '(' ∧
        ∃ g g' : Gap, g ++ ("function".toList ++ (g' ++ formals)) = s := by
  constructor
  · intro h
    simp only [formals?, Option.bind_eq_bind, Option.bind_eq_some_iff] at h
    obtain ⟨t, ht, h⟩ := h
    split at h
    · next hparen =>
      cases h
      obtain ⟨g, hg⟩ := exists_gap_append_dropBlank s
      obtain ⟨g', hg'⟩ := exists_gap_append_dropBlank t
      refine ⟨hparen, g, g', ?_⟩
      rw [hg', after?_eq_some_iff.1 ht, hg]
    · cases h
  · rintro ⟨hparen, g, g', rfl⟩
    obtain ⟨t, rfl⟩ := List.head?_eq_some_iff.1 hparen
    have hlist : dropBlank (g' ++ '(' :: t) = '(' :: t := by
      rw [dropBlank_gap_append, dropBlank_cons (by decide)]
    simp only [formals?, dropBlank_gap_append_word g (w := "function".toList) rfl (by decide),
      after?_append, Option.bind_eq_bind, Option.bind_some, hlist, List.head?_cons, if_true]

/-- Nothing of what stands between a comma and its parameter list is a comma or a parenthesis. -/
theorem not_mem_behind_comma {c : Char} (h : c = ',' ∨ c = '(') (g g' : Gap) :
    c ∉ g ++ ("function".toList ++ g'.1) := by
  have hblank : isBlank c = false := by
    rcases h with rfl | rfl <;> decide
  have hword : c ∉ "function".toList := by
    rcases h with rfl | rfl <;> decide
  simp only [List.mem_append, not_or]
  exact ⟨not_mem_gap hblank g, hword, not_mem_gap hblank g'⟩

theorem cutAtFormals?_append {s before formals : Text}
    (h : cutAtFormals? s = some (before, formals)) (front : Text) :
    cutAtFormals? (front ++ s) = some (front ++ before, formals) := by
  induction front with
  | nil => exact h
  | cons c front ih => rw [List.cons_append, cutAtFormals?, ih, List.cons_append]

theorem cutAtFormals?_append_of_eq_none {front s : Text} (hfront : ',' ∉ front)
    (h : cutAtFormals? s = none) : cutAtFormals? (front ++ s) = none := by
  induction front with
  | nil => exact h
  | cons c front ih =>
    obtain ⟨hc, hrest⟩ := not_or.1 (mt List.mem_cons.2 hfront)
    rw [List.cons_append, cutAtFormals?, ih hrest]
    exact if_neg (Ne.symm hc)

/-- The cut is at the last comma with a parameter list behind it. -/
theorem cutAtFormals?_eq_some_iff {s before formals : Text} :
    cutAtFormals? s = some (before, formals) ↔
      ∃ t, before ++ ',' :: t = s ∧ formals? t = some formals ∧ cutAtFormals? t = none := by
  induction s generalizing before formals with
  | nil => simp [cutAtFormals?]
  | cons c s ih =>
    cases hcut : cutAtFormals? s with
    | some cut =>
      obtain ⟨before', formals'⟩ := cut
      obtain ⟨t', hs, hformals, hnone⟩ := ih.1 hcut
      rw [cutAtFormals?, hcut]
      constructor
      · rintro ⟨⟩
        exact ⟨t', congrArg (c :: ·) hs, hformals, hnone⟩
      · rintro ⟨t, ht, hformals, hlast⟩
        cases before with
        | nil =>
          obtain ⟨rfl, rfl⟩ := List.cons.inj ht
          exact absurd (hcut.symm.trans hlast) (by simp)
        | cons b before =>
          obtain ⟨rfl, hs'⟩ := List.cons.inj ht
          have heq := hcut.symm.trans (ih.2 ⟨t, hs', hformals, hlast⟩)
          obtain ⟨rfl, rfl⟩ := Prod.mk.inj (Option.some.inj heq)
          rfl
    | none =>
      rw [cutAtFormals?, hcut]
      constructor
      · intro h
        dsimp only at h
        split at h
        · next hc =>
          obtain ⟨formals', hformals, heq⟩ := Option.map_eq_some_iff.1 h
          cases heq
          exact ⟨s, by rw [hc, List.nil_append], hformals, hcut⟩
        · cases h
      · rintro ⟨t, ht, hformals, hlast⟩
        cases before with
        | nil =>
          obtain ⟨rfl, rfl⟩ := List.cons.inj ht
          dsimp only
          rw [if_pos rfl, hformals, Option.map_some]
        | cons b before =>
          obtain ⟨rfl, hs'⟩ := List.cons.inj ht
          exact absurd (hcut.symm.trans (ih.2 ⟨t, hs', hformals, hlast⟩)) (by simp)

theorem exists_cutAtFormals? {t formals : Text} (h : formals? t = some formals) (before : Text) :
    ∃ before' formals', cutAtFormals? (before ++ ',' :: t) = some (before', formals') ∧
      before <+: before' := by
  obtain ⟨before', formals', hcut⟩ : ∃ before' formals',
      cutAtFormals? (',' :: t) = some (before', formals') := by
    rw [cutAtFormals?]
    cases cutAtFormals? t with
    | some cut => exact ⟨_, _, rfl⟩
    | none => exact ⟨[], formals, by simp [h]⟩
  exact ⟨before ++ before', formals', cutAtFormals?_append hcut before, List.prefix_append _ _⟩

theorem hasFormals_iff {s : Text} : HasFormals s ↔ cutAtFormals? s ≠ none := by
  constructor
  · rintro ⟨before, lead, formals, rfl, hparen⟩ hnone
    have hformals : formals? (lead.behindComma ++ ("function".toList ++
        (lead.behindWord ++ formals))) = some formals :=
      formals?_eq_some_iff.2 ⟨hparen, _, _, rfl⟩
    obtain ⟨_, _, hcut, -⟩ := exists_cutAtFormals? hformals (before ++ lead.beforeComma)
    simp only [Lead.text, List.append_assoc, List.cons_append] at hnone hcut
    exact absurd (hcut.symm.trans hnone) (by simp)
  · intro h
    obtain ⟨⟨before, formals⟩, hcut⟩ := Option.ne_none_iff_exists'.1 h
    obtain ⟨t, rfl, hformals, -⟩ := cutAtFormals?_eq_some_iff.1 hcut
    obtain ⟨hparen, g, g', rfl⟩ := formals?_eq_some_iff.1 hformals
    refine ⟨before, ⟨⟨[], List.forall_mem_nil _⟩, g, g'⟩, formals, ?_, hparen⟩
    simp [Lead.text]

theorem classAndFormals?_eq_some_iff {s classExpr formals : Text} :
    classAndFormals? s = some (classExpr, formals) ↔
      Tight classExpr ∧ formals.head? = some '(' ∧ ¬ HasFormals formals ∧
        ∃ lead : Lead, classExpr ++ (lead.text ++ formals) = s := by
  simp only [hasFormals_iff, not_not]
  constructor
  · intro h
    cases s with
    | nil => cases h
    | cons c s =>
      rw [classAndFormals?] at h
      split at h
      · cases h
      · next hblank =>
        obtain ⟨⟨before, formals'⟩, hcut, heq⟩ := Option.map_eq_some_iff.1 h
        cases heq
        obtain ⟨t, rfl, hformals, hlast⟩ := cutAtFormals?_eq_some_iff.1 hcut
        obtain ⟨hparen, g, g', rfl⟩ := formals?_eq_some_iff.1 hformals
        obtain ⟨beforeComma, hbefore⟩ := exists_trimEnd_append_gap (c :: before)
        refine ⟨tight_trimEnd_cons (eq_false_of_ne_true hblank) before, hparen, ?_,
          ⟨beforeComma, g, g'⟩, ?_⟩
        · -- a later cut in the list would be a later cut in the whole
          cases hlater : cutAtFormals? formals with
          | none => rfl
          | some cut =>
            have hwhole := cutAtFormals?_append hlater (g ++ ("function".toList ++ g'.1))
            simp only [List.append_assoc] at hwhole
            exact absurd (hwhole.symm.trans hlast) (by simp)
        · simp only [Lead.text, List.append_assoc, List.cons_append]
          rw [← List.append_assoc, hbefore, List.cons_append]
  · rintro ⟨htight, hparen, hlast, lead, rfl⟩
    obtain ⟨c, t, rfl, hblank⟩ := htight.eq_cons
    have hcut : cutAtFormals? (t ++ (lead.text ++ formals)) =
        some (t ++ lead.beforeComma, formals) := by
      refine cutAtFormals?_eq_some_iff.2
        ⟨lead.behindComma ++ ("function".toList ++ (lead.behindWord ++ formals)), ?_,
          formals?_eq_some_iff.2 ⟨hparen, _, _, rfl⟩, ?_⟩
      · simp [Lead.text]
      · have hnone := cutAtFormals?_append_of_eq_none
          (not_mem_behind_comma (.inl rfl) lead.behindComma lead.behindWord) hlast
        simpa only [List.append_assoc] using hnone
    rw [List.cons_append, classAndFormals?, hblank, hcut]
    simp only [Bool.false_eq_true, if_false, Option.map_some]
    rw [← List.cons_append, trimEnd_append_gap, htight.trimEnd_eq]

/-- The reader takes a class expression as long as any that could be cut off in front of a lead. -/
theorem exists_classAndFormals?_cons {c : Char} {formals : Text} (hblank : isBlank c = false)
    (s : Text) (lead : Lead) (hparen : formals.head? = some '(') :
    ∃ classExpr formals',
      classAndFormals? (c :: (s ++ (lead.text ++ formals))) = some (classExpr, formals') ∧
        ∀ p, Tight p → p <+: c :: s → p.length ≤ classExpr.length := by
  have hformals : formals? (lead.behindComma ++ ("function".toList ++
      (lead.behindWord ++ formals))) = some formals :=
    formals?_eq_some_iff.2 ⟨hparen, _, _, rfl⟩
  obtain ⟨before, formals', hcut, hlonger⟩ :=
    exists_cutAtFormals? hformals (s ++ lead.beforeComma)
  have htext : s ++ (lead.text ++ formals) = (s ++ lead.beforeComma) ++ ',' ::
      (lead.behindComma ++ ("function".toList ++ (lead.behindWord ++ formals))) := by
    simp [Lead.text]
  refine ⟨trimEnd (c :: before), formals', ?_, fun p hp hstart => ?_⟩
  · rw [classAndFormals?, hblank, htext, hcut]
    rfl
  · have hcons : c :: s <+: c :: before :=
      List.cons_prefix_cons.2 ⟨rfl, (List.prefix_append s lead.beforeComma).trans hlonger⟩
    exact hp.length_le_trimEnd (hstart.trans hcons)

theorem exists_classAndFormals? {classExpr formals : Text} (htight : Tight classExpr) (lead : Lead)
    (hparen : formals.head? = some '(') :
    ∃ classExpr' formals', classAndFormals? (classExpr ++ (lead.text ++ formals)) =
      some (classExpr', formals') ∧ classExpr.length ≤ classExpr'.length := by
  obtain ⟨c, s, rfl, hblank⟩ := htight.eq_cons
  obtain ⟨classExpr', formals', hread, hlongest⟩ :=
    exists_classAndFormals?_cons hblank s lead hparen
  exact ⟨classExpr', formals', hread, hlongest _ htight (List.prefix_refl _)⟩

theorem Label.text_append (label : Label) (t : Text) :
    label.text ++ t = "signature".toList ++ (label.beforeSign ++ ("=".toList ++
      (label.behindSign ++ t))) := by
  unfold Label.text
  simp only [List.append_assoc]

theorem Label.dropBlank_text_append (label : Label) (t : Text) :
    dropBlank (label.text ++ t) = label.text ++ t := by
  rw [label.text_append, dropBlank_append rfl (by decide)]

theorem afterSignature?_text (label : Label) {t : Text} (ht : dropBlank t = t) :
    afterSignature? (label.text ++ t) = some t := by
  rw [label.text_append]
  simp only [afterSignature?, Option.bind_eq_bind]
  rw [after?_append, Option.bind_some, dropBlank_gap_append_word _ rfl (by decide), after?_append,
    Option.bind_some, dropBlank_gap_append, ht]

theorem afterSignature?_eq_some_iff {s t : Text} :
    afterSignature? s = some t ↔ ∃ label : Label, label.text ++ t = s ∧ dropBlank t = t := by
  constructor
  · intro h
    simp only [afterSignature?, Option.bind_eq_bind, Option.bind_eq_some_iff] at h
    obtain ⟨s₁, h₁, s₂, h₂, ⟨⟩⟩ := h
    obtain ⟨beforeSign, hbefore⟩ := exists_gap_append_dropBlank s₁
    obtain ⟨behindSign, hbehind⟩ := exists_gap_append_dropBlank s₂
    refine ⟨⟨beforeSign, behindSign⟩, ?_, dropBlank_dropBlank s₂⟩
    rw [Label.text_append, hbehind, after?_eq_some_iff.1 h₂, hbefore, after?_eq_some_iff.1 h₁]
  · rintro ⟨label, rfl, ht⟩
    exact afterSignature?_text label ht

def rest? (s : Text) : Option (Text × Text) :=
  (afterSignature? s).bind classAndFormals? <|> classAndFormals? s

theorem rest?_eq_some_iff {s : Text} {found : Text × Text} :
    rest? s = some found ↔
      (afterSignature? s).bind classAndFormals? = some found ∨
        (afterSignature? s).bind classAndFormals? = none ∧ classAndFormals? s = some found := by
  rw [rest?, Option.orElse_eq_orElse, Option.orElse_eq_or, Option.or_eq_some_iff]

theorem readHere?_eq_some_iff {s : Text} {d : Definition} :
    readHere? s = some d ↔
      ∃ t, call? s = some (d.slot, t) ∧ rest? t = some (d.classExpr, d.formals) := by
  have hread : readHere? s = (call? s).bind fun found =>
      (rest? found.2).map fun pieces => ⟨found.1, pieces.1, pieces.2⟩ := by
    simp only [readHere?, call?, rest?, Option.bind_eq_bind, Option.bind_assoc, Option.bind_some,
      Option.map_eq_bind, Function.comp_def]
  rw [hread]
  constructor
  · intro h
    obtain ⟨⟨slot, t⟩, hcall, h⟩ := Option.bind_eq_some_iff.1 h
    obtain ⟨⟨classExpr, formals⟩, hrest, rfl⟩ := Option.map_eq_some_iff.1 h
    exact ⟨t, hcall, hrest⟩
  · rintro ⟨t, hcall, hrest⟩
    rw [hcall, Option.bind_some]
    exact Option.map_eq_some_iff.2 ⟨_, hrest, rfl⟩

end RdStubs.Definition
