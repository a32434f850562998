import RdStubs.Directive
import RdStubs.Proofs.Text.Blank
import RdStubs.Proofs.Text.Marks

/-!
# How directives are written

A line is read by what it is trimmed to, so blanks around it never matter. A line that redirects has
two fields or more behind the sign; a line that lists a name in quotes may have a comma behind it,
and the name is what stands between the quotes, whatever it looks like.
-/

namespace RdStubs.Directive

open Text

theorem ofLine_of_trim_eq {line line' : Text} (h : trim line = trim line') :
    ofLine line = ofLine line' := by
  unfold ofLine listedName
  rw [h]

theorem ofLine_append_gap (line : Text) (g : Gap) : ofLine (line ++ g) = ofLine line :=
  ofLine_of_trim_eq (trim_append_gap line g)

def LineOpens (line : Text) : Prop := ∃ g g' : Gap, line = g ++ ("#+".toList ++ g')

def LineCloses (line : Text) : Prop := ∃ g g' : Gap, line = g ++ ("#-".toList ++ g')

def LineMaps (line spec : Text) : Prop := ∃ g : Gap, line = g ++ '#' :: '=' :: spec

/-- The line has none of these signs, so it is read as a name. -/
structure Signless (line : Text) : Prop where
  not_opens : ¬ LineOpens line
  not_closes : ¬ LineCloses line
  not_maps (spec : Text) : ¬ LineMaps line spec

/-- The line is a redirect of `raw` to `page`: `#=` behind nothing but blanks, and at least two
fields behind the sign, of which these are the first. -/
def LineRedirects (line raw page : Text) : Prop :=
  ∃ (g : Gap) (spec : Text) (more : List Text),
    line = g ++ '#' :: '=' :: spec ∧ fields spec = raw :: page :: more

theorem ofFields_eq_redirect_iff {names : List Text} {raw page : Text} :
    ofFields names = .redirect raw page ↔ ∃ more, names = raw :: page :: more := by
  rcases names with _ | ⟨first, _ | ⟨second, more⟩⟩ <;> simp [ofFields]

theorem ofLine_mapping (g : Gap) (spec : Text) :
    ofLine (g ++ '#' :: '=' :: spec) = ofFields (fields spec) := by
  obtain ⟨g', hg'⟩ := exists_trimEnd_append_gap spec
  have hsign : Tight ['#', '='] := ⟨⟨'#', rfl, by decide⟩, '=', rfl, by decide⟩
  have htrim : trim (g ++ '#' :: '=' :: spec) = '#' :: '=' :: trimEnd spec := by
    rw [trim_gap_append, trim, dropBlank_cons (by decide)]
    exact hsign.trimEnd_append spec
  have hfields : fields (trimEnd spec) = fields spec := by
    rw [← fields_append_gap (trimEnd spec) g', hg']
  rw [ofLine, htrim]
  exact congrArg ofFields hfields

theorem ofLine_eq_redirect_iff {line raw page : Text} :
    ofLine line = .redirect raw page ↔ LineRedirects line raw page := by
  constructor
  · intro h
    obtain ⟨g, g', hline⟩ := exists_gaps_append_trim line
    unfold ofLine at h
    split at h
    · cases h
    · cases h
    · next spec hspec =>
      obtain ⟨more, hmore⟩ := ofFields_eq_redirect_iff.1 h
      refine ⟨g, spec ++ g', more, ?_, (fields_append_gap spec g').trans hmore⟩
      rw [← hline, hspec, List.cons_append, List.cons_append]
    · cases h
  · rintro ⟨g, spec, more, rfl, hmore⟩
    rw [ofLine_mapping, hmore, ofFields]

theorem lineOpens_iff {line : Text} : LineOpens line ↔ trim line = "#+".toList := by
  have hsign : Tight "#+".toList := ⟨⟨'#', rfl, by decide⟩, '+', rfl, by decide⟩
  exact hsign.trim_eq_iff.symm

theorem lineCloses_iff {line : Text} : LineCloses line ↔ trim line = "#-".toList := by
  have hsign : Tight "#-".toList := ⟨⟨'#', rfl, by decide⟩, '-', rfl, by decide⟩
  exact hsign.trim_eq_iff.symm

instance : DecidablePred LineOpens := fun _ => decidable_of_iff _ lineOpens_iff.symm

instance : DecidablePred LineCloses := fun _ => decidable_of_iff _ lineCloses_iff.symm

theorem LineOpens.ofLine_eq {line : Text} (h : LineOpens line) : ofLine line = .opens := by
  rw [ofLine, lineOpens_iff.1 h]
  rfl

theorem LineCloses.ofLine_eq {line : Text} (h : LineCloses line) : ofLine line = .closes := by
  rw [ofLine, lineCloses_iff.1 h]
  rfl

theorem LineMaps.ofLine_eq {line spec : Text} (h : LineMaps line spec) :
    ofLine line = ofFields (fields spec) := by
  obtain ⟨g, rfl⟩ := h
  exact ofLine_mapping g spec

theorem LineMaps.redirect_or_incomplete {line spec : Text} (h : LineMaps line spec) :
    (∃ raw page, ofLine line = .redirect raw page) ∨ ofLine line = .incomplete := by
  rw [h.ofLine_eq]
  unfold ofFields
  split
  · exact .inl ⟨_, _, rfl⟩
  · exact .inr rfl

/-- A line has one of the three signs, or it is read as a name. -/
theorem ofLine_cases (line : Text) :
    LineOpens line ∨ LineCloses line ∨ (∃ spec, LineMaps line spec) ∨
      ofLine line = .name (listedName line) := by
  obtain ⟨g, g', hline⟩ := exists_gaps_append_trim line
  rw [ofLine]
  split
  case h_1 htrim => exact .inl ⟨g, g', by rw [← hline, htrim]; rfl⟩
  case h_2 htrim => exact .inr (.inl ⟨g, g', by rw [← hline, htrim]; rfl⟩)
  case h_3 spec htrim =>
    exact .inr (.inr (.inl ⟨spec ++ g', g, by
      rw [← hline, htrim, List.cons_append, List.cons_append]⟩))
  case h_4 => exact .inr (.inr (.inr rfl))

theorem ofLine_eq_opens_iff {line : Text} : ofLine line = .opens ↔ LineOpens line := by
  constructor
  · intro h
    rcases ofLine_cases line with hline | hline | ⟨spec, hline⟩ | hline
    · exact hline
    · simp [hline.ofLine_eq] at h
    · rcases hline.redirect_or_incomplete with ⟨_, _, hmaps⟩ | hmaps <;> simp [hmaps] at h
    · simp [hline] at h
  · exact LineOpens.ofLine_eq

theorem ofLine_eq_closes_iff {line : Text} : ofLine line = .closes ↔ LineCloses line := by
  constructor
  · intro h
    rcases ofLine_cases line with hline | hline | ⟨spec, hline⟩ | hline
    · simp [hline.ofLine_eq] at h
    · exact hline
    · rcases hline.redirect_or_incomplete with ⟨_, _, hmaps⟩ | hmaps <;> simp [hmaps] at h
    · simp [hline] at h
  · exact LineCloses.ofLine_eq

theorem signless_of_ofLine {line n : Text} (h : ofLine line = .name n) : Signless line where
  not_opens hline := by simp [hline.ofLine_eq] at h
  not_closes hline := by simp [hline.ofLine_eq] at h
  not_maps spec hline := by
    rcases hline.redirect_or_incomplete with ⟨_, _, hmaps⟩ | hmaps <;> simp [hmaps] at h

theorem signless_iff {line : Text} : Signless line ↔ ofLine line = .name (listedName line) := by
  refine ⟨fun h => ?_, signless_of_ofLine⟩
  rcases ofLine_cases line with hline | hline | ⟨spec, hline⟩ | hline
  · exact absurd hline h.not_opens
  · exact absurd hline h.not_closes
  · exact absurd hline (h.not_maps spec)
  · exact hline

instance : DecidablePred Signless := fun _ => decidable_of_iff _ signless_iff.symm

theorem eq_listedName_of_ofLine {line n : Text} (h : ofLine line = .name n) :
    n = listedName line := by
  rw [signless_iff.1 (signless_of_ofLine h)] at h
  exact (Directive.name.inj h).symm

theorem ofLine_eq_name {line : Text} (h : (trim line).head? ≠ some '#') :
    ofLine line = .name (listedName line) := by
  unfold ofLine
  split
  · next heq => simp [heq] at h
  · next heq => simp [heq] at h
  · next heq => simp [heq] at h
  · rfl

theorem dropComma_comma (s : Text) : dropComma (s ++ [',']) = trimEnd s := by
  rw [dropComma, List.getLast?_concat, if_pos rfl, List.dropLast_concat]

structure NameLine where
  name : Text
  ne_nil : name ≠ []
  plain : '"' ∉ name
  indent : Gap
  behindQuote : Gap
  comma : Bool
  trailing : Gap

namespace NameLine

variable (line : NameLine)

def text : Text :=
  line.indent ++ (marked '"' line.name ++
    (line.behindQuote ++ ((if line.comma then [','] else []) ++ line.trailing)))

theorem tight_marked : Tight (marked '"' line.name) :=
  ⟨⟨'"', rfl, by decide⟩, '"', getLast?_marked '"' line.name, by decide⟩

theorem tight_comma : Tight (marked '"' line.name ++ (line.behindQuote ++ [','])) where
  head := ⟨'"', rfl, by decide⟩
  last := ⟨',', by rw [← List.append_assoc, List.getLast?_concat], by decide⟩

/-- The name between its quotes is what is left of the line without blanks and comma. -/
theorem dropComma_trim_text : dropComma (trim line.text) = marked '"' line.name := by
  rw [text, trim_gap_append]
  cases line.comma with
  | true =>
    have htrim := trim_append_gap (marked '"' line.name ++ (line.behindQuote ++ [',']))
      line.trailing
    simp only [List.append_assoc] at htrim
    rw [if_pos rfl, htrim, line.tight_comma.trim_eq, ← List.append_assoc, dropComma_comma,
      trimEnd_append_gap, line.tight_marked.trimEnd_eq]
  | false =>
    rw [if_neg Bool.false_ne_true, List.nil_append, ← List.append_assoc, trim_append_gap,
      trim_append_gap, line.tight_marked.trim_eq]
    rw [dropComma, getLast?_marked, if_neg (by decide)]

theorem head?_dropBlank_text : (dropBlank line.text).head? = some '"' := by
  rw [text, dropBlank_gap_append, line.tight_marked.dropBlank_append]
  rfl

theorem head?_trim_text : (trim line.text).head? = some '"' := by
  rw [text, trim_gap_append]
  exact head?_trim_cons (by decide) _

theorem ofLine_text : ofLine line.text = .name line.name := by
  have hhead : (trim line.text).head? ≠ some '#' := by
    rw [line.head?_trim_text]
    decide
  rw [ofLine_eq_name hhead, listedName, line.dropComma_trim_text,
    unwrap_marked line.ne_nil line.plain]

end NameLine

def Nameless (line : Text) : Prop :=
  (∀ c ∈ line, isBlank c = true) ∨ ∃ g g' : Gap, line = g ++ (",".toList ++ g')

theorem nameless_iff_trim {line : Text} :
    Nameless line ↔ trim line = [] ∨ trim line = ",".toList := by
  have hcomma : Tight ",".toList := ⟨⟨',', rfl, by decide⟩, ',', rfl, by decide⟩
  rw [Nameless, trim_eq_nil_iff, hcomma.trim_eq_iff]

theorem dropComma_eq_nil_iff {s : Text} (h : Tight s) : dropComma s = [] ↔ s = ",".toList := by
  obtain ⟨c, rest, rfl, hc⟩ := h.eq_cons
  constructor
  · intro hdrop
    unfold dropComma at hdrop
    split at hdrop
    · next hlast =>
      obtain ⟨front, hfront⟩ := List.getLast?_eq_some_iff.1 hlast
      rw [hfront, List.dropLast_concat] at hdrop
      have hblank := List.rdropWhile_eq_nil_iff.1 hdrop
      cases front with
      | nil => exact hfront
      | cons d front =>
        obtain ⟨rfl, -⟩ := List.cons.inj hfront
        rw [hblank c List.mem_cons_self] at hc
        cases hc
    · cases hdrop
  · intro hcomma
    rw [hcomma]
    rfl

theorem listedName_eq_nil_iff {line : Text} : listedName line = [] ↔ Nameless line := by
  rw [listedName, unwrap_eq_nil_iff, nameless_iff_trim]
  by_cases htrim : trim line = []
  · rw [htrim]
    exact iff_of_true rfl (.inl rfl)
  · rw [dropComma_eq_nil_iff (tight_trim htrim), or_iff_right htrim]

theorem ofLine_eq_name_nil_iff {line : Text} : ofLine line = .name [] ↔ Nameless line := by
  rw [← listedName_eq_nil_iff]
  constructor
  · exact fun h => (eq_listedName_of_ofLine h).symm
  · intro h
    have hsign : (trim line).head? ≠ some '#' := by
      rcases nameless_iff_trim.1 (listedName_eq_nil_iff.1 h) with htrim | htrim
      all_goals
        rw [htrim]
        decide
    rw [ofLine_eq_name hsign, h]

end RdStubs.Directive
