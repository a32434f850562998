import RdStubs.Proofs.Method.Shown
import RdStubs.Proofs.Reading.Files
import RdStubs.Proofs.Reading.Openers

/-!
# The brace that ends a statement

A statement may end with a line that ends in a brace, or with no such line in front of the next
opener. In the first case the brace is the one that is taken off the parameter list, with all blanks
behind it; in the second there is none to be taken off. So what a method shows of its list is
decided by the lines of the statement, whichever blanks they end in.
-/

namespace RdStubs

open Text

namespace Source

theorem endsInBrace_iff {line : Text} :
    endsInBrace line = true ↔ ∃ (before : Text) (g : Gap), line = before ++ '\x7b' :: g := by
  rw [endsInBrace, decide_eq_true_eq]
  constructor
  · intro hlast
    obtain ⟨before, htrim⟩ := List.getLast?_eq_some_iff.1 hlast
    obtain ⟨g, hg⟩ := exists_trimEnd_append_gap line
    exact ⟨before, g, by rw [← hg, htrim, List.append_assoc, List.singleton_append]⟩
  · rintro ⟨before, g, rfl⟩
    rw [← List.singleton_append, ← List.append_assoc, trimEnd_append_gap,
      trimEnd_append_singleton (by decide), List.getLast?_concat]

/-- A brace with only blanks up to a later line break ends one of the lines that are finished. -/
theorem exists_endsInBrace {finished : List Text} {last front rest : Text} {g : Gap}
    (hbreak : ∀ line ∈ finished, '\n' ∉ line) (hlast : '\n' ∉ last)
    (h : unlines finished ++ last = front ++ '\x7b' :: (g ++ '\n' :: rest)) :
    ∃ line ∈ finished, endsInBrace line = true := by
  induction finished generalizing front with
  | nil =>
    rw [unlines_nil, List.nil_append] at h
    exact absurd (h ▸ by simp) hlast
  | cons line finished ih =>
    obtain ⟨hline, hfinished⟩ := List.forall_mem_cons.1 hbreak
    rw [unlines_cons, List.append_assoc, List.cons_append] at h
    rcases List.append_eq_append_iff.1 h with ⟨z, -, hz⟩ | ⟨z, hz, hbehind⟩
    · cases z with
      | nil => cases (List.cons.inj hz).1
      | cons c z =>
        obtain ⟨found, hfound, hends⟩ := ih hfinished (List.cons.inj hz).2
        exact ⟨found, List.mem_cons_of_mem line hfound, hends⟩
    · cases z with
      | nil => cases (List.cons.inj hbehind).1
      | cons c z =>
        obtain ⟨rfl, hblanks⟩ := List.cons.inj hbehind
        have hgap : ∀ d ∈ z, isBlank d = true := by
          rcases List.append_eq_append_iff.1 hblanks with ⟨w, rfl, hw⟩ | ⟨w, hw, -⟩
          · cases w with
            | nil => simpa using g.2
            | cons d w =>
              obtain ⟨rfl, -⟩ := List.cons.inj hw
              exact absurd (hz ▸ by simp) hline
          · exact fun d hd => g.2 d (hw ▸ List.mem_append_left w hd)
        exact ⟨line, List.mem_cons_self, endsInBrace_iff.2 ⟨front, ⟨z, hgap⟩, hz⟩⟩

theorem exists_endsInBrace_of_hasBodyBrace {lines : List Text}
    (hbreak : ∀ line ∈ lines, '\n' ∉ line) (h : Formals.HasBodyBrace (unlines lines)) :
    ∃ line ∈ lines, endsInBrace line = true := by
  obtain ⟨before, g, rest, htext, hend⟩ := h
  have hfinished (front : Text) (g' : Gap) (behind : Text)
      (heq : unlines lines = front ++ '\x7b' :: (g' ++ '\n' :: behind)) :
      ∃ line ∈ lines, endsInBrace line = true :=
    exists_endsInBrace hbreak List.not_mem_nil (by rw [List.append_nil, heq])
  rcases hend with rfl | hhead
  · -- the text ends in a line break, which is then the last of the blanks
    have hne : lines ≠ [] := by
      rintro rfl
      simp at htext
    have hlast := getLast?_unlines hne
    rw [htext, List.append_nil] at hlast
    rcases List.eq_nil_or_concat g.1 with hnil | ⟨g', d, hg⟩
    · rw [hnil, List.getLast?_concat] at hlast
      cases hlast
    · rw [List.concat_eq_append] at hg
      rw [hg, ← List.cons_append, ← List.append_assoc, List.getLast?_concat] at hlast
      obtain rfl := Option.some.inj hlast
      have hblank : ∀ c ∈ g', isBlank c = true := fun c hc =>
        g.2 c (hg ▸ List.mem_append_left _ hc)
      exact hfinished before ⟨g', hblank⟩ [] (by rw [htext, List.append_nil, hg])
  · obtain ⟨behind, rfl⟩ := List.head?_eq_some_iff.1 hhead
    exact hfinished before g behind htext

/-- The statement is ended by a brace, not by what comes behind its lines. -/
def Block.EndsInBrace (b : Block) : Prop :=
  ∃ line, b.statementLines.getLast? = some line ∧ endsInBrace line = true

/-- A list that begins with a parenthesis in front of the last brace reaches up to the blanks behind
it, and this brace is the first that ends a line of the list. -/
theorem eraseFirst_of_last_brace {earlier : List Text} {before front formals : Text} {g : Gap}
    (hbreak : ∀ line ∈ earlier, '\n' ∉ line) (hbefore : '\n' ∉ before)
    (hnone : ∀ line ∈ earlier, endsInBrace line = false) (hparen : formals.head? = some '(')
    (htext : front ++ formals = unlines earlier ++ before ++ '\x7b' :: g) :
    ∃ kept, formals = kept ++ '\x7b' :: g ∧ eraseFirst Formals.afterBodyBrace? formals = kept := by
  rw [← List.singleton_append, ← List.append_assoc] at htext
  obtain ⟨list, hlist, rfl, hopens⟩ := Definition.append_gap_cases htext hparen
  have hne : list ≠ [] := by
    rintro rfl
    cases hopens
  obtain ⟨kept, c, rfl⟩ := (List.eq_nil_or_concat list).resolve_left hne
  rw [List.concat_eq_append, ← List.append_assoc] at hlist
  obtain ⟨hkept, hc⟩ := List.append_inj' hlist rfl
  obtain rfl : c = '\x7b' := List.singleton_inj.1 hc
  rw [List.concat_eq_append, List.append_assoc, List.singleton_append]
  refine ⟨kept, rfl, Formals.eraseFirst_last_brace fun front' g' rest hearlier => ?_⟩
  have hwhole : unlines earlier ++ before =
      (front ++ front') ++ '\x7b' :: (g' ++ '\n' :: rest) := by
    rw [← hkept, hearlier, List.append_assoc]
  obtain ⟨line, hline, hends⟩ := exists_endsInBrace hbreak hbefore hwhole
  rw [hnone line hline] at hends
  cases hends

theorem Block.formals_cases {b : Block} (hbreak : ∀ line ∈ b.lines, '\n' ∉ line) {d : Definition}
    (hread : Definition.read? (unlines b.statementLines) = some d) :
    (b.EndsInBrace ∧ ∃ (kept : Text) (g : Gap), d.formals = kept ++ '\x7b' :: g ∧
        eraseFirst Formals.afterBodyBrace? d.formals = kept) ∨
      ¬ b.EndsInBrace ∧ ¬ Formals.HasBodyBrace d.formals := by
  obtain ⟨front, hfront⟩ := Definition.formals_suffix hread
  rcases throughBrace_cases b.lines with ⟨earlier, last, htaken, hlast, hnone⟩ | ⟨htaken, hnone⟩
  · left
    have hlines : b.statementLines = earlier ++ [last] := htaken
    have hmem : ∀ line ∈ earlier ++ [last], '\n' ∉ line := fun line hline =>
      hbreak line (List.mem_of_mem_take (htaken ▸ hline))
    obtain ⟨hearlier, hline⟩ := List.forall_mem_append.1 hmem
    refine ⟨⟨last, by rw [hlines, List.getLast?_concat], hlast⟩, ?_⟩
    obtain ⟨before, g, rfl⟩ := endsInBrace_iff.1 hlast
    have hbefore : '\n' ∉ before := fun hin =>
      hline _ List.mem_cons_self (List.mem_append_left _ hin)
    have hblank : ∀ c ∈ g.1 ++ ['\n'], isBlank c = true := by
      rw [List.forall_mem_append, List.forall_mem_singleton]
      exact ⟨g.2, by decide⟩
    have htext : front ++ d.formals = unlines earlier ++ before ++ '\x7b' :: (g.1 ++ ['\n']) := by
      rw [hfront, hlines, unlines_append, unlines_cons, unlines_nil]
      simp
    obtain ⟨kept, hkept⟩ := eraseFirst_of_last_brace (g := ⟨_, hblank⟩) hearlier hbefore hnone
      (Definition.formals_opens hread) htext
    exact ⟨kept, _, hkept⟩
  · right
    have hlines : b.statementLines = b.lines := htaken
    constructor
    · rintro ⟨line, hline, hends⟩
      rw [hnone line (hlines ▸ List.mem_of_getLast? hline)] at hends
      cases hends
    · intro hbody
      have hwhole := hbody.append_left front
      rw [hfront, hlines] at hwhole
      obtain ⟨line, hline, hends⟩ := exists_endsInBrace_of_hasBodyBrace hbreak hwhole
      rw [hnone line hline] at hends
      cases hends

theorem Makes.shown {source : Path} {m : Method} (h : Makes source m) :
    Formals.Shown m.formals := by
  obtain ⟨_, d, name, hread, -, rfl⟩ := h
  exact Formals.shown_clean (Definition.formals_opens hread)

/-- The parameters of a definition have a brace with only blanks up to a line end exactly if the
statement was ended by a line that ends in a brace, and then this last brace goes with the blanks
behind it. A method has the rest up to the first slot access, trimmed: it begins with the
parenthesis, ends in no blank, and no word in it is directly followed by `@`. -/
theorem body_brace_is_end_of_statement (source : Path) (text : Text)
    (start : Progress Declarations) :
    let layout := Layout.ofLines (Text.lines text)
    readText source text = runSteps source layout.steps ∧
      (∀ b ∈ layout.blocks, ∃ d, Definition.read? (unlines b.statementLines) = some d ∧
        (Formals.HasBodyBrace d.formals ↔ b.EndsInBrace) ∧
        (b.EndsInBrace → ∃ g : Gap,
          d.formals = eraseFirst Formals.afterBodyBrace? d.formals ++ '\x7b' :: g) ∧
        (¬ b.EndsInBrace → eraseFirst Formals.afterBodyBrace? d.formals = d.formals) ∧
        Formals.Kept (eraseFirst Formals.afterBodyBrace? d.formals) (Formals.clean d.formals)) ∧
      (∀ methods finish, (readText source text).run start = .ok methods finish →
        ∃ made : List (List Method), methods = made.flatten ∧
          List.Forall₂ (fun b ms => ∃ d, Definition.read? (unlines b.statementLines) = some d ∧
            ∀ m ∈ ms, m.formals = Formals.clean d.formals ∧ Formals.Shown m.formals)
            layout.blocks made) ∧
      ∀ tree sources methods finish, (readFiles tree sources).run start = .ok methods finish →
        ∀ m ∈ methods, Formals.Shown m.formals := by
  intro layout
  refine ⟨readText_eq_runSteps source text, fun b hb => ?_, fun methods finish h => ?_, ?_⟩
  · have hbreak : ∀ line ∈ b.lines, '\n' ∉ line := fun line hline =>
      not_mem_of_mem_lines (Layout.mem_lines_of_mem_block hb hline)
    obtain ⟨d₀, hopener⟩ := b.exists_read?_opener
    obtain ⟨d, hread, -⟩ := Layout.read?_statement hb hopener
    refine ⟨d, hread, ?_⟩
    rcases b.formals_cases hbreak hread with
      ⟨hends, kept, g, hformals, herase⟩ | ⟨hends, hbrace⟩
    · have hbrace : Formals.HasBodyBrace d.formals :=
        ⟨kept, g, [], by rw [List.append_nil, hformals], .inl rfl⟩
      exact ⟨iff_of_true hbrace hends, fun _ => ⟨g, by rw [herase, hformals]⟩,
        fun hno => absurd hends hno, Formals.kept_clean d.formals⟩
    · exact ⟨iff_of_false hbrace hends, fun hyes => absurd hyes hends,
        fun _ => Formals.eraseFirst_of_not_hasBodyBrace hbrace, Formals.kept_clean d.formals⟩
  · obtain ⟨made, hmethods, hmade⟩ := exists_made_of_readText h
    refine ⟨made, hmethods, hmade.imp ?_⟩
    rintro b ms ⟨-, group?, hms⟩
    obtain ⟨d, names, hread, -, rfl⟩ := methodsFrom_ok hms
    refine ⟨d, hread, fun m hm => ?_⟩
    obtain ⟨name, -, rfl⟩ := List.mem_map.1 hm
    exact ⟨rfl, Formals.shown_clean (Definition.formals_opens hread)⟩
  · intro tree sources methods finish h m hm
    obtain ⟨_, -, hmakes⟩ := makes_of_readFiles h m hm
    exact hmakes.shown

end Source

end RdStubs
