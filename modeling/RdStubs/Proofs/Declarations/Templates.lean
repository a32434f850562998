import RdStubs.Proofs.Declarations.Requests
import RdStubs.Proofs.Definition.Extension
import RdStubs.Proofs.Directive
import RdStubs.Proofs.Method.Formals

/-!
# Templates

A template is a region that lists names in quotes, and right behind it a definition that asks for
them. Where no region is open and every group has been asked for, reading a template gives one
method for each of its names and leaves things so again. The definition becomes methods only when
the next one begins, so the region of the next template is closed before that.
-/

namespace RdStubs

open Text

namespace Declarations

structure Settled (d : Declarations) : Prop where
  outside : d.current? = none
  taken : d.taken = d.groups.length

/-- The declarations once these groups have been closed and handed out too. -/
def serve (d : Declarations) (groups : List (List Text)) : Declarations :=
  { d with closed := d.closed ++ groups, taken := d.taken + groups.length }

theorem serve_nil (d : Declarations) : d.serve [] = d := by
  simp [serve]

theorem serve_serve (d : Declarations) (groups more : List (List Text)) :
    (d.serve groups).serve more = d.serve (groups ++ more) := by
  simp only [serve, List.append_assoc, List.length_append, Nat.add_assoc]

/-- The declarations once this group has been closed, before anyone has asked for it. -/
def close (d : Declarations) (names : List Text) : Declarations :=
  { d with closed := d.closed ++ [names] }

def request (d : Declarations) : Declarations := { d with taken := d.taken + 1 }

theorem request_close_close (d : Declarations) (names more : List Text) :
    ((d.close names).close more).request = (d.serve [names]).close more := rfl

namespace Settled

variable {d : Declarations}

theorem serve (h : d.Settled) (groups : List (List Text)) : (d.serve groups).Settled where
  outside := h.outside
  taken := by
    have htaken := h.taken
    simp only [Declarations.groups, h.outside] at htaken
    simp only [Declarations.serve, Declarations.groups, h.outside, htaken, List.length_append]
    rfl

/-- The group that is closed next is the one that is asked for next. -/
theorem next_group (h : d.Settled) (names : List Text) :
    (d.close names).groups[(d.close names).taken]? = some names := by
  have htaken := h.taken
  simp only [groups, h.outside, Option.toList_none, List.append_nil] at htaken
  simp only [close, groups, h.outside, Option.toList_none, List.append_nil, htaken,
    List.getElem?_concat_length]

theorem next_group_close (h : d.Settled) (names more : List Text) :
    ((d.close names).close more).groups[((d.close names).close more).taken]? = some names := by
  have hnext := h.next_group names
  have hgroups : ((d.close names).close more).groups = (d.close names).groups ++ [more] := by
    simp [close, groups, h.outside]
  rw [hgroups]
  exact List.getElem?_append_left (List.getElem?_eq_some_iff.1 hnext).1 ▸ hnext

end Settled

end Declarations

namespace Definition

/-- The blanks that reading a line puts behind its parameter list do not show in methods. -/
theorem methods_withText {d : Definition} (h : '\n' ∉ d.formals) (g : Gap) (source : Path)
    (names : List Text) : (d.withText g).methods source names = d.methods source names := by
  have hmethod : (d.withText g).method source = d.method source := by
    funext name
    simp only [method, withText, Formals.clean_append_gap h]
  have hreserved : (d.withText g).reserved source = d.reserved source := by
    simp only [reserved, withText, trimEnd_append_gap]
  rw [methods, methods, hmethod, hreserved]

end Definition

namespace Source

/-- A region that lists names in quotes, one or more, and behind it the opener of a definition that
asks for a group. Each is on a line of its own, and a brace ends the definition. -/
structure Template where
  listing : List Directive.NameLine
  ne_nil : listing ≠ []
  opener : Text
  definition : Definition
  reads : Definition.read? opener = some definition
  asks : definition.slot = .placeholder
  ends : endsInBrace opener = true
  oneLine : ∀ line ∈ opener :: listing.map Directive.NameLine.text, '\n' ∉ line

namespace Template

open Directive

variable (t : Template)

def names : List Text := t.listing.map NameLine.name

def region : List Text := "#+".toList :: (t.listing.map NameLine.text ++ ["#-".toList])

def lines : List Text := t.region ++ [t.opener]

def methods (source : Path) : Except Error (List Method) := t.definition.methods source t.names

theorem not_mem_opener : '\n' ∉ t.opener := t.oneLine _ List.mem_cons_self

theorem not_mem_text {line : NameLine} (h : line ∈ t.listing) : '\n' ∉ line.text :=
  t.oneLine _ (List.mem_cons_of_mem _ (List.mem_map_of_mem h))

theorem not_mem_region : ∀ line ∈ t.region, '\n' ∉ line := by
  refine List.forall_mem_cons.2 ⟨by decide, List.forall_mem_append.2 ⟨?_, by decide⟩⟩
  intro text htext
  obtain ⟨line, hline, rfl⟩ := List.mem_map.1 htext
  exact t.not_mem_text hline

theorem not_mem_lines : ∀ line ∈ t.lines, '\n' ∉ line :=
  List.forall_mem_append.2 ⟨t.not_mem_region, List.forall_mem_singleton.2 t.not_mem_opener⟩

theorem nil_not_mem_lines : [] ∉ t.lines := by
  have hopener : t.opener ≠ [] := by
    intro h
    have hends := t.ends
    rw [h] at hends
    exact absurd hends (by decide)
  have htext : [] ∉ t.listing.map NameLine.text := by
    rintro hnil
    obtain ⟨line, -, hline⟩ := List.mem_map.1 hnil
    have hhead := line.head?_dropBlank_text
    rw [hline] at hhead
    exact absurd hhead (by decide)
  simp only [lines, region, List.mem_append, List.mem_cons, List.not_mem_nil, or_false, not_or]
  exact ⟨⟨by decide, htext, by decide⟩, Ne.symm hopener⟩

theorem ofLine_region :
    t.region.map ofLine = .opens :: (t.names.map Directive.name ++ [.closes]) := by
  have hlisting : (t.listing.map NameLine.text).map ofLine = t.names.map Directive.name := by
    rw [names, List.map_map, List.map_map]
    exact List.map_congr_left fun line _ => line.ofLine_text
  rw [region, List.map_cons, List.map_append, hlisting]
  rfl

theorem opensOn_region : ∀ line ∈ t.region, Definition.opensOn line = false := by
  refine List.forall_mem_cons.2 ⟨by decide, List.forall_mem_append.2 ⟨?_, by decide⟩⟩
  intro text htext
  obtain ⟨line, hline, rfl⟩ := List.mem_map.1 htext
  exact Definition.opensOn_of_head? (t.not_mem_text hline) line.head?_dropBlank_text (by decide)

variable {t}

theorem region_clipped {read : List Text} (h : List.Forall₂ Clipped read t.region) :
    read.map ofLine = .opens :: (t.names.map Directive.name ++ [.closes]) ∧
      ∀ line ∈ read, Definition.opensOn line = false := by
  have hplain := t.opensOn_region
  have hbreak := t.not_mem_region
  rw [← t.ofLine_region]
  generalize t.region = region at h hplain hbreak
  induction h with
  | nil => exact ⟨rfl, List.forall_mem_nil _⟩
  | cons hline _ ih =>
    obtain ⟨g, rfl⟩ := hline
    obtain ⟨hfirst, hothers⟩ := List.forall_mem_cons.1 hplain
    obtain ⟨hfirst', hothers'⟩ := List.forall_mem_cons.1 hbreak
    obtain ⟨hmap, hopens⟩ := ih hothers hothers'
    rw [Definition.opensOn_append_gap hfirst'] at hfirst
    rw [List.map_cons, List.map_cons, hmap, ofLine_append_gap]
    exact ⟨rfl, List.forall_mem_cons.2 ⟨hfirst, hopens⟩⟩

theorem names_ne_nil : t.names ≠ [] := by
  simpa [names] using t.ne_nil

/-- What the statement of a template comes to with the names of its own region. -/
theorem opener_clipped {read : Text} (h : Clipped read t.opener) :
    Definition.opensOn read = true ∧ endsInBrace read = true ∧
      asksForGroup (unlines [read]) = true ∧
      ∀ source, methodsFrom source (unlines [read]) (some t.names) = t.methods source := by
  obtain ⟨g, hg⟩ := h
  have hbreak : '\n' ∉ read := fun hmem => t.not_mem_opener (hg ▸ List.mem_append_left _ hmem)
  obtain ⟨d, hread, hd⟩ : ∃ d, Definition.read? read = some d ∧ t.definition = d.withText g :=
    Definition.exists_read?_of_append_gap (hg ▸ t.not_mem_opener) (hg ▸ t.reads)
  have hslot : d.slot = .placeholder := by
    rw [← t.asks, hd]
    rfl
  have hformals : '\n' ∉ d.formals := fun hmem =>
    hbreak ((Definition.formals_suffix hread).subset hmem)
  let lineEnd : Gap := ⟨['\n'], List.all_eq_true.1 (by decide)⟩
  have hstatement : Definition.read? (unlines [read]) = some (d.withText ['\n']) := by
    rw [unlines_cons, unlines_nil]
    exact Definition.read?_append_gap hbreak hread lineEnd
  have hmethods (source : Path) :
      (d.withText ['\n']).methods source t.names = t.methods source := by
    rw [methods, hd, Definition.methods_withText hformals g]
    exact Definition.methods_withText hformals lineEnd source t.names
  refine ⟨by rw [Definition.opensOn, hread]; rfl, ?_, ?_, fun source => ?_⟩
  · have hends := t.ends
    rwa [← hg, endsInBrace, trimEnd_append_gap] at hends
  · rw [asksForGroup, hstatement, Option.any_some, decide_eq_true_iff]
    exact hslot
  · obtain ⟨n, names, hnames⟩ := List.exists_cons_of_ne_nil (names_ne_nil (t := t))
    rw [← hmethods, methodsFrom, hstatement, hnames]
    simp only [Definition.withText, hslot, Definition.methodsOfGroup]

/-- A region is read, and its group is closed. -/
theorem run_region {d : Declarations} (h : d.current? = none) {read : List Text}
    (hread : List.Forall₂ Clipped read t.region) (notices : List Notice) :
    ∃ notices', (read.forM Declarations.declare).run ⟨d, notices⟩ =
      .ok () ⟨d.close t.names, notices'⟩ := by
  have haccept := Declarations.foldlM_accept?_region h t.names
  rw [← (region_clipped hread).1] at haccept
  exact Declarations.run_forM_declare haccept

theorem split_clipped {read more : List Text} (h : List.Forall₂ Clipped read (t.lines ++ more)) :
    ∃ region opener rest, read = region ++ opener :: rest ∧
      List.Forall₂ Clipped region t.region ∧ Clipped opener t.opener ∧
      List.Forall₂ Clipped rest more := by
  rw [lines, List.append_assoc] at h
  have hregion := List.forall₂_take_append _ _ _ h
  have hbehind := List.forall₂_drop_append _ _ _ h
  obtain ⟨opener, rest, hopener, hrest, hdrop⟩ := List.forall₂_cons_right_iff.1 hbehind
  refine ⟨_, opener, rest, ?_, hregion, hopener, hrest⟩
  rw [← hdrop, List.take_append_drop]

/-- The lines of a region are declared, and behind the opener its statement is complete. -/
theorem readLines_template (source : Path) {pending : Pending}
    (hp : ∀ statement, pending ≠ .growing statement) {region : List Text} {opener : Text}
    (hregion : List.Forall₂ Clipped region t.region) (hopener : Clipped opener t.opener)
    (more : List Text) :
    readLines source pending (region ++ opener :: more) = do
      region.forM Declarations.declare
      let done ← flush source pending
      let made ← readLines source (.complete (unlines [opener])) more
      return done ++ made := by
  obtain ⟨hopens, hends, -⟩ := opener_clipped hopener
  have hextend : Pending.extend [] opener = .complete (unlines [opener]) := by
    simp [Pending.extend, hends]
  rw [readLines_settled source hp (region_clipped hregion).2]
  cases pending <;> rw [readLines.eq_def] <;> simp only [hopens, if_true, hextend]

/-- A statement that asks for a group is handed the next one, and the request is counted. -/
theorem run_methodsOf_asking {source : Path} {statement : Text} {names : List Text}
    {made : Except Error (List Method)} (hasks : asksForGroup statement = true)
    (hmade : methodsFrom source statement (some names) = made) {d : Declarations}
    (hgroup : d.groups[d.taken]? = some names) (notices : List Notice) :
    ∃ notices', Task.result (methodsOf source statement) ⟨d, notices⟩ = made ∧
      Task.after (methodsOf source statement) ⟨d, notices⟩ = ⟨d.request, notices'⟩ := by
  obtain ⟨hresult, hafter⟩ := run_methodsOf source statement ⟨d, notices⟩
  rw [hgroup, hmade] at hresult
  rw [hasks, if_pos rfl] at hafter
  exact ⟨_, hresult, congrArg (Progress.mk · _) hafter⟩

/-- The group `names` has been closed for a statement that asks for it and is complete; the
templates behind it are still to be read. -/
theorem readLines_templates (source : Path) {d : Declarations} (h : d.Settled)
    {statement : Text} {names : List Text} {made : Except Error (List Method)}
    (hasks : asksForGroup statement = true)
    (hmade : methodsFrom source statement (some names) = made)
    {templates : List Template} {read : List Text}
    (hread : List.Forall₂ Clipped read (templates.flatMap lines)) (notices : List Notice) :
    let task := readLines source (.complete statement) read
    let start : Progress Declarations := ⟨d.close names, notices⟩
    Task.result task start = (made.bind fun methods =>
        (methods ++ ·) <$> (List.flatten <$> templates.mapM (Template.methods · source))) ∧
      (templates = [] ∨ (∃ methods, Task.result task start = .ok methods) →
        (Task.after task start).state = d.serve (names :: templates.map Template.names)) := by
  intro task start
  -- between two templates one group is closed and not asked for, whatever the declarations were
  induction templates generalizing d statement names made read notices with
  | nil =>
    obtain rfl := List.forall₂_nil_right_iff.1 hread
    obtain ⟨notices', hresult, hafter⟩ :=
      run_methodsOf_asking hasks hmade (h.next_group names) notices
    have htask : task = methodsOf source statement := rfl
    rw [htask, hresult, hafter]
    refine ⟨?_, fun _ => rfl⟩
    cases made with
    | error e => rfl
    | ok methods => exact congrArg Except.ok (List.append_nil methods).symm
  | cons t templates ih =>
    rw [List.flatMap_cons] at hread
    obtain ⟨region, opener, rest, rfl, hregion, hopener, hrest⟩ := split_clipped hread
    obtain ⟨-, -, hasks', hmade'⟩ := opener_clipped hopener
    have hcomplete (growing : Text) : Pending.complete statement ≠ .growing growing := by simp
    have htask := readLines_template source hcomplete hregion hopener rest
    rw [flush] at htask
    obtain ⟨notices₁, hdeclared⟩ := run_region (d := d.close names) h.outside hregion notices
    obtain ⟨notices₂, hresult, hafter⟩ :=
      run_methodsOf_asking hasks hmade (h.next_group_close names t.names) notices₁
    obtain ⟨hlater, hend⟩ := ih (h.serve [names]) hasks' (hmade' source) hrest notices₂
    obtain ⟨htaskResult, htaskAfter⟩ := Task.bind_of_run_eq_ok hdeclared fun _ => do
      let done ← methodsOf source statement
      let more ← readLines source (.complete (unlines [opener])) rest
      return done ++ more
    rw [← htask] at htaskResult htaskAfter
    rw [flatten_mapM_cons]
    refine ⟨?_, fun hok => ?_⟩
    · rw [Task.result_append, hresult, hafter, Declarations.request_close_close, hlater]
        at htaskResult
      exact htaskResult
    · obtain ⟨methods, hok⟩ := hok.resolve_left (List.cons_ne_nil t templates)
      obtain ⟨more, hmore, hfinal⟩ := Task.append_eq_ok (htaskResult.symm.trans hok)
      rw [hafter, Declarations.request_close_close] at hmore hfinal
      have hserved := hend (.inr ⟨more, hmore⟩)
      rw [Declarations.serve_serve, ← hfinal, ← htaskAfter] at hserved
      exact hserved

/-- A text of templates gives the methods of all of them, or the first error. -/
theorem readText_templates (source : Path) {start : Progress Declarations}
    (h : start.state.Settled) {text : Text} {templates : List Template}
    (htext : Spells text (templates.flatMap lines)) :
    Task.result (readText source text) start =
        List.flatten <$> templates.mapM (Template.methods · source) ∧
      (templates.length ≤ 1 ∨ (∃ methods, Task.result (readText source text) start = .ok methods) →
        (Task.after (readText source text) start).state =
          start.state.serve (templates.map Template.names)) := by
  have hbreak : ∀ line ∈ templates.flatMap lines, '\n' ∉ line := by
    intro line hline
    obtain ⟨t, -, ht⟩ := List.mem_flatMap.1 hline
    exact t.not_mem_lines line ht
  have hlast : (templates.flatMap lines).getLast? ≠ some [] := by
    intro hnil
    obtain ⟨t, -, ht⟩ := List.mem_flatMap.1 (List.mem_of_getLast? hnil)
    exact t.nil_not_mem_lines ht
  have hread := htext.clipped hbreak hlast
  obtain ⟨d, notices⟩ := start
  cases templates with
  | nil =>
    have htask : readText source text = pure [] := by
      rw [readText, List.forall₂_nil_right_iff.1 hread]
      rfl
    rw [htask]
    exact ⟨rfl, fun _ => (Declarations.serve_nil d).symm⟩
  | cons t templates =>
    rw [List.flatMap_cons] at hread
    obtain ⟨region, opener, rest, hlines, hregion, hopener, hrest⟩ := split_clipped hread
    obtain ⟨-, -, hasks, hmade⟩ := opener_clipped hopener
    have htask : readText source text = region.forM Declarations.declare >>= fun _ =>
        readLines source (.complete (unlines [opener])) rest := by
      have hnone (growing : Text) : Pending.none ≠ .growing growing := by simp
      rw [readText, hlines, readLines_template source hnone hregion hopener]
      simp [flush]
    obtain ⟨notices', hdeclared⟩ := run_region h.outside hregion notices
    obtain ⟨hresult, hafter⟩ := Task.bind_of_run_eq_ok hdeclared fun _ =>
      readLines source (.complete (unlines [opener])) rest
    obtain ⟨hmethods, hserved⟩ :=
      readLines_templates source h hasks (hmade source) hrest notices'
    rw [htask, hresult, hafter, flatten_mapM_cons]
    refine ⟨hmethods, fun hok => hserved (hok.imp_left fun hlength => ?_)⟩
    exact List.length_eq_zero_iff.1 (Nat.le_zero.1 (Nat.le_of_succ_le_succ hlength))

/-- Made by `d` of the name as it is listed: one pair of backticks around it is gone, and that is
all. -/
structure MadeOf (d : Definition) (source : Path) (name : Text) (m : Method) : Prop where
  name : (m.name = name ∧ ∀ t, t ≠ [] → '\x60' ∉ t → name ≠ marked '\x60' t) ∨
    (name = marked '\x60' m.name ∧ m.name ≠ [] ∧ '\x60' ∉ m.name)
  signature : m.signature = Signature.ofExpr d.classExpr
  formals : m.formals = Formals.clean d.formals
  source : m.source = source

theorem madeOf_method (d : Definition) (source : Path) (name : Text) :
    MadeOf d source name (d.method source name) :=
  ⟨unwrap_cases '\x60' name, rfl, rfl, rfl⟩

theorem methods_eq_error_iff {source : Path} {e : Error} :
    t.methods source = .error e ↔ placeholderWord ∈ t.names ∧ e = t.definition.reserved source := by
  rw [methods, Definition.methods]
  split
  · next hreserved => simp [hreserved, eq_comm]
  · next hreserved => simp [hreserved]

theorem methods_of_not_reserved {source : Path} (h : placeholderWord ∉ t.names) :
    ∃ made, t.methods source = .ok made ∧
      List.Forall₂ (MadeOf t.definition source) t.names made := by
  refine ⟨t.names.map (t.definition.method source), if_neg h, ?_⟩
  exact List.forall₂_map_right_iff.2
    (List.forall₂_same.2 fun name _ => madeOf_method t.definition source name)

/-- Templates that are read one by one, each as a text of its own. -/
theorem readEach_templates {start : Progress Declarations} (h : start.state.Settled)
    {sources : List (Path × Text)} {templates : List Template}
    (htexts : List.Forall₂ (fun s t => Spells s.2 (lines t)) sources templates) :
    (readEach sources start).1 = List.zipWith (fun s t => t.methods s.1) sources templates ∧
      (readEach sources start).2.state = start.state.serve (templates.map Template.names) := by
  induction htexts generalizing start with
  | nil => exact ⟨rfl, (Declarations.serve_nil start.state).symm⟩
  | @cons s t sources templates htext _ ih =>
    have hone : Spells s.2 ([t].flatMap lines) := by simpa using htext
    obtain ⟨hresult, hafter⟩ := readText_templates s.1 h hone
    have hserved := hafter (.inl (Nat.le_refl 1))
    obtain ⟨hresults, hstate⟩ := ih (hserved ▸ h.serve [t.names])
    have hmethods : Task.result (readText s.1 s.2) start = t.methods s.1 :=
      hresult.trans (flatten_mapM_singleton _ t)
    have hread : readEach (s :: sources) start =
        (Task.result (readText s.1 s.2) start ::
            (readEach sources (Task.after (readText s.1 s.2) start)).1,
          (readEach sources (Task.after (readText s.1 s.2) start)).2) := rfl
    rw [hread, hresults, hmethods, hstate, hserved, Declarations.serve_serve]
    exact ⟨rfl, rfl⟩

end Template

/-- Where no region is open and every group has been asked for, a text of templates gives their
methods in order and, if it is only one or there is no error, leaves things so again; so does a row
of texts that are one template each, errors or not. The methods of a template are one for each name,
unless one of the names is reserved. -/
theorem templates_round_trip {start : Progress Declarations} (h : start.state.Settled) :
    (∀ (source : Path) (text : Text) (templates : List Template),
      Spells text (templates.flatMap Template.lines) →
        Task.result (readText source text) start =
            List.flatten <$> templates.mapM (Template.methods · source) ∧
          (templates.length ≤ 1 ∨ (∃ made, Task.result (readText source text) start = .ok made) →
            (Task.after (readText source text) start).state =
              start.state.serve (templates.map Template.names))) ∧
      (∀ (sources : List (Path × Text)) (templates : List Template),
        List.Forall₂ (fun s t => Spells s.2 t.lines) sources templates →
          (readEach sources start).1 = List.zipWith (fun s t => t.methods s.1) sources templates ∧
            (readEach sources start).2.state =
              start.state.serve (templates.map Template.names)) ∧
      (∀ groups, (start.state.serve groups).Settled) ∧
      ∀ (t : Template) (source : Path),
        (∀ e, t.methods source = .error e ↔
          placeholderWord ∈ t.names ∧ e = t.definition.reserved source) ∧
        (placeholderWord ∉ t.names → ∃ made, t.methods source = .ok made ∧
          List.Forall₂ (Template.MadeOf t.definition source) t.names made) := by
  refine ⟨fun source _ _ htext => Template.readText_templates source h htext,
    fun _ _ htexts => Template.readEach_templates h htexts, h.serve, fun t source => ?_⟩
  exact ⟨fun _ => Template.methods_eq_error_iff, Template.methods_of_not_reserved⟩

def accessors : Template where
  listing :=
    [{ name := "names".toList
       ne_nil := by decide
       plain := by decide
       indent := ⟨"  ".toList, List.all_eq_true.1 (by decide)⟩
       behindQuote := ⟨[], List.all_eq_true.1 (by decide)⟩
       comma := true
       trailing := ⟨"\t".toList, List.all_eq_true.1 (by decide)⟩ },
     { name := "\x60#= a,b\x60".toList
       ne_nil := by decide
       plain := by decide
       indent := ⟨[], List.all_eq_true.1 (by decide)⟩
       behindQuote := ⟨" ".toList, List.all_eq_true.1 (by decide)⟩
       comma := false
       trailing := ⟨"\r".toList, List.all_eq_true.1 (by decide)⟩ }]
  ne_nil := by decide
  opener := "setMethod(func_, \"A\", function(x) \x7b ".toList
  definition := ⟨.placeholder, "\"A\"".toList, "(x) \x7b ".toList⟩
  reads := by decide
  asks := rfl
  ends := by decide
  oneLine := by decide

def accessor (name : Text) : Method where
  name := name
  signature := "A".toList
  formals := "(x)".toList
  source := ⟨"R/a.R".toList⟩

theorem read_accessors :
    ({} : Declarations).Settled ∧
      Task.result (readText ⟨"R/a.R".toList⟩ (unlines accessors.lines)) { state := {} } =
        .ok [accessor "names".toList, accessor "#= a,b".toList] ∧
      (Task.after (readText ⟨"R/a.R".toList⟩ (unlines accessors.lines)) { state := {} }).state =
        { closed := [["names".toList, "\x60#= a,b\x60".toList]], taken := 1 } := by
  have hsettled : ({ state := {} } : Progress Declarations).state.Settled := ⟨rfl, rfl⟩
  have htext : Spells (unlines accessors.lines) ([accessors].flatMap Template.lines) :=
    .inr (.inl (congrArg unlines (List.append_nil accessors.lines).symm))
  obtain ⟨hresult, hafter⟩ := (templates_round_trip hsettled).1 ⟨"R/a.R".toList⟩
    (unlines accessors.lines) [accessors] htext
  have hmethods : accessors.methods ⟨"R/a.R".toList⟩ =
      .ok [accessor "names".toList, accessor "#= a,b".toList] := by
    decide
  rw [flatten_mapM_singleton (Template.methods · _), hmethods] at hresult
  exact ⟨hsettled, hresult, hafter (.inl (Nat.le_refl 1))⟩

end Source

end RdStubs
