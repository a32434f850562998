import RdStubs.Proofs.Reading.History

/-!
# The places of steps

The lines of several texts that are read one after another are numbered through. Every step of the
reading has the place of its first line. Steps are taken in the order of their lines but for one
thing: a statement becomes methods after the lines behind it, up to the end of its block, have been
declared. So what comes before a definition in the history stands in front of its opener, or behind
its statement in the same block.
-/

namespace RdStubs.Source

def declareFrom (n : Nat) (lines : List Text) : List (Nat × Step) :=
  (lines.zipIdx n).map fun (line, k) => (k, .declare line)

def Block.placedBehind (n : Nat) (b : Block) : List (Nat × Step) :=
  declareFrom (n + b.statementLines.length) b.linesBehind

/-- The steps of a block whose opener is line `n`, each with the place of its first line. -/
def Block.placed (n : Nat) (b : Block) : List (Nat × Step) :=
  b.placedBehind n ++ [(n, .define b.statementLines)]

def placedBlocks (n : Nat) : List Block → List (Nat × Step)
  | [] => []
  | b :: blocks => b.placed n ++ placedBlocks (n + b.lines.length) blocks

def Layout.placed (n : Nat) (l : Layout) : List (Nat × Step) :=
  declareFrom n l.preamble ++ placedBlocks (n + l.preamble.length) l.blocks

def placedEvents (n : Nat) (source : Path) (text : Text) (p : Progress Declarations) :
    List (Nat × Event) :=
  let layout := Layout.ofLines (Text.lines text)
  ((layout.placed n).map Prod.fst).zip (events source layout.steps p)

def placedHistory (n : Nat) : List (Path × Text) → Progress Declarations → List (Nat × Event)
  | [], _ => []
  | (source, text) :: sources, p =>
    placedEvents n source text p
      ++ placedHistory (n + (Text.lines text).length) sources
        (Task.after (readText source text) p)

def linesOf (sources : List (Path × Text)) : List Text := sources.flatMap fun s => Text.lines s.2

/-- In the reading, the opener of the block is the line with the number `n`. -/
def BeginsAt (sources : List (Path × Text)) (n : Nat) (b : Block) : Prop :=
  ∃ (before : List (Path × Text)) (source : Path) (text : Text) (after : List (Path × Text))
    (done todo : List Block),
    sources = before ++ (source, text) :: after ∧
      (Layout.ofLines (Text.lines text)).blocks = done ++ b :: todo ∧
      n = (linesOf before ++ ((Layout.ofLines (Text.lines text)).preamble ++
        done.flatMap Block.lines)).length

theorem mem_declareFrom {n : Nat} {lines : List Text} {placed : Nat × Step} :
    placed ∈ declareFrom n lines ↔
      ∃ i line, lines[i]? = some line ∧ placed = (n + i, .declare line) := by
  simp only [declareFrom, List.mem_map, Prod.exists, List.mk_mem_zipIdx_iff_le_and_getElem?_sub]
  constructor
  · rintro ⟨line, k, ⟨hle, hline⟩, rfl⟩
    exact ⟨k - n, line, hline, by rw [Nat.add_sub_cancel' hle]⟩
  · rintro ⟨i, line, hline, rfl⟩
    exact ⟨line, n + i, ⟨Nat.le_add_right n i, by rw [Nat.add_sub_cancel_left, hline]⟩, rfl⟩

theorem map_snd_declareFrom (n : Nat) (lines : List Text) :
    (declareFrom n lines).map Prod.snd = lines.map .declare := by
  rw [declareFrom, List.map_map]
  calc
    _ = (lines.zipIdx n).map (Step.declare ∘ Prod.fst) := rfl
    _ = lines.map .declare := by rw [← List.map_map, List.zipIdx_map_fst]

theorem Block.length_statementLines_add (b : Block) :
    b.statementLines.length + b.linesBehind.length = b.lines.length := by
  rw [← List.length_append]
  exact congrArg List.length (throughBrace_append_behindBrace b.lines)

theorem Block.length_statementLines_pos (b : Block) : 0 < b.statementLines.length := by
  obtain ⟨lines, hlines⟩ := List.head?_eq_some_iff.1 b.head?_statementLines
  rw [hlines]
  exact Nat.succ_pos _

theorem Block.bounds_of_mem_placedBehind {b : Block} {n : Nat} {placed : Nat × Step}
    (h : placed ∈ b.placedBehind n) : n < placed.1 ∧ placed.1 < n + b.lines.length := by
  obtain ⟨i, line, hline, rfl⟩ := mem_declareFrom.1 h
  have hi := (List.getElem?_eq_some_iff.1 hline).1
  have hlength := b.length_statementLines_add
  have hpos := b.length_statementLines_pos
  dsimp only
  omega

theorem map_snd_placedBlocks (n : Nat) (blocks : List Block) :
    (placedBlocks n blocks).map Prod.snd = blocks.flatMap Block.steps := by
  induction blocks generalizing n with
  | nil => rfl
  | cons b blocks ih =>
    rw [placedBlocks, List.map_append, ih, List.flatMap_cons, Block.placed, List.map_append,
      Block.placedBehind, map_snd_declareFrom]
    rfl

theorem Layout.map_snd_placed (n : Nat) (l : Layout) : (l.placed n).map Prod.snd = l.steps := by
  rw [Layout.placed, List.map_append, map_snd_declareFrom, map_snd_placedBlocks]
  rfl

theorem fits_declareFrom (front lines back : List Text) :
    ∀ placed ∈ declareFrom front.length lines,
      placed.2.lines <+: (front ++ (lines ++ back)).drop placed.1 := by
  intro placed h
  obtain ⟨i, line, hline, rfl⟩ := mem_declareFrom.1 h
  obtain ⟨hi, rfl⟩ := List.getElem?_eq_some_iff.1 hline
  change [lines[i]] <+: (front ++ (lines ++ back)).drop (front.length + i)
  rw [List.drop_length_add_append, List.drop_append_of_le_length (Nat.le_of_lt hi),
    List.drop_eq_getElem_cons hi]
  exact ⟨_, rfl⟩

theorem fits_placedBlocks (front : List Text) (blocks : List Block) (back : List Text) :
    ∀ placed ∈ placedBlocks front.length blocks,
      placed.2.lines <+: (front ++ (blocks.flatMap Block.lines ++ back)).drop placed.1 := by
  induction blocks generalizing front with
  | nil => exact fun _ h => absurd h List.not_mem_nil
  | cons b blocks ih =>
    have hlines : b.lines = b.statementLines ++ b.linesBehind :=
      (throughBrace_append_behindBrace b.lines).symm
    intro placed h
    rw [List.flatMap_cons, List.append_assoc]
    rcases List.mem_append.1 h with h | h
    · rcases List.mem_append.1 h with h | h
      · rw [hlines, List.append_assoc, ← List.append_assoc front]
        rw [Block.placedBehind, ← List.length_append] at h
        exact fits_declareFrom _ _ _ placed h
      · obtain rfl := List.mem_singleton.1 h
        rw [List.drop_left, hlines, List.append_assoc]
        exact List.prefix_append _ _
    · rw [← List.append_assoc front]
      rw [← List.length_append] at h
      exact ih (front ++ b.lines) placed h

theorem Layout.fits_placed (front : List Text) (l : Layout) (back : List Text) :
    ∀ placed ∈ l.placed front.length,
      placed.2.lines <+: (front ++ (l.lines ++ back)).drop placed.1 := by
  intro placed h
  rw [Layout.lines, List.append_assoc]
  rcases List.mem_append.1 h with h | h
  · exact fits_declareFrom front l.preamble _ placed h
  · rw [← List.append_assoc front]
    rw [← List.length_append] at h
    exact fits_placedBlocks (front ++ l.preamble) l.blocks back placed h

theorem mem_placedBlocks_bounds {n : Nat} {blocks : List Block} {placed : Nat × Step}
    (h : placed ∈ placedBlocks n blocks) :
    n ≤ placed.1 ∧ placed.1 < n + (blocks.flatMap Block.lines).length := by
  induction blocks generalizing n with
  | nil => cases h
  | cons b blocks ih =>
    have hlength := b.length_statementLines_add
    have hpos := b.length_statementLines_pos
    rw [List.flatMap_cons, List.length_append]
    rcases List.mem_append.1 h with h | h
    · rcases List.mem_append.1 h with h | h
      · have hbehind := Block.bounds_of_mem_placedBehind h
        omega
      · obtain rfl := List.mem_singleton.1 h
        dsimp only
        omega
    · have hrest := ih h
      omega

theorem Layout.mem_placed_bounds {n : Nat} {l : Layout} {placed : Nat × Step}
    (h : placed ∈ l.placed n) : n ≤ placed.1 ∧ placed.1 < n + l.lines.length := by
  rw [Layout.lines, List.length_append]
  rcases List.mem_append.1 h with h | h
  · obtain ⟨i, line, hline, rfl⟩ := mem_declareFrom.1 h
    have hi := (List.getElem?_eq_some_iff.1 hline).1
    dsimp only
    omega
  · have hblocks := mem_placedBlocks_bounds h
    omega

theorem define_not_mem_declareFrom {n k : Nat} {lines before : List Text} :
    (k, Step.define lines) ∉ declareFrom n before := by
  intro h
  obtain ⟨_, _, -, heq⟩ := mem_declareFrom.1 h
  cases heq

/-- An element of two lists in a row is one of the first list, or of the second. -/
theorem split_append {α : Type} {front back before after : List α} {a : α}
    (h : front ++ back = before ++ a :: after) :
    (∃ more, before = front ++ more ∧ back = more ++ a :: after) ∨
      ∃ more, front = before ++ a :: more := by
  rcases List.append_eq_append_iff.1 h with ⟨more, hbefore, hback⟩ | ⟨more, hfront, hafter⟩
  · exact .inl ⟨more, hbefore, hback⟩
  · cases more with
    | nil => exact .inl ⟨[], by rw [hfront, List.append_nil, List.append_nil], hafter.symm⟩
    | cons b more =>
      obtain ⟨rfl, -⟩ := List.cons.inj hafter
      exact .inr ⟨more, hfront⟩

theorem split_behind_declareFrom {n k : Nat} {declared lines : List Text}
    {rest before after : List (Nat × Step)}
    (h : declareFrom n declared ++ rest = before ++ (k, .define lines) :: after) :
    ∃ more, before = declareFrom n declared ++ more ∧
      rest = more ++ (k, .define lines) :: after := by
  refine (split_append h).resolve_right ?_
  rintro ⟨more, hdeclared⟩
  have hmem : (k, Step.define lines) ∈ declareFrom n declared := by
    rw [hdeclared]
    exact List.mem_append_right _ List.mem_cons_self
  exact define_not_mem_declareFrom hmem

theorem placedBlocks_split {n k : Nat} {blocks : List Block} {lines : List Text}
    {before after : List (Nat × Step)}
    (h : placedBlocks n blocks = before ++ (k, .define lines) :: after) :
    ∃ done b todo, blocks = done ++ b :: todo ∧ lines = b.statementLines ∧
      k = n + (done.flatMap Block.lines).length ∧
      ∀ placed ∈ before, placed.1 < k ∨ placed ∈ b.placedBehind k := by
  induction blocks generalizing n before with
  | nil => simp [placedBlocks] at h
  | cons b blocks ih =>
    have hpos := b.length_statementLines_pos
    have hlength := b.length_statementLines_add
    rw [placedBlocks, Block.placed, List.append_assoc] at h
    obtain ⟨more, rfl, hrest⟩ := split_behind_declareFrom h
    rw [List.singleton_append] at hrest
    cases more with
    | nil =>
      obtain ⟨heq, -⟩ := List.cons.inj hrest
      cases heq
      refine ⟨[], b, blocks, rfl, rfl, rfl, fun placed hplaced => .inr ?_⟩
      rw [List.append_nil] at hplaced
      exact hplaced
    | cons x more =>
      obtain ⟨rfl, hlater⟩ := List.cons.inj hrest
      obtain ⟨done, b', todo, rfl, rfl, hk, hmore⟩ := ih hlater
      refine ⟨b :: done, b', todo, rfl, rfl, ?_, ?_⟩
      · rw [List.flatMap_cons, List.length_append]
        omega
      · intro placed hplaced
        rcases List.mem_append.1 hplaced with hplaced | hplaced
        · have hbehind := Block.bounds_of_mem_placedBehind hplaced
          exact .inl (by omega)
        · rcases List.mem_cons.1 hplaced with rfl | hplaced
          · exact .inl (by dsimp only; omega)
          · exact hmore placed hplaced

theorem Layout.placed_split {n k : Nat} {l : Layout} {lines : List Text}
    {before after : List (Nat × Step)}
    (h : l.placed n = before ++ (k, .define lines) :: after) :
    ∃ done b todo, l.blocks = done ++ b :: todo ∧ lines = b.statementLines ∧
      k = n + (l.preamble ++ done.flatMap Block.lines).length ∧
      ∀ placed ∈ before, placed.1 < k ∨ placed ∈ b.placedBehind k := by
  obtain ⟨more, rfl, hrest⟩ := split_behind_declareFrom h
  obtain ⟨done, b, todo, hblocks, hlines, hk, hmore⟩ := placedBlocks_split hrest
  refine ⟨done, b, todo, hblocks, hlines, ?_, ?_⟩
  · rw [List.length_append]
    omega
  · intro placed hplaced
    rcases List.mem_append.1 hplaced with hplaced | hplaced
    · obtain ⟨i, line, hline, rfl⟩ := mem_declareFrom.1 hplaced
      have hi := (List.getElem?_eq_some_iff.1 hline).1
      exact .inl (by dsimp only; omega)
    · exact hmore placed hplaced

theorem events_steps (source : Path) (steps : List Step) (p : Progress Declarations) :
    (events source steps p).map Event.step <+: steps := by
  induction steps generalizing p with
  | nil => exact List.prefix_refl _
  | cons step steps ih =>
    rw [events, List.map_cons, List.cons_prefix_cons]
    refine ⟨rfl, ?_⟩
    cases Event.result ⟨source, step, p⟩ with
    | ok methods => exact ih _
    | error e => exact List.nil_prefix

def placedStep (placed : Nat × Event) : Nat × Step := (placed.1, placed.2.step)

theorem zip_events {steps : List (Nat × Step)} {history : List Event}
    (h : history.map Event.step <+: steps.map Prod.snd) :
    ((steps.map Prod.fst).zip history).map placedStep <+: steps ∧
      ((steps.map Prod.fst).zip history).map Prod.snd = history := by
  induction steps generalizing history with
  | nil =>
    have hnil : history = [] := by simpa using h
    simp [hnil]
  | cons step steps ih =>
    cases history with
    | nil => exact ⟨List.nil_prefix, rfl⟩
    | cons event history =>
      obtain ⟨hstep, hrest⟩ := List.cons_prefix_cons.1 h
      obtain ⟨hplaced, hevents⟩ := ih hrest
      constructor
      · exact List.cons_prefix_cons.2 ⟨Prod.ext rfl hstep, hplaced⟩
      · exact congrArg (event :: ·) hevents

section

variable {n : Nat} {source : Path} {text : Text} {p : Progress Declarations}

theorem placed_events (n : Nat) (source : Path) (text : Text) (p : Progress Declarations) :
    (placedEvents n source text p).map placedStep <+:
        (Layout.ofLines (Text.lines text)).placed n ∧
      (placedEvents n source text p).map Prod.snd =
        events source (Layout.ofLines (Text.lines text)).steps p := by
  apply zip_events
  rw [Layout.map_snd_placed]
  exact events_steps source _ p

theorem placedStep_mem {placed : Nat × Event} (h : placed ∈ placedEvents n source text p) :
    placedStep placed ∈ (Layout.ofLines (Text.lines text)).placed n :=
  (placed_events n source text p).1.subset (List.mem_map_of_mem h)

theorem lt_of_mem_placedEvents {placed : Nat × Event}
    (h : placed ∈ placedEvents n source text p) :
    placed.1 < n + (Text.lines text).length := by
  have hlines := Layout.lines_ofLines (Text.lines text)
  have hbounds := Layout.mem_placed_bounds (placedStep_mem h)
  rw [hlines] at hbounds
  exact hbounds.2

theorem placedEvents_split {k : Nat} {earlier later : List (Nat × Event)} {event : Event}
    {lines : List Text} (h : placedEvents n source text p = earlier ++ (k, event) :: later)
    (hstep : event.step = .define lines) :
    ∃ done b todo, (Layout.ofLines (Text.lines text)).blocks = done ++ b :: todo ∧
      lines = b.statementLines ∧
      k = n + ((Layout.ofLines (Text.lines text)).preamble ++ done.flatMap Block.lines).length ∧
      ∀ placed ∈ earlier, placed.1 < k ∨ placedStep placed ∈ b.placedBehind k := by
  obtain ⟨rest, hrest⟩ := (placed_events n source text p).1
  have hdefine : placedStep (k, event) = (k, .define lines) := by
    rw [placedStep, hstep]
  rw [h, List.map_append, List.append_assoc, List.map_cons, hdefine, List.cons_append] at hrest
  obtain ⟨done, b, todo, hblocks, hlines, hk, hbefore⟩ := Layout.placed_split hrest.symm
  refine ⟨done, b, todo, hblocks, hlines, hk, ?_⟩
  intro placed hplaced
  exact hbefore _ (List.mem_map_of_mem hplaced)

end

theorem BeginsAt.cons {sources : List (Path × Text)} {n : Nat} {b : Block}
    (h : BeginsAt sources n b) (source : Path) (text : Text) :
    BeginsAt ((source, text) :: sources) ((Text.lines text).length + n) b := by
  obtain ⟨before, source', text', after, done, todo, rfl, hblocks, rfl⟩ := h
  refine ⟨(source, text) :: before, source', text', after, done, todo, rfl, hblocks, ?_⟩
  simp only [linesOf, List.flatMap_cons, List.length_append]
  omega

theorem map_snd_placedHistory (n : Nat) (sources : List (Path × Text)) (p : Progress Declarations) :
    (placedHistory n sources p).map Prod.snd = (histories sources p).flatten := by
  induction sources generalizing n p with
  | nil => rfl
  | cons first sources ih =>
    obtain ⟨source, text⟩ := first
    rw [placedHistory, List.map_append, ih, (placed_events n source text p).2, histories,
      List.flatten_cons]

theorem fits_placedHistory (front : List Text) (sources : List (Path × Text))
    (p : Progress Declarations) :
    ∀ placed ∈ placedHistory front.length sources p,
      placed.2.step.lines <+: (front ++ linesOf sources).drop placed.1 := by
  induction sources generalizing front p with
  | nil => exact fun _ h => absurd h List.not_mem_nil
  | cons first sources ih =>
    obtain ⟨source, text⟩ := first
    have hlines : linesOf ((source, text) :: sources) = Text.lines text ++ linesOf sources := rfl
    intro placed h
    rw [hlines]
    rcases List.mem_append.1 h with h | h
    · have hfits := Layout.fits_placed front (Layout.ofLines (Text.lines text)) (linesOf sources)
        _ (placedStep_mem h)
      rwa [Layout.lines_ofLines] at hfits
    · rw [← List.append_assoc]
      rw [← List.length_append] at h
      exact ih (front ++ Text.lines text) _ placed h

/-- What comes before a definition in the history stands in front of its opener, or behind its
statement in the same block. -/
theorem placedHistory_split {n k : Nat} {sources : List (Path × Text)} {p : Progress Declarations}
    {earlier later : List (Nat × Event)} {event : Event} {lines : List Text}
    (h : placedHistory n sources p = earlier ++ (k, event) :: later)
    (hstep : event.step = .define lines) :
    ∃ m b, k = n + m ∧ BeginsAt sources m b ∧ lines = b.statementLines ∧
      ∀ placed ∈ earlier, placed.1 < k ∨ placedStep placed ∈ b.placedBehind k := by
  induction sources generalizing n p earlier with
  | nil => simp [placedHistory] at h
  | cons first sources ih =>
    obtain ⟨source, text⟩ := first
    rw [placedHistory] at h
    rcases split_append h with ⟨more, rfl, hrest⟩ | ⟨more, hfirst⟩
    · -- the definition is one of a later text, and all of this text stands in front of it
      obtain ⟨m, b, rfl, hbegins, hlines, hmore⟩ := ih hrest
      refine ⟨_, b, Nat.add_assoc _ _ _, hbegins.cons source text, hlines, ?_⟩
      intro placed hplaced
      rcases List.mem_append.1 hplaced with hplaced | hplaced
      · have hlt := lt_of_mem_placedEvents hplaced
        exact .inl (by omega)
      · exact hmore placed hplaced
    · obtain ⟨done, b, todo, hblocks, hlines, rfl, hbefore⟩ := placedEvents_split hfirst hstep
      exact ⟨_, b, rfl, ⟨[], source, text, sources, done, todo, rfl, hblocks, rfl⟩, hlines,
        hbefore⟩

end RdStubs.Source
