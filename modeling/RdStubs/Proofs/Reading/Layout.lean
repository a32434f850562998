import RdStubs.Proofs.Text
import RdStubs.Source

/-!
# Blocks of a source

The lines of a source fall into a preamble and blocks. A block begins with a line on which a
definition opens and reaches up to the next such line; its statement ends with the first line that
ends in a brace. Every list of lines has exactly one layout.
-/

namespace RdStubs.Source

def throughBrace (lines : List Text) : List Text := lines.take (lines.findIdx endsInBrace + 1)

def behindBrace (lines : List Text) : List Text := lines.drop (lines.findIdx endsInBrace + 1)

@[simp] theorem throughBrace_nil : throughBrace [] = [] := rfl

@[simp] theorem behindBrace_nil : behindBrace [] = [] := rfl

theorem throughBrace_cons (line : Text) (lines : List Text) :
    throughBrace (line :: lines) =
      line :: if endsInBrace line then [] else throughBrace lines := by
  cases h : endsInBrace line <;> simp [throughBrace, List.findIdx_cons, h]

theorem behindBrace_cons (line : Text) (lines : List Text) :
    behindBrace (line :: lines) = if endsInBrace line then lines else behindBrace lines := by
  cases h : endsInBrace line <;> simp [behindBrace, List.findIdx_cons, h]

theorem throughBrace_append_behindBrace (lines : List Text) :
    throughBrace lines ++ behindBrace lines = lines := List.take_append_drop _ _

/-- The last line taken is the first that ends in a brace, or all are taken and none does. -/
theorem throughBrace_cases (lines : List Text) :
    (∃ before last, throughBrace lines = before ++ [last] ∧ endsInBrace last = true ∧
        ∀ line ∈ before, endsInBrace line = false) ∨
      throughBrace lines = lines ∧ ∀ line ∈ lines, endsInBrace line = false := by
  induction lines with
  | nil => exact .inr ⟨rfl, List.forall_mem_nil _⟩
  | cons line lines ih =>
    rw [throughBrace_cons]
    cases hline : endsInBrace line with
    | true => exact .inl ⟨[], line, rfl, hline, List.forall_mem_nil _⟩
    | false =>
      rcases ih with ⟨before, last, htaken, hlast, hbefore⟩ | ⟨htaken, hnone⟩
      · refine .inl ⟨line :: before, last, ?_, hlast, List.forall_mem_cons.2 ⟨hline, hbefore⟩⟩
        simp [htaken]
      · refine .inr ⟨?_, List.forall_mem_cons.2 ⟨hline, hnone⟩⟩
        simp [htaken]

/-- A line on which a definition opens, and the lines behind it, on which none does. -/
@[ext] structure Block where
  opener : Text
  others : List Text
  opens : Definition.opensOn opener = true
  plain : ∀ line ∈ others, Definition.opensOn line = false

namespace Block

def lines (b : Block) : List Text := b.opener :: b.others

def statementLines (b : Block) : List Text := throughBrace b.lines

def linesBehind (b : Block) : List Text := behindBrace b.lines

theorem head?_statementLines (b : Block) : b.statementLines.head? = some b.opener := by
  simp [statementLines, lines, throughBrace_cons]

theorem filter_opensOn_lines (b : Block) : b.lines.filter Definition.opensOn = [b.opener] := by
  have hothers : b.others.filter Definition.opensOn = [] := by
    simpa using b.plain
  simp [lines, b.opens, hothers]

end Block

@[ext] structure Layout where
  preamble : List Text
  blocks : List Block
  plain : ∀ line ∈ preamble, Definition.opensOn line = false

namespace Layout

def lines (l : Layout) : List Text := l.preamble ++ l.blocks.flatMap Block.lines

/-- From the last line to the first: an opener takes the preamble behind it into its block. -/
def ofLines : List Text → Layout
  | [] => ⟨[], [], List.forall_mem_nil _⟩
  | line :: lines =>
    let rest := ofLines lines
    if h : Definition.opensOn line = true then
      ⟨[], ⟨line, rest.preamble, h, rest.plain⟩ :: rest.blocks, List.forall_mem_nil _⟩
    else
      ⟨line :: rest.preamble, rest.blocks, List.forall_mem_cons.2 ⟨by simpa using h, rest.plain⟩⟩

theorem ofLines_cons_opener {line : Text} (h : Definition.opensOn line = true)
    (lines : List Text) :
    ofLines (line :: lines) =
      ⟨[], ⟨line, (ofLines lines).preamble, h, (ofLines lines).plain⟩ :: (ofLines lines).blocks,
        List.forall_mem_nil _⟩ := by
  simp [ofLines, h]

theorem ofLines_cons_plain {line : Text} (h : Definition.opensOn line = false)
    (lines : List Text) :
    ofLines (line :: lines) =
      ⟨line :: (ofLines lines).preamble, (ofLines lines).blocks,
        List.forall_mem_cons.2 ⟨h, (ofLines lines).plain⟩⟩ := by
  simp [ofLines, h]

theorem lines_ofLines (lines : List Text) : (ofLines lines).lines = lines := by
  induction lines with
  | nil => rfl
  | cons line lines ih =>
    cases h : Definition.opensOn line with
    | true =>
      rw [ofLines_cons_opener h]
      simpa [Layout.lines, Block.lines] using ih
    | false =>
      rw [ofLines_cons_plain h]
      simpa [Layout.lines] using ih

theorem ofLines_append_plain {before : List Text}
    (h : ∀ line ∈ before, Definition.opensOn line = false) (lines : List Text) :
    (ofLines (before ++ lines)).preamble = before ++ (ofLines lines).preamble ∧
      (ofLines (before ++ lines)).blocks = (ofLines lines).blocks := by
  induction before with
  | nil => exact ⟨rfl, rfl⟩
  | cons line before ih =>
    obtain ⟨hline, hbefore⟩ := List.forall_mem_cons.1 h
    obtain ⟨hpreamble, hblocks⟩ := ih hbefore
    rw [List.cons_append, ofLines_cons_plain hline]
    exact ⟨congrArg (line :: ·) hpreamble, hblocks⟩

theorem ofLines_blocks (blocks : List Block) :
    (ofLines (blocks.flatMap Block.lines)).preamble = [] ∧
      (ofLines (blocks.flatMap Block.lines)).blocks = blocks := by
  induction blocks with
  | nil => exact ⟨rfl, rfl⟩
  | cons b blocks ih =>
    obtain ⟨hpreamble, hblocks⟩ := ofLines_append_plain b.plain (blocks.flatMap Block.lines)
    rw [ih.1, List.append_nil] at hpreamble
    rw [List.flatMap_cons, Block.lines, List.cons_append, ofLines_cons_opener b.opens]
    refine ⟨rfl, ?_⟩
    rw [List.cons.injEq]
    exact ⟨Block.ext rfl hpreamble, hblocks.trans ih.2⟩

theorem ofLines_lines (l : Layout) : ofLines l.lines = l := by
  obtain ⟨hpreamble, hblocks⟩ := ofLines_append_plain l.plain (l.blocks.flatMap Block.lines)
  rw [(ofLines_blocks l.blocks).1, List.append_nil] at hpreamble
  exact Layout.ext hpreamble (hblocks.trans (ofLines_blocks l.blocks).2)

theorem lines_eq_iff (l : Layout) (lines : List Text) : l.lines = lines ↔ l = ofLines lines := by
  constructor
  · rintro rfl
    exact (ofLines_lines l).symm
  · rintro rfl
    exact lines_ofLines lines

/-- The blocks of the lines from an opener on stand behind the layout of those in front of it. -/
theorem ofLines_append_opener {opener : Text} (h : Definition.opensOn opener = true)
    (before lines : List Text) :
    ofLines (before ++ opener :: lines) =
      ⟨(ofLines before).preamble, (ofLines before).blocks ++ (ofLines (opener :: lines)).blocks,
        (ofLines before).plain⟩ := by
  have hbehind : (ofLines (opener :: lines)).blocks.flatMap Block.lines = opener :: lines := by
    have hall := lines_ofLines (opener :: lines)
    rw [Layout.lines] at hall
    rwa [ofLines_cons_opener h] at hall ⊢
  refine ((lines_eq_iff _ _).1 ?_).symm
  calc
    _ = (ofLines before).lines ++ (ofLines (opener :: lines)).blocks.flatMap Block.lines := by
      simp [Layout.lines]
    _ = before ++ opener :: lines := by rw [lines_ofLines, hbehind]

end Layout

end RdStubs.Source
