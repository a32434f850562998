import RdStubs.Proofs.Declarations.Requests
import RdStubs.Proofs.Text.Marks

/-!
# The reserved name

No method is made of the word that stands for placeholders. The word is looked for before the
backticks around a name go, though, so in backticks it passes, and a method of that name is made:
from a quoted name, from a name that is listed in a region, and in no other way.
-/

namespace RdStubs

open Text

namespace Text

/-- What becomes `t` by unwrapping and was something else before was `t` in marks. -/
theorem unwrap_eq_iff_of_ne {q : Char} {s t : Text} (h : s ≠ t) :
    unwrap q s = t ↔ s = marked q t ∧ t ≠ [] ∧ q ∉ t := by
  constructor
  · rintro rfl
    exact (unwrap_cases q s).resolve_left fun hsame => h hsame.1.symm
  · rintro ⟨rfl, hne, hplain⟩
    exact unwrap_marked hne hplain

theorem unwrap_eq_placeholderWord_iff {name : Text} (h : name ≠ placeholderWord) :
    unwrap '\x60' name = placeholderWord ↔ name = marked '\x60' placeholderWord := by
  rw [unwrap_eq_iff_of_ne h]
  exact and_iff_left ⟨by decide, by decide⟩

end Text

namespace Method

variable {name classExpr formals : Text} {source : Path}

theorem exists_ofParts_iff :
    (∃ m, ofParts name classExpr formals source = .ok m) ↔ name ≠ placeholderWord := by
  unfold ofParts
  split
  · next hname => simp [hname]
  · next hname => simp [hname]

theorem name_of_ofParts {m : Method} (h : ofParts name classExpr formals source = .ok m) :
    name ≠ placeholderWord ∧ m.name = unwrap '\x60' name := by
  unfold ofParts at h
  split at h
  · cases h
  · next hname =>
    cases h
    exact ⟨hname, rfl⟩

end Method

namespace Source

namespace Event

def names (event : Event) : List Text :=
  match event.step with
  | .declare _ => []
  | .define lines =>
    namesOf (unlines lines) event.before.state.groups[event.before.state.taken]?

theorem result_names {event : Event} {methods : List Method} (h : event.result = .ok methods) :
    placeholderWord ∉ event.names ∧
      methods.map Method.name = event.names.map (unwrap '\x60') := by
  unfold names
  cases hstep : event.step with
  | declare line =>
    rcases declare_cases hstep with ⟨_, -, hresult, -⟩ | ⟨hresult, -⟩
    · rw [hresult] at h
      cases h
      exact ⟨List.not_mem_nil, rfl⟩
    · rw [hresult] at h
      cases h
  | define lines =>
    rw [result_define hstep] at h
    obtain ⟨d, -, hreserved, rfl⟩ := methodsFrom_namesOf h
    rw [List.map_map]
    exact ⟨hreserved, rfl⟩

/-- A step makes a method of the reserved name exactly if one of its names is that word in
backticks. -/
theorem exists_reserved_iff {event : Event} {methods : List Method}
    (h : event.result = .ok methods) :
    (∃ m ∈ methods, m.name = placeholderWord) ↔ marked '\x60' placeholderWord ∈ event.names := by
  obtain ⟨hreserved, hnames⟩ := result_names h
  rw [← List.mem_map, hnames, List.mem_map]
  constructor
  · rintro ⟨name, hname, hword⟩
    have hne : name ≠ placeholderWord := fun heq => hreserved (heq ▸ hname)
    rwa [(unwrap_eq_placeholderWord_iff hne).1 hword] at hname
  · intro hmarked
    exact ⟨_, hmarked, unwrap_marked (by decide) (by decide)⟩

end Event

theorem map_name_of_outcome {history : List Event} {made : List Method}
    (h : outcome history = .ok made) :
    made.map Method.name = (history.flatMap Event.names).map (unwrap '\x60') := by
  induction history generalizing made with
  | nil =>
    cases h
    rfl
  | cons event history ih =>
    obtain ⟨first, more, hfirst, hmore, rfl⟩ := outcome_cons_ok h
    have hnames := (Event.result_names hfirst).2
    rw [List.map_append, List.flatMap_cons, List.map_append, hnames, ih hmore]

theorem exists_reserved_of_outcome {history : List Event} {made : List Method}
    (h : outcome history = .ok made) :
    (∃ m ∈ made, m.name = placeholderWord) ↔
      ∃ event ∈ history, marked '\x60' placeholderWord ∈ event.names := by
  induction history generalizing made with
  | nil =>
    cases h
    simp
  | cons event history ih =>
    obtain ⟨first, more, hfirst, hmore, rfl⟩ := outcome_cons_ok h
    simp only [List.mem_append, or_and_right, exists_or, List.exists_mem_cons_iff,
      event.exists_reserved_iff hfirst, ih hmore]

/-- A name makes a method unless it is the reserved word, and the method has this word for its name
exactly if it was given in backticks. So a reading finds a method of that name exactly where a
definition is given the word in backticks, by its own quotes or by the region it is handed. -/
theorem reserved_name_only_from_backticks (sources : List (Path × Text))
    (start : Progress Declarations) :
    (∀ (name classExpr formals : Text) (source : Path),
      ((∃ m, Method.ofParts name classExpr formals source = .ok m) ↔ name ≠ placeholderWord) ∧
        ∀ m, Method.ofParts name classExpr formals source = .ok m →
          (m.name = placeholderWord ↔ name = marked '\x60' placeholderWord)) ∧
      (readEach sources start).1 = (histories sources start).map outcome ∧
      ∀ history ∈ histories sources start, ∀ made, outcome history = .ok made →
        ((∃ m ∈ made, m.name = placeholderWord) ↔
          ∃ event ∈ history, marked '\x60' placeholderWord ∈ event.names) := by
  refine ⟨fun name classExpr formals source => ⟨Method.exists_ofParts_iff, fun m hm => ?_⟩,
    (readEach_eq_histories sources start).1, fun history _ made hmade => ?_⟩
  · obtain ⟨hne, hname⟩ := Method.name_of_ofParts hm
    rw [hname, unwrap_eq_placeholderWord_iff hne]
  · exact exists_reserved_of_outcome hmade

theorem reserved_name_in_backticks :
    Method.ofParts "\x60func_\x60".toList "A".toList "(x)".toList ⟨"pkg/R/x.R".toList⟩ =
      .ok { name := placeholderWord
            signature := "A".toList
            formals := "(x)".toList
            source := ⟨"pkg/R/x.R".toList⟩ } := by
  decide

end Source

end RdStubs
