import RdStubs.Proofs.FileTree.Spelling

/-!
# Components of joined paths

Joining a relative path puts its components behind those of the path in front. A name without a
separator makes one component, and no component is ever a name with a separator, so such a name
makes others: what it begins with may even take the place of the path in front.
-/

namespace RdStubs.Path

theorem Component.ofSegment?_eq_name {segment : Text} (hidle : isIdle segment = false)
    (hup : segment ≠ ['.', '.']) : ofSegment? segment = some (.name segment) := by
  rw [ofSegment?, hidle, if_neg Bool.false_ne_true, if_neg hup]

theorem Component.ofFirst?_of_ne_nil {segment : Text} (h : segment ≠ []) (more more' : Bool) :
    ofFirst? segment more = ofFirst? segment more' := by
  rw [ofFirst?, ofFirst?, if_neg h, if_neg h]

theorem components_of_segments {p : Path} {first : Text} {rest : List Text}
    (h : p.segments = first :: rest) :
    p.components =
      (Component.ofFirst? first !rest.isEmpty).toList ++ rest.filterMap Component.ofSegment? := by
  rw [components, h]

theorem components_append_separator {s : Text} (h : s ≠ []) (t : Text) :
    components ⟨s ++ '/' :: t⟩ =
      components ⟨s⟩ ++ (Text.split '/' t).filterMap Component.ofSegment? := by
  obtain ⟨first, rest, hsplit⟩ := List.exists_cons_of_ne_nil (Text.split_ne_nil '/' s)
  have hjoined : segments ⟨s ++ '/' :: t⟩ = first :: (rest ++ Text.split '/' t) :=
    (Text.split_append_sep '/' s t).trans (by rw [hsplit, List.cons_append])
  have hfirst : Component.ofFirst? first (!(rest ++ Text.split '/' t).isEmpty) =
      Component.ofFirst? first (!rest.isEmpty) := by
    cases first with
    | nil =>
      have hrest : rest ≠ [] := by
        rintro rfl
        exact h (Text.eq_nil_of_split hsplit)
      obtain ⟨next, more, rfl⟩ := List.exists_cons_of_ne_nil hrest
      rfl
    | cons c first => exact Component.ofFirst?_of_ne_nil (List.cons_ne_nil c first) _ _
  rw [components_of_segments hjoined, components_of_segments (p := ⟨s⟩) hsplit, hfirst,
    List.filterMap_append, List.append_assoc]

theorem not_mem_of_name_mem_components {p : Path} {n : Text} (h : .name n ∈ p.components) :
    '/' ∉ n := by
  have hsegment : n ∈ p.components.filterMap Component.segment? :=
    List.mem_filterMap.2 ⟨.name n, h, rfl⟩
  rw [filterMap_components] at hsegment
  exact Text.not_mem_of_mem_split (List.mem_of_mem_filter hsegment)

theorem isAbsolute_of_not_mem {s : Text} (h : '/' ∉ s) : isAbsolute ⟨s⟩ = false := by
  refine decide_eq_false fun hhead => h ?_
  exact List.mem_of_mem_head? hhead

theorem join_of_relative {p q : Path} (hq : q.isAbsolute = false) (hp : p.text ≠ [])
    (hlast : p.text.getLast? ≠ some '/') : p.join q = ⟨p.text ++ '/' :: q.text⟩ := by
  rw [join, hq, if_neg Bool.false_ne_true, if_neg (not_or.2 ⟨hp, hlast⟩)]

/-- A file name makes one component behind a path that does not end in a separator, and it is the
only kind of text that does. -/
theorem components_join_eq_iff {p : Path} {n : Text} (hp : p.text ≠ [])
    (hlast : p.text.getLast? ≠ some '/') (hidle : isIdle n = false) (hup : n ≠ ['.', '.']) :
    (p.join ⟨n⟩).components = p.components ++ [.name n] ↔ '/' ∉ n := by
  constructor
  · intro h
    refine not_mem_of_name_mem_components (p := p.join ⟨n⟩) ?_
    rw [h]
    exact List.mem_append_right _ List.mem_cons_self
  · intro h
    rw [join_of_relative (isAbsolute_of_not_mem h) hp hlast, components_append_separator hp,
      Text.split_of_not_mem h]
    simp only [List.filterMap_cons, List.filterMap_nil, Component.ofSegment?_eq_name hidle hup]

end RdStubs.Path
