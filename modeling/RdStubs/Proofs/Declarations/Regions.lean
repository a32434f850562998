import RdStubs.Declarations
import RdStubs.Proofs.Task

/-!
# Regions and groups

`regions` reads the groups off the directives that were accepted: each start of a region opens a
group, and the names up to the next end are in it. The declarations hold exactly these groups,
because what they still expect from later directives is kept by every directive they accept.
-/

namespace RdStubs

namespace Directive

def listedName? : Directive → Option Text
  | name n => some n
  | _ => none

/-- The names that directives list up to the end of a region. -/
def listed (directives : List Directive) : List Text :=
  (directives.takeWhile (· ≠ .closes)).filterMap listedName?

def regions : List Directive → List (List Text)
  | [] => []
  | .opens :: directives => listed directives :: regions directives
  | _ :: directives => regions directives

/-- The directives behind the one that opens the `i`-th region. -/
def OpensRegion (directives : List Directive) (i : Nat) (behind : List Directive) : Prop :=
  ∃ before, directives = before ++ .opens :: behind ∧ before.count .opens = i

example : regions [.opens, .name ['a'], .name ['b'], .closes, .name ['c'], .opens, .name ['d']] =
    [[['a'], ['b']], [['d']]] := by decide

section

variable {directives behind : List Directive} {directive : Directive} {i : Nat}

theorem opensRegion_opens_cons : OpensRegion (.opens :: directives) i behind ↔
    (i = 0 ∧ behind = directives) ∨ ∃ j, i = j + 1 ∧ OpensRegion directives j behind := by
  constructor
  · rintro ⟨_ | ⟨first, before⟩, hsplit, rfl⟩
    · exact .inl ⟨rfl, (List.cons.inj hsplit).2.symm⟩
    · obtain ⟨rfl, rfl⟩ := List.cons.inj hsplit
      exact .inr ⟨_, List.count_cons_self, before, rfl, rfl⟩
  · rintro (⟨rfl, rfl⟩ | ⟨_, rfl, before, rfl, rfl⟩)
    · exact ⟨[], rfl, rfl⟩
    · exact ⟨.opens :: before, rfl, List.count_cons_self⟩

theorem opensRegion_cons_of_ne (h : directive ≠ .opens) :
    OpensRegion (directive :: directives) i behind ↔ OpensRegion directives i behind := by
  constructor
  · rintro ⟨_ | ⟨first, before⟩, hsplit, rfl⟩
    · exact absurd (List.cons.inj hsplit).1 h
    · obtain ⟨rfl, rfl⟩ := List.cons.inj hsplit
      exact ⟨before, rfl, (List.count_cons_of_ne h).symm⟩
  · rintro ⟨before, rfl, rfl⟩
    exact ⟨directive :: before, rfl, List.count_cons_of_ne h⟩

theorem opensRegion_concat : OpensRegion (directives ++ [directive]) i behind ↔
    (directive = .opens ∧ behind = [] ∧ directives.count .opens = i) ∨
      ∃ rest, behind = rest ++ [directive] ∧ OpensRegion directives i rest := by
  constructor
  · rintro ⟨before, hsplit, hcount⟩
    rcases List.eq_nil_or_concat behind with rfl | ⟨rest, last, rfl⟩
    · obtain ⟨rfl, hlast⟩ := List.append_inj' hsplit rfl
      exact .inl ⟨(List.cons.inj hlast).1, rfl, hcount⟩
    · rw [List.concat_eq_append, ← List.cons_append, ← List.append_assoc] at hsplit
      obtain ⟨rfl, hlast⟩ := List.append_inj' hsplit rfl
      obtain ⟨rfl, -⟩ := List.cons.inj hlast
      exact .inr ⟨rest, List.concat_eq_append, before, rfl, hcount⟩
  · rintro (⟨rfl, rfl, rfl⟩ | ⟨rest, rfl, before, rfl, rfl⟩)
    · exact ⟨directives, rfl, rfl⟩
    · exact ⟨before, List.append_assoc _ _ _, rfl⟩

/-- Behind one more directive a region is open if this one opens it, or if one was open and this
one does not close it. -/
theorem exists_unclosed_concat_iff :
    (∃ i behind, OpensRegion (directives ++ [directive]) i behind ∧ .closes ∉ behind) ↔
      directive = .opens ∨
        directive ≠ .closes ∧ ∃ i behind, OpensRegion directives i behind ∧ .closes ∉ behind := by
  simp only [opensRegion_concat]
  constructor
  · rintro ⟨i, behind, ⟨hopens, -, -⟩ | ⟨rest, rfl, hrest⟩, hcloses⟩
    · exact .inl hopens
    · rw [List.mem_append, List.mem_singleton, not_or] at hcloses
      exact .inr ⟨Ne.symm hcloses.2, i, rest, hrest, hcloses.1⟩
  · rintro (rfl | ⟨hne, i, rest, hrest, hcloses⟩)
    · exact ⟨_, [], .inl ⟨rfl, rfl, rfl⟩, List.not_mem_nil⟩
    · refine ⟨i, rest ++ [directive], .inr ⟨rest, rfl, hrest⟩, ?_⟩
      rw [List.mem_append, List.mem_singleton, not_or]
      exact ⟨hcloses, Ne.symm hne⟩

end

theorem length_regions (directives : List Directive) :
    (regions directives).length = directives.count .opens := by
  induction directives with
  | nil => rfl
  | cons directive directives ih =>
    cases directive with
    | opens => rw [regions, List.length_cons, ih, List.count_cons_self]
    | _ => simpa [regions] using ih

/-- The group of a region is what is listed behind the line that opens it. -/
theorem getElem?_regions_iff {directives : List Directive} {i : Nat} {group : List Text} :
    (regions directives)[i]? = some group ↔
      ∃ behind, OpensRegion directives i behind ∧ group = listed behind := by
  induction directives generalizing i with
  | nil => simp [regions, OpensRegion]
  | cons directive directives ih =>
    by_cases hopens : directive = .opens
    · subst hopens
      simp only [opensRegion_opens_cons, regions]
      cases i with
      | zero => simp [eq_comm]
      | succ i => simpa using ih
    · have hregions : regions (directive :: directives) = regions directives := by
        cases directive <;> first | rfl | exact absurd rfl hopens
      simp only [opensRegion_cons_of_ne hopens, hregions, ih]

/-- Behind the end of its region a group is complete. -/
theorem listed_append_of_closes {directives : List Directive} (h : .closes ∈ directives)
    (more : List Directive) : listed (directives ++ more) = listed directives := by
  obtain ⟨names, rest, rfl, hnames⟩ := List.eq_append_cons_of_mem h
  have hall : ∀ directive ∈ names, decide (directive ≠ .closes) = true := by
    intro directive hmem
    exact decide_eq_true fun hcloses => hnames (hcloses ▸ hmem)
  rw [List.append_assoc, listed, listed, List.takeWhile_append_of_pos hall,
    List.takeWhile_append_of_pos hall]
  rfl

end Directive

namespace Declarations

open Directive

inductive Accepts (d : Declarations) : Directive → Declarations → Prop
  | opens (h : d.current? = none) : Accepts d .opens { d with current? := some [] }
  | closes {names : List Text} (h : d.current? = some names) :
      Accepts d .closes { d with closed := d.closed ++ [names], current? := none }
  | redirect {raw page : Text} (h : d.current? = none) :
      Accepts d (.redirect raw page) { d with redirects := d.redirects.insert raw page }
  | lists {names : List Text} {n : Text} (h : d.current? = some names) :
      Accepts d (.name n) { d with current? := some (names ++ [n]) }
  | ignores {n : Text} (h : d.current? = none) : Accepts d (.name n) d

theorem accept?_eq_some_iff {d d' : Declarations} {directive : Directive} :
    d.accept? directive = some d' ↔ d.Accepts directive d' := by
  constructor
  · intro h
    obtain ⟨closed, current?, taken, redirects⟩ := d
    cases current? <;> cases directive <;> simp [accept?, hasOpenRegion] at h <;> subst h
    · exact .opens rfl
    · exact .redirect rfl
    · exact .ignores rfl
    · exact .closes rfl
    · exact .lists rfl
  · rintro (h | h | h | h | h)
    all_goals simp [accept?, hasOpenRegion, h]
    simp [← h]

theorem Accepts.taken_eq {d d' : Declarations} {directive : Directive}
    (h : d.Accepts directive d') : d'.taken = d.taken := by
  cases h <;> rfl

/-- The groups that there are once the directives `more` have followed. -/
def groupsThrough (d : Declarations) (more : List Directive) : List (List Text) :=
  match d.current? with
  | none => d.closed ++ regions more
  | some names => d.closed ++ (names ++ listed more) :: regions more

theorem groupsThrough_nil (d : Declarations) : d.groupsThrough [] = d.groups := by
  cases h : d.current? <;> simp [groupsThrough, groups, h, regions, listed]

theorem Accepts.groupsThrough_eq {d d' : Declarations} {directive : Directive}
    (h : d.Accepts directive d') (more : List Directive) :
    d'.groupsThrough more = d.groupsThrough (directive :: more) := by
  cases h with
  | opens h => simp [groupsThrough, h, regions]
  | closes h => simp [groupsThrough, h, regions, listed]
  | redirect h => simp [groupsThrough, h, regions]
  | lists h => simp [groupsThrough, h, regions, listed, listedName?]
  | ignores h => simp [groupsThrough, h, regions]

/-- A request changes the count and nothing that the groups are read off. -/
theorem groupsThrough_taken (d : Declarations) (n : Nat) (more : List Directive) :
    { d with taken := n }.groupsThrough more = d.groupsThrough more := rfl

/-- A line that is accepted matters by the directive that it is read as. -/
theorem run_declare_eq_announce {line : Text} {p : Progress Declarations} {d : Declarations}
    (h : p.state.accept? (Directive.ofLine line) = some d) :
    (declare line).run p =
      (announce (Directive.ofLine line) >>= fun _ => Task.setState d).run p := by
  simp [declare, h]

theorem run_declare_of_accept {line : Text} {p : Progress Declarations} {d : Declarations}
    (h : p.state.accept? (Directive.ofLine line) = some d) :
    ∃ notices, (declare line).run p = .ok () ⟨d, notices⟩ := by
  rw [run_declare_eq_announce h]
  cases Directive.ofLine line <;> exact ⟨_, rfl⟩

theorem run_declare_of_refuse {line : Text} {p : Progress Declarations}
    (h : p.state.accept? (Directive.ofLine line) = none) :
    (declare line).run p = .error (.malformedDirective (Text.trimEnd line)) p := by
  simp [declare, h]

/-- A line is accepted, or it is refused and nothing changes. -/
theorem declare_cases (line : Text) (p : Progress Declarations) :
    (∃ d, p.state.Accepts (ofLine line) d ∧ Task.result (declare line) p = .ok () ∧
      (Task.after (declare line) p).state = d) ∨
    (p.state.accept? (ofLine line) = none ∧
      Task.result (declare line) p = .error (.malformedDirective (Text.trimEnd line)) ∧
      Task.after (declare line) p = p) := by
  cases haccept : p.state.accept? (ofLine line) with
  | some d =>
    obtain ⟨notices, hrun⟩ := run_declare_of_accept haccept
    obtain ⟨hresult, hafter⟩ := Task.run_eq_ok_iff.1 hrun
    exact .inl ⟨d, accept?_eq_some_iff.1 haccept, hresult, congrArg Progress.state hafter⟩
  | none =>
    obtain ⟨hresult, hafter⟩ := Task.run_eq_error_iff.1 (run_declare_of_refuse haccept)
    exact .inr ⟨rfl, hresult, hafter⟩

/-- What a request comes to when `group?` is the group that is next. -/
def handOut (statement : Text) : Option (List Text) → Except Error (List Text)
  | some (n :: names) => .ok (n :: names)
  | _ => .error (.noPlaceholders (Text.trimEnd statement))

theorem run_takeGroup (statement : Text) (p : Progress Declarations) :
    Task.result (takeGroup statement) p = handOut statement p.state.groups[p.state.taken]? ∧
      (Task.after (takeGroup statement) p).state = { p.state with taken := p.state.taken + 1 } := by
  unfold takeGroup Task.result Task.after
  simp only [EStateM.run_bind, Task.run_state, Task.run_setState]
  rcases p.state.groups[p.state.taken]? with _ | _ | ⟨n, names⟩ <;> exact ⟨rfl, rfl⟩

/-- Lines are declared one after another where the directives on them are accepted in turn. -/
theorem run_forM_declare {lines : List Text} {p : Progress Declarations} {d : Declarations}
    (h : (lines.map ofLine).foldlM accept? p.state = some d) :
    ∃ notices, (lines.forM declare).run p = .ok () ⟨d, notices⟩ := by
  induction lines generalizing p with
  | nil =>
    obtain rfl := Option.some.inj h
    exact ⟨p.notices, rfl⟩
  | cons line lines ih =>
    rw [List.map_cons, List.foldlM_cons] at h
    obtain ⟨d', haccept, hrest⟩ := Option.bind_eq_some_iff.1 h
    obtain ⟨notices, hline⟩ := run_declare_of_accept haccept
    obtain ⟨notices', hlines⟩ := ih (p := ⟨d', notices⟩) hrest
    exact ⟨notices', Task.run_bind_eq_ok_iff.2 ⟨(), _, hline, hlines⟩⟩

theorem foldlM_accept?_names (d : Declarations) (front names : List Text) :
    (names.map Directive.name).foldlM accept? { d with current? := some front } =
      some { d with current? := some (front ++ names) } := by
  induction names generalizing front with
  | nil => rw [List.append_nil]; rfl
  | cons n names ih =>
    rw [List.map_cons, List.foldlM_cons]
    have hrest := ih (front ++ [n])
    rw [List.append_assoc, List.singleton_append] at hrest
    exact hrest

/-- A region that is opened, lists names and is closed becomes a group. -/
theorem foldlM_accept?_region {d : Declarations} (h : d.current? = none) (names : List Text) :
    (Directive.opens :: (names.map Directive.name ++ [.closes])).foldlM accept? d =
      some { d with closed := d.closed ++ [names] } := by
  have hopens : d.accept? .opens = some { d with current? := some [] } :=
    accept?_eq_some_iff.2 (.opens h)
  have hcloses : ({ d with current? := some names } : Declarations).accept? .closes =
      some { d with closed := d.closed ++ [names] } := by
    obtain ⟨closed, current?, taken, redirects⟩ := d
    obtain rfl : current? = none := h
    rfl
  rw [List.foldlM_cons, hopens, Option.bind_eq_bind, Option.bind_some, List.foldlM_append,
    foldlM_accept?_names, List.nil_append, Option.bind_eq_bind, Option.bind_some,
    List.foldlM_cons, hcloses]
  rfl

end Declarations

end RdStubs
