import Mathlib.Data.List.Induction
import RdStubs.Proofs.Declarations.Calls
import RdStubs.Proofs.Declarations.RegionLines

/-!
# The record of calls

However the calls that are made of new declarations take turns, and whether they fail or not, the
lines that were accepted say which groups there are and whether a region is open, and the requests
are counted. So a group that is closed stays as it is, and requests get the groups in order.
-/

namespace RdStubs.Declarations

open Directive

def accepted (made : List Exchange) : List Directive := made.filterMap Exchange.accepted?

theorem accepted_append (made more : List Exchange) :
    accepted (made ++ more) = accepted made ++ accepted more := List.filterMap_append

def Exchange.acceptedLine? (x : Exchange) : Option Text :=
  match x.call, x.result with
  | .declare line, .ok _ => some line
  | _, _ => none

theorem Exchange.accepted?_eq (x : Exchange) : x.accepted? = x.acceptedLine?.map ofLine := by
  unfold accepted? acceptedLine?
  cases x.call with
  | declare line => cases x.result <;> rfl
  | takeGroup statement => rfl

def acceptedLines (made : List Exchange) : List Text := made.filterMap Exchange.acceptedLine?

theorem accepted_eq_map (made : List Exchange) :
    accepted made = (acceptedLines made).map ofLine := by
  rw [accepted, acceptedLines, List.map_filterMap]
  exact List.filterMap_congr fun x _ => x.accepted?_eq

/-- What the directives that have been taken in say of the declarations. -/
structure Recorded (directives : List Directive) (d : Declarations) : Prop where
  groupsThrough : ∀ more, d.groupsThrough more = regions (directives ++ more)
  hasOpenRegion_iff : d.hasOpenRegion = true ↔
    ∃ i behind, OpensRegion directives i behind ∧ .closes ∉ behind

namespace Recorded

variable {directives : List Directive} {d d' : Declarations} {directive : Directive}

theorem nil : Recorded [] {} where
  groupsThrough _ := rfl
  hasOpenRegion_iff := by simp [hasOpenRegion, OpensRegion]

theorem groups_eq (h : Recorded directives d) : d.groups = regions directives := by
  rw [← d.groupsThrough_nil, h.groupsThrough, List.append_nil]

theorem accept (h : Recorded directives d) (haccepts : d.Accepts directive d') :
    Recorded (directives ++ [directive]) d' where
  groupsThrough more := by
    rw [haccepts.groupsThrough_eq, h.groupsThrough, List.append_assoc]
    rfl
  hasOpenRegion_iff := by
    rw [exists_unclosed_concat_iff, ← h.hasOpenRegion_iff]
    cases haccepts with
    | opens _ => simp [hasOpenRegion]
    | closes _ => simp [hasOpenRegion]
    | redirect hnone => simp [hasOpenRegion, hnone]
    | lists hsome => simp [hasOpenRegion, hsome]
    | ignores hnone => simp [hasOpenRegion, hnone]

theorem request (h : Recorded directives d) (n : Nat) :
    Recorded directives { d with taken := n } where
  groupsThrough := h.groupsThrough
  hasOpenRegion_iff := h.hasOpenRegion_iff

theorem exchange {x : Exchange} (h : Recorded directives x.before.state) :
    Recorded (directives ++ accepted [x]) x.after.state := by
  cases hcall : x.call with
  | declare line =>
    rcases Exchange.declare_cases hcall with ⟨d, haccepts, haccepted, -, hafter⟩ |
      ⟨-, haccepted, -, hafter⟩
    · simp only [accepted, List.filterMap_cons, List.filterMap_nil, haccepted, hafter]
      exact h.accept haccepts
    · simp only [accepted, List.filterMap_cons, List.filterMap_nil, haccepted, hafter,
        List.append_nil]
      exact h
  | takeGroup statement =>
    simp only [accepted, List.filterMap_cons, List.filterMap_nil,
      (Exchange.not_declare_of_takeGroup hcall).1, (Exchange.run_takeGroup hcall).2,
      List.append_nil]
    exact h.request _

end Recorded

/-- After any calls the directives that were taken in are a record of the declarations. -/
theorem recorded_finish (calls : List Call) :
    Recorded (accepted (exchanges calls { state := {} })) (finish { state := {} } calls).state := by
  induction calls using List.reverseRecOn with
  | nil => exact Recorded.nil
  | append_singleton calls call ih =>
    rw [exchanges_append, accepted_append, finish_append]
    exact Recorded.exchange (x := ⟨call, finish { state := {} } calls⟩) ih

theorem Exchange.taken_after (x : Exchange) :
    x.after.state.taken = x.before.state.taken + if x.call.asks then 1 else 0 := by
  cases hcall : x.call with
  | declare line =>
    rcases declare_cases hcall with ⟨d, haccepts, -, -, hafter⟩ | ⟨-, -, -, hafter⟩
    · rw [hafter, haccepts.taken_eq]
      rfl
    · rw [hafter]
      rfl
  | takeGroup statement =>
    rw [(run_takeGroup hcall).2]
    rfl

/-- Requests are counted, met or not; nothing else moves the count. -/
theorem taken_finish (start : Progress Declarations) (calls : List Call) :
    (finish start calls).state.taken = start.state.taken + calls.countP Call.asks := by
  induction calls generalizing start with
  | nil => rfl
  | cons call calls ih =>
    have hstep : (Exchange.after ⟨call, start⟩).state.taken =
        start.state.taken + if call.asks then 1 else 0 := Exchange.taken_after ⟨call, start⟩
    calc (finish start (call :: calls)).state.taken
        = (finish (Exchange.after ⟨call, start⟩) calls).state.taken := rfl
      _ = (start.state.taken + if call.asks then 1 else 0) + calls.countP Call.asks := by
        rw [ih, hstep]
      _ = start.state.taken + (call :: calls).countP Call.asks := by
        rw [List.countP_cons]
        omega

/-- A group is open at the end of the others, and a line without a sign is taken into it. -/
theorem groups_of_open {calls : List Call} {start : Progress Declarations}
    (hopen : (finish start calls).state.hasOpenRegion = true) :
    ∃ earlier names, (finish start calls).state.groups = earlier ++ [names] ∧
      ∀ line, Signless line →
        (finish start (calls ++ [.declare line])).state.groups =
          earlier ++ [names ++ [listedName line]] := by
  obtain ⟨names, hnames⟩ := Option.isSome_iff_exists.1 hopen
  refine ⟨(finish start calls).state.closed, names, by rw [groups, hnames]; rfl, ?_⟩
  intro line hline
  have haccepts := Accepts.lists (n := listedName line) hnames
  rw [← signless_iff.1 hline] at haccepts
  have hafter := Exchange.after_of_accepts (x := ⟨.declare line, finish start calls⟩) rfl haccepts
  rw [finish_append]
  exact congrArg groups hafter

theorem groups_eq_regions (calls : List Call) :
    (finish { state := {} } calls).state.groups =
      regions ((acceptedLines (exchanges calls { state := {} })).map ofLine) := by
  rw [← accepted_eq_map]
  exact (recorded_finish calls).groups_eq

theorem hasOpenRegion_iff (calls : List Call) :
    (finish { state := {} } calls).state.hasOpenRegion = true ↔
      ∃ i behind, BeginsRegion (acceptedLines (exchanges calls { state := {} })) i behind ∧
        ∀ line ∈ behind, ¬ LineCloses line := by
  rw [(recorded_finish calls).hasOpenRegion_iff, accepted_eq_map]
  constructor
  · rintro ⟨i, behind, hregion, hcloses⟩
    obtain ⟨rest, rfl, hbegins⟩ := opensRegion_map_ofLine_iff.1 hregion
    refine ⟨i, rest, hbegins, fun line hline h => hcloses ?_⟩
    exact closes_mem_map_ofLine_iff.2 ⟨line, hline, h⟩
  · rintro ⟨i, rest, hbegins, hopen⟩
    refine ⟨i, rest.map ofLine, opensRegion_map_ofLine_iff.2 ⟨rest, rfl, hbegins⟩, fun hcloses => ?_⟩
    obtain ⟨line, hline, h⟩ := closes_mem_map_ofLine_iff.1 hcloses
    exact hopen line hline h

theorem getElem?_groups_iff (calls : List Call) {i : Nat} {group : List Text} :
    (finish { state := {} } calls).state.groups[i]? = some group ↔
      ∃ behind, BeginsRegion (acceptedLines (exchanges calls { state := {} })) i behind ∧
        group = namesOn behind := by
  rw [groups_eq_regions, getElem?_regions_map_ofLine_iff]

theorem closed_group_stays (calls more : List Call) {i : Nat} {behind : List Text}
    (hbegins : BeginsRegion (acceptedLines (exchanges calls { state := {} })) i behind)
    (hcloses : ∃ line ∈ behind, LineCloses line) :
    (finish { state := {} } (calls ++ more)).state.groups[i]? =
      (finish { state := {} } calls).state.groups[i]? := by
  rw [(getElem?_groups_iff calls).2 ⟨behind, hbegins, rfl⟩, getElem?_groups_iff,
    exchanges_append, acceptedLines, List.filterMap_append]
  exact ⟨_, hbegins.append _, (namesOn_append_of_closes hcloses _).symm⟩

/-- A request looks at the group whose number is that of the requests before it. -/
theorem requests_in_turn {calls : List Call} {earlier later : List Exchange} {x : Exchange}
    {statement : Text} (hsplit : exchanges calls { state := {} } = earlier ++ x :: later)
    (hcall : x.call = .takeGroup statement) :
    x.after.state = { x.before.state with taken := x.before.state.taken + 1 } ∧
      x.before.state.taken = earlier.countP (·.call.asks) ∧
      x.result = handOut statement x.before.state.groups[earlier.countP (·.call.asks)]? := by
  have htaken : x.before.state.taken = earlier.countP (·.call.asks) := by
    rw [before_eq_finish hsplit, taken_finish, List.countP_map, Nat.zero_add]
    rfl
  obtain ⟨hresult, hafter⟩ := Exchange.run_takeGroup hcall
  exact ⟨hafter, htaken, htaken ▸ hresult⟩

/-- After any calls of new declarations, there is a group for each accepted line with the sign that
begins a region. It holds the names on the accepted lines behind, up to the one with the sign that
closes the region; a region is open if no such line has come, and then a line without a sign adds
its name there. A closed group stays as it is, and requests, met or not, only count and get the
groups in order. -/
theorem groups_follow_accepted_lines (calls : List Call) :
    let start : Progress Declarations := { state := {} }
    let d := (finish start calls).state
    let lines := acceptedLines (exchanges calls start)
    d.groups.length = lines.countP (LineOpens ·) ∧
      (d.hasOpenRegion = true ↔
        ∃ i behind, BeginsRegion lines i behind ∧ ∀ line ∈ behind, ¬ LineCloses line) ∧
      (d.hasOpenRegion = true → ∃ earlier names, d.groups = earlier ++ [names] ∧
        ∀ line, Signless line → (finish start (calls ++ [.declare line])).state.groups =
          earlier ++ [names ++ [listedName line]]) ∧
      (∀ i group, d.groups[i]? = some group ↔
        ∃ behind, BeginsRegion lines i behind ∧ group = namesOn behind) ∧
      (∀ i behind more, BeginsRegion lines i behind → (∃ line ∈ behind, LineCloses line) →
        (finish start (calls ++ more)).state.groups[i]? = d.groups[i]?) ∧
      ∀ earlier x later statement, exchanges calls start = earlier ++ x :: later →
        x.call = .takeGroup statement →
          x.after.state = { x.before.state with taken := x.before.state.taken + 1 } ∧
          x.before.state.taken = earlier.countP (·.call.asks) ∧
          x.result = handOut statement x.before.state.groups[earlier.countP (·.call.asks)]? := by
  intro start d lines
  refine ⟨?_, hasOpenRegion_iff calls, groups_of_open, ?_, ?_, ?_⟩
  · rw [groups_eq_regions, length_regions, count_opens_map_ofLine]
  · intro i group
    exact getElem?_groups_iff calls
  · intro i behind more hbegins hcloses
    exact closed_group_stays calls more hbegins hcloses
  · intro earlier x later statement hsplit hcall
    exact requests_in_turn hsplit hcall

end RdStubs.Declarations
