import RdStubs.Proofs.Declarations.Regions
import RdStubs.Proofs.Directive

/-!
# The lines of regions

Which regions there are can be told from the lines themselves. A region begins with a line that
holds `#+` and nothing else. The names listed in it are those of the lines without a sign behind it,
up to the first line that holds `#-` and nothing else.
-/

namespace RdStubs.Directive

/-- The lines behind the one that begins the `i`-th region. -/
def BeginsRegion (lines : List Text) (i : Nat) (behind : List Text) : Prop :=
  ∃ before line, lines = before ++ line :: behind ∧ LineOpens line ∧
    before.countP (LineOpens ·) = i

/-- The names on the lines without a sign, up to the line that closes the region. -/
def namesOn (lines : List Text) : List Text :=
  ((lines.takeWhile (¬ LineCloses ·)).filter (Signless ·)).map listedName

def listedLines (lines : List Text) : List Text :=
  (lines.takeWhile (ofLine · ≠ .closes)).filter fun line => (listedName? (ofLine line)).isSome

def regionLines : List Text → List (List Text)
  | [] => []
  | line :: lines =>
    if ofLine line = .opens then listedLines lines :: regionLines lines else regionLines lines

theorem filterMap_listedName? (lines : List Text) :
    (lines.map ofLine).filterMap listedName? =
      (lines.filter fun line => (listedName? (ofLine line)).isSome).map listedName := by
  induction lines with
  | nil => rfl
  | cons line lines ih =>
    rw [List.map_cons, List.filterMap_cons, ih]
    cases h : ofLine line with
    | name n => simp [h, listedName?, eq_listedName_of_ofLine h]
    | _ => simp [h, listedName?]

theorem listed_map_ofLine (lines : List Text) :
    listed (lines.map ofLine) = (listedLines lines).map listedName := by
  rw [listed, List.takeWhile_map, filterMap_listedName?]
  rfl

/-- Each region holds the names of the lines that are listed in it. -/
theorem regions_map_ofLine (lines : List Text) :
    regions (lines.map ofLine) = (regionLines lines).map (·.map listedName) := by
  induction lines with
  | nil => rfl
  | cons line lines ih =>
    rw [List.map_cons, regionLines]
    split
    · next hopens => rw [hopens, regions, listed_map_ofLine, ih, List.map_cons]
    · next hopens =>
      rw [← ih]
      cases h : ofLine line with
      | opens => exact absurd h hopens
      | _ => rfl

theorem BeginsRegion.append {lines behind : List Text} {i : Nat} (h : BeginsRegion lines i behind)
    (more : List Text) : BeginsRegion (lines ++ more) i (behind ++ more) := by
  obtain ⟨before, line, rfl, hline, hcount⟩ := h
  exact ⟨before, line, by rw [List.append_assoc, List.cons_append], hline, hcount⟩

theorem isSome_listedName?_iff {line : Text} :
    (listedName? (ofLine line)).isSome = true ↔ Signless line := by
  cases h : ofLine line with
  | name n => exact iff_of_true rfl (signless_of_ofLine h)
  | _ => exact iff_of_false (by simp [listedName?]) (by simp [signless_iff, h])

theorem listedLines_eq (lines : List Text) :
    listedLines lines = (lines.takeWhile (¬ LineCloses ·)).filter (Signless ·) := by
  have hcloses : (fun line => decide (ofLine line ≠ .closes)) = (¬ LineCloses ·) := by
    funext line
    simp only [ne_eq, ofLine_eq_closes_iff]
  have hlists : (fun line => (listedName? (ofLine line)).isSome) = (Signless ·) := by
    funext line
    rw [Bool.eq_iff_iff, isSome_listedName?_iff, decide_eq_true_iff]
  rw [listedLines, hcloses, hlists]

theorem listed_eq_namesOn (lines : List Text) : listed (lines.map ofLine) = namesOn lines := by
  rw [listed_map_ofLine, listedLines_eq, namesOn]

example : namesOn [" \"a\" ,".toList, "b".toList, " #-\t".toList, "c".toList] =
    ["a".toList, "b".toList] := by
  decide

theorem count_opens_map_ofLine (lines : List Text) :
    (lines.map ofLine).count .opens = lines.countP (LineOpens ·) := by
  rw [List.count_eq_countP, List.countP_map]
  refine List.countP_congr fun line _ => ?_
  simp [ofLine_eq_opens_iff]

theorem closes_mem_map_ofLine_iff {lines : List Text} :
    .closes ∈ lines.map ofLine ↔ ∃ line ∈ lines, LineCloses line := by
  simp only [List.mem_map, ofLine_eq_closes_iff]

/-- Behind the line that closes its region a group is complete. -/
theorem namesOn_append_of_closes {lines : List Text} (h : ∃ line ∈ lines, LineCloses line)
    (more : List Text) : namesOn (lines ++ more) = namesOn lines := by
  rw [← listed_eq_namesOn, List.map_append,
    listed_append_of_closes (closes_mem_map_ofLine_iff.2 h), listed_eq_namesOn]

theorem opensRegion_map_ofLine_iff {lines : List Text} {i : Nat} {behind : List Directive} :
    OpensRegion (lines.map ofLine) i behind ↔
      ∃ rest, behind = rest.map ofLine ∧ BeginsRegion lines i rest := by
  constructor
  · rintro ⟨before, hsplit, hcount⟩
    obtain ⟨first, later, rfl, rfl, hlater⟩ := List.map_eq_append_iff.1 hsplit
    obtain ⟨line, rest, rfl, hline, rfl⟩ := List.map_eq_cons_iff.1 hlater
    rw [count_opens_map_ofLine] at hcount
    exact ⟨rest, rfl, first, line, rfl, ofLine_eq_opens_iff.1 hline, hcount⟩
  · rintro ⟨rest, rfl, before, line, rfl, hline, hcount⟩
    refine ⟨before.map ofLine, ?_, (count_opens_map_ofLine before).trans hcount⟩
    rw [List.map_append, List.map_cons, hline.ofLine_eq]

/-- The group of a region holds the names behind the line that begins it. -/
theorem getElem?_regions_map_ofLine_iff {lines : List Text} {i : Nat} {group : List Text} :
    (regions (lines.map ofLine))[i]? = some group ↔
      ∃ behind, BeginsRegion lines i behind ∧ group = namesOn behind := by
  rw [getElem?_regions_iff]
  constructor
  · rintro ⟨behind, hregion, rfl⟩
    obtain ⟨rest, rfl, hbegins⟩ := opensRegion_map_ofLine_iff.1 hregion
    exact ⟨rest, hbegins, listed_eq_namesOn rest⟩
  · rintro ⟨rest, hbegins, rfl⟩
    exact ⟨rest.map ofLine, opensRegion_map_ofLine_iff.2 ⟨rest, rfl, hbegins⟩,
      (listed_eq_namesOn rest).symm⟩

end RdStubs.Directive
