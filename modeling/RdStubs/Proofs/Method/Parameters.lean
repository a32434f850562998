import RdStubs.Method.Markup
import RdStubs.Proofs.Method.Formals
import RdStubs.Proofs.Method.PageName

/-!
# The parameter `value`

A replacement method is shown without its parameter `value`. It is looked for as a text, behind the
first comma with that word next to it, so a parameter whose name only begins with the word is
taken for it. The list is shown without `value`, and otherwise as it was, exactly if no parameter
but the first one has such a name.
-/

namespace RdStubs

open Text

namespace Text

theorem eraseFirst_append_of_forall {after? : Text → Option Text} {before : Text}
    (h : ∀ c ∈ before, ∀ t, after? (c :: t) = none) (s : Text) :
    eraseFirst after? (before ++ s) = before ++ eraseFirst after? s := by
  induction before with
  | nil => rfl
  | cons c before ih =>
    obtain ⟨hc, hbefore⟩ := List.forall_mem_cons.1 h
    rw [List.cons_append, eraseFirst, hc, Option.getD_none, ih hbefore, List.cons_append]

end Text

namespace Formals

/-- All characters, letters, digits, dots and underscores among them, but blanks and the marks that
a parameter list is read by. -/
def isNameChar (c : Char) : Bool := !isBlank c && c ∉ ",\x7b@".toList

structure Parameter where
  name : Text
  chars : ∀ c ∈ name, isNameChar c = true
  ne_value : name ≠ "value".toList

def following (others : List (Gap × Text)) : Text := others.flatMap fun p => ',' :: (p.1 ++ p.2)

def listText (first : Text) (others : List (Gap × Text)) : Text :=
  '(' :: (first ++ following others) ++ [')']

theorem following_append (others more : List (Gap × Text)) :
    following (others ++ more) = following others ++ following more := List.flatMap_append

theorem following_cons (p : Gap × Text) (others : List (Gap × Text)) :
    following (p :: others) = ',' :: (p.1 ++ p.2 ++ following others) := by
  simp [following]

theorem isBlank_of_isNameChar {c : Char} (h : isNameChar c = true) : isBlank c = false := by
  simp only [isNameChar, Bool.and_eq_true, Bool.not_eq_true'] at h
  exact h.1

theorem ne_of_isNameChar {c d : Char} (h : isNameChar c = true) (hd : isNameChar d = false) :
    c ≠ d := by
  rintro rfl
  rw [h] at hd
  cases hd

theorem not_mem_name {c : Char} {name : Text} (hname : ∀ d ∈ name, isNameChar d = true)
    (hc : isNameChar c = false) : c ∉ name := fun hmem =>
  ne_of_isNameChar (hname c hmem) hc rfl

theorem not_mem_listText {c : Char} {first : Text} {others : List (Gap × Text)}
    (hfirst : ∀ d ∈ first, isNameChar d = true)
    (hothers : ∀ p ∈ others, ∀ d ∈ p.2, isNameChar d = true)
    (hname : isNameChar c = false) (hblank : isBlank c = false) (hmark : c ∉ "(,)".toList) :
    c ∉ listText first others := by
  have hfollowing : c ∉ following others := by
    intro hmem
    obtain ⟨p, hp, hc⟩ := List.mem_flatMap.1 hmem
    rw [List.mem_cons, List.mem_append] at hc
    rcases hc with rfl | hgap | hother
    · exact hmark (by decide)
    · exact not_mem_gap hblank p.1 hgap
    · exact not_mem_name (hothers p hp) hname hother
  intro hmem
  simp only [listText, List.mem_append, List.mem_cons, List.not_mem_nil, or_false] at hmem
  rcases hmem with (rfl | hin | hin) | rfl
  · exact hmark (by decide)
  · exact not_mem_name hfirst hname hin
  · exact hfollowing hin
  · exact hmark (by decide)

theorem mem_of_startsSlotAccess {s : Text} (h : startsSlotAccess s = true) : '@' ∈ s := by
  simp only [startsSlotAccess, Bool.and_eq_true, decide_eq_true_eq] at h
  have hmem := List.mem_of_mem_head? h.2
  exact List.dropWhile_subset _ (List.dropWhile_subset _ hmem)

theorem cutAt_of_not_mem {s : Text} (h : '@' ∉ s) : cutAt startsSlotAccess s = s := by
  induction s with
  | nil => rfl
  | cons c s ih =>
    rw [cutAt, if_neg fun hslot => h (mem_of_startsSlotAccess hslot),
      ih fun hmem => h (List.mem_cons_of_mem c hmem)]

theorem clean_eq_self {s : Text} {c : Char} (hbrace : '\x7b' ∉ s ++ [c]) (hat : '@' ∉ s ++ [c])
    (hc : isBlank c = false) : clean (s ++ [c]) = s ++ [c] := by
  have hnone : ∀ d ∈ s ++ [c], ∀ t, afterBodyBrace? (d :: t) = none := fun d hd =>
    afterBodyBrace?_of_ne fun heq => hbrace (heq ▸ hd)
  have herase := eraseFirst_append_of_forall hnone []
  rw [List.append_nil, eraseFirst, List.append_nil] at herase
  rw [clean, herase, cutAt_of_not_mem hat, trimEnd_append_singleton hc]

theorem afterValue?_of_ne {c : Char} (h : c ≠ ',') (s : Text) : afterValue? (c :: s) = none := by
  unfold afterValue?
  split
  · next heq => exact absurd (List.cons.inj heq).1 h
  · rfl

theorem eraseFirst_afterValue?_append {before : Text} (h : ',' ∉ before) (s : Text) :
    eraseFirst afterValue? (before ++ s) = before ++ eraseFirst afterValue? s :=
  eraseFirst_append_of_forall (fun _ hc => afterValue?_of_ne fun heq => h (heq ▸ hc)) s

def Ends (s : Text) : Prop := s.head? = some ',' ∨ s.head? = some ')'

theorem ends_following {s : Text} (h : Ends s) (others : List (Gap × Text)) :
    Ends (following others ++ s) := by
  cases others with
  | nil => exact h
  | cons p others =>
    rw [following_cons]
    exact .inl rfl

theorem dropBlank_gap_name {name s : Text} (g : Gap) (hname : ∀ c ∈ name, isNameChar c = true)
    (hs : Ends s) : dropBlank (g ++ (name ++ s)) = name ++ s := by
  rw [dropBlank_gap_append]
  cases name with
  | nil =>
    obtain ⟨c, rest, rfl, hc⟩ : ∃ c rest, s = c :: rest ∧ isBlank c = false := by
      rcases hs with hs | hs
      · exact ⟨',', s.tail, List.eq_cons_of_mem_head? hs, by decide⟩
      · exact ⟨')', s.tail, List.eq_cons_of_mem_head? hs, by decide⟩
    exact dropBlank_cons hc rest
  | cons c name => exact dropBlank_cons (isBlank_of_isNameChar (hname c List.mem_cons_self)) _

theorem afterValue?_value (g : Gap) {tail s : Text}
    (htail : ∀ c ∈ "value".toList ++ tail, isNameChar c = true) (hs : Ends s) :
    afterValue? (',' :: (g ++ ("value".toList ++ tail ++ s))) = some (tail ++ s) := by
  rw [afterValue?, dropBlank_gap_name g htail hs, List.isPrefixOf?_eq_some_iff_append_eq,
    List.append_assoc]

theorem afterValue?_other (g : Gap) {name s : Text} (hname : ∀ c ∈ name, isNameChar c = true)
    (hvalue : ¬ "value".toList <+: name) (hs : Ends s) :
    afterValue? (',' :: (g ++ (name ++ s))) = none := by
  rw [afterValue?, dropBlank_gap_name g hname hs, Option.eq_none_iff_forall_ne_some]
  intro t ht
  rw [List.isPrefixOf?_eq_some_iff_append_eq] at ht
  rcases List.append_eq_append_iff.1 ht with ⟨middle, hname, -⟩ | ⟨middle, hword, hrest⟩
  · exact hvalue ⟨middle, hname.symm⟩
  · cases middle with
    | nil => exact hvalue ⟨[], by rw [List.append_nil, hword, List.append_nil]⟩
    | cons c middle =>
      -- the word would have to reach into what ends the name
      have hmem : c ∈ "value".toList := hword ▸ List.mem_append_right name List.mem_cons_self
      rw [hrest] at hs
      rcases hs with hs | hs
      · rw [Option.some.inj hs] at hmem
        exact absurd hmem (by decide)
      · rw [Option.some.inj hs] at hmem
        exact absurd hmem (by decide)

theorem eraseFirst_following {others : List (Gap × Text)} {s : Text}
    (hchars : ∀ p ∈ others, ∀ c ∈ p.2, isNameChar c = true)
    (hvalue : ∀ p ∈ others, ¬ "value".toList <+: p.2) (hs : Ends s) :
    eraseFirst afterValue? (following others ++ s) =
      following others ++ eraseFirst afterValue? s := by
  induction others with
  | nil => rfl
  | cons p others ih =>
    obtain ⟨hp, hothers⟩ := List.forall_mem_cons.1 hchars
    obtain ⟨hnot, hvalue⟩ := List.forall_mem_cons.1 hvalue
    have hcomma : ',' ∉ p.1.1 ++ p.2 := by
      rw [List.mem_append, not_or]
      exact ⟨not_mem_gap (by decide) p.1, not_mem_name hp (by decide)⟩
    have hnone := afterValue?_other p.1 hp hnot (ends_following hs others)
    rw [← List.append_assoc] at hnone
    rw [following_cons, List.cons_append, List.append_assoc, eraseFirst, hnone, Option.getD_none,
      eraseFirst_afterValue?_append hcomma, ih hothers hvalue]
    simp only [List.cons_append, List.append_assoc]

/-- The comma, the gap and the word go from in front of the first parameter that begins with the
word; the rest of its name stays where it is. -/
theorem dropValue_listText {first tail : Text} {before : List (Gap × Text)}
    (hfirst : ∀ c ∈ first, isNameChar c = true)
    (hbefore : ∀ p ∈ before, ∀ c ∈ p.2, isNameChar c = true)
    (hvalue : ∀ p ∈ before, ¬ "value".toList <+: p.2)
    (htail : ∀ c ∈ "value".toList ++ tail, isNameChar c = true) (g : Gap)
    (after : List (Gap × Text)) :
    dropValue (listText first (before ++ (g, "value".toList ++ tail) :: after)) =
      '(' :: (first ++ following before ++ tail ++ following after) ++ [')'] := by
  have hends : Ends (following after ++ [')']) := ends_following (.inr rfl) after
  have hopen : ',' ∉ '(' :: first := by
    rw [List.mem_cons, not_or]
    exact ⟨by decide, not_mem_name hfirst (by decide)⟩
  have hvalueText := afterValue?_value g htail hends
  have hlist : listText first (before ++ (g, "value".toList ++ tail) :: after) =
      ('(' :: first) ++ (following before ++
        ',' :: (g ++ ("value".toList ++ tail ++ (following after ++ [')'])))) := by
    simp only [listText, following_append, following_cons, List.cons_append, List.append_assoc]
  have herase : eraseFirst afterValue?
      (listText first (before ++ (g, "value".toList ++ tail) :: after)) =
        '(' :: (first ++ following before ++ tail ++ following after) ++ [')'] := by
    rw [hlist, eraseFirst_afterValue?_append hopen,
      eraseFirst_following hbefore hvalue (.inl rfl), eraseFirst, hvalueText, Option.getD_some]
    simp only [List.cons_append, List.append_assoc]
  rw [dropValue, herase, trimEnd_append_singleton (by decide)]

def texts (others : List (Gap × Parameter)) : List (Gap × Text) :=
  others.map fun p => (p.1, p.2.name)

theorem chars_of_mem_texts {others : List (Gap × Parameter)} :
    ∀ p ∈ texts others, ∀ c ∈ p.2, isNameChar c = true :=
  List.forall_mem_map.2 fun p _ => p.2.chars

theorem isNameChar_of_mem_value : ∀ c ∈ "value".toList, isNameChar c = true :=
  List.all_eq_true.1 (by decide)

theorem clean_listText {first : Text} {others : List (Gap × Text)}
    (hfirst : ∀ c ∈ first, isNameChar c = true)
    (hothers : ∀ p ∈ others, ∀ c ∈ p.2, isNameChar c = true) :
    clean (listText first others) = listText first others :=
  clean_eq_self
    (not_mem_listText hfirst hothers (by decide) (by decide) (by decide))
    (not_mem_listText hfirst hothers (by decide) (by decide) (by decide)) (by decide)

theorem dropValue_eq_iff (first : Parameter) (others : List (Gap × Parameter)) (g : Gap) :
    dropValue (listText first.name (texts others ++ [(g, "value".toList)])) =
        listText first.name (texts others) ↔
      ∀ p ∈ others, ¬ "value".toList <+: p.2.name := by
  constructor
  · intro heq p hp hvalue
    have hsome : (others.find? fun p => "value".toList <+: p.2.name).isSome :=
      List.find?_isSome.2 ⟨p, hp, decide_eq_true hvalue⟩
    obtain ⟨q, hq⟩ := Option.isSome_iff_exists.1 hsome
    obtain ⟨hfound, before, after, rfl, hbefore⟩ := List.find?_eq_some_iff_append.1 hq
    obtain ⟨tail, htail⟩ := of_decide_eq_true hfound
    have hnot : ∀ p ∈ texts before, ¬ "value".toList <+: p.2 :=
      List.forall_mem_map.2 fun p hp => by simpa using hbefore p hp
    have hdrop := dropValue_listText first.chars chars_of_mem_texts hnot
      (htail ▸ q.2.chars : ∀ c ∈ "value".toList ++ tail, isNameChar c = true) q.1
      (texts after ++ [(g, "value".toList)])
    have htexts : texts (before ++ q :: after) =
        texts before ++ (q.1, "value".toList ++ tail) :: texts after := by
      rw [texts, List.map_append, List.map_cons, htail]
      rfl
    rw [htexts, List.append_assoc, List.cons_append, hdrop, listText, following_append] at heq
    have hrest := (List.cons.inj (List.append_cancel_right heq)).2
    simp only [following_append, List.append_assoc] at hrest
    have hcomma := List.append_cancel_left (List.append_cancel_left hrest)
    rw [following_cons] at hcomma
    cases tail with
    | nil => exact q.2.ne_value (by rw [← htail, List.append_nil])
    | cons c tail =>
      have hc : isNameChar c = true := q.2.chars c (htail ▸ by simp)
      exact ne_of_isNameChar hc (by decide) (List.cons.inj hcomma).1
  · intro hvalue
    have hnot : ∀ p ∈ texts others, ¬ "value".toList <+: p.2 := List.forall_mem_map.2 hvalue
    have hword : ∀ c ∈ "value".toList ++ [], isNameChar c = true := isNameChar_of_mem_value
    have hdrop := dropValue_listText first.chars chars_of_mem_texts hnot hword g []
    rw [List.append_nil] at hdrop
    rw [hdrop, listText]
    simp [following]

end Formals

namespace Method

open Formals

/-- The arrow at the end of the name keeps it from being reserved and from being in backticks. -/
theorem ofParts_replacement (base classExpr : Text) (source : Path) (formals : Text) :
    ofParts (base ++ "<-".toList) classExpr formals source =
      .ok { name := base ++ "<-".toList
            signature := Signature.ofExpr classExpr
            formals := Formals.clean formals
            source } := by
  have hlast : (base ++ "<-".toList).getLast? = some '-' := by simp
  have hreserved : base ++ "<-".toList ≠ placeholderWord := by
    intro heq
    rw [heq] at hlast
    exact absurd hlast (by decide)
  have hname : unwrap '\x60' (base ++ "<-".toList) = base ++ "<-".toList := by
    rcases unwrap_cases '\x60' (base ++ "<-".toList) with ⟨hsame, -⟩ | ⟨hmarked, -⟩
    · exact hsame
    · rw [hmarked, getLast?_marked] at hlast
      exact absurd hlast (by decide)
  rw [ofParts, if_neg hreserved, hname]

theorem usageLine_of_replacement {m : Method} {base : Text} (h : m.name = base ++ "<-".toList) :
    m.usageLine = braced "  \\S4method" base ++ braced "" m.signature
      ++ Formals.dropValue m.formals ++ " <- value".toList := by
  rw [usageLine, PageName.replaced?_eq_some_iff.2 h]

/-- A replacement method is shown with all of its parameters but `value` exactly if no name behind
the first begins with that word. -/
theorem usageLine_drops_only_value_iff (base classExpr : Text) (source : Path) (first : Parameter)
    (others : List (Gap × Parameter)) (g : Gap) :
    let formals := listText first.name (texts others ++ [(g, "value".toList)])
    ∃ m, ofParts (base ++ "<-".toList) classExpr formals source = .ok m ∧ m.formals = formals ∧
      (m.usageLine = braced "  \\S4method" base ++ braced "" (Signature.ofExpr classExpr)
          ++ listText first.name (texts others) ++ " <- value".toList ↔
        ∀ p ∈ others, ¬ "value".toList <+: p.2.name) := by
  intro formals
  have hformals : Formals.clean formals = formals :=
    clean_listText first.chars (List.forall_mem_append.2
      ⟨chars_of_mem_texts, List.forall_mem_singleton.2 isNameChar_of_mem_value⟩)
  refine ⟨_, ofParts_replacement base classExpr source formals, hformals, ?_⟩
  rw [usageLine_of_replacement rfl, List.append_cancel_right_eq, List.append_cancel_left_eq,
    hformals]
  exact dropValue_eq_iff first others g

/-- The second parameter loses the beginning of its name, and `value` stays. -/
theorem value_taken_from_longer_name :
    ∃ m, ofParts "names<-".toList "\"Foo\"".toList "(x, value2, value)".toList
        ⟨"pkg/R/x.R".toList⟩ = .ok m ∧
      m.usageLine = "  \\S4method\x7bnames\x7d\x7bFoo\x7d(x2, value) <- value".toList :=
  ⟨_, ofParts_replacement "names".toList _ _ _, by decide⟩

end Method

end RdStubs
