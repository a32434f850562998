import Mathlib.Data.List.Induction
import RdStubs.Stub

/-!
# Sorting methods into stubs

Collecting looks for the page of every method and then sorts the methods by page. Stubs have
different pages and stand in the order in which the pages came up, a stub holds the methods of its
page in the order in which they came, and taken together the stubs hold every method once.
-/

namespace RdStubs

/-- Whether the page that was found for a method is this one, in whatever spelling. -/
def Method.hasPage (page : Path) (m : Method) : Bool := m.page?.any fun found => page.SameAs found

theorem Method.hasPage_of_page? {m : Method} {page found : Path} (h : m.page? = some found) :
    m.hasPage page = decide (page.SameAs found) := by
  simp [Method.hasPage, h]

namespace Method

variable {tree : FileTree} {redirects : Redirects} {m : Method}

@[simp] theorem lookUp_name : (m.lookUp tree redirects).name = m.name := by
  unfold lookUp
  cases m.lookup <;> rfl

@[simp] theorem lookUp_candidates (redirects' : Redirects) :
    (m.lookUp tree redirects).candidates redirects' = m.candidates redirects' := by
  unfold lookUp
  cases m.lookup <;> rfl

/-- A page that is found now is there. -/
theorem exists?_of_lookUp {page : Path} (h : m.lookup = .pending)
    (hpage : (m.lookUp tree redirects).page? = some page) : tree.exists? page = true := by
  unfold lookUp page? at hpage
  rw [h] at hpage
  exact List.find?_some hpage

end Method

namespace Stub

theorem getElem?_concat_eq_some_iff {α : Type} {l : List α} {a b : α} {i : Nat} :
    (l ++ [a])[i]? = some b ↔ l[i]? = some b ∨ i = l.length ∧ a = b := by
  rw [List.getElem?_append]
  split
  · have hi : i ≠ l.length := by omega
    simp [hi]
  · have hnone : l[i]? = none := List.getElem?_eq_none (by omega)
    rw [hnone, List.getElem?_singleton]
    by_cases hi : i = l.length
    · simp [hi]
    · have hne : i - l.length ≠ 0 := by omega
      simp [hi, hne]

namespace Collection

/-- The position of a page is that of the stub which has it. -/
def InStep (c : Collection) : Prop :=
  ∀ key i, c.positions.lookup key = some i ↔ (c.stubs.map (·.page.components))[i]? = some key

variable {c : Collection} {page : Path}

theorem inStep_empty : ({} : Collection).InStep := by
  intro key i
  simp

/-- A page without a position has no stub. -/
theorem InStep.not_sameAs (h : c.InStep) (hpage : c.positions.lookup page.components = none) :
    ∀ s ∈ c.stubs, ¬ s.page.SameAs page := by
  intro s hs hsame
  obtain ⟨i, hi⟩ := List.mem_iff_getElem?.1 hs
  have hlookup : c.positions.lookup page.components = some i :=
    (h _ i).2 (by rw [List.getElem?_map, hi, Option.map_some, hsame])
  rw [hpage] at hlookup
  cases hlookup

theorem InStep.add (h : c.InStep) (page : Path) (m : Method) : (c.add page m).InStep := by
  intro key i
  unfold Collection.add
  cases hpage : c.positions.lookup page.components with
  | some j =>
    have hpages : (c.stubs.modify j fun s => { s with methods := s.methods ++ [m] }).map
        (·.page.components) = c.stubs.map (·.page.components) := by
      refine List.ext_getElem? fun k => ?_
      rw [List.getElem?_map, List.getElem?_map, List.getElem?_modify]
      by_cases hk : j = k <;> cases c.stubs[k]? <;> simp [hk]
    rw [hpages]
    exact h key i
  | none =>
    have hnew : (c.stubs.map (·.page.components))[i]? ≠ some page.components := by
      intro hi
      rw [(h _ i).2 hi] at hpage
      cases hpage
    rw [List.map_append, List.map_singleton, getElem?_concat_eq_some_iff, List.length_map,
      List.lookup_cons]
    by_cases hkey : key = page.components
    · subst hkey
      simp only [beq_self_eq_true, Option.some.injEq, hnew, false_or, and_true]
      exact eq_comm
    · have hbeq : (key == page.components) = false := beq_eq_false_iff_ne.2 hkey
      simp only [hbeq, h key i, Ne.symm hkey, and_false, or_false]

/-- A method joins the stub of its page, or starts a stub behind all others. -/
theorem InStep.add_cases (h : c.InStep) (page : Path) (m : Method) :
    ((∀ s ∈ c.stubs, ¬ s.page.SameAs page) ∧ (c.add page m).stubs = c.stubs ++ [⟨page, [m]⟩]) ∨
    ∃ before s after, c.stubs = before ++ s :: after ∧ s.page.SameAs page ∧
      (c.add page m).stubs = before ++ { s with methods := s.methods ++ [m] } :: after := by
  cases hpage : c.positions.lookup page.components with
  | none => exact .inl ⟨h.not_sameAs hpage, by simp only [Collection.add, hpage]⟩
  | some i =>
    have hi := (h _ i).1 hpage
    rw [List.getElem?_map, Option.map_eq_some_iff] at hi
    obtain ⟨s, hs, hsame⟩ := hi
    obtain ⟨hlt, rfl⟩ := List.getElem?_eq_some_iff.1 hs
    obtain ⟨before, s, after, hstubs, rfl, hmodify⟩ :=
      List.exists_of_modify (fun s : Stub => { s with methods := s.methods ++ [m] }) hlt
    refine .inr ⟨before, s, after, hstubs, ?_, by simp only [Collection.add, hpage, hmodify]⟩
    simpa [hstubs, Path.SameAs] using hsame

end Collection

def Collection.addFound (c : Collection) (m : Method) : Collection :=
  match m.page? with
  | some page => c.add page m
  | none => c

def gather (found : List Method) : Collection := found.foldl Collection.addFound {}

section

variable {tree : FileTree} {redirects : Redirects} {methods before after : List Method} {m : Method}
  {stubs : List Stub} {e : Error}

theorem collectInto_of_found (h : ∀ m ∈ methods, ((m.lookUp tree redirects).page?).isSome)
    (c : Collection) :
    collectInto tree redirects methods c =
      .ok ((methods.map (·.lookUp tree redirects)).foldl Collection.addFound c) := by
  induction methods generalizing c with
  | nil => rfl
  | cons m methods ih =>
    obtain ⟨hsome, hmethods⟩ := List.forall_mem_cons.1 h
    obtain ⟨page, hpage⟩ := Option.isSome_iff_exists.1 hsome
    have hrest := ih hmethods (c.add page (m.lookUp tree redirects))
    unfold collectInto at hrest ⊢
    rw [List.foldlM_cons]
    simpa [hpage, bind, Except.bind, Collection.addFound] using hrest

theorem collectInto_of_unfound (h : ∀ m' ∈ before, ((m'.lookUp tree redirects).page?).isSome)
    (hnone : (m.lookUp tree redirects).page? = none) (c : Collection) :
    collectInto tree redirects (before ++ m :: after) c =
      .error (.noPage m.name (m.candidates redirects)) := by
  have hbefore := collectInto_of_found h c
  unfold collectInto at hbefore ⊢
  rw [List.foldlM_append, hbefore]
  simp [hnone, bind, Except.bind]

theorem collect_of_found (h : ∀ m ∈ methods, ((m.lookUp tree redirects).page?).isSome) :
    collect tree redirects methods =
      .ok (gather (methods.map (·.lookUp tree redirects))).stubs := by
  rw [collect, collectInto_of_found h, Except.map, gather]

theorem collect_of_unfound (h : ∀ m' ∈ before, ((m'.lookUp tree redirects).page?).isSome)
    (hnone : (m.lookUp tree redirects).page? = none) :
    collect tree redirects (before ++ m :: after) =
      .error (.noPage m.name (m.candidates redirects)) := by
  rw [collect, collectInto_of_unfound h hnone, Except.map]

theorem found_or_first_unfound (tree : FileTree) (redirects : Redirects) (methods : List Method) :
    (∀ m ∈ methods, ((m.lookUp tree redirects).page?).isSome) ∨
      ∃ before m after, methods = before ++ m :: after ∧
        (∀ m' ∈ before, ((m'.lookUp tree redirects).page?).isSome) ∧
        (m.lookUp tree redirects).page? = none := by
  cases hfirst : methods.find? fun m => ((m.lookUp tree redirects).page?).isNone with
  | none =>
    have hall := List.find?_eq_none.1 hfirst
    exact .inl fun m hm => by simpa [Option.isSome_iff_ne_none] using hall m hm
  | some m =>
    obtain ⟨hnone, before, after, rfl, hbefore⟩ := List.find?_eq_some_iff_append.1 hfirst
    exact .inr ⟨before, m, after, rfl, fun m' hm' => by simpa using hbefore m' hm',
      Option.isNone_iff_eq_none.1 hnone⟩

theorem collect_ok (h : collect tree redirects methods = .ok stubs) :
    (∀ m ∈ methods, ((m.lookUp tree redirects).page?).isSome) ∧
      stubs = (gather (methods.map (·.lookUp tree redirects))).stubs := by
  rcases found_or_first_unfound tree redirects methods with
    hall | ⟨before, m, after, rfl, hbefore, hnone⟩
  · exact ⟨hall, Except.ok.inj (h.symm.trans (collect_of_found hall))⟩
  · rw [collect_of_unfound hbefore hnone] at h
    cases h

theorem exists_collect_eq_ok_iff :
    (∃ stubs, collect tree redirects methods = .ok stubs) ↔
      ∀ m ∈ methods, ((m.lookUp tree redirects).page?).isSome := by
  constructor
  · rintro ⟨stubs, hcollect⟩
    exact (collect_ok hcollect).1
  · exact fun h => ⟨_, collect_of_found h⟩

/-- Collecting fails at the first method without a page. -/
theorem collect_eq_error_iff :
    collect tree redirects methods = .error e ↔
      ∃ before m after, methods = before ++ m :: after ∧
        (∀ m' ∈ before, ((m'.lookUp tree redirects).page?).isSome) ∧
        (m.lookUp tree redirects).page? = none ∧ e = .noPage m.name (m.candidates redirects) := by
  constructor
  · intro h
    rcases found_or_first_unfound tree redirects methods with
      hall | ⟨before, m, after, rfl, hbefore, hnone⟩
    · rw [collect_of_found hall] at h
      cases h
    · rw [collect_of_unfound hbefore hnone] at h
      exact ⟨before, m, after, rfl, hbefore, hnone, (Except.error.inj h).symm⟩
  · rintro ⟨before, m, after, rfl, hbefore, hnone, rfl⟩
    exact collect_of_unfound hbefore hnone

theorem collect_error (h : collect tree redirects methods = .error e) :
    ∃ m ∈ methods, (m.lookUp tree redirects).page? = none ∧
      e = .noPage m.name (m.candidates redirects) := by
  obtain ⟨before, m, after, rfl, -, hnone, he⟩ := collect_eq_error_iff.1 h
  exact ⟨m, List.mem_append_right before List.mem_cons_self, hnone, he⟩

end

/-- The stubs are the methods sorted by page, in the order of their first methods. -/
structure Sorts (found : List Method) (stubs : List Stub) : Prop where
  distinct : stubs.Pairwise fun s s' => ¬ s.page.SameAs s'.page
  methods : ∀ s ∈ stubs, s.methods = found.filter (·.hasPage s.page)
  first : ∀ s ∈ stubs, ∃ m, s.methods.head? = some m ∧ m.page? = some s.page
  order : stubs.Pairwise fun s s' =>
    found.findIdx (·.hasPage s.page) < found.findIdx (·.hasPage s'.page)
  perm : (stubs.flatMap Stub.methods).Perm found

namespace Sorts

variable {found : List Method} {stubs : List Stub} {s : Stub} {m : Method} {page : Path}

/-- A stub is not empty, so its first method has a place among all methods. -/
theorem findIdx_lt (h : Sorts found stubs) (hs : s ∈ stubs) :
    found.findIdx (·.hasPage s.page) < found.length := by
  obtain ⟨m, hm, -⟩ := h.first s hs
  have hmem : m ∈ found.filter (·.hasPage s.page) := h.methods s hs ▸ List.mem_of_mem_head? hm
  obtain ⟨hfound, hpage⟩ := List.mem_filter.1 hmem
  exact List.findIdx_lt_length_of_exists ⟨m, hfound, hpage⟩

theorem sameAs_of_mem (h : Sorts found stubs) (hs : s ∈ stubs) (hms : m ∈ s.methods)
    (hm : m.page? = some page) : s.page.SameAs page := by
  rw [h.methods s hs, List.mem_filter, Method.hasPage_of_page? hm] at hms
  exact of_decide_eq_true hms.2

/-- A page without a stub is no method's page. -/
theorem filter_eq_nil (h : Sorts found stubs) (hnew : ∀ s ∈ stubs, ¬ s.page.SameAs page) :
    found.filter (·.hasPage page) = [] := by
  rw [List.filter_eq_nil_iff]
  intro m hm hpage
  obtain ⟨s, hs, hms⟩ := List.mem_flatMap.1 (h.perm.mem_iff.2 hm)
  cases hfound : m.page? with
  | none => simp [Method.hasPage, hfound] at hpage
  | some q =>
    rw [Method.hasPage_of_page? hfound] at hpage
    exact hnew s hs ((h.sameAs_of_mem hs hms hfound).trans (of_decide_eq_true hpage).symm)

/-- One more method leaves the order of the stubs as it is. -/
theorem order_append (h : Sorts found stubs) (m : Method) :
    stubs.Pairwise fun s s' =>
      (found ++ [m]).findIdx (·.hasPage s.page) < (found ++ [m]).findIdx (·.hasPage s'.page) := by
  refine h.order.imp_of_mem fun {s s'} hs hs' hlt => ?_
  rwa [List.findIdx_append, if_pos (h.findIdx_lt hs), List.findIdx_append,
    if_pos (h.findIdx_lt hs')]

theorem start (h : Sorts found stubs) (hm : m.page? = some page)
    (hnew : ∀ s ∈ stubs, ¬ s.page.SameAs page) :
    Sorts (found ++ [m]) (stubs ++ [⟨page, [m]⟩]) where
  distinct := by
    rw [List.pairwise_append]
    exact ⟨h.distinct, List.pairwise_singleton _ _, by simpa using hnew⟩
  methods := by
    intro s hs
    rw [List.filter_append]
    rcases List.mem_append.1 hs with hs | hs
    · have hother : [m].filter (·.hasPage s.page) = [] := by
        simp [Method.hasPage_of_page? hm, hnew s hs]
      rw [hother, List.append_nil, h.methods s hs]
    · obtain rfl := List.mem_singleton.1 hs
      have hown : [m].filter (·.hasPage page) = [m] := by
        simp [Method.hasPage_of_page? hm, Path.SameAs]
      rw [h.filter_eq_nil hnew, hown, List.nil_append]
  first := by
    intro s hs
    rcases List.mem_append.1 hs with hs | hs
    · exact h.first s hs
    · obtain rfl := List.mem_singleton.1 hs
      exact ⟨m, rfl, hm⟩
  order := by
    have hlast : found.length ≤ (found ++ [m]).findIdx (·.hasPage page) := by
      have hnone := List.filter_eq_nil_iff.1 (h.filter_eq_nil hnew)
      rw [List.findIdx_append, List.findIdx_eq_length.2 (by simpa using hnone),
        if_neg (Nat.lt_irrefl _)]
      exact Nat.le_add_left _ _
    rw [List.pairwise_append]
    refine ⟨h.order_append m, List.pairwise_singleton _ _, fun s hs s' hs' => ?_⟩
    obtain rfl := List.mem_singleton.1 hs'
    rw [List.findIdx_append, if_pos (h.findIdx_lt hs)]
    exact Nat.lt_of_lt_of_le (h.findIdx_lt hs) hlast
  perm := by
    rw [List.flatMap_append]
    simpa using h.perm.append_right [m]

theorem not_sameAs_of_other {before after : List Stub} {s : Stub}
    (h : Sorts found (before ++ s :: after)) :
    ∀ other ∈ before ++ after, ¬ other.page.SameAs s.page := by
  obtain ⟨-, hafter, hbefore⟩ := List.pairwise_append.1 h.distinct
  intro other hother hsame
  rcases List.mem_append.1 hother with hother | hother
  · exact hbefore other hother s List.mem_cons_self hsame
  · exact (List.pairwise_cons.1 hafter).1 other hother hsame.symm

theorem join {before after : List Stub} {s : Stub} (h : Sorts found (before ++ s :: after))
    (hm : m.page? = some page) (hsame : s.page.SameAs page) :
    Sorts (found ++ [m]) (before ++ { s with methods := s.methods ++ [m] } :: after) where
  distinct := by
    have hdistinct := h.distinct
    rw [List.pairwise_append, List.pairwise_cons] at hdistinct ⊢
    simpa using hdistinct
  methods := by
    intro s' hs'
    rw [List.filter_append]
    rcases List.mem_cons.1 (List.perm_middle.mem_iff.1 hs') with rfl | hs'
    · have hown : [m].filter (·.hasPage s.page) = [m] := by
        simp [Method.hasPage_of_page? hm, hsame]
      rw [hown, ← h.methods s (by simp)]
    · have hother : [m].filter (·.hasPage s'.page) = [] := by
        have hne := h.not_sameAs_of_other s' hs'
        simpa [Method.hasPage_of_page? hm] using fun he => hne (he.trans hsame.symm)
      rw [hother, List.append_nil]
      exact h.methods s' (List.perm_middle.mem_iff.2 (List.mem_cons_of_mem s hs'))
  first := by
    intro s' hs'
    rcases List.mem_cons.1 (List.perm_middle.mem_iff.1 hs') with rfl | hs'
    · obtain ⟨first, hfirst, hpage⟩ := h.first s (by simp)
      exact ⟨first, by rw [List.head?_append, hfirst, Option.some_or], hpage⟩
    · exact h.first s' (List.perm_middle.mem_iff.2 (List.mem_cons_of_mem s hs'))
  order := by
    have horder := h.order_append m
    rw [List.pairwise_append, List.pairwise_cons] at horder ⊢
    simpa using horder
  perm := by
    refine List.Perm.trans ?_ (h.perm.append_right [m])
    simp only [List.flatMap_append, List.flatMap_cons, List.append_assoc]
    exact (List.perm_append_comm.append_left _).append_left _

theorem add {c : Collection} (h : Sorts found c.stubs) (hstep : c.InStep)
    (hm : m.page? = some page) : Sorts (found ++ [m]) (c.add page m).stubs := by
  rcases hstep.add_cases page m with ⟨hnew, hadd⟩ | ⟨before, s, after, hstubs, hsame, hadd⟩
  · rw [hadd]
    exact h.start hm hnew
  · rw [hadd]
    rw [hstubs] at h
    exact h.join hm hsame

end Sorts

theorem gather_sorts {found : List Method} (h : ∀ m ∈ found, m.page?.isSome) :
    (gather found).InStep ∧ Sorts found (gather found).stubs := by
  induction found using List.reverseRecOn with
  | nil =>
    exact ⟨Collection.inStep_empty, .nil, by simp [gather], by simp [gather], .nil,
      by simp [gather]⟩
  | append_singleton found m ih =>
    obtain ⟨page, hm⟩ := Option.isSome_iff_exists.1 (h m (by simp))
    obtain ⟨hstep, hsorts⟩ := ih fun m' hm' => h m' (List.mem_append_left _ hm')
    have hgather : gather (found ++ [m]) = (gather found).add page m := by
      simp [gather, Collection.addFound, hm]
    rw [hgather]
    exact ⟨hstep.add page m, hsorts.add hstep hm⟩

theorem collect_sorts {tree : FileTree} {redirects : Redirects} {methods : List Method}
    {stubs : List Stub} (h : collect tree redirects methods = .ok stubs) :
    Sorts (methods.map (·.lookUp tree redirects)) stubs := by
  obtain ⟨hpages, rfl⟩ := collect_ok h
  exact (gather_sorts (List.forall_mem_map.2 hpages)).2

/-- A stub has the page of some method. -/
theorem page_of_collect {tree : FileTree} {redirects : Redirects} {methods : List Method}
    {stubs : List Stub} (h : collect tree redirects methods = .ok stubs) {s : Stub}
    (hs : s ∈ stubs) : ∃ m ∈ methods, (m.lookUp tree redirects).page? = some s.page := by
  obtain ⟨found, hfound, hpage⟩ := (collect_sorts h).first s hs
  have hmem := List.mem_of_mem_head? hfound
  rw [(collect_sorts h).methods s hs, List.mem_filter] at hmem
  obtain ⟨m, hm, rfl⟩ := List.mem_map.1 hmem.1
  exact ⟨m, hm, hpage⟩

/-- Nobody has looked for a page before, so the pages of the stubs have just been found. -/
theorem exists?_of_collect {tree : FileTree} {redirects : Redirects} {methods : List Method}
    {stubs : List Stub} (hpending : ∀ m ∈ methods, m.lookup = .pending)
    (h : collect tree redirects methods = .ok stubs) :
    ∀ s ∈ stubs, tree.exists? s.page = true := by
  intro s hs
  obtain ⟨m, hm, hpage⟩ := page_of_collect h hs
  exact Method.exists?_of_lookUp (hpending m hm) hpage

end Stub

end RdStubs
