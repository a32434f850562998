import RdStubs.Proofs.Stub.Collecting
import RdStubs.Session

/-!
# The first look decides

Whatever happens in a session, the page of a method is looked for once. Only requests for the page
itself, and for aliases as the first of a page, look for it; the first of them finds what all later
ones find, whichever files and redirects come or go in between. Stubs hold methods whose pages were
looked for, so rendering them looks for nothing.
-/

namespace RdStubs

namespace Method

variable {tree tree' : FileTree} {redirects redirects' : Redirects} {m : Method}

def settle (m : Method) (found : Option Path) : Method := { m with lookup := .done found }

@[simp] theorem page?_settle (m : Method) (found : Option Path) :
    (m.settle found).page? = found := rfl

@[simp] theorem lookUp_settle (m : Method) (found : Option Path) :
    (m.settle found).lookUp tree redirects = m.settle found := rfl

theorem lookUp_eq_settle (tree : FileTree) (redirects : Redirects) (m : Method) :
    m.lookUp tree redirects = m.settle (m.lookUp tree redirects).page? := by
  obtain ⟨name, signature, formals, source, lookup⟩ := m
  cases lookup <;> rfl

theorem exists_lookUp_eq_settle (tree : FileTree) (redirects : Redirects) (m : Method) :
    ∃ found, m.lookUp tree redirects = m.settle found := ⟨_, m.lookUp_eq_settle tree redirects⟩

end Method

namespace Stub

def Settled (s : Stub) : Prop := ∀ m ∈ s.methods, ∃ m' found, m = Method.settle m' found

theorem settled_of_collect {tree : FileTree} {redirects : Redirects} {methods : List Method}
    {stubs : List Stub} (h : collect tree redirects methods = .ok stubs) :
    ∀ s ∈ stubs, s.Settled := by
  intro s hs m hm
  rw [(collect_sorts h).methods s hs, List.mem_filter] at hm
  obtain ⟨m', -, rfl⟩ := List.mem_map.1 hm.1
  exact ⟨m', m'.exists_lookUp_eq_settle tree redirects⟩

theorem Settled.render {s : Stub} (h : s.Settled) (tree : FileTree) (redirects : Redirects) :
    s.render tree redirects = (s.text redirects, s) := by
  obtain ⟨page, methods⟩ := s
  cases methods with
  | nil => rfl
  | cons first others =>
    obtain ⟨m', found, rfl⟩ := h first List.mem_cons_self
    rfl

end Stub

namespace Session

def answer (s : Session) (r : Request) : Answer := (s.step r).1

def after (s : Session) (r : Request) : Session := (s.step r).2

def finish (s : Session) (requests : List Request) : Session := requests.foldl after s

@[simp] theorem finish_nil (s : Session) : s.finish [] = s := rfl

@[simp] theorem finish_cons (s : Session) (r : Request) (requests : List Request) :
    s.finish (r :: requests) = (s.after r).finish requests := rfl

def Request.looksFor (i : Nat) : Request → Bool
  | .page j => j = i
  | .aliases j first => j = i && first
  | _ => false

variable {s : Session} {i : Nat} {m : Method}

theorem ask_methods (h : s.methods[i]? = some m) (j : Nat) (reply : Method → Answer × Method) :
    (s.ask j reply).2.methods[i]? = some (if j = i then (reply m).2 else m) := by
  unfold ask
  by_cases hj : j = i
  · subst hj
    have hlt : j < s.methods.length := (List.getElem?_eq_some_iff.1 h).1
    simp only [h, List.getElem?_set_self hlt, if_true]
  · rw [if_neg hj]
    cases s.methods[j]? with
    | none => exact h
    | some m' => exact (List.getElem?_set_ne hj).trans h

/-- A method changes only where its page is looked for, and is what looking makes of it then. -/
theorem methods_after (h : s.methods[i]? = some m) (r : Request) :
    (s.after r).methods[i]? =
      some (if r.looksFor i then m.lookUp s.tree s.redirects else m) := by
  unfold after
  cases r with
  | put _ _ | remove _ | redirect _ _ => exact h
  | make _ _ _ _ | copy _ =>
    simp only [step]
    split
    · exact Stub.getElem?_concat_eq_some_iff.2 (.inl h)
    · exact h
  | page j =>
    rw [step, ask_methods h]
    simp [Request.looksFor]
  | aliases j first =>
    rw [step, ask_methods h]
    cases first <;> simp [Request.looksFor, Method.renderAliases]
  | pageName j | candidates j =>
    rw [step, ask_methods h, ite_self]
    rfl
  | collect | render _ | write =>
    simp only [step]
    split <;> exact h

theorem answer_page (h : s.methods[i]? = some m) :
    s.answer (.page i) = .page (m.lookUp s.tree s.redirects).page? := by
  simp only [answer, step, ask, h]

theorem answer_aliases (h : s.methods[i]? = some m) :
    s.answer (.aliases i true) =
      .text ((m.lookUp s.tree s.redirects).aliasLines true s.redirects) := by
  simp only [answer, step, ask, h, Method.renderAliases, if_true]

theorem ask_stubs (s : Session) (i : Nat) (reply : Method → Answer × Method) :
    (s.ask i reply).2.stubs = s.stubs := by
  unfold ask
  split <;> rfl

/-- Nothing but collecting changes the stubs, once the pages of their methods were looked for. -/
theorem stubs_after (h : ∀ stub ∈ s.stubs, stub.Settled) {r : Request} (hr : r ≠ .collect) :
    (s.after r).stubs = s.stubs := by
  unfold after
  cases r with
  | put _ _ | remove _ | redirect _ _ => rfl
  | make _ _ _ _ | copy _ | write =>
    simp only [step]
    split <;> rfl
  | page _ | aliases _ _ | pageName _ | candidates _ =>
    rw [step]
    exact ask_stubs s _ _
  | collect => exact absurd rfl hr
  | render j =>
    simp only [step]
    split
    · next stub hstub =>
      obtain ⟨hlt, hget⟩ := List.getElem?_eq_some_iff.1 hstub
      rw [(h stub (List.mem_of_getElem? hstub)).render, ← hget]
      exact List.set_getElem_self hlt
    · rfl

theorem answer_render (h : ∀ stub ∈ s.stubs, stub.Settled) {j : Nat} {stub : Stub}
    (hstub : s.stubs[j]? = some stub) : s.answer (.render j) = .text (stub.text s.redirects) := by
  simp only [answer, step, hstub, (h stub (List.mem_of_getElem? hstub)).render]

theorem methods_finish_of_unasked (h : s.methods[i]? = some m) {requests : List Request}
    (hrequests : ∀ r ∈ requests, r.looksFor i = false) :
    (s.finish requests).methods[i]? = some m := by
  induction requests generalizing s with
  | nil => exact h
  | cons r requests ih =>
    obtain ⟨hr, hrequests⟩ := List.forall_mem_cons.1 hrequests
    have hafter := methods_after h r
    rw [hr, if_neg Bool.false_ne_true] at hafter
    exact ih hafter hrequests

theorem methods_finish_of_settled {found : Option Path}
    (h : s.methods[i]? = some (m.settle found)) (requests : List Request) :
    (s.finish requests).methods[i]? = some (m.settle found) := by
  induction requests generalizing s with
  | nil => exact h
  | cons r requests ih =>
    have hafter := methods_after h r
    rw [Method.lookUp_settle, ite_self] at hafter
    exact ih hafter

/-- In a run of requests the page of the method at `i` is looked for once: what the first request
that looks for it finds is the answer to all requests for the page, is what aliases are made with,
and is part of the method from then on. -/
structure LooksOnce (s : Session) (i : Nat) (m : Method) (requests : List Request)
    (found : Option Path) : Prop where
  first : ∀ past r future, requests = past ++ r :: future → r.looksFor i = true →
    (∀ r' ∈ past, r'.looksFor i = false) →
      found = (m.lookUp (s.finish past).tree (s.finish past).redirects).page?
  page : ∀ past future, requests = past ++ .page i :: future →
    (s.finish past).answer (.page i) = .page found
  aliases : ∀ past future, requests = past ++ .aliases i true :: future →
    (s.finish past).answer (.aliases i true) =
      .text ((m.settle found).aliasLines true (s.finish past).redirects)
  kept : ∀ past r future, requests = past ++ r :: future → r.looksFor i = true →
    (s.finish requests).methods[i]? = some (m.settle found)

theorem looksOnce_of_looksFor (h : s.methods[i]? = some m) {r : Request}
    (hr : r.looksFor i = true) (requests : List Request) :
    s.LooksOnce i m (r :: requests) (m.lookUp s.tree s.redirects).page? := by
  have hafter := methods_after h r
  rw [hr, if_pos rfl, Method.lookUp_eq_settle] at hafter
  have hlater := methods_finish_of_settled hafter
  refine ⟨?_, ?_, ?_, fun _ _ _ _ _ => hlater requests⟩
  · intro past r' future hsplit _ hpast
    rcases List.cons_eq_append_iff.1 hsplit with ⟨rfl, -⟩ | ⟨past, rfl, -⟩
    · rfl
    · rw [hpast r List.mem_cons_self] at hr
      cases hr
  · intro past future hsplit
    rcases List.cons_eq_append_iff.1 hsplit with ⟨rfl, -⟩ | ⟨past, rfl, -⟩
    · rw [finish_nil, answer_page h]
    · rw [finish_cons, answer_page (hlater past), Method.lookUp_settle, Method.page?_settle]
  · intro past future hsplit
    rcases List.cons_eq_append_iff.1 hsplit with ⟨rfl, -⟩ | ⟨past, rfl, -⟩
    · rw [finish_nil, answer_aliases h, ← Method.lookUp_eq_settle]
    · rw [finish_cons, answer_aliases (hlater past), Method.lookUp_settle]

theorem LooksOnce.cons {r : Request} {requests : List Request} {found : Option Path}
    (h : (s.after r).LooksOnce i m requests found) (hr : r.looksFor i = false) :
    s.LooksOnce i m (r :: requests) found := by
  have hbehind {past future : List Request} {r' : Request}
      (hsplit : r :: requests = past ++ r' :: future) (hr' : r'.looksFor i = true) :
      ∃ past', past = r :: past' ∧ requests = past' ++ r' :: future := by
    rcases List.cons_eq_append_iff.1 hsplit with ⟨rfl, hfront⟩ | hrest
    · rw [(List.cons.inj hfront).1, hr] at hr'
      cases hr'
    · exact hrest
  constructor
  · intro past r' future hsplit hr' hpast
    obtain ⟨past, rfl, hrest⟩ := hbehind hsplit hr'
    exact h.first past r' future hrest hr' (List.forall_mem_cons.1 hpast).2
  · intro past future hsplit
    obtain ⟨past, rfl, hrest⟩ := hbehind hsplit (by simp [Request.looksFor])
    exact h.page past future hrest
  · intro past future hsplit
    obtain ⟨past, rfl, hrest⟩ := hbehind hsplit (by simp [Request.looksFor])
    exact h.aliases past future hrest
  · intro past r' future hsplit hr'
    obtain ⟨past, rfl, hrest⟩ := hbehind hsplit hr'
    exact h.kept past r' future hrest hr'

theorem exists_looksOnce (h : s.methods[i]? = some m) (requests : List Request) :
    ∃ found, s.LooksOnce i m requests found := by
  induction requests generalizing s with
  | nil => exact ⟨none, by simp, by simp, by simp, by simp⟩
  | cons r requests ih =>
    cases hr : r.looksFor i with
    | true => exact ⟨_, looksOnce_of_looksFor h hr requests⟩
    | false =>
      have hafter := methods_after h r
      rw [hr, if_neg Bool.false_ne_true] at hafter
      obtain ⟨found, hfound⟩ := ih hafter
      exact ⟨found, hfound.cons hr⟩

theorem stubs_finish (h : ∀ stub ∈ s.stubs, stub.Settled) {requests : List Request}
    (hrequests : .collect ∉ requests) : (s.finish requests).stubs = s.stubs := by
  induction requests generalizing s with
  | nil => rfl
  | cons r requests ih =>
    obtain ⟨hr, hrest⟩ := not_or.1 (mt List.mem_cons.2 hrequests)
    have hafter := stubs_after h (Ne.symm hr)
    rw [finish_cons, ih (hafter.symm ▸ h) hrest, hafter]

theorem collect_of_answer {stubs : List Stub} (h : s.answer .collect = .stubs stubs) :
    Stub.collect s.tree s.redirects s.methods = .ok stubs ∧
      s.after .collect = { s with stubs } := by
  unfold answer at h
  unfold after
  simp only [step] at h ⊢
  cases hcollect : Stub.collect s.tree s.redirects s.methods with
  | error e => simp [hcollect] at h
  | ok collected =>
    rw [hcollect] at h
    cases h
    exact ⟨rfl, rfl⟩

/-- However requests take turns, the page of a method is looked for once, by a request for the page
or for aliases as the first of a page, and what is found then stays. A copy starts with what its
original had found. Collecting leaves the methods alone, and the stubs that it yields are rendered
without a look at the files: their texts depend on the redirects only. -/
theorem first_look_decides (s : Session) :
    (∀ i m, s.methods[i]? = some m → ∀ requests,
      (∃ found, s.LooksOnce i m requests found) ∧
        ((∀ r ∈ requests, r.looksFor i = false) → (s.finish requests).methods[i]? = some m)) ∧
      (∀ i m, s.methods[i]? = some m → (s.after (.copy i)).methods = s.methods ++ [m]) ∧
      ∀ stubs, s.answer .collect = .stubs stubs →
        (s.after .collect).methods = s.methods ∧
        (∀ stub ∈ stubs, ∀ tree redirects,
          stub.render tree redirects = (stub.text redirects, stub)) ∧
        ∀ requests, .collect ∉ requests →
          let later := (s.after .collect).finish requests
          later.stubs = stubs ∧ ∀ i stub, stubs[i]? = some stub →
            later.answer (.render i) = .text (stub.text later.redirects) := by
  refine ⟨fun i m h requests => ⟨exists_looksOnce h requests, methods_finish_of_unasked h⟩, ?_, ?_⟩
  · intro i m h
    simp only [after, step, h]
  · intro stubs hstubs
    obtain ⟨hcollect, hafter⟩ := collect_of_answer hstubs
    have hsettled := Stub.settled_of_collect hcollect
    rw [hafter]
    refine ⟨rfl, fun stub hstub => (hsettled stub hstub).render, ?_⟩
    intro requests hrequests later
    have hlater : later.stubs = stubs := stubs_finish hsettled hrequests
    refine ⟨hlater, fun i stub hstub => answer_render ?_ ?_⟩
    · rwa [hlater]
    · rwa [hlater]

/-- A page that is missed stays missed for the method that asked and for its copy. -/
example :
    let m : Method :=
      ⟨"show".toList, "Box".toList, "(object)".toList, ⟨"R/box.R".toList⟩, .pending⟩
    let asked : Session := { tree := FileTree.empty [], methods := [m] }
    let later := asked.finish [.page 0, .put ⟨"man/show.Rd".toList⟩ (.file .empty), .copy 0]
    asked.answer (.page 0) = .page none ∧ later.tree.exists? ⟨"man/show.Rd".toList⟩ = true ∧
      later.answer (.page 0) = .page none ∧ later.answer (.page 1) = .page none :=
  ⟨rfl, rfl, rfl, rfl⟩

end Session

end RdStubs
