import Mathlib.Data.List.Pairwise
import RdStubs.Proofs.Stub.Collecting

/-!
# The partition into stubs

What `Sorts` says about a single method: there is one stub that holds it, the one of its page, and
that stub holds it as often as the method came.
-/

namespace RdStubs

namespace Stub

namespace Sorts

variable {found : List Method} {stubs : List Stub} {s s' : Stub} {m : Method} {page : Path}

theorem eq_of_sameAs (h : Sorts found stubs) (hs : s ∈ stubs) (hs' : s' ∈ stubs)
    (hsame : s.page.SameAs s'.page) : s = s' := by
  by_contra hne
  have : Std.Symm fun s s' : Stub => ¬ s.page.SameAs s'.page :=
    ⟨fun _ _ hdiffer hsame' => hdiffer hsame'.symm⟩
  exact h.distinct.forall hs hs' hne hsame

/-- A method is in the stub of its page, as often as it came, and in no other. -/
theorem exists_stub (h : Sorts found stubs) (hfound : m ∈ found) (hm : m.page? = some page) :
    ∃ s ∈ stubs, s.page.SameAs page ∧ s.methods.count m = found.count m ∧
      ∀ s' ∈ stubs, m ∈ s'.methods → s' = s := by
  obtain ⟨s, hs, hms⟩ := List.mem_flatMap.1 (h.perm.mem_iff.2 hfound)
  have hsame := h.sameAs_of_mem hs hms hm
  have hpage : m.hasPage s.page = true := by
    rw [Method.hasPage_of_page? hm]
    exact decide_eq_true hsame
  refine ⟨s, hs, hsame, ?_, fun s' hs' hms' => ?_⟩
  · rw [h.methods s hs, List.count_filter hpage]
  · exact h.eq_of_sameAs hs' hs ((h.sameAs_of_mem hs' hms' hm).trans hsame.symm)

end Sorts

/-- Collecting succeeds exactly if every method has a page, and otherwise names the first that has
none. The stubs are then a stable partition of the methods: a stub holds, in their order, the
methods whose page is the stub's, it stands where the first of them came up, and it has the spelling
that was found for that one. -/
theorem collect_partitions_by_page (tree : FileTree) (redirects : Redirects)
    (methods : List Method) :
    ((∃ stubs, collect tree redirects methods = .ok stubs) ↔
      ∀ m ∈ methods, ((m.lookUp tree redirects).page?).isSome) ∧
    (∀ e, collect tree redirects methods = .error e ↔
      ∃ before m after, methods = before ++ m :: after ∧
        (∀ m' ∈ before, ((m'.lookUp tree redirects).page?).isSome) ∧
        (m.lookUp tree redirects).page? = none ∧ e = .noPage m.name (m.candidates redirects)) ∧
    ∀ stubs, collect tree redirects methods = .ok stubs →
      let found := methods.map (·.lookUp tree redirects)
      (stubs.Pairwise fun s s' => ¬ s.page.SameAs s'.page) ∧
      (stubs.Pairwise fun s s' =>
        found.findIdx (·.hasPage s.page) < found.findIdx (·.hasPage s'.page)) ∧
      (∀ s ∈ stubs, s.methods = found.filter (·.hasPage s.page) ∧
        ∃ first, s.methods.head? = some first ∧ first.page? = some s.page) ∧
      (stubs.flatMap Stub.methods).Perm found ∧
      ∀ m ∈ found, ∃ s ∈ stubs, ∃ page, m.page? = some page ∧ s.page.SameAs page ∧
        s.methods.count m = found.count m ∧ ∀ s' ∈ stubs, m ∈ s'.methods → s' = s := by
  refine ⟨exists_collect_eq_ok_iff, fun e => collect_eq_error_iff, fun stubs hcollect => ?_⟩
  have hsorts := collect_sorts hcollect
  refine ⟨hsorts.distinct, hsorts.order, fun s hs => ⟨hsorts.methods s hs, hsorts.first s hs⟩,
    hsorts.perm, ?_⟩
  intro found hfound
  obtain ⟨m, hm, rfl⟩ := List.mem_map.1 hfound
  obtain ⟨page, hpage⟩ := Option.isSome_iff_exists.1 ((collect_ok hcollect).1 m hm)
  obtain ⟨s, hs, hsame, hcount, hunique⟩ := hsorts.exists_stub hfound hpage
  exact ⟨s, hs, page, hpage, hsame, hcount, hunique⟩

end Stub

end RdStubs
