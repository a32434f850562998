import RdStubs.Proofs.Text
import RdStubs.Stub

/-!
# The lines of a stub

A stub opens with the document type. Every method of the stub then has its own alias lines and,
in the usage block, one entry, both in the order of the methods. At most one line more can come: the
family alias, and only in front of the aliases of the first method.
-/

namespace RdStubs

namespace Method

def aliasName (redirects : Redirects) (m : Method) : Text :=
  if m.hasPlainName then m.name else m.pageName redirects

def ownAliases (redirects : Redirects) (m : Method) : List Text :=
  methodAlias (m.aliasName redirects) m.signature
    :: if m.hasPlainName then [] else [methodAlias m.escapedName m.signature]

/-- The family alias, unless the page of the method shows its class or has not been found. -/
def familyAliases (redirects : Redirects) (m : Method) : List Text :=
  if m.page?.any fun page => !m.pageMentionsClass page then [familyAlias (m.aliasName redirects)]
  else []

theorem aliasLines_break (first : Bool) (redirects : Redirects) (m : Method) (rest : Text) :
    m.aliasLines first redirects ++ '\n' :: rest =
      Text.unlines ((if first then m.familyAliases redirects else []) ++ m.ownAliases redirects)
        ++ rest := by
  rw [aliasLines, List.append_cons, Text.join_break (by simp)]
  cases first <;> rfl

theorem familyAlias_ne_methodAlias (family name signature : Text) :
    familyAlias family ≠ methodAlias name signature := by
  intro h
  have hend := congrArg (fun s => s.reverse.take 2) h
  simp [familyAlias, methodAlias, braced] at hend

theorem familyAlias_not_mem_ownAliases (family : Text) (redirects : Redirects) (m : Method) :
    familyAlias family ∉ m.ownAliases redirects := by
  unfold ownAliases
  split <;> simp [familyAlias_ne_methodAlias]

theorem unlines_aliasLines (redirects : Redirects) (methods : List Method) :
    Text.unlines (methods.map (aliasLines false redirects)) =
      Text.unlines (methods.flatMap (·.ownAliases redirects)) := by
  induction methods with
  | nil => rfl
  | cons m methods ih =>
    rw [List.map_cons, Text.unlines_cons, aliasLines_break, ih, List.flatMap_cons,
      Text.unlines_append]
    simp

/-- The name in the usage line: what a replacement method replaces, or the escaped name. -/
def usageName (m : Method) : Text := (PageName.replaced? m.name).getD m.escapedName

theorem usageLine_shows_usageName (m : Method) :
    ∃ rest, m.usageLine = braced "  \\S4method" m.usageName ++ (braced "" m.signature ++ rest) := by
  unfold usageLine usageName
  cases PageName.replaced? m.name with
  | some base => exact ⟨Formals.dropValue m.formals ++ " <- value".toList, by simp⟩
  | none => exact ⟨m.formals, by simp⟩

end Method

namespace Stub

def linesWith (first : Method) (redirects : Redirects) (methods : List Method) : List Text :=
  [Method.doctype] ++ first.familyAliases redirects ++ methods.flatMap (·.ownAliases redirects)
    ++ [Method.usageOpening] ++ methods.flatMap (fun m => [m.usageLine, []])
    ++ [Method.usageClosing]

theorem text_eq_unlines {s : Stub} {first : Method} (h : s.methods.head? = some first)
    (redirects : Redirects) :
    s.text redirects = Text.unlines (linesWith first redirects s.methods) := by
  obtain ⟨page, methods⟩ := s
  cases methods with
  | nil => simp at h
  | cons m others =>
    obtain rfl : m = first := by simpa using h
    change Text.unlines (items redirects ⟨page, m :: others⟩) = _
    simp only [items, linesWith, List.cons_append, List.nil_append, Text.unlines_cons,
      Text.unlines_append, Method.aliasLines_break, Method.unlines_aliasLines]
    simp [List.append_assoc]

end Stub

end RdStubs
