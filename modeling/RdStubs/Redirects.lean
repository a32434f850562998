import RdStubs.Text.Blank

/-!
# Redirects

A table of page names. A name without an entry stands for itself, a later entry for a name
replaces the earlier one, and a redirect is followed once only.
-/

namespace RdStubs

structure Redirects where
  entries : List (Text × Text) := []
deriving DecidableEq, Repr

namespace Redirects

def insert (r : Redirects) (raw page : Text) : Redirects :=
  ⟨(raw, page) :: r.entries.filter (·.1 ≠ raw)⟩

def resolve (r : Redirects) (name : Text) : Text := (r.entries.lookup name).getD name

def size (r : Redirects) : Nat := r.entries.length

@[simp] theorem resolve_insert_self (r : Redirects) (raw page : Text) :
    (r.insert raw page).resolve raw = page := by
  simp [insert, resolve]

end Redirects

end RdStubs
