import RdStubs.Error

/-!
# Tasks and notices

A task works on a state, may fail with an `Error`, and notes what it does. A failure keeps the
state and the notices that were reached: what was done before it stays done.
-/

namespace RdStubs

inductive Level where
  | error
  | warn
  | info
  | debug
  | trace
deriving DecidableEq, Repr

inductive Origin where
  | program
  | source
  | declarations
  | stubs
deriving DecidableEq, Repr

structure Notice where
  level : Level
  origin : Origin
  message : Text
deriving DecidableEq, Repr

structure Progress (σ : Type) where
  state : σ
  notices : List Notice := []

abbrev Task (σ : Type) := EStateM Error (Progress σ)

namespace Task

variable {σ : Type}

def state : Task σ σ := do return (← get).state

def setState (s : σ) : Task σ Unit := modify fun p => { p with state := s }

def note (level : Level) (origin : Origin) (message : Text) : Task σ Unit :=
  modify fun p => { p with notices := p.notices ++ [⟨level, origin, message⟩] }

def ofFile {α : Type} (path : Path) : Except FileError α → Task σ α
  | .ok a => pure a
  | .error cause => throw (.file path cause)

end Task

end RdStubs
