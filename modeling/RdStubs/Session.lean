import RdStubs.Stub

/-!
# Sessions

A session holds a file tree, redirects, methods, and the stubs that were collected last. It is asked
for anything in any order: files come and go, redirects are added, methods are made, copied and
asked what they know, stubs are collected, rendered and written. A copy has what its original had
found and nothing to do with it from then on; collecting works on copies.
-/

namespace RdStubs

/-- The alias lines. The first method of a page needs its page for them and looks for it. -/
def Method.renderAliases (tree : FileTree) (redirects : Redirects) (first : Bool) (m : Method) :
    Text × Method :=
  let m := if first then m.lookUp tree redirects else m
  (m.aliasLines first redirects, m)

/-- The text of a stub. Its first method is asked for aliases as the first of the page, so its page
would be looked for if nobody had done so. -/
def Stub.render (tree : FileTree) (redirects : Redirects) (s : Stub) : Text × Stub :=
  let s := { s with methods := s.methods.modifyHead (Method.lookUp tree redirects) }
  (s.text redirects, s)

structure Session where
  tree : FileTree
  redirects : Redirects := {}
  methods : List Method := []
  stubs : List Stub := []

namespace Session

/-- Methods and stubs are called by their positions. -/
inductive Request where
  | put (path : Path) (e : Entry)
  | remove (path : Path)
  | redirect (raw page : Text)
  | make (name classExpr formals : Text) (source : Path)
  | copy (i : Nat)
  | page (i : Nat)
  | aliases (i : Nat) (first : Bool)
  | pageName (i : Nat)
  | candidates (i : Nat)
  | collect
  | render (i : Nat)
  | write

inductive Answer where
  | done
  | missing
  | failed (cause : Error)
  | method (m : Method)
  | page (found : Option Path)
  | text (s : Text)
  | paths (candidates : List Path)
  | stubs (collected : List Stub)
deriving DecidableEq, Repr

def ask (s : Session) (i : Nat) (answer : Method → Answer × Method) : Answer × Session :=
  match s.methods[i]? with
  | some m => ((answer m).1, { s with methods := s.methods.set i (answer m).2 })
  | none => (.missing, s)

def step (s : Session) : Request → Answer × Session
  | .put path e => (.done, { s with tree := s.tree.put path e })
  | .remove path => (.done, { s with tree := s.tree.remove path })
  | .redirect raw page => (.done, { s with redirects := s.redirects.insert raw page })
  | .make name classExpr formals source =>
    match Method.ofParts name classExpr formals source with
    | .ok m => (.method m, { s with methods := s.methods ++ [m] })
    | .error e => (.failed e, s)
  | .copy i =>
    match s.methods[i]? with
    | some m => (.method m, { s with methods := s.methods ++ [m] })
    | none => (.missing, s)
  | .page i => s.ask i fun m =>
    let m := m.lookUp s.tree s.redirects
    (.page m.page?, m)
  | .aliases i first => s.ask i fun m =>
    let (lines, m) := m.renderAliases s.tree s.redirects first
    (.text lines, m)
  | .pageName i => s.ask i fun m => (.text (m.pageName s.redirects), m)
  | .candidates i => s.ask i fun m => (.paths (m.candidates s.redirects), m)
  | .collect =>
    match Stub.collect s.tree s.redirects s.methods with
    | .ok stubs => (.stubs stubs, { s with stubs })
    | .error e => (.failed e, s)
  | .render i =>
    match s.stubs[i]? with
    | some stub =>
      let (text, stub) := stub.render s.tree s.redirects
      (.text text, { s with stubs := s.stubs.set i stub })
    | none => (.missing, s)
  | .write =>
    match (Stub.writeAll s.redirects s.stubs).run ⟨s.tree, []⟩ with
    | .ok () p => (.done, { s with tree := p.state })
    | .error e p => (.failed e, { s with tree := p.state })

end Session

end RdStubs
