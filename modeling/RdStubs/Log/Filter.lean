import RdStubs.Log.Rule
import RdStubs.Text.Runs

/-!
# Log filters

A filter is a list of rules, written with commas between them. Of the rules that speak of a notice
the most specific one decides whether it is shown, and of two that are equally specific the later.
A notice that no rule speaks of is not shown.
-/

namespace RdStubs.Log

abbrev Filter := List Rule

namespace Filter

def shows (f : Filter) (n : Notice) : Bool :=
  let choose (best? : Option Rule) (r : Rule) : Option Rule :=
    if best?.all fun best => best.specificity ≤ r.specificity then some r else best?
  ((f.filter (·.speaksOf n)).foldl choose none).any fun r => n.level.verbosity ≤ r.verbosity

def parse? (s : Text) : Option Filter := ((Text.split ',' s).filter (· ≠ [])).mapM Rule.read?

def quiet : Filter := [{ target := Origin.program.target, verbosity := Level.warn.verbosity }]

def standard : Filter := [{ target := Origin.program.target, verbosity := Level.info.verbosity }]

/-- The filter of a run: being quiet goes before what is asked for, and a text that is not a filter
is passed over. -/
def choose (isQuiet : Bool) (asked? : Option Text) : Filter :=
  if isQuiet then quiet else (asked?.bind parse?).getD standard

end Filter

end RdStubs.Log
