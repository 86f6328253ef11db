import PathAlias.Proofs.Path.Joining
import PathAlias.Proofs.Precedence

/-!
Candidates in the directory of their mapped path. A manifest and an index file are names that are
joined to the mapped path, so each is one level below it, however the mapped path is spelled, and what
is put behind the name stays on this level. Taking the directory of such a path leads back to the
mapped path in its normal spelling. So a main file is looked for below the mapped path itself, and an
index file that is there answers with it.
-/

namespace PathAlias

/-! ### Names at the end of a path -/

namespace Route

/-- The segments of the normal spelling of a route. The route that stays has none. -/
def pieces : Route → List Text
  | .absolute names => [] :: names.reverse
  | .relative ups names => List.replicate ups ['.', '.'] ++ names.reverse

variable {route : Route} {n : Text}

end Route

end PathAlias
