import PathAlias.Path.Route

/-!
# Relative paths and local specifiers

The shortest way from one directory to another is up to what they share and down from there. A
local specifier is such a way spelled so that a module loader reads it as a path.
-/

namespace PathAlias

/-- What is left of two lists after their longest common beginning. -/
def afterCommon {α : Type} [DecidableEq α] : List α → List α → List α × List α
  | x :: xs, y :: ys => if x = y then afterCommon xs ys else (x :: xs, y :: ys)
  | xs, ys => (xs, ys)

/-- The relative path that leads from directory `origin` to `target`, empty if they agree. -/
def relative (origin target : Text) : Text :=
  let rests := afterCommon (Route.ofPath origin).components (Route.ofPath target).components
  joinWith "/" (List.replicate rests.1.length ['.', '.'] ++ rests.2.map Component.text)

/-- The specifier of `target` in a file inside `dir`: relative and starting with a dot. -/
def localSpecifier (dir target : Text) : Text :=
  match relative dir target with
  | [] => "./"
  | '.' :: rest => '.' :: rest
  | down => '.' :: '/' :: down

end PathAlias
