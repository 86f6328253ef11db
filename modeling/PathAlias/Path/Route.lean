import PathAlias.Path.Component

/-!
# Routes

Read without a disk, a path is a route: from the root, or up some levels from wherever one
stands, and then down through names. `normalize` writes the route of a path in its one normal
spelling. `Location.walk` says where the components of a path lead from a place; a route is what
two paths share when they lead to the same place from everywhere.
-/

namespace PathAlias

/-- A place in a tree of names: the names that lead to it from the root, innermost first. -/
abbrev Location := List Text

namespace Location

/-- One component further; above the root there is only the root. -/
def follow (place : Location) : Component → Location
  | .root => []
  | .here => place
  | .up => place.tail
  | .name n => n :: place

def walk (place : Location) (row : List Component) : Location := row.foldl follow place

def text (place : Location) : Text := '/' :: joinWith "/" place.reverse

end Location

/-- How a path moves, with the names innermost first. -/
inductive Route
  | absolute (names : List Text)
  /-- From where one stands some levels up and then down. -/
  | relative (ups : Nat) (names : List Text)
  deriving DecidableEq

namespace Route

/-- One component further: `..` takes back the last name, stays at the root, and is kept where
there is nothing to take back. -/
def follow : Route → Component → Route
  | _, .root => .absolute []
  | route, .here => route
  | .absolute names, .up => .absolute names.tail
  | .relative ups [], .up => .relative (ups + 1) []
  | .relative ups (_ :: names), .up => .relative ups names
  | .absolute names, .name n => .absolute (n :: names)
  | .relative ups names, .name n => .relative ups (n :: names)

def ofPath (p : Text) : Route := (components p).foldl follow (.relative 0 [])

/-- The components of the normal spelling of a route. -/
def components : Route → List Component
  | .absolute names => .root :: names.reverse.map .name
  | .relative 0 [] => [.here]
  | .relative ups names => List.replicate ups .up ++ names.reverse.map .name

/-- The normal spelling of a route; the route that stays is `.`. -/
def text : Route → Text
  | .absolute names => '/' :: joinWith "/" names.reverse
  | .relative 0 [] => "."
  | .relative ups names => joinWith "/" (List.replicate ups ['.', '.'] ++ names.reverse)

end Route

/-- A path in its normal spelling. -/
def normalize (p : Text) : Text := (Route.ofPath p).text

/-- Whether a character opens a path below another one wherever it is joined. -/
def isSlash (c : Char) : Bool := c == '/' || c == '\\'

/-- The normal path `rest` below `base`, whatever slashes `rest` begins with. -/
def join (base rest : Text) : Text := normalize (append base (rest.dropWhile isSlash))

/-- The normal path that `target` names as seen from `base`. -/
def resolve (base target : Text) : Text :=
  if isAbsolute target then normalize target else join base target

/-- The directory of a path: `.` for a bare name, and the root for itself. -/
def directory (p : Text) : Text :=
  match parent? p with
  | some [] => "."
  | some dir => dir
  | none => p

/-- The directory that a file stands in, `.` where the path names none. -/
def parentOrHere (p : Text) : Text := (parent? p).getD "."

/-- A path without the extension of its last name. Dots in directory names and a dot that opens
the name do not count. -/
def dropExtension (p : Text) : Text :=
  let name := (p.reverse.takeWhile fun c => !isSlash c).reverse
  let dir := (p.reverse.dropWhile fun c => !isSlash c).reverse
  match splitExtension? name with
  | some (stem, _) => dir ++ stem
  | none => p

end PathAlias
