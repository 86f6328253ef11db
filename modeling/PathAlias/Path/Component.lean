import PathAlias.Text

/-!
# Paths and their components

A path is a text whose segments are separated by `/`. Two paths are the same when their
components agree: empty segments and `.` say nothing, except a `.` that opens a relative path.
The functions of this module work on the text and keep the spelling of what they do not remove;
none of them looks at a disk.
-/

namespace PathAlias

/-- What one segment of a path says. -/
inductive Component
  /-- The path starts at the root. -/
  | root
  /-- The path starts with `.`. -/
  | here
  | up
  | name (text : Text)
  deriving DecidableEq

def Component.text : Component → Text
  | .root => "/"
  | .here => "."
  | .up => ".."
  | .name n => n

/-- What a segment says that is not the first of its path. -/
def Component.ofSegment? : Text → Option Component
  | [] => none
  | ['.'] => none
  | ['.', '.'] => some .up
  | segment => some (.name segment)

def segments (p : Text) : List Text := splitOn '/' p

def components : Text → List Component
  | '/' :: rest => .root :: (segments rest).filterMap Component.ofSegment?
  | p =>
      match segments p with
      | ['.'] :: rest => .here :: rest.filterMap Component.ofSegment?
      | all => all.filterMap Component.ofSegment?

def isAbsolute (p : Text) : Bool := p.head? == some '/'

def samePath (p q : Text) : Bool := components p == components q

/-- Whether `p` is `base` or lies below it, by its components. -/
def isWithin (base p : Text) : Bool := (components base).isPrefixOf (components p)

/-- The path `rest` as seen from `base`: an absolute `rest` stands for itself. -/
def append (base rest : Text) : Text :=
  if isAbsolute rest then rest
  else if base = [] || base.getLast? = some '/' then base ++ rest
  else base ++ '/' :: rest

/-- Whether a segment after the first one says nothing. -/
def isBlank (segment : Text) : Bool := segment == [] || segment == ['.']

/-- The path with these segments; an empty first segment alone is the root. -/
def ofSegments : List Text → Text
  | [[]] => "/"
  | all => joinWith "/" all

/-- The directories above the path with this first segment and these later ones, which stand
last to first. -/
def aboveSegments (first : Text) : List Text → List Text
  | [] => if first = [] then [] else [[]]
  | segment :: before =>
      if isBlank segment then aboveSegments first before
      else ofSegments (first :: (before.dropWhile isBlank).reverse) :: aboveSegments first before

/-- The directories above a path, nearest first: each is the one before it without its last
component. Above a relative path the last one is the empty path. -/
def above (p : Text) : List Text :=
  match segments p with
  | [] => []
  | first :: rest => aboveSegments first rest.reverse

/-- A path and the directories above it, nearest first. -/
def ancestors (p : Text) : List Text := p :: above p

/-- The path without its last component; the root and the empty path have none to remove. -/
def parent? (p : Text) : Option Text := (above p).head?

/-- The last component of a path, when it is a name. -/
def fileName? (p : Text) : Option Text :=
  match (components p).getLast? with
  | some (.name n) => some n
  | _ => none

/-- A file name cut at its last dot, unless nothing stands before that dot. -/
def splitExtension? (fileName : Text) : Option (Text × Text) :=
  match splitLast? '.' fileName with
  | some ([], _) => none
  | parts => parts

/-- The extension of the file a path names, without its dot. -/
def extension? (p : Text) : Option Text := ((fileName? p).bind splitExtension?).map Prod.snd

end PathAlias
