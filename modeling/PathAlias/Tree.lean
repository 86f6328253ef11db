import PathAlias.Disk

/-!
# Trees in memory

A finite tree of directories and files is a disk without effects. A path leads through the tree
segment by segment, and every place it passes has to be a directory, also where the next segment
says nothing or leads up again.
-/

namespace PathAlias

/-- What is at a place of a tree. -/
inductive Node
  | file (bytes : List UInt8)
  | directory

def Node.kind : Node → NodeKind
  | .file _ => .file
  | .directory => .directory

/-- A finite tree of directories and files. -/
structure Tree where
  /-- The files with their bytes; the first one at a place counts. -/
  files : List (Location × List UInt8) := []
  directories : List Location := []

namespace Tree

/-- What is at a place; the root is always a directory. -/
def node? (tree : Tree) (place : Location) : Option Node :=
  match tree.files.find? fun file => file.1 == place with
  | some file => some (.file file.2)
  | none =>
      if place = [] || tree.directories.contains place then some .directory else none

/-- The longest name that a tree can hold, in bytes. -/
def longestName : Nat := 255

def find (tree : Tree) : Location → List Text → Except AccessError Location
  | place, [] => .ok place
  | place, segment :: rest =>
      match tree.node? place with
      | none => .error .notFound
      | some (.file _) => .error .notADirectory
      | some .directory =>
          if isBlank segment then tree.find place rest
          else if segment = ['.', '.'] then tree.find place.tail rest
          else if longestName < utf8Length segment then .error .nameTooLong
          else if (tree.node? (segment :: place)).isNone then .error .notFound
          else tree.find (segment :: place) rest

/-- Where a path leads for someone in the directory `cwd`. -/
def locate (tree : Tree) (cwd : Location) (path : Text) : Except AccessError Location :=
  if '\x00' ∈ path then .error .nulInPath
  else if path = [] then .error .notFound
  else tree.find (if isAbsolute path then [] else cwd) (segments path)

def lookAt (tree : Tree) (cwd : Location) (path : Text) : Except AccessError Node :=
  match tree.locate cwd path with
  | .ok place =>
      match tree.node? place with
      | some node => .ok node
      | none => .error .notFound
  | .error cause => .error cause

/-- A tree is a disk for someone in the directory `cwd`. -/
def disk (tree : Tree) (cwd : Location) : Disk Id where
  stat path := (tree.lookAt cwd path).map Node.kind
  read path :=
    match tree.lookAt cwd path with
    | .ok (.file bytes) => .ok bytes
    | .ok .directory => .error .isADirectory
    | .error cause => .error cause
  real path := ((tree.locate cwd path).map Location.text).toOption
  fileLimit := tree.files.length

/-- The tree with a directory at a place and at all places on the way to it. -/
def makeDirectory (tree : Tree) : Location → Tree
  | [] => tree
  | name :: above =>
      let made := tree.makeDirectory above
      if made.directories.contains (name :: above) then made
      else { made with directories := (name :: above) :: made.directories }

/-- The tree without what is at a place or below it. -/
def remove (tree : Tree) (place : Location) : Tree where
  files := tree.files.filter fun file => !place.isSuffixOf file.1
  directories := tree.directories.filter fun dir => !place.isSuffixOf dir

/-- The tree with a node at a place; the directories on the way to it are made. -/
def write (tree : Tree) (place : Location) : Node → Tree
  | .directory => tree.makeDirectory place
  | .file bytes =>
      let made := tree.makeDirectory place.tail
      { made with
        files := (place, bytes) :: made.files.filter fun file => file.1 != place }

end Tree

end PathAlias
