import PathAlias.Lookup
import PathAlias.Path.Component

/-!
# Installed packages

A request that is no path may name a package. The package is installed for a directory if its
manifest is in a `node_modules` directory there or further up.
-/

namespace PathAlias

/-- The package that a request names: its first segment, or its first two segments if the first
one is a scope. Relative and absolute requests name none, and neither does a bare scope. -/
def packageName? (request : Text) : Option Text :=
  match request with
  | [] => none
  | c :: _ =>
      if c = '.' || c = '/' then none
      else
        match segments request with
        | first :: rest =>
            if c = '@' then
              match rest with
              | [] => none
              | [] :: _ => none
              | name :: _ => some (first ++ '/' :: name)
            else some first
        | [] => none

def packageDirectory : Text := "node_modules"

def packagesIn (dir : Text) : Text := append dir packageDirectory

/-- Where the manifest of an installed package may be, nearest first. A package directory is not
looked for inside of another one. -/
def manifestPaths (name dir : Text) : List Text :=
  ((ancestors dir).filter fun above => fileName? above != some packageDirectory).map fun above =>
    append (append (packagesIn above) name) "package.json"

def anyFile : List Text → Lookup Bool
  | [] => .done false
  | path :: rest =>
      .ask (.file path) fun isThere => if isThere then .done true else anyFile rest

/-- Looks whether a request names a package that is installed for the directory `dir`. -/
def isInstalled (request dir : Text) : Lookup Bool :=
  match packageName? request with
  | some name => anyFile (manifestPaths name dir)
  | none => .done false

end PathAlias
