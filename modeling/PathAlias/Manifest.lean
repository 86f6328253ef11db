import PathAlias.Error
import PathAlias.Json.Strict

/-!
# Package manifests

The manifest of a package names its main file in one of several fields; which fields count, and
in which order, is for the caller to say.
-/

namespace PathAlias

/-- The top level of a package manifest. -/
structure Manifest where
  /-- The fields as they are written; the last one of a name counts. -/
  fields : List (Text × Json.Value)

namespace Manifest

/-- The manifest that a value is. A value that is no object has no fields. -/
def ofValue : Json.Value → Manifest
  | .object members => ⟨members⟩
  | _ => ⟨[]⟩

def parse (path source : Text) : Except Error Manifest :=
  match Json.Value.ofText? source with
  | some value => .ok (ofValue value)
  | none => .error (.manifestParse path)

def field? (manifest : Manifest) (name : Text) : Option Json.Value :=
  (manifest.fields.reverse.find? fun field => field.1 == name).map Prod.snd

/-- The first of the named fields that holds a string that is not empty. -/
def mainFile? (manifest : Manifest) (mainFields : List Text) : Option Text :=
  mainFields.findSome? fun name =>
    match (manifest.field? name).bind Json.Value.string? with
    | some [] => none
    | main => main

end Manifest

/-- The fields that name the main file of a package unless the caller says otherwise. -/
def defaultMainFields : List Text := ["main"]

/-- The extensions that are looked for unless the caller says otherwise. -/
def defaultExtensions : List Text := [".ts", ".tsx", ".js", ".jsx", ".mjs", ".cjs", ".json"]

end PathAlias
