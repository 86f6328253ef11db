import PathAlias.Error
import PathAlias.Json.Relaxed
import PathAlias.Mapping

/-!
# What a configuration file declares

Of a configuration file only what concerns path mapping is read: the files it extends, its base
URL and its path table. The file is relaxed JSON. A record is written as an object, where unknown
members are skipped, or as an array with one item for each field.
-/

namespace PathAlias

/-- A base URL as it is written, and the directory that it names. -/
structure BaseUrl where
  raw : Text
  /-- What that means as seen from the directory of the file. -/
  absolute : Text
  deriving DecidableEq

/-- What one configuration file says, apart from what it extends says. -/
structure Declaration where
  bases : Option (List Text)
  baseUrl : Option BaseUrl
  paths : Option PathTable

namespace Declaration

open Json.Relaxed (Source)

def text? (source : Source) : Option Text := (Json.Relaxed.value? source).bind Json.Value.string?

def texts? : Source → Option (List Text)
  | .array items => items.mapM text?
  | _ => none

def oneOrMore? : Source → Option (List Text)
  | .array items => items.mapM text?
  | source => (text? source).map fun one => [one]

/-- The path table that an object spells; of a repeated pattern the last targets count. -/
def table? : Source → Option PathTable
  | .object members =>
      (members.mapM row?).map PathTable.ofList
  | _ => none
where
  row? (member : List Nat × Source) : Option (Text × List Text) := do
    let pattern ← Json.Relaxed.keyName? member.1
    let targets ← texts? member.2
    return (pattern, targets)

/-- The sources of the named fields of a record. In an object a field may be missing but not be
repeated, and all other members have to be values; an array has an item for every field, and what
follows these is not looked at. -/
def fields? (names : List Text) : Source → Option (List (Option Source))
  | .object members => do
      let named ← members.mapM fun member => (Json.Relaxed.keyName? member.1).map (·, member.2)
      let readable := named.all fun member =>
        names.contains member.1 || (Json.Relaxed.value? member.2).isSome
      let once := names.all fun name => (named.filter fun member => member.1 == name).length ≤ 1
      if readable && once then
        return names.map fun name =>
          (named.find? fun member => member.1 == name).map Prod.snd
      else none
  | .array items =>
      if items.length < names.length then none else some ((items.take names.length).map some)
  | .leaf _ => none

def optional? {α : Type} (read? : Source → Option α) : Option Source → Option (Option α)
  | none => some none
  | some (.leaf .null) => some none
  | some source => (read? source).map some

/-- The base URL and the path table that the compiler options declare. -/
def options? (source : Source) : Option (Option Text × Option PathTable) := do
  match ← fields? ["baseUrl", "paths"] source with
  | [baseUrl, paths] =>
      let raw ← optional? text? baseUrl
      let table ← optional? table? paths
      return (raw, table)
  | _ => none

/-- What a source declares in a file of the directory `dir`. -/
def ofSource? (dir : Text) (source : Source) : Option Declaration := do
  match ← fields? ["extends", "compilerOptions"] source with
  | [bases, options] =>
      let bases ← optional? oneOrMore? bases
      let declared ← optional? options? options
      let (raw, paths) := declared.getD (none, none)
      return {
        bases
        baseUrl := raw.map fun raw => { raw, absolute := normalize (append dir raw) }
        paths }
  | _ => none

/-- What the text of the configuration file at `path` declares. -/
def parse (path source : Text) : Except Error Declaration :=
  match (Json.Relaxed.ofText? source).bind (ofSource? (parentOrHere path)) with
  | some declaration => .ok declaration
  | none => .error (.configParse path)

end Declaration

end PathAlias
