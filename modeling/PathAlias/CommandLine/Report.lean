import PathAlias.Configuration
import PathAlias.Json.Printer
import PathAlias.Settings

/-!
# Reports

What the commands print, for people and as JSON. Every report ends with a line end.
-/

namespace PathAlias.CommandLine

/-- A specifier with what it resolves to. -/
structure Resolution where
  specifier : Text
  /-- The path or specifier it resolves to, if it does. -/
  resolved : Option Text
  deriving DecidableEq

def line (t : Text) : Text := t ++ ['\n']

def document (members : List (Text × Json.Value)) : Text := line (Json.pretty (.object members))

namespace Report

def version : Text := line versionLine

def versionJson : Text :=
  document [
    ("schema_version", Json.Value.ofNat schemaVersion),
    ("version", Json.Value.ofString PathAlias.version)]

def resolution (relative : Bool) (r : Resolution) : Text :=
  match r.resolved with
  | some path => line (r.specifier ++ " -> " ++ path)
  | none => line (r.specifier ++ if relative then ": unchanged" else ": not found")

def resolutions (relative : Bool) (rs : List Resolution) : Text := rs.flatMap (resolution relative)

def resolutionJson (r : Resolution) : Json.Value :=
  .object [
    ("specifier", Json.Value.ofString r.specifier),
    ("resolved", Json.Value.ofOptional r.resolved)]

/-- Resolutions as JSON, with the configuration that the run started with. -/
def resolutionsJson (primary : Configuration) (rs : List Resolution) : Text :=
  document [
    ("schema_version", Json.Value.ofNat schemaVersion),
    ("config_file", Json.Value.ofOptional primary.configFile),
    ("absolute_base_url", Json.Value.ofString primary.absoluteBaseUrl),
    ("results", .array (rs.map resolutionJson))]

def entry (e : Entry) : Text := line ("  " ++ e.pattern ++ " -> " ++ joinWith ", " e.targets)

def entries : List Entry → Text
  | [] => line "No path mappings."
  | es => line "Mappings (most specific first):" ++ es.flatMap entry

def configuration (config : Configuration) : Text :=
  line ("Config file:       " ++ config.configFile.getD "(explicit)")
    ++ line ("baseUrl:           " ++ config.baseUrl.getD "(not set)")
    ++ line ("Absolute baseUrl:  " ++ config.absoluteBaseUrl)
    ++ line ("Main fields:       " ++ joinWith ", " config.mainFields)
    ++ line ("Match all:         " ++ if config.matchAll then "true" else "false")
    ++ line []
    ++ entries config.matcher.entries

def entryJson (e : Entry) : Json.Value :=
  .object [
    ("pattern", Json.Value.ofString e.pattern),
    ("targets", Json.Value.ofStrings e.targets)]

def configurationJson (config : Configuration) : Text :=
  document [
    ("schema_version", Json.Value.ofNat schemaVersion),
    ("config_file", Json.Value.ofOptional config.configFile),
    ("base_url", Json.Value.ofOptional config.baseUrl),
    ("absolute_base_url", Json.Value.ofString config.absoluteBaseUrl),
    ("paths", .object (config.paths.rows.map fun row => (row.1, Json.Value.ofStrings row.2))),
    ("main_fields", Json.Value.ofStrings config.mainFields),
    ("add_match_all", Json.Value.ofBool config.matchAll),
    ("entries", .array (config.matcher.entries.map entryJson))]

end Report

end PathAlias.CommandLine
