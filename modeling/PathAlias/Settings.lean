import PathAlias.Text

/-!
# Settings

What a run of the program is told apart from its command, and the version of the program.
-/

namespace PathAlias

def version : Text := "0.1.0"

/-- The version of the form of everything that is printed as JSON. -/
def schemaVersion : Nat := 1

def versionLine : Text := "tspaths " ++ version

/-- What holds for a whole run. A project is named by a text, or by whatever else names paths. -/
structure Settings (Project : Type := Text) where
  /-- The directory that the search for a configuration starts from. -/
  cwd : Text
  jsonLogs : Bool := false
  verbosity : Nat := 0
  /-- The configuration file, or a directory that holds it, that takes the place of a search. -/
  project : Option Project := none
  deriving DecidableEq

end PathAlias
