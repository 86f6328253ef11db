import PathAlias.Candidate
import PathAlias.Lookup

/-!
# Matchers

A matcher is a compiled path table with the manifest fields that name main files. Searching a
request looks at its candidates in order; the first one that exists decides.
-/

namespace PathAlias

/-- Looks whether a candidate exists and what it answers. A package answers with its main file,
if its manifest names one and that file exists. -/
def Candidate.probe (mainFields : List Text) (candidate : Candidate) : Lookup (Option Text) :=
  match candidate.kind with
  | .package =>
      .ask (.manifest candidate.path) fun manifest =>
        match manifest.bind fun present => present.mainFile? mainFields with
        | none => .done none
        | some main =>
            let mainFile := candidate.mainFile main
            .ask (.file mainFile) fun isThere =>
              .done (if isThere then some (dropExtension mainFile) else none)
  | _ =>
      .ask (.file candidate.path) fun isThere =>
        .done (if isThere then some candidate.answer else none)

/-- A compiled path table. -/
structure Matcher where
  /-- The entries, most specific first. -/
  entries : List Entry
  mainFields : List Text
  deriving DecidableEq

namespace Matcher

/-- The matcher of a path table whose targets lie below `base`. -/
def ofTable (base : Text) (table : PathTable) (mainFields : List Text) (matchAll : Bool) :
    Matcher where
  entries := compile base table matchAll
  mainFields := mainFields

/-- Looks for the file that a request names; ends with none if no candidate exists. -/
def search (matcher : Matcher) (extensions : List Text) (request : Text) :
    Lookup (Option Text) :=
  Lookup.firstSome (Candidate.probe matcher.mainFields)
    (candidates extensions matcher.entries request)

end Matcher

end PathAlias
