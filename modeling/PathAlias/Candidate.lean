import PathAlias.Mapping

/-!
# Candidates

The files that may answer a request, in the order in which they are looked for. Every matching
entry contributes, for each of its targets, the mapped path itself, the path with each extension,
the manifest of a package there, and an index file with each extension.
-/

namespace PathAlias

/-- How a candidate that exists turns into an answer. -/
inductive Candidate.Kind
  /-- The mapped path itself, which is the answer. -/
  | file
  /-- The mapped path with an extension, which the answer leaves out. -/
  | extension
  /-- An index file; the answer is its directory. -/
  | index
  /-- A package manifest; what it names as main file is the answer. -/
  | package
  deriving DecidableEq

/-- A place to look for the file a request names. -/
structure Candidate where
  kind : Candidate.Kind
  path : Text
  deriving DecidableEq

namespace Candidate

/-- The answer that a candidate stands for, once it exists. -/
def answer (candidate : Candidate) : Text :=
  match candidate.kind with
  | .file => candidate.path
  | .extension => dropExtension candidate.path
  | .index => directory candidate.path
  | .package => candidate.path

/-- The main file that the manifest at a candidate's path names. -/
def mainFile (candidate : Candidate) (main : Text) : Text := join (directory candidate.path) main

end Candidate

/-- Whether a request is never mapped: an empty, relative or absolute one. -/
def isUnmappable : Text → Bool
  | [] => true
  | c :: _ => c == '.' || c == '/'

/-- What an entry captures of a request: nothing if it is the request, else what its wildcard
stands for. -/
def Entry.captures? (entry : Entry) (request : Text) : Option Text :=
  if entry.pattern = request then some [] else capture? entry.pattern request

def candidatesAt (extensions : List Text) (mapped : Text) : List Candidate :=
  { kind := .file, path := mapped }
    :: extensions.map (fun ext => { kind := .extension, path := mapped ++ ext })
    ++ { kind := .package, path := join mapped "package.json" }
    :: extensions.map (fun ext => { kind := .index, path := join mapped "index" ++ ext })

/-- The paths that an entry maps a request to, in order. -/
def Entry.mapped (entry : Entry) (request : Text) : List Text :=
  match entry.captures? request with
  | some captured => entry.targets.map fun template => substitute template captured
  | none => []

/-- The candidates of a request, in the order in which they are looked for. -/
def candidates (extensions : List Text) (entries : List Entry) (request : Text) :
    List Candidate :=
  if isUnmappable request then []
  else entries.flatMap fun entry => (entry.mapped request).flatMap (candidatesAt extensions)

end PathAlias
