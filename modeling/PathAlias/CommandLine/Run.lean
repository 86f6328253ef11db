import PathAlias.CommandLine.Arguments
import PathAlias.CommandLine.Report
import PathAlias.Registry

/-!
# Running commands

A run reads its command line, does what it is told, and ends in one of three ways: with a report,
with the failure of its command, or because the command line is wrong. Only a report is printed.
-/

namespace PathAlias.CommandLine

/-- How a run ends. -/
inductive Outcome
  | printed (report : Text)
  | failed (message : Text)
  | rejected
  deriving DecidableEq

def Outcome.exitCode : Outcome → Nat
  | .printed _ => 0
  | .failed _ => 1
  | .rejected => 2

def Outcome.output : Outcome → Text
  | .printed report => report
  | _ => []

/-- Extensions as they are looked for: each begins with a dot, which may have been left out. -/
def dotted (extensions : List Text) : List Text :=
  (extensions.filter fun ext => ext != []).map fun ext =>
    if ext.head? = some '.' then ext else '.' :: ext

/-- The registry with what a request says about extensions and manifest fields. -/
def Request.configure (request : Request) (registry : Registry) : Registry :=
  let extended :=
    if request.extensions = [] then registry
    else registry.withExtensions (dotted request.extensions)
  if request.mainFields = [] then extended else extended.withMainFields request.mainFields

/-- The environment in which the project of the settings goes before the one that is set. Values of
variables are texts, so bytes that spell none are replaced. -/
def environmentOf (settings : Settings RawPath) (env : Environment) : Environment := fun name =>
  if name = projectVariable && settings.project.isSome then settings.project.map RawPath.lossy
  else env name

variable {m : Type → Type} [Monad m]

def Request.resolveOne (disk : Disk m) (env : Environment) (cwd : Text) (request : Request)
    (registry : Registry) (specifier : Text) : m (Except Error (Option Text) × Registry) :=
  let importer := request.parent.map (append cwd)
  match request.relative, importer with
  | true, some file =>
      registry.resolveRelative disk env request.mode disk.fileSystem specifier file
  | _, _ => registry.resolve disk env request.mode disk.fileSystem specifier importer

/-- Resolves specifiers one after the other; the first error ends it. -/
def Request.resolveAll (disk : Disk m) (env : Environment) (cwd : Text) (request : Request) :
    Registry → List Text → m (Except Error (List Resolution × Registry))
  | registry, [] => pure (.ok ([], registry))
  | registry, specifier :: rest => do
      match ← request.resolveOne disk env cwd registry specifier with
      | (.error e, _) => pure (.error e)
      | (.ok resolved, after) =>
          match ← Request.resolveAll disk env cwd request after rest with
          | .error e => pure (.error e)
          | .ok (others, last) => pure (.ok ({ specifier, resolved } :: others, last))

/-- Resolves the specifiers of a request and reports them. -/
def runResolve (disk : Disk m) (env : Environment) (settings : Settings RawPath) (json : Bool)
    (request : Request) : m Outcome := do
  let env := environmentOf settings env
  match ← Registry.start disk env settings.cwd none with
  | .error e => pure (.failed e.message)
  | .ok none =>
      pure (.failed ("no tsconfig.json or jsconfig.json found from " ++ settings.cwd))
  | .ok (some started) =>
      let all := request.resolveAll disk env settings.cwd (request.configure started)
      match ← all request.specifiers with
      | .error e => pure (.failed e.message)
      | .ok (resolutions, last) =>
          pure (.printed (
            if json then Report.resolutionsJson last.primary.configuration resolutions
            else Report.resolutions request.relative resolutions))

def runConfig (disk : Disk m) (env : Environment) (settings : Settings RawPath) (json : Bool) :
    m Outcome := do
  match ← (Configuration.loadNamed disk env settings.cwd settings.project).run with
  | .error e => pure (.failed e.message)
  | .ok config =>
      pure (.printed (
        if json then Report.configurationJson config else Report.configuration config))

def Invocation.run (disk : Disk m) (env : Environment) (invocation : Invocation) : m Outcome :=
  match invocation.command with
  | .version => pure (.printed (if invocation.json then Report.versionJson else Report.version))
  | .resolve request => runResolve disk env invocation.settings invocation.json request
  | .config => runConfig disk env invocation.settings invocation.json

/-- Runs a command line without the name of the program. -/
def run (disk : Disk m) (env : Environment) (workingDirectory : Text) (arguments : List Text) :
    m Outcome :=
  match parse env workingDirectory arguments with
  | .ok invocation => invocation.run disk env
  | .error .version => pure (.printed Report.version)
  | .error .rejected => pure .rejected

end PathAlias.CommandLine
