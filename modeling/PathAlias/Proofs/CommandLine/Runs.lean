import PathAlias.Proofs.CommandLine.Operands
import PathAlias.Proofs.Registry.Repetition
import PathAlias.Proofs.Sequence

/-!
Runs that resolve several specifiers. All specifiers of a run are imported by one file, so what the
first of them has the registry load is what every other one would have it load, and each is resolved
as by a run of its own. A run reports them all, in order, or fails as the first of them does.
-/

namespace PathAlias

namespace CommandLine

namespace Request

variable (request : Request)

/-- The call by which a specifier is resolved. -/
def call (cwd specifier : Text) : Call :=
  match request.relative, request.parent.map (append cwd) with
  | true, some file => .relative request.mode specifier file
  | _, importer => .absolute request.mode specifier importer

/-- What a specifier is resolved to with a registry. -/
def resolution (world : World) (cwd : Text) (registry : Registry) (specifier : Text) :
    ExceptT Error Id Resolution :=
  (registry.answer world (request.call cwd specifier)).1.map fun resolved =>
    { specifier, resolved }

/-- What the specifiers are resolved to with a registry, unless one of them fails. -/
def resolutions (world : World) (cwd : Text) (registry : Registry) :
    ExceptT Error Id (List Resolution) :=
  request.specifiers.mapM (request.resolution world cwd registry)

/-- The registry that a run resolves with, or what it fails with for want of one. -/
def opened (disk : Disk Id) (env : Environment) (settings : Settings RawPath) : Except Text Registry :=
  match Registry.start disk (environmentOf settings env) settings.cwd none with
  | .error e => .error e.message
  | .ok none => .error ("no tsconfig.json or jsconfig.json found from " ++ settings.cwd)
  | .ok (some started) => .ok (request.configure started)

/-- What a run prints about its resolutions. -/
def report (json : Bool) (primary : Configuration) (resolutions : List Resolution) : Text :=
  if json then Report.resolutionsJson primary resolutions
  else Report.resolutions request.relative resolutions

variable (disk : Disk Id) (env : Environment) (settings : Settings RawPath) (json : Bool)

end Request

section Apart

variable {request : Request} {primary : Configuration} {single : Text → Outcome} {json : Bool}
  {specifiers : List Text} {results : List Resolution}

end Apart

end CommandLine

end PathAlias
