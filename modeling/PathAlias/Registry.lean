import PathAlias.Configuration
import PathAlias.CoreModule
import PathAlias.Package
import PathAlias.Path.Relative
import PathAlias.Task

/-!
# Registries

A host asks a registry to map a request before it resolves the request itself. A registry starts
with one project and adds the project of an importing file when it first meets one outside of the
projects it has; what it found for a directory is remembered. Resolutions are not.
-/

namespace PathAlias

/-- A configuration with the matcher that is compiled from it. -/
structure Project where
  configuration : Configuration
  matcher : Matcher

def Project.ofConfiguration (configuration : Configuration) : Project where
  configuration := configuration
  matcher := configuration.matcher

def Project.withMainFields (project : Project) (fields : List Text) : Project :=
  .ofConfiguration { project.configuration with mainFields := fields }

/-- The projects of one host. -/
structure Registry where
  /-- The parameters that take the place of configuration files. -/
  explicit : Option Explicit
  extensions : List Text := defaultExtensions
  mainFields : Option (List Text) := none
  primary : Project
  /-- The projects of importing files, in the order in which they were met. -/
  later : List Project := []
  /-- What was found for directories: the number of a project, or that there is none. -/
  memo : List (List Component × Option Nat) := []

namespace Registry

def projects (registry : Registry) : List Project := registry.primary :: registry.later

def withExtensions (registry : Registry) (extensions : List Text) : Registry :=
  { registry with extensions }

/-- The registry with other manifest fields in all projects, also in those it meets later. -/
def withMainFields (registry : Registry) (fields : List Text) : Registry :=
  { registry with
    mainFields := some fields
    primary := registry.primary.withMainFields fields
    later := registry.later.map fun project => project.withMainFields fields }

/-- The number of the project that a file belongs to: the first one whose base directory it is
in. -/
def owner? (registry : Registry) (file : Text) : Option Nat :=
  registry.projects.findIdx? fun project => isWithin project.configuration.absoluteBaseUrl file

def remembered? (registry : Registry) (dir : Text) : Option (Option Nat) :=
  (registry.memo.find? fun entry => entry.1 == components dir).map Prod.snd

def remember (registry : Registry) (dir : Text) (found : Option Nat) : Registry :=
  { registry with memo := registry.memo ++ [(components dir, found)] }

/-- Whether a project comes from this configuration file. -/
def comesFrom (file : Text) (project : Project) : Bool :=
  project.configuration.configFile.any (samePath file)

/-- The number of the project of a configuration file, if the registry has it. -/
def project? (registry : Registry) (configuration : Configuration) : Option Nat :=
  configuration.configFile.bind fun file => registry.projects.findIdx? (comesFrom file)

/-- Adds the project of a configuration, unless the project of its file is there; gives its
number. -/
def register (registry : Registry) (configuration : Configuration) : Nat × Registry :=
  match registry.project? configuration with
  | some number => (number, registry)
  | none =>
      let fields := registry.mainFields.getD configuration.mainFields
      let added := Project.ofConfiguration { configuration with mainFields := fields }
      (registry.projects.length, { registry with later := registry.later ++ [added] })

variable {m : Type → Type} [Monad m]

/-- The registry of a host in the directory `cwd`, if there is a configuration to start with. -/
def start (disk : Disk m) (env : Environment) (cwd : Text) (explicit : Option Explicit) :
    m (Except Error (Option Registry)) := do
  match ← (Configuration.forDirectory disk env explicit cwd).run with
  | .ok configuration => pure (.ok (some { explicit, primary := .ofConfiguration configuration }))
  | .error (.configNotFound _) => pure (.ok none)
  | .error e => pure (.error e)

/-- Finds the project for a directory by its configuration, and remembers it. -/
def discover (disk : Disk m) (env : Environment) (registry : Registry) (dir : Text) :
    m (Except Error (Option Nat × Registry)) := do
  match ← (Configuration.forDirectory disk env registry.explicit dir).run with
  | .ok configuration =>
      let (number, registered) := registry.register configuration
      pure (.ok (some number, registered.remember dir (some number)))
  | .error (.configNotFound _) => pure (.ok (none, registry.remember dir none))
  | .error e => pure (.error e)

/-- The number of the project that maps the requests of an importing file: the primary one if
there is no such file, else the one the file lies in, else the one remembered or found for its
directory. -/
def choose (disk : Disk m) (env : Environment) (registry : Registry) (importer : Option Text) :
    m (Except Error (Option Nat × Registry)) :=
  match importer with
  | none => pure (.ok (some 0, registry))
  | some file =>
      match registry.owner? file with
      | some number => pure (.ok (some number, registry))
      | none =>
          match registry.remembered? (parentOrHere file) with
          | some found => pure (.ok (found, registry))
          | none => registry.discover disk env (parentOrHere file)

/-- Maps a request to the path of a file without its extension. There is none for core modules,
for requests that no project maps, and where no candidate exists. -/
def resolve (disk : Disk m) (env : Environment) (mode : Mode) (fs : FileSystem m)
    (registry : Registry) (request : Text) (importer : Option Text) :
    m (Except Error (Option Text) × Registry) := do
  if isCoreModule request then
    pure (.ok none, registry)
  else
    match ← registry.choose disk env importer with
    | .error e => pure (.error e, registry)
    | .ok (none, chosen) => pure (.ok none, chosen)
    | .ok (some number, chosen) =>
        match chosen.projects[number]? with
        | none => pure (.ok none, chosen)
        | some project => do
            let found ← (project.matcher.search chosen.extensions request).outcome mode fs
            pure (found, chosen)

/-- Maps a request to a specifier that is relative to the importing file. There is none if the
request is not mapped or names an installed package. -/
def resolveRelative (disk : Disk m) (env : Environment) (mode : Mode) (fs : FileSystem m)
    (registry : Registry) (request importer : Text) :
    m (Except Error (Option Text) × Registry) := do
  match ← registry.resolve disk env mode fs request (some importer) with
  | (.ok (some path), chosen) =>
      let dir := parentOrHere importer
      match ← (isInstalled request dir).outcome mode fs with
      | .ok true => pure (.ok none, chosen)
      | .ok false => pure (.ok (some (localSpecifier dir path)), chosen)
      | .error e => pure (.error e, chosen)
  | other => pure other

end Registry

end PathAlias
