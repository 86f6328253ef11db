import PathAlias.ConfigFile.Inheritance
import PathAlias.Matcher
import PathAlias.Path.Raw

/-!
# Configurations

What a matcher is compiled from, and where it comes from: from a configuration file, which the
caller or the environment names or which is the nearest one, or from parameters that a host gives
itself.
-/

namespace PathAlias

/-- The variables that may be set, with their values. -/
abbrev Environment := Text → Option Text

/-- The variable that names a configuration file or a directory that holds one. -/
def projectVariable : Text := "TS_NODE_PROJECT"

/-- The variable whose value replaces the base URL of the configuration file. -/
def baseUrlVariable : Text := "TS_NODE_BASEURL"

/-- Everything a matcher is compiled from. -/
structure Configuration where
  configFile : Option Text
  baseUrl : Option Text
  absoluteBaseUrl : Text
  paths : PathTable
  mainFields : List Text
  /-- Whether everything that is not mapped otherwise is mapped below the base directory. -/
  matchAll : Bool

def Configuration.matcher (config : Configuration) : Matcher :=
  Matcher.ofTable config.absoluteBaseUrl config.paths config.mainFields config.matchAll

/-- Parameters that a host gives instead of a configuration file. -/
structure Explicit where
  /-- The base URL, as seen from the directory that the parameters are used in. -/
  baseUrl : Text
  paths : PathTable
  mainFields : Option (List Text) := none
  /-- Whether everything that is not mapped otherwise is mapped below the base directory. -/
  matchAll : Bool := true

/-- The configuration that explicit parameters give in a directory. -/
def Explicit.configuration (explicit : Explicit) (cwd : Text) : Configuration where
  configFile := none
  baseUrl := some explicit.baseUrl
  absoluteBaseUrl := normalize (append cwd explicit.baseUrl)
  paths := explicit.paths
  mainFields := explicit.mainFields.getD defaultMainFields
  matchAll := explicit.matchAll

namespace Configuration

/-- The configuration of a loaded file. The base URL of the environment goes before the one in
force; without any the directory of the file is the base directory, and then only what the path
table maps is mapped. -/
def ofFile (env : Environment) (config : ConfigFile) : Configuration :=
  let base : Option Text × Text :=
    match env baseUrlVariable with
    | some raw => (some raw, normalize (append config.dir raw))
    | none =>
        match config.baseUrl with
        | some declared => (some declared.raw, declared.absolute)
        | none => (none, normalize config.dir)
  { configFile := some config.path
    baseUrl := base.1
    absoluteBaseUrl := base.2
    paths := config.paths.getD default
    mainFields := defaultMainFields
    matchAll := base.1.isSome }

variable {m : Type → Type} [Monad m]

/-- The configuration file that a project at a path has: the file there, or the one in the directory
there. -/
def fileAt (disk : Disk m) (path : Text) : m (Except Error Text) := do
  if ← disk.isDirectory path then
    match ← disk.firstFile path configFileNames with
    | some file => pure (.ok file)
    | none => pure (.error (.configNotFound path))
  else
    pure (.ok path)

/-- The configuration file for the directory `cwd`. A project that the caller or else the
environment names is the file itself or the directory that holds it; without one the nearest
configuration file counts. -/
def locate (disk : Disk m) (env : Environment) (cwd : Text) (project : Option Text) :
    m (Except Error Text) := do
  match project.or (env projectVariable) with
  | none =>
      match ← ConfigFile.nearest disk cwd with
      | some path => pure (.ok path)
      | none => pure (.error (.configNotFound cwd))
  | some given => fileAt disk (normalize (append cwd given))

/-- The configuration file for the directory `cwd`, where the caller names the project by bytes.
Everything on a disk is named by texts, so nothing is at a path that spells none. -/
def locateNamed (disk : Disk m) (env : Environment) (cwd : Text) (project : Option RawPath) :
    m (Except Error Text) :=
  match project with
  | none => locate disk env cwd none
  | some given =>
      let path := (RawPath.append (Utf8.encode cwd) given).normalize
      match Utf8.text? path with
      | some text => fileAt disk text
      | none => pure (.error (.configRead path.lossy .notFound))

/-- Loads a configuration file once it is found. -/
def loadAt (disk : Disk m) (env : Environment) (located : m (Except Error Text)) :
    ExceptT Error m Configuration := do
  let path ← ExceptT.mk located
  let config ← ConfigFile.load disk path
  return ofFile env config

/-- Loads the configuration file for the directory `cwd`. -/
def load (disk : Disk m) (env : Environment) (cwd : Text) (project : Option Text) :
    ExceptT Error m Configuration :=
  loadAt disk env (locate disk env cwd project)

/-- Loads the configuration file for the directory `cwd`, where the caller names the project by
bytes. -/
def loadNamed (disk : Disk m) (env : Environment) (cwd : Text) (project : Option RawPath) :
    ExceptT Error m Configuration :=
  loadAt disk env (locateNamed disk env cwd project)

/-- The configuration for the directory `cwd`: explicit parameters go before any file. -/
def forDirectory (disk : Disk m) (env : Environment) (explicit : Option Explicit) (cwd : Text) :
    ExceptT Error m Configuration :=
  match explicit with
  | some parameters => pure (parameters.configuration cwd)
  | none => load disk env cwd none

end Configuration

end PathAlias
