import PathAlias.ConfigFile.Declaration
import PathAlias.Disk
import PathAlias.Package

/-!
# Configuration files and what they extend

A configuration file inherits what the files it extends declare. Of several bases a later one
overrides an earlier one, and a file overrides all its bases; base URL and path table are inherited
each by itself and as a whole. A file that is reached again while it is being read extends itself,
which is an error; a file that is reached again later is simply read again.
-/

namespace PathAlias

/-- The names of configuration files; in one directory the first one counts. -/
def configFileNames : List Text := ["tsconfig.json", "jsconfig.json"]

/-- A configuration file with everything it inherits. -/
structure ConfigFile where
  path : Text
  baseUrl : Option BaseUrl
  paths : Option PathTable

namespace ConfigFile

def dir (config : ConfigFile) : Text := parentOrHere config.path

/-- What is in force when `config` overrides `base`. -/
def inherit (config base : ConfigFile) : ConfigFile where
  path := config.path
  baseUrl := config.baseUrl.or base.baseUrl
  paths := config.paths.or base.paths

/-- What is in force for a file with these bases, the first base being the weakest. -/
def inheritAll (config : ConfigFile) (bases : List ConfigFile) : ConfigFile :=
  match bases with
  | [] => config
  | first :: later => config.inherit (later.foldl (fun earlier base => base.inherit earlier) first)

variable {m : Type → Type} [Monad m]

/-- The nearest configuration file in a directory or above it. -/
def nearest (disk : Disk m) (start : Text) : m (Option Text) :=
  walkUp start fun dir => disk.firstFile dir configFileNames

/-- The name of an extended file, with the extension it may be written without. -/
def withExtension (value : Text) : Text :=
  if extension? value = some ("json" : Text) then value else value ++ ".json"

/-- The file that an extended package names in the packages of one directory: a file of that
name, the same with its extension, or the configuration file in a directory of that name. -/
def inPackages (disk : Disk m) (value dir : Text) : m (Option Text) := do
  let exact := append (packagesIn dir) value
  if ← disk.isFile exact then
    pure (some exact)
  else
    let named := append (packagesIn dir) (withExtension value)
    if ← disk.isFile named then
      pure (some named)
    else if ← disk.isDirectory exact then
      disk.firstFile exact ["tsconfig.json"]
    else
      pure none

def isPathLike (value : Text) : Bool :=
  ("./" : Text).isPrefixOf value || ("../" : Text).isPrefixOf value || isAbsolute value

/-- The file that a configuration file in the directory `dir` extends by `value`. A path counts
from that directory; anything else is looked for among the packages there and further up. -/
def locateBase (disk : Disk m) (dir value : Text) : m (Except Error Text) := do
  if isPathLike value then
    pure (.ok (normalize (append dir (withExtension value))))
  else
    match ← walkUp dir (inPackages disk value) with
    | some path => pure (.ok path)
    | none => pure (.error (.configRead (append (packagesIn dir) value) .extendedNotFound))

def readDeclaration (disk : Disk m) (path : Text) : m (Except Error Declaration) := do
  match ← disk.readText path with
  | .ok source => pure (Declaration.parse path source)
  | .error cause => pure (.error (.configRead path cause))

/-- The one path that a file is known by: its real path, or its own if it has none. -/
def identity (disk : Disk m) (path : Text) : m Text := do
  pure ((← disk.real path).getD path)

/-- Loads a file that is extended by the files of `chain`, which are known by these paths. The
chain holds no file twice, so it never gets longer than there are files, and `fuel` is how much
longer it may get. -/
def loadWithin (disk : Disk m) : Nat → List Text → Text → ExceptT Error m ConfigFile
  | 0, _, path => throw (.extendsCycle path)
  | fuel + 1, chain, path => do
      let known ← ExceptT.lift (identity disk path)
      if chain.any (samePath known) then
        throw (.extendsCycle known)
      else do
        let declared ← ExceptT.mk (readDeclaration disk path)
        let bases ← (declared.bases.getD []).mapM fun value => do
          let base ← ExceptT.mk (locateBase disk (parentOrHere path) value)
          loadWithin disk fuel (known :: chain) base
        let own : ConfigFile := { path, baseUrl := declared.baseUrl, paths := declared.paths }
        return own.inheritAll bases

/-- Loads a configuration file with everything it inherits. -/
def load (disk : Disk m) (path : Text) : ExceptT Error m ConfigFile :=
  loadWithin disk (disk.fileLimit + 1) [] path

end ConfigFile

end PathAlias
