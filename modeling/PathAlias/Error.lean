import PathAlias.Text

/-!
# Errors

Why a resolution or the loading of a configuration fails. A module that cannot be found is no
error; resolutions answer that there is none.
-/

namespace PathAlias

/-- Why an access to a path fails. -/
inductive AccessError
  | notFound
  | notADirectory
  | isADirectory
  | nameTooLong
  | nulInPath
  /-- No directory above a configuration file holds what it extends. -/
  | extendedNotFound
  /-- What the host reports about any other failure. -/
  | reported (text : Text)
  deriving DecidableEq

namespace AccessError

def message : AccessError → Text
  | .notFound => "No such file or directory (os error 2)"
  | .notADirectory => "Not a directory (os error 20)"
  | .isADirectory => "Is a directory (os error 21)"
  | .nameTooLong => "File name too long (os error 36)"
  | .nulInPath => "file name contained an unexpected NUL byte"
  | .extendedNotFound => "extended config not found"
  | .reported text => text

/-- Whether the failure only says that nothing is there. -/
def isAbsence : AccessError → Bool
  | .notFound => true
  | .notADirectory => true
  | _ => false

end AccessError

/-- Why an operation fails. -/
inductive Error
  | configRead (path : Text) (cause : AccessError)
  | configParse (path : Text)
  | configNotFound (start : Text)
  | extendsCycle (path : Text)
  | manifestParse (path : Text)
  | access (path : Text) (cause : AccessError)
  deriving DecidableEq

def Error.message : Error → Text
  | .configRead path cause => "Failed to read config at " ++ path ++ ": " ++ cause.message
  | .configParse path => "Failed to parse config at " ++ path
  | .configNotFound start => "Couldn't find tsconfig.json or jsconfig.json from " ++ start
  | .extendsCycle path => "tsconfig extends cycle detected at " ++ path
  | .manifestParse path => "Failed to parse package.json at " ++ path
  | .access path cause => "Filesystem access failed for " ++ path ++ ": " ++ cause.message

end PathAlias
