import PathAlias.Lookup
import PathAlias.Path.Route
import PathAlias.Utf8

/-!
# Disks

What the library asks of a disk: what is at a path, the bytes of a file, and the one path that
leads to a place without detours. The effects of a disk are left open. A disk answers the
questions of lookups.
-/

namespace PathAlias

/-- What may be at a path. -/
inductive NodeKind
  | file
  | directory
  /-- Something that is neither. -/
  | other
  deriving DecidableEq

/-- A disk whose accesses have the effects `m`. -/
structure Disk (m : Type → Type) where
  stat : Text → m (Except AccessError NodeKind)
  read : Text → m (Except AccessError (List UInt8))
  /-- The absolute path without detours that leads where a path leads, if something is there. -/
  real : Text → m (Option Text)
  /-- A number that there are no more files than. -/
  fileLimit : Nat

/-- Tries a directory and those above it, nearest first, until one gives something. -/
def walkUp {m : Type → Type} [Monad m] {α : Type} (start : Text)
    (probe : Text → m (Option α)) : m (Option α) :=
  (ancestors start).findSomeM? probe

namespace Disk

variable {m : Type → Type} [Monad m]

def isFile (disk : Disk m) (path : Text) : m Bool := do
  match ← disk.stat path with
  | .ok .file => pure true
  | _ => pure false

def isDirectory (disk : Disk m) (path : Text) : m Bool := do
  match ← disk.stat path with
  | .ok .directory => pure true
  | _ => pure false

def readText (disk : Disk m) (path : Text) : m (Except AccessError Text) := do
  let bytes ← disk.read path
  pure (bytes.map Utf8.decode)

/-- The first of some names that is a regular file in a directory. -/
def firstFile (disk : Disk m) (dir : Text) (names : List Text) : m (Option Text) := do
  let found ← names.findM? fun name => disk.isFile (append dir name)
  pure (found.map fun name => append dir name)

/-- Whether there is a regular file at a path. That nothing is there is an answer and no error. -/
def fileExists (disk : Disk m) (path : Text) : m (Except Error Bool) := do
  match ← disk.stat path with
  | .ok kind => pure (.ok (kind == .file))
  | .error cause =>
      pure (if cause.isAbsence then .ok false else .error (.access path cause))

/-- The package manifest at a path, if there is one. -/
def manifest (disk : Disk m) (path : Text) : m (Except Error (Option Manifest)) := do
  match ← disk.fileExists path with
  | .error e => pure (.error e)
  | .ok false => pure (.ok none)
  | .ok true =>
      match ← disk.readText path with
      | .ok source => pure ((Manifest.parse path source).map some)
      | .error cause =>
          pure (if cause.isAbsence then .ok none else .error (.access path cause))

def fileSystem (disk : Disk m) : FileSystem m
  | .file path => disk.fileExists path
  | .manifest path => disk.manifest path

end Disk

end PathAlias
