import PathAlias.Path.Route
import PathAlias.Utf8

/-!
# Paths in bytes

Whoever names a path from outside names it by bytes, which need not spell a text. What makes a row of
bytes a path are its slashes and dots, and in UTF-8 these are single bytes that are part of no other
character. So such a path is read like a text with one character for each byte.
-/

namespace PathAlias

/-- A path as it is named from outside. -/
abbrev RawPath := List UInt8

namespace RawPath

/-- The text with one character for each byte. -/
def spelled (path : RawPath) : Text := path.map fun byte => Char.ofNat byte.toNat

/-- The bytes of a text with one character for each. -/
def ofSpelled (t : Text) : RawPath := t.map fun c => UInt8.ofNat c.toNat

/-- The path `rest` as seen from `base`: an absolute `rest` stands for itself. -/
def append (base rest : RawPath) : RawPath :=
  ofSpelled (PathAlias.append base.spelled rest.spelled)

/-- The path in its normal spelling. -/
def normalize (path : RawPath) : RawPath := ofSpelled (PathAlias.normalize path.spelled)

/-- The text that is written for a path, with replacement characters where it spells none. -/
def lossy (path : RawPath) : Text := Utf8.read none path

end RawPath

end PathAlias
