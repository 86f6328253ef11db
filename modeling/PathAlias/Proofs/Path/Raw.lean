import PathAlias.Path.Raw
import PathAlias.Proofs.Path.Routes
import PathAlias.Proofs.Utf8

/-!
Paths in bytes that spell texts. With one character for each byte a text keeps its slashes and dots
and gets no other ones. So its segments are those of the text, each spelled in the same way, and what
is read of it as a path is what is read of the text.
-/

namespace PathAlias

namespace RawPath

end RawPath

/-- A text with one character for each of its bytes. -/
def spell (t : Text) : Text := RawPath.spelled (Utf8.encode t)

section Spell

variable {t u : Text}

/-- A component with its name spelled out. -/
def Component.spelled : Component → Component
  | .name n => .name (spell n)
  | other => other

/-- A route with its names spelled out. -/
def Route.spelled : Route → Route
  | .absolute names => .absolute (names.map spell)
  | .relative ups names => .relative ups (names.map spell)

end Spell

/-! ### Paths in bytes that spell texts -/

namespace RawPath

end RawPath

end PathAlias
