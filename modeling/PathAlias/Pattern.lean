import PathAlias.Text

/-!
# Patterns with one wildcard

A pattern is a text in which one `*` stands for some text that is not empty. A pattern without
a wildcard, or with more than one, captures nothing. A target template has its first `*` replaced
by what was captured.
-/

namespace PathAlias

/-- The character that stands for any text that is not empty. -/
def wildcard : Char := '*'

/-- What the only wildcard of `pattern` stands for in `candidate`. -/
def capture? (pattern candidate : Text) : Option Text := do
  let (before, after) ← splitFirst? wildcard pattern
  if wildcard ∈ after then none
  else
    let rest ← before.isPrefixOf? candidate
    let captured ← after.isSuffixOf? rest
    if captured = [] then none else some captured

/-- The length in bytes of the literal text before the wildcard. A pattern without one counts
whole, so that it ranks above every wildcard pattern that begins with a part of it. -/
def prefixLength (pattern : Text) : Nat := utf8Length (pattern.takeWhile fun c => c != wildcard)

def substitute : Text → Text → Text
  | [], _ => []
  | c :: rest, captured => if c = wildcard then captured ++ rest else c :: substitute rest captured

end PathAlias
