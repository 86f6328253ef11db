/-!
# Text

Paths, requests and file contents are texts: lists of Unicode characters. A list is recursed on
directly, so every function here is structural and computes inside the logic. String literals are
read as texts where a text is expected.
-/

namespace PathAlias

abbrev Text := List Char

instance : Coe String Text := ⟨String.toList⟩

def utf8Length : Text → Nat
  | [] => 0
  | c :: rest => c.utf8Size + utf8Length rest

/-- The pieces of a text between the occurrences of `sep`, empty ones included. -/
def splitOn (sep : Char) : Text → List Text
  | [] => [[]]
  | c :: rest =>
      if c = sep then [] :: splitOn sep rest
      else
        match splitOn sep rest with
        | [] => [[c]]
        | piece :: pieces => (c :: piece) :: pieces

/-- The pieces in order with `separator` between any two neighbours. -/
def joinWith (separator : Text) (pieces : List Text) : Text := separator.intercalate pieces

/-- The text before the first `sep` and the text after it, when there is one. -/
def splitFirst? (sep : Char) : Text → Option (Text × Text)
  | [] => none
  | c :: rest =>
      if c = sep then some ([], rest)
      else (splitFirst? sep rest).map fun parts => (c :: parts.1, parts.2)

/-- The text before the last `sep` and the text after it, when there is one. -/
def splitLast? (sep : Char) (t : Text) : Option (Text × Text) :=
  (splitFirst? sep t.reverse).map fun parts => (parts.2.reverse, parts.1.reverse)

theorem splitOn_ne_nil (sep : Char) (t : Text) : splitOn sep t ≠ [] := by
  cases t with
  | nil => simp [splitOn]
  | cons c rest =>
      simp only [splitOn]
      split
      · simp
      · split <;> simp

end PathAlias
