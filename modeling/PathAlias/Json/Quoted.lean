import PathAlias.Text

/-!
# Quoted words

Between quotes a character stands for itself or, after a backslash, for what the dialect says.
Escapes may spell halves of a character; the word is read in two steps, first to the row of
numbers it spells and then to its characters, so that a half without its partner can be told from
an escape that is malformed.
-/

namespace PathAlias.Json

/-- What a character after a backslash means. -/
inductive Escape
  | stands (c : Char)
  /-- It stands for the number written with so many hexadecimal digits after it. -/
  | hex (digits : Nat)
  /-- It continues the line and stands for nothing. -/
  | continues
  /-- It continues the line, and so does a line feed right after it. -/
  | carriage

/-- How a dialect reads the inside of a quoted word. -/
structure Quoting where
  isPlain : Char → Bool
  escape? : Char → Option Escape

def hexValue? (c : Char) : Option Nat :=
  if '0' ≤ c ∧ c ≤ '9' then some (c.toNat - '0'.toNat)
  else if 'a' ≤ c ∧ c ≤ 'f' then some (c.toNat - 'a'.toNat + 10)
  else if 'A' ≤ c ∧ c ≤ 'F' then some (c.toNat - 'A'.toNat + 10)
  else none

/-- Where in a quoted word the reader stands. -/
inductive Quoting.Mode
  | plain
  | escape
  /-- Inside of a number, with the digits that are missing after the next one. -/
  | hex (more value : Nat)
  /-- After a carriage return that continues the line. -/
  | carriage

/-- The numbers that a quoted word spells: of characters, or of halves of characters. -/
def Quoting.codes? (quoting : Quoting) : Quoting.Mode → Text → Option (List Nat)
  | .plain, [] => some []
  | .carriage, [] => some []
  | .escape, [] => none
  | .hex _ _, [] => none
  | .escape, c :: rest =>
      match quoting.escape? c with
      | some (.stands meant) => (codes? quoting .plain rest).map (meant.toNat :: ·)
      | some (.hex (more + 1)) => codes? quoting (.hex more 0) rest
      | some .continues => codes? quoting .plain rest
      | some .carriage => codes? quoting .carriage rest
      | _ => none
  | .hex more value, c :: rest =>
      match hexValue? c, more with
      | some digit, 0 => (codes? quoting .plain rest).map ((value * 16 + digit) :: ·)
      | some digit, more + 1 => codes? quoting (.hex more (value * 16 + digit)) rest
      | none, _ => none
  | .carriage, c :: rest =>
      if c = '\n' then codes? quoting .plain rest
      else if c = '\\' then codes? quoting .escape rest
      else if quoting.isPlain c then (codes? quoting .plain rest).map (c.toNat :: ·)
      else none
  | .plain, c :: rest =>
      if c = '\\' then codes? quoting .escape rest
      else if quoting.isPlain c then (codes? quoting .plain rest).map (c.toNat :: ·)
      else none

/-- Whether a number is the first half of a character. -/
def isHighHalf (code : Nat) : Bool := 0xD800 ≤ code && code ≤ 0xDBFF

/-- Whether a number is the second half of a character. -/
def isLowHalf (code : Nat) : Bool := 0xDC00 ≤ code && code ≤ 0xDFFF

/-- The text of a row of numbers: each first half has to be followed by a second half, which
stands nowhere else, and `pair` says which character the two make. -/
def joinHalves? (pair : Nat → Nat → Nat) : List Nat → Option Text
  | [] => some []
  | [code] => if isHighHalf code || isLowHalf code then none else some [Char.ofNat code]
  | code :: next :: rest =>
      if isHighHalf code then
        if isLowHalf next then
          (joinHalves? pair rest).map (Char.ofNat (pair code next) :: ·)
        else none
      else if isLowHalf code then none
      else (joinHalves? pair (next :: rest)).map (Char.ofNat code :: ·)

end PathAlias.Json
