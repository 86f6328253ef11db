import PathAlias.Identifier
import PathAlias.Json.Strict

/-!
# Relaxed JSON

The dialect of configuration files: comments, commas before closing brackets, unquoted keys, both
kinds of quotes, and more spellings of numbers. Reading takes two steps. The text has to follow
the grammar everywhere, but the words in it are only looked into where somebody asks for their
value; a number out of range or half of a character does no harm in a place nobody looks at.
-/

namespace PathAlias.Json.Relaxed

/-- What a number consists of after its sign. -/
inductive Magnitude
  /-- Infinity, or not a number. -/
  | special
  | hex (digits : Text)
  | decimal (numeral : Numeral)

/-- A number as it is spelled. -/
structure Number where
  sign : Option Char
  magnitude : Magnitude
  literal : Text

/-- A value without parts, as the grammar sees it. -/
inductive Leaf
  | null
  | bool (value : Bool)
  | number (number : Number)
  /-- A quoted word with the numbers that it spells. -/
  | quoted (codes : List Nat)

/-- A value as the grammar sees it; a key is the row of numbers that it spells. -/
abbrev Source := Tree (List Nat) Leaf

/-- The characters that separate tokens: spaces of all scripts, line ends and the mark of byte
order. -/
def isSpace (c : Char) : Bool :=
  ('\t' ≤ c && c ≤ '\r') || c == ' ' || c == '\u00A0' || c == '\u1680'
    || ('\u2000' ≤ c && c ≤ '\u200A') || c == '\u2028' || c == '\u2029' || c == '\u202F'
    || c == '\u205F' || c == '\u3000' || c == '\uFEFF'

/-- Inside of quotes only the ends of lines have to be escaped, and nearly every character may
be. -/
def quoting : Quoting where
  isPlain c := !isLineEnd c
  escape?
    | 'b' => some (.stands '\x08')
    | 'f' => some (.stands '\x0c')
    | 'n' => some (.stands '\n')
    | 'r' => some (.stands '\r')
    | 't' => some (.stands '\t')
    | 'v' => some (.stands '\x0b')
    | '0' => some (.stands '\x00')
    | 'x' => some (.hex 2)
    | 'u' => some (.hex 4)
    | '\r' => some .carriage
    | c =>
        if isLineEnd c then some .continues
        else if c.isDigit then none
        else some (.stands c)

/-- An unquoted key may spell its characters as numbers. -/
def naming : Quoting where
  isPlain := Identifier.isPart
  escape? c := if c = 'u' then some (.hex 4) else none

def identifier? (word : Text) : Option (List Nat) :=
  match word with
  | [] => none
  | c :: _ =>
      if c = '\\' || Identifier.isStart c then naming.codes? .plain word else none

/-- The character that two halves make. The bits of the halves are united, not added, so that
beyond the second plane two pairs may make the same character. -/
def pair (high low : Nat) : Nat := ((high - 0xD800) <<< 10) ||| ((low - 0xDC00) + 0x10000)

/-- Whether a numeral is spelled as the dialect wants it. -/
def isDecimal (n : Numeral) : Bool :=
  let isWhole := n.wholeIsPlain || (n.whole = [] && n.fraction.any (· ≠ []))
  isWhole && n.exponentIsComplete

def magnitude? (t : Text) : Option Magnitude :=
  if t = "Infinity" || t = "NaN" then some .special
  else
    match t with
    | '0' :: x :: digits =>
        if (x = 'x' || x = 'X') && digits ≠ [] && digits.all fun c => (hexValue? c).isSome then
          some (.hex digits)
        else decimal? t
    | _ => decimal? t
where
  decimal? (t : Text) : Option Magnitude :=
    (Numeral.ofText? t).bind fun n => if isDecimal n then some (.decimal n) else none

def number? (word : Text) : Option Number :=
  match word with
  | [] => none
  | c :: rest =>
      if c = '+' || c = '-' then (magnitude? rest).map fun m => ⟨some c, m, word⟩
      else (magnitude? word).map fun m => ⟨none, m, word⟩

def leaf? (word : Text) : Option Leaf :=
  if word = "null" then some .null
  else if word = "true" then some (.bool true)
  else if word = "false" then some (.bool false)
  else (number? word).map .number

def dialect : Dialect (List Nat) Leaf where
  trailingComma := true
  maxDepth := none
  isSpace := isSpace
  isQuote c := c == '\x22' || c == '\x27'
  comments := true
  quoted? raw :=
    (quoting.codes? .plain raw).map fun codes => .word (some codes) (some (.quoted codes))
  bare? word :=
    match identifier? word, leaf? word with
    | none, none => none
    | key, value => some (.word key value)

def hexValue (digits : Text) : Nat :=
  digits.foldl (fun value c => value * 16 + (hexValue? c).getD 0) 0

/-- Whether a number is in range. A number without point and exponent is a whole number of 64
bits with a sign, or without a sign in hexadecimal one of 32 bits; a plus sign does not go with a
number that is no numeral. -/
def Number.isInRange (number : Number) : Bool :=
  match number.magnitude with
  | .special => number.sign != some '+'
  | .hex digits => number.sign.isNone && hexValue digits < Nat.pow 2 32
  | .decimal n =>
      if n.fraction.isSome || n.exponent.isSome then !n.overflows
      else if number.sign = some '-' then digitsValue n.whole ≤ Nat.pow 2 63
      else digitsValue n.whole < Nat.pow 2 63

def keyName? (codes : List Nat) : Option Text := joinHalves? pair codes

def Leaf.scalar? : Leaf → Option Scalar
  | .null => some .null
  | .bool value => some (.bool value)
  | .number n => if n.isInRange then some (.number n.literal) else none
  | .quoted codes => (joinHalves? pair codes).map .string

/-- The value that a source spells, if all of it has one. -/
def value? (source : Source) : Option Value := source.decode? keyName? Leaf.scalar?

/-- What a text spells in the relaxed dialect, as the grammar sees it. -/
def ofText? (text : Text) : Option Source := dialect.read? text

end PathAlias.Json.Relaxed
