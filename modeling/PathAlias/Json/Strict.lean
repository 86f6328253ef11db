import PathAlias.Json.Lexer
import PathAlias.Json.Numeral
import PathAlias.Json.Quoted

/-!
# JSON

Values of the standard data format and the reader for its texts. The reader accepts exactly the
standard grammar, with at most 127 containers around any value and no number that is too large to
be finite. Numbers keep their spelling.
-/

namespace PathAlias.Json

/-- A value without parts. -/
inductive Scalar
  | null
  | bool (value : Bool)
  | number (literal : Text)
  | string (text : Text)
  deriving DecidableEq

abbrev Value := Tree Text Scalar

instance : Inhabited Value := ⟨.leaf .null⟩

def Value.string? : Value → Option Text
  | .leaf (.string text) => some text
  | _ => none

namespace Strict

/-- Inside of quotes there are no control characters, and few escapes. -/
def quoting : Quoting where
  isPlain c := 0x20 ≤ c.toNat
  escape?
    | '\x22' => some (.stands '\x22')
    | '\\' => some (.stands '\\')
    | '/' => some (.stands '/')
    | 'b' => some (.stands '\x08')
    | 'f' => some (.stands '\x0c')
    | 'n' => some (.stands '\n')
    | 'r' => some (.stands '\r')
    | 't' => some (.stands '\t')
    | 'u' => some (.hex 4)
    | _ => none

def pair (high low : Nat) : Nat := 0x10000 + (high - 0xD800) * 0x400 + (low - 0xDC00)

def string? (raw : Text) : Option Text := (quoting.codes? .plain raw).bind (joinHalves? pair)

/-- Whether an unsigned numeral is spelled as the standard wants it and not too large. -/
def isNumeral (t : Text) : Bool :=
  match Numeral.ofText? t with
  | some n =>
      n.wholeIsPlain && n.fraction != some [] && n.exponentIsComplete && !n.overflowsQuickly
  | none => false

def scalar? (word : Text) : Option Scalar :=
  if word = "null" then some .null
  else if word = "true" then some (.bool true)
  else if word = "false" then some (.bool false)
  else
    match word with
    | '-' :: t => if isNumeral t then some (.number word) else none
    | t => if isNumeral t then some (.number word) else none

def dialect : Dialect Text Scalar where
  trailingComma := false
  maxDepth := some 127
  isSpace c := c == ' ' || c == '\t' || c == '\n' || c == '\r'
  isQuote c := c == '\x22'
  comments := false
  quoted? raw := (string? raw).map fun t => .word (some t) (some (.string t))
  bare? word := (scalar? word).map fun s => .word none (some s)

end Strict

/-- The value that a text of the standard format spells. -/
def Value.ofText? (source : Text) : Option Value := Strict.dialect.read? source

end PathAlias.Json
