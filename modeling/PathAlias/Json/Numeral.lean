import PathAlias.Text

/-!
# Decimal numerals

A numeral is its digits before and after the point and its exponent. Numbers are never computed
with here, but a numeral may be too large to be a number: a double precision number is finite as
long as it rounds to something below `2 ^ 1024`, that is, lies below `overflowBound`.
-/

namespace PathAlias.Json

/-- The exponent of a numeral. -/
structure Exponent where
  negative : Bool
  digits : Text

/-- An unsigned decimal numeral. -/
structure Numeral where
  whole : Text
  fraction : Option Text
  exponent : Option Exponent

def digitsValue (digits : Text) : Nat :=
  digits.foldl (fun value c => value * 10 + (c.toNat - '0'.toNat)) 0

namespace Numeral

def exponent? : Text → Option Exponent
  | '-' :: digits => if digits.all Char.isDigit then some ⟨true, digits⟩ else none
  | '+' :: digits => if digits.all Char.isDigit then some ⟨false, digits⟩ else none
  | digits => if digits.all Char.isDigit then some ⟨false, digits⟩ else none

def tail? (whole : Text) (fraction : Option Text) : Text → Option Numeral
  | [] => some ⟨whole, fraction, none⟩
  | c :: rest =>
      if c = 'e' || c = 'E' then (exponent? rest).map fun e => ⟨whole, fraction, some e⟩
      else none

/-- Reads a numeral. Digits may be missing anywhere; what may be missing is for the dialect. -/
def ofText? (t : Text) : Option Numeral :=
  let whole := t.takeWhile Char.isDigit
  match t.dropWhile Char.isDigit with
  | '.' :: rest =>
      tail? whole (some (rest.takeWhile Char.isDigit)) (rest.dropWhile Char.isDigit)
  | rest => tail? whole none rest

/-- Whether the digits before the point write a number without superfluous zeros. -/
def wholeIsPlain (n : Numeral) : Bool :=
  match n.whole with
  | [] => false
  | [_] => true
  | c :: _ => c != '0'

def exponentIsComplete (n : Numeral) : Bool :=
  match n.exponent with
  | some e => e.digits != []
  | none => true

def exponentValue (n : Numeral) : Int :=
  match n.exponent with
  | some e => if e.negative then -(digitsValue e.digits : Int) else digitsValue e.digits
  | none => 0

/-- The least positive number that rounds to infinity. -/
def overflowBound : Nat := Nat.pow 2 1024 - Nat.pow 2 970

/-- Whether the number that is written rounds to infinity. The number of digits settles all but
the close cases, so that no power of ten is computed that is not needed. -/
def overflows (n : Numeral) : Bool :=
  let fraction := n.fraction.getD []
  let significant := (n.whole ++ fraction).dropWhile (· == '0')
  let scale : Int := n.exponentValue - fraction.length
  let magnitude : Int := significant.length + scale
  if significant = [] || magnitude ≤ 308 then false
  else if 310 ≤ magnitude then true
  else
    let value := digitsValue significant
    match scale with
    | .ofNat up => overflowBound ≤ value * Nat.pow 10 up
    | .negSucc down => overflowBound * Nat.pow 10 (down + 1) ≤ value

/-- The nearest number with at most 53 binary digits, the even one of two. -/
def roundToDouble (n : Nat) : Nat :=
  if n < Nat.pow 2 53 then n
  else
    let shift := Nat.log2 n - 52
    let kept := n / Nat.pow 2 shift
    let lost := n % Nat.pow 2 shift
    let half := Nat.pow 2 (shift - 1)
    if half < lost || (lost == half && kept % 2 == 1) then (kept + 1) * Nat.pow 2 shift
    else kept * Nat.pow 2 shift

/-- Appends digits to a number as long as it stays below `2 ^ 64`; gives the number and the
digits that are left. -/
def takeFitting : Nat → Text → Nat × Text
  | value, [] => (value, [])
  | value, c :: rest =>
      let next := value * 10 + (c.toNat - '0'.toNat)
      if next < Nat.pow 2 64 then takeFitting next rest else (value, c :: rest)

/-- Whether the number that a quick reader makes of the numeral is infinite. It keeps the leading
digits that fit into 64 bits, rounds them, and multiplies by a rounded power of ten. An exponent
that does not fit into 31 bits is refused unless it makes the number smaller. -/
def overflowsQuickly (n : Numeral) : Bool :=
  let fraction := n.fraction.getD []
  let whole := takeFitting 0 n.whole
  let all := takeFitting whole.1 fraction
  let scale : Int := whole.2.length - (fraction.length - all.2.length : Nat)
  if all.1 = 0 then false
  else if Int.ofNat (Nat.pow 2 31) ≤ n.exponentValue then true
  else
    match scale + n.exponentValue with
    | .negSucc _ => false
    | .ofNat up =>
        if 308 < up then true
        else overflowBound ≤ roundToDouble all.1 * roundToDouble (Nat.pow 10 up)

end Numeral

end PathAlias.Json
