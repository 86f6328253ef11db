import PathAlias.Json.Strict

/-!
# Printing JSON

Values are printed over several lines, two spaces deeper for each container around them; an empty
container stays on its line. Only what has to be escaped is.
-/

namespace PathAlias.Json

def hexDigit (n : Nat) : Char :=
  if n < 10 then Char.ofNat ('0'.toNat + n) else Char.ofNat ('a'.toNat + (n - 10))

def escaped (c : Char) : Text :=
  if c = '\x22' then ['\\', '\x22']
  else if c = '\\' then ['\\', '\\']
  else if c = '\x08' then ['\\', 'b']
  else if c = '\x0c' then ['\\', 'f']
  else if c = '\n' then ['\\', 'n']
  else if c = '\r' then ['\\', 'r']
  else if c = '\t' then ['\\', 't']
  else if c.toNat < 0x20 then
    ['\\', 'u', '0', '0', hexDigit (c.toNat / 16), hexDigit (c.toNat % 16)]
  else [c]

def quote (t : Text) : Text := '\x22' :: t.flatMap escaped ++ ['\x22']

def Scalar.text : Scalar → Text
  | .null => "null"
  | .bool true => "true"
  | .bool false => "false"
  | .number literal => literal
  | .string t => quote t

def indentation (depth : Nat) : Text := List.replicate (2 * depth) ' '

/-- The parts of a container between its brackets, each on a line of its own. -/
def bracket (opening closing : Char) (depth : Nat) (parts : List Text) : Text :=
  match parts with
  | [] => [opening, closing]
  | _ =>
      let lines := parts.map fun part => indentation (depth + 1) ++ part
      opening :: '\n' :: joinWith ",\n" lines ++ '\n' :: indentation depth ++ [closing]

mutual

def print (depth : Nat) : Value → Text
  | .leaf scalar => scalar.text
  | .array items => bracket '[' ']' depth (printItems (depth + 1) items)
  | .object members => bracket '\x7b' '\x7d' depth (printMembers (depth + 1) members)

def printItems (depth : Nat) : List Value → List Text
  | [] => []
  | item :: rest => print depth item :: printItems depth rest

def printMembers (depth : Nat) : List (Text × Value) → List Text
  | [] => []
  | (key, value) :: rest =>
      (quote key ++ ':' :: ' ' :: print depth value) :: printMembers depth rest

end

def pretty (value : Value) : Text := print 0 value

namespace Value

def ofString (t : Text) : Value := .leaf (.string t)

def ofOptional : Option Text → Value
  | some t => ofString t
  | none => .leaf .null

def ofBool (b : Bool) : Value := .leaf (.bool b)

def ofNat (n : Nat) : Value := .leaf (.number (Nat.toDigits 10 n))

def ofStrings (ts : List Text) : Value := .array (ts.map ofString)

end Value

end PathAlias.Json
