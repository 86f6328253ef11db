import PathAlias.Text

/-!
# Bytes as UTF-8

A text is spelled in bytes. The other way round every row of bytes has a text: well-formed sequences give their character, and each maximal part
that begins a sequence but does not complete one gives one replacement character. A byte order
mark at the very beginning is no part of the text. The reader is a machine with two kinds of
states, between sequences and inside one.
-/

namespace PathAlias.Utf8

/-- The bytes that spell a text. -/
def encode (t : Text) : List UInt8 := t.flatMap String.utf8EncodeChar

/-- The character written for bytes that are no UTF-8. -/
def replacement : Char := '\uFFFD'

/-- Inside a sequence: the bits so far, how many bytes are missing, and the range in which the
next byte has to lie. -/
structure Pending where
  bits : Nat
  /-- How many more bytes follow the next one. -/
  more : Nat
  low : Nat
  high : Nat

/-- What the first byte of a sequence says. -/
inductive Lead
  | single (c : Char)
  | opens (pending : Pending)
  | invalid

/-- Reads the first byte of a sequence. The range of the second byte excludes overlong forms,
surrogates and values above the last character. -/
def lead (byte : Nat) : Lead :=
  if byte < 0x80 then .single (Char.ofNat byte)
  else if byte < 0xC2 then .invalid
  else if byte < 0xE0 then .opens ⟨byte - 0xC0, 0, 0x80, 0xBF⟩
  else if byte = 0xE0 then .opens ⟨byte - 0xE0, 1, 0xA0, 0xBF⟩
  else if byte = 0xED then .opens ⟨byte - 0xE0, 1, 0x80, 0x9F⟩
  else if byte < 0xF0 then .opens ⟨byte - 0xE0, 1, 0x80, 0xBF⟩
  else if byte = 0xF0 then .opens ⟨byte - 0xF0, 2, 0x90, 0xBF⟩
  else if byte < 0xF4 then .opens ⟨byte - 0xF0, 2, 0x80, 0xBF⟩
  else if byte = 0xF4 then .opens ⟨byte - 0xF0, 2, 0x80, 0x8F⟩
  else .invalid

/-- The text of the bytes that follow, in the state between sequences or inside one. -/
def read : Option Pending → List UInt8 → Text
  | none, [] => []
  | some _, [] => [replacement]
  | none, byte :: rest =>
      match lead byte.toNat with
      | .single c => c :: read none rest
      | .opens pending => read (some pending) rest
      | .invalid => replacement :: read none rest
  | some pending, byte :: rest =>
      if pending.low ≤ byte.toNat ∧ byte.toNat ≤ pending.high then
        let bits := pending.bits * 64 + (byte.toNat - 0x80)
        match pending.more with
        | 0 => Char.ofNat bits :: read none rest
        | more + 1 => read (some ⟨bits, more, 0x80, 0xBF⟩) rest
      else
        replacement ::
          match lead byte.toNat with
          | .single c => c :: read none rest
          | .opens opened => read (some opened) rest
          | .invalid => replacement :: read none rest

/-- The text that bytes spell, if they spell one. -/
def text? (bytes : List UInt8) : Option Text :=
  let t := read none bytes
  if encode t = bytes then some t else none

/-- The bytes without a leading byte order mark. -/
def dropMark : List UInt8 → List UInt8
  | 0xEF :: 0xBB :: 0xBF :: rest => rest
  | bytes => bytes

/-- The text that the bytes of a file stand for. -/
def decode (bytes : List UInt8) : Text := read none (dropMark bytes)

end PathAlias.Utf8
