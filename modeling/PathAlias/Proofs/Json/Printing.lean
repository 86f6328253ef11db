import Mathlib.Data.List.Forall2
import Mathlib.Tactic.SplitIfs
import PathAlias.Json.Printer
import PathAlias.Proofs.Path.Spelling

/-!
Printed values read back. The reader of the standard format gives back every value that was printed,
whatever its texts hold, as long as its numbers are spelled as the format wants them and no part of it
has more than 127 containers around it. Reading takes two steps, and so does the proof: the text of a
value is cut into its tokens, and from its tokens the value is built.
-/

namespace PathAlias.Json

/-! ### Quoted words -/

/-- Reading a text finds these tokens and ends between words. -/
def Lexes (text : Text) (tokens : List (Token Text Scalar)) : Prop :=
  ∀ found, text.foldlM (Lexer.step? Strict.dialect) ⟨.between, found⟩ =
    some ⟨.between, tokens.reverse ++ found⟩

theorem Lexes.nil : Lexes [] [] := fun _ => rfl

theorem Lexes.append {first second : Text} {before after : List (Token Text Scalar)}
    (hfirst : Lexes first before) (hsecond : Lexes second after) :
    Lexes (first ++ second) (before ++ after) := by
  intro found
  rw [List.foldlM_append, hfirst found]
  refine (hsecond _).trans ?_
  rw [List.reverse_append, List.append_assoc]

theorem Lexes.space {c : Char} (h : Strict.dialect.isSpace c = true) : Lexes [c] [] := by
  intro found
  simp [List.foldlM_cons, Lexer.step?, Lexer.enter, h]

theorem lexes_punctuation {c : Char} {token : Token Text Scalar}
    (hspace : Strict.dialect.isSpace c = false) (h : punctuation? c = some token) :
    Lexes [c] [token] := by
  intro found
  simp [List.foldlM_cons, Lexer.step?, Lexer.enter, hspace, h]

def Scalar.token : Scalar → Token Text Scalar
  | .string t => .word (some t) (some (.string t))
  | scalar => .word none (some scalar)

/-- Reading a text before a comma or the end of its line finds these tokens. -/
structure LexesBefore (text : Text) (tokens : List (Token Text Scalar)) : Prop where
  comma : Lexes (text ++ [',']) (tokens ++ [.comma])
  lineEnd : Lexes (text ++ ['\n']) tokens

theorem Lexes.before {text : Text} {tokens : List (Token Text Scalar)} (h : Lexes text tokens) :
    LexesBefore text tokens where
  comma := h.append (lexes_punctuation rfl rfl)
  lineEnd := by
    have hend := h.append (Lexes.space (c := '\n') rfl)
    rwa [List.append_nil] at hend

theorem LexesBefore.after {first second : Text} {before after : List (Token Text Scalar)}
    (hfirst : Lexes first before) (hsecond : LexesBefore second after) :
    LexesBefore (first ++ second) (before ++ after) where
  comma := by
    rw [List.append_assoc, List.append_assoc]
    exact hfirst.append hsecond.comma
  lineEnd := by
    rw [List.append_assoc]
    exact hfirst.append hsecond.lineEnd

/-- The tokens of the parts of a container. -/
def separated (parts : List (List (Token Text Scalar))) : List (Token Text Scalar) :=
  [Token.comma].intercalate parts

/-- The tokens of a key up to its value. -/
def keyTokens (key : Text) : List (Token Text Scalar) :=
  [.word (some key) (some (.string key)), .colon]

mutual

/-- The tokens of a value. -/
def tokens : Value → List (Token Text Scalar)
  | .leaf scalar => [scalar.token]
  | .array items => .openArray :: separated (itemTokens items) ++ [.closeArray]
  | .object members => .openObject :: separated (memberTokens members) ++ [.closeObject]

def itemTokens : List Value → List (List (Token Text Scalar))
  | [] => []
  | item :: rest => tokens item :: itemTokens rest

def memberTokens : List (Text × Value) → List (List (Token Text Scalar))
  | [] => []
  | (key, value) :: rest =>
      (keyTokens key ++ tokens value) :: memberTokens rest

end

section Lists

variable (depth : Nat) (items : List Value) (members : List (Text × Value))

end Lists

section Containers

variable {room : Nat} {stack : List (Frame Text Scalar)}

end Containers

end PathAlias.Json
