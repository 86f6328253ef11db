import PathAlias.Json.Tree

/-!
# Tokens of a text

A text is cut into tokens character by character. The dialect says which characters are spaces
and quotes, whether there are comments, and what a quoted and an unquoted word mean; everything
between spaces, brackets, commas, colons, quotes and comments is one unquoted word.
-/

namespace PathAlias.Json

/-- What a dialect of JSON decides. -/
structure Dialect (κ ν : Type) extends Nesting where
  isSpace : Char → Bool
  isQuote : Char → Bool
  /-- Whether a slash opens a comment. -/
  comments : Bool
  quoted? : Text → Option (Token κ ν)
  bare? : Text → Option (Token κ ν)

variable {κ ν : Type}

/-- The token that a bracket, a comma or a colon is. -/
def punctuation? : Char → Option (Token κ ν)
  | '[' => some .openArray
  | ']' => some .closeArray
  | '\x7b' => some .openObject
  | '\x7d' => some .closeObject
  | ',' => some .comma
  | ':' => some .colon
  | _ => none

/-- Whether a character ends a line and with it a comment. -/
def isLineEnd (c : Char) : Bool := c == '\n' || c == '\r' || c == '\u2028' || c == '\u2029'

/-- What the lexer is in the middle of; characters already read stand last first. -/
inductive Lexer.Mode
  | between
  | bare (read : Text)
  | quoted (quote : Char) (read : Text)
  /-- Inside of a quoted word, right after a backslash. -/
  | escaped (quote : Char) (read : Text)
  | slash
  /-- Inside of a comment that ends with the line. -/
  | line
  /-- Inside of a comment that has to be closed. -/
  | block
  /-- Inside of such a comment, right after a star. -/
  | star

/-- The mode of a lexer and the tokens it has found, last first. -/
structure Lexer (κ ν : Type) where
  mode : Lexer.Mode
  /-- The tokens so far, last first. -/
  found : List (Token κ ν)

namespace Lexer

def enter (dialect : Dialect κ ν) (found : List (Token κ ν)) (c : Char) : Lexer κ ν :=
  if dialect.isSpace c then ⟨.between, found⟩
  else
    match punctuation? c with
    | some token => ⟨.between, token :: found⟩
    | none =>
        if dialect.isQuote c then ⟨.quoted c [], found⟩
        else if dialect.comments && c == '/' then ⟨.slash, found⟩
        else ⟨.bare [c], found⟩

def step? (dialect : Dialect κ ν) (lexer : Lexer κ ν) (c : Char) : Option (Lexer κ ν) :=
  match lexer.mode with
  | .between => some (enter dialect lexer.found c)
  | .bare read =>
      match (enter dialect lexer.found c).mode with
      | .bare _ => some ⟨.bare (c :: read), lexer.found⟩
      | _ => (dialect.bare? read.reverse).map fun word => enter dialect (word :: lexer.found) c
  | .quoted quote read =>
      if c = quote then
        (dialect.quoted? read.reverse).map fun word => ⟨.between, word :: lexer.found⟩
      else if c = '\\' then some ⟨.escaped quote (c :: read), lexer.found⟩
      else some ⟨.quoted quote (c :: read), lexer.found⟩
  | .escaped quote read => some ⟨.quoted quote (c :: read), lexer.found⟩
  | .slash =>
      if c = '/' then some ⟨.line, lexer.found⟩
      else if c = '*' then some ⟨.block, lexer.found⟩
      else none
  | .line => some ⟨if isLineEnd c then .between else .line, lexer.found⟩
  | .block => some ⟨if c = '*' then .star else .block, lexer.found⟩
  | .star =>
      some ⟨if c = '/' then .between else if c = '*' then .star else .block, lexer.found⟩

/-- The tokens at the end of the text, first to last. -/
def finish? (dialect : Dialect κ ν) (lexer : Lexer κ ν) : Option (List (Token κ ν)) :=
  match lexer.mode with
  | .between => some lexer.found.reverse
  | .line => some lexer.found.reverse
  | .bare read => (dialect.bare? read.reverse).map fun word => (word :: lexer.found).reverse
  | _ => none

end Lexer

def Dialect.tokens? (dialect : Dialect κ ν) (source : Text) : Option (List (Token κ ν)) :=
  (source.foldlM (Lexer.step? dialect) ⟨.between, []⟩).bind (Lexer.finish? dialect)

def Dialect.read? (dialect : Dialect κ ν) (source : Text) : Option (Tree κ ν) :=
  (dialect.tokens? source).bind (Tree.ofTokens? dialect.toNesting)

end PathAlias.Json
