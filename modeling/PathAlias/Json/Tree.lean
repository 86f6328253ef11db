import PathAlias.Text

/-!
# Trees of values and their tokens

A JSON text is a row of tokens, and a row of tokens is at most one tree. The tree is built by a
machine that reads one token at a time and keeps the containers it is inside of on a stack. What
words may stand for is left open: a word comes with its reading as a key and its reading as a
value, so one machine serves every dialect.
-/

namespace PathAlias.Json

/-- A value whose keys are of type `κ` and whose leaves are of type `ν`. -/
inductive Tree (κ ν : Type)
  | leaf (value : ν)
  | array (items : List (Tree κ ν))
  /-- Keys with their values, in order and as often as they are written. -/
  | object (members : List (κ × Tree κ ν))

/-- What a text is made of once spaces and comments are gone. -/
inductive Token (κ ν : Type)
  | openArray
  | closeArray
  | openObject
  | closeObject
  | comma
  | colon
  /-- A word and what it means as a key and as a value, where it may stand as such. -/
  | word (asKey : Option κ) (asValue : Option ν)

/-- What a dialect leaves open about containers. -/
structure Nesting where
  trailingComma : Bool
  maxDepth : Option Nat

/-- A container that is being read, with its parts so far, last first. -/
inductive Frame (κ ν : Type)
  | item (before : List (Tree κ ν))
  | member (before : List (κ × Tree κ ν)) (key : κ)

/-- How far the machine has come; the stack holds the containers around it, innermost first. -/
inductive Partial (κ ν : Type)
  | value (stack : List (Frame κ ν))
  /-- An item or the end of the array has to follow. -/
  | item (before : List (Tree κ ν)) (stack : List (Frame κ ν))
  /-- A comma or the end of the array has to follow. -/
  | afterItem (before : List (Tree κ ν)) (stack : List (Frame κ ν))
  /-- A key has to follow or, if the object may end here, its end. -/
  | key (before : List (κ × Tree κ ν)) (mayEnd : Bool) (stack : List (Frame κ ν))
  | colon (before : List (κ × Tree κ ν)) (key : κ) (stack : List (Frame κ ν))
  /-- A comma or the end of the object has to follow. -/
  | afterMember (before : List (κ × Tree κ ν)) (stack : List (Frame κ ν))
  /-- The tree is complete and nothing may follow. -/
  | complete (tree : Tree κ ν)

variable {κ ν : Type}

/-- Whether one more container may be opened inside of those on the stack. -/
def Nesting.admits (nesting : Nesting) (stack : List (Frame κ ν)) : Bool :=
  match nesting.maxDepth with
  | some limit => stack.length < limit
  | none => true

namespace Partial

/-- A finished value goes to the container that waits for it. -/
def deliver (tree : Tree κ ν) : List (Frame κ ν) → Partial κ ν
  | [] => .complete tree
  | .item before :: stack => .afterItem (tree :: before) stack
  | .member before name :: stack => .afterMember ((name, tree) :: before) stack

def begin? (nesting : Nesting) (stack : List (Frame κ ν)) : Token κ ν → Option (Partial κ ν)
  | .openArray => if nesting.admits stack then some (.item [] stack) else none
  | .openObject => if nesting.admits stack then some (.key [] true stack) else none
  | .word _ (some leaf) => some (deliver (.leaf leaf) stack)
  | _ => none

def step? (nesting : Nesting) : Partial κ ν → Token κ ν → Option (Partial κ ν)
  | .value stack, token => begin? nesting stack token
  | .item before stack, .closeArray => some (deliver (.array before.reverse) stack)
  | .item before stack, token => begin? nesting (.item before :: stack) token
  | .afterItem before stack, .comma =>
      if nesting.trailingComma then some (.item before stack)
      else some (.value (.item before :: stack))
  | .afterItem before stack, .closeArray => some (deliver (.array before.reverse) stack)
  | .key before true stack, .closeObject => some (deliver (.object before.reverse) stack)
  | .key before _ stack, .word (some name) _ => some (.colon before name stack)
  | .colon before name stack, .colon => some (.value (.member before name :: stack))
  | .afterMember before stack, .comma => some (.key before nesting.trailingComma stack)
  | .afterMember before stack, .closeObject => some (deliver (.object before.reverse) stack)
  | _, _ => none

end Partial

/-- The tree that a row of tokens spells, if it spells exactly one. -/
def Tree.ofTokens? (nesting : Nesting) (tokens : List (Token κ ν)) : Option (Tree κ ν) :=
  match tokens.foldlM (Partial.step? nesting) (.value []) with
  | some (.complete tree) => some tree
  | _ => none

mutual

/-- A tree with its keys and leaves read further; every one of them has to be readable. -/
def Tree.decode? {κ' ν' : Type} (key? : κ → Option κ') (leaf? : ν → Option ν') :
    Tree κ ν → Option (Tree κ' ν')
  | .leaf value => (leaf? value).map .leaf
  | .array items => (decodeItems? key? leaf? items).map .array
  | .object members => (decodeMembers? key? leaf? members).map .object

def Tree.decodeItems? {κ' ν' : Type} (key? : κ → Option κ') (leaf? : ν → Option ν') :
    List (Tree κ ν) → Option (List (Tree κ' ν'))
  | [] => some []
  | item :: rest => do
      let first ← item.decode? key? leaf?
      let others ← decodeItems? key? leaf? rest
      return first :: others

def Tree.decodeMembers? {κ' ν' : Type} (key? : κ → Option κ') (leaf? : ν → Option ν') :
    List (κ × Tree κ ν) → Option (List (κ' × Tree κ' ν'))
  | [] => some []
  | (key, value) :: rest => do
      let name ← key? key
      let first ← value.decode? key? leaf?
      let others ← decodeMembers? key? leaf? rest
      return (name, first) :: others

end

end PathAlias.Json
