import PathAlias.Manifest

/-!
# Lookups

A lookup is a computation that asks questions about files one after the other and goes on with
each answer. It does not know who answers: a file system of any effect can, and the questions a
lookup asks are determined by the answers it gets. An error instead of an answer ends it.
-/

namespace PathAlias

/-- What a lookup may ask. -/
inductive Question
  /-- Is there a regular file at this path? -/
  | file (path : Text)
  /-- What does the package manifest at this path say, if there is one? -/
  | manifest (path : Text)
  deriving DecidableEq

abbrev Question.Answer : Question → Type
  | .file _ => Bool
  | .manifest _ => Option Manifest

def Question.path : Question → Text
  | .file path => path
  | .manifest path => path

/-- A computation that asks questions and ends with an outcome. -/
inductive Lookup (α : Type) : Type
  | done (outcome : α)
  | ask (question : Question) (next : question.Answer → Lookup α)

/-- Whoever answers questions, with the effects `m`. -/
abbrev FileSystem (m : Type → Type) := (question : Question) → m (Except Error question.Answer)

namespace Lookup

variable {α β : Type}

/-- A lookup that goes on with what another one ends with. -/
def bind (lookup : Lookup α) (next : α → Lookup β) : Lookup β :=
  match lookup with
  | .done outcome => next outcome
  | .ask question rest => .ask question fun answer => (rest answer).bind next

/-- Tries the members of a list in order until one gives something. -/
def firstSome (probe : β → Lookup (Option α)) : List β → Lookup (Option α)
  | [] => .done none
  | first :: rest => (probe first).bind fun found =>
      match found with
      | some hit => .done (some hit)
      | none => firstSome probe rest

/-- Asks a file system all questions, each one after the answer to the one before. -/
def run {m : Type → Type} [Monad m] (fs : FileSystem m) : Lookup α → m (Except Error α)
  | .done outcome => pure (.ok outcome)
  | .ask question next => do
      match ← fs question with
      | .ok answer => (next answer).run fs
      | .error e => pure (.error e)

/-- The questions that are asked when the answers are fixed, in order. -/
def asked (fs : FileSystem Id) : Lookup α → List Question
  | .done _ => []
  | .ask question next =>
      question ::
        match fs question with
        | .ok answer => (next answer).asked fs
        | .error _ => []

end Lookup

end PathAlias
