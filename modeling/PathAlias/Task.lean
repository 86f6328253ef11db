import PathAlias.Lookup

/-!
# Suspended lookups

A lookup may wait for its answers instead of blocking. It is then a task that moves in single
steps: it asks its next question, or is given the answer it waits for, or completes and reports
its outcome. Any number of tasks can share one file system; a schedule says which task moves
next, and the log of a pool says what happened in which order.
-/

namespace PathAlias

/-- What a step of a task does. -/
inductive Event (α : Type)
  | asked (question : Question)
  | answered (question : Question)
  /-- The outcome is reported to whoever waits for it. -/
  | completed (outcome : Except Error α)

def Event.question? {α : Type} : Event α → Option Question
  | .asked question => some question
  | _ => none

def Event.outcome? {α : Type} : Event α → Option (Except Error α)
  | .completed outcome => some outcome
  | _ => none

/-- A lookup between two steps. -/
inductive Task (α : Type)
  /-- Nothing is outstanding and this is left to do. -/
  | ready (rest : Lookup α)
  /-- A question has been issued and not been answered. -/
  | waiting (question : Question) (next : question.Answer → Lookup α)
  /-- The answer was an error, which has not been reported. -/
  | failed (error : Error)
  /-- The outcome has been reported. -/
  | finished (outcome : Except Error α)

namespace Task

variable {α : Type} {m : Type → Type} [Monad m]

/-- Moves a task once; a finished task stays as it is. -/
def step (fs : FileSystem m) : Task α → m (Task α × Option (Event α))
  | .ready (.done outcome) => pure (.finished (.ok outcome), some (.completed (.ok outcome)))
  | .ready (.ask question next) => pure (.waiting question next, some (.asked question))
  | .waiting question next => do
      match ← fs question with
      | .ok answer => pure (.ready (next answer), some (.answered question))
      | .error e => pure (.failed e, some (.answered question))
  | .failed e => pure (.finished (.error e), some (.completed (.error e)))
  | .finished outcome => pure (.finished outcome, none)

/-- Moves a task that starts with a lookup until it is finished; gives what happened on the way
and the outcome. -/
def drive (fs : FileSystem m) : Lookup α → m (List (Event α) × Except Error α)
  | .done outcome => pure ([.completed (.ok outcome)], .ok outcome)
  | .ask question next => do
      match ← fs question with
      | .ok answer => do
          let later ← drive fs (next answer)
          pure (.asked question :: .answered question :: later.1, later.2)
      | .error e =>
          pure ([.asked question, .answered question, .completed (.error e)], .error e)

end Task

/-- How the questions of a lookup are asked. -/
inductive Mode
  | blocking
  /-- The lookup is suspended until its question is answered. -/
  | suspending
  deriving DecidableEq

def Lookup.outcome {α : Type} {m : Type → Type} [Monad m] (mode : Mode) (fs : FileSystem m)
    (lookup : Lookup α) : m (Except Error α) :=
  match mode with
  | .blocking => lookup.run fs
  | .suspending => do
      let driven ← Task.drive fs lookup
      pure driven.2

/-- Tasks that share a file system, and what they have done. -/
structure Pool (α : Type) where
  tasks : List (Task α)
  /-- What happened, first to last, with the number of the task it happened to. -/
  log : List (Nat × Event α) := []

namespace Pool

variable {α : Type}

def start (lookups : List (Lookup α)) : Pool α := { tasks := lookups.map .ready }

/-- Moves one task; nothing happens if there is no such task. -/
def step (fs : FileSystem Id) (pool : Pool α) (number : Nat) : Pool α :=
  match pool.tasks[number]? with
  | none => pool
  | some task =>
      let moved : Task α × Option (Event α) := task.step fs
      { tasks := pool.tasks.set number moved.1
        log := pool.log ++ moved.2.toList.map fun event => (number, event) }

/-- Moves the tasks that a schedule names, in its order. -/
def run (fs : FileSystem Id) (schedule : List Nat) (pool : Pool α) : Pool α :=
  schedule.foldl (step fs) pool

def eventsOf (pool : Pool α) (number : Nat) : List (Event α) :=
  (pool.log.filter fun entry => entry.1 == number).map Prod.snd

end Pool

end PathAlias
