import PathAlias.Task

/-!
Lookups under fixed answers. How a lookup ends and what it asks follow its construction, and a
file system that writes its questions down finds exactly the asked ones. Suspending a lookup
changes nothing about how it ends.
-/

namespace PathAlias

/-- A file system with fixed answers that writes down every question. -/
def recording (fs : FileSystem Id) : FileSystem (StateM (List Question)) := fun question => do
  modify (· ++ [question])
  pure (fs question)

/-- The answers of a disk with one file and without manifests. -/
def holding (file : Text) : FileSystem Id
  | .file path => .ok (path == file)
  | .manifest _ => .ok none

namespace Lookup

variable {α β : Type} (fs : FileSystem Id)

theorem run_ask (question : Question) (next : question.Answer → Lookup α) :
    (ask question next).run fs =
      match fs question with
      | .ok answer => (next answer).run fs
      | .error e => .error e := by
  cases hanswer : fs question <;> rw [run, hanswer] <;> rfl

theorem asked_ask (question : Question) (next : question.Answer → Lookup α) :
    (ask question next).asked fs =
      question ::
        match fs question with
        | .ok answer => (next answer).asked fs
        | .error _ => [] := by
  cases hanswer : fs question <;> rw [asked, hanswer]

theorem run_bind (lookup : Lookup α) (next : α → Lookup β) :
    (lookup.bind next).run fs =
      match lookup.run fs with
      | .ok outcome => (next outcome).run fs
      | .error e => .error e := by
  induction lookup with
  | done outcome => rfl
  | ask question rest ih =>
      rw [bind, run_ask, run_ask]
      cases hanswer : fs question with
      | ok answer => exact ih answer
      | error e => rfl

theorem asked_bind (lookup : Lookup α) (next : α → Lookup β) :
    (lookup.bind next).asked fs =
      lookup.asked fs ++
        match lookup.run fs with
        | .ok outcome => (next outcome).asked fs
        | .error _ => [] := by
  induction lookup with
  | done outcome => rfl
  | ask question rest ih =>
      rw [bind, asked_ask, asked_ask, run_ask, List.cons_append]
      cases hanswer : fs question with
      | ok answer => exact congrArg (question :: ·) (ih answer)
      | error e => rfl

/-- What is written down during a run are the asked questions, in order. -/
theorem run_recording (lookup : Lookup α) (log : List Question) :
    (lookup.run (recording fs)).run log = (lookup.run fs, log ++ lookup.asked fs) := by
  induction lookup generalizing log with
  | done outcome =>
      rw [asked, List.append_nil]
      rfl
  | ask question rest ih =>
      have hrecord : (recording fs question).run log = (fs question, log ++ [question]) := rfl
      rw [run, StateT.run_bind, hrecord, run_ask, asked_ask]
      cases hanswer : fs question with
      | ok answer =>
          have hrest := ih answer (log ++ [question])
          rw [List.append_assoc] at hrest
          exact hrest
      | error e => rfl

/-- A suspended lookup ends as one that blocks, with the same effects. -/
theorem outcome_eq_run {m : Type → Type} [Monad m] [LawfulMonad m] {fs : FileSystem m} (mode : Mode)
    (lookup : Lookup α) : lookup.outcome mode fs = lookup.run fs := by
  cases mode with
  | blocking => rfl
  | suspending =>
      induction lookup with
      | done result => simp only [outcome, Task.drive, pure_bind, run]
      | ask question rest ih =>
          simp only [outcome] at ih
          simp only [outcome, Task.drive, run, bind_assoc]
          apply bind_congr
          intro answer
          cases answer with
          | ok answer => simp only [bind_assoc, pure_bind, ih]
          | error e => simp only [pure_bind]

variable {fs}

/-- A lookup fails with an error that it got for an answer. -/
theorem exists_question_of_error {mode : Mode} {lookup : Lookup α} {e : Error}
    (h : lookup.outcome mode fs = Except.error e) : ∃ question, fs question = Except.error e := by
  rw [outcome_eq_run] at h
  induction lookup with
  | done outcome => cases h
  | ask question rest ih =>
      rw [run_ask] at h
      cases hanswer : fs question with
      | ok answer =>
          rw [hanswer] at h
          exact ih answer h
      | error cause =>
          rw [hanswer] at h
          cases h
          exact ⟨question, hanswer⟩

end Lookup

end PathAlias
