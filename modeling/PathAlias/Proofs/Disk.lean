import PathAlias.Disk

/-!
Disks without effects. A search on such a disk is a search in a list, and what the disk answers to a
lookup is an answer, or an error about the access or the manifest that was asked for.
-/

namespace PathAlias

/-- Whether an error is about a configuration and not about the files that a request may name. -/
def Error.isConfiguration : Error → Bool
  | .configRead _ _ => true
  | .configParse _ => true
  | .configNotFound _ => true
  | .extendsCycle _ => true
  | .manifestParse _ => false
  | .access _ _ => false

namespace Disk

theorem firstFile_eq (disk : Disk Id) (dir : Text) (names : List Text) :
    disk.firstFile dir names =
      (names.find? fun name => disk.isFile (append dir name)).map (append dir) :=
  congrArg (Option.map (append dir)) (List.findM?_pure _ _)

theorem walkUp_eq {α : Type} (start : Text) (probe : Text → Id (Option α)) :
    walkUp start probe = (ancestors start).findSome? fun dir => (probe dir).run :=
  List.findSomeM?_pure

variable (disk : Disk Id) (path : Text)

theorem fileExists_eq :
    disk.fileExists path =
      match disk.stat path with
      | .ok kind => .ok (kind == .file)
      | .error cause => if cause.isAbsence then .ok false else .error (.access path cause) := by
  rw [fileExists]
  cases disk.stat path <;> rfl

theorem manifest_eq :
    disk.manifest path =
      match disk.fileExists path with
      | .error e => .error e
      | .ok false => .ok none
      | .ok true =>
          match disk.readText path with
          | .ok source => (Manifest.parse path source).map some
          | .error cause => if cause.isAbsence then .ok none else .error (.access path cause) := by
  rw [manifest]
  cases disk.fileExists path with
  | error e => rfl
  | ok isThere =>
      cases isThere with
      | false => rfl
      | true => cases disk.readText path <;> rfl

variable {disk path} {e : Error}

theorem fileExists_eq_error (h : disk.fileExists path = Except.error e) :
    ∃ cause, e = .access path cause := by
  rw [fileExists_eq] at h
  split at h
  · cases h
  · split at h
    · cases h
    · cases h
      exact ⟨_, rfl⟩

theorem manifest_eq_error (h : disk.manifest path = Except.error e) :
    e = .manifestParse path ∨ ∃ cause, e = .access path cause := by
  rw [manifest_eq] at h
  split at h
  · rename_i hexists
    cases h
    exact Or.inr (fileExists_eq_error hexists)
  · cases h
  · split at h
    · rename_i source _
      rw [Manifest.parse] at h
      split at h
      · cases h
      · cases h
        exact Or.inl rfl
    · split at h
      · cases h
      · cases h
        exact Or.inr ⟨_, rfl⟩

/-- Lookups on a disk fail with no error about a configuration. -/
theorem isConfiguration_of_fileSystem {question : Question}
    (h : disk.fileSystem question = Except.error e) : e.isConfiguration = false := by
  cases question with
  | file path =>
      obtain ⟨cause, rfl⟩ := fileExists_eq_error h
      rfl
  | manifest path => rcases manifest_eq_error h with rfl | ⟨cause, rfl⟩ <;> rfl

end Disk

end PathAlias
