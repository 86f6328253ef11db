import PathAlias.Proofs.Registry.History

/-!
Calls that suspend instead of blocking. A registry does the same with the same effects, whichever
way the questions of a call are asked. So a host that suspends some of its calls, over a file system
that reports the same as the one that blocks, gets the same answers and has the same registry after
every operation.
-/

namespace PathAlias

/-! ### Effects -/

namespace Registry

variable {m : Type → Type} [Monad m] [LawfulMonad m] (disk : Disk m) (env : Environment)
  (mode : Mode) (fs : FileSystem m) (registry : Registry)

theorem resolve_mode (request : Text) (importer : Option Text) :
    registry.resolve disk env mode fs request importer =
      registry.resolve disk env .blocking fs request importer := by
  simp only [resolve, Lookup.outcome_eq_run]

theorem resolveRelative_mode (request importer : Text) :
    registry.resolveRelative disk env mode fs request importer =
      registry.resolveRelative disk env .blocking fs request importer := by
  simp only [resolveRelative, resolve_mode disk env mode, Lookup.outcome_eq_run]

end Registry

/-! ### Histories -/

/-- The same call with its questions asked in this way. -/
def Call.inMode (mode : Mode) : Call → Call
  | .absolute _ request importer => .absolute mode request importer
  | .relative _ request importer => .relative mode request importer

theorem Disk.fileSystem_congr {disk other : Disk Id} (hstat : other.stat = disk.stat)
    (hread : other.read = disk.read) : other.fileSystem = disk.fileSystem := by
  funext question
  cases question with
  | file path => simp only [fileSystem, fileExists, hstat]
  | manifest path => simp only [fileSystem, manifest, fileExists, readText, hstat, hread]

namespace Operation

/-- The second operation is the first one, or the first one is a call that blocks on the files of a
disk, and the second one suspends the same call on files of which the same is reported. -/
inductive Suspends : Operation → Operation → Prop
  | same (operation : Operation) : Suspends operation operation
  | call {disk suspending : Disk Id} (env : Environment) (made : Call) :
      suspending.stat = disk.stat → suspending.read = disk.read →
      Suspends
        (.call { disk, env, fs := disk.fileSystem } (made.inMode .blocking))
        (.call { disk, env, fs := suspending.fileSystem } (made.inMode .suspending))

end Operation

namespace Registry

/-- What an operation gives back to the host. -/
def returned (registry : Registry) : Operation → Option (Except Error (Option Text))
  | .call world made => some (registry.answer world made).1
  | _ => none

/-- What some operations give back one after the other, each with the registry after it. -/
def transcript (registry : Registry) :
    List Operation → List (Option (Except Error (Option Text)) × Registry)
  | [] => []
  | operation :: rest =>
      (registry.returned operation, registry.operate operation) ::
        (registry.operate operation).transcript rest

theorem answer_inMode (world : World) (registry : Registry) (mode : Mode) (call : Call) :
    registry.answer world (call.inMode mode) = registry.answer world (call.inMode .blocking) := by
  cases call with
  | absolute _ request importer => exact resolve_mode _ _ mode _ _ request importer
  | relative _ request importer => exact resolveRelative_mode _ _ mode _ _ request importer

theorem suspends_step (registry : Registry) {operation other : Operation}
    (h : operation.Suspends other) :
    registry.returned other = registry.returned operation ∧
      registry.operate other = registry.operate operation := by
  cases h with
  | same => exact ⟨rfl, rfl⟩
  | call env made hstat hread =>
      simp only [returned, operate, Disk.fileSystem_congr hstat hread, answer_inMode _ _ .suspending,
        and_self]

/-- Suspending calls changes nothing of what a host sees. -/
theorem transcript_suspends (registry : Registry) {operations others : List Operation}
    (h : List.Forall₂ Operation.Suspends operations others) :
    registry.transcript others = registry.transcript operations := by
  induction h generalizing registry with
  | nil => rfl
  | cons hfirst _ ih =>
      obtain ⟨hreturned, hoperate⟩ := suspends_step registry hfirst
      rw [transcript, transcript, hreturned, hoperate, ih]

end Registry

end PathAlias
