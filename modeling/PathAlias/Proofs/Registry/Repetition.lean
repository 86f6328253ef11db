import PathAlias.Proofs.Registry.Memory
import PathAlias.Proofs.Registry.Rewriting

/-!
Calls for a file whose project has been chosen. To choose again is to choose the same, so what calls
for one file are answered does not depend on the calls for it that came before. A rewritten request
begins with a dot, which no core module and no pattern does, so it is left as it is, and to find this
out takes neither a question about a file nor a configuration.
-/

namespace PathAlias

/-! ### Requests that are left as they are -/

theorem exists_localSpecifier_eq (dir target : Text) :
    ∃ rest, localSpecifier dir target = '.' :: rest := by
  unfold localSpecifier
  split
  · exact ⟨['/'], rfl⟩
  · rename_i rest _
    exact ⟨rest, rfl⟩
  · exact ⟨_, rfl⟩

theorem isCoreModule_of_dot (rest : Text) : isCoreModule ('.' :: rest) = false := by
  have hcore : ∀ name ∈ coreModules, name.head? ≠ some '.' := by decide
  rw [isCoreModule, Bool.or_eq_false_iff]
  refine ⟨rfl, ?_⟩
  rw [List.contains_eq_mem, decide_eq_false_iff_not]
  exact fun hmem => hcore _ hmem rfl

theorem Matcher.search_of_unmappable (matcher : Matcher) (extensions : List Text) {request : Text}
    (h : isUnmappable request = true) : matcher.search extensions request = .done none := by
  unfold search candidates
  rw [if_pos h]
  rfl

namespace Registry

section Effects

variable {m : Type → Type} [Monad m] [LawfulMonad m] (disk : Disk m) (env : Environment)
  (mode : Mode) (fs : FileSystem m) {registry : Registry} {file request : Text}
  {found : Option Nat}

theorem Decides.resolve_eq_pure (h : registry.Decides file found)
    (hcore : isCoreModule request = false) (hunmappable : isUnmappable request = true) :
    registry.resolve disk env mode fs request (some file) = pure (.ok none, registry) := by
  have hsearch : ∀ project : Project,
      (project.matcher.search registry.extensions request).outcome mode fs = pure (.ok none) := by
    intro project
    rw [Lookup.outcome_eq_run, Matcher.search_of_unmappable _ _ hunmappable]
    rfl
  simp only [resolve, hcore, Bool.false_eq_true, if_false, h.choose_eq_pure, pure_bind]
  cases found with
  | none => rfl
  | some number =>
      cases hproject : registry.projects[number]? with
      | none => simp only [hproject]
      | some project => simp only [hproject, hsearch, pure_bind]

theorem Decides.resolveRelative_eq_pure (h : registry.Decides file found)
    (hcore : isCoreModule request = false) (hunmappable : isUnmappable request = true) :
    registry.resolveRelative disk env mode fs request file = pure (.ok none, registry) := by
  rw [resolveRelative, h.resolve_eq_pure disk env mode fs hcore hunmappable, pure_bind]

end Effects

/-! ### Calls for one file -/

section Again

variable {world : World} {registry chosen : Registry} {found : Option Nat}

end Again

/-- **Rewriting twice.** If a call rewrites a request for an importing file, then the same call for
the rewritten request leaves it as it is, whatever has become of the disk, of the environment and
of the files. It asks no question, loads no configuration and leaves the registry as it is: the call
has no effect, on disks and file systems of any effects. -/
theorem rewritten_again {world : World} {registry : Registry} {mode : Mode}
    {request parent specifier : Text}
    (h : (registry.answer world (.relative mode request parent)).1 = .ok (some specifier)) :
    let later := (registry.answer world (.relative mode request parent)).2
    ∀ {m : Type → Type} [Monad m] [LawfulMonad m] (disk : Disk m) (env : Environment)
      (again : Mode) (fs : FileSystem m),
      later.resolveRelative disk env again fs specifier parent = pure (.ok none, later) := by
  intro later m _ _ disk env again fs
  obtain ⟨hcore, found, chosen, hchoose, -⟩ := chosen_of_answer h
  obtain ⟨path, hspecifier, -⟩ := absolute_of_relative h
  obtain ⟨rest, hrest⟩ := exists_localSpecifier_eq (parentOrHere parent) path
  have hlater : later = chosen := congrArg Prod.snd (answer_of_choice hcore hchoose)
  have hchooses := chooses world registry (some parent)
  rw [show registry.choose world.disk world.env (some parent) = _ from hchoose] at hchooses
  have hdecides : later.Decides parent found := hlater ▸ decides_of_chooses hchooses
  rw [hspecifier, hrest]
  exact hdecides.resolveRelative_eq_pure disk env again fs (isCoreModule_of_dot rest) rfl

/-- A disk that writes down the path of every access. -/
def watched (disk : Disk Id) : Disk (StateM (List Text)) where
  stat path := do
    modify (· ++ [path])
    pure (disk.stat path)
  read path := do
    modify (· ++ [path])
    pure (disk.read path)
  real path := do
    modify (· ++ [path])
    pure (disk.real path)
  fileLimit := disk.fileLimit

/-- A file of a project that is not the first one: its request is rewritten, and then the disk is
left alone. -/
theorem rewritten_again_overlapping :
    ∃ registry,
      start overlapping.disk overlapping.env "/app" none = Except.ok (some registry) ∧
      (registry.answer overlapping (.relative .blocking "x" "/lib/a.ts")).1 =
        Except.ok (some ("./src/x" : Text)) ∧
      let later := (registry.answer overlapping (.relative .blocking "x" "/lib/a.ts")).2
      let disk := watched overlapping.disk
      (later.resolveRelative disk overlapping.env .suspending disk.fileSystem "./src/x"
        "/lib/a.ts").run [] = ((Except.ok none, later), []) := by
  have hpasses : passes (start overlapping.disk overlapping.env "/app" none)
      (fun registry =>
        decide ((registry.answer overlapping (.relative .blocking "x" "/lib/a.ts")).1 =
          Except.ok (some ("./src/x" : Text)))) = true := by decide +kernel
  obtain ⟨registry, hstart, htest⟩ := exists_of_passes hpasses
  have hrewritten := of_decide_eq_true htest
  refine ⟨registry, hstart, hrewritten, ?_⟩
  intro later disk
  have hagain := rewritten_again hrewritten disk overlapping.env .suspending disk.fileSystem
  exact congrArg (StateT.run · []) hagain

end Registry

end PathAlias
