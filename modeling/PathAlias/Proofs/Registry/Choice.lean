import Mathlib.Data.List.Basic
import PathAlias.Proofs.Disk
import PathAlias.Proofs.Lookup
import PathAlias.Registry

/-!
One call of a host. Which project serves an importing file is decided in a few ways, which are
listed once: a project has the file below its base directory, or the memo knows the directory of
the file, or the configuration of that directory is loaded. All that a call does to a registry is
to put at most one project and one entry of the memo behind those that are there, and a failure
that does not come from the file system of the call does not even do that.
-/

namespace PathAlias

/-- What a registry meets while it serves a call: the disk and the environment that configurations
are loaded from, and the file system that answers lookups. -/
structure World where
  disk : Disk Id
  env : Environment
  fs : FileSystem Id

namespace Registry

/-! ### Registries that grow -/

/-- The registry with more projects and more entries of the memo behind those that are there. -/
def grow (registry : Registry) (added : List Project)
    (noted : List (List Component × Option Nat)) : Registry :=
  { registry with later := registry.later ++ added, memo := registry.memo ++ noted }

section Grow

variable (registry : Registry) (added : List Project) (noted : List (List Component × Option Nat))

@[simp]
theorem grow_nil : registry.grow [] [] = registry := by
  simp only [grow, List.append_nil]

@[simp]
theorem grow_grow (more : List Project) (further : List (List Component × Option Nat)) :
    (registry.grow added noted).grow more further =
      registry.grow (added ++ more) (noted ++ further) := by
  simp only [grow, List.append_assoc]

@[simp]
theorem projects_grow : (registry.grow added noted).projects = registry.projects ++ added := rfl

theorem remember_eq_grow (dir : Text) (found : Option Nat) :
    registry.remember dir found = registry.grow [] [(components dir, found)] := by
  simp only [remember, grow, List.append_nil]

/-- A file that lies in a project stays with it. -/
theorem owner?_grow (file : Text) :
    (registry.grow added noted).owner? file =
      (registry.owner? file).or
        ((added.findIdx? fun project => isWithin project.configuration.absoluteBaseUrl file).map
          (· + registry.projects.length)) := by
  rw [owner?, owner?, projects_grow, List.findIdx?_append]

/-- What is remembered of a directory is what was noted first. -/
theorem remembered?_grow (dir : Text) :
    (registry.grow added noted).remembered? dir =
      (registry.remembered? dir).or
        ((noted.find? fun entry => entry.1 == components dir).map Prod.snd) := by
  rw [remembered?, remembered?, grow, List.find?_append, Option.map_or]

end Grow

/-- The project that a registry makes of a configuration. -/
def adopt (registry : Registry) (configuration : Configuration) : Project :=
  .ofConfiguration
    { configuration with mainFields := registry.mainFields.getD configuration.mainFields }

theorem register_of_known {registry : Registry} {configuration : Configuration} {number : Nat}
    (h : registry.project? configuration = some number) :
    registry.register configuration = (number, registry) := by
  rw [register, h]

theorem register_of_new {registry : Registry} {configuration : Configuration}
    (h : registry.project? configuration = none) :
    registry.register configuration =
      (registry.projects.length, registry.grow [registry.adopt configuration] []) := by
  rw [register, h, grow, List.append_nil]
  rfl

/-! ### Choices -/

section Choice

variable (world : World) (registry : Registry)

/-- The configuration of a directory, or why there is none. -/
def loaded (dir : Text) : Except Error Configuration :=
  Configuration.forDirectory world.disk world.env registry.explicit dir

theorem discover_eq (dir : Text) :
    registry.discover world.disk world.env dir =
      match registry.loaded world dir with
      | .ok configuration =>
          .ok (some (registry.register configuration).1,
            (registry.register configuration).2.remember dir
              (some (registry.register configuration).1))
      | .error (.configNotFound _) => .ok (none, registry.remember dir none)
      | .error e => .error e := by
  rw [discover, loaded]
  cases Configuration.forDirectory world.disk world.env registry.explicit dir with
  | ok configuration => rfl
  | error e => cases e <;> rfl

/-- What looking for the configuration of a directory comes to. -/
inductive Discovers (dir : Text) : Except Error (Option Nat × Registry) → Prop
  /-- The registry has the project of the configuration. -/
  | known {configuration : Configuration} {number : Nat} :
      registry.loaded world dir = .ok configuration →
      registry.project? configuration = some number →
      Discovers dir (.ok (some number, registry.grow [] [(components dir, some number)]))
  | added {configuration : Configuration} :
      registry.loaded world dir = .ok configuration →
      registry.project? configuration = none →
      Discovers dir
        (.ok (some registry.projects.length,
          registry.grow [registry.adopt configuration]
            [(components dir, some registry.projects.length)]))
  /-- There is no configuration. -/
  | absent {start : Text} :
      registry.loaded world dir = .error (.configNotFound start) →
      Discovers dir (.ok (none, registry.grow [] [(components dir, none)]))
  | failed {e : Error} :
      registry.loaded world dir = .error e → (∀ start, e ≠ .configNotFound start) →
      Discovers dir (.error e)

/-- How the project for an importing file is chosen. -/
inductive Chooses : Option Text → Except Error (Option Nat × Registry) → Prop
  /-- There is no importing file. -/
  | primary : Chooses none (.ok (some 0, registry))
  | owned {file : Text} {number : Nat} :
      registry.owner? file = some number → Chooses (some file) (.ok (some number, registry))
  | remembered {file : Text} {found : Option Nat} :
      registry.owner? file = none → registry.remembered? (parentOrHere file) = some found →
      Chooses (some file) (.ok (found, registry))
  | discovered {file : Text} {result : Except Error (Option Nat × Registry)} :
      registry.owner? file = none → registry.remembered? (parentOrHere file) = none →
      Discovers world registry (parentOrHere file) result → Chooses (some file) result

theorem discovers (dir : Text) :
    Discovers world registry dir (registry.discover world.disk world.env dir) := by
  rw [discover_eq]
  cases hloaded : registry.loaded world dir with
  | ok configuration =>
      simp only [remember_eq_grow]
      cases hknown : registry.project? configuration with
      | some number =>
          rw [register_of_known hknown]
          exact .known hloaded hknown
      | none =>
          rw [register_of_new hknown, grow_grow]
          exact .added hloaded hknown
  | error e =>
      match e with
      | .configNotFound start =>
          simp only [remember_eq_grow]
          exact .absent hloaded
      | .configRead path cause => exact .failed hloaded fun _ => nofun
      | .configParse path => exact .failed hloaded fun _ => nofun
      | .extendsCycle path => exact .failed hloaded fun _ => nofun
      | .manifestParse path => exact .failed hloaded fun _ => nofun
      | .access path cause => exact .failed hloaded fun _ => nofun

/-- These are all ways in which a project is chosen. -/
theorem chooses (importer : Option Text) :
    Chooses world registry importer (registry.choose world.disk world.env importer) := by
  cases importer with
  | none => exact .primary
  | some file =>
      rw [choose]
      cases howner : registry.owner? file with
      | some number => exact .owned howner
      | none =>
          cases hmemo : registry.remembered? (parentOrHere file) with
          | some found => exact .remembered howner hmemo
          | none => exact .discovered howner hmemo (discovers world registry _)

variable {world registry}

theorem choose_of_owner {file : Text} {number : Nat} (h : registry.owner? file = some number) :
    registry.choose world.disk world.env (some file) = Except.ok (some number, registry) := by
  rw [choose, h]
  rfl

theorem choose_of_remembered {file : Text} {found : Option Nat}
    (howner : registry.owner? file = none)
    (h : registry.remembered? (parentOrHere file) = some found) :
    registry.choose world.disk world.env (some file) = Except.ok (found, registry) := by
  rw [choose, howner]
  simp only [h]
  rfl

/-- A choice adds at most one project and notes at most one directory. -/
theorem Chooses.grows {importer : Option Text} {found : Option Nat} {chosen : Registry}
    (h : Chooses world registry importer (.ok (found, chosen))) :
    ∃ added noted, chosen = registry.grow added noted ∧ added.length ≤ 1 ∧ noted.length ≤ 1 := by
  have hsame : ∃ added noted, registry = registry.grow added noted ∧ added.length ≤ 1 ∧
      noted.length ≤ 1 := ⟨[], [], (grow_nil registry).symm, Nat.zero_le 1, Nat.zero_le 1⟩
  cases h with
  | primary => exact hsame
  | owned _ => exact hsame
  | remembered _ _ => exact hsame
  | discovered _ _ hdiscovers =>
      cases hdiscovers with
      | known _ _ => exact ⟨[], _, rfl, Nat.zero_le 1, Nat.le_refl 1⟩
      | added _ _ => exact ⟨_, _, rfl, Nat.le_refl 1, Nat.le_refl 1⟩
      | absent _ => exact ⟨[], _, rfl, Nat.zero_le 1, Nat.le_refl 1⟩

end Choice

end Registry

/-! ### Calls -/

/-- A call of a host that maps a request. -/
inductive Call
  /-- To the path of a file, for an importing file if there is one. -/
  | absolute (mode : Mode) (request : Text) (importer : Option Text)
  /-- To a specifier that is relative to the importing file. -/
  | relative (mode : Mode) (request importer : Text)

namespace Call

def request : Call → Text
  | .absolute _ request _ => request
  | .relative _ request _ => request

def importer? : Call → Option Text
  | .absolute _ _ importer => importer
  | .relative _ _ importer => some importer

end Call

namespace Registry

/-- The answer to a call, and the registry after it. -/
def answer (world : World) (registry : Registry) : Call → Except Error (Option Text) × Registry
  | .absolute mode request importer =>
      registry.resolve world.disk world.env mode world.fs request importer
  | .relative mode request importer =>
      registry.resolveRelative world.disk world.env mode world.fs request importer

/-- What the project of this number finds for a request. -/
def find (fs : FileSystem Id) (mode : Mode) (request : Text) (registry : Registry)
    (found : Option Nat) : Except Error (Option Text) :=
  match found.bind fun number => registry.projects[number]? with
  | some project => (project.matcher.search registry.extensions request).outcome mode fs
  | none => .ok none

end Registry

/-- What a call answers when the project of this number has been chosen. -/
def Call.outcome (fs : FileSystem Id) (registry : Registry) (found : Option Nat) :
    Call → Except Error (Option Text)
  | .absolute mode request _ => registry.find fs mode request found
  | .relative mode request importer =>
      match registry.find fs mode request found with
      | .ok (some path) =>
          match (isInstalled request (parentOrHere importer)).outcome mode fs with
          | .ok true => .ok none
          | .ok false => .ok (some (localSpecifier (parentOrHere importer) path))
          | .error e => .error e
      | other => other

namespace Registry

variable (world : World) (registry : Registry)

theorem resolve_eq (mode : Mode) (request : Text) (importer : Option Text) :
    registry.resolve world.disk world.env mode world.fs request importer =
      if isCoreModule request then (.ok none, registry)
      else
        match registry.choose world.disk world.env importer with
        | .error e => (.error e, registry)
        | .ok (found, chosen) => (chosen.find world.fs mode request found, chosen) := by
  rw [resolve]
  split
  · rfl
  · cases registry.choose world.disk world.env importer with
    | error e => rfl
    | ok choice =>
        obtain ⟨found, chosen⟩ := choice
        cases found with
        | none => rfl
        | some number =>
            simp only [bind, find, Option.bind_some]
            cases chosen.projects[number]? <;> rfl

/-- A call for a core module is answered at once. Any other one is answered by the project that is
chosen for its importing file. -/
theorem answer_eq (call : Call) :
    registry.answer world call =
      if isCoreModule call.request then (.ok none, registry)
      else
        match registry.choose world.disk world.env call.importer? with
        | .error e => (.error e, registry)
        | .ok (found, chosen) => (call.outcome world.fs chosen found, chosen) := by
  cases call with
  | absolute mode request importer => exact resolve_eq world registry mode request importer
  | relative mode request importer =>
      rw [answer, resolveRelative, resolve_eq, Call.request, Call.importer?]
      split
      · rfl
      · cases registry.choose world.disk world.env (some importer) with
        | error e => rfl
        | ok choice =>
            obtain ⟨found, chosen⟩ := choice
            simp only [Call.outcome]
            match chosen.find world.fs mode request found with
            | .error e => rfl
            | .ok none => rfl
            | .ok (some path) =>
                match (isInstalled request (parentOrHere importer)).outcome mode world.fs with
                | .error e => rfl
                | .ok true => rfl
                | .ok false => rfl

variable {world registry} {call : Call} {found : Option Nat} {chosen : Registry} {e : Error}

theorem answer_of_core (hcore : isCoreModule call.request = true) :
    registry.answer world call = (.ok none, registry) := by
  rw [answer_eq, if_pos hcore]

theorem answer_of_choice (hcore : ¬ isCoreModule call.request = true)
    (h : registry.choose world.disk world.env call.importer? = Except.ok (found, chosen)) :
    registry.answer world call = (call.outcome world.fs chosen found, chosen) := by
  rw [answer_eq, if_neg hcore, h]

theorem answer_of_failure (hcore : ¬ isCoreModule call.request = true)
    (h : registry.choose world.disk world.env call.importer? = Except.error e) :
    registry.answer world call = (.error e, registry) := by
  rw [answer_eq, if_neg hcore, h]

theorem exists_question_of_find {fs : FileSystem Id} {mode : Mode} {request : Text}
    (h : registry.find fs mode request found = .error e) :
    ∃ question, fs question = Except.error e := by
  rw [find] at h
  split at h
  · exact Lookup.exists_question_of_error h
  · cases h

/-- Once a project has been chosen, a call fails only with what the file system reports. -/
theorem exists_question_of_outcome {fs : FileSystem Id}
    (h : call.outcome fs registry found = .error e) :
    ∃ question, fs question = Except.error e := by
  cases call with
  | absolute mode request importer => exact exists_question_of_find h
  | relative mode request importer =>
      rw [Call.outcome] at h
      split at h
      · split at h
        · cases h
        · cases h
        · rename_i hinstalled
          cases h
          exact Lookup.exists_question_of_error hinstalled
      · exact exists_question_of_find h

/-- A call that fails has found out why from the file system, or it could not choose a project and
has changed nothing. -/
theorem answer_eq_error (h : (registry.answer world call).1 = .error e) :
    (∃ question, world.fs question = Except.error e) ∨
      registry.choose world.disk world.env call.importer? = Except.error e ∧
        (registry.answer world call).2 = registry := by
  by_cases hcore : isCoreModule call.request = true
  · rw [answer_of_core hcore] at h
    cases h
  cases hchoose : registry.choose world.disk world.env call.importer? with
  | error cause =>
      rw [answer_of_failure hcore hchoose] at h ⊢
      cases h
      exact Or.inr ⟨rfl, rfl⟩
  | ok choice =>
      rw [answer_of_choice hcore hchoose] at h
      exact Or.inl (exists_question_of_outcome h)

/-- What a call leaves: the registry as it was, or what a choice leaves. -/
theorem answer_cases (world : World) (registry : Registry) (call : Call) :
    (registry.answer world call).2 = registry ∨
      ∃ found,
        Chooses world registry call.importer? (.ok (found, (registry.answer world call).2)) := by
  by_cases hcore : isCoreModule call.request = true
  · rw [answer_of_core hcore]
    exact Or.inl rfl
  have hchooses := chooses world registry call.importer?
  cases hchoose : registry.choose world.disk world.env call.importer? with
  | error e =>
      rw [answer_of_failure hcore hchoose]
      exact Or.inl rfl
  | ok choice =>
      rw [hchoose] at hchooses
      rw [answer_of_choice hcore hchoose]
      exact Or.inr ⟨choice.1, hchooses⟩

/-- What every choice keeps is kept by a call. -/
theorem answer_keeps {kept : Registry → Prop} (h : kept registry)
    (hchosen : ∀ found chosen, Chooses world registry call.importer? (.ok (found, chosen)) →
      kept chosen) :
    kept (registry.answer world call).2 := by
  rcases answer_cases world registry call with hsame | ⟨found, hchooses⟩
  · rwa [hsame]
  · exact hchosen found _ hchooses

/-- A call puts at most one project and one entry of the memo behind those that are there. -/
theorem answer_grows (world : World) (registry : Registry) (call : Call) :
    ∃ added noted, (registry.answer world call).2 = registry.grow added noted ∧
      added.length ≤ 1 ∧ noted.length ≤ 1 := by
  rcases answer_cases world registry call with hsame | ⟨found, hchooses⟩
  · exact ⟨[], [], hsame.trans (grow_nil registry).symm, Nat.zero_le 1, Nat.zero_le 1⟩
  · exact hchooses.grows

end Registry

end PathAlias
