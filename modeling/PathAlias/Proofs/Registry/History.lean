import Mathlib.Data.List.Induction
import PathAlias.Proofs.Registry.Choice
import PathAlias.Tree

/-!
Everything that a host does with a registry. Settings replace what they set, and a call lets the
registry grow, so what holds of a new registry and is kept by each operation holds at any time: the
memo names projects that are there, no configuration file is loaded twice, and every project is
compiled from its configuration with the manifest fields that were set last.
-/

namespace PathAlias

/-- What a host does with a registry. Every call meets a world of its own. -/
inductive Operation
  | extensions (extensions : List Text)
  | mainFields (fields : List Text)
  | call (world : World) (call : Call)

namespace Operation

/-- The manifest fields that an operation sets. -/
def fields? : Operation → Option (List Text)
  | .mainFields fields => some fields
  | _ => none

/-- The importing file that an operation names. -/
def importer? : Operation → Option Text
  | .call _ made => made.importer?
  | _ => none

end Operation

namespace Registry

def operate (registry : Registry) : Operation → Registry
  | .extensions extensions => registry.withExtensions extensions
  | .mainFields fields => registry.withMainFields fields
  | .call world call => (registry.answer world call).2

/-- The registry after some operations, first to last. -/
def run (registry : Registry) (operations : List Operation) : Registry :=
  operations.foldl operate registry

/-- What holds of a registry at any time. -/
structure Consistent (registry : Registry) : Prop where
  compiled : ∀ project ∈ registry.projects, project.matcher = project.configuration.matcher
  /-- No two projects come from one configuration file. -/
  files_distinct : registry.projects.Pairwise fun earlier later => ∀ file other,
    later.configuration.configFile = some file → earlier.configuration.configFile = some other →
      samePath file other = false
  /-- The memo names projects that are there. -/
  memo_lt : ∀ entry ∈ registry.memo, ∀ number, entry.2 = some number →
    number < registry.projects.length
  /-- No directory is noted twice. -/
  memo_nodup : (registry.memo.map Prod.fst).Nodup
  /-- Manifest fields that have been set are those of all projects. -/
  mainFields : ∀ fields, registry.mainFields = some fields →
    ∀ project ∈ registry.projects, project.configuration.mainFields = fields

theorem remembered?_eq_none_iff {registry : Registry} {dir : Text} :
    registry.remembered? dir = none ↔ components dir ∉ registry.memo.map Prod.fst := by
  rw [remembered?, Option.map_eq_none_iff, List.find?_eq_none]
  simp only [beq_iff_eq, List.mem_map, not_exists, not_and]

theorem projects_withMainFields (registry : Registry) (fields : List Text) :
    (registry.withMainFields fields).projects =
      registry.projects.map fun project => project.withMainFields fields := rfl

theorem project?_lt {registry : Registry} {configuration : Configuration} {number : Nat}
    (h : registry.project? configuration = some number) : number < registry.projects.length := by
  obtain ⟨file, -, hfind⟩ := Option.bind_eq_some_iff.mp h
  exact (List.findIdx?_eq_some_iff_getElem.mp hfind).1

theorem owner?_lt {registry : Registry} {file : Text} {number : Nat}
    (h : registry.owner? file = some number) : number < registry.projects.length :=
  (List.findIdx?_eq_some_iff_getElem.mp h).1

namespace Consistent

variable {registry : Registry} (h : registry.Consistent)

include h

theorem matcher_mainFields {fields : List Text} (hfields : registry.mainFields = some fields)
    {project : Project} (hproject : project ∈ registry.projects) :
    project.matcher.mainFields = fields := by
  rw [h.compiled project hproject]
  exact h.mainFields fields hfields project hproject

theorem note {dir : Text} {found : Option Nat} (hnew : registry.remembered? dir = none)
    (hfound : ∀ number, found = some number → number < registry.projects.length) :
    (registry.grow [] [(components dir, found)]).Consistent where
  compiled := by rw [projects_grow, List.append_nil]; exact h.compiled
  files_distinct := by rw [projects_grow, List.append_nil]; exact h.files_distinct
  memo_lt := by
    rw [projects_grow, List.append_nil]
    exact List.forall_mem_append.mpr ⟨h.memo_lt, List.forall_mem_singleton.mpr hfound⟩
  memo_nodup := by
    rw [grow, List.map_append, List.nodup_append]
    refine ⟨h.memo_nodup, List.pairwise_singleton _ _, fun known hknown other hother heq => ?_⟩
    rw [heq, List.mem_singleton.mp hother] at hknown
    exact remembered?_eq_none_iff.mp hnew hknown
  mainFields := by rw [projects_grow, List.append_nil]; exact h.mainFields

theorem adopt {configuration : Configuration}
    (hnew : registry.project? configuration = none) :
    (registry.grow [registry.adopt configuration] []).Consistent where
  compiled := List.forall_mem_append.mpr ⟨h.compiled, List.forall_mem_singleton.mpr rfl⟩
  files_distinct := by
    rw [projects_grow, List.pairwise_append]
    refine ⟨h.files_distinct, List.pairwise_singleton _ _, fun earlier hearlier later hlater => ?_⟩
    rw [List.mem_singleton.mp hlater]
    intro file other hfile hother
    have hnone : registry.projects.findIdx? (comesFrom file) = none := by
      rw [project?, show configuration.configFile = some file from hfile] at hnew
      exact hnew
    have hearlier := List.findIdx?_eq_none_iff.mp hnone earlier hearlier
    rw [comesFrom, hother] at hearlier
    exact hearlier
  memo_lt := by
    intro entry hentry number hnumber
    rw [grow, List.append_nil] at hentry
    rw [projects_grow, List.length_append]
    exact Nat.lt_add_right _ (h.memo_lt entry hentry number hnumber)
  memo_nodup := by
    rw [grow, List.append_nil]
    exact h.memo_nodup
  mainFields := by
    intro fields hfields
    refine List.forall_mem_append.mpr
      ⟨h.mainFields fields hfields, List.forall_mem_singleton.mpr ?_⟩
    rw [Registry.adopt, show registry.mainFields = some fields from hfields]
    rfl

theorem discovers {world : World} {dir : Text} {found : Option Nat} {chosen : Registry}
    (hnew : registry.remembered? dir = none)
    (hdiscovers : Discovers world registry dir (.ok (found, chosen))) : chosen.Consistent := by
  cases hdiscovers with
  | known _ hknown =>
      refine h.note hnew fun number hnumber => ?_
      cases hnumber
      exact project?_lt hknown
  | @added configuration _ hadded =>
      have hunseen : (registry.grow [registry.adopt configuration] []).remembered? dir = none := by
        rw [remembered?_grow, hnew]
        rfl
      have hnoted : ((registry.grow [registry.adopt configuration] []).grow []
          [(components dir, some registry.projects.length)]).Consistent := by
        refine (h.adopt hadded).note hunseen fun number hnumber => ?_
        cases hnumber
        rw [projects_grow, List.length_append]
        exact Nat.lt_succ_self _
      rwa [grow_grow] at hnoted
  | absent _ =>
      refine h.note hnew fun number hnumber => ?_
      cases hnumber

theorem chooses {world : World} {importer : Option Text} {found : Option Nat} {chosen : Registry}
    (hchooses : Chooses world registry importer (.ok (found, chosen))) : chosen.Consistent := by
  cases hchooses with
  | primary => exact h
  | owned _ => exact h
  | remembered _ _ => exact h
  | discovered _ hnew hdiscovers => exact h.discovers hnew hdiscovers

theorem withMainFields (fields : List Text) : (registry.withMainFields fields).Consistent where
  compiled := by
    intro project hproject
    obtain ⟨before, -, rfl⟩ := List.mem_map.mp (projects_withMainFields registry fields ▸ hproject)
    rfl
  files_distinct := by
    rw [projects_withMainFields, List.pairwise_map]
    exact h.files_distinct
  memo_lt := by
    rw [projects_withMainFields, List.length_map]
    exact h.memo_lt
  memo_nodup := h.memo_nodup
  mainFields := by
    intro set hset project hproject
    cases hset
    obtain ⟨before, -, rfl⟩ := List.mem_map.mp (projects_withMainFields registry fields ▸ hproject)
    rfl

theorem operate (operation : Operation) : (registry.operate operation).Consistent := by
  cases operation with
  | extensions extensions =>
      exact ⟨h.compiled, h.files_distinct, h.memo_lt, h.memo_nodup, h.mainFields⟩
  | mainFields fields => exact h.withMainFields fields
  | call world made => exact answer_keeps h fun _ _ hchooses => h.chooses hchooses

theorem run (operations : List Operation) : (registry.run operations).Consistent := by
  induction operations generalizing registry with
  | nil => exact h
  | cons operation rest ih => exact ih (h.operate operation)

end Consistent

/-! ### New registries -/

theorem start_eq (world : World) (cwd : Text) (explicit : Option Explicit) :
    start world.disk world.env cwd explicit =
      match Configuration.forDirectory world.disk world.env explicit cwd with
      | .ok configuration => .ok (some { explicit, primary := .ofConfiguration configuration })
      | .error (.configNotFound _) => .ok none
      | .error e => .error e := by
  rw [start]
  cases Configuration.forDirectory world.disk world.env explicit cwd with
  | ok configuration => rfl
  | error e => cases e <;> rfl

/-- A registry starts with the configuration of its directory. -/
theorem start_eq_some {world : World} {cwd : Text} {explicit : Option Explicit}
    {registry : Registry}
    (h : start world.disk world.env cwd explicit = Except.ok (some registry)) :
    ∃ configuration,
      Configuration.forDirectory world.disk world.env explicit cwd = Except.ok configuration ∧
        registry = { explicit, primary := .ofConfiguration configuration } := by
  rw [start_eq] at h
  split at h
  · rename_i configuration hconfiguration
    cases h
    exact ⟨configuration, hconfiguration, rfl⟩
  · cases h
  · cases h

theorem Consistent.start {world : World} {cwd : Text} {explicit : Option Explicit}
    {registry : Registry}
    (h : Registry.start world.disk world.env cwd explicit = Except.ok (some registry)) :
    registry.Consistent := by
  obtain ⟨configuration, -, rfl⟩ := start_eq_some h
  exact
    { compiled := fun project hproject => by rw [List.mem_singleton.mp hproject]; rfl
      files_distinct := List.pairwise_singleton _ _
      memo_lt := fun _ hentry => absurd hentry List.not_mem_nil
      memo_nodup := List.nodup_nil
      mainFields := nofun }

/-- A registry that a host can have. -/
def Reachable (registry : Registry) : Prop :=
  ∃ (world : World) (cwd : Text) (explicit : Option Explicit) (started : Registry)
    (operations : List Operation),
    start world.disk world.env cwd explicit = Except.ok (some started) ∧
      registry = started.run operations

theorem Reachable.consistent {registry : Registry} (h : registry.Reachable) :
    registry.Consistent := by
  obtain ⟨world, cwd, explicit, started, operations, hstart, rfl⟩ := h
  exact (Consistent.start hstart).run operations

/-- Whether there is a registry, and it passes a test. -/
def passes (started : Except Error (Option Registry)) (test : Registry → Bool) : Bool :=
  match started with
  | .ok (some registry) => test registry
  | _ => false

theorem exists_of_passes {started : Except Error (Option Registry)} {test : Registry → Bool}
    (h : passes started test = true) :
    ∃ registry, started = Except.ok (some registry) ∧ test registry = true := by
  match started with
  | .ok (some registry) => exact ⟨registry, rfl, h⟩
  | .ok none => cases h
  | .error _ => cases h

/-! ### Histories -/

section History

variable (registry : Registry) (operations : List Operation)

theorem run_append (later : List Operation) :
    registry.run (operations ++ later) = (registry.run operations).run later := List.foldl_append

/-- An operation keeps the parameters of the registry and the configuration of the first project,
but for the manifest fields that it sets. -/
theorem operate_keeps (operation : Operation) :
    let next := registry.operate operation
    next.explicit = registry.explicit ∧
      next.mainFields = operation.fields?.or registry.mainFields ∧
      next.primary.configuration =
        { registry.primary.configuration with
          mainFields := next.primary.configuration.mainFields } := by
  cases operation with
  | extensions extensions => exact ⟨rfl, rfl, rfl⟩
  | mainFields fields => exact ⟨rfl, rfl, rfl⟩
  | call world made =>
      obtain ⟨added, noted, hgrow, -⟩ := answer_grows world registry made
      rw [operate, hgrow]
      exact ⟨rfl, rfl, rfl⟩

theorem explicit_run : (registry.run operations).explicit = registry.explicit := by
  induction operations generalizing registry with
  | nil => rfl
  | cons operation rest ih => exact (ih _).trans (operate_keeps registry operation).1

/-- The first project keeps its configuration, but for the manifest fields. -/
theorem primary_run :
    (registry.run operations).primary.configuration =
      { registry.primary.configuration with
        mainFields := (registry.run operations).primary.configuration.mainFields } := by
  induction operations generalizing registry with
  | nil => rfl
  | cons operation rest ih =>
      have hrest := ih (registry.operate operation)
      rw [(operate_keeps registry operation).2.2] at hrest
      exact hrest

/-- The manifest fields that were set last are in force. -/
theorem mainFields_run :
    (registry.run operations).mainFields =
      (operations.filterMap Operation.fields?).getLast?.or registry.mainFields := by
  induction operations using List.reverseRecOn with
  | nil => rfl
  | append_singleton operations operation ih =>
      rw [run_append, List.filterMap_append, List.getLast?_append, Option.or_assoc, ← ih]
      refine (operate_keeps _ operation).2.1.trans (congrArg (Option.or · _) ?_)
      rw [List.filterMap_cons]
      cases operation.fields? <;> rfl

end History

/-- **What holds at any time.** A registry that has been started in a directory has a first project,
and after any operations, with the disk and the environment changing in between, that is the one
whose configuration was loaded for the directory. The memo names projects that are there, no two
projects come from one configuration file, and every project is compiled from its configuration and
has the manifest fields that were set last. A call puts at most one project and one entry of the
memo behind those that are there and changes nothing else. If it fails, then the file system of
the call has reported that error or nothing has changed at all; with the files of the disk, an
error about a configuration never is one of the file system. -/
theorem consistent_history {world : World} {cwd : Text} {explicit : Option Explicit}
    {registry : Registry}
    (hstart : start world.disk world.env cwd explicit = Except.ok (some registry))
    (operations : List Operation) :
    let now := registry.run operations
    (∃ configuration first others,
      Configuration.forDirectory world.disk world.env explicit cwd = Except.ok configuration ∧
        now.projects = first :: others ∧
        first.configuration =
          { configuration with mainFields := first.configuration.mainFields }) ∧
    now.Consistent ∧
    (∀ fields, (operations.filterMap Operation.fields?).getLast? = some fields →
      ∀ project ∈ now.projects,
        project.configuration.mainFields = fields ∧ project.matcher.mainFields = fields) ∧
    ∀ (meets : World) (call : Call),
      (∃ added noted, (now.answer meets call).2 = now.grow added noted ∧
        added.length ≤ 1 ∧ noted.length ≤ 1) ∧
      ∀ e, (now.answer meets call).1 = .error e →
        ((∃ question, meets.fs question = Except.error e) ∨ (now.answer meets call).2 = now) ∧
        (meets.fs = meets.disk.fileSystem → e.isConfiguration = true →
          (now.answer meets call).2 = now) := by
  obtain ⟨configuration, hloaded, rfl⟩ := start_eq_some hstart
  intro now
  have hnow : now.Consistent := (Consistent.start hstart).run operations
  refine ⟨⟨configuration, now.primary, now.later, hloaded, rfl, primary_run _ operations⟩, hnow,
    fun fields hfields project hproject => ?_, fun meets call =>
      ⟨answer_grows meets now call, fun e he => ?_⟩⟩
  · have hset : now.mainFields = some fields := by
      rw [mainFields_run, hfields]
      rfl
    exact ⟨hnow.mainFields fields hset project hproject, hnow.matcher_mainFields hset hproject⟩
  · have hcases := answer_eq_error he
    refine ⟨hcases.imp_right And.right, fun hfs hconfiguration => ?_⟩
    rcases hcases with ⟨question, hquestion⟩ | ⟨-, hsame⟩
    · rw [hfs] at hquestion
      rw [Disk.isConfiguration_of_fileSystem hquestion] at hconfiguration
      cases hconfiguration
    · exact hsame

end Registry

/-- A tree with files of these texts. -/
def Tree.holding (files : List (Text × Text)) : Tree :=
  files.foldl
    (fun tree file =>
      tree.write (Location.walk [] (components file.1))
        (.file (file.2.map fun c => UInt8.ofNat c.toNat)))
    {}

/-- The world of a tree, seen from its root. -/
def World.ofTree (tree : Tree) (env : Environment) : World where
  disk := tree.disk []
  env := env
  fs := (tree.disk []).fileSystem

/-- The world of a tree, seen from one of its directories. -/
def World.seenFrom (tree : Tree) (cwd : Location) (env : Environment) : World where
  disk := tree.disk cwd
  env := env
  fs := (tree.disk cwd).fileSystem

namespace Registry

/-- Two projects, of which one has a base directory below its own. -/
def neighbours : World :=
  .ofTree
    (.holding
      [("/app/tsconfig.json", "\x7b\x7d"),
        ("/lib/tsconfig.json", "\x7bcompilerOptions:\x7bbaseUrl:'src'\x7d\x7d")])
    fun _ => none

/-- A host that sets manifest fields and then resolves requests of files outside of its project. -/
def visits : List Operation :=
  [.mainFields ["module"],
    .call neighbours (.absolute .blocking "x" (some "/lib/a.ts")),
    .extensions [".js"],
    .call neighbours (.relative .suspending "x" "/none/b.ts")]

theorem consistent_history_neighbours :
    ∃ registry,
      start neighbours.disk neighbours.env "/app" none = Except.ok (some registry) ∧
      (registry.run visits).projects.length = 2 ∧ (registry.run visits).Consistent ∧
      ∀ project ∈ (registry.run visits).projects, project.matcher.mainFields = ["module"] := by
  have hpasses : passes (start neighbours.disk neighbours.env "/app" none)
      (fun registry => (registry.run visits).projects.length == 2) = true := by decide +kernel
  obtain ⟨registry, hstart, hlength⟩ := exists_of_passes hpasses
  obtain ⟨-, hconsistent, hfields, -⟩ := consistent_history hstart visits
  exact ⟨registry, hstart, beq_iff_eq.mp hlength, hconsistent, fun project hproject =>
    (hfields ["module"] rfl project hproject).2⟩

end Registry

end PathAlias
