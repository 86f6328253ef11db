import PathAlias.Proofs.ConfigFile.Loading
import PathAlias.Proofs.Registry.Explicit

/-!
Registries whose project the environment names. The name is read again for the directory of every
importing file outside of the base directories, and a relative name is seen from there. Where it
leads to the same place as from the directory of the host, the registry keeps its one project, and
no call fails with an error about a configuration.
-/

namespace PathAlias

namespace Registry

variable {world : World} {registry : Registry} {configuration : Configuration} {value : Text}

/-- Where a named project is depends on the directory only through the place that the name leads
to. -/
theorem load_congr {disk : Disk Id} {env : Environment} {dir cwd : Text}
    (h : normalize (append dir value) = normalize (append cwd value)) :
    Configuration.load disk env dir (some value) =
      Configuration.load disk env cwd (some value) := by
  simp only [Configuration.load, Configuration.locate, Option.some_or, h]

theorem load_of_variable {disk : Disk Id} {env : Environment} {cwd : Text}
    (h : env projectVariable = some value) :
    Configuration.load disk env cwd none = Configuration.load disk env cwd (some value) := by
  simp only [Configuration.load, Configuration.locate, Option.none_or, Option.some_or, h]

/-- From the directory of a file outside of the base directory a name that means the same is read as
from the directory of the host. -/
theorem load_of_meansSame {disk : Disk Id} {env : Environment} {cwd other : Text}
    (hvalue : env projectVariable = some value)
    (hload : Configuration.load disk env cwd (some value) = Except.ok configuration)
    (hmeans : MeansSame configuration.absoluteBaseUrl cwd value other)
    (houtside : isWithin configuration.absoluteBaseUrl other = false) :
    Configuration.load disk env (parentOrHere other) none = Except.ok configuration := by
  rcases hmeans with hwithin | hplace
  · rw [houtside] at hwithin
    cases hwithin
  · rw [load_of_variable hvalue, load_congr hplace, hload]

theorem exists_ofFile_of_load {disk : Disk Id} {env : Environment} {cwd : Text}
    {project : Option Text}
    (h : Configuration.load disk env cwd project = Except.ok configuration) :
    ∃ config, configuration = .ofFile env config := by
  obtain ⟨path, -, h⟩ := bind_eq_ok h
  obtain ⟨config, -, h⟩ := bind_eq_ok h
  cases h
  exact ⟨config, rfl⟩

theorem configFile_of_load {disk : Disk Id} {env : Environment} {cwd : Text}
    {project : Option Text}
    (h : Configuration.load disk env cwd project = Except.ok configuration) :
    ∃ file, configuration.configFile = some file := by
  obtain ⟨config, rfl⟩ := exists_ofFile_of_load h
  exact ⟨config.path, rfl⟩

theorem loaded_of_explicit_eq_none (h : registry.explicit = none) (dir : Text) :
    registry.loaded world dir = Configuration.load world.disk world.env dir none := by
  rw [loaded, h]
  rfl

/-- No project can be chosen only where the configuration of the directory cannot be loaded. -/
theorem load_of_chooses_error (h : registry.explicit = none) {importer : Option Text} {e : Error}
    (hchooses : Chooses world registry importer (.error e)) :
    ∃ file, importer = some file ∧
      Configuration.load world.disk world.env (parentOrHere file) none = Except.error e := by
  cases hchooses with
  | @discovered file _ _ _ hdiscovers =>
      cases hdiscovers with
      | failed hfailed _ =>
          rw [loaded_of_explicit_eq_none h] at hfailed
          exact ⟨file, rfl, hfailed⟩

/-- A registry that has one project and has found it for every directory. -/
structure HasOnly (configuration : Configuration) (registry : Registry) : Prop where
  explicit : registry.explicit = none
  projects : registry.projects = [.ofConfiguration configuration]
  memo : ∀ entry ∈ registry.memo, entry.2 = some 0

namespace HasOnly

variable (h : registry.HasOnly configuration)

include h

theorem eq_zero {number : Nat} (hlt : number < registry.projects.length) : number = 0 := by
  rw [h.projects] at hlt
  exact Nat.lt_one_iff.mp hlt

theorem project?_ne_none {file : Text} (hfile : configuration.configFile = some file) :
    registry.project? configuration ≠ none := by
  intro hnone
  rw [project?, hfile] at hnone
  have hdiffers := List.findIdx?_eq_none_iff.mp hnone (.ofConfiguration configuration)
    (h.projects ▸ List.mem_singleton_self _)
  rw [comesFrom, Project.ofConfiguration, hfile, Option.any_some, samePath,
    beq_self_eq_true] at hdiffers
  cases hdiffers

/-- The only project is chosen for every file outside of it whose directory has the same
configuration. -/
theorem chooses {file : Text} (hfile : configuration.configFile = some file)
    {importer : Option Text}
    (hload : ∀ other, importer = some other →
      isWithin configuration.absoluteBaseUrl other = false →
      Configuration.load world.disk world.env (parentOrHere other) none = Except.ok configuration)
    {result : Except Error (Option Nat × Registry)}
    (hchooses : Chooses world registry importer result) :
    ∃ chosen, result = .ok (some 0, chosen) ∧ chosen.HasOnly configuration := by
  cases hchooses with
  | primary => exact ⟨registry, rfl, h⟩
  | owned howner =>
      cases h.eq_zero (owner?_lt howner)
      exact ⟨registry, rfl, h⟩
  | remembered _ hmemo =>
      obtain ⟨entry, hentry, rfl⟩ := Option.map_eq_some_iff.mp hmemo
      rw [h.memo entry (List.mem_of_find?_eq_some hentry)]
      exact ⟨registry, rfl, h⟩
  | @discovered other _ hnone _ hdiscovers =>
      have houtside : isWithin configuration.absoluteBaseUrl other = false :=
        List.findIdx?_eq_none_iff.mp hnone (.ofConfiguration configuration)
          (h.projects ▸ List.mem_singleton_self _)
      have hloaded := (loaded_of_explicit_eq_none h.explicit _).trans (hload other rfl houtside)
      cases hdiscovers with
      | known hknown hnumber =>
          cases hloaded.symm.trans hknown
          cases h.eq_zero (project?_lt hnumber)
          refine ⟨_, rfl, h.explicit, ?_,
            List.forall_mem_append.mpr ⟨h.memo, List.forall_mem_singleton.mpr rfl⟩⟩
          rw [projects_grow, List.append_nil, h.projects]
      | added hadded hnone =>
          cases hloaded.symm.trans hadded
          exact absurd hnone (h.project?_ne_none hfile)
      | absent habsent => cases hloaded.symm.trans habsent
      | failed hfailed _ => cases hloaded.symm.trans hfailed

theorem serve {file : Text} (hfile : configuration.configFile = some file) {calls : List Call}
    (hload : ∀ call ∈ calls, ∀ other, call.importer? = some other →
      isWithin configuration.absoluteBaseUrl other = false →
      Configuration.load world.disk world.env (parentOrHere other) none =
        Except.ok configuration) :
    (registry.serve world calls).HasOnly configuration := by
  induction calls generalizing registry with
  | nil => exact h
  | cons call rest ih =>
      refine ih (answer_keeps h fun found chosen hchooses => ?_) fun later hlater =>
        hload later (List.mem_cons_of_mem call hlater)
      obtain ⟨_, heq, hchosen⟩ := h.chooses hfile (hload call List.mem_cons_self) hchooses
      cases heq
      exact hchosen

end HasOnly

/-- **A named project.** Let the environment name a project. A registry that starts then has the
named project, and a call fails only with what the file system reports or with what comes of reading
the name from the directory of its importing file. If the name means the same for all importing
files, the project stays the only one, it is chosen for every call, and with the files of the disk
no call fails with an error about a configuration. -/
theorem override_history {world : World} {cwd value : Text} {registry : Registry}
    (hvalue : world.env projectVariable = some value)
    (hstart : start world.disk world.env cwd none = Except.ok (some registry))
    (calls : List Call) :
    let now := registry.serve world calls
    ∃ configuration,
      Configuration.load world.disk world.env cwd (some value) = Except.ok configuration ∧
      registry.projects = [.ofConfiguration configuration] ∧
      (∀ (call : Call) (e : Error), (now.answer world call).1 = .error e →
        (∃ question, world.fs question = Except.error e) ∨
          ∃ file, call.importer? = some file ∧
            Configuration.load world.disk world.env (parentOrHere file) (some value) =
              Except.error e) ∧
      ((∀ call ∈ calls, ∀ file, call.importer? = some file →
          MeansSame configuration.absoluteBaseUrl cwd value file) →
        now.projects = [.ofConfiguration configuration] ∧
        ∀ call : Call, (∀ file, call.importer? = some file →
            MeansSame configuration.absoluteBaseUrl cwd value file) →
          (∃ later, now.choose world.disk world.env call.importer? = Except.ok (some 0, later)) ∧
          ∀ e, (now.answer world call).1 = .error e →
            (∃ question, world.fs question = Except.error e) ∧
            (world.fs = world.disk.fileSystem → e.isConfiguration = false)) := by
  intro now
  obtain ⟨configuration, hloaded, rfl⟩ := start_eq_some hstart
  have hload : Configuration.load world.disk world.env cwd (some value) =
      Except.ok configuration := (load_of_variable hvalue).symm.trans hloaded
  obtain ⟨file, hfile⟩ := configFile_of_load hload
  have hexplicit : now.explicit = none := explicit_run _ _
  refine ⟨configuration, hload, rfl, fun call e he => ?_, fun hcalls => ?_⟩
  · rcases answer_eq_error he with hquestion | ⟨hchoose, -⟩
    · exact Or.inl hquestion
    · have hchooses := chooses world now call.importer?
      rw [hchoose] at hchooses
      obtain ⟨file, himporter, hfailed⟩ := load_of_chooses_error hexplicit hchooses
      exact Or.inr ⟨file, himporter, (load_of_variable hvalue).symm.trans hfailed⟩
  have hnow : now.HasOnly configuration := by
    refine HasOnly.serve ⟨rfl, rfl, fun _ hentry => absurd hentry List.not_mem_nil⟩ hfile ?_
    exact fun call hcall other hother =>
      load_of_meansSame hvalue hload (hcalls call hcall other hother)
  refine ⟨hnow.projects, fun call hcall => ?_⟩
  obtain ⟨later, hchoose, -⟩ := hnow.chooses hfile
    (fun other hother => load_of_meansSame hvalue hload (hcall other hother))
    (chooses world now call.importer?)
  refine ⟨⟨later, hchoose⟩, fun e he => ?_⟩
  rcases answer_eq_error he with ⟨question, hquestion⟩ | ⟨hfailed, -⟩
  · refine ⟨⟨question, hquestion⟩, fun hfs => ?_⟩
    rw [hfs] at hquestion
    exact Disk.isConfiguration_of_fileSystem hquestion
  · cases hchoose.symm.trans hfailed

/-- A configuration file, with an environment that names a project. -/
def signposted (value : Text) : World :=
  .ofTree (.holding [("/app/tsconfig.json", "\x7bcompilerOptions:\x7bbaseUrl:'src'\x7d\x7d")])
    fun name => if name = projectVariable then some value else none

/-- An absolute name leads to the same file from everywhere. -/
theorem override_history_absolute :
    ∃ registry,
      start (signposted "/app/tsconfig.json").disk (signposted "/app/tsconfig.json").env "/app"
        none = Except.ok (some registry) ∧
      let now := registry.serve (signposted "/app/tsconfig.json")
        [.absolute .blocking "x" (some "/tool/b.ts"), .relative .suspending "y" "/lib/c.ts"]
      now.projects = registry.projects ∧
      ∀ e, (now.answer (signposted "/app/tsconfig.json")
        (.absolute .blocking "x" (some "/tool/b.ts"))).1 = .error e →
          e.isConfiguration = false := by
  have hpasses : passes (start (signposted "/app/tsconfig.json").disk
      (signposted "/app/tsconfig.json").env "/app" none) (fun _ => true) = true := by
    decide +kernel
  obtain ⟨registry, hstart, -⟩ := exists_of_passes hpasses
  obtain ⟨configuration, -, hprojects, -, hsame⟩ := override_history rfl hstart
    [.absolute .blocking "x" (some "/tool/b.ts"), .relative .suspending "y" "/lib/c.ts"]
  obtain ⟨hnow, hcalls⟩ := hsame fun _ _ _ _ => meansSame_of_isAbsolute rfl
  refine ⟨registry, hstart, hnow.trans hprojects.symm, fun e he => ?_⟩
  exact ((hcalls _ fun _ _ => meansSame_of_isAbsolute rfl).2 e he).2 rfl

/-- A call for a file beside the base directory fails, since the name of the project is read from
the directory of the file. -/
theorem override_misread :
    ∃ registry,
      start (signposted "tsconfig.json").disk (signposted "tsconfig.json").env "/app" none =
        Except.ok (some registry) ∧
      (registry.answer (signposted "tsconfig.json")
        (.absolute .blocking "x" (some "/app/test/a.ts"))).1 =
          Except.error (.configRead "/app/test/tsconfig.json" .notFound) := by
  have hpasses : passes (start (signposted "tsconfig.json").disk (signposted "tsconfig.json").env
      "/app" none)
      (fun registry => decide ((registry.answer (signposted "tsconfig.json")
        (.absolute .blocking "x" (some "/app/test/a.ts"))).1 =
          Except.error (.configRead "/app/test/tsconfig.json" .notFound))) = true := by
    decide +kernel
  obtain ⟨registry, hstart, htest⟩ := exists_of_passes hpasses
  exact ⟨registry, hstart, of_decide_eq_true htest⟩

end Registry

end PathAlias
