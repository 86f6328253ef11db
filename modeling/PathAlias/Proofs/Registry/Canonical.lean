import PathAlias.Proofs.ConfigFile.Canonical
import PathAlias.Proofs.Registry.History

/-!
Base directories that a registry works with. For a host in an absolute directory, whose importing files
are absolute, every configuration that is loaded is canonical, whether it is registered or not. The one
exception is an importing file that is the root itself: it is in no directory, so `.` is taken for its
directory, and what is loaded for `.` counts from wherever the process happens to be.
-/

namespace PathAlias

/-- The world has the disk of a tree, seen from somewhere. -/
def World.IsTree (world : World) : Prop := ∃ (tree : Tree) (place : Location), world.disk = tree.disk place

theorem World.IsTree.rootIsNoFile {world : World} (h : world.IsTree) : world.disk.RootIsNoFile := by
  obtain ⟨tree, place, hdisk⟩ := h
  rw [hdisk]
  exact tree.rootIsNoFile place

namespace Configuration

/-- The configuration of an absolute directory is canonical, explicit or loaded. -/
theorem isCanonical_of_forDirectory {disk : Disk Id} (hroot : disk.RootIsNoFile) {env : Environment}
    {explicit : Option Explicit} {dir : Text} (hdir : isAbsolute dir = true)
    {configuration : Configuration}
    (h : forDirectory disk env explicit dir = Except.ok configuration) : configuration.IsCanonical := by
  cases explicit with
  | none => exact isCanonical_of_load hroot hdir h
  | some parameters =>
      cases h
      exact isCanonical_of_base (isCanonical_normalize (isAbsolute_append hdir parameters.baseUrl))

/-- Manifest fields are no paths. -/
theorem IsCanonical.withMainFields {configuration : Configuration} (h : configuration.IsCanonical)
    (fields : List Text) : { configuration with mainFields := fields }.IsCanonical :=
  isCanonical_of_base h.base

end Configuration

namespace Registry

/-- A project that is loaded for `.`, as one of the operations names the root as importing file. -/
def LoadedHere (explicit : Option Explicit) (operations : List Operation) (project : Project) : Prop :=
  ∃ (world : World) (call : Call) (file : Text), .call world call ∈ operations ∧
    call.importer? = some file ∧ components file = [.root] ∧ ∃ configuration : Configuration,
      Configuration.forDirectory world.disk world.env explicit "." = Except.ok configuration ∧
        project.configuration = { configuration with mainFields := project.configuration.mainFields }

/-- What holds of a registry that has met some of these operations. -/
structure Anchored (given : Option Explicit) (operations : List Operation) (registry : Registry) :
    Prop where
  explicit : registry.explicit = given
  projects : ∀ project ∈ registry.projects,
    project.configuration.IsCanonical ∨ LoadedHere given operations project

namespace Anchored

variable {given : Option Explicit} {operations : List Operation} {registry : Registry}
  (h : registry.Anchored given operations)

include h

/-- What is found for an absolute importing file is canonical, or the file is the root. -/
theorem discovers {world : World} (hworld : world.IsTree) {call : Call} {file : Text}
    (hcall : .call world call ∈ operations) (hfile : call.importer? = some file)
    (habsolute : isAbsolute file = true) {found : Option Nat} {chosen : Registry}
    (hdiscovers : Discovers world registry (parentOrHere file) (.ok (found, chosen))) :
    chosen.Anchored given operations := by
  cases hdiscovers with
  | known _ _ => exact ⟨h.explicit, by rw [projects_grow, List.append_nil]; exact h.projects⟩
  | absent _ => exact ⟨h.explicit, by rw [projects_grow, List.append_nil]; exact h.projects⟩
  | @added configuration hloaded _ =>
      rw [loaded, h.explicit] at hloaded
      refine ⟨h.explicit, List.forall_mem_append.mpr ⟨h.projects, List.forall_mem_singleton.mpr ?_⟩⟩
      by_cases hroot : components file = [.root]
      · rw [parentOrHere_of_root hroot] at hloaded
        exact Or.inr ⟨world, call, file, hcall, hfile, hroot, configuration, hloaded, rfl⟩
      · have hdir := isAbsolute_parentOrHere habsolute hroot
        left
        exact (Configuration.isCanonical_of_forDirectory hworld.rootIsNoFile hdir hloaded).withMainFields _

theorem operate {operation : Operation} (hmem : operation ∈ operations)
    (hworld : ∀ world call, operation = .call world call → world.IsTree)
    (habsolute : ∀ file, operation.importer? = some file → isAbsolute file = true) :
    (registry.operate operation).Anchored given operations := by
  cases operation with
  | extensions extensions => exact ⟨h.explicit, h.projects⟩
  | mainFields fields =>
      refine ⟨h.explicit, fun project hproject => ?_⟩
      obtain ⟨before, hbefore, rfl⟩ :=
        List.mem_map.mp (projects_withMainFields registry fields ▸ hproject)
      refine (h.projects before hbefore).imp (fun hcanonical => hcanonical.withMainFields fields) ?_
      rintro ⟨world, call, file, hcall, hfile, hroot, configuration, hloaded, hsame⟩
      refine ⟨world, call, file, hcall, hfile, hroot, configuration, hloaded, ?_⟩
      rw [Project.withMainFields, Project.ofConfiguration, hsame]
  | call world made =>
      refine answer_keeps h fun found chosen hchooses => ?_
      cases himporter : made.importer? with
      | none =>
          rw [himporter] at hchooses
          cases hchooses
          exact h
      | some file =>
          rw [himporter] at hchooses
          cases hchooses with
          | owned _ => exact h
          | remembered _ _ => exact h
          | discovered _ _ hdiscovers =>
              exact h.discovers (hworld world made rfl) hmem himporter (habsolute file himporter)
                hdiscovers

theorem run (hworlds : ∀ world call, .call world call ∈ operations → world.IsTree)
    (habsolute : ∀ file ∈ operations.filterMap Operation.importer?, isAbsolute file = true) :
    (registry.run operations).Anchored given operations := by
  refine List.foldlRecOn operations Registry.operate h fun now hnow operation hmem => ?_
  refine hnow.operate hmem (fun world call hcall => ?_) fun file hfile => ?_
  · exact hworlds world call (hcall ▸ hmem)
  · exact habsolute file (List.mem_filterMap.mpr ⟨operation, hmem, hfile⟩)

end Anchored

/-- **Canonical base directories.** For a host in an absolute directory of a tree, whose importing files
are absolute, the base directory and all targets of every project are canonical, with one exception: a
project that is loaded for `.` because the root itself is named as importing file. So they are without
an exception where no importing file is the root. The first project is canonical in any case, and so is
whatever is loaded for an absolute importing file other than the root, also if it is not registered, and
for an absolute directory with a project that the caller names. -/
theorem canonical_history {world : World} (htree : world.IsTree) {cwd : Text}
    (hcwd : isAbsolute cwd = true) {explicit : Option Explicit} {registry : Registry}
    (hstart : start world.disk world.env cwd explicit = Except.ok (some registry))
    (operations : List Operation)
    (htrees : ∀ world call, .call world call ∈ operations → world.IsTree)
    (habsolute : ∀ file ∈ operations.filterMap Operation.importer?, isAbsolute file = true) :
    let now := registry.run operations
    now.primary.configuration.IsCanonical ∧
    (∀ project ∈ now.projects, project.matcher = project.configuration.matcher ∧
      (project.configuration.IsCanonical ∨ LoadedHere explicit operations project)) ∧
    ∀ (meets : World) (configuration : Configuration), meets.IsTree →
      (∀ file, isAbsolute file = true → components file ≠ [.root] →
        now.loaded meets (parentOrHere file) = .ok configuration → configuration.IsCanonical) ∧
      ∀ dir project, isAbsolute dir = true →
        Configuration.load meets.disk meets.env dir project = Except.ok configuration →
        configuration.IsCanonical := by
  intro now
  have hconsistent : now.Consistent := (Consistent.start hstart).run operations
  obtain ⟨configuration, hloaded, rfl⟩ := start_eq_some hstart
  have hfirst := Configuration.isCanonical_of_forDirectory htree.rootIsNoFile hcwd hloaded
  have hbegins : Anchored explicit operations
      { explicit, primary := .ofConfiguration configuration } :=
    ⟨rfl, List.forall_mem_singleton.mpr (Or.inl hfirst)⟩
  have hnow : now.Anchored explicit operations := hbegins.run htrees habsolute
  refine ⟨?_, fun project hproject => ⟨hconsistent.compiled project hproject,
    hnow.projects project hproject⟩, fun meets configuration hmeets =>
      ⟨fun file hfile hroot hload => ?_, fun dir project hdir =>
        Configuration.isCanonical_of_load hmeets.rootIsNoFile hdir⟩⟩
  · rw [primary_run]
    exact hfirst.withMainFields _
  · rw [loaded, hnow.explicit] at hload
    exact Configuration.isCanonical_of_forDirectory hmeets.rootIsNoFile
      (isAbsolute_parentOrHere hfile hroot) hload

/-- A project that inherits its base directory and its targets, all of them spelled with detours. -/
def detours : World :=
  .ofTree
    (.holding
      [("/app/tsconfig.json", "\x7bextends:'../lib//./base'\x7d"),
        ("/lib/base.json",
          "\x7bcompilerOptions:\x7bbaseUrl:'.././lib//src/',paths:\x7b'@/*':['../x/./*/']\x7d\x7d\x7d")])
    fun _ => none

/-- A request of a file outside of the project, whose path leads through the project. -/
def detour : Call := .absolute .blocking "@/a" (some "/app//..//b.ts")

theorem canonical_history_detours :
    ∃ registry,
      start detours.disk detours.env "/app/." none = Except.ok (some registry) ∧
      let now := registry.run [.call detours detour]
      let targets : List (List Text) := [["/lib/x/*"], ["/lib/src/*"]]
      now.primary.configuration.absoluteBaseUrl = "/lib/src" ∧
      now.primary.matcher.entries.map Entry.targets = targets ∧
      ∀ project ∈ now.projects, project.configuration.IsCanonical := by
  have hpasses : passes (start detours.disk detours.env "/app/." none) (fun registry =>
      let now := registry.run [.call detours detour]
      let targets : List (List Text) := [["/lib/x/*"], ["/lib/src/*"]]
      decide (now.primary.configuration.absoluteBaseUrl = "/lib/src") &&
        decide (now.primary.matcher.entries.map Entry.targets = targets)) = true := by
    decide +kernel
  obtain ⟨registry, hstart, htest⟩ := exists_of_passes hpasses
  obtain ⟨hbase, htargets⟩ := Bool.and_eq_true_iff.mp htest
  have htree : detours.IsTree := ⟨_, [], rfl⟩
  have hcalls : ∀ world call, Operation.call world call ∈ [.call detours detour] →
      world = detours ∧ call = detour := fun world call hcall =>
    Operation.call.inj (List.mem_singleton.mp hcall)
  obtain ⟨-, hprojects, -⟩ := canonical_history htree rfl hstart [.call detours detour]
    (fun world call hcall => (hcalls world call hcall).1 ▸ htree)
    (fun file hfile => by rw [List.mem_singleton.mp hfile]; rfl)
  refine ⟨registry, hstart, of_decide_eq_true hbase, of_decide_eq_true htargets,
    fun project hproject => (hprojects project hproject).2.resolve_right ?_⟩
  rintro ⟨world, call, file, hcall, hfile, hroot, -⟩
  rw [(hcalls world call hcall).2] at hfile
  cases hfile
  exact absurd hroot (by decide)

/-- A process in a directory with a configuration file, and a project in another directory. -/
def elsewhere : World :=
  .seenFrom
    (.holding
      [("/app/tsconfig.json", "\x7b\x7d"),
        ("/work/tsconfig.json", "\x7bcompilerOptions:\x7bbaseUrl:'src'\x7d\x7d")])
    ["work"] fun _ => none

/-- For the root as importing file the configuration file in the directory of the process is loaded, and
its base directory is relative. -/
theorem root_as_importer :
    elsewhere.IsTree ∧ isAbsolute "/app" = true ∧ isAbsolute "/" = true ∧
    ∃ registry, start elsewhere.disk elsewhere.env "/app" none = Except.ok (some registry) ∧
      ∃ project ∈ (registry.answer elsewhere (.absolute .blocking "x" (some "/"))).2.projects,
        project.configuration.absoluteBaseUrl = "src" ∧ ¬ project.configuration.IsCanonical := by
  have hpasses : passes (start elsewhere.disk elsewhere.env "/app" none) (fun registry =>
      (registry.answer elsewhere (.absolute .blocking "x" (some "/"))).2.projects.any fun project =>
        project.configuration.absoluteBaseUrl == "src") = true := by
    decide +kernel
  obtain ⟨registry, hstart, hany⟩ := exists_of_passes hpasses
  obtain ⟨project, hproject, hbase⟩ := List.any_eq_true.mp hany
  have hbase : project.configuration.absoluteBaseUrl = "src" := eq_of_beq hbase
  refine ⟨⟨_, _, rfl⟩, rfl, rfl, registry, hstart, project, hproject, hbase, fun hcanonical => ?_⟩
  have habsolute := hcanonical.base.isAbsolute
  rw [hbase] at habsolute
  cases habsolute

end Registry

end PathAlias
