import PathAlias.Proofs.Registry.Memory

/-!
Registries with explicit parameters. No configuration is looked for then, but the parameters are
applied anew in the directory of every importing file outside of the base directories, and a
relative base URL is seen from there. Where it leads to the same place as from the directory of the
host, all projects of the registry are alike.
-/

namespace PathAlias

/-- What is given as a path in the directory `cwd` means the same for an importing file: the file
lies in the base directory, or the path leads to the same place from the directory of the file. -/
def MeansSame (base cwd given file : Text) : Prop :=
  isWithin base file = true ∨
    normalize (append (parentOrHere file) given) = normalize (append cwd given)

/-- An absolute path means the same for every file. -/
theorem meansSame_of_isAbsolute {base cwd given file : Text} (h : isAbsolute given = true) :
    MeansSame base cwd given file := by
  right
  rw [append, append, if_pos h, if_pos h]

namespace Registry

theorem isWithin_primary_of_owner?_eq_none {registry : Registry} {file : Text}
    (h : registry.owner? file = none) :
    isWithin registry.primary.configuration.absoluteBaseUrl file = false :=
  List.findIdx?_eq_none_iff.mp h registry.primary List.mem_cons_self

variable {world : World} {registry chosen : Registry} {params : Explicit} {cwd : Text}

theorem configuration_congr {dir : Text}
    (h : normalize (append dir params.baseUrl) = normalize (append cwd params.baseUrl)) :
    params.configuration dir = params.configuration cwd := by
  rw [Explicit.configuration, h, Explicit.configuration]

/-- With explicit parameters a new directory always adds a project of its own. -/
theorem Discovers.of_explicit (h : registry.explicit = some params) {dir : Text}
    {result : Except Error (Option Nat × Registry)}
    (hdiscovers : Discovers world registry dir result) :
    result = .ok (some registry.projects.length,
      registry.grow [registry.adopt (params.configuration dir)]
        [(components dir, some registry.projects.length)]) := by
  have hloaded : registry.loaded world dir = Except.ok (params.configuration dir) := by
    rw [loaded, h]
    rfl
  cases hdiscovers with
  | known hknown hnumber =>
      cases hloaded.symm.trans hknown
      cases hnumber
  | added hadded _ =>
      cases hloaded.symm.trans hadded
      rfl
  | absent habsent => cases hloaded.symm.trans habsent
  | failed hfailed _ => cases hloaded.symm.trans hfailed

/-- With explicit parameters neither the disk nor the environment has a say in the choice. -/
theorem choose_of_explicit (h : registry.explicit = some params) (other : World)
    (importer : Option Text) :
    registry.choose world.disk world.env importer =
      registry.choose other.disk other.env importer := by
  cases importer with
  | none => rfl
  | some file =>
      have hdiscover := (discovers world registry (parentOrHere file)).of_explicit h
      rw [← (discovers other registry (parentOrHere file)).of_explicit h] at hdiscover
      rw [choose, choose, hdiscover]

/-- What holds of a registry that was started with explicit parameters in the directory `cwd` and
has met the files `seen`. -/
structure OfExplicit (params : Explicit) (cwd : Text) (seen : Text → Prop) (registry : Registry) :
    Prop where
  explicit : registry.explicit = some params
  base : registry.primary.configuration.absoluteBaseUrl = normalize (append cwd params.baseUrl)
  /-- Every project has the parameters as they are in the directory of the host, or in the one of
  a file outside of the first base directory. -/
  projects : ∀ project ∈ registry.projects, ∃ dir,
    (dir = cwd ∨ ∃ file, seen file ∧
      isWithin (normalize (append cwd params.baseUrl)) file = false ∧ dir = parentOrHere file) ∧
    project = registry.adopt (params.configuration dir)
  memo : ∀ entry ∈ registry.memo, entry.2 ≠ none

namespace OfExplicit

variable {seen : Text → Prop} (h : registry.OfExplicit params cwd seen)

include h

theorem chooses {importer : Option Text} {found : Option Nat}
    (hseen : ∀ file, importer = some file → seen file)
    (hchooses : Chooses world registry importer (.ok (found, chosen))) :
    chosen.OfExplicit params cwd seen := by
  cases hchooses with
  | primary => exact h
  | owned _ => exact h
  | remembered _ _ => exact h
  | @discovered file _ hnone _ hdiscovers =>
      cases hdiscovers.of_explicit h.explicit
      have houtside := isWithin_primary_of_owner?_eq_none hnone
      rw [h.base] at houtside
      exact
        { explicit := h.explicit
          base := h.base
          projects := List.forall_mem_append.mpr ⟨h.projects, List.forall_mem_singleton.mpr
            ⟨_, Or.inr ⟨file, hseen file rfl, houtside, rfl⟩, rfl⟩⟩
          memo := List.forall_mem_append.mpr
            ⟨h.memo, List.forall_mem_singleton.mpr (Option.some_ne_none _)⟩ }

/-- A choice always gives a project. -/
theorem exists_found (hconsistent : registry.Consistent) {importer : Option Text}
    {result : Except Error (Option Nat × Registry)}
    (hchooses : Chooses world registry importer result) :
    ∃ number chosen, result = .ok (some number, chosen) ∧ number < chosen.projects.length := by
  cases hchooses with
  | primary => exact ⟨0, registry, rfl, Nat.succ_pos _⟩
  | @owned _ number howner => exact ⟨number, registry, rfl, owner?_lt howner⟩
  | @remembered file found hnone hmemo =>
      obtain ⟨entry, hentry, rfl⟩ := Option.map_eq_some_iff.mp hmemo
      obtain ⟨number, hnumber⟩ :=
        Option.ne_none_iff_exists'.mp (h.memo entry (List.mem_of_find?_eq_some hentry))
      rw [hnumber] at hmemo ⊢
      exact ⟨number, registry, rfl, (Decides.memo hnone hmemo).lt hconsistent⟩
  | discovered _ _ hdiscovers =>
      refine ⟨_, _, hdiscovers.of_explicit h.explicit, ?_⟩
      rw [projects_grow, List.length_append]
      exact Nat.lt_succ_self _

theorem operate {operation : Operation}
    (hseen : ∀ file, operation.importer? = some file → seen file) :
    (registry.operate operation).OfExplicit params cwd seen := by
  cases operation with
  | extensions extensions => exact ⟨h.explicit, h.base, h.projects, h.memo⟩
  | mainFields fields =>
      refine ⟨h.explicit, h.base, fun project hproject => ?_, h.memo⟩
      obtain ⟨before, hbefore, rfl⟩ :=
        List.mem_map.mp (projects_withMainFields registry fields ▸ hproject)
      obtain ⟨dir, hdir, rfl⟩ := h.projects before hbefore
      exact ⟨dir, hdir, rfl⟩
  | call world made => exact answer_keeps h fun _ _ hchooses => h.chooses hseen hchooses

theorem run {operations : List Operation}
    (hseen : ∀ file ∈ operations.filterMap Operation.importer?, seen file) :
    (registry.run operations).OfExplicit params cwd seen :=
  List.foldlRecOn operations Registry.operate h fun _ hnow operation hmem =>
    hnow.operate fun file hfile => hseen file (List.mem_filterMap.mpr ⟨operation, hmem, hfile⟩)

/-- Where the base URL means the same for every file, the projects are all the same. -/
theorem project_eq (hsame : ∀ file, seen file →
      MeansSame (normalize (append cwd params.baseUrl)) cwd params.baseUrl file)
    {project : Project} (hproject : project ∈ registry.projects) :
    project = registry.adopt (params.configuration cwd) := by
  obtain ⟨dir, hdir, rfl⟩ := h.projects project hproject
  rcases hdir with rfl | ⟨file, hfile, houtside, rfl⟩
  · rfl
  · rcases hsame file hfile with hwithin | hbase
    · rw [houtside] at hwithin
      cases hwithin
    · rw [configuration_congr hbase]

/-- Then every file is answered by the parameters as they are in the directory of the host. -/
theorem answer_eq_host (hconsistent : registry.Consistent)
    (hsame : ∀ file, seen file →
      MeansSame (normalize (append cwd params.baseUrl)) cwd params.baseUrl file)
    (world : World) (mode : Mode) (request : Text) {importer : Option Text}
    (hseen : ∀ file, importer = some file → seen file) :
    (registry.answer world (.absolute mode request importer)).1 =
      if isCoreModule request then .ok none
      else
        ((registry.adopt (params.configuration cwd)).matcher.search registry.extensions
          request).outcome mode world.fs := by
  have hchooses := Registry.chooses world registry importer
  obtain ⟨number, chosen, hchoose, hlt⟩ := h.exists_found hconsistent hchooses
  rw [hchoose] at hchooses
  obtain ⟨added, noted, rfl, -⟩ := hchooses.grows
  have hproject := (h.chooses hseen hchooses).project_eq hsame (List.getElem_mem hlt)
  rw [answer_eq, Call.importer?, hchoose, Call.request]
  split
  · rfl
  · simp only [Call.outcome, find, Option.bind_some, List.getElem?_eq_getElem hlt, hproject]
    rfl

end OfExplicit

/-- The registry that explicit parameters start in a directory. -/
def given (params : Explicit) (cwd : Text) : Registry where
  explicit := some params
  primary := .ofConfiguration (params.configuration cwd)

theorem given_ofExplicit (params : Explicit) (cwd : Text) (seen : Text → Prop) :
    (given params cwd).OfExplicit params cwd seen where
  explicit := rfl
  base := rfl
  projects _ hproject := ⟨cwd, Or.inl rfl, List.mem_singleton.mp hproject⟩
  memo _ hentry := absurd hentry List.not_mem_nil

/-- A file for which the base URL means something else adds a project with another base directory
to a new registry. -/
theorem meansSame_of_answer_given {call : Call} {file : Text} (hfile : call.importer? = some file)
    (hcore : isCoreModule call.request = false)
    (hbase : ∀ project ∈ ((given params cwd).answer world call).2.projects,
      project.configuration.absoluteBaseUrl = normalize (append cwd params.baseUrl)) :
    MeansSame (normalize (append cwd params.baseUrl)) cwd params.baseUrl file := by
  cases hwithin : isWithin (normalize (append cwd params.baseUrl)) file with
  | true => exact Or.inl hwithin
  | false =>
      have hnone : (given params cwd).owner? file = none := by
        apply List.findIdx?_eq_none_iff.mpr
        intro project hproject
        rw [List.mem_singleton.mp hproject]
        exact hwithin
      have hdiscover : (given params cwd).choose world.disk world.env call.importer? =
          (given params cwd).discover world.disk world.env (parentOrHere file) := by
        rw [hfile, choose, hnone]
        rfl
      rw [(discovers world _ _).of_explicit rfl] at hdiscover
      rw [answer_of_choice (ne_true_of_eq_false hcore) hdiscover] at hbase
      right
      exact hbase ((given params cwd).adopt (params.configuration (parentOrHere file)))
        (List.mem_append_right (given params cwd).projects (List.mem_singleton_self _))

/-- **Explicit parameters.** A registry always starts with explicit parameters, and after any
operations all its projects have them, as they are in the directory of the host or in the one of an
importing file outside of the base directory. Nothing is loaded: a project is found for every call,
and neither the disk nor the environment changes an answer, but through the lookups. If the base URL
means the same for all importing files, there is one base directory, and a request is answered for
them as without an importing file. A new registry keeps its base directory only when it is called
for such a file. -/
theorem explicit_history (params : Explicit) (cwd : Text) (begins : World)
    (operations : List Operation) :
    ∃ registry, start begins.disk begins.env cwd (some params) = Except.ok (some registry) ∧
      let now := registry.run operations
      let base := normalize (append cwd params.baseUrl)
      let importers := operations.filterMap Operation.importer?
      (∀ project ∈ now.projects, ∃ dir,
        (dir = cwd ∨ ∃ file ∈ importers, isWithin base file = false ∧ dir = parentOrHere file) ∧
        project.configuration =
          { params.configuration dir with mainFields := project.configuration.mainFields }) ∧
      (∀ (meets : World) (call : Call),
        (∃ number chosen, now.choose meets.disk meets.env call.importer? =
          Except.ok (some number, chosen) ∧ number < chosen.projects.length) ∧
        ∀ other : World, other.fs = meets.fs → now.answer other call = now.answer meets call) ∧
      ((∀ file ∈ importers, MeansSame base cwd params.baseUrl file) →
        (∀ project ∈ now.projects, project.configuration.absoluteBaseUrl = base) ∧
        ∀ (meets : World) (mode : Mode) (request file : Text),
          MeansSame base cwd params.baseUrl file →
          (now.answer meets (.absolute mode request (some file))).1 =
            (now.answer meets (.absolute mode request none)).1) ∧
      ∀ (meets : World) (call : Call) (file : Text), call.importer? = some file →
        isCoreModule call.request = false →
        (∀ project ∈ (registry.answer meets call).2.projects,
          project.configuration.absoluteBaseUrl = base) →
        MeansSame base cwd params.baseUrl file := by
  have hstart : start begins.disk begins.env cwd (some params) =
      Except.ok (some (given params cwd)) := rfl
  refine ⟨given params cwd, hstart, ?_⟩
  intro now base importers
  have hconsistent : now.Consistent := (Consistent.start hstart).run operations
  have hnow : now.OfExplicit params cwd (· ∈ importers) :=
    (given_ofExplicit params cwd _).run fun _ hfile => hfile
  refine ⟨fun project hproject => ?_, fun meets call => ⟨?_, fun other hfs => ?_⟩,
    fun hsame => ⟨fun project hproject => ?_, fun meets mode request file hfile => ?_⟩,
    fun meets call file hfile hcore hbase => meansSame_of_answer_given hfile hcore hbase⟩
  · obtain ⟨dir, hdir, rfl⟩ := hnow.projects project hproject
    exact ⟨dir, hdir, rfl⟩
  · exact hnow.exists_found hconsistent (chooses meets now call.importer?)
  · rw [answer_eq, answer_eq, hfs, choose_of_explicit hnow.explicit meets]
  · rw [hnow.project_eq hsame hproject]
    rfl
  · have hwith : now.OfExplicit params cwd fun seen => seen ∈ importers ∨ seen = file :=
      (given_ofExplicit params cwd _).run fun _ hfile => Or.inl hfile
    have hall : ∀ seen, seen ∈ importers ∨ seen = file →
        MeansSame base cwd params.baseUrl seen := by
      rintro seen (hseen | rfl)
      · exact hsame seen hseen
      · exact hfile
    rw [hwith.answer_eq_host hconsistent hall meets mode request
        fun seen hseen => Or.inr (Option.some.inj hseen).symm,
      hwith.answer_eq_host hconsistent hall meets mode request
        fun _ hseen => by cases hseen]

/-- A directory for files that are shared. -/
def shelf : World := .ofTree (.holding [("/lib/x.ts", "")]) fun _ => none

/-- A base URL that leads to the same directory from all directories beside it. -/
theorem explicit_history_beside :
    ∃ registry,
      start shelf.disk shelf.env "/app" (some { baseUrl := "../lib", paths := {} }) =
        Except.ok (some registry) ∧
      let now := registry.run [.call shelf (.absolute .blocking "x" (some "/tool/b.ts"))]
      (∀ project ∈ now.projects, project.configuration.absoluteBaseUrl = "/lib") ∧
      (now.answer shelf (.absolute .suspending "x" (some "/tool/b.ts"))).1 =
        (now.answer shelf (.absolute .suspending "x" none)).1 := by
  obtain ⟨registry, hstart, -, -, hsame, -⟩ := explicit_history
    { baseUrl := "../lib", paths := {} } "/app" shelf
    [.call shelf (.absolute .blocking "x" (some "/tool/b.ts"))]
  have hbase : normalize (append "/app" "../lib") = "/lib" := by decide
  have hmeans : MeansSame (normalize (append "/app" "../lib")) "/app" "../lib" "/tool/b.ts" :=
    Or.inr (by decide)
  obtain ⟨hprojects, hanswers⟩ := hsame fun file hfile => by
    rw [List.mem_singleton.mp hfile]
    exact hmeans
  exact ⟨registry, hstart, fun project hproject => (hprojects project hproject).trans hbase,
    hanswers shelf .suspending "x" "/tool/b.ts" hmeans⟩

/-- A directory of a host whose files lie below another one. -/
def workplace : World := .ofTree (.holding [("/app/src/x.ts", "")]) fun _ => none

/-- The same request is answered without an importing file and not for a file beside the base
directory, and then there is a second base directory. -/
theorem explicit_moves :
    ∃ registry,
      start workplace.disk workplace.env "/app"
        (some { baseUrl := "src", paths := .ofList [("@/*", ["*"])] }) =
          Except.ok (some registry) ∧
      (registry.answer workplace (.absolute .blocking "@/x" none)).1 =
        Except.ok (some ("/app/src/x" : Text)) ∧
      (registry.answer workplace (.absolute .blocking "@/x" (some "/app/test/a.ts"))).1 =
        Except.ok none ∧
      ∃ project ∈ (registry.answer workplace
          (.absolute .blocking "@/x" (some "/app/test/a.ts"))).2.projects,
        project.configuration.absoluteBaseUrl = "/app/test/src" := by
  have hpasses : passes (start workplace.disk workplace.env "/app"
      (some { baseUrl := "src", paths := .ofList [("@/*", ["*"])] }))
      (fun registry =>
        decide ((registry.answer workplace (.absolute .blocking "@/x" none)).1 =
          Except.ok (some ("/app/src/x" : Text))) &&
        (decide ((registry.answer workplace
            (.absolute .blocking "@/x" (some "/app/test/a.ts"))).1 = Except.ok none) &&
          (registry.answer workplace
            (.absolute .blocking "@/x" (some "/app/test/a.ts"))).2.projects.any fun project =>
              project.configuration.absoluteBaseUrl == "/app/test/src")) = true := by
    decide +kernel
  obtain ⟨registry, hstart, htest⟩ := exists_of_passes hpasses
  obtain ⟨hhost, htest⟩ := Bool.and_eq_true_iff.mp htest
  obtain ⟨hfile, hany⟩ := Bool.and_eq_true_iff.mp htest
  obtain ⟨project, hproject, hbase⟩ := List.any_eq_true.mp hany
  exact ⟨registry, hstart, of_decide_eq_true hhost, of_decide_eq_true hfile, project, hproject,
    eq_of_beq hbase⟩

end Registry

end PathAlias
