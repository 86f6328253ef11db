import PathAlias.Proofs.ConfigFile.Respelling
import PathAlias.Proofs.Registry.History

/-!
Importing files that are spelled with the same components. What a registry asks about an importing
file is which base directory it lies in, what is noted for its directory, which configuration the
directory has and which packages are installed for it. None of this depends on how the components of
the file are spelled, so neither does an answer; a `..` however is a component.
-/

namespace PathAlias

variable {disk : Disk Id}

/-! ### Installed packages -/

theorem agree_anyFile {paths others : List Text} (h : List.Forall₂ disk.Same paths others) :
    Agree (@Eq Bool) ((anyFile paths).run disk.fileSystem) ((anyFile others).run disk.fileSystem) := by
  induction h with
  | nil => exact .ok rfl
  | cons hpath _ ih =>
      rw [anyFile, anyFile, Lookup.run_ask, Lookup.run_ask]
      have hexists := hpath.fileExists
      simp only [Disk.fileSystem]
      generalize disk.fileExists _ = found at hexists ⊢
      generalize disk.fileExists _ = second at hexists ⊢
      cases hexists with
      | error he => exact .error he
      | ok hsame =>
          subst hsame
          rename_i isThere
          cases isThere with
          | true => exact .ok rfl
          | false => exact ih

theorem forall₂_manifestPaths (huniform : disk.Uniform) (name : Text) {dir other : Text}
    (h : components dir = components other) :
    List.Forall₂ disk.Same (manifestPaths name dir) (manifestPaths name other) := by
  have hname : ∀ above second : Text, components above = components second →
      ((fileName? above != some packageDirectory) = true ↔
        (fileName? second != some packageDirectory) = true) := fun above second habove => by
    rw [fileName?_congr habove]
  have hrows := List.rel_filter (fun _ _ habove => hname _ _ habove) (forall₂_ancestors h)
  rw [manifestPaths, manifestPaths]
  refine List.rel_map (fun _ _ habove => ?_) hrows
  exact huniform _ _ (components_append_congr (components_append_congr habove packageDirectory) name)
    "package.json"

theorem agree_isInstalled (huniform : disk.Uniform) (mode : Mode) (request : Text) {dir other : Text}
    (h : components dir = components other) :
    Agree (@Eq Bool) ((isInstalled request dir).outcome mode disk.fileSystem)
      ((isInstalled request other).outcome mode disk.fileSystem) := by
  rw [Lookup.outcome_eq_run, Lookup.outcome_eq_run, isInstalled, isInstalled]
  cases packageName? request with
  | none => exact .ok rfl
  | some name => exact agree_anyFile (forall₂_manifestPaths huniform name h)

namespace Registry

/-! ### Choices -/

/-- Registries that search in the same way. -/
structure Alike (registry other : Registry) : Prop where
  extensions : registry.extensions = other.extensions
  matchers : registry.projects.map Project.matcher = other.projects.map Project.matcher

theorem Alike.refl (registry : Registry) : registry.Alike registry := ⟨rfl, rfl⟩

theorem find_eq (fs : FileSystem Id) (mode : Mode) (request : Text) (registry : Registry)
    (found : Option Nat) :
    registry.find fs mode request found =
      match found.bind fun number => (registry.projects.map Project.matcher)[number]? with
      | some matcher => (matcher.search registry.extensions request).outcome mode fs
      | none => .ok none := by
  rw [find]
  cases found with
  | none => rfl
  | some number =>
      rw [Option.bind_some, Option.bind_some, List.getElem?_map]
      cases registry.projects[number]? <;> rfl

theorem Alike.find {registry other : Registry} (h : registry.Alike other) (fs : FileSystem Id)
    (mode : Mode) (request : Text) (found : Option Nat) :
    registry.find fs mode request found = other.find fs mode request found := by
  rw [find_eq, find_eq, h.extensions, h.matchers]

/-- The same number, in registries that search in the same way. -/
def SameChoice (choice other : Option Nat × Registry) : Prop :=
  choice.1 = other.1 ∧ choice.2.Alike other.2

section Choice

variable {world : World} (registry : Registry)

theorem project?_congr {configuration other : Configuration}
    (h : configuration.Respelled other) :
    registry.project? configuration = registry.project? other := by
  have hproject : ∀ config : Configuration, registry.project? config =
      (config.configFile.map components).bind fun row => registry.projects.findIdx? fun project =>
        project.configuration.configFile.any fun own => row == components own := by
    intro config
    rw [project?]
    cases config.configFile <;> rfl
  rw [hproject, hproject, h.configFile]

theorem sameChoice_register {configuration other : Configuration}
    (h : configuration.Respelled other) (dir file : Text) :
    let number := (registry.register configuration).1
    let second := (registry.register other).1
    SameChoice (some number, (registry.register configuration).2.remember dir (some number))
      (some second, (registry.register other).2.remember file (some second)) := by
  have hproject := registry.project?_congr h
  cases hknown : registry.project? other with
  | some number =>
      rw [register_of_known hknown, register_of_known (hproject.trans hknown)]
      exact ⟨rfl, rfl, rfl⟩
  | none =>
      have hmatcher : (registry.adopt configuration).matcher = (registry.adopt other).matcher := by
        rw [← h.same]
        rfl
      rw [register_of_new hknown, register_of_new (hproject.trans hknown)]
      refine ⟨rfl, rfl, ?_⟩
      simp only [remember_eq_grow, grow_grow, projects_grow, List.map_append, List.append_nil,
        List.map_cons, List.map_nil, hmatcher]

theorem agree_discover (huniform : world.disk.Uniform) {dir other : Text}
    (h : components dir = components other) :
    Agree SameChoice (registry.discover world.disk world.env dir)
      (registry.discover world.disk world.env other) := by
  have hloaded : Agree Configuration.Respelled (registry.loaded world dir)
      (registry.loaded world other) :=
    Configuration.agree_forDirectory huniform world.env registry.explicit h
  rw [discover_eq, discover_eq]
  generalize registry.loaded world dir = loaded at hloaded ⊢
  generalize registry.loaded world other = second at hloaded ⊢
  cases hloaded with
  | ok hsame => exact .ok (registry.sameChoice_register hsame dir other)
  | error he =>
      rename_i e cause
      have hpath := he.path
      rw [← he.about]
      cases e with
      | configNotFound start => exact .ok ⟨rfl, rfl, rfl⟩
      | configRead path reason => exact .error ⟨rfl, hpath⟩
      | configParse path => exact .error ⟨rfl, hpath⟩
      | extendsCycle path => exact .error ⟨rfl, hpath⟩
      | manifestParse path => exact .error ⟨rfl, hpath⟩
      | access path reason => exact .error ⟨rfl, hpath⟩

theorem agree_choose (huniform : world.disk.Uniform) {file other : Text}
    (h : components file = components other) :
    Agree SameChoice (registry.choose world.disk world.env (some file))
      (registry.choose world.disk world.env (some other)) := by
  have hdir := components_parentOrHere_congr h
  have howner : registry.owner? file = registry.owner? other := by
    simp only [owner?, isWithin, h]
  have hmemo : registry.remembered? (parentOrHere file) =
      registry.remembered? (parentOrHere other) := by
    rw [remembered?, remembered?, hdir]
  cases hsome : registry.owner? other with
  | some number =>
      rw [choose_of_owner hsome, choose_of_owner (howner.trans hsome)]
      exact .ok ⟨rfl, .refl registry⟩
  | none =>
      cases hknown : registry.remembered? (parentOrHere other) with
      | some found =>
          rw [choose_of_remembered hsome hknown,
            choose_of_remembered (howner.trans hsome) (hmemo.trans hknown)]
          exact .ok ⟨rfl, .refl registry⟩
      | none =>
          simp only [choose, hsome, howner, hknown, hmemo]
          exact registry.agree_discover huniform hdir

end Choice

end Registry

/-! ### Answers -/

/-- The same call for this importing file. -/
def Call.forFile (file : Text) : Call → Call
  | .absolute mode request _ => .absolute mode request (some file)
  | .relative mode request _ => .relative mode request file

namespace Call

theorem request_forFile (call : Call) (file : Text) : (call.forFile file).request = call.request := by
  cases call <;> rfl

theorem importer?_forFile (call : Call) (file : Text) :
    (call.forFile file).importer? = some file := by
  cases call <;> rfl

theorem agree_outcome (huniform : disk.Uniform) {registry second : Registry}
    (hregistry : registry.Alike second) (found : Option Nat) (call : Call) {file other : Text}
    (h : components file = components other) :
    Agree (@Eq (Option Text)) ((call.forFile file).outcome disk.fileSystem registry found)
      ((call.forFile other).outcome disk.fileSystem second found) := by
  have hdir := components_parentOrHere_congr h
  cases call with
  | absolute mode request importer =>
      simp only [forFile, outcome, hregistry.find]
      exact .refl (fun _ => rfl) _
  | relative mode request importer =>
      simp only [forFile, outcome, hregistry.find]
      cases second.find disk.fileSystem mode request found with
      | error e => exact .error (.refl e)
      | ok mapped =>
          cases mapped with
          | none => exact .ok rfl
          | some path =>
              have hinstalled := agree_isInstalled huniform mode request hdir
              simp only [localSpecifier_congr hdir]
              generalize (isInstalled request (parentOrHere file)).outcome mode disk.fileSystem =
                installed at hinstalled ⊢
              generalize (isInstalled request (parentOrHere other)).outcome mode disk.fileSystem =
                again at hinstalled ⊢
              cases hinstalled with
              | error he => exact .error he
              | ok hsame =>
                  subst hsame
                  rename_i isThere
                  cases isThere <;> exact .ok rfl

end Call

namespace Registry

theorem agree_answer {world : World} (huniform : world.disk.Uniform)
    (hfs : world.fs = world.disk.fileSystem) (registry : Registry) (call : Call) {file other : Text}
    (h : components file = components other) :
    Agree (@Eq (Option Text)) (registry.answer world (call.forFile file)).1
      (registry.answer world (call.forFile other)).1 := by
  rw [answer_eq, answer_eq, Call.request_forFile, Call.request_forFile, Call.importer?_forFile,
    Call.importer?_forFile]
  split_ifs
  · exact .ok rfl
  · have hchoose := registry.agree_choose huniform h
    generalize registry.choose world.disk world.env (some file) = choice at hchoose ⊢
    generalize registry.choose world.disk world.env (some other) = second at hchoose ⊢
    cases hchoose with
    | error he => exact .error he
    | ok hsame =>
        rename_i first last
        obtain ⟨found, chosen⟩ := first
        obtain ⟨again, taken⟩ := last
        obtain ⟨rfl, halike⟩ := hsame
        rw [hfs]
        exact call.agree_outcome huniform halike found h

/-- **Respelled importing files.** In any tree, whatever the registry has met, an absolute importing
file without `..` gets the answer that its normal spelling gets: the same path or specifier, or none
for both, or the same error up to the spelling of the path it is about. -/
theorem respelled_importer (tree : Tree) (cwd : Location) (env : Environment) (registry : Registry)
    (call : Call) {file : Text} (habsolute : isAbsolute file = true)
    (hup : .up ∉ components file) :
    let world := World.seenFrom tree cwd env
    Agree (@Eq (Option Text)) (registry.answer world (call.forFile file)).1
      (registry.answer world (call.forFile (normalize file))).1 :=
  registry.agree_answer (tree.uniform cwd) rfl call
    (components_normalize_of_not_up habsolute hup).symm

/-- Two projects, one of which maps requests below its sources. -/
def shelves : Tree :=
  .holding
    [("/app/tsconfig.json", "\x7b\x7d"),
      ("/lib/tsconfig.json", "\x7bcompilerOptions:\x7bbaseUrl:'src'\x7d\x7d"),
      ("/lib/src/x.ts", "")]

/-- The two projects, seen from the root. -/
def library : World := .seenFrom shelves [] fun _ => none

theorem respelled_importer_library :
    ∃ registry,
      start library.disk library.env "/app" none = Except.ok (some registry) ∧
      (registry.answer library (.absolute .blocking "x" (some "/lib//./a.ts"))).1 =
        Except.ok (some ("/lib/src/x" : Text)) ∧
      (registry.answer library (.absolute .blocking "x" (some "/lib/a.ts"))).1 =
        Except.ok (some ("/lib/src/x" : Text)) := by
  have hpasses : passes (start library.disk library.env "/app" none) (fun registry =>
      decide ((registry.answer library (.absolute .blocking "x" (some "/lib//./a.ts"))).1 =
        Except.ok (some ("/lib/src/x" : Text)))) = true := by
    decide +kernel
  obtain ⟨registry, hstart, htest⟩ := exists_of_passes hpasses
  have hspelled := of_decide_eq_true htest
  have habsolute : isAbsolute "/lib//./a.ts" = true := rfl
  have hagree := respelled_importer shelves [] (fun _ => none) registry
    (.absolute .blocking "x" none) habsolute (by decide)
  have hnormal : normalize "/lib//./a.ts" = "/lib/a.ts" := by decide
  rw [hnormal] at hagree
  exact ⟨registry, hstart, hspelled, Agree.eq_ok (hspelled ▸ hagree)⟩

/-- A file that lies in one project, on a path that leads through the base directory of another one,
is served by the other one. Its directory is there, and its normal spelling gets another answer. -/
theorem path_through_base :
    ∃ registry,
      start library.disk library.env "/app" none = Except.ok (some registry) ∧
      (library.disk.isDirectory (parentOrHere "/app/../lib/a.ts")).run = true ∧
      normalize "/app/../lib/a.ts" = "/lib/a.ts" ∧
      (registry.answer library (.absolute .blocking "x" (some "/app/../lib/a.ts"))).1 =
        Except.ok none ∧
      (registry.answer library (.absolute .blocking "x" (some "/lib/a.ts"))).1 =
        Except.ok (some ("/lib/src/x" : Text)) := by
  have hpasses : passes (start library.disk library.env "/app" none) (fun registry =>
      decide ((registry.answer library (.absolute .blocking "x" (some "/app/../lib/a.ts"))).1 =
        Except.ok none) &&
      decide ((registry.answer library (.absolute .blocking "x" (some "/lib/a.ts"))).1 =
        Except.ok (some ("/lib/src/x" : Text)))) = true := by
    decide +kernel
  obtain ⟨registry, hstart, htest⟩ := exists_of_passes hpasses
  obtain ⟨hthrough, hnormal⟩ := Bool.and_eq_true_iff.mp htest
  exact ⟨registry, hstart, by decide +kernel, by decide, of_decide_eq_true hthrough,
    of_decide_eq_true hnormal⟩

end Registry

end PathAlias
