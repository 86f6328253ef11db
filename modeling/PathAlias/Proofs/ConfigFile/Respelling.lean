import PathAlias.Configuration
import PathAlias.Proofs.Agreement
import PathAlias.Proofs.ConfigFile.Loading

/-!
Configurations of directories that are spelled with the same components. The search for a
configuration file and everything that is loaded from there goes through spellings of the same paths,
so the same is in force in the end, or the same goes wrong.
-/

namespace PathAlias

variable {disk : Disk Id} {dir other : Text}

/-! ### Declarations -/

theorem Declaration.ofSource?_congr (h : components dir = components other)
    (source : Json.Relaxed.Source) : ofSource? dir source = ofSource? other source := by
  simp only [ofSource?, normalize_append_congr h]

theorem Declaration.agree_parse {path file : Text} (h : components path = components file)
    (source : Text) : Agree Eq (parse path source) (parse file source) := by
  have hdir : ofSource? (parentOrHere path) = ofSource? (parentOrHere file) :=
    funext (ofSource?_congr (components_parentOrHere_congr h))
  rw [parse, parse, hdir]
  cases (Json.Relaxed.ofText? source).bind (ofSource? (parentOrHere file)) with
  | none => exact .error ⟨rfl, h⟩
  | some declaration => exact .ok rfl

namespace ConfigFile

/-- The same is in force for two spellings of one file. -/
structure Respelled (config other : ConfigFile) : Prop where
  path : components config.path = components other.path
  baseUrl : config.baseUrl = other.baseUrl
  paths : config.paths = other.paths

theorem Respelled.inherit {config other base second : ConfigFile} (h : config.Respelled other)
    (hbase : base.Respelled second) : (config.inherit base).Respelled (other.inherit second) where
  path := h.path
  baseUrl := by simp only [ConfigFile.inherit, h.baseUrl, hbase.baseUrl]
  paths := by simp only [ConfigFile.inherit, h.paths, hbase.paths]

theorem Respelled.inheritAll {config other : ConfigFile} (h : config.Respelled other)
    {bases others : List ConfigFile} (hbases : List.Forall₂ Respelled bases others) :
    (config.inheritAll bases).Respelled (other.inheritAll others) := by
  cases hbases with
  | nil => exact h
  | cons hfirst hlater =>
      exact h.inherit (List.rel_foldl (fun _ _ hearlier _ _ hbase => hbase.inherit hearlier) hfirst
        hlater)

/-! ### Access -/

theorem rel_nearest (huniform : disk.Uniform) (h : components dir = components other) :
    Option.Rel disk.Same (nearest disk dir) (nearest disk other) :=
  Disk.rel_walkUp (fun _ _ habove => huniform.firstFile habove configFileNames) h

theorem inPackages_eq (disk : Disk Id) (value dir : Text) :
    inPackages disk value dir =
      if (disk.isFile (append (packagesIn dir) value)).run then
        some (append (packagesIn dir) value)
      else if (disk.isFile (append (packagesIn dir) (withExtension value))).run then
        some (append (packagesIn dir) (withExtension value))
      else if (disk.isDirectory (append (packagesIn dir) value)).run then
        disk.firstFile (append (packagesIn dir) value) ["tsconfig.json"]
      else none := rfl

theorem rel_inPackages (huniform : disk.Uniform) (value : Text)
    (h : components dir = components other) :
    Option.Rel disk.Same (inPackages disk value dir) (inPackages disk value other) := by
  have hpackages : components (packagesIn dir) = components (packagesIn other) :=
    components_append_congr h packageDirectory
  have hexact := huniform _ _ hpackages value
  have hnamed := huniform _ _ hpackages (withExtension value)
  rw [inPackages_eq, inPackages_eq, hexact.isFile, hnamed.isFile, hexact.isDirectory]
  split_ifs
  · exact .some hexact
  · exact .some hnamed
  · exact huniform.firstFile hexact.components _
  · exact .none

theorem agree_locateBase (huniform : disk.Uniform) (value : Text)
    (h : components dir = components other) :
    Agree disk.Same (locateBase disk dir value) (locateBase disk other value) := by
  by_cases hvalue : isPathLike value = true
  · rw [locateBase, locateBase, if_pos hvalue, if_pos hvalue, normalize_append_congr h]
    exact .ok (.refl disk _)
  · rw [locateBase_of_package hvalue, locateBase_of_package hvalue]
    have hfound := Disk.rel_walkUp (fun _ _ habove => rel_inPackages huniform value habove) h
    rw [Disk.walkUp_eq, Disk.walkUp_eq] at hfound
    generalize (ancestors dir).findSome? _ = found at hfound ⊢
    generalize (ancestors other).findSome? _ = second at hfound ⊢
    cases hfound with
    | some hsame => exact .ok hsame
    | none =>
        refine .error ⟨rfl, ?_⟩
        exact components_append_congr (components_append_congr h packageDirectory) value

theorem agree_readDeclaration {path file : Text} (h : disk.Same path file) :
    Agree (@Eq Declaration) (readDeclaration disk path) (readDeclaration disk file) := by
  rw [readDeclaration_eq, readDeclaration_eq, h.readText]
  cases disk.readText file with
  | error cause => exact .error ⟨rfl, h.components⟩
  | ok source => exact Declaration.agree_parse h.components source

theorem components_identity {path file : Text} (h : disk.Same path file) :
    components (identity disk path) = components (identity disk file) := by
  change components ((disk.real path).run.getD path) = components ((disk.real file).run.getD file)
  rw [h.real]
  cases disk.real file with
  | none => exact h.components
  | some real => rfl

/-! ### Loading -/

theorem loadWithin_succ (disk : Disk Id) (fuel : Nat) (chain : List Text) (path : Text) :
    loadWithin disk (fuel + 1) chain path =
      if chain.any (samePath (identity disk path)) then
        throw (.extendsCycle (identity disk path))
      else do
        let declared ← ExceptT.mk (readDeclaration disk path)
        let bases ← (declared.bases.getD []).mapM (loadBase disk fuel chain path)
        return inheritAll { path, baseUrl := declared.baseUrl, paths := declared.paths } bases := by
  rw [loadWithin]
  refine (bind_ok rfl).trans ?_
  split_ifs <;> rfl

theorem agree_loadWithin (huniform : disk.Uniform) {fuel : Nat} {chain others : List Text}
    {path file : Text} (h : disk.Same path file)
    (hchain : chain.map components = others.map components) :
    Agree Respelled (loadWithin disk fuel chain path) (loadWithin disk fuel others file) := by
  induction fuel generalizing chain others path file with
  | zero => exact .error ⟨rfl, h.components⟩
  | succ fuel ih =>
      have hknown := components_identity h
      have hany : chain.any (samePath (identity disk path)) =
          others.any (samePath (identity disk file)) := by
        have hmap : ∀ row : List Text, ∀ known, row.any (samePath known) =
            (row.map components).any fun above => components known == above :=
          fun row known => List.any_map.symm
        rw [hmap, hmap, hchain, hknown]
      rw [loadWithin_succ, loadWithin_succ, hany]
      split_ifs
      · exact .error ⟨rfl, hknown⟩
      refine (agree_readDeclaration h).bind fun declared found hsame => ?_
      subst hsame
      have hbase : ∀ value, Agree Respelled (loadBase disk fuel chain path value)
          (loadBase disk fuel others file value) := by
        intro value
        refine (agree_locateBase huniform value
          (components_parentOrHere_congr h.components)).bind fun base second hsame => ih hsame ?_
        rw [List.map_cons, List.map_cons, hknown, hchain]
      refine (Agree.mapM fun value _ => hbase value).bind fun bases seconds hbases => ?_
      have hown : Respelled { path, baseUrl := declared.baseUrl, paths := declared.paths }
          { path := file, baseUrl := declared.baseUrl, paths := declared.paths } :=
        ⟨h.components, rfl, rfl⟩
      exact .ok (hown.inheritAll hbases)

end ConfigFile

namespace Configuration

/-- The same configuration, from two spellings of its file. -/
structure Respelled (config other : Configuration) : Prop where
  same : { config with configFile := other.configFile } = other
  configFile : config.configFile.map components = other.configFile.map components

theorem respelled_ofFile (env : Environment) {config other : ConfigFile}
    (h : config.Respelled other) : (ofFile env config).Respelled (ofFile env other) where
  same := by
    have hdir : components config.dir = components other.dir :=
      components_parentOrHere_congr h.path
    simp only [ofFile, h.baseUrl, h.paths, normalize_append_congr hdir, normalize_congr hdir]
  configFile := congrArg some h.path

theorem locate_of_unnamed (disk : Disk Id) {env : Environment} {project : Option Text} (cwd : Text)
    (h : project.or (env projectVariable) = none) :
    locate disk env cwd project =
      match ConfigFile.nearest disk cwd with
      | some path => .ok path
      | none => .error (.configNotFound cwd) := by
  rw [locate, h]
  cases ConfigFile.nearest disk cwd <;> rfl

theorem agree_locate (huniform : disk.Uniform) (env : Environment) (project : Option Text)
    (h : components dir = components other) :
    Agree disk.Same (locate disk env dir project) (locate disk env other project) := by
  cases hproject : project.or (env projectVariable) with
  | none =>
      rw [locate_of_unnamed disk dir hproject, locate_of_unnamed disk other hproject]
      have hnearest := ConfigFile.rel_nearest huniform h
      generalize ConfigFile.nearest disk dir = found at hnearest ⊢
      generalize ConfigFile.nearest disk other = second at hnearest ⊢
      cases hnearest with
      | some hsame => exact .ok hsame
      | none => exact .error ⟨rfl, h⟩
  | some given =>
      simp only [locate, hproject, normalize_append_congr h]
      exact .refl (.refl disk) _

theorem agree_load (huniform : disk.Uniform) (env : Environment) (project : Option Text)
    (h : components dir = components other) :
    Agree Respelled (load disk env dir project) (load disk env other project) := by
  refine (agree_locate huniform env project h).bind fun path file hfile => ?_
  refine (ConfigFile.agree_loadWithin huniform hfile rfl).bind fun config second hconfig => ?_
  exact .ok (respelled_ofFile env hconfig)

/-- Directories that are spelled with the same components have the same configuration. -/
theorem agree_forDirectory (huniform : disk.Uniform) (env : Environment)
    (explicit : Option Explicit) (h : components dir = components other) :
    Agree Respelled (forDirectory disk env explicit dir) (forDirectory disk env explicit other) := by
  cases explicit with
  | none => exact agree_load huniform env none h
  | some parameters =>
      have hsame : parameters.configuration dir = parameters.configuration other := by
        simp only [Explicit.configuration, normalize_append_congr h]
      exact .ok (hsame ▸ ⟨rfl, rfl⟩)

end Configuration

end PathAlias
