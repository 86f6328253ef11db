import PathAlias.Proofs.ConfigFile.Canonical
import PathAlias.Proofs.ConfigFile.Packages

/-!
Where a configuration file is found. In a tree an absolute path without `..` leads to the place that
its components name, or nowhere, and so every question that the search asks is about a place: whether a
directory is there, and which of the two names is a regular file in it. The search goes through the
places above the directory it starts in, and each of its outcomes is told from what is at them.
-/

namespace PathAlias

/-! ### What is at a place -/

namespace Location

/-- The place that the components of a path name, read from the root. -/
def spelled (p : Text) : Location := walk [] (components p)

/-- An absolute path without `..` has the components of the path of its place. -/
theorem components_text_spelled {p : Text} (habsolute : isAbsolute p = true)
    (hup : .up ∉ components p) :
    (∀ n ∈ spelled p, IsName n) ∧ components (spelled p).text = components p := by
  obtain ⟨names, hnames⟩ := exists_components_of_not_up habsolute hup
  have hplace : spelled p = names.reverse := by
    rw [spelled, hnames]
    exact (walk_names [] names).trans (List.append_nil _)
  have hname : ∀ n ∈ names.reverse, IsName n := by
    intro n hn
    refine isName_of_mem_components (p := p) ?_
    rw [hnames]
    exact List.mem_cons_of_mem _ (List.mem_map_of_mem (List.mem_reverse.mp hn))
  rw [hplace, components_text hname, List.reverse_reverse, hnames]
  exact ⟨hname, rfl⟩

/-- The path of a place spells it. -/
theorem spelled_text {place : Location} (h : ∀ n ∈ place, IsName n) : spelled place.text = place := by
  rw [spelled, components_text h]
  exact (walk_names [] place.reverse).trans (by rw [List.reverse_reverse, List.append_nil])

end Location

theorem IsCanonical.not_up {p : Text} (h : IsCanonical p) : .up ∉ components p := by
  obtain ⟨place, hplace, rfl⟩ := isCanonical_iff.mp h
  rw [Location.components_text hplace]
  simp

namespace Tree

variable (tree : Tree)

/-- A directory is at a place, and the way to it is there. -/
def HasDirectory (place : Location) : Prop := tree.Leads place ∧ tree.node? place = some .directory

/-- A regular file of this name is right in the directory at a place. -/
def HasFile (place : Location) (n : Text) : Prop :=
  tree.Leads (n :: place) ∧ ∃ bytes, tree.node? (n :: place) = some (.file bytes)

variable {tree}

/-- Names that are found lead down to one place only. -/
theorem eq_of_find_names {names : List Text} (hnames : ∀ n ∈ names, IsName n)
    {start place : Location} (h : tree.find start names = .ok place) :
    place = names.reverse ++ start := by
  induction names generalizing start with
  | nil =>
      cases h
      rfl
  | cons n names ih =>
      obtain ⟨hn, hnames⟩ := List.forall_mem_cons.mp hnames
      rw [find_cons tree (tree.node?_of_find h), if_neg hn.not_isBlank, if_neg hn.ne_up] at h
      split_ifs at h
      rw [ih hnames h, List.reverse_cons, List.append_assoc]
      rfl

/-- The path of a place leads nowhere else. -/
theorem leads_of_locate_text {cwd place found : Location} (hplace : ∀ n ∈ place, IsName n)
    (h : tree.locate cwd place.text = .ok found) : found = place ∧ tree.Leads place := by
  have habsolute : isAbsolute place.text = true := rfl
  have hrow : tree.find [] (segments place.text) = .ok found := by
    rw [locate, if_pos habsolute] at h
    split_ifs at h
    exact h
  obtain ⟨row, hsegments⟩ := segments_of_isAbsolute habsolute
  have hroot : tree.node? [] = some .directory := by
    rw [hsegments] at hrow
    exact tree.node?_of_find hrow
  have hfound : found = place := by
    by_cases hne : place = []
    · subst hne
      have hsegments : segments (Location.text []) = [[], []] := rfl
      rw [hsegments, find_nil tree hroot, find_nil tree hroot] at hrow
      exact (Except.ok.inj hrow).symm
    · rw [Location.segments_text (fun n hn => (hplace n hn).slash) hne, find_nil tree hroot] at hrow
      have hnames := eq_of_find_names (fun n hn => hplace n (List.mem_reverse.mp hn)) hrow
      rwa [List.reverse_reverse, List.append_nil] at hnames
  -- an absolute path leads there from the root as well
  have hfromRoot : tree.locate [] place.text = .ok place := hfound ▸ h
  exact ⟨hfound, Standpoint.leads_of_locate ⟨[], hroot, hroot⟩ hfromRoot⟩

/-- What the path of a place shows is what is at that place. -/
theorem lookAt_text_iff (cwd : Location) {place : Location} (hplace : ∀ n ∈ place, IsName n) {node : Node} :
    tree.lookAt cwd place.text = .ok node ↔ tree.Leads place ∧ tree.node? place = some node := by
  constructor
  · intro h
    rw [lookAt] at h
    cases hlocate : tree.locate cwd place.text with
    | error cause => simp [hlocate] at h
    | ok found =>
        obtain ⟨rfl, hleads⟩ := leads_of_locate_text hplace hlocate
        cases hnode : tree.node? found with
        | none => simp [hlocate, hnode] at h
        | some other =>
            simp only [hlocate, hnode] at h
            exact ⟨hleads, congrArg some (Except.ok.inj h)⟩
  · rintro ⟨hleads, hnode⟩
    rw [lookAt, tree.locate_text hleads cwd]
    simp only [hnode]

/-- A canonical path shows whether a directory is at its place. -/
theorem isDirectory_canonical_iff (cwd : Location) {p : Text} (h : IsCanonical p) :
    ((tree.disk cwd).isDirectory p).run = true ↔ tree.HasDirectory (Location.spelled p) := by
  obtain ⟨place, hplace, rfl⟩ := isCanonical_iff.mp h
  rw [isDirectory_iff, lookAt_text_iff cwd hplace, Location.spelled_text hplace, HasDirectory]

/-- A name below an absolute path without `..` shows what is in the directory at its place. -/
theorem isFile_append_iff (cwd : Location) {p n : Text} (habsolute : isAbsolute p = true)
    (hup : .up ∉ components p) (hn : IsName n) :
    ((tree.disk cwd).isFile (append p n)).run = true ↔ tree.HasFile (Location.spelled p) n := by
  obtain ⟨hplace, hcomponents⟩ := Location.components_text_spelled habsolute hup
  generalize Location.spelled p = place at hplace hcomponents ⊢
  have hrelative : isAbsolute n = false := isAbsolute_of_not_mem hn.slash
  have hlocate : tree.locate cwd (append p n) = tree.locate cwd (Location.text (n :: place)) := by
    rw [tree.locate_append_congr cwd hcomponents.symm, Location.append_text hplace hrelative]
  have hlook : tree.lookAt cwd (append p n) = tree.lookAt cwd (Location.text (n :: place)) := by
    rw [lookAt, lookAt, hlocate]
  rw [isFile_iff, hlook]
  simp only [lookAt_text_iff cwd (List.forall_mem_cons.mpr ⟨hn, hplace⟩), HasFile, exists_and_left]

/-- The name of the configuration file right in a directory: of the two names the first one that is a
regular file there. -/
inductive Configures (tree : Tree) (place : Location) : Text → Prop
  | tsconfig : tree.HasFile place "tsconfig.json" → Configures tree place "tsconfig.json"
  | jsconfig : ¬ tree.HasFile place "tsconfig.json" → tree.HasFile place "jsconfig.json" →
      Configures tree place "jsconfig.json"

theorem find?_configFileNames_eq_some_iff (cwd : Location) {p n : Text}
    (habsolute : isAbsolute p = true) (hup : .up ∉ components p) :
    (configFileNames.find? fun name => ((tree.disk cwd).isFile (append p name)).run) = some n ↔
      tree.Configures (Location.spelled p) n := by
  have htsconfig : IsName "tsconfig.json" := by decide
  have hjsconfig : IsName "jsconfig.json" := by decide
  rw [configFileNames, List.find?_cons, List.find?_cons, List.find?_nil]
  by_cases hts : tree.HasFile (Location.spelled p) "tsconfig.json"
  · rw [(isFile_append_iff cwd habsolute hup htsconfig).mpr hts]
    constructor
    · intro h
      cases h
      exact .tsconfig hts
    · intro h
      cases h with
      | tsconfig _ => rfl
      | jsconfig hnone _ => exact absurd hts hnone
  rw [Bool.eq_false_iff.mpr (mt (isFile_append_iff cwd habsolute hup htsconfig).mp hts)]
  by_cases hjs : tree.HasFile (Location.spelled p) "jsconfig.json"
  · rw [(isFile_append_iff cwd habsolute hup hjsconfig).mpr hjs]
    constructor
    · intro h
      cases h
      exact .jsconfig hts hjs
    · intro h
      cases h with
      | tsconfig hthere => exact absurd hthere hts
      | jsconfig _ _ => rfl
  · rw [Bool.eq_false_iff.mpr (mt (isFile_append_iff cwd habsolute hup hjsconfig).mp hjs)]
    refine iff_of_false nofun fun h => ?_
    cases h with
    | tsconfig hthere => exact hts hthere
    | jsconfig _ hthere => exact hjs hthere

theorem firstFile_eq_some_iff (cwd : Location) {p path : Text} (habsolute : isAbsolute p = true)
    (hup : .up ∉ components p) :
    ((tree.disk cwd).firstFile p configFileNames).run = some path ↔
      ∃ n, tree.Configures (Location.spelled p) n ∧ path = append p n := by
  rw [Disk.firstFile_eq]
  refine Option.map_eq_some_iff.trans (exists_congr fun n => ?_)
  exact and_congr (find?_configFileNames_eq_some_iff cwd habsolute hup) eq_comm

theorem firstFile_eq_none_iff (cwd : Location) {p : Text} (habsolute : isAbsolute p = true)
    (hup : .up ∉ components p) :
    ((tree.disk cwd).firstFile p configFileNames).run = none ↔
      ∀ n, ¬ tree.Configures (Location.spelled p) n := by
  simp only [Option.eq_none_iff_forall_ne_some, ne_eq, firstFile_eq_some_iff cwd habsolute hup]
  exact ⟨fun h n hn => h _ ⟨n, hn, rfl⟩, fun h path ⟨n, hn, _⟩ => h n hn⟩

end Tree

/-! ### The search -/

/-- Above an absolute path without `..` there are only such paths. -/
theorem not_up_of_mem_ancestors {p dir : Text} (hup : .up ∉ components p) (hdir : dir ∈ ancestors p) :
    .up ∉ components dir := by
  have hmem : components dir ∈ (components p).inits := by
    have hrow := List.mem_map_of_mem (f := components) hdir
    rw [map_components_ancestors, List.mem_reverse] at hrow
    split_ifs at hrow
    · exact List.mem_of_mem_tail hrow
    · exact hrow
  exact fun hmem' => hup (((List.mem_inits _ _).mp hmem).subset hmem')

/-- What a search for a configuration file comes to, for the directory `cwd` and a project that may be
named. -/
inductive Discovery (tree : Tree) (cwd : Text) : Option Text → Except Error Text → Prop
  /-- What is named is no directory, and so it is the file itself. -/
  | named {given : Text} :
      ¬ tree.HasDirectory (Location.spelled (normalize (append cwd given))) →
      Discovery tree cwd (some given) (.ok (normalize (append cwd given)))
  /-- A directory is named, and the file is right in it. -/
  | inside {given n : Text} :
      tree.HasDirectory (Location.spelled (normalize (append cwd given))) →
      tree.Configures (Location.spelled (normalize (append cwd given))) n →
      Discovery tree cwd (some given) (.ok (append (normalize (append cwd given)) n))
  /-- A directory is named, and there is no file in it. -/
  | empty {given : Text} :
      tree.HasDirectory (Location.spelled (normalize (append cwd given))) →
      (∀ n, ¬ tree.Configures (Location.spelled (normalize (append cwd given))) n) →
      Discovery tree cwd (some given) (.error (.configNotFound (normalize (append cwd given))))
  /-- Nothing is named, and of the directories on the way up this is the first with a file. -/
  | nearest {nearer farther : List Text} {dir n : Text} :
      ancestors cwd = nearer ++ dir :: farther →
      (∀ other ∈ nearer, ∀ name, ¬ tree.Configures (Location.spelled other) name) →
      tree.Configures (Location.spelled dir) n →
      Discovery tree cwd none (.ok (append dir n))
  /-- Nothing is named, and there is no file at any place up to the root. -/
  | nowhere :
      (∀ place ∈ (Location.spelled cwd).tails, ∀ n, ¬ tree.Configures place n) →
      Discovery tree cwd none (.error (.configNotFound cwd))

section Search

variable {tree : Tree} (here : Location) {cwd : Text} (habsolute : isAbsolute cwd = true)
  (hup : .up ∉ components cwd)

include habsolute hup

theorem firstFile_of_mem_ancestors {dir path : Text} (hdir : dir ∈ ancestors cwd) :
    ((tree.disk here).firstFile dir configFileNames).run = some path ↔
      ∃ n, tree.Configures (Location.spelled dir) n ∧ path = append dir n :=
  Tree.firstFile_eq_some_iff here (isAbsolute_of_mem_ancestors habsolute hdir)
    (not_up_of_mem_ancestors hup hdir)

theorem no_firstFile_of_mem_ancestors {dir : Text} (hdir : dir ∈ ancestors cwd) :
    ((tree.disk here).firstFile dir configFileNames).run = none ↔
      ∀ n, ¬ tree.Configures (Location.spelled dir) n :=
  Tree.firstFile_eq_none_iff here (isAbsolute_of_mem_ancestors habsolute hdir)
    (not_up_of_mem_ancestors hup hdir)

/-- The nearest configuration file is in the first directory on the way up that has one. -/
theorem nearest_eq_some_iff {path : Text} :
    (ConfigFile.nearest (tree.disk here) cwd).run = some path ↔
      ∃ nearer dir farther, ancestors cwd = nearer ++ dir :: farther ∧
        (∀ other ∈ nearer, ∀ n, ¬ tree.Configures (Location.spelled other) n) ∧
        ∃ n, tree.Configures (Location.spelled dir) n ∧ path = append dir n := by
  rw [ConfigFile.nearest, Disk.walkUp_eq]
  refine List.findSome?_eq_some_iff.trans (exists₃_congr fun nearer dir farther => ?_)
  refine and_congr_right fun hsplit => and_comm.trans ?_
  have hdir : dir ∈ ancestors cwd := hsplit ▸ List.mem_append_right nearer List.mem_cons_self
  have hnearer : ∀ other ∈ nearer, other ∈ ancestors cwd := fun other hother =>
    hsplit ▸ List.mem_append_left (dir :: farther) hother
  exact and_congr
    (forall₂_congr fun other hother =>
      no_firstFile_of_mem_ancestors here habsolute hup (hnearer other hother))
    (firstFile_of_mem_ancestors here habsolute hup hdir)

theorem nearest_eq_none_iff :
    (ConfigFile.nearest (tree.disk here) cwd).run = none ↔
      ∀ place ∈ (Location.spelled cwd).tails, ∀ n, ¬ tree.Configures place n := by
  have hplaces : (ancestors cwd).map Location.spelled = (Location.spelled cwd).tails :=
    Location.map_walk_ancestors habsolute hup
  rw [ConfigFile.nearest, Disk.walkUp_eq, ← hplaces, List.forall_mem_map]
  refine List.findSome?_eq_none_iff.trans (forall₂_congr fun dir hdir => ?_)
  exact no_firstFile_of_mem_ancestors here habsolute hup hdir

variable {env : Environment} {project : Option Text} {outcome : Except Error Text}

theorem locate_unnamed_iff (hproject : project.or (env projectVariable) = none) :
    Configuration.locate (tree.disk here) env cwd project = outcome ↔
      Discovery tree cwd none outcome := by
  have hsome := @nearest_eq_some_iff tree here cwd habsolute hup
  have hnone := @nearest_eq_none_iff tree here cwd habsolute hup
  have hlocate := Configuration.locate_of_unnamed (tree.disk here) cwd hproject
  constructor
  · rintro rfl
    cases hnearest : ConfigFile.nearest (tree.disk here) cwd with
    | none =>
        rw [hlocate, hnearest]
        exact .nowhere (hnone.mp hnearest)
    | some path =>
        obtain ⟨nearer, dir, farther, hsplit, hnearer, n, hn, rfl⟩ := hsome.mp hnearest
        rw [hlocate, hnearest]
        exact .nearest hsplit hnearer hn
  · intro h
    cases h with
    | @nearest _ _ dir n hsplit hnearer hn =>
        have hnearest : ConfigFile.nearest (tree.disk here) cwd = some (append dir n) :=
          hsome.mpr ⟨_, _, _, hsplit, hnearer, n, hn, rfl⟩
        rw [hlocate, hnearest]
    | nowhere hempty =>
        have hnearest : ConfigFile.nearest (tree.disk here) cwd = none := hnone.mpr hempty
        rw [hlocate, hnearest]

omit hup in
theorem locate_named_iff {given : Text} (hproject : project.or (env projectVariable) = some given) :
    Configuration.locate (tree.disk here) env cwd project = outcome ↔
      Discovery tree cwd (some given) outcome := by
  have hcanonical : IsCanonical (normalize (append cwd given)) :=
    isCanonical_normalize (isAbsolute_append habsolute given)
  have hdirectory := @Tree.isDirectory_canonical_iff tree here _ hcanonical
  have hsome := fun path =>
    @Tree.firstFile_eq_some_iff tree here _ path hcanonical.isAbsolute hcanonical.not_up
  have hnone := @Tree.firstFile_eq_none_iff tree here _ hcanonical.isAbsolute hcanonical.not_up
  have hlocate := Configuration.locate_of_named (tree.disk here) cwd hproject
  constructor
  · rintro rfl
    rw [hlocate]
    split_ifs with hdir
    · have hdir := hdirectory.mp hdir
      cases hfile : (tree.disk here).firstFile (normalize (append cwd given)) configFileNames with
      | none => exact .empty hdir (hnone.mp hfile)
      | some path =>
          obtain ⟨n, hn, rfl⟩ := (hsome path).mp hfile
          exact .inside hdir hn
    · exact .named (mt hdirectory.mpr hdir)
  · intro h
    cases h with
    | named hdir => rw [hlocate, if_neg (mt hdirectory.mp hdir)]
    | @inside _ n hdir hn =>
        have hfile : (tree.disk here).firstFile (normalize (append cwd given)) configFileNames =
            some (append (normalize (append cwd given)) n) := (hsome _).mpr ⟨n, hn, rfl⟩
        rw [hlocate, if_pos (hdirectory.mpr hdir), hfile]
    | empty hdir hempty =>
        have hfile : (tree.disk here).firstFile (normalize (append cwd given)) configFileNames =
            none := hnone.mpr hempty
        rw [hlocate, if_pos (hdirectory.mpr hdir), hfile]

/-- What the search comes to can be told from what is at the places. -/
theorem locate_eq_iff (env : Environment) (project : Option Text) (outcome : Except Error Text) :
    Configuration.locate (tree.disk here) env cwd project = outcome ↔
      Discovery tree cwd (project.or (env projectVariable)) outcome := by
  cases hproject : project.or (env projectVariable) with
  | none => exact locate_unnamed_iff here habsolute hup hproject
  | some given => exact locate_named_iff here habsolute hproject

end Search

/-! ### Loading what is found -/

/-- That no configuration file was found is told by the search only. -/
theorem ConfigFile.loadWithin_ne_notFound {disk : Disk Id} {fuel : Nat} {chain : List Text} {path : Text}
    {e : Error} (h : loadWithin disk fuel chain path = Except.error e) (start : Text) :
    e ≠ .configNotFound start := by
  induction fuel generalizing chain path with
  | zero =>
      cases h
      exact nofun
  | succ fuel ih =>
      obtain ⟨-, rfl⟩ | ⟨-, hread | ⟨number, hmissing | ⟨file, -, hfile⟩, -⟩⟩ := loadWithin_eq_error h
      · exact nofun
      · obtain ⟨cause, rfl⟩ | rfl := readDeclaration_eq_error hread <;> exact nofun
      · obtain ⟨declared, -, value, -, hlocate⟩ := read_of_base? hmissing
        rw [locateBase_eq_error hlocate]
        exact nofun
      · exact ih hfile

/-- **Discovery.** For an absolute directory without `..` the file that a configuration is loaded from is
told from what is at the places of the tree. A project that is named, and else the one that the
environment names, is this file itself unless it is a directory, and then it is the first of the two names
that is a regular file in it. If none is named it is the first of them in the nearest directory that has
one, and the directories that are searched are at the place of the directory and at all places above it,
once each. The search fails exactly where the named directory has neither, or no directory up to the root
has one, and it reports the directory that it started in. Loading gives what the file gives, and it
reports that there is no file exactly where the search does. -/
theorem configuration_discovered (tree : Tree) (here : Location) (env : Environment)
    (project : Option Text) {cwd : Text} (habsolute : isAbsolute cwd = true)
    (hup : .up ∉ components cwd) :
    let disk := tree.disk here
    let named := project.or (env projectVariable)
    (∀ outcome, Configuration.locate disk env cwd project = outcome ↔
      Discovery tree cwd named outcome) ∧
    (ancestors cwd).map Location.spelled = (Location.spelled cwd).tails ∧
    (∀ path, Discovery tree cwd named (.ok path) →
      Configuration.load disk env cwd project =
        Configuration.ofFile env <$> ConfigFile.load disk path) ∧
    (∀ configuration, Configuration.load disk env cwd project = Except.ok configuration →
      ∃ path, configuration.configFile = some path ∧ Discovery tree cwd named (.ok path)) ∧
    ∀ start, Configuration.load disk env cwd project = Except.error (.configNotFound start) ↔
      Discovery tree cwd named (.error (.configNotFound start)) := by
  intro disk named
  have hlocate := @locate_eq_iff tree here cwd habsolute hup env project
  refine ⟨hlocate, Location.map_walk_ancestors habsolute hup, fun path h => ?_,
    fun configuration h => ?_, fun start => ⟨fun h => ?_, fun h => ?_⟩⟩
  · exact (bind_ok ((hlocate _).mpr h)).trans (bind_pure_comp _ _)
  · obtain ⟨path, hpath, h⟩ := bind_eq_ok h
    obtain ⟨config, hconfig, h⟩ := bind_eq_ok h
    cases h
    exact ⟨path, congrArg some (ConfigFile.path_of_load hconfig), (hlocate _).mp hpath⟩
  · cases hfound : Configuration.locate disk env cwd project with
    | error e =>
        cases (bind_error hfound).symm.trans h
        exact (hlocate _).mp hfound
    | ok path =>
        replace h := (bind_ok hfound).symm.trans h
        cases hload : ConfigFile.load disk path with
        | ok config => cases (bind_ok hload).symm.trans h
        | error e =>
            cases (bind_error hload).symm.trans h
            exact absurd rfl (ConfigFile.loadWithin_ne_notFound hload start)
  · exact bind_error ((hlocate _).mpr h)

/-- A directory with a directory that is named like a configuration file, below one with a file of the
second name, below one with a file of the first. -/
def nested : Tree where
  files := [(["tsconfig.json"], []), (["jsconfig.json", "app"], [])]
  directories := [["app"], ["web", "app"], ["tsconfig.json", "web", "app"]]

theorem configuration_discovered_nested :
    isAbsolute "/app/web" = true ∧ .up ∉ components "/app/web" ∧
    Discovery nested "/app/web" none (.ok "/app/jsconfig.json") :=
  ⟨by decide, by decide,
    ((configuration_discovered nested [] (fun _ => none) none (by decide) (by decide)).1 _).mp
      (by rfl)⟩

end PathAlias
