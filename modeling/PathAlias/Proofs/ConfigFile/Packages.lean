import PathAlias.Proofs.ConfigFile.Respelling
import PathAlias.Proofs.Uniform

/-!
Packages that are extended. In the packages of one directory three files are looked for, and in a tree
the last of them can only be there if the directory that it is asked for in is there. So the search is
for the first of these files in the nearest directory that has one of them. Over an absolute directory
without `..` the directories that are searched are the directory itself and the ones above it.
-/

namespace PathAlias

/-! ### Places above a directory -/

namespace Location

theorem walk_names (place : Location) (names : List Text) :
    place.walk (names.map .name) = names.reverse ++ place := by
  induction names generalizing place with
  | nil => rfl
  | cons n names ih =>
      rw [List.reverse_cons, List.append_assoc]
      exact ih (n :: place)

theorem map_walk_tails (back : List Text) :
    ((back.map Component.name).tails.map fun below => walk [] (.root :: below.reverse)) = back.tails := by
  induction back with
  | nil => rfl
  | cons n back ih =>
      have hfirst : walk [] (.root :: ((n :: back).map Component.name).reverse) = n :: back := by
        rw [← List.map_reverse]
        exact (walk_names [] _).trans (by rw [List.reverse_reverse, List.append_nil])
      rw [List.map_cons] at hfirst ⊢
      rw [List.tails_cons, List.map_cons, ih, hfirst, List.tails_cons]

/-- The directories that are searched from a directory are at its place and at the places above. -/
theorem map_walk_ancestors {dir : Text} (habsolute : isAbsolute dir = true)
    (hup : .up ∉ components dir) :
    (ancestors dir).map (fun above => walk [] (components above)) = (walk [] (components dir)).tails := by
  obtain ⟨names, hnames⟩ := exists_components_of_not_up habsolute hup
  have hplace : walk [] (components dir) = names.reverse := by
    rw [hnames]
    exact (walk_names [] names).trans (List.append_nil _)
  have hrows : (ancestors dir).map components =
      (names.reverse.map Component.name).tails.map fun below => .root :: below.reverse := by
    have htails : ∀ row : List Component, row.tails = row :: row.tails.tail := fun row => by
      cases row <;> rfl
    rw [ancestors, List.map_cons, map_above, hnames, Component.above, if_pos rfl, List.append_nil,
      ← List.map_reverse, htails, List.map_cons, List.map_reverse, List.reverse_reverse]
    rfl
  calc (ancestors dir).map (fun above => walk [] (components above))
      = ((ancestors dir).map components).map (walk []) := (List.map_map ..).symm
    _ = names.reverse.tails := by
        rw [hrows, List.map_map]
        exact map_walk_tails names.reverse
    _ = (walk [] (components dir)).tails := by rw [hplace]

end Location

/-! ### Files in directories of a tree -/

namespace Tree

variable (tree : Tree)

/-- What is found one segment further is found in a directory. -/
theorem find_concat {row : List Text} {start place : Location} {last : Text}
    (h : tree.find start (row ++ [last]) = .ok place) :
    ∃ dir, tree.find start row = .ok dir ∧ tree.node? dir = some .directory := by
  induction row generalizing start with
  | nil => exact ⟨start, rfl, tree.node?_of_find h⟩
  | cons segment row ih =>
      have hnode := tree.node?_of_find h
      rw [List.cons_append, find_cons tree hnode] at h
      rw [find_cons tree hnode]
      split_ifs at h ⊢ with hblank hup hlong hnone
      · exact ih h
      · exact ih h
      · exact ih h

/-- What leads on from a path in a directory leads there through the path itself. -/
theorem locate_of_append {cwd : Location} {dir n : Text} (hdir : dir ≠ []) (hn : IsName n)
    {place : Location} (h : tree.locate cwd (append dir n) = .ok place) :
    ∃ above, tree.locate cwd dir = .ok above ∧ tree.node? above = some .directory := by
  have hrelative : isAbsolute n = false := isAbsolute_of_not_mem hn.slash
  have hsame : isAbsolute (append dir n) = isAbsolute dir := by
    obtain ⟨c, rest, rfl⟩ := List.exists_cons_of_ne_nil hdir
    rw [append, if_neg (Bool.eq_false_iff.mp hrelative)]
    split_ifs <;> rfl
  have hsegments : ∀ start, tree.find start (segments (append dir n)) =
      tree.find start (segments dir ++ [n]) := by
    intro start
    rw [find_segments_append tree hdir hrelative, find_steps tree (segments dir) n [], segments,
      splitOn_of_not_mem hn.slash]
    rfl
  rw [locate, hsame, hsegments] at h
  rw [locate]
  generalize (if isAbsolute dir = true then [] else cwd) = start at h ⊢
  split_ifs at h with hnul hnil
  obtain ⟨above, habove, hdirectory⟩ := tree.find_concat h
  rw [nul_mem_append hrelative, not_or] at hnul
  rw [if_neg hnul.1, if_neg hdir]
  exact ⟨above, habove, hdirectory⟩

theorem isFile_iff {cwd : Location} {path : Text} :
    ((tree.disk cwd).isFile path).run = true ↔ ∃ bytes, tree.lookAt cwd path = .ok (.file bytes) := by
  have hstat : (tree.disk cwd).stat path = (tree.lookAt cwd path).map Node.kind := rfl
  cases hlook : tree.lookAt cwd path with
  | error cause =>
      have hfile : ((tree.disk cwd).isFile path).run = false := by
        rw [Disk.isFile, hstat, hlook]
        rfl
      simp [hfile]
  | ok node =>
      have hfile : ((tree.disk cwd).isFile path).run = (node.kind == .file) := by
        rw [Disk.isFile, hstat, hlook]
        cases node <;> rfl
      cases node <;> simp [hfile, Node.kind]

theorem isDirectory_iff {cwd : Location} {path : Text} :
    ((tree.disk cwd).isDirectory path).run = true ↔ tree.lookAt cwd path = .ok .directory := by
  have hstat : (tree.disk cwd).stat path = (tree.lookAt cwd path).map Node.kind := rfl
  cases hlook : tree.lookAt cwd path with
  | error cause =>
      have hdirectory : ((tree.disk cwd).isDirectory path).run = false := by
        rw [Disk.isDirectory, hstat, hlook]
        rfl
      simp [hdirectory]
  | ok node =>
      have hdirectory : ((tree.disk cwd).isDirectory path).run = (node.kind == .directory) := by
        rw [Disk.isDirectory, hstat, hlook]
        cases node <;> rfl
      cases node <;> simp [hdirectory, Node.kind]

/-- A file that is there is in a directory that is there. -/
theorem isDirectory_of_isFile {cwd : Location} {dir n : Text} (hdir : dir ≠ []) (hn : IsName n)
    (h : ((tree.disk cwd).isFile (append dir n)).run = true) :
    ((tree.disk cwd).isDirectory dir).run = true := by
  obtain ⟨bytes, hlook⟩ := tree.isFile_iff.mp h
  rw [lookAt] at hlook
  cases hlocate : tree.locate cwd (append dir n) with
  | error cause => simp [hlocate] at hlook
  | ok place =>
      obtain ⟨above, habove, hdirectory⟩ := tree.locate_of_append hdir hn hlocate
      exact tree.isDirectory_iff.mpr (by simp only [lookAt, habove, hdirectory])

end Tree

namespace ConfigFile

/-- The files that a package may be, in the packages of one directory: a file of this name, the same with
its extension, and the configuration file in a directory of this name. -/
def packageFiles (value dir : Text) : List Text :=
  [append (packagesIn dir) value, append (packagesIn dir) (withExtension value),
    append (append (packagesIn dir) value) "tsconfig.json"]

/-! ### The nearest package -/

section Packages

variable (tree : Tree) (cwd : Location)

theorem inPackages_eq_find? (value dir : Text) :
    (inPackages (tree.disk cwd) value dir).run =
      (packageFiles value dir).find? fun file => ((tree.disk cwd).isFile file).run := by
  have hname : IsName "tsconfig.json" := by decide
  have hpackages : packagesIn dir ≠ [] := append_ne_nil (Or.inr (by decide))
  have hexact : append (packagesIn dir) value ≠ [] := append_ne_nil (Or.inl hpackages)
  have hinside := @Tree.isDirectory_of_isFile tree cwd _ _ hexact hname
  rw [inPackages_eq, packageFiles, Disk.firstFile_eq]
  split_ifs with hfile hnamed hdirectory
  · simp only [List.find?_cons, hfile]
    rfl
  · simp only [List.find?_cons, Bool.eq_false_iff.mpr hfile, hnamed]
    rfl
  · simp only [List.find?_cons, Bool.eq_false_iff.mpr hfile, Bool.eq_false_iff.mpr hnamed,
      List.find?_nil]
    cases (tree.disk cwd).isFile (append (append (packagesIn dir) value) "tsconfig.json") <;> rfl
  · simp only [List.find?_cons, Bool.eq_false_iff.mpr hfile, Bool.eq_false_iff.mpr hnamed,
      Bool.eq_false_iff.mpr (mt hinside hdirectory), List.find?_nil]
    rfl

variable {tree cwd} {dir value base : Text}

/-- What the search through the directories finds is the first file in the nearest directory. -/
theorem search_eq_some_iff :
    (ancestors dir).findSome? (fun above => (inPackages (tree.disk cwd) value above).run) = some base ↔
      ∃ nearer above farther, ancestors dir = nearer ++ above :: farther ∧
        (∀ other ∈ nearer, ∀ file ∈ packageFiles value other,
          ((tree.disk cwd).isFile file).run = false) ∧
        ∃ before after, packageFiles value above = before ++ base :: after ∧
          ((tree.disk cwd).isFile base).run = true ∧
          ∀ file ∈ before, ((tree.disk cwd).isFile file).run = false := by
  rw [List.findSome?_eq_some_iff]
  simp only [inPackages_eq_find?, List.find?_eq_some_iff_append, List.find?_eq_none, Bool.not_eq_true,
    Bool.not_eq_true']
  constructor
  · rintro ⟨nearer, above, farther, hsplit, ⟨hbase, before, after, hfiles, hbefore⟩, hnearer⟩
    exact ⟨nearer, above, farther, hsplit, hnearer, before, after, hfiles, hbase, hbefore⟩
  · rintro ⟨nearer, above, farther, hsplit, hnearer, before, after, hfiles, hbase, hbefore⟩
    exact ⟨nearer, above, farther, hsplit, ⟨hbase, before, after, hfiles, hbefore⟩, hnearer⟩

theorem search_eq_none_iff :
    (ancestors dir).findSome? (fun above => (inPackages (tree.disk cwd) value above).run) = none ↔
      ∀ above ∈ ancestors dir, ∀ file ∈ packageFiles value above,
        ((tree.disk cwd).isFile file).run = false := by
  simp only [List.findSome?_eq_none_iff, inPackages_eq_find?, List.find?_eq_none, Bool.not_eq_true]

/-- **The nearest package.** What a file in a directory extends by the name of a package is, in the
nearest directory with one of the files that the package may be, the first of these that is there: a
directory of that name without a configuration file does not end the search, and what is given is a
regular file. It fails exactly where no directory has any of them. The directories that are searched
are those that the path of the directory goes through; for an absolute path without `..` these are the
directory and all directories above it, up to the root. -/
theorem nearest_package (tree : Tree) (cwd : Location) {dir value : Text}
    (hvalue : ¬ isPathLike value = true) :
    let isFile := fun file : Text => ((tree.disk cwd).isFile file).run
    (∀ base, locateBase (tree.disk cwd) dir value = .ok base ↔
      ∃ nearer above farther, ancestors dir = nearer ++ above :: farther ∧
        (∀ other ∈ nearer, ∀ file ∈ packageFiles value other, isFile file = false) ∧
        ∃ before after, packageFiles value above = before ++ base :: after ∧ isFile base = true ∧
          ∀ file ∈ before, isFile file = false) ∧
    (∀ e, locateBase (tree.disk cwd) dir value = .error e ↔
      e = .configRead (append (packagesIn dir) value) .extendedNotFound ∧
        ∀ above ∈ ancestors dir, ∀ file ∈ packageFiles value above, isFile file = false) ∧
    (isAbsolute dir = true → .up ∉ components dir →
      (ancestors dir).map (fun above => Location.walk [] (components above)) =
        (Location.walk [] (components dir)).tails) := by
  intro isFile
  rw [locateBase_of_package hvalue]
  refine ⟨fun base => ?_, fun e => ?_, Location.map_walk_ancestors⟩
  · refine Iff.trans ?_ search_eq_some_iff
    cases (ancestors dir).findSome? fun above => (inPackages (tree.disk cwd) value above).run with
    | none => simp
    | some found =>
        exact ⟨fun h => congrArg some (Except.ok.inj h), fun h => congrArg Except.ok (Option.some.inj h)⟩
  · rw [← search_eq_none_iff]
    cases (ancestors dir).findSome? fun above => (inPackages (tree.disk cwd) value above).run with
    | none => exact ⟨fun h => ⟨(Except.error.inj h).symm, rfl⟩, fun h => congrArg Except.error h.1.symm⟩
    | some found => simp

/-- A package that is a directory without a configuration file in one place, and further up a file with
the extension that is left out. -/
def stacked : Tree where
  files := [(["base.json", "node_modules"], []), (["tsconfig.json", "base", "node_modules"], [])]
  directories :=
    [["app"], ["web", "app"], ["node_modules", "app"], ["base", "node_modules", "app"],
      ["node_modules"], ["base", "node_modules"]]

theorem nearest_package_stacked :
    ¬ isPathLike "base" = true ∧
    ((stacked.disk []).isDirectory "/app/node_modules/base").run = true ∧
    locateBase (stacked.disk []) "/app/web" "base" = .ok ("/node_modules/base.json" : Text) := by
  have hvalue : ¬ isPathLike "base" = true := by decide
  refine ⟨hvalue, by decide +kernel, ((nearest_package stacked [] hvalue).1 _).mpr ?_⟩
  exact ⟨["/app/web", "/app"], "/", [], by decide +kernel, by decide +kernel,
    ["/node_modules/base"], ["/node_modules/base/tsconfig.json"], by decide +kernel,
    by decide +kernel, by decide +kernel⟩

/-- A package in a directory beside the one that extends it. -/
def besides : Tree where
  files := [(["base.json", "node_modules", "b"], [])]
  directories := [["c"], ["b"], ["node_modules", "b"]]

/-- A path with `..` goes through a directory that is not above the one it leads to, and the package is
found there, though there is none in the directory itself or above it. -/
theorem package_beside :
    ¬ isPathLike "base" = true ∧
    Location.walk [] (components "/b/../c") = [("c" : Text)] ∧
    locateBase (besides.disk []) "/b/../c" "base" = .ok ("/b/node_modules/base.json" : Text) ∧
    ∀ place ∈ (Location.walk [] (components "/b/../c")).tails,
      ∀ file ∈ packageFiles "base" (Location.text place), ((besides.disk []).isFile file).run = false :=
  ⟨by decide, by decide +kernel, by rfl, by decide +kernel⟩

end Packages

end ConfigFile

end PathAlias
