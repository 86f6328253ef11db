import PathAlias.Proofs.ConfigFile.PostOrder
import PathAlias.Proofs.ConfigFile.Respelling
import PathAlias.Proofs.Path.Canonical
import PathAlias.Proofs.Place

/-!
Base directories of what is loaded from an absolute directory. Every file on the way is known by an
absolute path, whether it is the nearest one, is named, or is extended by a path or from a package. The
root is no file, so each of these files is in a directory, which is absolute too, and whatever is
resolved from there comes out canonical.
-/

namespace PathAlias

/-- The root is not read as a file, however it is spelled. -/
def Disk.RootIsNoFile (disk : Disk Id) : Prop :=
  ∀ path, components path = [.root] → ∀ bytes, disk.read path ≠ .ok bytes

/-! ### The root of a tree -/

namespace Tree

variable (tree : Tree)

/-- Segments that say nothing lead to where they start, which has to be a directory. -/
theorem find_blank {row : List Text} (hrow : ∀ segment ∈ row, isBlank segment = true) (hne : row ≠ [])
    {start place : Location} (h : tree.find start row = .ok place) :
    place = start ∧ tree.node? start = some .directory := by
  induction row with
  | nil => exact absurd rfl hne
  | cons segment row ih =>
      obtain ⟨hblank, hrest⟩ := List.forall_mem_cons.mp hrow
      cases hnode : tree.node? start with
      | none => simp [find, hnode] at h
      | some node =>
          cases node with
          | file bytes => simp [find, hnode] at h
          | directory =>
              rw [find_cons tree hnode, if_pos hblank] at h
              by_cases hlast : row = []
              · subst hlast
                cases h
                exact ⟨rfl, rfl⟩
              · exact ⟨(ih hrest hlast h).1, rfl⟩

theorem isBlank_of_root {path : Text} (h : components path = [.root]) :
    ∀ segment ∈ segments path, isBlank segment = true := by
  have hne : path ≠ [] := by
    rintro rfl
    cases h
  obtain ⟨first, rest, component, hsegments, hroot, -, hcomponents⟩ := exists_components hne
  rw [h, List.cons.injEq] at hcomponents
  rw [hsegments, List.forall_mem_cons, hroot.mp hcomponents.1.symm]
  refine ⟨rfl, fun segment hsegment => ?_⟩
  by_contra hblank
  obtain ⟨said, hsaid⟩ := exists_ofSegment? hblank
  have hmem : said ∈ rest.filterMap Component.ofSegment? :=
    List.mem_filterMap.mpr ⟨segment, hsegment, hsaid⟩
  rw [← hcomponents.2] at hmem
  exact absurd hmem List.not_mem_nil

theorem rootIsNoFile (cwd : Location) : (tree.disk cwd).RootIsNoFile := by
  intro path hroot bytes h
  have habsolute : isAbsolute path = true := isAbsolute_iff.mpr (by rw [hroot]; rfl)
  have hlocate : ∀ place, tree.locate cwd path = .ok place → tree.node? place = some .directory := by
    intro place hplace
    rw [locate, habsolute, if_pos rfl] at hplace
    split_ifs at hplace
    obtain ⟨rfl, hnode⟩ :=
      tree.find_blank (isBlank_of_root hroot) (splitOn_ne_nil '/' path) hplace
    exact hnode
  simp only [disk, lookAt] at h
  cases hplace : tree.locate cwd path with
  | error cause => simp [hplace] at h
  | ok place => simp [hplace, hlocate place hplace] at h

end Tree

namespace ConfigFile

variable {disk : Disk Id}

/-! ### Files that are known by absolute paths -/

theorem isAbsolute_of_firstFile {dir file : Text} {names : List Text} (hdir : isAbsolute dir = true)
    (h : disk.firstFile dir names = some file) : isAbsolute file = true := by
  rw [Disk.firstFile_eq, Option.map_eq_some_iff] at h
  obtain ⟨name, -, rfl⟩ := h
  exact isAbsolute_append hdir name

theorem isAbsolute_of_inPackages {value dir file : Text} (hdir : isAbsolute dir = true)
    (h : inPackages disk value dir = some file) : isAbsolute file = true := by
  have hpackages : isAbsolute (packagesIn dir) = true := isAbsolute_append hdir packageDirectory
  have hexact := isAbsolute_append hpackages value
  rw [inPackages_eq] at h
  split_ifs at h with hisFile hnamed hisDirectory
  · cases h
    exact hexact
  · cases h
    exact isAbsolute_append hpackages _
  · exact isAbsolute_of_firstFile hexact h

theorem isAbsolute_of_nearest {dir file : Text} (hdir : isAbsolute dir = true)
    (h : nearest disk dir = some file) : isAbsolute file = true := by
  rw [nearest, Disk.walkUp_eq] at h
  obtain ⟨above, habove, hfile⟩ := List.exists_of_findSome?_eq_some h
  exact isAbsolute_of_firstFile (isAbsolute_of_mem_ancestors hdir habove) hfile

theorem isAbsolute_of_locateBase {dir value base : Text} (hdir : isAbsolute dir = true)
    (h : locateBase disk dir value = .ok base) : isAbsolute base = true := by
  by_cases hvalue : isPathLike value = true
  · rw [locateBase, if_pos hvalue] at h
    cases h
    exact isAbsolute_normalize (isAbsolute_append hdir _)
  · rw [locateBase_of_package hvalue] at h
    split at h
    · rename_i file hfound
      cases h
      obtain ⟨above, habove, hfile⟩ := List.exists_of_findSome?_eq_some hfound
      exact isAbsolute_of_inPackages (isAbsolute_of_mem_ancestors hdir habove) hfile
    · cases h

/-- A file that is known by an absolute path and can be read is in an absolute directory. -/
theorem isAbsolute_dir_of_read (hroot : disk.RootIsNoFile) {path : Text} (hpath : isAbsolute path = true)
    {declared : Declaration} (h : readDeclaration disk path = .ok declared) :
    isAbsolute (parentOrHere path) = true := by
  refine isAbsolute_parentOrHere hpath fun hcomponents => ?_
  rw [readDeclaration_eq] at h
  cases hread : disk.read path with
  | error cause =>
      have htext : disk.readText path = .error cause := congrArg (Except.map Utf8.decode) hread
      simp [htext] at h
  | ok bytes => exact hroot path hcomponents bytes hread

/-- All files that some files are loaded from are in absolute directories. -/
theorem PostOrder.isAbsolute_dir (hroot : disk.RootIsNoFile) {paths : List Text} {order : List Reading}
    (h : PostOrder disk paths order) (hpaths : ∀ path ∈ paths, isAbsolute path = true) :
    ∀ file ∈ order, isAbsolute (parentOrHere file.path) = true := by
  induction h with
  | nil => exact fun file hfile => absurd hfile List.not_mem_nil
  | cons hread hlocated _ _ ihbelow ihafter =>
      obtain ⟨hpath, hlater⟩ := List.forall_mem_cons.mp hpaths
      have hdir := isAbsolute_dir_of_read hroot hpath hread
      have hbases := hlocated.flip.imp fun _ _ hbase => And.intro (isAbsolute_of_locateBase hdir hbase) hbase
      rw [List.forall_mem_append, List.forall_mem_cons]
      exact ⟨ihbelow ((List.forall₂_and_left _ _).mp hbases).1, hdir, ihafter hlater⟩

end ConfigFile

namespace Configuration

variable {disk : Disk Id} {env : Environment}

/-! ### Configurations -/

/-- The base directory and all targets are canonical. -/
structure IsCanonical (configuration : Configuration) : Prop where
  base : PathAlias.IsCanonical configuration.absoluteBaseUrl
  target : ∀ entry ∈ configuration.matcher.entries, ∀ target ∈ entry.targets,
    PathAlias.IsCanonical target

/-- The targets are resolved from the base directory. -/
theorem isCanonical_of_base {configuration : Configuration}
    (h : PathAlias.IsCanonical configuration.absoluteBaseUrl) : configuration.IsCanonical where
  base := h
  target _ hentry _ htarget :=
    isCanonical_target hentry htarget (isAbsolute_target hentry htarget h.isAbsolute)

theorem locate_of_named (disk : Disk Id) {project : Option Text} {given : Text} (cwd : Text)
    (h : project.or (env projectVariable) = some given) :
    locate disk env cwd project =
      if (disk.isDirectory (normalize (append cwd given))).run then
        match disk.firstFile (normalize (append cwd given)) configFileNames with
        | some file => .ok file
        | none => .error (.configNotFound (normalize (append cwd given)))
      else .ok (normalize (append cwd given)) := by
  rw [locate, h]
  change (if (disk.isDirectory (normalize (append cwd given))).run then _ else _ : Except Error Text) = _
  split_ifs
  · cases disk.firstFile (normalize (append cwd given)) configFileNames <;> rfl
  · rfl

theorem isAbsolute_of_locate {cwd path : Text} {project : Option Text} (hcwd : isAbsolute cwd = true)
    (h : locate disk env cwd project = .ok path) : isAbsolute path = true := by
  cases hproject : project.or (env projectVariable) with
  | none =>
      rw [locate_of_unnamed disk cwd hproject] at h
      split at h
      · rename_i file hnearest
        cases h
        exact ConfigFile.isAbsolute_of_nearest hcwd hnearest
      · cases h
  | some given =>
      have hgiven : isAbsolute (normalize (append cwd given)) = true :=
        isAbsolute_normalize (isAbsolute_append hcwd given)
      rw [locate_of_named disk cwd hproject] at h
      split_ifs at h
      · split at h
        · rename_i file hfile
          cases h
          exact ConfigFile.isAbsolute_of_firstFile hgiven hfile
        · cases h
      · cases h
        exact hgiven

/-- What is loaded for an absolute directory is canonical. -/
theorem isCanonical_of_load (hroot : disk.RootIsNoFile) {cwd : Text} (hcwd : isAbsolute cwd = true)
    {project : Option Text} {configuration : Configuration}
    (h : load disk env cwd project = Except.ok configuration) : configuration.IsCanonical := by
  obtain ⟨path, hlocate, h⟩ := bind_eq_ok h
  obtain ⟨config, hload, h⟩ := bind_eq_ok h
  cases h
  obtain ⟨order, horder⟩ := ConfigFile.inForce_of_load hload
  have hdirs := horder.postOrder.isAbsolute_dir hroot
    (List.forall_mem_singleton.mpr (isAbsolute_of_locate hcwd hlocate))
  have hbaseUrl := horder.baseUrl
  rw [ConfigFile.getLast?_filterMap_singleton] at hbaseUrl
  have hdir : isAbsolute config.dir = true := by
    obtain ⟨-, declared, -, hread, -, -⟩ := ConfigFile.loadWithin_eq_ok hload
    rw [ConfigFile.dir, ConfigFile.path_of_load hload]
    exact ConfigFile.isAbsolute_dir_of_read hroot (isAbsolute_of_locate hcwd hlocate) hread
  apply isCanonical_of_base
  simp only [ofFile]
  cases env baseUrlVariable with
  | some raw => exact isCanonical_normalize (isAbsolute_append hdir raw)
  | none =>
      cases hurl : config.baseUrl with
      | none => exact isCanonical_normalize hdir
      | some url =>
          rw [hurl, ConfigFile.last?, eq_comm] at hbaseUrl
          obtain ⟨file, hfile, hdeclares⟩ :=
            List.mem_filterMap.mp (List.mem_of_getLast? hbaseUrl)
          obtain ⟨declared, -, rfl⟩ := Option.map_eq_some_iff.mp hdeclares
          exact isCanonical_normalize (isAbsolute_append (hdirs file hfile) _)

end Configuration

end PathAlias
