import PathAlias.Proofs.Path.Spelling
import PathAlias.Tree

/-!
Places in a tree. Whatever path leads to a place, the place can also be reached along its own
absolute path, since every directory on the way to it exists. A place is therefore known by that
path: two located paths are known by the same one exactly if they lead to the same place, however
they are spelled.
-/

namespace PathAlias

namespace Tree

/-- A name that a tree can hold. -/
structure IsEntryName (n : Text) : Prop where
  isName : IsName n
  nul : '\x00' ∉ n
  short : utf8Length n ≤ longestName

/-- Something is at a place, and there is a directory at every place on the way to it. -/
def Leads (tree : Tree) : Location → Prop
  | [] => tree.node? [] = some .directory
  | name :: above =>
      tree.Leads above ∧ tree.node? above = some .directory ∧
        (tree.node? (name :: above)).isSome ∧ IsEntryName name

/-- Somebody in a directory of a tree, which relative paths count from. -/
structure Standpoint (tree : Tree) where
  place : Location
  leads : tree.Leads place
  isDirectory : tree.node? place = some .directory

namespace Leads

variable {tree : Tree} {place : Location}

theorem root (h : tree.Leads place) : tree.node? [] = some .directory := by
  induction place with
  | nil => exact h
  | cons name above ih => exact ih h.1

theorem tail (h : tree.Leads place) : tree.Leads place.tail := by
  cases place with
  | nil => exact h
  | cons name above => exact h.1

theorem isEntryName (h : tree.Leads place) {n : Text} (hn : n ∈ place) : IsEntryName n := by
  induction place with
  | nil => exact absurd hn List.not_mem_nil
  | cons name above ih =>
      rcases List.mem_cons.mp hn with rfl | hn
      · exact h.2.2.2
      · exact ih h.1 hn

theorem isName (h : tree.Leads place) {n : Text} (hn : n ∈ place) : IsName n :=
  (h.isEntryName hn).isName

end Leads

variable (tree : Tree)

theorem mem_files {place : Location} {bytes : List UInt8}
    (h : tree.node? place = some (.file bytes)) : place ∈ tree.files.map Prod.fst := by
  rw [node?] at h
  cases hfile : tree.files.find? fun file => file.1 == place with
  | none =>
      rw [hfile] at h
      simp only at h
      split_ifs at h with hdirectory
      cases h
  | some file =>
      have hplace := List.find?_some hfile
      rw [← beq_iff_eq.mp hplace]
      exact List.mem_map_of_mem (List.mem_of_find?_eq_some hfile)

/-- One segment further in a directory. -/
theorem find_cons {place : Location} (hplace : tree.node? place = some .directory) (segment : Text)
    (rest : List Text) :
    tree.find place (segment :: rest) =
      if isBlank segment then tree.find place rest
      else if segment = ['.', '.'] then tree.find place.tail rest
      else if longestName < utf8Length segment then .error .nameTooLong
      else if (tree.node? (segment :: place)).isNone then .error .notFound
      else tree.find (segment :: place) rest := by
  rw [find, hplace]

/-- What leads on leads through a directory. -/
theorem node?_of_find {start place : Location} {segment : Text} {rest : List Text}
    (h : tree.find start (segment :: rest) = .ok place) : tree.node? start = some .directory := by
  cases hnode : tree.node? start with
  | none => simp [find, hnode] at h
  | some node =>
      cases node with
      | file bytes => simp [find, hnode] at h
      | directory => rfl

theorem find_nil {place : Location} (hplace : tree.node? place = some .directory)
    (rest : List Text) : tree.find place ([] :: rest) = tree.find place rest := by
  have hblank : isBlank [] = true := rfl
  rw [find_cons tree hplace, if_pos hblank]

/-- What segments lead to from a place that can be reached can be reached. -/
theorem leads_of_find {start place : Location} {row : List Text} (hstart : tree.Leads start)
    (hrow : ∀ segment ∈ row, '/' ∉ segment ∧ '\x00' ∉ segment)
    (hfind : tree.find start row = .ok place) : tree.Leads place := by
  induction row generalizing start with
  | nil =>
      cases hfind
      exact hstart
  | cons segment rest ih =>
      have hrest := fun other hother => hrow other (List.mem_cons_of_mem segment hother)
      have hnode := tree.node?_of_find hfind
      rw [find_cons tree hnode] at hfind
      split_ifs at hfind with hblank hup hlong hnone
      · exact ih hstart hrest hfind
      · exact ih hstart.tail hrest hfind
      · obtain ⟨hslash, hnul⟩ := hrow segment List.mem_cons_self
        rw [isBlank_iff, not_or] at hblank
        have hname : IsEntryName segment :=
          ⟨⟨hblank.1, hblank.2, hup, hslash⟩, hnul, Nat.le_of_not_lt hlong⟩
        have hsome : (tree.node? (segment :: start)).isSome := by
          rw [← Option.not_isNone, Bool.eq_false_iff.mpr hnone]
          rfl
        have hdown : tree.Leads (segment :: start) := ⟨hstart, hnode, hsome, hname⟩
        exact ih hdown hrest hfind

theorem find_append {start middle : Location} {row rest : List Text}
    (hfind : tree.find start row = .ok middle) :
    tree.find start (row ++ rest) = tree.find middle rest := by
  induction row generalizing start with
  | nil =>
      cases hfind
      rfl
  | cons segment row ih =>
      have hnode := tree.node?_of_find hfind
      rw [find_cons tree hnode] at hfind
      rw [List.cons_append, find_cons tree hnode]
      split_ifs at hfind ⊢ with hblank hup hlong hnone
      · exact ih hfind
      · exact ih hfind
      · exact ih hfind

/-- The names of a place that can be reached lead to it from the root. -/
theorem find_names {place : Location} (h : tree.Leads place) :
    tree.find [] place.reverse = .ok place := by
  induction place with
  | nil => rfl
  | cons name above ih =>
      obtain ⟨habove, hdirectory, hsome, hname⟩ := h
      rw [List.reverse_cons, find_append tree (ih habove), find_cons tree hdirectory,
        if_neg hname.isName.not_isBlank, if_neg hname.isName.ne_up, if_neg (Nat.not_lt.mpr hname.short), if_neg]
      · rfl
      · rw [Option.isNone_iff_eq_none]
        exact Option.ne_none_iff_isSome.mpr hsome

/-- The absolute path of a place that can be reached leads to it, wherever one stands. -/
theorem locate_text {place : Location} (h : tree.Leads place) (cwd : Location) :
    tree.locate cwd place.text = .ok place := by
  have hnul : '\x00' ∉ place.text := by
    intro hmem
    rcases List.mem_cons.mp hmem with hslash | hjoin
    · exact absurd hslash (by decide)
    · rcases mem_joinWith hjoin with hsep | ⟨n, hn, hc⟩
      · exact absurd hsep (by decide)
      · exact (h.isEntryName (List.mem_reverse.mp hn)).nul hc
  have hne : place.text ≠ [] := List.cons_ne_nil _ _
  have habsolute : isAbsolute place.text = true := rfl
  rw [locate, if_neg hnul, if_neg hne, if_pos habsolute]
  by_cases hplace : place = []
  · subst hplace
    have hsegments : segments (Location.text []) = [[], []] := rfl
    rw [hsegments, find_nil tree h.root, find_nil tree h.root]
    rfl
  · rw [Location.segments_text (fun n hn => (h.isName hn).slash) hplace, find_nil tree h.root]
    exact find_names tree h

end Tree

namespace Tree.Standpoint

variable {tree : Tree} (here : tree.Standpoint)

/-- The tree as a disk for somebody who stands here. -/
abbrev disk : Disk Id := tree.disk here.place

/-- Where a path leads from here. -/
abbrev locate (path : Text) : Except AccessError Location := tree.locate here.place path

theorem leads_of_locate {path : Text} {place : Location} (h : here.locate path = .ok place) :
    tree.Leads place := by
  have hrow : '\x00' ∉ path → ∀ segment ∈ segments path, '/' ∉ segment ∧ '\x00' ∉ segment :=
    fun hnul segment hsegment =>
      ⟨not_mem_of_mem_segments hsegment, fun hc => hnul (mem_of_mem_splitOn hsegment hc).1⟩
  have hroot : tree.Leads [] := here.leads.root
  rw [locate, Tree.locate] at h
  split_ifs at h with hnul hnil habsolute
  · exact tree.leads_of_find hroot (hrow hnul) h
  · exact tree.leads_of_find here.leads (hrow hnul) h

/-- Places that can be reached are told apart by their absolute paths. -/
theorem samePath_text_iff {x y : Location} (hx : tree.Leads x) (hy : tree.Leads y) :
    samePath x.text y.text = true ↔ x = y := by
  rw [samePath, beq_iff_eq, Location.components_text fun _ => hx.isName,
    Location.components_text fun _ => hy.isName]
  constructor
  · intro h
    have hnames := List.map_injective_iff.mpr (fun _ _ => Component.name.inj) (List.cons.inj h).2
    exact List.reverse_injective hnames
  · rintro rfl
    rfl

theorem place_of_lookAt {path : Text} {node : Node}
    (h : tree.lookAt here.place path = .ok node) :
    ∃ place, here.locate path = .ok place ∧ tree.node? place = some node := by
  rw [Tree.lookAt] at h
  cases hlocate : tree.locate here.place path with
  | error cause => simp [hlocate] at h
  | ok place =>
      simp only [hlocate] at h
      cases hnode : tree.node? place with
      | none => simp [hnode] at h
      | some found =>
          rw [hnode] at h
          cases h
          exact ⟨place, hlocate, hnode⟩

/-- What has a regular file at its path is at a place. -/
theorem place_of_isFile {path : Text} (h : here.disk.isFile path = true) :
    ∃ place, here.locate path = .ok place := by
  cases hlook : tree.lookAt here.place path with
  | error cause =>
      have hstat : here.disk.stat path = .error cause := congrArg (Except.map Node.kind) hlook
      rw [Disk.isFile, hstat] at h
      cases h
  | ok node =>
      obtain ⟨place, hlocate, -⟩ := here.place_of_lookAt hlook
      exact ⟨place, hlocate⟩

/-- What can be read is one of the files. -/
theorem place_of_read {path : Text} {bytes : List UInt8} (h : here.disk.read path = .ok bytes) :
    ∃ place, here.locate path = .ok place ∧ place ∈ tree.files.map Prod.fst := by
  simp only [disk, Tree.disk] at h
  cases hlook : tree.lookAt here.place path with
  | error cause => simp [hlook] at h
  | ok node =>
      rw [hlook] at h
      cases node with
      | directory => cases h
      | file found =>
          obtain ⟨place, hlocate, hnode⟩ := here.place_of_lookAt hlook
          exact ⟨place, hlocate, tree.mem_files hnode⟩

/-- A normal path that has the components of a place leads to it. -/
theorem locate_normalize {p : Text} {place : Location} (hplace : tree.Leads place)
    (h : samePath (normalize p) place.text = true) : here.locate (normalize p) = .ok place := by
  rw [samePath, beq_iff_eq, Location.components_text fun _ => hplace.isName] at h
  rw [normalize_eq_text h]
  exact tree.locate_text hplace here.place

end Tree.Standpoint

end PathAlias
