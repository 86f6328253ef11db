import PathAlias.Proofs.Path.Respelling
import PathAlias.Proofs.Place

/-!
Disks on which the spelling of a directory does not matter. A segment that says nothing leads
nowhere, but the place it is met at has to be a directory, and so it has for any segment after it. In
a tree such segments may therefore be left out of a directory: what is put below it is found, or is
not found, for the same reason.
-/

namespace PathAlias

/-! ### Accesses -/

/-- A disk reports the same of two spellings of one path. -/
structure Disk.Same (disk : Disk Id) (path other : Text) : Prop where
  components : components path = components other
  stat : disk.stat path = disk.stat other
  read : disk.read path = disk.read other
  real : disk.real path = disk.real other

/-- A disk reports the same of what is put below two spellings of one directory. -/
def Disk.Uniform (disk : Disk Id) : Prop :=
  ∀ dir other, components dir = components other → ∀ rest,
    disk.Same (append dir rest) (append other rest)

namespace Disk.Same

variable {disk : Disk Id} {path other : Text}

theorem refl (disk : Disk Id) (path : Text) : disk.Same path path := ⟨rfl, rfl, rfl, rfl⟩

theorem isFile (h : disk.Same path other) : disk.isFile path = disk.isFile other := by
  rw [Disk.isFile, Disk.isFile, h.stat]

theorem isDirectory (h : disk.Same path other) : disk.isDirectory path = disk.isDirectory other := by
  rw [Disk.isDirectory, Disk.isDirectory, h.stat]

theorem readText (h : disk.Same path other) : disk.readText path = disk.readText other := by
  rw [Disk.readText, Disk.readText, h.read]

end Disk.Same

/-! ### Steps -/

/-- The segment of a component that leads somewhere else. -/
def Component.step? : Component → Option Text
  | .root => none
  | .here => none
  | .up => some ['.', '.']
  | .name n => some n

/-- The segments of a path that lead somewhere else. -/
def steps (p : Text) : List Text := (segments p).filter fun segment => !isBlank segment

theorem step?_ofSegment? (segment : Text) :
    (Component.ofSegment? segment).bind Component.step? =
      if isBlank segment then none else some segment := by
  by_cases hblank : isBlank segment = true
  · rw [ofSegment?_of_isBlank hblank, if_pos hblank]
    rfl
  · rw [if_neg hblank]
    obtain ⟨component, hcomponent⟩ := exists_ofSegment? hblank
    rw [hcomponent]
    rw [Component.ofSegment?.eq_def] at hcomponent
    split at hcomponent <;> cases hcomponent <;> rfl

theorem filterMap_step? (row : List Text) :
    (row.filterMap Component.ofSegment?).filterMap Component.step? =
      row.filter fun segment => !isBlank segment := by
  rw [List.filterMap_filterMap, ← List.filterMap_eq_filter]
  refine List.filterMap_congr fun segment _ => ?_
  rw [step?_ofSegment?, Option.guard]
  cases isBlank segment <;> rfl

theorem steps_eq (p : Text) : steps p = (components p).filterMap Component.step? := by
  by_cases hne : p = []
  · subst hne
    rfl
  obtain ⟨first, rest, hsegments⟩ := List.exists_cons_of_ne_nil (splitOn_ne_nil '/' p)
  have hopening : (Component.opening first).filterMap Component.step? =
      [first].filter fun segment => !isBlank segment := by
    by_cases hnil : first = []
    · subst hnil
      rfl
    by_cases hhere : first = ['.']
    · subst hhere
      rfl
    · rw [Component.opening_of_ne hnil hhere, ← filterMap_step?]
      cases hsegment : Component.ofSegment? first with
      | none => rw [List.filterMap_cons_none hsegment]; rfl
      | some component => rw [List.filterMap_cons_some hsegment]; rfl
  rw [components_eq_opening hne hsegments, List.filterMap_append, hopening, filterMap_step?,
    ← List.filter_append, steps, segments, hsegments, List.singleton_append]

theorem mem_splitOn_of_mem {sep c : Char} {t : Text} (hc : c ≠ sep) (h : c ∈ t) :
    ∃ piece ∈ splitOn sep t, c ∈ piece := by
  induction t with
  | nil => exact absurd h List.not_mem_nil
  | cons first rest ih =>
      rw [splitOn]
      by_cases hfirst : first = sep
      · rw [if_pos hfirst]
        obtain ⟨piece, hpiece, hmem⟩ := ih ((List.mem_cons.mp h).resolve_left fun heq =>
          hc (heq.trans hfirst))
        exact ⟨piece, List.mem_cons_of_mem _ hpiece, hmem⟩
      · rw [if_neg hfirst]
        obtain ⟨head, tail, hsplit⟩ := List.exists_cons_of_ne_nil (splitOn_ne_nil sep rest)
        rw [hsplit] at ih ⊢
        rcases List.mem_cons.mp h with rfl | hrest
        · exact ⟨_, List.mem_cons_self, List.mem_cons_self⟩
        · obtain ⟨piece, hpiece, hmem⟩ := ih hrest
          rcases List.mem_cons.mp hpiece with rfl | htail
          · exact ⟨_, List.mem_cons_self, List.mem_cons_of_mem _ hmem⟩
          · exact ⟨piece, List.mem_cons_of_mem _ htail, hmem⟩

theorem nul_mem_iff_steps {p : Text} : '\x00' ∈ p ↔ ∃ step ∈ steps p, '\x00' ∈ step := by
  constructor
  · intro h
    have hslash : '\x00' ≠ '/' := by decide
    obtain ⟨piece, hpiece, hmem⟩ := mem_splitOn_of_mem hslash h
    refine ⟨piece, List.mem_filter.mpr ⟨hpiece, ?_⟩, hmem⟩
    rw [Bool.not_eq_true', Bool.eq_false_iff]
    intro hblank
    rw [isBlank_iff] at hblank
    rcases hblank with rfl | rfl
    · exact absurd hmem List.not_mem_nil
    · exact absurd hmem (by decide)
  · rintro ⟨step, hstep, hmem⟩
    exact (mem_of_mem_splitOn (List.mem_filter.mp hstep).1 hmem).1

theorem nul_mem_append {base rest : Text} (hrest : isAbsolute rest = false) :
    '\x00' ∈ append base rest ↔ '\x00' ∈ base ∨ '\x00' ∈ rest := by
  rw [append, if_neg (Bool.eq_false_iff.mp hrest)]
  split_ifs
  · exact List.mem_append
  · rw [List.mem_append, List.mem_cons]
    exact or_congr Iff.rfl (or_iff_right (by decide))

/-! ### Trees -/

namespace Tree

variable (tree : Tree)

/-- A step further is the same for whatever comes after it. -/
theorem find_cons_congr {segment : Text} {row other : List Text}
    (h : ∀ place, tree.find place row = tree.find place other) (place : Location) :
    tree.find place (segment :: row) = tree.find place (segment :: other) := by
  cases hnode : tree.node? place with
  | none => simp only [find, hnode]
  | some node =>
      cases node with
      | file bytes => simp only [find, hnode]
      | directory => rw [find_cons tree hnode, find_cons tree hnode, h, h, h]

/-- Segments that say nothing may be left out before a segment. -/
theorem find_steps (row : List Text) (last : Text) (rest : List Text) (place : Location) :
    tree.find place (row ++ last :: rest) =
      tree.find place ((row.filter fun segment => !isBlank segment) ++ last :: rest) := by
  induction row generalizing place with
  | nil => rfl
  | cons segment row ih =>
      rw [List.filter_cons]
      by_cases hblank : isBlank segment = true
      · rw [if_neg (by rw [hblank]; decide), ← ih]
        -- where the place is no directory the next segment fails as this one does
        obtain ⟨next, later, hlater⟩ := List.exists_cons_of_ne_nil
          (List.append_ne_nil_of_right_ne_nil row (List.cons_ne_nil last rest))
        rw [List.cons_append, hlater]
        cases hnode : tree.node? place with
        | none => simp only [find, hnode]
        | some node =>
            cases node with
            | file bytes => simp only [find, hnode]
            | directory => rw [find_cons tree hnode, if_pos hblank]
      · rw [if_pos (by rw [Bool.eq_false_iff.mpr hblank]; rfl), List.cons_append, List.cons_append]
        exact find_cons_congr tree ih place

theorem find_segments_append {base rest : Text} (hbase : base ≠ []) (hrest : isAbsolute rest = false)
    (place : Location) :
    tree.find place (segments (append base rest)) = tree.find place (steps base ++ segments rest) := by
  obtain ⟨first, row, blank, hsegments, happend, hblank⟩ := segments_append hbase hrest
  obtain ⟨last, later, hlast⟩ := List.exists_cons_of_ne_nil (splitOn_ne_nil '/' rest)
  have hnone : (blank.filter fun segment => !isBlank segment) = [] :=
    List.filter_eq_nil_iff.mpr fun segment hsegment => by rw [hblank segment hsegment]; decide
  have hsteps : steps base = (first :: row).filter fun segment => !isBlank segment := by
    rw [steps, hsegments, ← List.cons_append, List.filter_append, hnone, List.append_nil]
  rw [happend, hsteps, ← List.cons_append, segments, hlast]
  exact find_steps tree (first :: row) last later place

theorem locate_append_congr (cwd : Location) {dir other : Text}
    (h : components dir = components other) (rest : Text) :
    tree.locate cwd (append dir rest) = tree.locate cwd (append other rest) := by
  cases hrest : isAbsolute rest with
  | true => rw [append, append, if_pos hrest, if_pos hrest]
  | false =>
      by_cases hdir : dir = []
      · rw [hdir, (eq_nil_congr h).mp hdir]
      have hother : other ≠ [] := mt (eq_nil_congr h).mpr hdir
      have hcomponents := components_append_congr h rest
      have hsteps : steps dir = steps other := by rw [steps_eq, steps_eq, h]
      have hnul : '\x00' ∈ append dir rest ↔ '\x00' ∈ append other rest := by
        rw [nul_mem_append hrest, nul_mem_append hrest, nul_mem_iff_steps, hsteps,
          ← nul_mem_iff_steps]
      simp only [locate, hnul, eq_nil_congr hcomponents, isAbsolute_congr hcomponents,
        find_segments_append tree hdir hrest, find_segments_append tree hother hrest, hsteps]

/-- In a tree the spelling of a directory does not matter. -/
theorem uniform (cwd : Location) : (tree.disk cwd).Uniform := by
  intro dir other h rest
  have hlocate := tree.locate_append_congr cwd h rest
  have hlook : tree.lookAt cwd (append dir rest) = tree.lookAt cwd (append other rest) := by
    rw [lookAt, lookAt, hlocate]
  exact {
    components := components_append_congr h rest
    stat := congrArg (Except.map Node.kind) hlook
    read := by simp only [disk, hlook]
    real := by simp only [disk, hlocate] }

end Tree

end PathAlias
