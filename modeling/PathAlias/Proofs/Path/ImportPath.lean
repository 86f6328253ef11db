import PathAlias.Proofs.Path.Composition
import PathAlias.Proofs.Path.Specifier

/-!
Local specifiers as a module loader reads them. A loader takes a specifier for a path by the way it
begins, and anything else for the name of a package. A local specifier that goes up begins as a path
does, and one that only goes down is given a `./` for that, unless it begins with a dot already. So
what lies below the directory under a name that begins with a dot is taken for a package.
-/

namespace PathAlias

/-- Whether a module loader reads a specifier as a path that counts from the importing file. -/
def IsImportPath (specifier : Text) : Prop :=
  specifier = ['.', '.'] ∨ ['.', '/'] <+: specifier ∨ ['.', '.', '/'] <+: specifier

instance (specifier : Text) : Decidable (IsImportPath specifier) :=
  inferInstanceAs (Decidable (_ ∨ _))

namespace IsImportPath

theorem ups (more : Nat) (down : List Text) :
    IsImportPath (joinWith ['/'] (List.replicate (more + 1) ['.', '.'] ++ down)) := by
  rw [List.replicate_succ, List.cons_append]
  cases hrest : List.replicate more ['.', '.'] ++ down with
  | nil => exact Or.inl rfl
  | cons second rest =>
      rw [joinWith_cons_cons]
      exact Or.inr (Or.inr ⟨joinWith ['/'] (second :: rest), rfl⟩)

/-- The first segment of such a path is `.` or `..`, and neither is a name. -/
theorem not_isName {specifier first : Text} {rest : List Text} (h : IsImportPath specifier)
    (hsegments : segments specifier = first :: rest) : ¬ IsName first := by
  intro hname
  rcases h with rfl | ⟨down, rfl⟩ | ⟨down, rfl⟩
  · cases hsegments
    exact hname.ne_up rfl
  · have hhere : segments (['.'] ++ '/' :: down) = ['.'] :: segments down :=
      splitOn_append '/' ['.'] down
    cases hhere.symm.trans hsegments
    exact hname.ne_here rfl
  · have hup : segments (['.', '.'] ++ '/' :: down) = ['.', '.'] :: segments down :=
      splitOn_append '/' ['.', '.'] down
    cases hup.symm.trans hsegments
    exact hname.ne_up rfl

end IsImportPath

section Absolute

variable {dir target : Text}

theorem components_normalize_absolute {p : Text} {names : List Text}
    (h : Route.ofPath p = .absolute names) :
    components (normalize p) = .root :: names.reverse.map .name := by
  rw [components_normalize, h]
  rfl

/-- From one absolute path to another the way goes up to a place above both, and down. -/
theorem relative_of_absolute {names others : List Text} (hdir : Route.ofPath dir = .absolute names)
    (htarget : Route.ofPath target = .absolute others) :
    ∃ shared up down, names.reverse = shared ++ up ∧ others.reverse = shared ++ down ∧
      relative dir target = joinWith ['/'] (List.replicate up.length ['.', '.'] ++ down) := by
  obtain ⟨shared, up, down, hup, hdown, hrests⟩ :=
    afterCommon_map_name names.reverse others.reverse
  have hcommon : afterCommon (Route.absolute names).components (Route.absolute others).components =
      (up.map .name, down.map .name) := (if_pos rfl).trans hrests
  refine ⟨shared, up, down, hup, hdown, ?_⟩
  simp only [relative, hdir, htarget, hcommon, List.length_map, Component.map_text_names]
  rfl

/-- What lies below a directory is reached by its names alone. -/
theorem relative_of_below {names : List Text}
    (hbelow : components (normalize target) = components (normalize dir) ++ names.map .name) :
    relative dir target = joinWith ['/'] names := by
  rw [components_normalize, components_normalize] at hbelow
  have hrests := afterCommon_append (Route.ofPath dir).components [] (names.map .name)
  rw [List.append_nil] at hrests
  simp only [relative, hbelow, hrests, afterCommon, List.length_nil, List.replicate_zero,
    List.nil_append, Component.map_text_names]
  rfl

/-- A relative path that begins with a dot is left as it is, and any other one is made a path. -/
theorem isImportPath_localSpecifier_iff :
    IsImportPath (localSpecifier dir target) ↔
      IsImportPath (relative dir target) ∨ (relative dir target).head? ≠ some '.' := by
  unfold localSpecifier
  split
  · rename_i hrelative
    rw [hrelative]
    decide
  · rename_i rest hrelative
    simp [hrelative]
  · rename_i hnil hdot
    have hhead : (relative dir target).head? ≠ some '.' := fun h => by
      obtain ⟨rest, hrest⟩ := List.head?_eq_some_iff.mp h
      exact hdot rest hrest
    exact iff_of_true (Or.inr (Or.inl ⟨relative dir target, rfl⟩)) (Or.inr hhead)

theorem localSpecifier_of_dot {rest : Text} (h : relative dir target = '.' :: rest) :
    localSpecifier dir target = '.' :: rest := by
  rw [localSpecifier, h]
  rfl

/-- Below a name that begins with a dot nothing is put before the names. -/
theorem localSpecifier_of_dotName {hidden : Text} {below : List Text}
    (hbelow : components (normalize target) =
      components (normalize dir) ++ (('.' :: hidden) :: below).map .name) :
    localSpecifier dir target = joinWith ['/'] (('.' :: hidden) :: below) := by
  have hrelative := relative_of_below hbelow
  cases below with
  | nil => exact (localSpecifier_of_dot hrelative).trans rfl
  | cons second rest =>
      rw [joinWith_cons_cons, List.cons_append] at hrelative ⊢
      exact localSpecifier_of_dot hrelative

end Absolute

/-- **Specifiers and packages.** For a directory and a target that are both absolute, a module
loader reads the local specifier as a path, unless the target lies below the directory under a first
name that begins with a dot. There the specifier is the row of names as it stands, and the loader
takes the first of them for a package. -/
theorem specifier_read_as_path {dir target : Text} (hdir : isAbsolute dir = true)
    (htarget : isAbsolute target = true) :
    (IsImportPath (localSpecifier dir target) ↔
      ∀ hidden below, components (normalize target) ≠
        components (normalize dir) ++ (('.' :: hidden) :: below).map .name) ∧
    ∀ hidden below, components (normalize target) =
        components (normalize dir) ++ (('.' :: hidden) :: below).map .name →
      localSpecifier dir target = joinWith ['/'] (('.' :: hidden) :: below) := by
  refine ⟨⟨fun hpath hidden below hbelow => ?_, fun hnone => ?_⟩, fun hidden below hbelow =>
    localSpecifier_of_dotName hbelow⟩
  · have hnames : ∀ n ∈ ('.' :: hidden) :: below, IsName n := fun n hn =>
      isName_of_mem_components (p := normalize target)
        (hbelow ▸ List.mem_append_right _ (List.mem_map_of_mem hn))
    have hsegments : segments (joinWith ['/'] (('.' :: hidden) :: below)) =
        ('.' :: hidden) :: below :=
      splitOn_joinWith (List.cons_ne_nil _ _) fun n hn => (hnames n hn).slash
    rw [localSpecifier_of_dotName hbelow] at hpath
    exact hpath.not_isName hsegments (hnames _ List.mem_cons_self)
  · obtain ⟨names, hnames⟩ := exists_absolute hdir
    obtain ⟨others, hothers⟩ := exists_absolute htarget
    obtain ⟨shared, up, down, hup, hdown, hrelative⟩ := relative_of_absolute hnames hothers
    rw [isImportPath_localSpecifier_iff, hrelative]
    cases up with
    | cons n up => exact Or.inl (.ups up.length down)
    | nil =>
        have hbelow : components (normalize target) =
            components (normalize dir) ++ down.map .name := by
          rw [components_normalize_absolute hnames, components_normalize_absolute hothers, hdown, hup,
            List.append_nil, List.map_append, List.cons_append]
        cases down with
        | nil => exact Or.inr nofun
        | cons first below =>
            have hfirst : IsName first := isName_of_mem_components (p := normalize target)
              (hbelow ▸ List.mem_append_right _ List.mem_cons_self)
            refine Or.inr fun hhead => ?_
            rw [List.length_nil, List.replicate_zero, List.nil_append,
              head?_joinWith _ hfirst.ne_nil] at hhead
            obtain ⟨hidden, rfl⟩ := List.head?_eq_some_iff.mp hhead
            exact hnone hidden below hbelow

/-- A file beside the importing one, whose name begins with two dots and is no way up. -/
theorem specifier_read_as_path_beside :
    isAbsolute "/app/src" = true ∧ isAbsolute "/app/..lib/x" = true ∧
      IsImportPath (localSpecifier "/app/src" "/app/..lib/x") := by
  have hapart : ¬ components (normalize "/app/src") <+: components (normalize "/app/..lib/x") := by
    decide
  refine ⟨rfl, rfl, (specifier_read_as_path rfl rfl).1.mpr fun hidden below hbelow => hapart ?_⟩
  exact hbelow ▸ List.prefix_append _ _

/-- The specifier of a file in a directory whose name begins with a dot names a package. -/
theorem specifier_of_dotName :
    isAbsolute "/app" = true ∧ isAbsolute "/app/.lib/x" = true ∧
      localSpecifier "/app" "/app/.lib/x" = ".lib/x" ∧
      ¬ IsImportPath (localSpecifier "/app" "/app/.lib/x") := by decide

end PathAlias
