import Mathlib.Data.List.Forall2
import PathAlias.Path.Relative
import PathAlias.Proofs.Path.Routes

/-!
Paths with the same components. Such paths have the same normal spelling, have the same directories
above them up to their spelling, and what is put below them again has the same components. An
absolute path without `..` is spelled with the components of its normal spelling.
-/

namespace PathAlias

theorem components_eq_nil_iff {p : Text} : components p = [] ↔ p = [] := by
  constructor
  · intro h
    by_contra hne
    obtain ⟨first, rest, component, -, -, -, hcomponents⟩ := exists_components hne
    cases hcomponents.symm.trans h
  · rintro rfl
    rfl

theorem isAbsolute_iff {p : Text} :
    isAbsolute p = true ↔ (components p).head? = some .root := by
  rw [← Route.level?_ofPath_eq_none_iff, Route.ofPath]
  cases hcomponents : components p with
  | nil => exact iff_of_false (Option.some_ne_none 0) (Option.some_ne_none Component.root).symm
  | cons first rest =>
      have hrest : .root ∉ rest := by
        have htail := root_not_mem_tail p
        rwa [hcomponents] at htail
      obtain ⟨more, hmore⟩ := Route.level?_foldl ((Route.relative 0 []).follow first) hrest
      rw [List.foldl_cons, hmore, Option.map_eq_none_iff, List.head?_cons, Option.some.injEq]
      cases first <;> simp [Route.follow, Route.level?]

section Same

variable {p q : Text} (h : components p = components q)

include h

theorem eq_nil_congr : p = [] ↔ q = [] := by
  rw [← components_eq_nil_iff, h, components_eq_nil_iff]

theorem isAbsolute_congr : isAbsolute p = isAbsolute q := by
  rw [Bool.eq_iff_iff, isAbsolute_iff, isAbsolute_iff, h]

theorem ofPath_congr : Route.ofPath p = Route.ofPath q := congrArg (List.foldl _ _) h

theorem normalize_congr : normalize p = normalize q := congrArg Route.text (ofPath_congr h)

theorem fileName?_congr : fileName? p = fileName? q := by
  rw [fileName?, fileName?, h]

theorem components_append_congr (rest : Text) :
    components (append p rest) = components (append q rest) := by
  cases hrest : isAbsolute rest with
  | true => rw [append, append, if_pos hrest, if_pos hrest]
  | false =>
      by_cases hp : p = []
      · rw [hp, (eq_nil_congr h).mp hp]
      · have hq : q ≠ [] := mt (eq_nil_congr h).mpr hp
        rw [components_append hp hrest, components_append hq hrest, h]

theorem normalize_append_congr (rest : Text) :
    normalize (append p rest) = normalize (append q rest) :=
  normalize_congr (components_append_congr h rest)

theorem map_ancestors_congr : (ancestors p).map components = (ancestors q).map components := by
  rw [ancestors, ancestors, List.map_cons, List.map_cons, map_above, map_above, h]

theorem forall₂_ancestors :
    List.Forall₂ (fun dir other => components dir = components other) (ancestors p)
      (ancestors q) := by
  have hmap := List.forall₂_eq_eq_eq.symm ▸ map_ancestors_congr h
  rw [List.forall₂_map_left_iff, List.forall₂_map_right_iff] at hmap
  exact hmap

theorem components_parentOrHere_congr :
    components (parentOrHere p) = components (parentOrHere q) := by
  have hparent : ∀ t : Text, components (parentOrHere t) =
      (Component.above (components t)).head?.getD (components ".") := by
    intro t
    rw [← map_above, List.head?_map, parentOrHere, parent?]
    cases (above t).head? <;> rfl
  rw [hparent, hparent, h]

theorem localSpecifier_congr (target : Text) : localSpecifier p target = localSpecifier q target := by
  rw [localSpecifier, localSpecifier, relative, relative, ofPath_congr h]

end Same

/-- After its start a path goes up or down. -/
theorem up_or_name_of_mem_tail {p : Text} {component : Component}
    (h : component ∈ (components p).tail) : component = .up ∨ ∃ n, component = .name n := by
  by_cases hne : p = []
  · subst hne
    exact absurd h List.not_mem_nil
  obtain ⟨first, rest, opening, -, -, -, hcomponents⟩ := exists_components hne
  rw [hcomponents] at h
  obtain ⟨segment, -, hsegment⟩ := List.mem_filterMap.mp h
  rw [Component.ofSegment?.eq_def] at hsegment
  split at hsegment
  · cases hsegment
  · cases hsegment
  · exact Or.inl (Option.some.inj hsegment).symm
  · exact Or.inr ⟨_, (Option.some.inj hsegment).symm⟩

theorem exists_names {row : List Component} (h : ∀ component ∈ row, ∃ n, component = .name n) :
    ∃ names : List Text, row = names.map .name := by
  induction row with
  | nil => exact ⟨[], rfl⟩
  | cons component row ih =>
      obtain ⟨n, rfl⟩ := h component List.mem_cons_self
      obtain ⟨names, rfl⟩ := ih fun other hother => h other (List.mem_cons_of_mem _ hother)
      exact ⟨n :: names, rfl⟩

/-- Without `..` an absolute path leads down through its names. -/
theorem exists_components_of_not_up {p : Text} (habsolute : isAbsolute p = true)
    (hup : .up ∉ components p) : ∃ names : List Text, components p = .root :: names.map .name := by
  obtain ⟨row, hrow⟩ := List.head?_eq_some_iff.mp (isAbsolute_iff.mp habsolute)
  have hnames : ∀ component ∈ row, ∃ n, component = .name n := by
    intro component hmem
    have htail : component ∈ (components p).tail := by rwa [hrow]
    refine (up_or_name_of_mem_tail htail).resolve_left ?_
    rintro rfl
    exact hup (List.mem_of_mem_tail htail)
  obtain ⟨names, rfl⟩ := exists_names hnames
  exact ⟨names, hrow⟩

/-- So its normal spelling has its components. -/
theorem components_normalize_of_not_up {p : Text} (habsolute : isAbsolute p = true)
    (hup : .up ∉ components p) : components (normalize p) = components p := by
  obtain ⟨names, hrow⟩ := exists_components_of_not_up habsolute hup
  have hroute : Route.ofPath p = .absolute names.reverse := by
    rw [Route.ofPath, hrow, List.foldl_cons]
    exact (Route.foldl_names (.absolute []) names []).trans (by rw [List.append_nil]; rfl)
  rw [components_normalize, hroute, hrow, Route.components, List.reverse_reverse]

end PathAlias
