import PathAlias.Proofs.Path.Respelling

/-!
Routes one after another. What a row of components does from any place is what its own route does
from there, so a row can be replaced by the components of its normal spelling. A row that never leads
above where it starts only puts names on the route that it goes on from, and a row that does takes
back the last name of that route, whatever it is.
-/

namespace PathAlias

namespace Route

theorem follow_here (route : Route) : route.follow .here = route := by
  cases route <;> rfl

theorem follow_name_up (route : Route) (n : Text) :
    (route.follow (.name n)).follow .up = route := by
  cases route <;> rfl

theorem foldl_names_absolute (down names : List Text) :
    (down.reverse.map Component.name).foldl follow (absolute names) = absolute (down ++ names) := by
  have hnames := foldl_names (absolute []) down.reverse names
  rw [List.reverse_reverse] at hnames
  exact hnames

theorem components_absolute_foldl (start : Route) (names : List Text) :
    (absolute names).components.foldl follow start = absolute names := by
  have hnames := foldl_names_absolute names []
  rw [List.append_nil] at hnames
  exact hnames

/-- The component of the route that stays says nothing. -/
theorem components_relative_foldl (start : Route) (ups : Nat) (names : List Text) :
    (relative ups names).components.foldl follow start =
      (names.reverse.map Component.name).foldl follow ((List.replicate ups .up).foldl follow start) := by
  match ups, names with
  | 0, [] => exact follow_here start
  | 0, n :: names => rfl
  | ups + 1, names => exact List.foldl_append

/-- One component more on a route is one component more from wherever it starts. -/
theorem components_follow_foldl (start route : Route) (component : Component) :
    (route.follow component).components.foldl follow start =
      (route.components.foldl follow start).follow component := by
  match route, component with
  | _, .root => rfl
  | route, .here => rw [follow_here, follow_here]
  | .absolute names, .up =>
      rw [components_absolute_foldl]
      exact components_absolute_foldl start names.tail
  | .absolute names, .name n =>
      rw [components_absolute_foldl]
      exact components_absolute_foldl start (n :: names)
  | .relative ups [], .up =>
      have hmore : (relative ups []).follow .up = relative (ups + 1) [] := rfl
      rw [hmore, components_relative_foldl, components_relative_foldl, List.replicate_succ',
        List.foldl_append]
      rfl
  | .relative ups (n :: names), .up =>
      have hless : (relative ups (n :: names)).follow .up = relative ups names := rfl
      rw [hless, components_relative_foldl, components_relative_foldl, List.reverse_cons,
        List.map_append, List.foldl_append]
      exact (follow_name_up _ n).symm
  | .relative ups names, .name n =>
      have hmore : (relative ups names).follow (.name n) = relative ups (n :: names) := rfl
      rw [hmore, components_relative_foldl, components_relative_foldl, List.reverse_cons,
        List.map_append, List.foldl_append]
      rfl

/-- A row of components leads as its route does, from wherever it starts. -/
theorem foldl_components (start : Route) (row : List Component) :
    row.foldl follow start = (row.foldl follow (relative 0 [])).components.foldl follow start := by
  induction row using List.reverseRecOn with
  | nil => exact (follow_here start).symm
  | append_singleton row component ih =>
      rw [List.foldl_append, List.foldl_append, ih]
      exact (components_follow_foldl start _ component).symm

/-- A row that does not start at the root goes up some levels and then down. -/
theorem exists_relative {row : List Component} (h : .root ∉ row) :
    ∃ ups down, row.foldl follow (relative 0 []) = relative ups down := by
  obtain ⟨more, hmore⟩ := level?_foldl (relative 0 []) h
  cases hroute : row.foldl follow (relative 0 []) with
  | absolute names =>
      rw [hroute] at hmore
      cases hmore
  | relative ups down => exact ⟨ups, down, rfl⟩

/-- A row that leads up some levels and down from there does so from everywhere. -/
theorem foldl_of_relative {row : List Component} {ups : Nat} {down : List Text}
    (h : row.foldl follow (relative 0 []) = relative ups down) (start : Route) :
    row.foldl follow start =
      (down.reverse.map Component.name).foldl follow ((List.replicate ups .up).foldl follow start) := by
  rw [foldl_components, h, components_relative_foldl]

theorem foldl_absolute {row : List Component} (h : .root ∉ row) (names : List Text) :
    ∃ more, row.foldl follow (absolute names) = absolute more := by
  obtain ⟨ups, hups⟩ := level?_foldl (absolute names) h
  cases hroute : row.foldl follow (absolute names) with
  | absolute more => exact ⟨more, rfl⟩
  | relative ups down =>
      rw [hroute] at hups
      cases hups

/-! ### Rows of segments -/

/-- The route on through a row of segments. -/
def through (route : Route) (pieces : List Text) : Route :=
  (pieces.filterMap Component.ofSegment?).foldl follow route

theorem ofPath_eq_through (p : Text) :
    ofPath p = (if isAbsolute p then absolute [] else relative 0 []).through (segments p) :=
  ofPath_eq p

theorem through_append (route : Route) (front back : List Text) :
    route.through (front ++ back) = (route.through front).through back := by
  unfold through
  rw [List.filterMap_append, List.foldl_append]

theorem through_names (route : Route) {names : List Text} (h : ∀ n ∈ names, IsName n) :
    route.through names = (names.map Component.name).foldl follow route := by
  rw [through, Component.filterMap_names h]

theorem through_cons_name (route : Route) {n : Text} (h : IsName n) (rest : List Text) :
    route.through (n :: rest) = (route.follow (.name n)).through rest := by
  rw [through, List.filterMap_cons_some (Component.ofSegment?_of_isName h)]
  rfl

theorem through_cons_blank (route : Route) {segment : Text} (h : isBlank segment = true)
    (rest : List Text) : route.through (segment :: rest) = route.through rest := by
  rw [through, List.filterMap_cons_none (ofSegment?_of_isBlank h)]
  rfl

/-- The names that a row of segments adds to a route are segments of the row. -/
theorem names_through {pieces : List Text} (h : ∀ piece ∈ pieces, '/' ∉ piece) {route : Route}
    {n : Text} (hn : n ∈ (route.through pieces).names) :
    n ∈ route.names ∨ n ∈ pieces ∧ IsName n := by
  refine (names_foldl_follow hn).imp_right fun hrow => ?_
  obtain ⟨piece, hpiece, hname⟩ := List.mem_filterMap.mp hrow
  obtain ⟨rfl, hn⟩ := Component.ofSegment?_eq_name (h piece hpiece) hname
  exact ⟨hpiece, hn⟩

theorem through_of_relative {pieces : List Text} {ups : Nat} {down : List Text}
    (h : (relative 0 []).through pieces = relative ups down) (route : Route) :
    route.through pieces =
      (down.reverse.map Component.name).foldl follow ((List.replicate ups .up).foldl follow route) :=
  foldl_of_relative h route

/-- What goes up again takes the last name back, whatever name it is. -/
theorem through_name_of_relative {pieces : List Text} {ups : Nat} {down : List Text}
    (h : (relative 0 []).through pieces = relative (ups + 1) down) (route : Route) (n : Text) :
    (route.follow (.name n)).through pieces =
      (down.reverse.map Component.name).foldl follow
        ((List.replicate ups .up).foldl follow route) := by
  rw [through_of_relative h, List.replicate_succ, List.foldl_cons, follow_name_up]

theorem names_foldl_ups {ups : Nat} {route : Route} {n : Text}
    (hn : n ∈ ((List.replicate ups Component.up).foldl follow route).names) : n ∈ route.names := by
  refine (names_foldl_follow hn).resolve_right fun hname => ?_
  cases List.eq_of_mem_replicate hname

end Route

theorem exists_absolute {p : Text} (h : isAbsolute p = true) :
    ∃ names, Route.ofPath p = .absolute names := by
  have hlevel := Route.level?_ofPath_eq_none_iff.mpr h
  cases hroute : Route.ofPath p with
  | absolute names => exact ⟨names, rfl⟩
  | relative ups names =>
      rw [hroute] at hlevel
      cases hlevel

theorem isAbsolute_normalize {p : Text} (h : isAbsolute p = true) :
    isAbsolute (normalize p) = true := by
  obtain ⟨names, hroute⟩ := exists_absolute h
  rw [normalize, hroute]
  rfl

theorem isAbsolute_append {base : Text} (h : isAbsolute base = true) (rest : Text) :
    isAbsolute (append base rest) = true := by
  obtain ⟨c, t, rfl⟩ := List.exists_cons_of_ne_nil (l := base) (by rintro rfl; cases h)
  unfold append
  split_ifs with hrest
  · exact hrest
  · exact h
  · exact h

theorem isAbsolute_join {base : Text} (h : isAbsolute base = true) (rest : Text) :
    isAbsolute (join base rest) = true :=
  isAbsolute_normalize (isAbsolute_append h _)

theorem isAbsolute_resolve {base : Text} (h : isAbsolute base = true) (target : Text) :
    isAbsolute (resolve base target) = true := by
  unfold resolve
  split_ifs with htarget
  · exact isAbsolute_normalize htarget
  · exact isAbsolute_join h target

end PathAlias
