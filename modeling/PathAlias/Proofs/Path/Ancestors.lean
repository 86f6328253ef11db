import Mathlib.Data.List.Infix
import PathAlias.Proofs.Path.Spelling

/-!
The directories above a path and the paths below it, by their components. Putting a path below
another one puts its segments behind those of the other, and going up takes away one component
after the other. So both can be told from components, however the path is spelled.
-/

namespace PathAlias

/-! ### Segments -/

theorem ofSegment?_of_isBlank {segment : Text} (h : isBlank segment = true) :
    Component.ofSegment? segment = none := by
  rw [isBlank_iff] at h
  rcases h with rfl | rfl <;> rfl

theorem exists_ofSegment? {segment : Text} (h : ¬ isBlank segment = true) :
    ∃ component, Component.ofSegment? segment = some component := by
  rw [isBlank_iff, not_or] at h
  by_cases hup : segment = ['.', '.']
  · exact ⟨.up, by rw [hup]; rfl⟩
  · exact ⟨.name segment, Component.ofSegment?_name h.1 h.2 hup⟩

theorem ofSegment?_ne_root (segment : Text) : Component.ofSegment? segment ≠ some .root := by
  intro h
  rw [Component.ofSegment?.eq_def] at h
  split at h <;> cases h

theorem filterMap_dropWhile_isBlank (row : List Text) :
    (row.dropWhile isBlank).filterMap Component.ofSegment? = row.filterMap Component.ofSegment? := by
  induction row with
  | nil => rfl
  | cons segment row ih =>
      rw [List.dropWhile_cons]
      split_ifs with hblank
      · rw [ih, List.filterMap_cons_none (ofSegment?_of_isBlank hblank)]
      · rfl

/-- The segments of a path below another one are those of the other, less one at its end that says
nothing, and then its own. -/
theorem segments_append {base rest : Text} (hbase : base ≠ []) (hrest : isAbsolute rest = false) :
    ∃ first row blank, segments base = first :: (row ++ blank) ∧
      segments (append base rest) = first :: (row ++ segments rest) ∧
      ∀ segment ∈ blank, isBlank segment = true := by
  rw [append, if_neg (Bool.eq_false_iff.mp hrest)]
  by_cases hslash : base.getLast? = some '/'
  · rw [if_pos (by simp only [hslash, decide_true, Bool.or_true])]
    obtain ⟨front, rfl⟩ := List.getLast?_eq_some_iff.mp hslash
    obtain ⟨first, row, hfront⟩ := List.exists_cons_of_ne_nil (splitOn_ne_nil '/' front)
    refine ⟨first, row, [[]], ?_, ?_, ?_⟩
    · rw [segments, splitOn_append, hfront]
      rfl
    · rw [List.append_assoc, List.singleton_append, segments, splitOn_append, hfront]
      rfl
    · intro segment hsegment
      rw [List.mem_singleton.mp hsegment]
      rfl
  · rw [if_neg (by simp only [hbase, hslash, decide_false, Bool.or_false, Bool.false_eq_true,
      not_false_eq_true])]
    obtain ⟨first, row, hfront⟩ := List.exists_cons_of_ne_nil (splitOn_ne_nil '/' base)
    refine ⟨first, row, [], ?_, ?_, ?_⟩
    · rw [segments, hfront, List.append_nil]
    · rw [segments, splitOn_append, hfront]
      rfl
    · exact fun segment hsegment => absurd hsegment List.not_mem_nil

/-! ### Components -/

/-- What the first segment of a path says that is not empty. -/
def Component.opening : Text → List Component
  | [] => [.root]
  | ['.'] => [.here]
  | segment => (ofSegment? segment).toList

theorem Component.opening_of_ne {first : Text} (hnil : first ≠ []) (hhere : first ≠ ['.']) :
    opening first = (ofSegment? first).toList := by
  rw [opening]
  · exact hnil
  · exact hhere

theorem Component.exists_opening (first : Text) :
    ∃ component, opening first = [component] ∧ (component = .root ↔ first = []) := by
  by_cases hnil : first = []
  · subst hnil
    exact ⟨.root, rfl, iff_of_true rfl rfl⟩
  by_cases hhere : first = ['.']
  · subst hhere
    exact ⟨.here, rfl, iff_of_false nofun hnil⟩
  · have hblank : ¬ isBlank first = true := by
      rw [isBlank_iff, not_or]
      exact ⟨hnil, hhere⟩
    obtain ⟨component, hcomponent⟩ := exists_ofSegment? hblank
    have hroot : component ≠ .root := fun hroot => ofSegment?_ne_root first (hroot ▸ hcomponent)
    refine ⟨component, ?_, iff_of_false hroot hnil⟩
    rw [opening_of_ne hnil hhere, hcomponent]
    rfl

theorem components_eq_opening {p first : Text} {rest : List Text} (hne : p ≠ [])
    (h : segments p = first :: rest) :
    components p = Component.opening first ++ rest.filterMap Component.ofSegment? := by
  obtain ⟨c, t, rfl⟩ := List.exists_cons_of_ne_nil hne
  by_cases hslash : c = '/'
  · subst hslash
    rw [segments, splitOn, if_pos rfl] at h
    cases h
    rfl
  · have habsolute : isAbsolute (c :: t) = false := by
      rw [isAbsolute, List.head?_cons, Bool.eq_false_iff]
      exact fun heq => hslash (Option.some.inj (beq_iff_eq.mp heq))
    have hnil : first ≠ [] := by
      rintro rfl
      rw [segments, splitOn, if_neg hslash] at h
      split at h <;> cases h
    by_cases hhere : first = ['.']
    · subst hhere
      rw [components.eq_def]
      split
      · rename_i heq
        exact absurd (List.cons.inj heq).1 hslash
      · rw [h]
        rfl
    · rw [components_of_relative habsolute, h, Component.opening_of_ne hnil hhere]
      · cases hsegment : Component.ofSegment? first with
        | none => rw [List.filterMap_cons_none hsegment]; rfl
        | some component => rw [List.filterMap_cons_some hsegment]; rfl
      · intro other hother
        rw [h] at hother
        exact hhere (List.cons.inj hother).1

theorem root_not_mem_filterMap (row : List Text) : .root ∉ row.filterMap Component.ofSegment? := by
  intro h
  obtain ⟨segment, -, hsegment⟩ := List.mem_filterMap.mp h
  exact ofSegment?_ne_root segment hsegment

/-- A path that is not empty opens with one component, and its other segments say the others. -/
theorem exists_components {p : Text} (hne : p ≠ []) :
    ∃ first rest component, segments p = first :: rest ∧ (component = .root ↔ first = []) ∧
      Component.opening first = [component] ∧
      components p = component :: rest.filterMap Component.ofSegment? := by
  obtain ⟨first, rest, hsegments⟩ := List.exists_cons_of_ne_nil (splitOn_ne_nil '/' p)
  obtain ⟨component, hopening, hroot⟩ := Component.exists_opening first
  refine ⟨first, rest, component, hsegments, hroot, hopening, ?_⟩
  rw [components_eq_opening hne hsegments, hopening, List.singleton_append]

/-- A path is at the root at its start only. -/
theorem root_not_mem_tail (p : Text) : .root ∉ (components p).tail := by
  by_cases hne : p = []
  · subst hne
    exact List.not_mem_nil
  · obtain ⟨first, rest, component, -, -, -, hcomponents⟩ := exists_components hne
    rw [hcomponents]
    exact root_not_mem_filterMap rest

theorem append_ne_nil {base rest : Text} (h : base ≠ [] ∨ rest ≠ []) : append base rest ≠ [] := by
  rw [append]
  split_ifs with hrest
  · rintro rfl
    cases hrest
  · rwa [ne_eq, List.append_eq_nil_iff, not_and_or]
  · simp

theorem append_of_last {base rest : Text} (hne : base ≠ []) (hlast : base.getLast? ≠ some '/')
    (hrest : isAbsolute rest = false) : append base rest = base ++ '/' :: rest := by
  rw [append, if_neg (Bool.eq_false_iff.mp hrest), if_neg]
  simp [hne, hlast]

/-- A path below another one has the components of the other and then its own. -/
theorem components_append {base rest : Text} (hbase : base ≠ []) (hrest : isAbsolute rest = false) :
    components (append base rest) =
      components base ++ (segments rest).filterMap Component.ofSegment? := by
  obtain ⟨first, row, blank, hsegments, happend, hblank⟩ := segments_append hbase hrest
  have hne : append base rest ≠ [] := append_ne_nil (Or.inl hbase)
  have hnone : blank.filterMap Component.ofSegment? = [] :=
    List.filterMap_eq_nil_iff.mpr fun segment hsegment =>
      ofSegment?_of_isBlank (hblank segment hsegment)
  rw [components_eq_opening hbase hsegments, components_eq_opening hne happend,
    List.filterMap_append, List.filterMap_append, hnone, List.append_nil, List.append_assoc]

theorem components_ofSegments {first : Text} {row : List Text}
    (h : ∀ segment ∈ first :: row, '/' ∉ segment) :
    components (ofSegments (first :: row)) =
      Component.opening first ++ row.filterMap Component.ofSegment? := by
  by_cases hroot : first = [] ∧ row = []
  · obtain ⟨rfl, rfl⟩ := hroot
    rfl
  · have hjoin : ofSegments (first :: row) = joinWith "/" (first :: row) := by
      rw [ofSegments]
      intro heq
      cases heq
      exact hroot ⟨rfl, rfl⟩
    have hsegments : segments (joinWith "/" (first :: row)) = first :: row :=
      splitOn_joinWith (List.cons_ne_nil _ _) h
    rw [hjoin, components_eq_opening _ hsegments]
    intro hnil
    rw [hnil] at hsegments
    cases hsegments
    exact hroot ⟨rfl, rfl⟩

/-! ### Directories above a path -/

theorem map_aboveSegments {first : Text} {before : List Text}
    (h : ∀ segment ∈ first :: before, '/' ∉ segment) :
    (aboveSegments first before).map components =
      ((before.filterMap Component.ofSegment?).tails.tail.map fun below =>
        Component.opening first ++ below.reverse) ++ if first = [] then [] else [[]] := by
  induction before with
  | nil =>
      rw [aboveSegments]
      split_ifs <;> rfl
  | cons segment before ih =>
      have hbefore : ∀ segment ∈ first :: before, '/' ∉ segment := fun other hother =>
        h other ((List.mem_cons.mp hother).elim (fun heq => heq ▸ List.mem_cons_self)
          fun hmem => List.mem_cons_of_mem _ (List.mem_cons_of_mem _ hmem))
      rw [aboveSegments]
      by_cases hblank : isBlank segment = true
      · rw [if_pos hblank, ih hbefore, List.filterMap_cons_none (ofSegment?_of_isBlank hblank)]
      · obtain ⟨component, hcomponent⟩ := exists_ofSegment? hblank
        have hnear : components (ofSegments (first :: (before.dropWhile isBlank).reverse)) =
            Component.opening first ++ (before.filterMap Component.ofSegment?).reverse := by
          rw [components_ofSegments, List.filterMap_reverse, filterMap_dropWhile_isBlank]
          intro other hother
          rcases List.mem_cons.mp hother with rfl | hmem
          · exact h other List.mem_cons_self
          · exact hbefore other (List.mem_cons_of_mem _
              ((List.dropWhile_sublist _).mem (List.mem_reverse.mp hmem)))
        have htails : ∀ cs : List Component, cs.tails = cs :: cs.tails.tail := fun cs => by
          cases cs <;> rfl
        rw [if_neg hblank, List.map_cons, ih hbefore, hnear, List.filterMap_cons_some hcomponent,
          List.tails_cons, List.tail_cons, htails (before.filterMap Component.ofSegment?),
          List.map_cons, List.tail_cons]
        rfl

/-- The rows of components above a row, each without the last component of the one before. Above a
row that does not start at the root the last one is empty. -/
def Component.above : List Component → List (List Component)
  | [] => []
  | first :: rest =>
      (rest.reverse.tails.tail.map fun below => first :: below.reverse) ++
        if first = .root then [] else [[]]

/-- What is above a path can be told from its components. -/
theorem map_above (p : Text) : (above p).map components = Component.above (components p) := by
  by_cases hne : p = []
  · subst hne
    rfl
  obtain ⟨first, rest, component, hsegments, hroot, hopening, hcomponents⟩ := exists_components hne
  have hslash : ∀ segment ∈ first :: rest.reverse, '/' ∉ segment := by
    intro segment hsegment
    apply not_mem_of_mem_segments (p := p)
    rw [hsegments]
    exact (List.mem_cons.mp hsegment).elim (fun heq => heq ▸ List.mem_cons_self)
      fun hmem => List.mem_cons_of_mem _ (List.mem_reverse.mp hmem)
  have habove : above p = aboveSegments first rest.reverse := by
    rw [above, hsegments]
  rw [habove, map_aboveSegments hslash, hcomponents, hopening, List.filterMap_reverse,
    Component.above]
  simp only [hroot]
  rfl

/-- Going up takes the last component away, which is not the root. -/
theorem components_of_parent? {p dir : Text} (h : parent? p = some dir) :
    ∃ last, components p = components dir ++ [last] ∧ last ≠ .root := by
  have hhead : (Component.above (components p)).head? = some (components dir) := by
    rw [← map_above, List.head?_map, ← parent?, h]
    rfl
  cases hcomponents : components p with
  | nil =>
      rw [hcomponents] at hhead
      cases hhead
  | cons first rest =>
      rw [hcomponents, Component.above] at hhead
      rcases List.eq_nil_or_concat rest with rfl | ⟨before, last, rfl⟩
      · have hfirst : first ≠ .root := by
          rintro rfl
          cases hhead
        rw [if_neg hfirst] at hhead
        rw [← Option.some.inj hhead]
        exact ⟨first, rfl, hfirst⟩
      · have hdir : components dir = first :: before := by
          rw [List.concat_eq_append, List.reverse_append, List.reverse_singleton,
            List.singleton_append, List.tails_cons, List.tail_cons] at hhead
          cases hback : before.reverse with
          | nil =>
              rw [List.reverse_eq_nil_iff.mp hback] at hhead ⊢
              exact (Option.some.inj hhead).symm
          | cons c cs =>
              rw [hback] at hhead
              rw [← List.reverse_reverse before, hback]
              exact (Option.some.inj hhead).symm
        refine ⟨last, ?_, ?_⟩
        · rw [hdir, List.concat_eq_append]
          rfl
        · rintro rfl
          refine root_not_mem_tail p ?_
          rw [hcomponents, List.concat_eq_append]
          exact List.mem_append_right before List.mem_cons_self

/-- A row with the rows above it, by their lengths. -/
theorem Component.cons_above (first : Component) (rest : List Component) :
    (first :: rest) :: Component.above (first :: rest) =
      rest.inits.reverse.map (first :: ·) ++ if first = .root then [] else [[]] := by
  have htails : ∀ row : List Component, row.tails = row :: row.tails.tail := fun row => by
    cases row <;> rfl
  have hrows : rest.inits.reverse.map (first :: ·) =
      rest.reverse.tails.map fun below => first :: below.reverse := by
    rw [List.tails_reverse, List.map_reverse, List.map_reverse, List.map_map]
    simp
  rw [Component.above, hrows, htails rest.reverse, List.map_cons, List.reverse_reverse]
  rfl

end PathAlias
