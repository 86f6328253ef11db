import PathAlias.Path.Route
import Mathlib.Data.List.Basic

/-!
How paths spell their components. A text is cut at its separators and put together again from
names that hold none. The normal spelling of a path has the components of its route, so two normal
paths with the same components are one text.
-/

namespace PathAlias

/-! ### Cutting and joining texts -/

theorem splitOn_of_not_mem {sep : Char} {t : Text} (h : sep ∉ t) : splitOn sep t = [t] := by
  induction t with
  | nil => rfl
  | cons c rest ih =>
      have hc := List.ne_of_not_mem_cons h
      rw [splitOn, if_neg (Ne.symm hc), ih (List.not_mem_of_not_mem_cons h)]

theorem splitOn_append (sep : Char) (front rest : Text) :
    splitOn sep (front ++ sep :: rest) = splitOn sep front ++ splitOn sep rest := by
  induction front with
  | nil => exact if_pos rfl
  | cons c front ih =>
      rw [List.cons_append, splitOn, splitOn]
      by_cases hc : c = sep
      · rw [if_pos hc, if_pos hc, ih]
        rfl
      · rw [if_neg hc, if_neg hc, ih]
        cases hfront : splitOn sep front with
        | nil => exact absurd hfront (splitOn_ne_nil sep front)
        | cons piece pieces => rfl

/-- The pieces of a text hold its characters other than the separator. -/
theorem mem_of_mem_splitOn {sep : Char} {t piece : Text} (hpiece : piece ∈ splitOn sep t) {c : Char}
    (hc : c ∈ piece) : c ∈ t ∧ c ≠ sep := by
  induction t generalizing piece with
  | nil =>
      rw [splitOn, List.mem_singleton] at hpiece
      subst hpiece
      exact absurd hc List.not_mem_nil
  | cons first rest ih =>
      rw [splitOn] at hpiece
      split_ifs at hpiece with hfirst
      · rcases List.mem_cons.mp hpiece with rfl | hrest
        · exact absurd hc List.not_mem_nil
        · exact (ih hrest hc).imp_left (List.mem_cons_of_mem _)
      · cases hsplit : splitOn sep rest with
        | nil => exact absurd hsplit (splitOn_ne_nil sep rest)
        | cons head tail =>
            rw [hsplit] at hpiece ih
            rcases List.mem_cons.mp hpiece with rfl | htail
            · rcases List.mem_cons.mp hc with rfl | hc
              · exact ⟨List.mem_cons_self, hfirst⟩
              · exact (ih List.mem_cons_self hc).imp_left (List.mem_cons_of_mem _)
            · exact (ih (List.mem_cons_of_mem _ htail) hc).imp_left (List.mem_cons_of_mem _)

theorem joinWith_cons_cons (separator first second : Text) (rest : List Text) :
    joinWith separator (first :: second :: rest) =
      first ++ (separator ++ joinWith separator (second :: rest)) := by
  rw [joinWith, List.intercalate_cons_cons, List.append_assoc]
  rfl

theorem joinWith_cons (separator first : Text) {rest : List Text} (h : rest ≠ []) :
    joinWith separator (first :: rest) = first ++ (separator ++ joinWith separator rest) := by
  obtain ⟨second, rest, rfl⟩ := List.exists_cons_of_ne_nil h
  exact joinWith_cons_cons separator first second rest

theorem joinWith_append (separator : Text) {front rest : List Text} (hfront : front ≠ [])
    (hrest : rest ≠ []) :
    joinWith separator (front ++ rest) =
      joinWith separator front ++ (separator ++ joinWith separator rest) := by
  induction front with
  | nil => exact absurd rfl hfront
  | cons first front ih =>
      cases front with
      | nil =>
          have hfirst : joinWith separator [first] = first := List.intercalate_singleton
          rw [hfirst]
          exact joinWith_cons separator first hrest
      | cons second front =>
          have hsecond := ih (List.cons_ne_nil _ _)
          rw [List.cons_append] at hsecond
          rw [List.cons_append, List.cons_append, joinWith_cons_cons, joinWith_cons_cons, hsecond]
          simp only [List.append_assoc]

/-- What is put behind a join is put behind its last piece. -/
theorem joinWith_concat_append (separator : Text) (front : List Text) (last more : Text) :
    joinWith separator (front ++ [last]) ++ more = joinWith separator (front ++ [last ++ more]) := by
  induction front with
  | nil => simp [joinWith]
  | cons first front ih =>
      rw [List.cons_append, List.cons_append, joinWith_cons _ _ (by simp), joinWith_cons _ _ (by simp),
        ← ih, List.append_assoc, List.append_assoc]

theorem head?_joinWith (separator : Text) {first : Text} (h : first ≠ []) (rest : List Text) :
    (joinWith separator (first :: rest)).head? = first.head? := by
  cases rest with
  | nil => simp [joinWith]
  | cons second rest => rw [joinWith_cons_cons, List.head?_append_of_ne_nil _ h]

theorem joinWith_splitOn (sep : Char) (t : Text) : joinWith [sep] (splitOn sep t) = t := by
  induction t with
  | nil => rfl
  | cons c rest ih =>
      obtain ⟨piece, pieces, hsplit⟩ := List.exists_cons_of_ne_nil (splitOn_ne_nil sep rest)
      rw [hsplit] at ih
      rw [splitOn, hsplit]
      split_ifs with hc
      · rw [joinWith_cons_cons, ih, hc]
        rfl
      · change joinWith [sep] ((c :: piece) :: pieces) = c :: rest
        rw [← ih]
        cases pieces with
        | nil => rfl
        | cons next pieces => rw [joinWith_cons_cons, joinWith_cons_cons, List.cons_append]

/-- A join is cut where its pieces are cut and between them. -/
theorem splitOn_joinWith_eq_flatMap {sep : Char} {pieces : List Text} (hne : pieces ≠ []) :
    splitOn sep (joinWith [sep] pieces) = pieces.flatMap (splitOn sep) := by
  induction pieces with
  | nil => exact absurd rfl hne
  | cons first rest ih =>
      cases rest with
      | nil => rw [joinWith, List.intercalate_singleton, List.flatMap_singleton]
      | cons second rest =>
          rw [joinWith_cons_cons, List.singleton_append, splitOn_append, ih (List.cons_ne_nil _ _)]
          rfl

theorem flatMap_splitOn {sep : Char} {pieces : List Text} (h : ∀ piece ∈ pieces, sep ∉ piece) :
    pieces.flatMap (splitOn sep) = pieces := by
  induction pieces with
  | nil => rfl
  | cons first rest ih =>
      rw [List.forall_mem_cons] at h
      rw [List.flatMap_cons, splitOn_of_not_mem h.1, ih h.2, List.singleton_append]

/-- Pieces without the separator are what their join is cut into. -/
theorem splitOn_joinWith {sep : Char} {pieces : List Text} (hne : pieces ≠ [])
    (hpieces : ∀ piece ∈ pieces, sep ∉ piece) : splitOn sep (joinWith [sep] pieces) = pieces := by
  rw [splitOn_joinWith_eq_flatMap hne, flatMap_splitOn hpieces]

theorem mem_joinWith {separator : Text} {pieces : List Text} {c : Char}
    (hc : c ∈ joinWith separator pieces) : c ∈ separator ∨ ∃ piece ∈ pieces, c ∈ piece := by
  induction pieces with
  | nil => exact absurd hc List.not_mem_nil
  | cons first rest ih =>
      cases rest with
      | nil =>
          rw [joinWith, List.intercalate_singleton] at hc
          exact Or.inr ⟨first, List.mem_cons_self, hc⟩
      | cons second rest =>
          rw [joinWith_cons_cons, List.mem_append, List.mem_append] at hc
          rcases hc with hfirst | hsep | hrest
          · exact Or.inr ⟨first, List.mem_cons_self, hfirst⟩
          · exact Or.inl hsep
          · rcases ih hrest with hsep | ⟨piece, hpiece, hc⟩
            · exact Or.inl hsep
            · exact Or.inr ⟨piece, List.mem_cons_of_mem _ hpiece, hc⟩

theorem count_joinWith {sep c : Char} (hc : sep ≠ c) (pieces : List Text) :
    (joinWith [sep] pieces).count c = pieces.flatten.count c := by
  induction pieces with
  | nil => rfl
  | cons first rest ih =>
      cases rest with
      | nil => simp [joinWith]
      | cons second rest =>
          rw [joinWith_cons_cons, List.count_append, List.count_append, ih,
            List.count_singleton, if_neg (by simpa using hc), Nat.zero_add]
          exact List.count_append.symm

theorem count_flatten_eq_zero_iff {c : Char} {pieces : List Text} :
    pieces.flatten.count c = 0 ↔ ∀ piece ∈ pieces, c ∉ piece := by
  simp only [List.count_eq_zero, List.mem_flatten, not_exists, not_and]

theorem not_mem_joinWith_iff {sep c : Char} (hc : sep ≠ c) {pieces : List Text} :
    c ∉ joinWith [sep] pieces ↔ ∀ piece ∈ pieces, c ∉ piece := by
  rw [← List.count_eq_zero, count_joinWith hc, count_flatten_eq_zero_iff]

/-! ### Names -/

theorem isBlank_iff (segment : Text) : isBlank segment = true ↔ segment = [] ∨ segment = ['.'] := by
  rw [isBlank, Bool.or_eq_true, beq_iff_eq, beq_iff_eq]

/-- A text that a segment can spell and that leads down to an entry of this name. -/
structure IsName (n : Text) : Prop where
  ne_nil : n ≠ []
  ne_here : n ≠ ['.']
  ne_up : n ≠ ['.', '.']
  slash : '/' ∉ n

instance (n : Text) : Decidable (IsName n) :=
  decidable_of_iff (n ≠ [] ∧ n ≠ ['.'] ∧ n ≠ ['.', '.'] ∧ '/' ∉ n)
    ⟨fun ⟨hnil, hhere, hup, hslash⟩ => ⟨hnil, hhere, hup, hslash⟩,
      fun h => ⟨h.ne_nil, h.ne_here, h.ne_up, h.slash⟩⟩

theorem IsName.not_isBlank {n : Text} (h : IsName n) : ¬ isBlank n = true := by
  rw [isBlank_iff, not_or]
  exact ⟨h.ne_nil, h.ne_here⟩

theorem Component.ofSegment?_name {n : Text} (hnil : n ≠ []) (hhere : n ≠ ['.'])
    (hup : n ≠ ['.', '.']) : Component.ofSegment? n = some (.name n) := by
  rw [Component.ofSegment?]
  · exact hnil
  · exact hhere
  · exact hup

theorem Component.ofSegment?_of_isName {n : Text} (h : IsName n) :
    Component.ofSegment? n = some (.name n) :=
  Component.ofSegment?_name h.ne_nil h.ne_here h.ne_up

theorem Component.ofSegment?_eq_name {segment n : Text} (hslash : '/' ∉ segment)
    (h : Component.ofSegment? segment = some (.name n)) : segment = n ∧ IsName n := by
  rw [Component.ofSegment?.eq_def] at h
  split at h
  · cases h
  · cases h
  · cases h
  · rename_i hnil hhere hup
    cases h
    exact ⟨rfl, ⟨hnil, hhere, hup, hslash⟩⟩

theorem Component.filterMap_names {names : List Text} (h : ∀ n ∈ names, IsName n) :
    names.filterMap Component.ofSegment? = names.map .name := by
  rw [List.filterMap_congr fun n hn => Component.ofSegment?_of_isName (h n hn),
    List.filterMap_eq_map']

theorem Component.map_text_names (names : List Text) :
    (names.map Component.name).map Component.text = names :=
  (List.map_map ..).trans (List.map_id names)

/-- Joined pieces are read as they are, but for the empty join, which says nothing. -/
theorem filterMap_segments_joinWith {pieces : List Text} (h : ∀ piece ∈ pieces, '/' ∉ piece) :
    (segments (joinWith "/" pieces)).filterMap Component.ofSegment? =
      pieces.filterMap Component.ofSegment? := by
  by_cases hne : pieces = []
  · rw [hne]
    rfl
  · have hsegments : segments (joinWith "/" pieces) = pieces := splitOn_joinWith hne h
    rw [hsegments]

/-! ### Levels up and names below -/

section Ups

variable {ups : Nat} {names : List Text} (h : ∀ n ∈ names, IsName n)

include h

theorem piece_of_mem_ups {piece : Text} (hpiece : piece ∈ List.replicate ups ['.', '.'] ++ names) :
    '/' ∉ piece ∧ ¬ isBlank piece = true := by
  rcases List.mem_append.mp hpiece with hup | hname
  · rw [List.eq_of_mem_replicate hup]
    decide
  · exact ⟨(h piece hname).slash, (h piece hname).not_isBlank⟩

theorem segments_joinWith_ups (hne : List.replicate ups ['.', '.'] ++ names ≠ []) :
    segments (joinWith ['/'] (List.replicate ups ['.', '.'] ++ names)) =
      List.replicate ups ['.', '.'] ++ names :=
  splitOn_joinWith hne fun _ hpiece => (piece_of_mem_ups h hpiece).1

theorem filterMap_ups :
    (List.replicate ups ['.', '.'] ++ names).filterMap Component.ofSegment? =
      List.replicate ups .up ++ names.map .name := by
  have hups : (List.replicate ups ['.', '.']).filterMap Component.ofSegment? =
      List.replicate ups .up := List.filterMap_replicate_of_some rfl
  rw [List.filterMap_append, hups, Component.filterMap_names h]

end Ups

/-! ### Components of paths -/

theorem components_cons_slash (rest : Text) :
    components ('/' :: rest) = .root :: (segments rest).filterMap Component.ofSegment? := rfl

/-- Without a leading separator or a leading `.` the segments alone say what the components are. -/
theorem components_of_relative {p : Text} (habsolute : isAbsolute p = false)
    (hhere : ∀ rest, segments p ≠ ['.'] :: rest) :
    components p = (segments p).filterMap Component.ofSegment? := by
  rw [components.eq_def]
  split
  · cases habsolute
  · split
    · rename_i rest hsegments
      exact absurd hsegments (hhere rest)
    · rfl

theorem not_mem_of_mem_segments {p segment : Text} (h : segment ∈ segments p) : '/' ∉ segment :=
  fun hc => (mem_of_mem_splitOn h hc).2 rfl

theorem segments_cons {c : Char} (hc : c ≠ '/') (rest : Text) :
    ∃ piece pieces, segments (c :: rest) = (c :: piece) :: pieces := by
  obtain ⟨piece, pieces, hsplit⟩ := List.exists_cons_of_ne_nil (splitOn_ne_nil '/' rest)
  refine ⟨piece, pieces, ?_⟩
  rw [segments, splitOn, if_neg hc, hsplit]

theorem segments_of_isAbsolute {p : Text} (h : isAbsolute p = true) :
    ∃ rest, segments p = [] :: rest := by
  match p, h with
  | c :: rest, h =>
      rw [isAbsolute, List.head?_cons, beq_iff_eq, Option.some.injEq] at h
      exact ⟨splitOn '/' rest, by rw [segments, splitOn, if_pos h]⟩

theorem isAbsolute_of_not_mem {t : Text} (h : '/' ∉ t) : isAbsolute t = false := by
  rw [Bool.eq_false_iff]
  intro habsolute
  rw [isAbsolute, beq_iff_eq] at habsolute
  exact h (List.mem_of_mem_head? habsolute)

theorem isName_of_mem_components {p n : Text} (h : .name n ∈ components p) : IsName n := by
  have hsegment : ∀ t : Text, .name n ∈ (segments t).filterMap Component.ofSegment? → IsName n := by
    intro t hname
    obtain ⟨segment, hmem, hsegment⟩ := List.mem_filterMap.mp hname
    exact (Component.ofSegment?_eq_name (not_mem_of_mem_segments hmem) hsegment).2
  rw [components.eq_def] at h
  split at h
  · rename_i rest
    rcases List.mem_cons.mp h with hroot | hrest
    · cases hroot
    · exact hsegment rest hrest
  · split at h
    · rename_i rest hsegments
      rcases List.mem_cons.mp h with hhere | hrest
      · cases hhere
      · apply hsegment p
        rw [hsegments]
        exact List.mem_filterMap.mpr ((List.mem_filterMap.mp hrest).imp fun _ hmem =>
          hmem.imp_left (List.mem_cons_of_mem _))
    · exact hsegment _ h

theorem Location.segments_text {place : Location} (h : ∀ n ∈ place, '/' ∉ n) (hne : place ≠ []) :
    segments place.text = [] :: place.reverse := by
  have hpieces : splitOn '/' (joinWith ['/'] place.reverse) = place.reverse :=
    splitOn_joinWith (fun hnil => hne (List.reverse_eq_nil_iff.mp hnil)) fun n hn =>
      h n (List.mem_reverse.mp hn)
  rw [segments, text, splitOn, if_pos rfl]
  exact congrArg ([] :: ·) hpieces

/-- The absolute path of a row of names has these names as components. -/
theorem Location.components_text {place : Location} (h : ∀ n ∈ place, IsName n) :
    PathAlias.components place.text = .root :: place.reverse.map .name := by
  rw [text, components_cons_slash]
  congr 1
  cases hplace : place.reverse with
  | nil => rfl
  | cons first rest =>
      have hnames : ∀ n ∈ first :: rest, IsName n := fun n hn =>
        h n (List.mem_reverse.mp (hplace ▸ hn))
      rw [segments]
      change (splitOn '/' (joinWith ['/'] (first :: rest))).filterMap Component.ofSegment? = _
      rw [splitOn_joinWith (List.cons_ne_nil _ _) fun n hn => (hnames n hn).slash,
        Component.filterMap_names hnames]

/-! ### Normal paths -/

namespace Route

/-- The names on a route. -/
def names : Route → List Text
  | .absolute names => names
  | .relative _ names => names

theorem names_follow {route : Route} {component : Component} {n : Text}
    (h : n ∈ (route.follow component).names) : n ∈ route.names ∨ component = .name n := by
  cases component with
  | root => exact absurd h List.not_mem_nil
  | here => exact Or.inl h
  | up =>
      match route, h with
      | .absolute names, h => exact Or.inl (List.mem_of_mem_tail h)
      | .relative ups [], h => exact absurd h List.not_mem_nil
      | .relative ups (first :: names), h => exact Or.inl (List.mem_cons_of_mem _ h)
  | name other =>
      match route, h with
      | .absolute names, h =>
          exact (List.mem_cons.mp h).symm.imp_right fun heq => congrArg _ heq.symm
      | .relative ups names, h =>
          exact (List.mem_cons.mp h).symm.imp_right fun heq => congrArg _ heq.symm

theorem names_foldl_follow {row : List Component} {route : Route} {n : Text}
    (h : n ∈ (row.foldl follow route).names) : n ∈ route.names ∨ .name n ∈ row := by
  induction row generalizing route with
  | nil => exact Or.inl h
  | cons component row ih =>
      rcases ih h with hroute | hrow
      · rcases names_follow hroute with hmem | rfl
        · exact Or.inl hmem
        · exact Or.inr List.mem_cons_self
      · exact Or.inr (List.mem_cons_of_mem _ hrow)

theorem isName_of_mem_ofPath {p n : Text} (h : n ∈ (ofPath p).names) : IsName n := by
  rcases names_foldl_follow h with hnil | hcomponent
  · exact absurd hnil List.not_mem_nil
  · exact isName_of_mem_components hcomponent

theorem components_pieces {ups : Nat} {names : List Text} (h : ∀ n ∈ names, IsName n)
    (hne : List.replicate ups ['.', '.'] ++ names ≠ []) :
    PathAlias.components (joinWith ['/'] (List.replicate ups ['.', '.'] ++ names)) =
      List.replicate ups .up ++ names.map .name := by
  have hsegments := segments_joinWith_ups h hne
  -- none of the pieces says nothing, so none of them opens a path in its own way
  have hfirst : ∀ first rest, segments (joinWith ['/'] (List.replicate ups ['.', '.'] ++ names)) =
      first :: rest → ¬ isBlank first = true := by
    intro first rest hrest
    have hmem : first ∈ List.replicate ups ['.', '.'] ++ names := by
      rw [← hsegments, hrest]
      exact List.mem_cons_self
    exact (piece_of_mem_ups h hmem).2
  rw [components_of_relative, hsegments, filterMap_ups h]
  · rw [Bool.eq_false_iff]
    intro habsolute
    obtain ⟨rest, hrest⟩ := segments_of_isAbsolute habsolute
    exact hfirst [] rest hrest rfl
  · intro rest hrest
    exact hfirst ['.'] rest hrest rfl

/-- The normal spelling of a route has the components of the route. -/
theorem components_text {route : Route} (h : ∀ n ∈ route.names, IsName n) :
    PathAlias.components route.text = route.components := by
  have hnames : ∀ n ∈ route.names.reverse, IsName n := fun n hn => h n (List.mem_reverse.mp hn)
  match route with
  | .absolute names => exact Location.components_text h
  | .relative 0 [] => rfl
  | .relative (ups + 1) names => exact components_pieces hnames (by simp)
  | .relative 0 (n :: names) => exact components_pieces hnames (by simp)

theorem root_not_mem_components (ups : Nat) (names : List Text) :
    .root ∉ (Route.relative ups names).components := by
  intro h
  match ups, names, h with
  | 0, [], h => cases List.mem_singleton.mp h
  | ups + 1, names, h =>
      rcases List.mem_append.mp h with hup | hname
      · cases List.eq_of_mem_replicate hup
      · obtain ⟨n, _, hn⟩ := List.mem_map.mp hname
        cases hn
  | 0, first :: names, h =>
      obtain ⟨n, _, hn⟩ := List.mem_map.mp h
      cases hn

end Route

theorem components_normalize (p : Text) : components (normalize p) = (Route.ofPath p).components :=
  Route.components_text fun _ => Route.isName_of_mem_ofPath

/-- A normal path with the components of a place is the absolute path of that place. -/
theorem normalize_eq_text {p : Text} {place : Location}
    (h : components (normalize p) = .root :: place.reverse.map .name) : normalize p = place.text := by
  rw [components_normalize] at h
  rw [normalize]
  match hroute : Route.ofPath p with
  | .absolute names =>
      rw [hroute] at h
      have hnames := List.map_injective_iff.mpr (fun _ _ => Component.name.inj) (List.cons.inj h).2
      rw [List.reverse_injective hnames]
      rfl
  | .relative ups names =>
      rw [hroute] at h
      exact absurd (h ▸ List.mem_cons_self) (Route.root_not_mem_components ups names)

end PathAlias
