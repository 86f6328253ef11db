import PathAlias.Proofs.Path.Joining
import PathAlias.Proofs.Specificity

/-!
Absolute paths in their one canonical spelling. They are the texts of places, so a path is canonical
exactly if it leads from the root down through names and says nothing else. What is put behind the last
name changes that name only, and a name that is joined is one level more. Normalizing makes an absolute
path canonical, and so does compiling every target that is absolute.
-/

namespace PathAlias

/-- A path from the root on which no segment is empty, `.` or `..`, and which ends with a slash only if
it is the root. -/
structure IsCanonical (p : Text) : Prop where
  isAbsolute : isAbsolute p = true
  isName : p = "/" ∨ ∀ segment ∈ (segments p).tail, IsName segment

instance (p : Text) : Decidable (IsCanonical p) :=
  decidable_of_iff (isAbsolute p = true ∧ (p = "/" ∨ ∀ segment ∈ (segments p).tail, IsName segment))
    ⟨fun ⟨habsolute, hname⟩ => ⟨habsolute, hname⟩, fun h => ⟨h.isAbsolute, h.isName⟩⟩

/-! ### Texts of places -/

namespace Location

variable {place : Location}

theorem text_of_ne_nil (hne : place ≠ []) : place.text = joinWith "/" ([] :: place.reverse) := by
  rw [joinWith_cons _ _ (mt List.reverse_eq_nil_iff.mp hne)]
  rfl

theorem text_of_segments {p : Text} {row : List Text} (h : segments p = [] :: row) (hne : row ≠ []) :
    p = text row.reverse := by
  rw [text_of_ne_nil (mt List.reverse_eq_nil_iff.mp hne), List.reverse_reverse, ← h]
  exact (joinWith_splitOn '/' p).symm

/-- What is put behind the text of a place is put behind its innermost name. -/
theorem text_append (n : Text) (above : Location) (ext : Text) :
    text (n :: above) ++ ext = text ((n ++ ext) :: above) := by
  rw [text, text, List.reverse_cons, List.reverse_cons, List.cons_append, joinWith_concat_append]

/-- The text of a place one level further in. -/
theorem text_cons (n : Text) (hne : place ≠ []) : text (n :: place) = place.text ++ '/' :: n := by
  have hlast : joinWith "/" [n] = n := List.intercalate_singleton
  rw [text, text, List.reverse_cons,
    joinWith_append _ (mt List.reverse_eq_nil_iff.mp hne) (List.cons_ne_nil _ _), hlast]
  rfl

/-- A name that is put below a place is one level more. -/
theorem append_text (h : ∀ n ∈ place, IsName n) {n : Text} (hn : isAbsolute n = false) :
    append place.text n = text (n :: place) := by
  cases place with
  | nil =>
      have hroot : text [] = "/" := rfl
      have hname : text [n] = '/' :: n := congrArg ('/' :: ·) List.intercalate_singleton
      rw [append, if_neg (Bool.eq_false_iff.mp hn), hroot, hname, if_pos (by decide)]
      rfl
  | cons last above =>
      have hlast := h last List.mem_cons_self
      have hend : (text (last :: above)).getLast? ≠ some '/' := by
        rw [← List.nil_append last, ← text_append, List.getLast?_append_of_ne_nil _ hlast.ne_nil]
        exact fun hslash => hlast.slash (List.mem_of_getLast? hslash)
      have hne : text (last :: above) ≠ [] := List.cons_ne_nil _ _
      rw [append_of_last hne hend hn, text_cons n (List.cons_ne_nil _ _)]

theorem ofPath_text (h : ∀ n ∈ place, IsName n) : Route.ofPath place.text = .absolute place :=
  @Route.ofPath_text (.absolute place) h

theorem normalize_text (h : ∀ n ∈ place, IsName n) : normalize place.text = place.text := by
  rw [normalize, ofPath_text h]
  rfl

/-- A name that is joined to a place is one level more. -/
theorem join_text (h : ∀ n ∈ place, IsName n) {n : Text} (hn : IsName n)
    (hslash : n.dropWhile isSlash = n) : join place.text n = text (n :: place) := by
  rw [join_name _ hn hslash, ofPath_text h]
  rfl

end Location

/-! ### Canonical paths -/

/-- The canonical paths are the texts of places. -/
theorem isCanonical_iff {p : Text} :
    IsCanonical p ↔ ∃ place : Location, (∀ n ∈ place, IsName n) ∧ p = place.text := by
  constructor
  · rintro ⟨habsolute, rfl | hname⟩
    · exact ⟨[], fun n hn => absurd hn List.not_mem_nil, rfl⟩
    · obtain ⟨row, hrow⟩ := segments_of_isAbsolute habsolute
      rw [hrow, List.tail_cons] at hname
      refine ⟨row.reverse, fun n hn => hname n (List.mem_reverse.mp hn), ?_⟩
      refine Location.text_of_segments hrow ?_
      rintro rfl
      -- a text that is cut into one empty piece is empty
      have hjoin := joinWith_splitOn '/' p
      rw [← segments, hrow] at hjoin
      rw [← hjoin] at habsolute
      cases habsolute
  · rintro ⟨place, hplace, rfl⟩
    refine ⟨rfl, ?_⟩
    by_cases hne : place = []
    · exact Or.inl (by rw [hne]; rfl)
    · refine Or.inr fun segment hsegment => ?_
      rw [Location.segments_text (fun n hn => (hplace n hn).slash) hne, List.tail_cons] at hsegment
      exact hplace segment (List.mem_reverse.mp hsegment)

theorem isCanonical_normalize {p : Text} (h : isAbsolute p = true) : IsCanonical (normalize p) := by
  obtain ⟨place, hplace⟩ := exists_absolute h
  refine isCanonical_iff.mpr ⟨place, fun n hn => ?_, by rw [normalize, hplace]; rfl⟩
  apply Route.isName_of_mem_ofPath (p := p)
  rw [hplace]
  exact hn

theorem isAbsolute_of_normalize {p : Text} (h : isAbsolute (normalize p) = true) :
    isAbsolute p = true := by
  rwa [← Route.level?_ofPath_eq_none_iff, ofPath_normalize, Route.level?_ofPath_eq_none_iff] at h

theorem exists_normalize_eq_resolve (base target : Text) : ∃ p, resolve base target = normalize p := by
  unfold resolve
  split_ifs
  · exact ⟨_, rfl⟩
  · exact ⟨_, rfl⟩

/-! ### Directories on the way up -/

/-- The directories that a search upwards goes through are spelled with fewer and fewer of the
components, down to none, or to the root. -/
theorem map_components_ancestors (dir : Text) :
    (ancestors dir).map components =
      (if isAbsolute dir then (components dir).inits.tail else (components dir).inits).reverse := by
  rw [ancestors, List.map_cons, map_above]
  cases hcomponents : components dir with
  | nil =>
      rw [components_eq_nil_iff.mp hcomponents]
      rfl
  | cons first rest =>
      have hroot : isAbsolute dir = true ↔ first = .root := by
        rw [isAbsolute_iff, hcomponents, List.head?_cons, Option.some.injEq]
      rw [Component.cons_above, List.inits_cons]
      by_cases hfirst : first = .root
      · rw [if_pos hfirst, if_pos (hroot.mpr hfirst), List.tail_cons, List.append_nil, List.map_reverse]
      · rw [if_neg hfirst, if_neg (mt hroot.mp hfirst), List.reverse_cons, List.map_reverse]

theorem isAbsolute_of_mem_ancestors {p dir : Text} (h : isAbsolute p = true) (hdir : dir ∈ ancestors p) :
    isAbsolute dir = true := by
  rcases List.mem_cons.mp hdir with rfl | habove
  · exact h
  have hmem : components dir ∈ Component.above (components p) :=
    map_above p ▸ List.mem_map_of_mem habove
  obtain ⟨row, hrow⟩ := List.head?_eq_some_iff.mp (isAbsolute_iff.mp h)
  rw [hrow, Component.above, if_pos rfl, List.append_nil] at hmem
  obtain ⟨below, -, hbelow⟩ := List.mem_map.mp hmem
  rw [isAbsolute_iff, ← hbelow]
  rfl

/-- The root is in no directory, and `.` is taken for one. -/
theorem parentOrHere_of_root {p : Text} (h : components p = [.root]) : parentOrHere p = "." := by
  have hnone := map_above p
  rw [h] at hnone
  rw [parentOrHere, parent?, List.map_eq_nil_iff.mp hnone]
  rfl

/-- The directory of an absolute path is absolute, but for the root, which is in no directory. -/
theorem isAbsolute_parentOrHere {p : Text} (h : isAbsolute p = true) (hroot : components p ≠ [.root]) :
    isAbsolute (parentOrHere p) = true := by
  rw [parentOrHere, parent?]
  cases hdir : (above p).head? with
  | some dir =>
      exact isAbsolute_of_mem_ancestors h (List.mem_cons_of_mem p (List.mem_of_mem_head? hdir))
  | none =>
      obtain ⟨row, hrow⟩ := List.head?_eq_some_iff.mp (isAbsolute_iff.mp h)
      have hnone := map_above p
      rw [List.head?_eq_none_iff.mp hdir, hrow, Component.above, if_pos rfl, List.append_nil] at hnone
      rcases List.eq_nil_or_concat row with rfl | ⟨before, last, rfl⟩
      · exact absurd hrow hroot
      · rw [List.concat_eq_append, List.reverse_append, List.reverse_singleton,
          List.singleton_append, List.tails_cons, List.tail_cons, List.map_nil, eq_comm,
          List.map_eq_nil_iff] at hnone
        have htails : before.reverse.tails ≠ [] := by
          cases before.reverse <;> exact List.cons_ne_nil _ _
        exact absurd hnone htails

/-! ### Compiled targets -/

section Targets

variable {base : Text} {table : PathTable} {matchAll : Bool} {entry : Entry} {target : Text}
  (hentry : entry ∈ compile base table matchAll) (htarget : target ∈ entry.targets)

include hentry htarget

/-- Every compiled target is a template that is resolved from the base directory. -/
theorem exists_template : ∃ template, target = resolve base template := by
  rcases mem_compile_iff.mp hentry with hdeclared | hsynthesized
  · obtain ⟨row, -, rfl⟩ := List.mem_map.mp hdeclared
    obtain ⟨template, -, rfl⟩ := List.mem_map.mp htarget
    exact ⟨template, rfl⟩
  · obtain ⟨rfl, -⟩ := eq_catchAll_of_mem_synthesized hsynthesized
    exact ⟨[wildcard], List.mem_singleton.mp htarget⟩

theorem isAbsolute_target (hbase : isAbsolute base = true) : isAbsolute target = true := by
  obtain ⟨template, rfl⟩ := exists_template hentry htarget
  exact isAbsolute_resolve hbase template

/-- Compiling spells every target in the normal way, so the absolute ones are canonical. -/
theorem isCanonical_target (habsolute : isAbsolute target = true) : IsCanonical target := by
  obtain ⟨template, rfl⟩ := exists_template hentry htarget
  obtain ⟨p, hnormal⟩ := exists_normalize_eq_resolve base template
  rw [hnormal] at habsolute ⊢
  exact isCanonical_normalize (isAbsolute_of_normalize habsolute)

end Targets

end PathAlias
