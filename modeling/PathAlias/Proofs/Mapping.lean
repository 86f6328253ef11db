import Mathlib.Tactic.SplitIfs
import PathAlias.Mapping

/-!
What compiling keeps of a path table. Ordering by specificity drops no entry and adds none, so the
compiled patterns are the declared ones, with the bare wildcard besides if everything is to match.
-/

namespace PathAlias

theorem place_perm (entry : Entry) (entries : List Entry) :
    (place entry entries).Perm (entry :: entries) := by
  induction entries with
  | nil => exact .refl _
  | cons first rest ih =>
      rw [place]
      split_ifs with hrank
      · exact (ih.cons first).trans (.swap entry first rest)
      · exact .refl _

theorem bySpecificity_perm (entries : List Entry) : (bySpecificity entries).Perm entries := by
  have hfold : ∀ placed, (entries.foldl (fun placed entry => place entry placed) placed).Perm
      (entries ++ placed) := by
    induction entries with
    | nil => exact fun placed => .refl placed
    | cons entry rest ih =>
        intro placed
        rw [List.foldl_cons]
        have hplace := (place_perm entry placed).append_left rest
        exact ((ih (place entry placed)).trans hplace).trans List.perm_middle
  have hall := hfold []
  rwa [List.append_nil] at hall

theorem exists_declaredEntries_iff (base : Text) (table : PathTable) (pattern : Text) :
    (∃ entry ∈ bySpecificity (declaredEntries base table), entry.pattern = pattern) ↔
      pattern ∈ table.patterns := by
  have hmem : ∀ entry, entry ∈ bySpecificity (declaredEntries base table) ↔
      entry ∈ declaredEntries base table := fun _ => (bySpecificity_perm _).mem_iff
  rw [PathTable.patterns, List.mem_map]
  constructor
  · rintro ⟨entry, hentry, rfl⟩
    obtain ⟨row, hrow, rfl⟩ := List.mem_map.mp ((hmem entry).mp hentry)
    exact ⟨row, hrow, rfl⟩
  · rintro ⟨row, hrow, rfl⟩
    exact ⟨_, (hmem _).mpr (List.mem_map.mpr ⟨row, hrow, rfl⟩), rfl⟩

/-- A compiled table has an entry for the bare wildcard if the table declares it or everything is
to match. -/
theorem exists_compile_wildcard_iff (base : Text) (table : PathTable) (matchAll : Bool) :
    (∃ entry ∈ compile base table matchAll, entry.pattern = [wildcard]) ↔
      [wildcard] ∈ table.patterns ∨ matchAll = true := by
  have hdeclared := exists_declaredEntries_iff base table [wildcard]
  rw [compile]
  by_cases hpattern : [wildcard] ∈ table.patterns
  · have hif : ¬ (matchAll && !decide ([wildcard] ∈ table.patterns)) = true := by
      rw [decide_eq_true hpattern, Bool.not_true, Bool.and_false]
      exact Bool.false_ne_true
    rw [if_neg hif]
    exact ⟨fun _ => Or.inl hpattern, fun _ => hdeclared.mpr hpattern⟩
  · cases matchAll with
    | false =>
        rw [Bool.false_and, if_neg Bool.false_ne_true, hdeclared]
        exact ⟨Or.inl, fun h => h.resolve_right Bool.false_ne_true⟩
    | true =>
        have hif : (true && !decide ([wildcard] ∈ table.patterns)) = true := by
          rw [decide_eq_false hpattern]
          rfl
        rw [if_pos hif]
        refine ⟨fun _ => Or.inr rfl, fun _ => ⟨catchAll base, ?_, rfl⟩⟩
        exact List.mem_append_right _ (List.mem_singleton_self _)

end PathAlias
