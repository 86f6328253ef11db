import Mathlib.Data.List.Flatten
import PathAlias.Proofs.Specificity

/-!
Patterns with several wildcards. None of these wildcards stands for anything, so such a pattern maps
no request by what it captures, and a table without it compiles to the other entries in their order.
One request is mapped by it all the same, the one that is spelled like it, since a pattern that is the
request needs no capture.
-/

namespace PathAlias

/-- Whether a pattern has more than one wildcard. -/
def severalWildcards (pattern : Text) : Bool := 1 < pattern.count wildcard

theorem capture?_of_severalWildcards {pattern : Text} (h : severalWildcards pattern = true)
    (candidate : Text) : capture? pattern candidate = none := by
  apply Option.eq_none_iff_forall_ne_some.mpr
  intro captured hcaptured
  obtain ⟨-, before, after, hbefore, hafter, rfl, -⟩ := capture?_eq_some_iff.mp hcaptured
  have hcount : (before ++ wildcard :: after).count wildcard = 1 := by
    rw [List.count_append, List.count_cons_self, List.count_eq_zero.mpr hbefore,
      List.count_eq_zero.mpr hafter]
  rw [severalWildcards, hcount] at h
  exact absurd h (by decide)

/-! ### Tables without some of their rows -/

namespace PathTable

/-- The rows of a table whose patterns are to be kept. -/
def restrict (table : PathTable) (keep : Text → Bool) : PathTable where
  rows := table.rows.filter fun row => keep row.1
  nodup := table.nodup.sublist (List.filter_sublist.map Prod.fst)

theorem mem_patterns_restrict {table : PathTable} {keep : Text → Bool} {pattern : Text} :
    pattern ∈ (table.restrict keep).patterns ↔ pattern ∈ table.patterns ∧ keep pattern = true := by
  simp only [patterns, restrict, List.mem_map, List.mem_filter]
  constructor
  · rintro ⟨row, ⟨hrow, hkeep⟩, rfl⟩
    exact ⟨⟨row, hrow, rfl⟩, hkeep⟩
  · rintro ⟨⟨row, hrow, rfl⟩, hkeep⟩
    exact ⟨row, ⟨hrow, hkeep⟩, rfl⟩

end PathTable

section Restriction

variable (base : Text) (table : PathTable) (matchAll : Bool) {keep : Text → Bool}

theorem declaredEntries_restrict :
    declaredEntries base (table.restrict keep) =
      (declaredEntries base table).filter fun entry => keep entry.pattern := by
  unfold declaredEntries
  rw [List.filter_map]
  rfl

/-- Keeping rows of a table keeps the entries of these rows where they are. -/
theorem compile_restrict (hkeep : keep [wildcard] = true) :
    compile base (table.restrict keep) matchAll =
      (compile base table matchAll).filter fun entry => keep entry.pattern := by
  have hsame : (table.restrict keep).patterns.contains [wildcard] =
      table.patterns.contains [wildcard] := by
    rw [Bool.eq_iff_iff, List.contains_iff_mem, List.contains_iff_mem, PathTable.mem_patterns_restrict]
    simp [hkeep]
  have hsynthesized : (synthesized base table matchAll).filter (fun entry => keep entry.pattern) =
      synthesized base table matchAll := by
    rw [List.filter_eq_self]
    intro entry hentry
    obtain ⟨rfl, -⟩ := eq_catchAll_of_mem_synthesized hentry
    exact hkeep
  rw [compile_eq_append, compile_eq_append, List.filter_append, hsynthesized, filter_bySpecificity,
    declaredEntries_restrict, synthesized, hsame]
  rfl

theorem mem_compile_of_row {pattern : Text} {targets : List Text}
    (hrow : (pattern, targets) ∈ table.rows) :
    { pattern, targets := targets.map (resolve base) } ∈ compile base table matchAll :=
  mem_compile_iff.mpr (Or.inl (List.mem_map_of_mem hrow))

/-- A compiled entry whose pattern is not the bare wildcard is that of a row. -/
theorem exists_row_of_mem_compile {entry : Entry} (hentry : entry ∈ compile base table matchAll)
    (hpattern : entry.pattern ≠ [wildcard]) :
    ∃ targets, (entry.pattern, targets) ∈ table.rows ∧
      entry.targets = targets.map (resolve base) := by
  rcases mem_compile_iff.mp hentry with hdeclared | hsynthesized
  · obtain ⟨row, hrow, rfl⟩ := List.mem_map.mp hdeclared
    exact ⟨row.2, hrow, rfl⟩
  · obtain ⟨rfl, -⟩ := eq_catchAll_of_mem_synthesized hsynthesized
    exact absurd rfl hpattern

end Restriction

/-! ### Candidates of a restricted table -/

/-- Leaving out members changes nothing exactly if they give nothing. -/
theorem flatMap_filter_eq_iff {α β : Type} (keep : α → Bool) (give : α → List β) (items : List α) :
    items.flatMap give = (items.filter keep).flatMap give ↔
      ∀ item ∈ items, keep item = false → give item = [] := by
  induction items with
  | nil => simp
  | cons item items ih =>
      rw [List.forall_mem_cons, List.flatMap_cons]
      cases hkeep : keep item with
      | true => rw [List.filter_cons_of_pos hkeep, List.flatMap_cons, List.append_right_inj, ih]; simp
      | false =>
          rw [List.filter_cons_of_neg (by simp [hkeep])]
          constructor
          · intro h
            -- what is left out cannot be made up for by the others
            have hle : ((items.filter keep).flatMap give).length ≤ (items.flatMap give).length :=
              (List.Sublist.flatMap List.filter_sublist give).length_le
            have hlength := congrArg List.length h
            rw [List.length_append] at hlength
            have hnil : give item = [] := List.eq_nil_of_length_eq_zero (by omega)
            rw [hnil, List.nil_append] at h
            exact ⟨fun _ => hnil, ih.mp h⟩
          · rintro ⟨hnil, hitems⟩
            rw [hnil rfl, List.nil_append]
            exact ih.mpr hitems

namespace Entry

variable {entry : Entry} {request : Text}

theorem mapped_of_severalWildcards (h : severalWildcards entry.pattern = true) :
    entry.mapped request =
      if entry.pattern = request then entry.targets.map fun template => substitute template []
      else [] := by
  rw [mapped, captures?]
  split_ifs with hself
  · rfl
  · rw [capture?_of_severalWildcards h]

end Entry

theorem flatMap_candidatesAt_eq_nil_iff (extensions mapped : List Text) :
    mapped.flatMap (candidatesAt extensions) = [] ↔ mapped = [] := by
  rw [List.flatMap_eq_nil_iff]
  constructor
  · intro h
    apply List.eq_nil_iff_forall_not_mem.mpr
    intro path hpath
    exact absurd (h path hpath) (List.cons_ne_nil _ _)
  · rintro rfl path hpath
    exact absurd hpath List.not_mem_nil

/-- The candidates of a request stay what they are without the rows that are not kept exactly if
these rows map the request to nothing. -/
theorem candidates_restrict_iff (base : Text) (table : PathTable) (matchAll : Bool)
    (extensions : List Text) {request : Text} (hrequest : isUnmappable request = false)
    {keep : Text → Bool} (hkeep : keep [wildcard] = true) :
    candidates extensions (compile base table matchAll) request =
        candidates extensions (compile base (table.restrict keep) matchAll) request ↔
      ∀ entry ∈ compile base table matchAll, keep entry.pattern = false →
        entry.mapped request = [] := by
  have hmappable : ¬ isUnmappable request = true := by simp [hrequest]
  unfold candidates
  rw [if_neg hmappable, if_neg hmappable, compile_restrict base table matchAll hkeep,
    flatMap_filter_eq_iff]
  simp only [flatMap_candidatesAt_eq_nil_iff]

/-- **A pattern with several wildcards captures nothing.** Of all patterns with more than one
wildcard only the one that is the request can map it: without the others the candidates of a request
are the same. Without that one too they are the same exactly if it is not declared, has no targets,
or the request is one that is never mapped. -/
theorem several_wildcards (base : Text) (table : PathTable) (matchAll : Bool)
    (extensions : List Text) (request : Text) :
    let found := candidates extensions (compile base table matchAll) request
    let keeping (keep : Text → Bool) : List Candidate :=
      candidates extensions (compile base (table.restrict keep) matchAll) request
    found = keeping (fun pattern => !severalWildcards pattern || pattern == request) ∧
      (found = keeping (fun pattern => !severalWildcards pattern) ↔
        ¬ (severalWildcards request = true ∧ isUnmappable request = false ∧
          ∃ targets, (request, targets) ∈ table.rows ∧ targets ≠ [])) := by
  intro found keeping
  cases hrequest : isUnmappable request with
  | true => simp [found, keeping, candidates, hrequest]
  | false =>
      constructor
      · refine (candidates_restrict_iff base table matchAll extensions hrequest rfl).mpr ?_
        intro entry _ hleft
        rw [Bool.or_eq_false_iff, Bool.not_eq_false', beq_eq_false_iff_ne] at hleft
        rw [Entry.mapped_of_severalWildcards hleft.1, if_neg hleft.2]
      · refine (candidates_restrict_iff base table matchAll extensions hrequest rfl).trans ?_
        constructor
        · rintro hnothing ⟨hseveral, -, targets, hrow, hne⟩
          have hmapped := hnothing _ (mem_compile_of_row base table matchAll hrow)
            (by rw [hseveral]; rfl)
          rw [Entry.mapped_of_severalWildcards hseveral, if_pos rfl, List.map_eq_nil_iff,
            List.map_eq_nil_iff] at hmapped
          exact hne hmapped
        · intro hdeclared entry hentry hleft
          rw [Bool.not_eq_false'] at hleft
          rw [Entry.mapped_of_severalWildcards hleft]
          split_ifs with hself
          · subst hself
            have hpattern : entry.pattern ≠ [wildcard] := by
              intro hbare
              rw [hbare] at hleft
              exact absurd hleft (by decide)
            obtain ⟨targets, hrow, htargets⟩ :=
              exists_row_of_mem_compile base table matchAll hentry hpattern
            have hnil : targets = [] := by
              by_contra hne
              exact hdeclared ⟨hleft, rfl, targets, hrow, hne⟩
            rw [htargets, hnil]
            rfl
          · rfl

/-- The request that is spelled like a pattern with two wildcards is mapped by it. -/
theorem spelled_like_the_pattern :
    let table := PathTable.ofList [("a*b*", ["x"])]
    let found := candidates [] (compile "/app" table false) "a*b*"
    found = [{ kind := .file, path := "/app/x" }, { kind := .package, path := "/app/x/package.json" }] ∧
      found ≠ candidates []
        (compile "/app" (table.restrict fun pattern => !severalWildcards pattern) false) "a*b*" := by
  decide +kernel

end PathAlias
