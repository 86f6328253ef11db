import Mathlib.Data.List.Perm.Basic
import PathAlias.Proofs.Precedence
import PathAlias.Proofs.Specificity

/-!
Lists that are given in another order. Which candidates a request has depends on the extensions, the
targets of a pattern and the declared patterns as collections only: in another order they give the same
candidates, in another order. How a candidate fares does not depend on where it stands, so a search
that finds something in one order finds something in every order, though it may be another file.
-/

namespace PathAlias

/-- One table declares what another one does, the rows in some order and the targets of each row in
some order. -/
def PathTable.Reordered (other table : PathTable) : Prop :=
  ∃ rows, other.rows.Perm rows ∧
    List.Forall₂ (fun changed row => changed.1 = row.1 ∧ changed.2.Perm row.2) rows table.rows

/-- The answers of a disk with these files and without manifests. -/
def holdingAll (files : List Text) : FileSystem Id
  | .file path => .ok (files.contains path)
  | .manifest _ => .ok none

/-! ### The same candidates in another order -/

section Candidates

variable {extensions others : List Text} {request : Text}

theorem candidatesAt_perm (h : others.Perm extensions) (mapped : Text) :
    (candidatesAt others mapped).Perm (candidatesAt extensions mapped) := by
  rw [candidatesAt, candidatesAt]
  exact ((h.map _).cons _).append ((h.map _).cons _)

/-- The candidates that one entry contributes. -/
def Entry.contributes (extensions : List Text) (request : Text) (entry : Entry) : List Candidate :=
  (entry.mapped request).flatMap (candidatesAt extensions)

theorem candidates_eq_flatMap (h : isUnmappable request = false) (extensions : List Text)
    (entries : List Entry) :
    candidates extensions entries request =
      entries.flatMap (Entry.contributes extensions request) := by
  rw [candidates, h]
  rfl

theorem Entry.contributes_perm {changed entry : Entry} (hpattern : changed.pattern = entry.pattern)
    (htargets : changed.targets.Perm entry.targets) (hextensions : others.Perm extensions) :
    (changed.contributes others request).Perm (entry.contributes extensions request) := by
  have hcaptures : changed.captures? request = entry.captures? request := by
    rw [Entry.captures?, Entry.captures?, hpattern]
  have hmapped : (changed.mapped request).Perm (entry.mapped request) := by
    rw [Entry.mapped, Entry.mapped, hcaptures]
    cases entry.captures? request with
    | none => exact .refl _
    | some captured => exact htargets.map _
  exact hmapped.flatMap fun mapped _ => candidatesAt_perm hextensions mapped

variable (base : Text) {table other : PathTable}

theorem PathTable.Reordered.mem_patterns_iff (h : other.Reordered table) (pattern : Text) :
    pattern ∈ other.patterns ↔ pattern ∈ table.patterns := by
  obtain ⟨rows, hperm, hrows⟩ := h
  have hpatterns : List.Forall₂ (· = ·) (rows.map Prod.fst) (table.rows.map Prod.fst) := by
    rw [List.forall₂_map_left_iff, List.forall₂_map_right_iff]
    exact hrows.imp fun _ _ hrow => hrow.1
  rw [List.forall₂_eq_eq_eq] at hpatterns
  rw [PathTable.patterns, PathTable.patterns, ← hpatterns]
  exact (hperm.map Prod.fst).mem_iff

theorem PathTable.Reordered.synthesized_eq (h : other.Reordered table) (matchAll : Bool) :
    synthesized base other matchAll = synthesized base table matchAll := by
  have hdeclared : other.patterns.contains [wildcard] = table.patterns.contains [wildcard] := by
    rw [Bool.eq_iff_iff, List.contains_iff_mem, List.contains_iff_mem]
    exact h.mem_patterns_iff [wildcard]
  rw [synthesized, synthesized, hdeclared]

theorem PathTable.Reordered.declared_perm (h : other.Reordered table)
    (hextensions : others.Perm extensions) :
    ((declaredEntries base other).flatMap (Entry.contributes others request)).Perm
      ((declaredEntries base table).flatMap (Entry.contributes extensions request)) := by
  obtain ⟨rows, hperm, hrows⟩ := h
  rw [declaredEntries, declaredEntries]
  refine ((hperm.map _).flatMap_right _).trans ?_
  -- the rows stand in the same order now, and only their targets in another one
  generalize table.rows = ordered at hrows
  clear hperm
  induction hrows with
  | nil => exact .refl _
  | cons hrow _ ih =>
      rw [List.map_cons, List.map_cons, List.flatMap_cons, List.flatMap_cons]
      exact (Entry.contributes_perm hrow.1 (hrow.2.map _) hextensions).append ih

theorem PathTable.Reordered.candidates_perm (h : other.Reordered table)
    (hextensions : others.Perm extensions) (matchAll : Bool) (request : Text) :
    (candidates others (compile base other matchAll) request).Perm
      (candidates extensions (compile base table matchAll) request) := by
  cases hrequest : isUnmappable request with
  | true =>
      rw [candidates, candidates, hrequest]
      exact .refl _
  | false =>
      have hcatchAll : ((synthesized base table matchAll).flatMap
            (Entry.contributes others request)).Perm
          ((synthesized base table matchAll).flatMap (Entry.contributes extensions request)) :=
        .flatMap_left _ fun entry _ => Entry.contributes_perm rfl (.refl _) hextensions
      rw [candidates_eq_flatMap hrequest, candidates_eq_flatMap hrequest, compile_eq_append,
        compile_eq_append, h.synthesized_eq, List.flatMap_append, List.flatMap_append]
      refine .append ?_ hcatchAll
      -- sorting is one more change of the order
      have hsorted := (bySpecificity_perm (declaredEntries base other)).flatMap_right
        (Entry.contributes others request)
      exact (hsorted.trans (h.declared_perm base hextensions)).trans
        ((bySpecificity_perm _).flatMap_right _).symm

end Candidates

/-! ### Searches in another order -/

theorem Lookup.run_firstSome_none_of_perm {α β : Type} {fs : FileSystem Id}
    {probe : β → Lookup (Option α)} {items others : List β} (h : others.Perm items) :
    (firstSome probe others).run fs = Except.ok none ↔
      (firstSome probe items).run fs = Except.ok none := by
  rw [run_firstSome_none_iff, run_firstSome_none_iff]
  exact forall_congr' fun item => imp_congr_left h.mem_iff

theorem Lookup.exists_run {α : Type} {fs : FileSystem Id}
    (h : ∀ question, ∃ answer, fs question = .ok answer) (lookup : Lookup α) :
    ∃ outcome, lookup.run fs = Except.ok outcome := by
  induction lookup with
  | done outcome => exact ⟨outcome, rfl⟩
  | ask question next ih =>
      obtain ⟨answer, hanswer⟩ := h question
      rw [run_ask, hanswer]
      exact ih answer

/-- **Order decides which file is found, never whether one is.** With the extensions, the declared
patterns and the targets of each pattern in another order, a search finds nothing exactly if it found
nothing before. Over a file system that answers every question both searches come to an end without an
error, and they both find something or neither does. -/
theorem found_in_any_order (base : Text) (table other : PathTable) (matchAll : Bool)
    (extensions others mainFields : List Text) (request : Text) (mode : Mode) (fs : FileSystem Id)
    (htable : other.Reordered table) (hextensions : others.Perm extensions) :
    let before : Except Error (Option Text) :=
      ((Matcher.ofTable base table mainFields matchAll).search extensions request).outcome mode fs
    let after : Except Error (Option Text) :=
      ((Matcher.ofTable base other mainFields matchAll).search others request).outcome mode fs
    (after = .ok none ↔ before = .ok none) ∧
    ((∀ question, ∃ answer, fs question = .ok answer) →
      ∃ found foundAfter, before = .ok found ∧ after = .ok foundAfter ∧
        foundAfter.isSome = found.isSome) := by
  intro before after
  have hbefore : before = (Lookup.firstSome (Candidate.probe mainFields)
      (candidates extensions (compile base table matchAll) request)).run fs :=
    Lookup.outcome_eq_run mode _
  have hafter : after = (Lookup.firstSome (Candidate.probe mainFields)
      (candidates others (compile base other matchAll) request)).run fs :=
    Lookup.outcome_eq_run mode _
  have hnone : after = .ok none ↔ before = .ok none := by
    rw [hbefore, hafter]
    exact Lookup.run_firstSome_none_of_perm
      (htable.candidates_perm base hextensions matchAll request)
  refine ⟨hnone, fun hanswers => ?_⟩
  obtain ⟨found, hfound⟩ := Lookup.exists_run hanswers (Lookup.firstSome
    (Candidate.probe mainFields) (candidates extensions (compile base table matchAll) request))
  obtain ⟨foundAfter, hfoundAfter⟩ := Lookup.exists_run hanswers (Lookup.firstSome
    (Candidate.probe mainFields) (candidates others (compile base other matchAll) request))
  rw [← hbefore] at hfound
  rw [← hafter] at hfoundAfter
  refine ⟨found, foundAfter, hfound, hfoundAfter, ?_⟩
  rw [hfound, hfoundAfter, Except.ok.injEq, Except.ok.injEq] at hnone
  cases found with
  | none => rw [hnone.mpr rfl]
  | some answer =>
      cases foundAfter with
      | none => cases hnone.mp rfl
      | some answerAfter => rfl

/-- Where two files may answer a request, the order decides which of them does. -/
theorem found_in_any_order_library :
    let other : PathTable := .ofList
      [("lib/foo", ["vendor/foo"]), ("lib/*", ["vendor/*", "packages/*"]), ("*.css", ["styles/*"])]
    let fs := holdingAll ["/app/packages/x.ts", "/app/vendor/x.js"]
    let before : Except Error (Option Text) :=
      ((Matcher.ofTable "/app" library [] true).search [".ts", ".js"] "lib/x").run fs
    let after : Except Error (Option Text) :=
      ((Matcher.ofTable "/app" other [] true).search [".js", ".ts"] "lib/x").run fs
    other.Reordered library ∧ before = .ok (some "/app/packages/x") ∧
    ∃ answer, after = .ok (some answer) ∧ answer ≠ "/app/packages/x" := by
  intro other fs before after
  have hreordered : other.Reordered library :=
    ⟨[("*.css", ["styles/*"]), ("lib/*", ["vendor/*", "packages/*"]), ("lib/foo", ["vendor/foo"])],
      by decide +kernel, by decide +kernel⟩
  have hbefore : before = .ok (some "/app/packages/x") := by decide +kernel
  have hanswers : ∀ question, ∃ answer, fs question = .ok answer
    | .file path => ⟨_, rfl⟩
    | .manifest path => ⟨_, rfl⟩
  obtain ⟨found, foundAfter, hfound, hafter, hsome⟩ := (found_in_any_order "/app" library other true
    [".ts", ".js"] [".js", ".ts"] [] "lib/x" .blocking fs hreordered (by decide +kernel)).2 hanswers
  cases hbefore.symm.trans hfound
  obtain ⟨answer, rfl⟩ := Option.isSome_iff_exists.mp hsome
  refine ⟨hreordered, hbefore, answer, hafter, ?_⟩
  rintro rfl
  exact absurd hafter (by decide +kernel)

end PathAlias
