import PathAlias.Proofs.Precedence
import PathAlias.Proofs.Specificity

/-!
Patterns that are added to a table. A new pattern is sorted behind all that are at least as specific,
and the entry that maps everything stands behind the declared ones with it or without. So the entries
up to one that is at least as specific are what they were, and a search that ends among them does not
get to what is behind.
-/

namespace PathAlias

/-! ### Searching the front of a list -/

namespace Lookup

variable {α β γ : Type}

theorem bind_bind (lookup : Lookup α) (next : α → Lookup β) (last : β → Lookup γ) :
    (lookup.bind next).bind last = lookup.bind fun outcome => (next outcome).bind last := by
  induction lookup with
  | done outcome => rfl
  | ask question rest ih =>
      simp only [bind]
      congr 1
      funext answer
      exact ih answer

theorem firstSome_append (probe : β → Lookup (Option α)) (front back : List β) :
    firstSome probe (front ++ back) =
      (firstSome probe front).bind fun found =>
        match found with
        | some hit => .done (some hit)
        | none => firstSome probe back := by
  induction front with
  | nil => rfl
  | cons first front ih =>
      rw [List.cons_append, firstSome, firstSome, bind_bind]
      congr 1
      funext found
      cases found with
      | none => exact ih
      | some hit => rfl

/-- A search that ends among the first items asks and ends without the others. -/
theorem recorded_firstSome_append {fs : FileSystem Id} {probe : β → Lookup (Option α)}
    {front : List β} (h : (firstSome probe front).run fs ≠ Except.ok none) (back : List β) :
    ((firstSome probe (front ++ back)).run (recording fs)).run [] =
      ((firstSome probe front).run (recording fs)).run [] := by
  rw [run_recording, run_recording, firstSome_append, run_bind, asked_bind]
  match hrun : (firstSome probe front).run fs with
  | .ok none => exact absurd hrun h
  | .ok (some hit) =>
      rw [List.nil_append, List.nil_append]
      exact Prod.ext rfl (List.append_nil _)
  | .error e =>
      rw [List.nil_append, List.nil_append]
      exact Prod.ext rfl (List.append_nil _)

end Lookup

/-! ### The entries that stay -/

theorem declaredEntries_insert (base : Text) {table : PathTable} {pattern : Text}
    (hnew : pattern ∉ table.patterns) (targets : List Text) :
    declaredEntries base (table.insert pattern targets) =
      declaredEntries base table ++ [{ pattern, targets := targets.map (resolve base) }] := by
  have hrows : (table.insert pattern targets).rows = table.rows ++ [(pattern, targets)] := by
    rw [PathTable.patterns] at hnew
    rw [PathTable.insert, dif_neg hnew]
  rw [declaredEntries, hrows, List.map_append]
  rfl

theorem mem_declared_of_pattern {base : Text} {table : PathTable} {matchAll : Bool} {entry : Entry}
    (hmem : entry ∈ compile base table matchAll) (hpattern : entry.pattern ∈ table.patterns) :
    entry ∈ bySpecificity (declaredEntries base table) := by
  rw [(bySpecificity_perm _).mem_iff]
  rcases mem_compile_iff.mp hmem with hdeclared | hsynthesized
  · exact hdeclared
  · obtain ⟨rfl, hnone⟩ := eq_catchAll_of_mem_synthesized hsynthesized
    exact absurd hpattern hnone

/-- A new pattern leaves everything as it is up to an entry that is at least as specific. -/
theorem exists_front (base : Text) {table : PathTable} (matchAll : Bool) {entry : Entry}
    (hmem : entry ∈ bySpecificity (declaredEntries base table)) {pattern : Text}
    (hnew : pattern ∉ table.patterns) (hrank : prefixLength pattern ≤ entry.rank)
    (targets : List Text) :
    ∃ front before after : List Entry, entry ∈ front ∧ compile base table matchAll = front ++ before ∧
      compile base (table.insert pattern targets) matchAll = front ++ after := by
  obtain ⟨earlier, later, hsplit⟩ := List.append_of_mem hmem
  have hsorted : Descending (earlier ++ entry :: later) :=
    hsplit ▸ bySpecificity_descending (declaredEntries base table)
  have hfront : ∀ other ∈ earlier ++ [entry], prefixLength pattern ≤ other.rank := by
    intro other hother
    rcases List.mem_append.mp hother with hearlier | hself
    · have hle := (List.pairwise_append.mp hsorted).2.2 other hearlier entry List.mem_cons_self
      exact Nat.le_trans hrank hle
    · rw [List.mem_singleton.mp hself]
      exact hrank
  have hdeclared : bySpecificity (declaredEntries base table) = (earlier ++ [entry]) ++ later := by
    rw [hsplit, List.append_assoc, List.singleton_append]
  refine ⟨earlier ++ [entry], later ++ synthesized base table matchAll,
    place { pattern, targets := targets.map (resolve base) } later ++
      synthesized base (table.insert pattern targets) matchAll, by simp, ?_, ?_⟩
  · rw [compile_eq_append, hdeclared, List.append_assoc]
  · rw [compile_eq_append, declaredEntries_insert base hnew, bySpecificity_concat, hdeclared,
      place_append hfront, List.append_assoc]

/-! ### The candidates of the entries that stay -/

theorem candidates_append (extensions : List Text) (front back : List Entry) (request : Text) :
    candidates extensions (front ++ back) request =
      candidates extensions front request ++ candidates extensions back request := by
  unfold candidates
  split_ifs
  · rfl
  · exact List.flatMap_append

/-- The candidate at a position is one of the entry that has the rank of the position. -/
theorem mem_candidates_of_position {extensions : List Text} {entries front : List Entry}
    {request : Text} {position : Position} {candidate : Candidate} {entry : Entry}
    (hcandidate : position.candidate? extensions entries request = some candidate)
    (hentry : entries[position.rank]? = some entry) (hfront : entry ∈ front) :
    candidate ∈ candidates extensions front request := by
  obtain ⟨rank, hrank⟩ := List.mem_iff_getElem?.mp hfront
  have hsame : Position.candidate? extensions front request { position with rank } =
      some candidate := by
    rw [← hcandidate]
    simp only [Position.candidate?, Position.mapped?, hrank, hentry]
  rw [← map_snd_placed]
  exact List.mem_map_of_mem ((mem_placed_iff ..).mpr hsame)

namespace Matcher

/-- If a candidate of the first entries does not miss, the other entries do not matter. -/
theorem recorded_of_front (matcher : Matcher) {fs : FileSystem Id} {extensions : List Text}
    {request : Text} {front back : List Entry} (hentries : matcher.entries = front ++ back)
    {candidate : Candidate} (hmem : candidate ∈ candidates extensions front request)
    (hdecides : ¬ candidate.Misses fs matcher.mainFields) :
    matcher.recorded fs extensions request =
      recorded { matcher with entries := front } fs extensions request := by
  have hends : (Lookup.firstSome (Candidate.probe matcher.mainFields)
      (candidates extensions front request)).run fs ≠ Except.ok none := by
    rw [Ne, Lookup.run_firstSome_none_iff]
    intro hnone
    exact hdecides ((candidate.misses_iff fs matcher.mainFields).mpr (hnone candidate hmem))
  unfold recorded search
  rw [hentries, candidates_append]
  exact Lookup.recorded_firstSome_append hends _

end Matcher

/-- **Less specific patterns change nothing.** If a candidate of a declared entry does not miss, as
where a search ends with a hit or an error, then a new pattern that is declared last and is no more
specific than that entry leaves the outcome and the questions what they were, whatever its targets.
The new pattern may be the bare wildcard, which takes the place of the synthesized entry. -/
theorem less_specific_pattern (base : Text) (table : PathTable) (matchAll : Bool)
    (extensions mainFields : List Text) (request : Text) (fs : FileSystem Id)
    {position : Position} {candidate : Candidate} {entry : Entry}
    (hcandidate : position.candidate? extensions (compile base table matchAll) request =
      some candidate)
    (hdecides : ¬ candidate.Misses fs mainFields)
    (hentry : (compile base table matchAll)[position.rank]? = some entry)
    (hdeclared : entry.pattern ∈ table.patterns)
    {pattern : Text} (hnew : pattern ∉ table.patterns)
    (hrank : prefixLength pattern ≤ prefixLength entry.pattern) (targets : List Text) :
    (Matcher.ofTable base (table.insert pattern targets) mainFields matchAll).recorded fs extensions
        request =
      (Matcher.ofTable base table mainFields matchAll).recorded fs extensions request := by
  have hmem := mem_declared_of_pattern (List.mem_of_getElem? hentry) hdeclared
  obtain ⟨front, before, after, hfront, hold, hadded⟩ :=
    exists_front base matchAll hmem hnew hrank targets
  have hkept : candidate ∈ candidates extensions front request :=
    mem_candidates_of_position hcandidate hentry hfront
  let matcher := Matcher.ofTable base table mainFields matchAll
  let adding := Matcher.ofTable base (table.insert pattern targets) mainFields matchAll
  calc adding.recorded fs extensions request
      = Matcher.recorded { adding with entries := front } fs extensions request :=
        adding.recorded_of_front hadded hkept hdecides
    _ = matcher.recorded fs extensions request :=
        (matcher.recorded_of_front hold hkept hdecides).symm

/-- The bare wildcard takes the place of the synthesized entry, and the request that a file behind
another pattern answers is answered as before. -/
theorem less_specific_pattern_wildcard :
    let table := PathTable.ofList [("lib/*", ["packages/*"])]
    let replacing := table.insert "*" ["vendor/*"]
    let fs := holding "/app/packages/x.ts"
    let found : Candidate := { kind := .extension, path := "/app/packages/x.ts" }
    [wildcard] ∉ table.patterns ∧ ¬ found.Misses fs [] ∧
    catchAll "/app" ∈ compile "/app" table true ∧
    catchAll "/app" ∉ compile "/app" replacing true ∧
    (Matcher.ofTable "/app" replacing [] true).recorded fs [".ts"] "lib/x" =
      (Matcher.ofTable "/app" table [] true).recorded fs [".ts"] "lib/x" ∧
    (Matcher.ofTable "/app" replacing [] true).recorded fs [".ts"] "lib/x" =
      (.ok (some "/app/packages/x"), [.file "/app/packages/x", .file "/app/packages/x.ts"]) := by
  intro table replacing fs found
  have hhits : found.Hits fs [] found.answer :=
    .file nofun (congrArg Except.ok (beq_self_eq_true found.path))
  have hfound : ¬ found.Misses fs [] := by
    intro hmisses
    cases hhits.run.symm.trans hmisses.run
  have hcandidate : Position.candidate? [".ts"] (compile "/app" table true) "lib/x"
      { rank := 0, target := 0, slot := .extension 0 } = some found := by decide +kernel
  have hentry : (compile "/app" table true)[0]? =
      some { pattern := "lib/*", targets := ["/app/packages/*"] } := by decide +kernel
  have hnew : [wildcard] ∉ table.patterns := by decide
  have hsame := less_specific_pattern "/app" table true [".ts"] [] "lib/x" fs hcandidate hfound
    hentry (by decide) hnew (by decide) ["vendor/*"]
  exact ⟨hnew, hfound, by decide +kernel, by decide +kernel, hsame, hsame.trans (by decide +kernel)⟩

end PathAlias
