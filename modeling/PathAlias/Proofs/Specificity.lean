import Mathlib.Data.List.Induction
import Mathlib.Data.List.Nodup
import Mathlib.Data.List.TakeWhile
import PathAlias.Candidate
import PathAlias.Proofs.Cut
import PathAlias.Proofs.Mapping

/-!
The order of compiled entries. Compiling is a stable sort of the declared entries by the length of
the text before the wildcard, and the entry that maps everything stays behind them. All entries that
map one request have beginnings of that request before their wildcards, so the length tells these
texts apart, and a pattern that is the request goes before all others.
-/

namespace PathAlias

/-! ### Texts by their length in bytes -/

@[simp]
theorem utf8Length_append (t u : Text) : utf8Length (t ++ u) = utf8Length t + utf8Length u := by
  induction t with
  | nil => simp [utf8Length]
  | cons c rest ih => rw [List.cons_append, utf8Length, ih, utf8Length, Nat.add_assoc]

theorem utf8Length_pos {t : Text} (h : t ≠ []) : 0 < utf8Length t := by
  cases t with
  | nil => exact absurd rfl h
  | cons c rest => exact Nat.add_pos_left c.utf8Size_pos _

/-- Of two beginnings of one text the length in bytes tells which they are. -/
theorem eq_of_prefix_of_utf8Length {t u whole : Text} (ht : t <+: whole) (hu : u <+: whole)
    (h : utf8Length t = utf8Length u) : t = u := by
  have hextends : ∀ {short long : Text}, short <+: long → utf8Length short = utf8Length long →
      short = long := by
    rintro short _ ⟨more, rfl⟩ hlength
    rw [utf8Length_append, Nat.left_eq_add] at hlength
    by_cases hmore : more = []
    · rw [hmore, List.append_nil]
    · exact absurd hlength (Nat.ne_of_gt (utf8Length_pos hmore))
  rcases List.prefix_or_prefix_of_prefix ht hu with hprefix | hprefix
  · exact hextends hprefix h
  · exact (hextends hprefix h.symm).symm

/-! ### What entries map -/

/-- What a wildcard stands for is a part of the candidate, behind the text before the wildcard. -/
theorem capture?_eq_some {pattern candidate captured : Text}
    (h : capture? pattern candidate = some captured) :
    captured ≠ [] ∧ ∃ after,
      candidate = pattern.takeWhile (fun c => c != wildcard) ++ (captured ++ after) := by
  obtain ⟨hnonempty, before, after, hbefore, -, rfl, hcandidate⟩ := capture?_eq_some_iff.mp h
  refine ⟨hnonempty, after, ?_⟩
  rw [takeWhile_of_cut hbefore]
  exact hcandidate

namespace Entry

/-- The text before the wildcard, all of the pattern if there is none. -/
def literal (entry : Entry) : Text := entry.pattern.takeWhile fun c => c != wildcard

/-- Whether the pattern is the request or its wildcard stands for a part of it. -/
def maps (entry : Entry) (request : Text) : Bool := (entry.captures? request).isSome

variable {entry : Entry} {request : Text}

theorem rank_eq (entry : Entry) : entry.rank = utf8Length entry.literal := rfl

theorem maps_self (h : entry.pattern = request) : entry.maps request = true := by
  rw [maps, captures?, if_pos h]
  rfl

theorem capture?_of_maps (h : entry.maps request = true) (hne : entry.pattern ≠ request) :
    ∃ captured, capture? entry.pattern request = some captured := by
  rw [maps, captures?, if_neg hne] at h
  exact Option.isSome_iff_exists.mp h

/-- An entry maps only requests that begin with the text before its wildcard. -/
theorem literal_prefix (h : entry.maps request = true) : entry.literal <+: request := by
  by_cases hself : entry.pattern = request
  · rw [← hself]
    exact List.takeWhile_prefix _
  · obtain ⟨captured, hcaptured⟩ := capture?_of_maps h hself
    obtain ⟨-, after, rfl⟩ := capture?_eq_some hcaptured
    exact List.prefix_append _ _

/-- An entry that maps a request other than its pattern is less specific than the request. -/
theorem rank_lt (h : entry.maps request = true) (hne : entry.pattern ≠ request) :
    entry.rank < utf8Length request := by
  obtain ⟨captured, hcaptured⟩ := capture?_of_maps h hne
  obtain ⟨hnonempty, after, rfl⟩ := capture?_eq_some hcaptured
  rw [utf8Length_append, utf8Length_append, rank_eq, literal]
  exact Nat.lt_add_of_pos_right (Nat.add_pos_left (utf8Length_pos hnonempty) _)

theorem rank_of_literal_pattern (h : wildcard ∉ entry.pattern) :
    entry.rank = utf8Length entry.pattern := by
  rw [rank_eq, literal, List.takeWhile_eq_self_iff.mpr]
  intro c hc
  exact bne_iff_ne.mpr (ne_of_mem_of_not_mem hc h)

end Entry

/-! ### Stable sorting -/

/-- From the most specific entry to the least. -/
def Descending (entries : List Entry) : Prop :=
  entries.Pairwise fun earlier later => later.rank ≤ earlier.rank

theorem place_descending {entry : Entry} {entries : List Entry} (h : Descending entries) :
    Descending (place entry entries) := by
  induction entries with
  | nil => exact List.pairwise_singleton _ _
  | cons first rest ih =>
      obtain ⟨hfirst, hrest⟩ := List.pairwise_cons.mp h
      rw [place]
      split_ifs with hrank
      · refine List.pairwise_cons.mpr ⟨fun later hlater => ?_, ih hrest⟩
        rcases List.mem_cons.mp ((place_perm entry rest).mem_iff.mp hlater) with rfl | hmem
        · exact hrank
        · exact hfirst later hmem
      · have hlt := Nat.lt_of_not_le hrank
        refine List.pairwise_cons.mpr ⟨fun later hlater => ?_, h⟩
        rcases List.mem_cons.mp hlater with rfl | hmem
        · exact Nat.le_of_lt hlt
        · exact Nat.le_trans (hfirst later hmem) (Nat.le_of_lt hlt)

theorem place_append {entry : Entry} {front : List Entry}
    (h : ∀ earlier ∈ front, entry.rank ≤ earlier.rank) (back : List Entry) :
    place entry (front ++ back) = front ++ place entry back := by
  induction front with
  | nil => rfl
  | cons first front ih =>
      rw [List.forall_mem_cons] at h
      rw [List.cons_append, place, if_pos h.1, ih h.2]
      rfl

theorem place_of_le {entry : Entry} {entries : List Entry}
    (h : ∀ earlier ∈ entries, entry.rank ≤ earlier.rank) :
    place entry entries = entries ++ [entry] := by
  have hplace := place_append h []
  rwa [List.append_nil] at hplace

theorem place_of_lt {entry : Entry} {entries : List Entry}
    (h : ∀ later ∈ entries, later.rank < entry.rank) : place entry entries = entry :: entries := by
  cases entries with
  | nil => rfl
  | cons first rest => rw [place, if_neg (Nat.not_le.mpr (h first List.mem_cons_self))]

/-- Entries that are left out are left out alike before and after an entry is placed. -/
theorem filter_place (keep : Entry → Bool) {entry : Entry} {entries : List Entry}
    (h : Descending entries) :
    (place entry entries).filter keep =
      if keep entry then place entry (entries.filter keep) else entries.filter keep := by
  induction entries with
  | nil => cases hentry : keep entry <;> simp [place, hentry]
  | cons first rest ih =>
      obtain ⟨hfirst, hrest⟩ := List.pairwise_cons.mp h
      rw [place]
      split_ifs with hrank hentry hentry
      · cases hkeep : keep first <;> simp [hkeep, ih hrest, hentry, place, hrank]
      · cases hkeep : keep first <;> simp [hkeep, ih hrest, hentry]
      · -- what stands behind the new entry has a lower rank
        rw [place_of_lt, List.filter_cons, if_pos hentry]
        intro later hlater
        have hlt := Nat.lt_of_not_le hrank
        rcases List.mem_cons.mp (List.mem_filter.mp hlater).1 with rfl | hmem
        · exact hlt
        · exact Nat.lt_of_le_of_lt (hfirst later hmem) hlt
      · rw [List.filter_cons, if_neg hentry]

theorem bySpecificity_concat (entries : List Entry) (entry : Entry) :
    bySpecificity (entries ++ [entry]) = place entry (bySpecificity entries) := by
  rw [bySpecificity, List.foldl_append]
  rfl

theorem bySpecificity_descending (entries : List Entry) : Descending (bySpecificity entries) := by
  induction entries using List.reverseRecOn with
  | nil => exact List.Pairwise.nil
  | append_singleton entries entry ih =>
      rw [bySpecificity_concat]
      exact place_descending ih

/-- Entries that are left out are left out alike before and after sorting. -/
theorem filter_bySpecificity (entries : List Entry) (keep : Entry → Bool) :
    (bySpecificity entries).filter keep = bySpecificity (entries.filter keep) := by
  induction entries using List.reverseRecOn with
  | nil => rfl
  | append_singleton entries entry ih =>
      rw [bySpecificity_concat, filter_place keep (bySpecificity_descending entries), ih,
        List.filter_append]
      split_ifs with hkeep
      · rw [List.filter_cons, if_pos hkeep, List.filter_nil, bySpecificity_concat]
      · rw [List.filter_cons, if_neg hkeep, List.filter_nil, List.append_nil]

/-- Entries of one rank keep their order. -/
theorem bySpecificity_of_rank {entries : List Entry} {rank : Nat}
    (h : ∀ entry ∈ entries, entry.rank = rank) : bySpecificity entries = entries := by
  induction entries using List.reverseRecOn with
  | nil => rfl
  | append_singleton entries entry ih =>
      have hentry := h entry (List.mem_append_right _ (List.mem_singleton_self _))
      have hentries : ∀ earlier ∈ entries, earlier.rank = rank := fun earlier hearlier =>
        h earlier (List.mem_append_left _ hearlier)
      rw [bySpecificity_concat, ih hentries, place_of_le]
      intro earlier hearlier
      rw [hentry, hentries earlier hearlier]

theorem sublist_of_bySpecificity {entries : List Entry} {earlier later : Entry}
    (h : [earlier, later].Sublist (bySpecificity entries)) (hrank : later.rank = earlier.rank) :
    [earlier, later].Sublist entries := by
  have hsame : bySpecificity (entries.filter (·.rank == earlier.rank)) =
      entries.filter (·.rank == earlier.rank) :=
    bySpecificity_of_rank fun entry hentry => beq_iff_eq.mp (List.mem_filter.mp hentry).2
  have hfilter := h.filter (·.rank == earlier.rank)
  rw [filter_bySpecificity, hsame, List.filter_cons, if_pos (beq_self_eq_true _), List.filter_cons,
    if_pos (beq_iff_eq.mpr hrank)] at hfilter
  exact hfilter.trans List.filter_sublist

/-- Entries of distinct ranks are sorted in one way only. -/
theorem bySpecificity_eq_of_perm {entries others : List Entry} (h : others.Perm entries)
    (hranks : (entries.map Entry.rank).Nodup) : bySpecificity others = bySpecificity entries := by
  have hperm : (bySpecificity others).Perm (bySpecificity entries) :=
    ((bySpecificity_perm others).trans h).trans (bySpecificity_perm entries).symm
  refine hperm.eq_of_pairwise (fun x y hx hy hxy hyx => ?_) (bySpecificity_descending others)
    (bySpecificity_descending entries)
  have hmem : ∀ entry ∈ bySpecificity entries, entry ∈ entries := fun entry =>
    (bySpecificity_perm entries).mem_iff.mp
  exact List.inj_on_of_nodup_map hranks (hmem x (hperm.mem_iff.mp hx)) (hmem y hy)
    (Nat.le_antisymm hyx hxy)

/-! ### Compiled tables -/

section Compiled

variable (base : Text) (table : PathTable) (matchAll : Bool)

/-- The entry that maps everything, where it is wanted and the table does not declare it. -/
def synthesized : List Entry :=
  if matchAll && !table.patterns.contains [wildcard] then [catchAll base] else []

/-- The entries of a table in the order of declaration, with the synthesized one behind them. -/
def listedEntries : List Entry := declaredEntries base table ++ synthesized base table matchAll

theorem compile_eq_append :
    compile base table matchAll =
      bySpecificity (declaredEntries base table) ++ synthesized base table matchAll := by
  rw [compile, synthesized, List.contains_eq_mem]
  split_ifs
  · rfl
  · exact (List.append_nil _).symm

variable {base table matchAll} in
theorem mem_compile_iff {entry : Entry} :
    entry ∈ compile base table matchAll ↔
      entry ∈ declaredEntries base table ∨ entry ∈ synthesized base table matchAll := by
  rw [compile_eq_append, List.mem_append, (bySpecificity_perm _).mem_iff]

variable {base table matchAll} in
theorem eq_catchAll_of_mem_synthesized {entry : Entry}
    (h : entry ∈ synthesized base table matchAll) :
    entry = catchAll base ∧ [wildcard] ∉ table.patterns := by
  rw [synthesized] at h
  split_ifs at h with hif
  · refine ⟨List.mem_singleton.mp h, fun hdeclared => ?_⟩
    rw [List.contains_iff_mem.mpr hdeclared, Bool.not_true, Bool.and_false] at hif
    exact Bool.false_ne_true hif
  · exact absurd h List.not_mem_nil

/-- The entry that maps everything has the lowest rank and goes behind all others. -/
theorem place_catchAll (entries : List Entry) :
    place (catchAll base) entries = entries ++ [catchAll base] :=
  place_of_le fun earlier _ => Nat.zero_le earlier.rank

theorem compile_eq_bySpecificity :
    compile base table matchAll = bySpecificity (listedEntries base table matchAll) := by
  rw [compile_eq_append, listedEntries, synthesized]
  split_ifs
  · rw [bySpecificity_concat, place_catchAll]
  · rw [List.append_nil, List.append_nil]

theorem patterns_listedEntries :
    (listedEntries base table matchAll).map Entry.pattern =
      table.patterns ++ (synthesized base table matchAll).map Entry.pattern := by
  rw [listedEntries, List.map_append, declaredEntries, List.map_map]
  rfl

theorem nodup_listedEntries : ((listedEntries base table matchAll).map Entry.pattern).Nodup := by
  have hone : ((synthesized base table matchAll).map Entry.pattern).Nodup := by
    rw [synthesized]
    split_ifs
    · exact List.nodup_singleton _
    · exact List.nodup_nil
  rw [patterns_listedEntries]
  refine List.nodup_append.mpr ⟨table.nodup, hone, ?_⟩
  rintro pattern hpattern _ hsynthesized rfl
  obtain ⟨entry, hentry, rfl⟩ := List.mem_map.mp hsynthesized
  obtain ⟨rfl, hnew⟩ := eq_catchAll_of_mem_synthesized hentry
  exact hnew hpattern

end Compiled

/-! ### The entries that map a request -/

section Mapping

variable {entries : List Entry} {request : Text}

/-- A pattern that is the request goes before all other entries that map it. -/
theorem head?_filter_maps (hsorted : Descending entries) (hnodup : (entries.map Entry.pattern).Nodup)
    {entry : Entry} (hmem : entry ∈ entries) (hself : entry.pattern = request)
    (hliteral : wildcard ∉ request) :
    (entries.filter (·.maps request)).head? = some entry := by
  have hmapping : entry ∈ entries.filter (·.maps request) :=
    List.mem_filter.mpr ⟨hmem, Entry.maps_self hself⟩
  have hrank : entry.rank = utf8Length request := by
    rw [Entry.rank_of_literal_pattern (hself ▸ hliteral), hself]
  cases hfilter : entries.filter (·.maps request) with
  | nil =>
      rw [hfilter] at hmapping
      exact absurd hmapping List.not_mem_nil
  | cons first rest =>
      rw [hfilter] at hmapping
      have hsub : (first :: rest).Sublist entries := hfilter ▸ List.filter_sublist
      obtain ⟨hfirst, hmaps⟩ := List.mem_filter.mp (hfilter ▸ List.mem_cons_self)
      rcases List.mem_cons.mp hmapping with rfl | hrest
      · rfl
      · by_cases hpattern : first.pattern = request
        · rw [List.inj_on_of_nodup_map hnodup hfirst hmem (hpattern.trans hself.symm)]
          rfl
        · have hle : entry.rank ≤ first.rank :=
            (List.pairwise_cons.mp (hsorted.sublist hsub)).1 entry hrest
          exact absurd (Entry.rank_lt hmaps hpattern) (Nat.not_lt.mpr (hrank ▸ hle))

/-- Of two entries that map a request the first is at least as specific, and if they are equally
specific they share the text before the wildcard and stand as they stood before sorting. -/
theorem pairwise_filter_maps (entries : List Entry) (request : Text) :
    ((bySpecificity entries).filter (·.maps request)).Pairwise fun earlier later =>
      later.rank ≤ earlier.rank ∧
        (later.rank = earlier.rank →
          later.literal = earlier.literal ∧ [earlier, later].Sublist entries) := by
  rw [List.pairwise_iff_forall_sublist]
  intro earlier later hsub
  have hsorted : [earlier, later].Sublist (bySpecificity entries) :=
    hsub.trans List.filter_sublist
  have hmaps : ∀ entry ∈ [earlier, later], entry.maps request = true := fun entry hentry =>
    (List.mem_filter.mp (hsub.subset hentry)).2
  refine ⟨List.pairwise_iff_forall_sublist.mp (bySpecificity_descending entries) hsorted,
    fun hrank => ⟨?_, sublist_of_bySpecificity hsorted hrank⟩⟩
  have hlater := Entry.literal_prefix (hmaps later (List.mem_cons_of_mem _ List.mem_cons_self))
  have hearlier := Entry.literal_prefix (hmaps earlier List.mem_cons_self)
  exact eq_of_prefix_of_utf8Length hlater hearlier hrank

end Mapping

section Compiled

variable {base : Text} {table : PathTable} {matchAll : Bool}

theorem getLast?_filter_maps {request : Text} {entry : Entry}
    (hentry : entry ∈ synthesized base table matchAll) (hmaps : entry.maps request = true) :
    ((compile base table matchAll).filter (·.maps request)).getLast? = some entry := by
  have honly : synthesized base table matchAll = [entry] := by
    rw [synthesized] at hentry ⊢
    split_ifs at hentry ⊢
    · rw [List.mem_singleton.mp hentry]
    · exact absurd hentry List.not_mem_nil
  rw [compile_eq_append, honly, List.filter_append, List.filter_cons, if_pos hmaps,
    List.filter_nil]
  exact List.getLast?_concat

/-- If no two patterns are equally specific, the order of declaration does not matter. -/
theorem compile_eq_of_perm {other : PathTable} (hrows : other.rows.Perm table.rows)
    (hranks : (table.patterns.map prefixLength).Nodup) :
    compile base other matchAll = compile base table matchAll := by
  have hdeclared : bySpecificity (declaredEntries base other) =
      bySpecificity (declaredEntries base table) := by
    refine bySpecificity_eq_of_perm (hrows.map _) ?_
    rw [PathTable.patterns, List.map_map] at hranks
    rw [declaredEntries, List.map_map]
    exact hranks
  have hmem : [wildcard] ∈ other.patterns ↔ [wildcard] ∈ table.patterns :=
    (hrows.map Prod.fst).mem_iff
  rw [compile, compile, hdeclared, decide_eq_decide.mpr hmem]

end Compiled

/-- The entries of a table in the order of declaration, each with the targets of its row. -/
theorem listedEntries_eq (base : Text) (table : PathTable) (matchAll : Bool) :
    listedEntries base table matchAll =
      (table.rows.map fun row => { pattern := row.1, targets := row.2.map (resolve base) }) ++
        if matchAll = true ∧ [wildcard] ∉ table.patterns then
          [{ pattern := [wildcard], targets := [join base [wildcard]] }]
        else [] := by
  have hiff : (matchAll && !table.patterns.contains [wildcard]) = true ↔
      matchAll = true ∧ [wildcard] ∉ table.patterns := by simp
  rw [listedEntries, declaredEntries, synthesized, catchAll]
  exact congrArg _ (if_congr hiff rfl rfl)

/-- **Most specific first.** A compiled table has one entry for each row, with all targets of the row
in order, and one for the bare wildcard if everything is to match and no row declares it; no pattern
is lost and none stands twice. Among the entries that map a request, the one whose pattern is the
request goes first, the text before the wildcard gets no longer, entries for which it is equally long
share it and stand as they are declared, and the entry that is added for the bare wildcard goes last.
If no two patterns are equally specific, the order of declaration does not matter. -/
theorem compiled_by_specificity (base : Text) (table : PathTable) (matchAll : Bool) :
    let compiled := compile base table matchAll
    let everything : Entry := { pattern := [wildcard], targets := [join base [wildcard]] }
    let added : List Entry :=
      if matchAll = true ∧ [wildcard] ∉ table.patterns then [everything] else []
    let listed : List Entry :=
      (table.rows.map fun row => { pattern := row.1, targets := row.2.map (resolve base) }) ++ added
    compiled.Perm listed ∧
    (∀ pattern targets, (pattern, targets) ∈ table.rows →
      { pattern, targets := targets.map (resolve base) } ∈ compiled) ∧
    (compiled.map Entry.pattern).Perm (table.patterns ++ added.map Entry.pattern) ∧
    (compiled.map Entry.pattern).Nodup ∧
    (∀ request,
      let mapping := compiled.filter (·.maps request)
      (∀ entry ∈ compiled, entry.pattern = request → wildcard ∉ request →
        mapping.head? = some entry) ∧
      (mapping.Pairwise fun earlier later =>
        later.rank ≤ earlier.rank ∧
          (later.rank = earlier.rank →
            later.literal = earlier.literal ∧ [earlier, later].Sublist listed)) ∧
      ∀ entry ∈ added, entry.maps request = true → mapping.getLast? = some entry) ∧
    ∀ other : PathTable, other.rows.Perm table.rows → (table.patterns.map prefixLength).Nodup →
      compile base other matchAll = compiled := by
  intro compiled everything added listed
  have hlisted : listedEntries base table matchAll = listed := listedEntries_eq base table matchAll
  have hadded : synthesized base table matchAll = added :=
    List.append_cancel_left hlisted
  have hcompiled : compiled = bySpecificity listed :=
    hlisted ▸ compile_eq_bySpecificity base table matchAll
  have hperm : compiled.Perm listed := hcompiled ▸ bySpecificity_perm listed
  have hpatterns : listed.map Entry.pattern = table.patterns ++ added.map Entry.pattern := by
    rw [← hlisted, patterns_listedEntries, hadded]
  have hnodup : (compiled.map Entry.pattern).Nodup :=
    (hperm.map Entry.pattern).nodup_iff.mpr (hlisted ▸ nodup_listedEntries base table matchAll)
  have hsorted : Descending compiled := hcompiled ▸ bySpecificity_descending listed
  refine ⟨hperm, fun pattern targets hrow => ?_, hpatterns ▸ hperm.map Entry.pattern, hnodup,
    fun request => ⟨fun entry hmem hself hliteral => ?_, ?_, fun entry hentry => ?_⟩,
    fun other => compile_eq_of_perm⟩
  · exact hperm.mem_iff.mpr
      (List.mem_append_left _ (List.mem_map.mpr ⟨(pattern, targets), hrow, rfl⟩))
  · exact head?_filter_maps hsorted hnodup hmem hself hliteral
  · rw [hcompiled]
    exact pairwise_filter_maps listed request
  · exact getLast?_filter_maps (hadded ▸ hentry)

/-- Patterns with and without a wildcard, of which two map one request. -/
def library : PathTable :=
  .ofList
    [("*.css", ["styles/*"]), ("lib/*", ["packages/*", "vendor/*"]), ("lib/foo", ["vendor/foo"])]

/-- The row that is declared with two targets keeps both in order, and none of the four patterns is
lost or stands twice. -/
theorem compiled_by_specificity_library :
    let compiled := compile "/app" library true
    let mapping := compiled.filter (·.maps "lib/foo")
    let patterns : List Text := ["*.css", "lib/*", "lib/foo", "*"]
    { pattern := "lib/*", targets := ["/app/packages/*", "/app/vendor/*"] } ∈ compiled ∧
    (compiled.map Entry.pattern).Perm patterns ∧ (compiled.map Entry.pattern).Nodup ∧
    mapping.head? = some { pattern := "lib/foo", targets := ["/app/vendor/foo"] } ∧
    mapping.getLast? = some { pattern := "*", targets := ["/app/*"] } ∧
    compile "/app"
      (.ofList
        [("lib/foo", ["vendor/foo"]), ("lib/*", ["packages/*", "vendor/*"]),
          ("*.css", ["styles/*"])])
      true = compiled := by
  obtain ⟨-, hrows, hpatterns, hnodup, hmapping, hreordered⟩ :=
    compiled_by_specificity "/app" library true
  obtain ⟨hfirst, -, hlast⟩ := hmapping "lib/foo"
  exact ⟨hrows "lib/*" ["packages/*", "vendor/*"] (by decide +kernel), hpatterns, hnodup,
    hfirst _ (hrows "lib/foo" ["vendor/foo"] (by decide +kernel)) rfl (by decide),
    hlast _ (by decide +kernel) rfl, hreordered _ (by decide +kernel) (by decide +kernel)⟩

end PathAlias
