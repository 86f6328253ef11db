import PathAlias.Proofs.Extension
import PathAlias.Proofs.Path.Canonical
import PathAlias.Proofs.Substitution

/-!
Candidates stay in the directory of their target. A target that is absolute is canonical, so what it
has behind its last slash before the wildcard is a row of names. Putting a row of names in for the
wildcard leaves a row of names, whatever the ends of the names are glued to, and so does an extension, a
manifest or an index file at its end. So nothing in a candidate leads up again.
-/

namespace PathAlias

/-- The directory that the text of a target before its wildcard names: all of that text up to its last
slash. In a target without a wildcard it is all of the target up to its last slash. -/
def literalDirectory (target : Text) : Text :=
  match splitLast? '/' (target.takeWhile fun c => c != wildcard) with
  | some (dir, _) => dir ++ ['/']
  | none => []

/-- An absolute target is its directory and what follows, and the directory has no wildcard. -/
theorem exists_literalDirectory {target : Text} (h : isAbsolute target = true) :
    ∃ dir rest, literalDirectory target = dir ++ ['/'] ∧ target = dir ++ '/' :: rest ∧
      wildcard ∉ dir := by
  obtain ⟨t, rfl⟩ : ∃ t, target = '/' :: t := by
    cases target with
    | nil => cases h
    | cons c t =>
        rw [isAbsolute, List.head?_cons, beq_iff_eq, Option.some.injEq] at h
        exact ⟨t, by rw [h]⟩
  have hslash : '/' ∈ List.takeWhile (fun c => c != wildcard) ('/' :: t) := by
    rw [List.takeWhile_cons_of_pos (by decide)]
    exact List.mem_cons_self
  rw [literalDirectory]
  cases hsplit : splitLast? '/' (List.takeWhile (fun c => c != wildcard) ('/' :: t)) with
  | none =>
      rw [splitLast?, Option.map_eq_none_iff, splitFirst?_eq_none_iff, List.mem_reverse] at hsplit
      exact absurd hslash hsplit
  | some parts =>
      obtain ⟨dir, stem⟩ := parts
      obtain ⟨-, hliteral⟩ := splitLast?_eq_some_iff.mp hsplit
      refine ⟨dir, stem ++ List.dropWhile (fun c => c != wildcard) ('/' :: t), rfl, ?_, ?_⟩
      · rw [← List.cons_append, ← List.append_assoc, ← hliteral, List.takeWhile_append_dropWhile]
      · intro hmem
        have hwild : wildcard ∈ List.takeWhile (fun c => c != wildcard) ('/' :: t) := by
          rw [hliteral]
          exact List.mem_append_left _ hmem
        exact absurd (List.mem_takeWhile_imp hwild) (by simp)

/-! ### Rows of names -/

/-- A row of names with some text glued to both of its ends. -/
theorem isName_of_mem_glued {names : List Text} (hne : names ≠ []) (hnames : ∀ n ∈ names, IsName n)
    {before after : Text} (hbefore : '/' ∉ before) (hafter : '/' ∉ after) :
    ∀ segment ∈ segments (before ++ (joinWith "/" names ++ after)), IsName segment := by
  induction names generalizing before with
  | nil => exact absurd rfl hne
  | cons n names ih =>
      obtain ⟨hn, hrest⟩ := List.forall_mem_cons.mp hnames
      cases names with
      | nil =>
          have hslash : '/' ∉ before ++ (n ++ after) := by
            simp only [List.mem_append, not_or]
            exact ⟨hbefore, hn.slash, hafter⟩
          have hsub : n.Sublist (before ++ (n ++ after)) :=
            (List.sublist_append_left n after).trans (List.sublist_append_right before _)
          rw [joinWith, List.intercalate_singleton, segments, splitOn_of_not_mem hslash,
            List.forall_mem_singleton]
          exact hn.of_sublist hsub hslash
      | cons m names =>
          -- the text in front is glued to the first name, and the others are a row of their own
          have hcut : before ++ (joinWith "/" (n :: m :: names) ++ after) =
              (before ++ n) ++ '/' :: ([] ++ (joinWith "/" (m :: names) ++ after)) := by
            rw [joinWith_cons_cons]
            simp
          have hslash : '/' ∉ before ++ n := by
            rw [List.mem_append, not_or]
            exact ⟨hbefore, hn.slash⟩
          rw [hcut, segments, splitOn_append, splitOn_of_not_mem hslash, List.forall_mem_append,
            List.forall_mem_singleton]
          refine ⟨hn.of_sublist (List.sublist_append_right before n) hslash, ?_⟩
          exact ih (List.cons_ne_nil _ _) hrest (by decide)

/-- A name in which the wildcard is replaced by a row of names is a row of names. -/
theorem isName_of_mem_substitute {piece : Text} (hpiece : IsName piece) (hwild : wildcard ∈ piece)
    {names : List Text} (hne : names ≠ []) (hnames : ∀ n ∈ names, IsName n) :
    ∀ segment ∈ segments (substitute piece (joinWith "/" names)), IsName segment := by
  cases hsplit : splitFirst? wildcard piece with
  | none => exact absurd hwild (splitFirst?_eq_none_iff.mp hsplit)
  | some parts =>
      obtain ⟨before, after⟩ := parts
      obtain ⟨hbefore, rfl⟩ := splitFirst?_eq_some_iff.mp hsplit
      have hslash := hpiece.slash
      simp only [List.mem_append, List.mem_cons, not_or] at hslash
      rw [substitute_append_of_not_mem hbefore, substitute, if_pos rfl]
      exact isName_of_mem_glued hne hnames hslash.1 hslash.2.2

/-- So is a row of names in which the first wildcard is replaced by a row of names. -/
theorem isName_of_mem_substitute_row {pieces names : List Text} (hpiecesNe : pieces ≠ [])
    (hpieces : ∀ piece ∈ pieces, IsName piece) (hne : names ≠ []) (hnames : ∀ n ∈ names, IsName n) :
    ∀ segment ∈ segments (substitute (joinWith "/" pieces) (joinWith "/" names)), IsName segment := by
  cases hfind : pieces.find? fun piece => piece.contains wildcard with
  | none =>
      have hfree : wildcard ∉ joinWith ['/'] pieces := by
        rw [not_mem_joinWith_iff (by decide)]
        simpa using List.find?_eq_none.mp hfind
      have hsegments : segments (joinWith ['/'] pieces) = pieces :=
        splitOn_joinWith hpiecesNe fun piece hpiece => (hpieces piece hpiece).slash
      change ∀ segment ∈ segments (substitute (joinWith ['/'] pieces) _), IsName segment
      rw [substitute_of_not_mem hfree, hsegments]
      exact hpieces
  | some piece =>
      obtain ⟨hwild, before, after, rfl, hbefore⟩ := List.find?_eq_some_iff_append.mp hfind
      have hwild : wildcard ∈ piece := by simpa using hwild
      have hbefore : ∀ other ∈ before, wildcard ∉ other := by simpa using hbefore
      simp only [List.forall_mem_append, List.forall_mem_cons] at hpieces
      rw [substitute_joinWith after hbefore hwild, segments_joinWith
        (fun other hother => (hpieces.1 other hother).slash)
        (fun other hother => (hpieces.2.2 other hother).slash), List.forall_mem_append,
        List.forall_mem_append]
      exact ⟨hpieces.1, isName_of_mem_substitute hpieces.2.1 hwild hne hnames, hpieces.2.2⟩

/-! ### Candidates of one mapped path -/

/-- What is looked for at a mapped path is below the directory that the mapped path is in. -/
theorem exists_inner_of_mem_candidatesAt {extensions : List Text}
    (hextensions : ∀ ext ∈ extensions, '/' ∉ ext) {n : Text} {above : Location} (hn : IsName n)
    (habove : ∀ other ∈ above, IsName other) {candidate : Candidate}
    (h : candidate ∈ candidatesAt extensions (Location.text (n :: above))) :
    ∃ inner : Location, (∀ other ∈ inner, IsName other) ∧
      candidate.path = Location.text (inner ++ above) := by
  have hplace : ∀ other ∈ n :: above, IsName other := List.forall_mem_cons.mpr ⟨hn, habove⟩
  have hlonger : ∀ {name : Text}, IsName name → ∀ ext ∈ extensions, IsName (name ++ ext) := by
    intro name hname ext hext
    refine hname.of_sublist (List.sublist_append_left name ext) ?_
    rw [List.mem_append, not_or]
    exact ⟨hname.slash, hextensions ext hext⟩
  have hindex : IsName "index" := by decide
  have hmanifest : IsName "package.json" := by decide
  rw [candidatesAt] at h
  simp only [List.mem_append, List.mem_cons, List.mem_map] at h
  rcases h with (rfl | ⟨ext, hext, rfl⟩) | rfl | ⟨ext, hext, rfl⟩
  · exact ⟨[n], List.forall_mem_singleton.mpr hn, rfl⟩
  · refine ⟨[n ++ ext], List.forall_mem_singleton.mpr (hlonger hn ext hext), ?_⟩
    exact Location.text_append n above ext
  · refine ⟨["package.json", n], ?_, Location.join_text hplace hmanifest rfl⟩
    exact List.forall_mem_cons.mpr ⟨hmanifest, List.forall_mem_singleton.mpr hn⟩
  · refine ⟨["index" ++ ext, n], ?_, ?_⟩
    · exact List.forall_mem_cons.mpr ⟨hlonger hindex ext hext, List.forall_mem_singleton.mpr hn⟩
    · change join (Location.text (n :: above)) "index" ++ ext = _
      rw [Location.join_text hplace hindex rfl]
      exact Location.text_append _ _ ext

theorem isAbsolute_of_mem_candidatesAt {extensions : List Text} {mapped : Text}
    (hmapped : isAbsolute mapped = true) {candidate : Candidate}
    (h : candidate ∈ candidatesAt extensions mapped) : isAbsolute candidate.path = true := by
  have hbehind : ∀ {p : Text}, isAbsolute p = true → ∀ ext : Text, isAbsolute (p ++ ext) = true := by
    intro p hp ext
    cases p with
    | nil => cases hp
    | cons c p => exact hp
  rw [candidatesAt] at h
  simp only [List.mem_append, List.mem_cons, List.mem_map] at h
  rcases h with (rfl | ⟨ext, -, rfl⟩) | rfl | ⟨ext, -, rfl⟩
  · exact hmapped
  · exact hbehind hmapped ext
  · exact isAbsolute_join hmapped _
  · exact hbehind (isAbsolute_join hmapped _) ext

theorem mem_candidatesAt_of_position {extensions : List Text} {entries : List Entry} {request : Text}
    {position : Position} {candidate : Candidate} {entry : Entry} {target captured : Text}
    (h : position.candidate? extensions entries request = some candidate)
    (hentry : entries[position.rank]? = some entry)
    (htarget : entry.targets[position.target]? = some target)
    (hcaptured : entry.captures? request = some captured) :
    candidate ∈ candidatesAt extensions (substitute target captured) := by
  obtain ⟨mapped, hmapped, hslot⟩ := Option.bind_eq_some_iff.mp h
  obtain ⟨-, entry', captured', target', hentry', hcaptured', htarget', rfl⟩ :=
    Position.mapped?_eq_some_iff.mp hmapped
  cases hentry.symm.trans hentry'
  cases hcaptured.symm.trans hcaptured'
  cases htarget.symm.trans htarget'
  rw [← mem_slotted_iff] at hslot
  rw [← map_snd_slotted]
  exact List.mem_map_of_mem hslot

theorem isWithin_of_components {dir p : Text} (more : List Component)
    (h : components p = components dir ++ more) : isWithin dir p = true := by
  rw [isWithin, h, List.isPrefixOf_iff_prefix]
  exact List.prefix_append _ _

/-- The components of a directory that is spelled with a slash at its end. -/
theorem components_concat_slash {dir : Text} {before : List Text} (h : segments dir = [] :: before)
    (hbefore : ∀ n ∈ before, IsName n) :
    components (dir ++ ['/']) = .root :: before.map .name := by
  have hsegments : segments (dir ++ ['/']) = [] :: (before ++ [[]]) := by
    rw [segments, splitOn_append, ← segments, h]
    rfl
  have hblank : [[]].filterMap Component.ofSegment? = [] := rfl
  rw [components_eq_opening (by simp) hsegments, List.filterMap_append,
    Component.filterMap_names hbefore, hblank, List.append_nil]
  rfl

theorem isWithin_root {p : Text} (h : isAbsolute p = true) : isWithin "/" (normalize p) = true := by
  obtain ⟨place, hplace, hnormal⟩ := isCanonical_iff.mp (isCanonical_normalize h)
  refine isWithin_of_components (place.reverse.map .name) ?_
  rw [hnormal, Location.components_text hplace]
  rfl

/-- What replaces the wildcard of a canonical target stands behind the target's directory. -/
theorem exists_place_of_substitute {dir rest : Text} {row names : List Text} (hfree : wildcard ∉ dir)
    (hsegments : segments (dir ++ '/' :: rest) = [] :: row) (hrow : ∀ n ∈ row, IsName n)
    (hne : names ≠ []) (hnames : ∀ n ∈ names, IsName n) :
    ∃ (n : Text) (inner before : List Text), segments dir = [] :: before ∧
      (∀ other ∈ n :: (inner ++ before.reverse), IsName other) ∧
      substitute (dir ++ '/' :: rest) (joinWith "/" names) =
        Location.text (n :: (inner ++ before.reverse)) := by
  obtain ⟨first, before, hdir⟩ := List.exists_cons_of_ne_nil (splitOn_ne_nil '/' dir)
  rw [segments, splitOn_append, hdir, List.cons_append, List.cons.injEq] at hsegments
  obtain ⟨rfl, rfl⟩ := hsegments
  rw [List.forall_mem_append] at hrow
  have hrest : substitute rest (joinWith "/" names) =
      substitute (joinWith "/" (segments rest)) (joinWith "/" names) :=
    congrArg (substitute · _) (joinWith_splitOn '/' rest).symm
  have hnew := isName_of_mem_substitute_row (splitOn_ne_nil '/' rest) hrow.2 hne hnames
  change ∀ segment ∈ segments (substitute (joinWith "/" (segments rest)) _), IsName segment at hnew
  rw [← hrest] at hnew
  have hmapped : substitute (dir ++ '/' :: rest) (joinWith "/" names) =
      dir ++ '/' :: substitute rest (joinWith "/" names) := by
    rw [substitute_append_of_not_mem hfree, substitute, if_neg (by decide)]
  obtain ⟨n, inner, hback⟩ := List.exists_cons_of_ne_nil
    (mt List.reverse_eq_nil_iff.mp (splitOn_ne_nil '/' (substitute rest (joinWith "/" names))))
  refine ⟨n, inner, before, hdir, ?_, ?_⟩
  · rw [← List.cons_append, ← hback, List.forall_mem_append]
    exact ⟨fun other hother => hnew other (List.mem_reverse.mp hother),
      fun other hother => hrow.1 other (List.mem_reverse.mp hother)⟩
  · rw [hmapped, ← List.cons_append, ← hback, ← List.reverse_append]
    refine Location.text_of_segments ?_ (List.append_ne_nil_of_right_ne_nil _ (splitOn_ne_nil _ _))
    rw [segments, splitOn_append, hdir]
    rfl

/-- **A candidate is in the directory of its target.** Where a wildcard stands for a row of names, all
that is looked for at an absolute target lies, in its normal spelling, in the directory that the text of
the target before its wildcard names, if no extension has a slash. This directory is absolute and the
target begins with it. -/
theorem candidate_within_directory (base : Text) (table : PathTable) (matchAll : Bool)
    (extensions : List Text) (request : Text) (hextensions : ∀ ext ∈ extensions, '/' ∉ ext)
    {position : Position} {candidate : Candidate} {entry : Entry} {target : Text} {names : List Text}
    (hcandidate : position.candidate? extensions (compile base table matchAll) request = some candidate)
    (hentry : (compile base table matchAll)[position.rank]? = some entry)
    (htarget : entry.targets[position.target]? = some target) (habsolute : isAbsolute target = true)
    (hcaptured : entry.captures? request = some (joinWith "/" names)) (hne : names ≠ [])
    (hnames : ∀ n ∈ names, IsName n) :
    let dir := literalDirectory target
    isAbsolute dir = true ∧ dir <+: target ∧ isWithin dir (normalize candidate.path) = true := by
  intro literal
  have hmem := mem_candidatesAt_of_position hcandidate hentry htarget hcaptured
  have hcanonical := isCanonical_target (List.mem_of_getElem? hentry) (List.mem_of_getElem? htarget)
    habsolute
  obtain ⟨dir, rest, hliteral, rfl, hfree⟩ := exists_literalDirectory habsolute
  have hliteral : literal = dir ++ ['/'] := hliteral
  refine ⟨?_, ⟨rest, by rw [hliteral, List.append_assoc]; rfl⟩, ?_⟩
  · rw [hliteral]
    cases dir with
    | nil => rfl
    | cons c dir => exact habsolute
  rcases hcanonical.isName with hroot | hrow
  · -- everything is below the root
    obtain ⟨rfl, -⟩ : dir = [] ∧ rest = [] := by
      cases dir with
      | nil => exact ⟨rfl, (List.cons.inj hroot).2⟩
      | cons c dir => exact absurd (List.cons.inj hroot).2 (by simp)
    rw [hliteral]
    exact isWithin_root (isAbsolute_of_mem_candidatesAt (isAbsolute_substitute habsolute _) hmem)
  · obtain ⟨row, hsegments⟩ := segments_of_isAbsolute habsolute
    rw [hsegments, List.tail_cons] at hrow
    obtain ⟨n, inner, before, hdir, hplace, hmapped⟩ :=
      exists_place_of_substitute hfree hsegments hrow hne hnames
    rw [hmapped] at hmem
    obtain ⟨hn, habove⟩ := List.forall_mem_cons.mp hplace
    obtain ⟨deeper, hdeeper, hpath⟩ := exists_inner_of_mem_candidatesAt hextensions hn habove hmem
    have hall : ∀ other ∈ deeper ++ (inner ++ before.reverse), IsName other :=
      List.forall_mem_append.mpr ⟨hdeeper, habove⟩
    have hbefore : ∀ other ∈ before, IsName other := fun other hother =>
      habove other (List.mem_append_right _ (List.mem_reverse.mpr hother))
    refine isWithin_of_components ((deeper ++ inner).reverse.map .name) ?_
    rw [hpath, Location.normalize_text hall, Location.components_text hall, hliteral,
      components_concat_slash hdir hbefore]
    simp

/-- Dots of the target, of the request and of an extension come together, and still lead nowhere. -/
theorem candidate_within_directory_dotted :
    let entries := compile "/app" (.ofList [("@/*", ["src/.*"])]) false
    let position : Position := { rank := 0, target := 0, slot := .index 0 }
    let candidate : Candidate := { kind := .index, path := "/app/src/..x/b./index.." }
    literalDirectory "/app/src/.*" = "/app/src/" ∧
    position.candidate? [".."] entries "@/.x/b." = some candidate ∧
    isWithin "/app/src/" (normalize candidate.path) = true := by
  intro entries position candidate
  have hcandidate : position.candidate? [".."] entries "@/.x/b." = some candidate := by
    decide +kernel
  have hentry : entries[position.rank]? = some { pattern := "@/*", targets := ["/app/src/.*"] } := by
    decide +kernel
  have hcaptured : Entry.captures? { pattern := "@/*", targets := ["/app/src/.*"] } "@/.x/b." =
      some (joinWith "/" [".x", "b."]) := by decide +kernel
  have hwithin := candidate_within_directory "/app" (.ofList [("@/*", ["src/.*"])]) false [".."]
    "@/.x/b." (by decide) hcandidate hentry rfl rfl hcaptured (by decide) (by decide)
  have hdir : literalDirectory "/app/src/.*" = "/app/src/" := by decide +kernel
  exact ⟨hdir, hcandidate, hdir ▸ hwithin.2.2⟩

end PathAlias
