import PathAlias.Proofs.Path.Composition

/-!
Paths that are joined one behind another. Joining leads on from where a path leads, through the
segments of what is joined, and the slashes that this begins with do not count. So it does not matter
how the path in front is spelled, and joining two texts in turn is joining them with a slash between
them. A backslash counts as a slash only where a joined text begins, so the second text must not begin
with one.
-/

namespace PathAlias

/-- The segments that a text puts behind the path it is joined to. -/
def below (rest : Text) : List Text := segments (rest.dropWhile isSlash)

/-! ### Slashes in front -/

theorem isAbsolute_of_head {t : Text} (h : ¬ t.head?.any isSlash = true) : isAbsolute t = false := by
  rw [Bool.eq_false_iff]
  intro hroot
  rw [isAbsolute, beq_iff_eq] at hroot
  rw [hroot] at h
  exact h rfl

theorem dropWhile_of_head {t : Text} (h : ¬ t.head?.any isSlash = true) :
    t.dropWhile isSlash = t := by
  cases t with
  | nil => rfl
  | cons c rest => exact List.dropWhile_cons_of_neg h

theorem head?_dropWhile_isSlash (t : Text) : ¬ (t.dropWhile isSlash).head?.any isSlash = true := by
  have hhead := List.head?_dropWhile_not isSlash t
  cases hdrop : (t.dropWhile isSlash).head? with
  | none => exact Bool.false_ne_true
  | some c =>
      rw [hdrop] at hhead
      simpa using hhead

theorem dropWhile_replicate_slash (slashes : Nat) (rest : Text) :
    (List.replicate slashes '/' ++ rest).dropWhile isSlash = rest.dropWhile isSlash := by
  apply List.dropWhile_append_of_pos
  intro c hc
  rw [List.eq_of_mem_replicate hc]
  rfl

/-! ### Routes of joined paths -/

/-- What is joined to a path leads on from where the path leads. -/
theorem ofPath_append_below (base rest : Text) :
    Route.ofPath (append base (rest.dropWhile isSlash)) = (Route.ofPath base).through (below rest) :=
  Route.ofPath_append base (isAbsolute_of_head (head?_dropWhile_isSlash rest))

theorem ofPath_join (base rest : Text) :
    Route.ofPath (join base rest) = (Route.ofPath base).through (below rest) := by
  rw [join, ofPath_normalize, ofPath_append_below]

theorem join_eq (base rest : Text) : join base rest = ((Route.ofPath base).through (below rest)).text := by
  rw [join, normalize, ofPath_append_below]

/-- A name that is joined to a path is one component more on its route. -/
theorem join_name (base : Text) {n : Text} (hn : IsName n) (hslash : n.dropWhile isSlash = n) :
    join base n = ((Route.ofPath base).follow (.name n)).text := by
  have hbelow : below n = [n] := by
    rw [below, hslash]
    exact splitOn_of_not_mem hn.slash
  rw [join_eq, hbelow, Route.through_cons_name _ hn]
  rfl

/-- Without backslashes only empty segments are left out in front. -/
theorem Route.through_below (route : Route) {rest : Text} (h : '\\' ∉ rest) :
    route.through (below rest) = route.through (segments rest) := by
  induction rest with
  | nil => rfl
  | cons c rest ih =>
      by_cases hc : c = '/'
      · have hsegments : segments (c :: rest) = [] :: segments rest := if_pos hc
        have hbelow : below (c :: rest) = below rest := by
          rw [below, hc, List.dropWhile_cons_of_pos (by rfl)]
          rfl
        rw [hbelow, hsegments, through_cons_blank route (by rfl), ih (List.not_mem_of_not_mem_cons h)]
      · have hkept : ¬ isSlash c = true := by
          simp only [isSlash, Bool.or_eq_true, beq_iff_eq, not_or]
          exact ⟨hc, Ne.symm (List.ne_of_not_mem_cons h)⟩
        rw [below, List.dropWhile_cons_of_neg hkept]

/-- Two texts with a slash between them lead on one after the other. -/
theorem Route.through_below_append (route : Route) (middle : Text) {last : Text} (h : '\\' ∉ last) :
    route.through (below (middle ++ '/' :: last)) = (route.through (below middle)).through (below last) := by
  by_cases hmiddle : middle.dropWhile isSlash = []
  · have hnone : below middle = [[]] := by
      rw [below, hmiddle]
      rfl
    have hlast : below (middle ++ '/' :: last) = below last := by
      rw [below, List.dropWhile_append, hmiddle]
      exact congrArg segments (dropWhile_replicate_slash 1 last)
    rw [hnone, hlast, through_cons_blank route (by rfl)]
    rfl
  · have hboth : below (middle ++ '/' :: last) = below middle ++ segments last := by
      rw [below, List.dropWhile_append, if_neg (by simpa using hmiddle)]
      exact splitOn_append '/' (middle.dropWhile isSlash) last
    rw [hboth, through_append, through_below _ h]

theorem join_join (base middle : Text) {last : Text} (h : '\\' ∉ last) :
    join (join base middle) last = join base (middle ++ '/' :: last) :=
  calc join (join base middle) last
      = (((Route.ofPath base).through (below middle)).through (below last)).text := by
        rw [join_eq, ofPath_join]
    _ = ((Route.ofPath base).through (below (middle ++ '/' :: last))).text := by
        rw [Route.through_below_append _ middle h]
    _ = join base (middle ++ '/' :: last) := (join_eq _ _).symm

theorem join_normalize (base rest : Text) : join (normalize base) rest = join base rest := by
  rw [join_eq, join_eq, ofPath_normalize]

theorem join_replicate_slash (base : Text) (slashes : Nat) (rest : Text) :
    join base (List.replicate slashes '/' ++ rest) = join base rest := by
  rw [join, join, dropWhile_replicate_slash]

/-- **Joining composes.** Joining two texts in turn is joining them with a slash between them, if the
second one has no backslash, and the path in front may be spelled in any way. To an absolute path
every text gives an absolute one, which does not depend on how many slashes the text begins with. -/
theorem joined_in_turn (base : Text) :
    (∀ middle last : Text, '\\' ∉ last →
      join (join base middle) last = join base (middle ++ '/' :: last)) ∧
    (∀ rest : Text, join (normalize base) rest = join base rest) ∧
    (isAbsolute base = true → ∀ rest : Text, isAbsolute (join base rest) = true ∧
      ∀ slashes : Nat, join base (List.replicate slashes '/' ++ rest) = join base rest) := by
  refine ⟨fun middle last => join_join base middle, join_normalize base, fun hbase rest => ?_⟩
  exact ⟨isAbsolute_join hbase rest, fun slashes => join_replicate_slash base slashes rest⟩

/-- Names on both sides of the seam are taken back, and a backslash may stand in the first text. -/
theorem joined_in_turn_library :
    '\\' ∉ ("//../../x" : Text) ∧ isAbsolute "/app/./lib" = true ∧
      join (join "/app/./lib" "\\/src/*/") "//../../x" =
        join "/app/./lib" (("\\/src/*/" : Text) ++ '/' :: ("//../../x" : Text)) ∧
      join "/app/./lib" ("//../../x" : Text) = "/x" := by
  have hlast : '\\' ∉ ("//../../x" : Text) := by decide
  obtain ⟨hturn, hspelling, habsolute⟩ := joined_in_turn "/app/./lib"
  refine ⟨hlast, rfl, hturn _ _ hlast, ?_⟩
  have hslashes := (habsolute rfl "../../x").2 2
  exact hslashes.trans (by decide +kernel)

end PathAlias
