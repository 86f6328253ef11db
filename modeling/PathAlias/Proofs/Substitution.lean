import Mathlib.Data.List.TakeWhile
import PathAlias.Mapping
import PathAlias.Proofs.Cut
import PathAlias.Proofs.Path.Joining

/-!
Templates that are resolved before their wildcard is replaced. Resolving treats the segment with the
wildcard as a name, so replacing the wildcard afterwards gives what replacing it before gives, as long
as this name is still there and its wildcard is the first one. It is not there if a `..` behind it
takes it back, and it is not the first one if the directory that it stands in has a wildcard itself.
-/

namespace PathAlias

/-- The segments before the one with the first wildcard. -/
def beforeWildcard (template : Text) : List Text :=
  (below template).takeWhile fun segment => !segment.contains wildcard

/-- The segments behind the one with the first wildcard. -/
def behindWildcard (template : Text) : List Text :=
  ((below template).dropWhile fun segment => !segment.contains wildcard).tail

/-- A template goes up again from the segment with the wildcard. -/
def TakesBack (template : Text) : Prop :=
  ((Route.relative 0 []).through (behindWildcard template)).level? ≠ some 0

instance (template : Text) : Decidable (TakesBack template) := inferInstanceAs (Decidable (_ ≠ _))

/-! ### The segments of a template -/

theorem wildcard_not_mem_takeWhile (template : Text) : wildcard ∉ template.takeWhile isSlash := by
  intro hmem
  exact absurd (List.mem_takeWhile_imp hmem) (by decide)

theorem count_dropWhile_isSlash (template : Text) :
    (template.dropWhile isSlash).count wildcard = template.count wildcard := by
  have hslashes := List.count_eq_zero.mpr (wildcard_not_mem_takeWhile template)
  calc (template.dropWhile isSlash).count wildcard
      = (template.takeWhile isSlash ++ template.dropWhile isSlash).count wildcard := by
        rw [List.count_append, hslashes, Nat.zero_add]
    _ = template.count wildcard := by rw [List.takeWhile_append_dropWhile]

/-- The only wildcard of a template is in one of its segments. -/
theorem exists_segment {template : Text} (h : template.count wildcard = 1) :
    ∃ segment, below template = beforeWildcard template ++ segment :: behindWildcard template ∧
      segment.count wildcard = 1 ∧ (∀ other ∈ beforeWildcard template, wildcard ∉ other) ∧
      ∀ other ∈ behindWildcard template, wildcard ∉ other := by
  have hjoin : (joinWith ['/'] (below template)).count wildcard =
      (below template).flatten.count wildcard := count_joinWith (by decide) _
  have hone : (below template).flatten.count wildcard = 1 := by
    rw [← hjoin, below, segments, joinWith_splitOn, count_dropWhile_isSlash, h]
  have hbefore : ∀ other ∈ beforeWildcard template, wildcard ∉ other := by
    intro other hother
    simpa using List.mem_takeWhile_imp hother
  have hnone := count_flatten_eq_zero_iff.mpr hbefore
  have hhead := List.head?_dropWhile_not (fun segment : Text => !segment.contains wildcard)
    (below template)
  have hcut : below template = beforeWildcard template ++
      (below template).dropWhile fun segment => !segment.contains wildcard :=
    List.takeWhile_append_dropWhile.symm
  rw [hcut, List.flatten_append, List.count_append, hnone, Nat.zero_add] at hone
  unfold behindWildcard
  cases hrow : (below template).dropWhile fun segment => !segment.contains wildcard with
  | nil =>
      rw [hrow] at hone
      cases hone
  | cons segment after =>
      rw [hrow] at hcut hone hhead
      rw [List.flatten_cons, List.count_append] at hone
      have hsegment : 0 < segment.count wildcard := by
        rw [List.count_pos_iff]
        simpa using hhead
      have hafter : after.flatten.count wildcard = 0 := by omega
      exact ⟨segment, hcut, by omega, hbefore, count_flatten_eq_zero_iff.mp hafter⟩

/-- In segments that are put together the first segment with a wildcard is the one that changes. -/
theorem substitute_joinWith {before : List Text} {segment : Text} (after : List Text)
    (hbefore : ∀ other ∈ before, wildcard ∉ other) (hsegment : wildcard ∈ segment) (captured : Text) :
    substitute (joinWith "/" (before ++ segment :: after)) captured =
      joinWith "/" (before ++ substitute segment captured :: after) := by
  induction before with
  | nil =>
      cases after with
      | nil => simp [joinWith]
      | cons next after =>
          rw [List.nil_append, joinWith_cons_cons, substitute_append_of_mem hsegment]
          exact (joinWith_cons_cons ..).symm
  | cons first before ih =>
      rw [List.forall_mem_cons] at hbefore
      rw [List.cons_append, joinWith_cons _ _ (by simp), substitute_append_of_not_mem hbefore.1,
        substitute_append_of_not_mem (by decide), ih hbefore.2]
      exact (joinWith_cons _ _ (by simp)).symm

theorem segments_joinWith {before after : List Text} (hbefore : ∀ other ∈ before, '/' ∉ other)
    (hafter : ∀ other ∈ after, '/' ∉ other) (t : Text) :
    segments (joinWith "/" (before ++ t :: after)) = before ++ (segments t ++ after) := by
  have hcut : segments (joinWith "/" (before ++ t :: after)) =
      (before ++ t :: after).flatMap segments := splitOn_joinWith_eq_flatMap (by simp)
  have hkept : ∀ {pieces : List Text}, (∀ other ∈ pieces, '/' ∉ other) →
      pieces.flatMap segments = pieces := flatMap_splitOn
  rw [hcut, List.flatMap_append, List.flatMap_cons, hkept hbefore, hkept hafter]

/-! ### Resolving a template -/

/-- A template that begins with no slash is a row of segments behind the base directory. -/
theorem resolve_of_head (base : Text) {t : Text} (h : ¬ t.head?.any isSlash = true) :
    resolve base t = ((Route.ofPath base).through (segments t)).text := by
  have hbelow : below t = segments t := congrArg segments (dropWhile_of_head h)
  rw [resolve, isAbsolute_of_head h, if_neg Bool.false_ne_true, join_eq, hbelow]

/-- The slashes that a relative template begins with do not count. -/
theorem resolve_dropWhile (base : Text) {template : Text} (h : isAbsolute template = false) :
    resolve base (template.dropWhile isSlash) = resolve base template := by
  rw [resolve_of_head base (head?_dropWhile_isSlash template), resolve, h, if_neg Bool.false_ne_true,
    join_eq]
  rfl

namespace Route

theorem not_mem_text_iff {names : List Text} :
    wildcard ∉ (absolute names).text ↔ ∀ n ∈ names, wildcard ∉ n := by
  rw [text, List.mem_cons, not_or]
  refine (and_iff_right (by decide)).trans ((not_mem_joinWith_iff (by decide)).trans ?_)
  simp only [List.mem_reverse]

end Route

/-! ### The segment with the wildcard -/

theorem isName_of_wildcard_mem {segment : Text} (h : wildcard ∈ segment) (hslash : '/' ∉ segment) :
    IsName segment := by
  refine ⟨?_, ?_, ?_, hslash⟩ <;>
  · rintro rfl
    exact absurd h (by decide)

theorem IsName.not_sublist {n : Text} (h : IsName n) : ¬ n.Sublist ['.', '.'] := by
  intro hsub
  rcases List.sublist_cons_iff.mp hsub with hless | ⟨tail, rfl, hless⟩
  · rcases List.sublist_singleton.mp hless with rfl | rfl
    · exact h.ne_nil rfl
    · exact h.ne_here rfl
  · rcases List.sublist_singleton.mp hless with rfl | rfl
    · exact h.ne_here rfl
    · exact h.ne_up rfl

/-- A segment that a name can be read from with gaps is a name. -/
theorem IsName.of_sublist {n segment : Text} (hn : IsName n) (hsub : n.Sublist segment)
    (hslash : '/' ∉ segment) : IsName segment := by
  refine ⟨?_, ?_, ?_, hslash⟩
  · rintro rfl
    exact hn.not_sublist (hsub.trans (List.nil_sublist _))
  · rintro rfl
    exact hn.not_sublist (hsub.trans (List.sublist_cons_self _ _))
  · rintro rfl
    exact hn.not_sublist hsub

/-- Putting a name in for the wildcard of a segment gives a name. -/
theorem isName_substitute {segment n : Text} (hmem : wildcard ∈ segment) (hslash : '/' ∉ segment)
    (hn : IsName n) : IsName (substitute segment n) := by
  cases hsplit : splitFirst? wildcard segment with
  | none => exact absurd hmem (splitFirst?_eq_none_iff.mp hsplit)
  | some parts =>
      obtain ⟨before, after⟩ := parts
      obtain ⟨hbefore, rfl⟩ := splitFirst?_eq_some_iff.mp hsplit
      have hvalue : substitute (before ++ wildcard :: after) n = before ++ (n ++ after) := by
        rw [substitute_append_of_not_mem hbefore, substitute, if_pos rfl]
      rw [hvalue]
      refine hn.of_sublist ((List.sublist_append_left n after).trans (List.sublist_append_right _ _)) ?_
      simp only [List.mem_append, List.mem_cons, not_or] at hslash ⊢
      exact ⟨hslash.1, hn.slash, hslash.2.2⟩

section Templates

variable {base template segment : Text}
  (hcut : below template = beforeWildcard template ++ segment :: behindWildcard template)

include hcut in
theorem slash_free :
    (∀ other ∈ beforeWildcard template, '/' ∉ other) ∧ '/' ∉ segment ∧
      ∀ other ∈ behindWildcard template, '/' ∉ other := by
  have hall : ∀ other ∈ below template, '/' ∉ other := fun _ => not_mem_of_mem_segments
  rw [hcut, List.forall_mem_append, List.forall_mem_cons] at hall
  exact hall

/-- The route to the directory that the segment with the wildcard stands in. -/
def directoryRoute (base template : Text) : Route :=
  (Route.ofPath base).through (beforeWildcard template)

include hcut in
theorem resolve_beforeWildcard :
    resolve base (joinWith "/" (beforeWildcard template)) = (directoryRoute base template).text := by
  have hjoin : joinWith ['/'] (below template) = template.dropWhile isSlash := joinWith_splitOn '/' _
  cases hbefore : beforeWildcard template with
  | nil =>
      rw [directoryRoute, hbefore]
      exact resolve_of_head base Bool.false_ne_true
  | cons first more =>
      have hsegments : segments (joinWith "/" (first :: more)) = first :: more := by
        rw [← hbefore]
        exact splitOn_joinWith (by simp [hbefore]) (slash_free hcut).1
      rw [resolve_of_head, hsegments, directoryRoute, hbefore]
      have hhead := head?_dropWhile_isSlash template
      rw [← hjoin, hcut, hbefore, List.cons_append] at hhead
      have hfirst : first ≠ [] := by
        rintro rfl
        rw [joinWith_cons _ _ (by simp)] at hhead
        exact hhead rfl
      rw [head?_joinWith _ hfirst] at hhead ⊢
      exact hhead

include hcut in
/-- A resolved template leads through the directory and the segment with the wildcard. -/
theorem resolve_eq (htemplate : isAbsolute template = false) (hsegment : wildcard ∈ segment) :
    resolve base template = (((directoryRoute base template).follow (.name segment)).through
      (behindWildcard template)).text := by
  have hname := isName_of_wildcard_mem hsegment (slash_free hcut).2.1
  have hsegments : segments (template.dropWhile isSlash) = below template := rfl
  rw [← resolve_dropWhile base htemplate, resolve_of_head base (head?_dropWhile_isSlash template),
    hsegments, hcut, Route.through_append, Route.through_cons_name _ hname]
  rfl

theorem head?_substitute {t captured : Text} (ht : ¬ t.head?.any isSlash = true)
    (hfits : t.head? = some wildcard → ¬ captured.head?.any isSlash = true) (hne : captured ≠ []) :
    ¬ (substitute t captured).head?.any isSlash = true := by
  cases t with
  | nil => exact ht
  | cons c rest =>
      rw [substitute]
      split_ifs with hc
      · rw [List.head?_append_of_ne_nil _ hne]
        exact hfits (congrArg some hc)
      · exact ht

include hcut in
/-- The template with its wildcard replaced leads through the same directory. -/
theorem resolve_substitute (htemplate : isAbsolute template = false) (hsegment : wildcard ∈ segment)
    (hbefore : ∀ other ∈ beforeWildcard template, wildcard ∉ other) {captured : Text}
    (hne : captured ≠ [])
    (hfits : (template.dropWhile isSlash).head? = some wildcard → ¬ captured.head?.any isSlash = true) :
    resolve base (substitute template captured) =
      (((directoryRoute base template).through (segments (substitute segment captured))).through
        (behindWildcard template)).text := by
  have hhead := head?_substitute (head?_dropWhile_isSlash template) hfits hne
  have hslashes : ∀ c ∈ template.takeWhile isSlash, isSlash c = true :=
    fun _ => List.mem_takeWhile_imp
  have hsplit : substitute template captured =
      template.takeWhile isSlash ++ substitute (template.dropWhile isSlash) captured := by
    rw [← substitute_append_of_not_mem (wildcard_not_mem_takeWhile template),
      List.takeWhile_append_dropWhile]
  -- replacing the wildcard adds no slash to those that the template begins with
  have hdrop : (substitute template captured).dropWhile isSlash =
      substitute (template.dropWhile isSlash) captured := by
    rw [hsplit, List.dropWhile_append_of_pos hslashes, dropWhile_of_head hhead]
  have habsolute : isAbsolute (substitute template captured) = false := by
    rw [hsplit]
    cases template with
    | nil => exact isAbsolute_of_head hhead
    | cons c rest =>
        rw [List.takeWhile_cons]
        split_ifs with hc
        · exact htemplate
        · exact isAbsolute_of_head hhead
  have hjoin : joinWith "/" (below template) = template.dropWhile isSlash := joinWith_splitOn '/' _
  have hfree := slash_free hcut
  rw [← resolve_dropWhile base habsolute, hdrop, resolve_of_head base hhead, ← hjoin, hcut,
    substitute_joinWith _ hbefore hsegment, segments_joinWith hfree.1 hfree.2.2,
    Route.through_append, Route.through_append]
  rfl

end Templates

/-- In a resolved template the segment with the wildcard is replaced by the segments that it gives. -/
theorem normalize_substitute_text {names down : List Text} {segment : Text}
    (hnames : ∀ n ∈ names, IsName n ∧ wildcard ∉ n) (hdown : ∀ n ∈ down, IsName n)
    (hsegment : wildcard ∈ segment) (captured : Text) :
    normalize (substitute (Route.absolute (down ++ segment :: names)).text captured) =
      ((down.reverse.map .name).foldl Route.follow
        ((Route.absolute names).through (segments (substitute segment captured)))).text := by
  -- the slash that the text opens with is the one behind an empty first piece
  have hfront : ∀ n ∈ [] :: names.reverse, '/' ∉ n ∧ wildcard ∉ n := by
    rw [List.forall_mem_cons]
    refine ⟨by decide, fun n hn => ?_⟩
    have hn := hnames n (List.mem_reverse.mp hn)
    exact ⟨hn.1.slash, hn.2⟩
  have htext : (Route.absolute (down ++ segment :: names)).text =
      joinWith "/" ([] :: names.reverse ++ segment :: down.reverse) := by
    rw [List.cons_append, joinWith_cons _ _ (by simp), Route.text, List.reverse_append,
      List.reverse_cons, List.append_assoc]
    rfl
  have hsegments := segments_joinWith (fun n hn => (hfront n hn).1)
    (fun n hn => (hdown n (List.mem_reverse.mp hn)).slash) (substitute segment captured)
  have hroot : isAbsolute
      (joinWith "/" ([] :: names.reverse ++ substitute segment captured :: down.reverse)) = true := by
    rw [List.cons_append, joinWith_cons _ _ (by simp)]
    rfl
  have hplace : (Route.absolute []).through ([] :: names.reverse) = .absolute names := by
    have hup := Route.foldl_names_absolute names []
    rw [List.append_nil] at hup
    exact ((Route.absolute []).through_names fun n hn => (hnames n (List.mem_reverse.mp hn)).1).trans hup
  rw [htext, substitute_joinWith _ (fun n hn => (hfront n hn).2) hsegment, normalize,
    Route.ofPath_eq_through, hroot, if_pos rfl, hsegments, Route.through_append, hplace,
    Route.through_append, Route.through_names _ fun n hn => hdown n (List.mem_reverse.mp hn)]

/-- What is behind the segment with the wildcard goes up some levels and then down through names. -/
theorem exists_behind {template : Text}
    (hafter : ∀ other ∈ behindWildcard template, '/' ∉ other ∧ wildcard ∉ other) :
    ∃ ups down, (Route.relative 0 []).through (behindWildcard template) = .relative ups down ∧
      (TakesBack template ↔ ups ≠ 0) ∧ ∀ n ∈ down, IsName n ∧ wildcard ∉ n := by
  obtain ⟨ups, down, hroute⟩ := Route.exists_relative (root_not_mem_filterMap (behindWildcard template))
  refine ⟨ups, down, hroute, ?_, ?_⟩
  · rw [TakesBack, Route.through, hroute]
    exact not_congr Option.some_inj
  · intro n hn
    have hmem : n ∈ ((Route.relative 0 []).through (behindWildcard template)).names := by
      rw [Route.through, hroute]
      exact hn
    have hadded := Route.names_through (fun other hother => (hafter other hother).1) hmem
    obtain ⟨hother, hname⟩ := hadded.resolve_left List.not_mem_nil
    exact ⟨hname, (hafter n hother).2⟩

/-- The directory that the segment with the wildcard stands in, below an absolute directory. -/
theorem exists_directory {base template : Text} (hbase : isAbsolute base = true)
    (hbefore : ∀ other ∈ beforeWildcard template, '/' ∉ other) :
    ∃ names, directoryRoute base template = .absolute names ∧ ∀ n ∈ names, IsName n := by
  obtain ⟨start, hstart⟩ := exists_absolute hbase
  obtain ⟨names, hnames⟩ :=
    Route.foldl_absolute (root_not_mem_filterMap (beforeWildcard template)) start
  have hdirectory : (Route.ofPath base).through (beforeWildcard template) = .absolute names := by
    rw [hstart, Route.through, hnames]
  refine ⟨names, hdirectory, fun n hn => ?_⟩
  have hmem : n ∈ ((Route.ofPath base).through (beforeWildcard template)).names := by
    rw [hdirectory]
    exact hn
  exact (Route.names_through hbefore hmem).elim Route.isName_of_mem_ofPath And.right

/-- How a template with one wildcard lies over an absolute directory: its segment with the wildcard
stands in a place without one, and from there the template goes up some levels and then down. -/
structure Layout (base template segment : Text) (place : List Text) (ups : Nat) (down : List Text) :
    Prop where
  cut : below template = beforeWildcard template ++ segment :: behindWildcard template
  count_segment : segment.count wildcard = 1
  before_free : ∀ other ∈ beforeWildcard template, wildcard ∉ other
  directory_eq : directoryRoute base template = .absolute place
  place_names : ∀ n ∈ place, IsName n ∧ wildcard ∉ n
  behind_eq : (Route.relative 0 []).through (behindWildcard template) = .relative ups down
  down_names : ∀ n ∈ down, IsName n ∧ wildcard ∉ n

theorem exists_layout {base template : Text} (hbase : isAbsolute base = true)
    (hone : template.count wildcard = 1)
    (hdirectory : wildcard ∉ resolve base (joinWith "/" (beforeWildcard template))) :
    ∃ segment place ups down, Layout base template segment place ups down ∧
      (TakesBack template ↔ ups ≠ 0) := by
  obtain ⟨segment, hcut, hcount, hbefore, hafter⟩ := exists_segment hone
  obtain ⟨hslashBefore, -, hslashAfter⟩ := slash_free hcut
  obtain ⟨place, hplace, hnames⟩ := exists_directory hbase hslashBefore
  obtain ⟨ups, down, hbehind, hback, hdown⟩ :=
    exists_behind fun other hother => ⟨hslashAfter other hother, hafter other hother⟩
  rw [resolve_beforeWildcard hcut, hplace, Route.not_mem_text_iff] at hdirectory
  exact ⟨segment, place, ups, down, ⟨hcut, hcount, hbefore, hplace,
    fun n hn => ⟨hnames n hn, hdirectory n hn⟩, hbehind, hdown⟩, hback⟩

namespace Layout

variable {base template segment : Text} {place down : List Text} {ups : Nat}

theorem wildcard_mem (h : Layout base template segment place ups down) : wildcard ∈ segment := by
  rw [← List.count_pos_iff, h.count_segment]
  exact Nat.one_pos

theorem resolve_eq_stays (h : Layout base template segment place 0 down)
    (htemplate : isAbsolute template = false) :
    resolve base template = (Route.absolute (down ++ segment :: place)).text := by
  rw [resolve_eq h.cut htemplate h.wildcard_mem, h.directory_eq,
    Route.through_of_relative h.behind_eq]
  exact congrArg Route.text (Route.foldl_names_absolute down (segment :: place))

theorem count_stays (h : Layout base template segment place 0 down)
    (htemplate : isAbsolute template = false) : (resolve base template).count wildcard = 1 := by
  have hplace : place.reverse.flatten.count wildcard = 0 :=
    count_flatten_eq_zero_iff.mpr fun n hn => (h.place_names n (List.mem_reverse.mp hn)).2
  have hdown : down.reverse.flatten.count wildcard = 0 :=
    count_flatten_eq_zero_iff.mpr fun n hn => (h.down_names n (List.mem_reverse.mp hn)).2
  rw [h.resolve_eq_stays htemplate, Route.text, List.count_cons_of_ne (by decide)]
  calc (joinWith ['/'] (down ++ segment :: place).reverse).count wildcard
      = (down ++ segment :: place).reverse.flatten.count wildcard := count_joinWith (by decide) _
    _ = 1 := by
        rw [List.reverse_append, List.reverse_cons, List.flatten_append, List.flatten_append,
          List.flatten_singleton, List.count_append, List.count_append, hplace, hdown,
          h.count_segment]

/-- Where the segment with the wildcard is still there, any text can be put in before or after. -/
theorem substitute_stays (h : Layout base template segment place 0 down)
    (htemplate : isAbsolute template = false) {captured : Text} (hne : captured ≠ [])
    (hfits : (template.dropWhile isSlash).head? = some wildcard → ¬ captured.head?.any isSlash = true) :
    normalize (substitute (resolve base template) captured) =
      resolve base (substitute template captured) := by
  rw [h.resolve_eq_stays htemplate,
    normalize_substitute_text h.place_names (fun n hn => (h.down_names n hn).1) h.wildcard_mem,
    resolve_substitute h.cut htemplate h.wildcard_mem h.before_free hne hfits, h.directory_eq,
    Route.through_of_relative h.behind_eq]
  rfl

/-- Where the segment with the wildcard is taken back, whatever name stands there does not count. -/
theorem exists_taken (h : Layout base template segment place (ups + 1) down) :
    ∃ names, (∀ n ∈ names, IsName n ∧ wildcard ∉ n) ∧ ∀ n,
      ((Route.absolute place).follow (.name n)).through (behindWildcard template) = .absolute names := by
  -- the first level up takes the name back, and the others lead on from the place itself
  have hups : .root ∉ List.replicate ups Component.up := by
    intro hroot
    cases List.eq_of_mem_replicate hroot
  obtain ⟨start, hstart⟩ := Route.foldl_absolute hups place
  refine ⟨down ++ start, ?_, fun n => ?_⟩
  · intro n hn
    rcases List.mem_append.mp hn with hn | hn
    · exact h.down_names n hn
    · have hmem : n ∈ ((List.replicate ups .up).foldl Route.follow (.absolute place)).names := by
        rw [hstart]
        exact hn
      exact h.place_names n (Route.names_foldl_ups hmem)
  · rw [Route.through_name_of_relative h.behind_eq, hstart, Route.foldl_names_absolute]

theorem resolve_taken (h : Layout base template segment place (ups + 1) down)
    (htemplate : isAbsolute template = false) :
    wildcard ∉ resolve base template ∧ normalize (resolve base template) = resolve base template ∧
    ∀ n, IsName n →
      ((template.dropWhile isSlash).head? = some wildcard → ¬ n.head?.any isSlash = true) →
      resolve base (substitute template n) = resolve base template := by
  obtain ⟨names, hnames, htaken⟩ := h.exists_taken
  have hresolve : resolve base template = (Route.absolute names).text := by
    rw [resolve_eq h.cut htemplate h.wildcard_mem, h.directory_eq, htaken]
  rw [hresolve]
  refine ⟨Route.not_mem_text_iff.mpr fun n hn => (hnames n hn).2, ?_, fun n hn hfits => ?_⟩
  · exact congrArg Route.text (Route.ofPath_text fun n hn => (hnames n hn).1)
  · have hname := isName_substitute h.wildcard_mem (slash_free h.cut).2.1 hn
    have hsegments : segments (substitute segment n) = [substitute segment n] :=
      splitOn_of_not_mem hname.slash
    rw [resolve_substitute h.cut htemplate h.wildcard_mem h.before_free hn.ne_nil hfits,
      h.directory_eq, hsegments, Route.through_cons_name _ hname]
    exact congrArg Route.text (htaken _)

end Layout

theorem joinWith_names_ne_nil {names : List Text} (hne : names ≠ []) (hnames : ∀ n ∈ names, IsName n) :
    joinWith "/" names ≠ [] := by
  obtain ⟨n, more, rfl⟩ := List.exists_cons_of_ne_nil hne
  have hn := (hnames n List.mem_cons_self).ne_nil
  intro hnil
  have hhead := head?_joinWith "/" hn more
  rw [hnil] at hhead
  exact hn (List.head?_eq_none_iff.mp hhead.symm)

/-- A row of names opens with a slash only if its first name opens with a backslash. -/
theorem head?_names {names : List Text} (hne : names ≠ []) (hnames : ∀ n ∈ names, IsName n)
    (hopen : (joinWith "/" names).head? ≠ some '\\') :
    ¬ (joinWith "/" names).head?.any isSlash = true := by
  obtain ⟨n, more, rfl⟩ := List.exists_cons_of_ne_nil hne
  have hn := hnames n List.mem_cons_self
  rw [head?_joinWith _ hn.ne_nil] at hopen ⊢
  obtain ⟨c, rest, rfl⟩ := List.exists_cons_of_ne_nil hn.ne_nil
  rw [List.head?_cons, Option.any_some, isSlash, Bool.or_eq_true, beq_iff_eq, beq_iff_eq]
  rintro (rfl | rfl)
  · exact hn.slash List.mem_cons_self
  · exact hopen rfl

/-- **Resolving before replacing the wildcard gives what replacing it first gives.** A relative
template with one wildcard is resolved over an absolute directory. Where the directory that its
wildcard stands in has no wildcard, the wildcard is still there, and the only one, unless a `..`
behind it takes it back. Then replacing it by a row of names and resolving commute for every row if it
is still there, and for a row of one name if it is not. A backslash that the row opens with must not
open the whole path, as it is not kept there. -/
theorem substitute_resolve {base template : Text} (hbase : isAbsolute base = true)
    (htemplate : isAbsolute template = false) (hone : template.count wildcard = 1)
    (hdirectory : wildcard ∉ resolve base (joinWith "/" (beforeWildcard template))) :
    (resolve base template).count wildcard = (if TakesBack template then 0 else 1) ∧
    ∀ names : List Text, names ≠ [] → (∀ n ∈ names, IsName n) →
      (TakesBack template → names.length = 1) →
      ((template.dropWhile isSlash).head? = some wildcard → (joinWith "/" names).head? ≠ some '\\') →
      normalize (substitute (resolve base template) (joinWith "/" names)) =
        resolve base (substitute template (joinWith "/" names)) := by
  obtain ⟨segment, place, ups, down, hlayout, hback⟩ := exists_layout hbase hone hdirectory
  match ups, hlayout with
  | 0, hlayout =>
      have hstays : ¬ TakesBack template := mt hback.mp (not_not_intro rfl)
      rw [if_neg hstays]
      refine ⟨hlayout.count_stays htemplate, fun names hne hnames _ hopen => ?_⟩
      exact hlayout.substitute_stays htemplate (joinWith_names_ne_nil hne hnames)
        (fun hhead => head?_names hne hnames (hopen hhead))
  | ups + 1, hlayout =>
      have htaken : TakesBack template := hback.mpr (Nat.succ_ne_zero ups)
      obtain ⟨hfree, hnormal, hsame⟩ := hlayout.resolve_taken htemplate
      rw [if_pos htaken]
      refine ⟨List.count_eq_zero.mpr hfree, fun names hne hnames hlength hopen => ?_⟩
      obtain ⟨n, rfl⟩ := List.length_eq_one_iff.mp (hlength htaken)
      have hn := hnames n List.mem_cons_self
      have hsingle : joinWith "/" [n] = n := List.intercalate_singleton
      have hfits := fun hhead => head?_names hne hnames (hopen hhead)
      rw [hsingle] at hfits ⊢
      rw [substitute_of_not_mem hfree, hnormal, hsame n hn hfits]

/-- The segment with the wildcard takes a directory of several levels, though the template goes up
and down on both sides of it. -/
theorem substitute_resolve_library :
    let base : Text := "/app/web"
    let template : Text := "../lib/x*/gen/.././y.ts"
    let names : List Text := ["a", "b"]
    resolve base template = "/app/lib/x*/y.ts" ∧ (resolve base template).count wildcard = 1 ∧
    normalize (substitute (resolve base template) (joinWith "/" names)) =
      resolve base (substitute template (joinWith "/" names)) ∧
    resolve base (substitute template (joinWith "/" names)) = "/app/lib/xa/b/y.ts" := by
  intro base template names
  have hdirectory : wildcard ∉ resolve base (joinWith "/" (beforeWildcard template)) := by
    decide +kernel
  have hstays : ¬ TakesBack template := by decide +kernel
  have hone : template.count wildcard = 1 := by decide
  obtain ⟨hcount, hsame⟩ := substitute_resolve rfl rfl hone hdirectory
  rw [if_neg hstays] at hcount
  refine ⟨by decide +kernel, hcount, ?_, by decide +kernel⟩
  exact hsame names (by decide) (by decide) (fun hback => absurd hback hstays) (by decide)

/-- A `..` behind the segment with the wildcard takes it back with all that it stands for, a wildcard
in the base directory is replaced instead, and a backslash at the start is lost. -/
theorem substitute_resolve_differ :
    let names : List Text := ["a", "b"]
    let backslash : Text := "\\a"
    (∀ n ∈ backslash :: names, IsName n) ∧
    (normalize (substitute (resolve "/app" "*/../x") (joinWith "/" names)) = "/app/x" ∧
      resolve "/app" (substitute "*/../x" (joinWith "/" names)) = "/app/a/x" ∧
      wildcard ∉ resolve "/app" "*/../x") ∧
    (normalize (substitute (resolve "/w*" "src/*") "a") = "/wa/src/*" ∧
      resolve "/w*" (substitute "src/*" "a") = "/w*/src/a") ∧
    (normalize (substitute (resolve "/app" "*") backslash) = "/app/\\a" ∧
      resolve "/app" (substitute "*" backslash) = "/app/a") := by
  decide +kernel

end PathAlias
