import PathAlias.Path.Relative
import PathAlias.Proofs.Path.Routes

/-!
Local specifiers as they are read. A specifier goes up from the directory it is made for to what
the directory shares with the target, and down from there, so read from that directory it names the
target again. The one exception is a directory that is known as `.` only: this component counts as a
level to go up, and going up from there leads out of the directory.
-/

namespace PathAlias

/-! ### Common beginnings -/

/-- The longest row that two rows begin with. -/
structure IsCommonStart {α : Type} (shared xs ys : List α) : Prop where
  left : shared <+: xs
  right : shared <+: ys
  longest : ∀ other, other <+: xs → other <+: ys → other <+: shared

theorem IsCommonStart.cons {α : Type} {shared xs ys : List α} (h : IsCommonStart shared xs ys) (x : α) :
    IsCommonStart (x :: shared) (x :: xs) (x :: ys) := by
  refine ⟨(List.prefix_cons_inj x).mpr h.left, (List.prefix_cons_inj x).mpr h.right, ?_⟩
  intro other hleft hright
  cases other with
  | nil => exact List.nil_prefix
  | cons first other =>
      obtain ⟨rfl, hxs⟩ := List.cons_prefix_cons.mp hleft
      have hys := (List.prefix_cons_inj first).mp hright
      exact (List.prefix_cons_inj first).mpr (h.longest other hxs hys)

/-- What is left of two rows is left after the longest row that both begin with. -/
theorem exists_commonStart {α : Type} [DecidableEq α] (xs ys : List α) :
    ∃ shared, IsCommonStart shared xs ys ∧
      xs = shared ++ (afterCommon xs ys).1 ∧ ys = shared ++ (afterCommon xs ys).2 := by
  induction xs generalizing ys with
  | nil =>
      refine ⟨[], ⟨List.nil_prefix, List.nil_prefix, fun other hleft _ => hleft⟩, ?_⟩
      cases ys <;> exact ⟨rfl, rfl⟩
  | cons x xs ih =>
      cases ys with
      | nil => exact ⟨[], ⟨List.nil_prefix, List.nil_prefix, fun other _ hright => hright⟩, rfl, rfl⟩
      | cons y ys =>
          by_cases hxy : x = y
          · subst hxy
            obtain ⟨shared, hshared, hleft, hright⟩ := ih ys
            have hrests : afterCommon (x :: xs) (x :: ys) = afterCommon xs ys := if_pos rfl
            rw [hrests]
            refine ⟨x :: shared, hshared.cons x, ?_, ?_⟩
            · rw [List.cons_append, ← hleft]
            · rw [List.cons_append, ← hright]
          · have hrests : afterCommon (x :: xs) (y :: ys) = (x :: xs, y :: ys) := if_neg hxy
            rw [hrests]
            refine ⟨[], ⟨List.nil_prefix, List.nil_prefix, fun other hleft hright => ?_⟩, rfl, rfl⟩
            cases other with
            | nil => exact List.nil_prefix
            | cons first other =>
                have hx := (List.cons_prefix_cons.mp hleft).1
                exact absurd (hx.symm.trans (List.cons_prefix_cons.mp hright).1) hxy

theorem afterCommon_map_name (xs ys : List Text) :
    ∃ shared up down, xs = shared ++ up ∧ ys = shared ++ down ∧
      afterCommon (xs.map Component.name) (ys.map Component.name) =
        (up.map Component.name, down.map Component.name) := by
  obtain ⟨row, -, hleft, hright⟩ := exists_commonStart (xs.map Component.name) (ys.map Component.name)
  obtain ⟨shared, up, rfl, rfl, hup⟩ := List.map_eq_append_iff.mp hleft
  obtain ⟨again, down, rfl, hagain, hdown⟩ := List.map_eq_append_iff.mp hright
  obtain rfl : again = shared := List.map_injective_iff.mpr (fun _ _ => Component.name.inj) hagain
  exact ⟨again, up, down, rfl, rfl, Prod.ext hup.symm hdown.symm⟩

theorem afterCommon_append (shared xs ys : List Component) :
    afterCommon (shared ++ xs) (shared ++ ys) = afterCommon xs ys := by
  induction shared with
  | nil => rfl
  | cons component shared ih => exact (if_pos rfl).trans ih

/-! ### Specifiers -/

/-- Two routes from the same start share names and then part. The component that stands for a route
without names is shared with no names. -/
theorem Route.afterCommon_components {route other : Route} (hlevel : route.level? = other.level?)
    (hhere : route = .relative 0 [] → other = .relative 0 []) :
    ∃ shared up down blank,
      route.names.reverse = shared ++ up ∧ other.names.reverse = shared ++ down ∧
      (blank = [] ∨ blank = [Component.here]) ∧
      afterCommon route.components other.components = (up.map .name, down.map .name ++ blank) := by
  by_cases hroute : route = .relative 0 []
  · rw [hroute, hhere hroute]
    exact ⟨[], [], [], [], rfl, rfl, Or.inl rfl, rfl⟩
  by_cases hother : other = .relative 0 []
  · subst hother
    refine ⟨[], route.names.reverse, [], [.here], rfl, rfl, Or.inr rfl, ?_⟩
    have hlead : route.lead = [] := lead_congr hlevel
    rw [components_eq_lead hroute, hlead, List.nil_append]
    cases hrow : route.names.reverse with
    | nil =>
        have hnames := onto_of_level? hlevel.symm
        rw [List.reverse_eq_nil_iff.mp hrow] at hnames
        exact absurd hnames.symm hroute
    | cons n row => exact if_neg nofun
  · obtain ⟨shared, up, down, hup, hdown, hrests⟩ :=
      afterCommon_map_name route.names.reverse other.names.reverse
    refine ⟨shared, up, down, [], hup, hdown, Or.inl rfl, ?_⟩
    rw [components_eq_lead hroute, components_eq_lead hother, lead_congr hlevel,
      afterCommon_append, hrests, List.append_nil]

/-- Reading a local specifier is reading the relative path: the dot that may be put before it says
nothing. -/
theorem filterMap_segments_localSpecifier (dir target : Text) :
    isAbsolute (localSpecifier dir target) = false ∧
      (segments (localSpecifier dir target)).filterMap Component.ofSegment? =
        (segments (relative dir target)).filterMap Component.ofSegment? := by
  rw [localSpecifier]
  split
  · rename_i hrelative
    rw [hrelative]
    exact ⟨rfl, rfl⟩
  · rename_i rest hrelative
    rw [hrelative]
    exact ⟨rfl, rfl⟩
  · have hdot : segments ('.' :: '/' :: relative dir target) =
        ['.'] :: segments (relative dir target) := splitOn_append '/' ['.'] (relative dir target)
    rw [hdot]
    exact ⟨rfl, rfl⟩

/-- A route is found again by going up to what it shares with another one, and down. -/
theorem Route.foldl_shared {route other : Route} {shared up down : List Text}
    (hlevel : route.level? = other.level?) (hup : route.names.reverse = shared ++ up)
    (hdown : other.names.reverse = shared ++ down) :
    (List.replicate up.length Component.up ++ down.map Component.name).foldl follow route = other := by
  have hnames : route.names = up.reverse ++ shared.reverse := by
    rw [← List.reverse_append, ← hup, List.reverse_reverse]
  have hother : other.names = down.reverse ++ shared.reverse := by
    rw [← List.reverse_append, ← hdown, List.reverse_reverse]
  calc (List.replicate up.length Component.up ++ down.map Component.name).foldl follow route
      = (down.map Component.name).foldl follow ((List.replicate up.reverse.length .up).foldl follow
          (route.onto (up.reverse ++ shared.reverse))) := by
        rw [List.foldl_append, List.length_reverse, ← hnames, onto_of_level? rfl]
    _ = route.onto other.names := by rw [foldl_ups, foldl_names, hother]
    _ = other := onto_of_level? hlevel

theorem ofPath_localSpecifier {dir target : Text}
    (hlevel : (Route.ofPath dir).level? = (Route.ofPath target).level?)
    (hhere : Route.ofPath dir = .relative 0 [] → Route.ofPath target = .relative 0 []) :
    Route.ofPath (append dir (localSpecifier dir target)) = Route.ofPath target := by
  obtain ⟨shared, up, down, blank, hup, hdown, hblank, hrests⟩ :=
    Route.afterCommon_components hlevel hhere
  have hdownName : ∀ n ∈ down, IsName n := fun n hn =>
    Route.isName_of_mem_ofPath (p := target)
      (List.mem_reverse.mp (hdown ▸ List.mem_append_right shared hn))
  have hrelative : relative dir target = joinWith "/"
      ((List.replicate up.length ['.', '.'] ++ down) ++ blank.map Component.text) := by
    simp only [relative, hrests, List.length_map, List.map_append, Component.map_text_names,
      List.append_assoc]
  have hpieces : ∀ piece ∈ (List.replicate up.length ['.', '.'] ++ down) ++ blank.map Component.text,
      '/' ∉ piece := by
    intro piece hpiece
    rcases List.mem_append.mp hpiece with hmem | hmem
    · exact (piece_of_mem_ups hdownName hmem).1
    · rcases hblank with rfl | rfl
      · exact absurd hmem List.not_mem_nil
      · rw [List.mem_singleton.mp hmem]
        decide
  have hnone : (blank.map Component.text).filterMap Component.ofSegment? = [] := by
    rcases hblank with rfl | rfl <;> rfl
  obtain ⟨habsolute, hsegments⟩ := filterMap_segments_localSpecifier dir target
  rw [Route.ofPath_append dir habsolute, hsegments, hrelative, filterMap_segments_joinWith hpieces,
    List.filterMap_append, filterMap_ups hdownName, hnone, List.append_nil]
  exact Route.foldl_shared hlevel hup hdown

theorem Route.exists_components_cons {route : Route} (h : route ≠ .relative 0 []) :
    ∃ first rest, route.components = first :: rest ∧ first ≠ .here := by
  match route, h with
  | .relative 0 [], h => exact absurd rfl h
  | .absolute _, _ | .relative (_ + 1) _, _ => exact ⟨_, _, rfl, nofun⟩
  | .relative 0 (n :: names), _ =>
      obtain ⟨last, row, hrow⟩ := List.exists_cons_of_ne_nil
        (mt List.reverse_eq_nil_iff.mp (List.cons_ne_nil n names))
      refine ⟨.name last, row.map .name, ?_, nofun⟩
      change List.map Component.name (n :: names).reverse = _
      rw [hrow, List.map_cons]

/-- From the directory that is known as `.` only, a specifier leads out of that directory. -/
theorem level?_localSpecifier_here {dir target : Text} (hdir : Route.ofPath dir = .relative 0 [])
    (htarget : Route.ofPath target ≠ .relative 0 []) :
    ∃ ups, (Route.ofPath (append dir (localSpecifier dir target))).level? = some (ups + 1) := by
  obtain ⟨first, rest, hcomponents, hfirst⟩ := Route.exists_components_cons htarget
  have hrests : afterCommon (Route.relative 0 []).components (first :: rest) =
      ([.here], first :: rest) := if_neg (Ne.symm hfirst)
  have hrelative : relative dir target =
      '.' :: '.' :: '/' :: joinWith "/" ((first :: rest).map Component.text) := by
    rw [relative, hdir, hcomponents, hrests]
    exact joinWith_cons_cons "/" ".." first.text (rest.map Component.text)
  have hspecifier : localSpecifier dir target = relative dir target := by
    rw [localSpecifier, hrelative]
    rfl
  have hsegments : segments (relative dir target) =
      ['.', '.'] :: segments (joinWith "/" ((first :: rest).map Component.text)) := by
    rw [hrelative]
    exact splitOn_append '/' ['.', '.'] _
  have habsolute : isAbsolute (localSpecifier dir target) = false := by
    rw [hspecifier, hrelative]
    rfl
  obtain ⟨more, hmore⟩ := Route.level?_foldl (.relative 1 []) (root_not_mem_filterMap
    (segments (joinWith "/" ((first :: rest).map Component.text))))
  refine ⟨more, ?_⟩
  rw [Route.ofPath_append dir habsolute, hspecifier, hsegments, hdir, Nat.add_comm more 1]
  exact hmore

/-! ### Reading a specifier -/

/-- Two paths that count from the same place and do not lead above it. -/
def Together (p q : Text) : Prop :=
  isAbsolute p = true ∧ isAbsolute q = true ∨
    isAbsolute p = false ∧ isAbsolute q = false ∧
      (components (normalize p)).head? ≠ some .up ∧ (components (normalize q)).head? ≠ some .up

instance (p q : Text) : Decidable (Together p q) := inferInstanceAs (Decidable (_ ∨ _))

theorem level?_of_relative {p : Text} (habsolute : isAbsolute p = false)
    (hup : (components (normalize p)).head? ≠ some .up) : (Route.ofPath p).level? = some 0 := by
  rw [components_normalize] at hup
  cases hroute : Route.ofPath p with
  | absolute names =>
      have hnone := Route.level?_ofPath_eq_none_iff.mp (congrArg Route.level? hroute)
      rw [habsolute] at hnone
      cases hnone
  | relative ups names =>
      cases ups with
      | zero => rfl
      | succ ups =>
          rw [hroute] at hup
          exact absurd rfl hup

theorem Together.level? {p q : Text} (h : Together p q) :
    (Route.ofPath p).level? = (Route.ofPath q).level? ∧
      ∀ ups, (Route.ofPath p).level? ≠ some (ups + 1) := by
  rcases h with ⟨hp, hq⟩ | ⟨hp, hq, hpup, hqup⟩
  · rw [Route.level?_ofPath_eq_none_iff.mpr hp, Route.level?_ofPath_eq_none_iff.mpr hq]
    exact ⟨rfl, fun ups => nofun⟩
  · rw [level?_of_relative hp hpup, level?_of_relative hq hqup]
    exact ⟨rfl, fun ups => nofun⟩

/-- The directory of a file counts from where the file does, unless the file is above everything and
its directory is `.` for want of another one. -/
theorem level?_parentOrHere {p : Text}
    (h : ∀ ups, (Route.ofPath p).level? ≠ some (ups + 1)) :
    (Route.ofPath (parentOrHere p)).level? = (Route.ofPath p).level? ∨
      Route.ofPath (parentOrHere p) = .relative 0 [] := by
  rw [parentOrHere]
  cases hparent : parent? p with
  | none => exact Or.inr rfl
  | some dir =>
      obtain ⟨last, hcomponents, hlast⟩ := components_of_parent? hparent
      obtain ⟨more, hmore⟩ := Route.level?_follow (Route.ofPath dir) hlast
      have hlevel : (Route.ofPath p).level? = (Route.ofPath dir).level?.map (· + more) := by
        rw [← hmore, Route.ofPath, hcomponents, List.foldl_append]
        rfl
      rw [Option.getD_some]
      refine Or.inl ?_
      cases hdir : (Route.ofPath dir).level? with
      | none => rw [hlevel, hdir, Option.map_none]
      | some ups =>
          rw [hdir, Option.map_some] at hlevel
          cases hsum : ups + more with
          | zero => rw [hlevel, hsum, (Nat.add_eq_zero_iff.mp hsum).1]
          | succ sum =>
              rw [hsum] at hlevel
              exact absurd hlevel (h sum)

/-- A specifier names its target again exactly if the directory of the importing file is not known
as `.`, or the target is this very directory. -/
theorem normalize_localSpecifier_iff {p target : Text} (h : Together p target) :
    normalize (append (parentOrHere p) (localSpecifier (parentOrHere p) target)) =
        normalize target ↔
      (normalize (parentOrHere p) = "." → normalize target = ".") := by
  obtain ⟨hlevel, hups⟩ := h.level?
  have hhere : ∀ q, normalize q = "." ↔ Route.ofPath q = .relative 0 [] := fun q =>
    normalize_eq_iff (q := ".")
  rw [hhere, hhere, normalize_eq_iff]
  by_cases hdir : Route.ofPath (parentOrHere p) = .relative 0 [] → Route.ofPath target = .relative 0 []
  · refine iff_of_true (ofPath_localSpecifier ?_ hdir) hdir
    rcases level?_parentOrHere hups with hsame | hnone
    · exact hsame.trans hlevel
    · rw [hnone, hdir hnone]
  · obtain ⟨hstay, htarget⟩ := Classical.not_imp.mp hdir
    refine iff_of_false (fun hsame => ?_) hdir
    obtain ⟨ups, hout⟩ := level?_localSpecifier_here hstay htarget
    rw [hsame, ← hlevel] at hout
    exact hups ups hout

end PathAlias
