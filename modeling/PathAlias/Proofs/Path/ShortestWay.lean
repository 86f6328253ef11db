import PathAlias.Proofs.Path.ImportPath
import PathAlias.Proofs.Path.NormalForm

/-!
Shortest ways. One component leads one level up or one level down, so from one place to another every
way has at least the components that lead up to the last place above both and down from there. The
relative path from one path to another has these components and no others. So it leads to the other
path, no shorter one does, and it is empty only where there is nowhere to go.
-/

namespace PathAlias

/-- A relative path that leads from one path to another. -/
structure IsWay (origin target way : Text) : Prop where
  relative : isAbsolute way = false
  leads : normalize (append origin way) = normalize target

/-! ### Walks -/

namespace Location

/-- A walk has at least the components that lead up to a place above both its ends and down again. -/
theorem exists_shared_of_walk (place : Location) {row : List Component} (h : .root ∉ row) :
    ∃ shared up down : List Text, place = up ++ shared ∧ place.walk row = down ++ shared ∧
      up.length + down.length ≤ row.length := by
  induction row using List.reverseRecOn with
  | nil => exact ⟨place, [], [], rfl, rfl, Nat.le_refl 0⟩
  | append_singleton row component ih =>
      rw [List.mem_append, not_or] at h
      obtain ⟨shared, up, down, hup, hdown, hlength⟩ := ih h.1
      have hstep : place.walk (row ++ [component]) = Location.follow (down ++ shared) component := by
        rw [walk, List.foldl_append]
        exact congrArg (follow · component) hdown
      rw [hstep, List.length_append, List.length_singleton]
      cases component with
      | root => exact absurd List.mem_cons_self h.2
      | here => exact ⟨shared, up, down, hup, rfl, by omega⟩
      | name n => exact ⟨shared, up, n :: down, hup, rfl, by simp only [List.length_cons]; omega⟩
      | up =>
          cases down with
          | cons last down =>
              refine ⟨shared, up, down, hup, rfl, ?_⟩
              simp only [List.length_cons] at hlength
              omega
          | nil =>
              -- the walk goes above all that it shares with where it started
              cases shared with
              | nil => exact ⟨[], up, [], hup, rfl, by omega⟩
              | cons last shared =>
                  refine ⟨shared, up ++ [last], [], ?_, rfl, ?_⟩
                  · rw [hup, List.append_assoc, List.singleton_append]
                  · simp only [List.length_append, List.length_singleton, List.length_nil] at hlength ⊢
                    omega

end Location

/-! ### Ways -/

theorem length_filterMap_segments_le (p : Text) :
    ((segments p).filterMap Component.ofSegment?).length ≤ (components p).length := by
  by_cases hne : p = []
  · subst hne
    decide
  · obtain ⟨first, rest, component, hsegments, -, -, hcomponents⟩ := exists_components hne
    rw [hsegments, hcomponents, List.length_cons]
    cases hfirst : Component.ofSegment? first with
    | none => simp [List.filterMap_cons_none hfirst]
    | some other => simp [List.filterMap_cons_some hfirst]

/-- Two absolute paths lead down through the same names as long as they can, and then each through its
own ones. -/
structure Parting (origin target : Text) (shared up down : List Text) : Prop where
  origin_eq : Route.ofPath origin = .absolute (shared ++ up).reverse
  target_eq : Route.ofPath target = .absolute (shared ++ down).reverse
  longest : IsCommonStart (.root :: shared.map Component.name) (components (normalize origin))
    (components (normalize target))
  relative_eq : relative origin target = joinWith "/" (List.replicate up.length ['.', '.'] ++ down)

theorem exists_parting {origin target : Text} (horigin : isAbsolute origin = true)
    (htarget : isAbsolute target = true) : ∃ shared up down, Parting origin target shared up down := by
  obtain ⟨names, hnames⟩ := exists_absolute horigin
  obtain ⟨others, hothers⟩ := exists_absolute htarget
  obtain ⟨row, hlongest, hleft, hright⟩ :=
    exists_commonStart (components (normalize origin)) (components (normalize target))
  have hxs := components_normalize_absolute hnames
  have hys := components_normalize_absolute hothers
  -- both paths start at the root, so this is the first component that they share
  have hroot : [Component.root] <+: row := by
    apply hlongest.longest
    · exact ⟨_, hxs.symm⟩
    · exact ⟨_, hys.symm⟩
  obtain ⟨more, rfl⟩ := hroot
  have hup := List.map_eq_append_iff.mp (List.cons.inj (hxs.symm.trans hleft)).2
  have hdown := List.map_eq_append_iff.mp (List.cons.inj (hys.symm.trans hright)).2
  obtain ⟨shared, up, hnamesEq, rfl, hupEq⟩ := hup
  obtain ⟨again, down, hothersEq, hagain, hdownEq⟩ := hdown
  obtain rfl : again = shared :=
    List.map_injective_iff.mpr (fun _ _ => Component.name.inj) hagain
  refine ⟨again, up, down, ?_, ?_, hlongest, ?_⟩
  · rw [hnames, ← hnamesEq, List.reverse_reverse]
  · rw [hothers, ← hothersEq, List.reverse_reverse]
  · rw [relative, ← components_normalize, ← components_normalize]
    simp only [← hupEq, ← hdownEq, Component.map_text_names, List.length_map]

namespace Parting

variable {origin target : Text} {shared up down : List Text} (h : Parting origin target shared up down)

include h

theorem components_origin : components (normalize origin) = .root :: (shared ++ up).map .name := by
  rw [components_normalize_absolute h.origin_eq, List.reverse_reverse]

theorem components_target : components (normalize target) = .root :: (shared ++ down).map .name := by
  rw [components_normalize_absolute h.target_eq, List.reverse_reverse]

theorem isName_down {n : Text} (hn : n ∈ down) : IsName n := by
  apply isName_of_mem_components (p := normalize target)
  rw [h.components_target]
  exact List.mem_cons_of_mem _ (List.mem_map_of_mem (List.mem_append_right _ hn))

theorem isAbsolute_relative : isAbsolute (relative origin target) = false := by
  rw [h.relative_eq]
  cases hrow : List.replicate up.length ['.', '.'] ++ down with
  | nil => rfl
  | cons first rest =>
      have hfirst := piece_of_mem_ups (fun _ => h.isName_down) (hrow ▸ List.mem_cons_self)
      have hne : first ≠ [] := by
        rintro rfl
        exact hfirst.2 rfl
      rw [isAbsolute, head?_joinWith "/" hne]
      exact isAbsolute_of_not_mem hfirst.1

theorem isWay : IsWay origin target (relative origin target) := by
  refine ⟨h.isAbsolute_relative, normalize_eq_iff.mpr ?_⟩
  have hpieces : ∀ piece ∈ List.replicate up.length ['.', '.'] ++ down, '/' ∉ piece :=
    fun _ hpiece => (piece_of_mem_ups (fun _ => h.isName_down) hpiece).1
  have hlevel : (Route.ofPath origin).level? = (Route.ofPath target).level? := by
    rw [h.origin_eq, h.target_eq]
    rfl
  rw [Route.ofPath_append origin h.isAbsolute_relative, h.relative_eq,
    filterMap_segments_joinWith hpieces, filterMap_ups fun _ => h.isName_down]
  apply Route.foldl_shared hlevel
  · rw [h.origin_eq]
    exact List.reverse_reverse _
  · rw [h.target_eq]
    exact List.reverse_reverse _

theorem length_components_relative :
    (components (relative origin target)).length = up.length + down.length := by
  rw [h.relative_eq]
  by_cases hne : List.replicate up.length ['.', '.'] ++ down = []
  · have hboth : up.length + down.length = 0 := by
      simpa using congrArg List.length hne
    rw [hne, hboth]
    rfl
  · have hcomponents := Route.components_pieces (fun _ => h.isName_down) hne
    exact (congrArg List.length hcomponents).trans (by simp)

/-- Every way has at least as many components as the relative path. -/
theorem length_le {way : Text} (hway : IsWay origin target way) :
    up.length + down.length ≤ (components way).length := by
  have hroot := root_not_mem_filterMap (segments way)
  obtain ⟨place, above, below, habove, hbelow, hlength⟩ :=
    Location.exists_shared_of_walk (shared ++ up).reverse hroot
  have hwalk : Location.walk (shared ++ up).reverse ((segments way).filterMap Component.ofSegment?) =
      (shared ++ down).reverse := by
    have hroute := normalize_eq_iff.mp hway.leads
    rw [Route.ofPath_append origin hway.relative] at hroute
    have hends := congrArg (Route.destination []) hroute
    rw [Route.destination_foldl, h.origin_eq, h.target_eq] at hends
    exact hends
  rw [hwalk] at hbelow
  have hup : shared ++ up = place.reverse ++ above.reverse := by
    rw [← List.reverse_append, ← habove, List.reverse_reverse]
  have hdown : shared ++ down = place.reverse ++ below.reverse := by
    rw [← List.reverse_append, ← hbelow, List.reverse_reverse]
  -- the place that the walk shares with both ends is not further down than the last common one
  have hshared : place.length ≤ shared.length := by
    have hprefix := h.longest.longest (.root :: place.reverse.map .name)
      ⟨above.reverse.map .name, by rw [h.components_origin, hup, List.map_append, List.cons_append]⟩
      ⟨below.reverse.map .name, by rw [h.components_target, hdown, List.map_append, List.cons_append]⟩
    simpa using hprefix.length_le
  have hupLength := congrArg List.length hup
  have hdownLength := congrArg List.length hdown
  have hsegments := length_filterMap_segments_le way
  simp only [List.length_append, List.length_reverse] at hupLength hdownLength
  omega

theorem relative_eq_nil_iff : relative origin target = [] ↔ normalize origin = normalize target := by
  constructor
  · intro hnil
    have hlength := h.length_components_relative
    rw [hnil] at hlength
    have hnone : up.length = 0 ∧ down.length = 0 := Nat.add_eq_zero_iff.mp hlength.symm
    rw [normalize_eq_iff, h.origin_eq, h.target_eq, List.eq_nil_of_length_eq_zero hnone.1,
      List.eq_nil_of_length_eq_zero hnone.2]
  · intro hsame
    exact @relative_of_below origin target [] (by simp [hsame])

end Parting

/-- **Shortest ways.** From one absolute path to another the relative path is a way: joined to the one it
leads to the other. It goes up as many levels as the one has below the longest row of components that
both begin with, and then down through names. No way has fewer components, and the relative path is
empty exactly if both paths lead to the same place. -/
theorem shortest_relative_path {origin target : Text} (horigin : isAbsolute origin = true)
    (htarget : isAbsolute target = true) :
    IsWay origin target (relative origin target) ∧
    (∃ (shared : List Component) (down : List Text),
      IsCommonStart shared (components (normalize origin)) (components (normalize target)) ∧
      (∀ n ∈ down, IsName n) ∧
      relative origin target = joinWith "/" (List.replicate
        ((components (normalize origin)).length - shared.length) ['.', '.'] ++ down)) ∧
    (∀ way, IsWay origin target way →
      (components (relative origin target)).length ≤ (components way).length) ∧
    (relative origin target = [] ↔ normalize origin = normalize target) := by
  obtain ⟨shared, up, down, h⟩ := exists_parting horigin htarget
  refine ⟨h.isWay, ⟨_, down, h.longest, fun n => h.isName_down, ?_⟩, fun way hway => ?_,
    h.relative_eq_nil_iff⟩
  · have hlevels : (components (normalize origin)).length -
        (Component.root :: shared.map Component.name).length = up.length := by
      rw [h.components_origin]
      simp
    rw [hlevels, h.relative_eq]
  · rw [h.length_components_relative]
    exact h.length_le hway

/-- Two paths that share one directory below the root, neither in its normal spelling. -/
theorem shortest_relative_path_respelled :
    let origin : Text := "/app/../lib/./src/"
    let target : Text := "/lib/..x//y/."
    let way : Text := "../..x/y"
    isAbsolute origin = true ∧ isAbsolute target = true ∧ relative origin target = way ∧
      normalize (append origin way) = "/lib/..x/y" ∧
      ∀ other, IsWay origin target other → 3 ≤ (components other).length := by
  intro origin target way
  have hrelative : relative origin target = way := by decide +kernel
  have htarget : normalize target = "/lib/..x/y" := by decide +kernel
  have hlength : (components way).length = 3 := by decide
  obtain ⟨hway, -, hshortest, -⟩ := @shortest_relative_path origin target rfl rfl
  rw [hrelative] at hway hshortest
  exact ⟨rfl, rfl, hrelative, hway.leads.trans htarget, fun other hother => hlength ▸ hshortest other hother⟩

end PathAlias
