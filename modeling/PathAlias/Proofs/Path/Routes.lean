import PathAlias.Proofs.Path.Ancestors

/-!
Routes that start in the same way. A route counts from the root or from some level above where one
stands, and then leads down through names. Names and levels up are what the segments of a path add,
so a path below another one goes on where the other ends, and normal spellings tell routes apart.
-/

namespace PathAlias

namespace Route

/-- How many levels up a route starts from where one stands; the root is at no such level. -/
def level? : Route → Option Nat
  | .absolute _ => none
  | .relative ups _ => some ups

/-- The route that starts in the same way and leads down through other names. -/
def onto : Route → List Text → Route
  | .absolute _, names => .absolute names
  | .relative ups _, names => .relative ups names

theorem onto_of_level? {route other : Route} (h : route.level? = other.level?) :
    route.onto other.names = other := by
  cases route <;> cases other <;> cases h <;> rfl

theorem follow_up_onto (route : Route) (n : Text) (names : List Text) :
    (route.onto (n :: names)).follow .up = route.onto names := by
  cases route <;> rfl

theorem follow_name_onto (route : Route) (n : Text) (names : List Text) :
    (route.onto names).follow (.name n) = route.onto (n :: names) := by
  cases route <;> rfl

/-- Going up as many levels as there are names takes these names back. -/
theorem foldl_ups (route : Route) (near rest : List Text) :
    (List.replicate near.length Component.up).foldl follow (route.onto (near ++ rest)) =
      route.onto rest := by
  induction near with
  | nil => rfl
  | cons n near ih =>
      rw [List.length_cons, List.replicate_succ, List.foldl_cons, List.cons_append, follow_up_onto,
        ih]

theorem foldl_names (route : Route) (down names : List Text) :
    (down.map Component.name).foldl follow (route.onto names) =
      route.onto (down.reverse ++ names) := by
  induction down generalizing names with
  | nil => rfl
  | cons n down ih =>
      rw [List.map_cons, List.foldl_cons, follow_name_onto, ih, List.reverse_cons,
        List.append_assoc]
      rfl

theorem foldl_climb (more ups : Nat) :
    (List.replicate more Component.up).foldl follow (.relative ups []) =
      .relative (ups + more) [] := by
  induction more generalizing ups with
  | zero => rfl
  | succ more ih =>
      rw [List.replicate_succ, List.foldl_cons]
      exact (ih (ups + 1)).trans (by rw [Nat.add_right_comm, Nat.add_assoc])

/-- The normal spelling of a route has this route. -/
theorem ofPath_text {route : Route} (h : ∀ n ∈ route.names, IsName n) :
    ofPath route.text = route := by
  have hback : ∀ start names, (List.map Component.name (List.reverse names)).foldl follow
      (onto start []) = start.onto names := by
    intro start names
    rw [foldl_names, List.reverse_reverse, List.append_nil]
  rw [ofPath, components_text h]
  match route with
  | .absolute names => exact hback (.absolute []) names
  | .relative 0 [] => rfl
  | .relative 0 (n :: names) => exact hback (.relative 0 []) (n :: names)
  | .relative (ups + 1) names =>
      have hcomponents : (relative (ups + 1) names).components =
          List.replicate (ups + 1) Component.up ++ names.reverse.map .name := rfl
      rw [hcomponents, List.foldl_append, foldl_climb, Nat.zero_add]
      exact hback (.relative (ups + 1) []) names

/-- The components before the names in the normal spelling of a route. -/
def lead : Route → List Component
  | .absolute _ => [.root]
  | .relative ups _ => List.replicate ups .up

theorem components_eq_lead {route : Route} (h : route ≠ .relative 0 []) :
    route.components = route.lead ++ route.names.reverse.map .name := by
  match route, h with
  | .absolute names, _ => rfl
  | .relative 0 [], h => exact absurd rfl h
  | .relative 0 (n :: names), _ => rfl
  | .relative (ups + 1) names, _ => rfl

theorem lead_congr {route other : Route} (h : route.level? = other.level?) :
    route.lead = other.lead := by
  cases route <;> cases other <;> cases h <;> rfl

/-- What does not lead to the root leads up from the same level or from a higher one. -/
theorem level?_follow (route : Route) {component : Component} (h : component ≠ .root) :
    ∃ more, (route.follow component).level? = route.level?.map (· + more) := by
  match route, component with
  | _, .root => exact absurd rfl h
  | .absolute _, .here | .absolute _, .up | .absolute _, .name _ => exact ⟨0, rfl⟩
  | .relative _ _, .here | .relative _ (_ :: _), .up | .relative _ _, .name _ => exact ⟨0, rfl⟩
  | .relative _ [], .up => exact ⟨1, rfl⟩

theorem level?_foldl (route : Route) {row : List Component} (h : .root ∉ row) :
    ∃ more, (row.foldl follow route).level? = route.level?.map (· + more) := by
  induction row generalizing route with
  | nil => exact ⟨0, by cases route <;> rfl⟩
  | cons component row ih =>
      have hcomponent := List.ne_of_not_mem_cons h
      obtain ⟨first, hfirst⟩ := level?_follow route (Ne.symm hcomponent)
      obtain ⟨later, hlater⟩ := ih (route.follow component) (List.not_mem_of_not_mem_cons h)
      refine ⟨first + later, ?_⟩
      rw [List.foldl_cons, hlater, hfirst, Option.map_map]
      congr 1
      funext ups
      exact Nat.add_assoc ups first later

/-- The route of a path starts at the root or where one stands, and its segments lead on. -/
theorem ofPath_eq (p : Text) :
    ofPath p = ((segments p).filterMap Component.ofSegment?).foldl follow
      (if isAbsolute p then .absolute [] else .relative 0 []) := by
  rw [ofPath, PathAlias.components.eq_def]
  split
  · rfl
  · rename_i hslash
    have habsolute : isAbsolute p = false := by
      cases p with
      | nil => rfl
      | cons c rest =>
          rw [isAbsolute, List.head?_cons, Bool.eq_false_iff]
          intro heq
          exact hslash rest (by rw [Option.some.inj (beq_iff_eq.mp heq)])
    rw [habsolute]
    split
    · rename_i rest hsegments
      rw [hsegments]
      rfl
    · rfl

theorem ofPath_append (dir : Text) {rest : Text} (hrest : isAbsolute rest = false) :
    ofPath (append dir rest) =
      ((segments rest).filterMap Component.ofSegment?).foldl follow (ofPath dir) := by
  by_cases hdir : dir = []
  · subst hdir
    rw [append, if_neg (Bool.eq_false_iff.mp hrest), if_pos (by rfl), List.nil_append, ofPath_eq,
      hrest]
    rfl
  · rw [ofPath, components_append hdir hrest, List.foldl_append]
    rfl

theorem level?_ofPath_eq_none_iff {p : Text} :
    (ofPath p).level? = none ↔ isAbsolute p = true := by
  rw [ofPath_eq]
  cases habsolute : isAbsolute p with
  | true =>
      obtain ⟨more, hmore⟩ := level?_foldl (.absolute []) (root_not_mem_filterMap (segments p))
      exact iff_of_true hmore rfl
  | false =>
      obtain ⟨more, hmore⟩ := level?_foldl (.relative 0 []) (root_not_mem_filterMap (segments p))
      refine iff_of_false (fun hnone => ?_) Bool.false_ne_true
      cases hmore.symm.trans hnone

end Route

/-- A path leads where its normal spelling leads. -/
theorem ofPath_normalize (p : Text) : Route.ofPath (normalize p) = Route.ofPath p :=
  Route.ofPath_text fun _ => Route.isName_of_mem_ofPath

/-- Normal spellings tell routes apart. -/
theorem normalize_eq_iff {p q : Text} :
    normalize p = normalize q ↔ Route.ofPath p = Route.ofPath q := by
  constructor
  · intro h
    rw [← ofPath_normalize p, ← ofPath_normalize q, h]
  · intro h
    rw [normalize, normalize, h]

end PathAlias
