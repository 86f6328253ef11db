import PathAlias.Proofs.Path.Canonical

/-!
Normal spellings and where paths lead. Walking a path from a directory ends where the route of the
path leads from there, so paths with one route lead to the same places. Two different routes part
company somewhere: far enough below the root, in directories of a name that is on neither of them,
what is left of these directories shows how many levels a route goes up. So the normal spelling of
a path says where it leads, and nothing else.
-/

namespace PathAlias

namespace Route

/-- Where a route leads from a place; above the root there is only the root. -/
def destination (place : Location) : Route → Location
  | .absolute names => names
  | .relative ups names => names ++ place.drop ups

/-! ### Walking along a route -/

theorem destination_follow (place : Location) (route : Route) (component : Component) :
    (route.follow component).destination place = (route.destination place).follow component := by
  match route, component with
  | _, .root => rfl
  | route, .here =>
      rw [follow_here]
      rfl
  | .absolute _, .up | .absolute _, .name _ | .relative _ (_ :: _), .up | .relative _ _, .name _ => rfl
  | .relative ups [], .up => exact List.tail_drop.symm

theorem destination_foldl (place : Location) (route : Route) (row : List Component) :
    (row.foldl follow route).destination place = (route.destination place).walk row := by
  induction row generalizing route with
  | nil => rfl
  | cons component row ih =>
      rw [List.foldl_cons, ih, destination_follow]
      rfl

/-- Walking a path ends where its route leads. -/
theorem walk_components (place : Location) (p : Text) :
    place.walk (PathAlias.components p) = (ofPath p).destination place :=
  (destination_foldl place (.relative 0 []) (PathAlias.components p)).symm

/-! ### Routes that part company -/

/-- How many levels a route goes up from where one stands. -/
def ups (route : Route) : Nat := route.level?.getD 0

/-- Of the directories that a walk starts in, those remain that the route does not go up from. -/
theorem count_destination {route : Route} {n : Text} (hn : n ∉ route.names) (depth : Nat) :
    (route.destination (List.replicate depth n)).count n =
      (route.level?.map (depth - ·)).getD 0 := by
  cases route with
  | absolute names => exact List.count_eq_zero.mpr hn
  | relative ups names =>
      have hnone : names.count n = 0 := List.count_eq_zero.mpr hn
      rw [destination, List.count_append, hnone, Nat.zero_add, List.drop_replicate,
        List.count_replicate_self]
      rfl

/-- What two routes leave of deep enough directories tells whether they start at the same level. -/
theorem level?_eq_of_destination {route other : Route} {n : Text} (hroute : n ∉ route.names)
    (hother : n ∉ other.names) {depth : Nat} (hdeep : route.ups + other.ups < depth)
    (h : route.destination (List.replicate depth n) = other.destination (List.replicate depth n)) :
    route.level? = other.level? := by
  have hcount := congrArg (List.count n) h
  rw [count_destination hroute, count_destination hother] at hcount
  unfold ups at hdeep
  cases hlevel : route.level? <;> cases hlevel' : other.level? <;>
    rw [hlevel, hlevel'] at hcount hdeep <;>
    simp only [Option.map_some, Option.map_none, Option.getD_some, Option.getD_none] at hcount hdeep
  · omega
  · omega
  · exact congrArg some (by omega)

theorem eq_of_destination {route other : Route} {place : Location} (hlevel : route.level? = other.level?)
    (h : route.destination place = other.destination place) : route = other := by
  cases route with
  | absolute names =>
      cases other with
      | absolute names' => exact congrArg absolute h
      | relative ups names' => cases hlevel
  | relative ups names =>
      cases other with
      | absolute names' => cases hlevel
      | relative ups' names' =>
          cases hlevel
          exact congrArg (relative ups) (List.append_cancel_right h)

end Route

theorem exists_fresh_name (names : List Text) : ∃ n, IsName n ∧ n ∉ names := by
  refine ⟨List.replicate (names.flatten.length + 1) 'x', ⟨?_, ?_, ?_, ?_⟩, fun hmem => ?_⟩
  · exact nofun
  · exact fun h => absurd (List.cons.inj h).1 (by decide)
  · exact fun h => absurd (List.cons.inj h).1 (by decide)
  · exact fun h => absurd (List.eq_of_mem_replicate h) (by decide)
  · have hlength := (List.sublist_flatten_of_mem hmem).length_le
    rw [List.length_replicate] at hlength
    exact Nat.not_succ_le_self _ hlength

namespace Route

/-- Routes that lead to the same place from every directory are one route. -/
theorem eq_of_forall_destination {route other : Route}
    (h : ∀ place : Location, (∀ n ∈ place, IsName n) →
      route.destination place = other.destination place) : route = other := by
  obtain ⟨n, hname, hfresh⟩ := exists_fresh_name (route.names ++ other.names)
  rw [List.mem_append, not_or] at hfresh
  have hdeep : route.ups + other.ups < route.ups + other.ups + 1 := Nat.lt_succ_self _
  have hsame := h (List.replicate (route.ups + other.ups + 1) n) fun m hm =>
    List.eq_of_mem_replicate hm ▸ hname
  exact eq_of_destination (level?_eq_of_destination hfresh.1 hfresh.2 hdeep hsame) hsame

end Route

/-! ### Normal paths -/

/-- The path `.`, or a path on which no segment is empty or `.`, and `..` stands only at the start of
a relative one. The root says nothing behind its separator. -/
inductive IsNormal : Text → Prop
  | here : IsNormal "."
  | absolute {p : Text} : IsCanonical p → IsNormal p
  | relative {p : Text} (ups : Nat) (names : List Text) : (∀ n ∈ names, IsName n) →
      segments p = List.replicate ups ['.', '.'] ++ names → IsNormal p

/-- The spelling of a route is normal. -/
theorem Route.isNormal_text {route : Route} (h : ∀ n ∈ route.names, IsName n) : IsNormal route.text := by
  match route with
  | .absolute names => exact .absolute (isCanonical_iff.mpr ⟨names, h, rfl⟩)
  | .relative ups names =>
      by_cases hstays : ups = 0 ∧ names = []
      · obtain ⟨rfl, rfl⟩ := hstays
        exact .here
      · have hnames : ∀ n ∈ names.reverse, IsName n := fun n hn => h n (List.mem_reverse.mp hn)
        have hne : List.replicate ups ['.', '.'] ++ names.reverse ≠ [] := by
          simpa only [ne_eq, List.append_eq_nil_iff, List.replicate_eq_nil_iff,
            List.reverse_eq_nil_iff] using hstays
        rw [Route.text]
        · exact .relative ups names.reverse hnames (segments_joinWith_ups hnames hne)
        · exact fun hups hnil => hstays ⟨hups, hnil⟩

/-- A normal path is the spelling of a route. -/
theorem IsNormal.exists_route {p : Text} (h : IsNormal p) :
    ∃ route : Route, (∀ n ∈ route.names, IsName n) ∧ p = route.text := by
  cases h with
  | here => exact ⟨.relative 0 [], fun n hn => absurd hn List.not_mem_nil, rfl⟩
  | absolute hcanonical =>
      obtain ⟨place, hplace, rfl⟩ := isCanonical_iff.mp hcanonical
      exact ⟨.absolute place, hplace, rfl⟩
  | relative ups names hnames hsegments =>
      refine ⟨.relative ups names.reverse, fun n hn => hnames n (List.mem_reverse.mp hn), ?_⟩
      rw [Route.text, List.reverse_reverse, ← hsegments]
      · exact (joinWith_splitOn '/' p).symm
      · rintro rfl hnil
        rw [List.reverse_eq_nil_iff.mp hnil] at hsegments
        exact splitOn_ne_nil '/' p hsegments

/-- The normal paths are the ones that normalizing leaves as they are. -/
theorem isNormal_iff {p : Text} : IsNormal p ↔ normalize p = p := by
  constructor
  · intro h
    obtain ⟨route, hnames, rfl⟩ := h.exists_route
    rw [normalize, Route.ofPath_text hnames]
  · intro h
    rw [← h]
    exact Route.isNormal_text fun _ => Route.isName_of_mem_ofPath

theorem isNormal_normalize (p : Text) : IsNormal (normalize p) :=
  Route.isNormal_text fun _ => Route.isName_of_mem_ofPath

/-- **Normal spellings.** Two paths have the same normal spelling exactly if walking them from any
absolute directory ends in the same place. A normal spelling is normal, normalizing it again changes
nothing, and it starts at the root exactly if the path does. -/
theorem normal_spelling (p q : Text) :
    (normalize p = normalize q ↔
      ∀ dir : Text, isAbsolute dir = true →
        (Location.walk [] (components dir)).walk (components p) =
          (Location.walk [] (components dir)).walk (components q)) ∧
    normalize (normalize p) = normalize p ∧
    isAbsolute (normalize p) = isAbsolute p ∧
    IsNormal (normalize p) := by
  refine ⟨⟨fun h dir _ => ?_, fun h => ?_⟩, isNormal_iff.mp (isNormal_normalize p), ?_, isNormal_normalize p⟩
  · rw [Route.walk_components _ p, Route.walk_components _ q, normalize_eq_iff.mp h]
  · refine normalize_eq_iff.mpr (Route.eq_of_forall_destination fun place hplace => ?_)
    have hdir : Location.walk [] (components place.text) = place := by
      rw [Route.walk_components, Location.ofPath_text hplace]
      rfl
    have hwalk := h place.text rfl
    rw [hdir, Route.walk_components, Route.walk_components] at hwalk
    exact hwalk
  · rw [Bool.eq_iff_iff]
    exact ⟨isAbsolute_of_normalize, isAbsolute_normalize⟩

end PathAlias
