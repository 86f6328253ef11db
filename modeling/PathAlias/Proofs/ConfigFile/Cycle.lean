import Mathlib.Data.Set.Finite.Lattice
import Mathlib.Logic.Relation
import PathAlias.Proofs.ConfigFile.Loading
import PathAlias.Proofs.Place

/-!
Files that extend themselves. A position in what a file extends is the row of numbers to follow
from it, so the traversal visits positions in lexicographic order. Going down a position, the chain
of extending files is the list of their places, innermost first. A position returns if the file it
leads to is on the chain by then. Along a chain no place is repeated, so there are no more places on
it than files in the tree, and this is what the fuel of loading pays for.

A file is the same however its path is spelled, and so files are told apart by their places. But
the packages that it sees may depend on the spelling, since going up a path that does not begin at
the root ends in the directory of the standpoint. What a file extends is therefore followed from
the path by which the file was reached.
-/

namespace PathAlias

namespace ConfigFile

open Relation (ReflTransGen TransGen)

/-- From the file at a path a position leads to something that cannot be read, is malformed or
cannot be located. -/
inductive Fails (disk : Disk Id) : Text → List Nat → Error → Prop
  | unread {path : Text} {e : Error} : readDeclaration disk path = .error e → Fails disk path [] e
  | missing {path : Text} {number : Nat} {e : Error} :
      base? disk path number = some (.error e) → Fails disk path [number] e
  | down {path file : Text} {number : Nat} {rest : List Nat} {e : Error} :
      base? disk path number = some (.ok file) → Fails disk file rest e →
      Fails disk path (number :: rest) e

/-- The file at a path names the file at another one among those that it extends. -/
def Extends (disk : Disk Id) (path file : Text) : Prop :=
  ∃ number, base? disk path number = some (.ok file)

/-- A file can be read and is well-formed, and all that it extends can be located. -/
def Usable (disk : Disk Id) (path : Text) : Prop :=
  ∃ declared, readDeclaration disk path = .ok declared ∧
    ∀ value ∈ declared.bases.getD [],
      ∃ file, locateBase disk (parentOrHere path) value = .ok file

variable {tree : Tree} (here : tree.Standpoint)

/-- From the file at a path, extended by the files at the places of `chain`, a position leads to
the file at a place that is on the chain by then. -/
inductive Returns : List Location → Text → List Nat → Location → Prop
  | here {chain : List Location} {path : Text} {place : Location} :
      here.locate path = .ok place → place ∈ chain → Returns chain path [] place
  | down {chain : List Location} {path file : Text} {above place : Location} {number : Nat}
      {rest : List Nat} : here.locate path = .ok above →
      base? here.disk path number = some (.ok file) → Returns (above :: chain) file rest place →
      Returns chain path (number :: rest) place

/-- A position that a traversal without failures gets to: no file passed on the way is on the
chain already. -/
inductive Visits : List Location → Text → List Nat → Prop
  | start {chain : List Location} {path : Text} : Visits chain path []
  | down {chain : List Location} {path file : Text} {above : Location} {number : Nat}
      {rest : List Nat} : here.locate path = .ok above → above ∉ chain →
      base? here.disk path number = some (.ok file) → Visits (above :: chain) file rest →
      Visits chain path (number :: rest)

/-- A file leads to itself: files that are extended one by the other begin and end at its place. -/
def ExtendsItself (path : Text) (place : Location) : Prop :=
  ∃ again, TransGen (Extends here.disk) path again ∧
    here.locate path = .ok place ∧ here.locate again = .ok place

/-- No file that is reached from a path extends itself. -/
def Acyclic (path : Text) : Prop :=
  ∀ file place, ReflTransGen (Extends here.disk) path file → ¬ ExtendsItself here file place

/-- A position neither returns nor fails. -/
structure Clear (chain : List Location) (path : Text) (position : List Nat) : Prop where
  returns (place : Location) : ¬ Returns here chain path position place
  fails (e : Error) : ¬ Fails here.disk path position e

/-- What is reported at a position. Whether a file is on the chain is looked at before the file is
read. -/
inductive Reports (chain : List Location) (path : Text) (position : List Nat) : Error → Prop
  | cycle {place : Location} : Returns here chain path position place →
      Reports chain path position (.extendsCycle place.text)
  | failure {e : Error} : (∀ place, ¬ Returns here chain path position place) →
      Fails here.disk path position e → Reports chain path position e

/-- A path that is normal or leads somewhere, as those of extended files. -/
def Proper (path : Text) : Prop :=
  (∃ p, path = normalize p) ∨ ∃ place, here.locate path = .ok place

/-- What holds when the file at a path is about to be loaded with some fuel, and the files at the
places of `chain` extend it. -/
structure OnWay (fuel : Nat) (chain : List Location) (path : Text) : Prop where
  nodup : chain.Nodup
  isFile : ∀ place ∈ chain, place ∈ tree.files.map Prod.fst
  leads : ∀ place ∈ chain, tree.Leads place
  room : tree.files.length < fuel + chain.length
  proper : chain ≠ [] → Proper here path

variable {here} {fuel : Nat} {chain : List Location} {path : Text}

theorem identity_of_locate {place : Location} (h : here.locate path = .ok place) :
    identity here.disk path = place.text := by
  have hreal : here.disk.real path = some place.text :=
    congrArg (fun found => (found.map Location.text).toOption) h
  exact congrArg (fun real => Option.getD real path) hreal

theorem identity_of_lost {cause : AccessError} (h : here.locate path = .error cause) :
    identity here.disk path = path := by
  have hreal : here.disk.real path = none :=
    congrArg (fun found => (found.map Location.text).toOption) h
  exact congrArg (fun real => Option.getD real path) hreal

/-- What declares something is one of the files of the tree. -/
theorem file_of_declaration {declared : Declaration}
    (h : readDeclaration here.disk path = .ok declared) :
    ∃ place, here.locate path = .ok place ∧ place ∈ tree.files.map Prod.fst := by
  rw [readDeclaration_eq] at h
  have htext : here.disk.readText path = (here.disk.read path).map Utf8.decode := rfl
  cases hread : here.disk.read path with
  | error cause => rw [htext, hread] at h; cases h
  | ok bytes => exact here.place_of_read hread

theorem file_of_base? {number : Nat} {found : Except Error Text}
    (h : base? here.disk path number = some found) :
    ∃ place, here.locate path = .ok place ∧ place ∈ tree.files.map Prod.fst := by
  obtain ⟨declared, hread, -⟩ := read_of_base? h
  exact file_of_declaration hread

theorem proper_of_base? {number : Nat} {file : Text}
    (h : base? here.disk path number = some (.ok file)) : Proper here file := by
  obtain ⟨declared, -, value, -, hlocate⟩ := read_of_base? h
  rcases locateBase_eq_ok hlocate with hnormal | hfile
  · exact Or.inl hnormal
  · exact Or.inr (here.place_of_isFile hfile)

/-- Places of files that are all different are no more than the files of the tree. -/
theorem length_le_files (hnodup : chain.Nodup)
    (hfile : ∀ place ∈ chain, place ∈ tree.files.map Prod.fst) :
    chain.length ≤ tree.files.length := by
  have hsub : chain ⊆ tree.files.map Prod.fst := hfile
  have hle := (hnodup.subperm hsub).length_le
  rwa [List.length_map] at hle

namespace OnWay

theorem start (hfuel : tree.files.length < fuel) : OnWay here fuel [] path where
  nodup := List.nodup_nil
  isFile := fun _ h => absurd h List.not_mem_nil
  leads := fun _ h => absurd h List.not_mem_nil
  room := hfuel
  proper := fun h => absurd rfl h

/-- The way goes on to a base of a file that is not on the chain. -/
theorem down {place : Location} {number : Nat} {file : Text} (h : OnWay here (fuel + 1) chain path)
    (hplace : here.locate path = .ok place) (hnew : place ∉ chain)
    (hbase : base? here.disk path number = some (.ok file)) :
    OnWay here fuel (place :: chain) file where
  nodup := List.nodup_cons.mpr ⟨hnew, h.nodup⟩
  isFile := by
    obtain ⟨other, hother, hfile⟩ := file_of_base? hbase
    cases hplace.symm.trans hother
    exact List.forall_mem_cons.mpr ⟨hfile, h.isFile⟩
  leads := List.forall_mem_cons.mpr ⟨here.leads_of_locate hplace, h.leads⟩
  room := by
    have hroom := h.room
    simp only [List.length_cons]
    omega
  proper := fun _ => proper_of_base? hbase

theorem fuel_ne_zero (h : OnWay here fuel chain path) : fuel ≠ 0 := by
  have hroom := h.room
  have hle := length_le_files h.nodup h.isFile
  omega

/-- The paths that files are known by tell whether a file is on the chain. -/
theorem any_iff (h : OnWay here fuel chain path) :
    (chain.map Location.text).any (samePath (identity here.disk path)) = true ↔
      ∃ place, here.locate path = .ok place ∧ place ∈ chain := by
  rw [List.any_map, List.any_eq_true]
  cases hplace : here.locate path with
  | ok place =>
      have hleads := here.leads_of_locate hplace
      constructor
      · rintro ⟨other, hother, hsame⟩
        rw [identity_of_locate hplace] at hsame
        have heq := (Tree.Standpoint.samePath_text_iff hleads (h.leads other hother)).mp hsame
        exact ⟨place, rfl, heq ▸ hother⟩
      · rintro ⟨_, hsame, hmem⟩
        cases hsame
        have hself := (Tree.Standpoint.samePath_text_iff hleads hleads).mpr rfl
        refine ⟨place, hmem, ?_⟩
        rw [identity_of_locate hplace]
        exact hself
  | error cause =>
      constructor
      · rintro ⟨other, hother, hsame⟩
        rw [identity_of_lost hplace] at hsame
        have hproper := h.proper (List.ne_nil_of_mem hother)
        rcases hproper with ⟨p, rfl⟩ | ⟨place, hfound⟩
        · have hfound := here.locate_normalize (h.leads other hother) hsame
          cases hplace.symm.trans hfound
        · cases hplace.symm.trans hfound
      · rintro ⟨_, hfound, -⟩
        cases hfound

end OnWay

/-! A step down: what a position holds is what the rest of it holds from the base. -/

section Step

variable {number : Nat} {rest : List Nat} {file : Text} {above : Location}

theorem returns_down_iff (habove : here.locate path = .ok above)
    (hbase : base? here.disk path number = some (.ok file)) {place : Location} :
    Returns here chain path (number :: rest) place ↔
      Returns here (above :: chain) file rest place := by
  constructor
  · intro h
    cases h with
    | down hplace hfile hrest =>
        cases habove.symm.trans hplace
        cases hbase.symm.trans hfile
        exact hrest
  · exact .down habove hbase

theorem fails_down_iff (hbase : base? here.disk path number = some (.ok file)) {e : Error} :
    Fails here.disk path (number :: rest) e ↔ Fails here.disk file rest e := by
  constructor
  · intro h
    cases h with
    | missing hmissing => cases hbase.symm.trans hmissing
    | down hfile hrest =>
        cases hbase.symm.trans hfile
        exact hrest
  · exact .down hbase

theorem clear_down (habove : here.locate path = .ok above)
    (hbase : base? here.disk path number = some (.ok file))
    (h : Clear here (above :: chain) file rest) : Clear here chain path (number :: rest) where
  returns place hplace := h.returns place ((returns_down_iff habove hbase).mp hplace)
  fails e he := h.fails e ((fails_down_iff hbase).mp he)

theorem reports_down (habove : here.locate path = .ok above)
    (hbase : base? here.disk path number = some (.ok file)) {e : Error}
    (h : Reports here (above :: chain) file rest e) :
    Reports here chain path (number :: rest) e := by
  cases h with
  | cycle hplace => exact .cycle ((returns_down_iff habove hbase).mpr hplace)
  | failure hnone he =>
      refine .failure (fun place hplace => hnone place ?_) ((fails_down_iff hbase).mpr he)
      exact (returns_down_iff habove hbase).mp hplace

theorem reports_missing {e : Error} (hbase : base? here.disk path number = some (.error e)) :
    Reports here chain path [number] e := by
  refine .failure (fun place hplace => ?_) (.missing hbase)
  cases hplace with
  | down _ hfile _ => cases hbase.symm.trans hfile

/-- Nothing is at the positions beyond what a file extends. -/
theorem clear_beyond (hbase : base? here.disk path number = none) :
    Clear here chain path (number :: rest) where
  returns place hplace := by
    cases hplace with
    | down _ hfile _ => cases hbase.symm.trans hfile
  fails e he := by
    cases he with
    | missing hmissing => cases hbase.symm.trans hmissing
    | down hfile _ => cases hbase.symm.trans hfile

/-- Nothing is to be reported below a number if the base is located and has nothing to report. -/
theorem clear_of_base (habove : here.locate path = .ok above)
    (h : ∀ found, base? here.disk path number = some found →
      ∃ file, found = .ok file ∧ ∀ below, Clear here (above :: chain) file below) :
    Clear here chain path (number :: rest) := by
  cases hfound : base? here.disk path number with
  | none => exact clear_beyond hfound
  | some found =>
      obtain ⟨file, rfl, hclear⟩ := h found hfound
      exact clear_down habove hfound (hclear rest)

theorem clear_here {declared : Declaration}
    (hnew : ¬ ∃ place, here.locate path = .ok place ∧ place ∈ chain)
    (hread : readDeclaration here.disk path = .ok declared) : Clear here chain path [] where
  returns place hplace := by
    cases hplace with
    | here hlocate hmem => exact hnew ⟨place, hlocate, hmem⟩
  fails e he := by
    cases he with
    | unread hunread => cases hread.symm.trans hunread

end Step

/-! Loading follows the positions in order and stops at the first one with something to report. -/

theorem clear_of_load {config : ConfigFile} (hway : OnWay here fuel chain path)
    (h : loadWithin here.disk fuel (chain.map Location.text) path = Except.ok config)
    (position : List Nat) : Clear here chain path position := by
  induction fuel generalizing chain path config position with
  | zero => exact absurd rfl hway.fuel_ne_zero
  | succ fuel ih =>
      obtain ⟨hchain, declared, bases, hread, -⟩ := loadWithin_eq_ok h
      have hnew := fun hmem => hchain (hway.any_iff.mpr hmem)
      obtain ⟨place, hplace, -⟩ := file_of_declaration hread
      cases position with
      | nil => exact clear_here hnew hread
      | cons number rest =>
          refine clear_of_base hplace fun found hfound => ?_
          obtain ⟨file, base, rfl, hload⟩ := base?_of_ok h hfound
          have hdown := hway.down hplace (fun hmem => hnew ⟨place, hplace, hmem⟩) hfound
          rw [identity_of_locate hplace] at hload
          exact ⟨file, rfl, ih hdown hload⟩

/-- The positions before one that goes down a number are the empty one, those that go down an
earlier number, and those that go down this number to something before the rest. -/
theorem clear_of_lt {number : Nat} {rest : List Nat} (hhere : Clear here chain path [])
    (hearlier : ∀ earlier < number, ∀ below, Clear here chain path (earlier :: below))
    (hsame : ∀ below < rest, Clear here chain path (number :: below)) :
    ∀ before < number :: rest, Clear here chain path before := by
  intro before hlt
  cases before with
  | nil => exact hhere
  | cons earlier below =>
      rcases List.cons_lt_cons_iff.mp hlt with hless | ⟨rfl, hbelow⟩
      · exact hearlier earlier hless below
      · exact hsame below hbelow

theorem reports_of_load {e : Error} (hway : OnWay here fuel chain path)
    (h : loadWithin here.disk fuel (chain.map Location.text) path = Except.error e) :
    ∃ position, Reports here chain path position e ∧
      ∀ before < position, Clear here chain path before := by
  induction fuel generalizing chain path with
  | zero => exact absurd rfl hway.fuel_ne_zero
  | succ fuel ih =>
      rcases loadWithin_eq_error h with ⟨hchain, rfl⟩ | ⟨hchain, hread | ⟨number, hat, hbefore⟩⟩
      · obtain ⟨place, hplace, hmem⟩ := hway.any_iff.mp hchain
        rw [identity_of_locate hplace]
        exact ⟨[], .cycle (.here hplace hmem), fun before hlt => absurd hlt (List.not_lt_nil before)⟩
      · refine ⟨[], .failure (fun place hreturns => ?_) (.unread hread), fun before hlt =>
          absurd hlt (List.not_lt_nil before)⟩
        cases hreturns with
        | here hplace hmem => exact hchain (hway.any_iff.mpr ⟨place, hplace, hmem⟩)
      · obtain ⟨found, hfound⟩ : ∃ found, base? here.disk path number = some found := by
          rcases hat with hmissing | ⟨file, hfile, -⟩
          · exact ⟨_, hmissing⟩
          · exact ⟨_, hfile⟩
        obtain ⟨declared, hread, -⟩ := read_of_base? hfound
        obtain ⟨place, hplace, -⟩ := file_of_declaration hread
        have hnew : place ∉ chain := fun hmem => hchain (hway.any_iff.mpr ⟨place, hplace, hmem⟩)
        rw [identity_of_locate hplace] at hat hbefore
        have hhere : Clear here chain path [] :=
          clear_here (fun hmem => hchain (hway.any_iff.mpr hmem)) hread
        have hearlier : ∀ earlier < number, ∀ below, Clear here chain path (earlier :: below) := by
          intro earlier hlt below
          refine clear_of_base hplace fun found hfound => ?_
          obtain ⟨file, base, rfl, hload⟩ := hbefore earlier hlt found hfound
          exact ⟨file, rfl, clear_of_load (hway.down hplace hnew hfound) hload⟩
        rcases hat with hmissing | ⟨file, hfile, hload⟩
        · exact ⟨[number], reports_missing hmissing, clear_of_lt hhere hearlier fun below hlt =>
            absurd hlt (List.not_lt_nil below)⟩
        · obtain ⟨position, hreports, hclear⟩ := ih (hway.down hplace hnew hfile) hload
          exact ⟨number :: position, reports_down hplace hfile hreports,
            clear_of_lt hhere hearlier fun below hlt =>
              clear_down hplace hfile (hclear below hlt)⟩

/-- Beyond what the files of the tree can use up fuel makes no difference. -/
theorem loadWithin_eq {other : Nat} (hway : OnWay here fuel chain path)
    (hother : OnWay here other chain path) :
    loadWithin here.disk fuel (chain.map Location.text) path =
      loadWithin here.disk other (chain.map Location.text) path := by
  induction fuel generalizing other chain path with
  | zero => exact absurd rfl hway.fuel_ne_zero
  | succ fuel ih =>
      cases other with
      | zero => exact absurd rfl hother.fuel_ne_zero
      | succ other =>
          by_cases hmem : ∃ place, here.locate path = .ok place ∧ place ∈ chain
          · have hchain := hway.any_iff.mpr hmem
            rw [loadWithin_of_chain hchain, loadWithin_of_chain hchain]
          · refine loadWithin_congr fun number file hbase => ?_
            obtain ⟨place, hplace, -⟩ := file_of_base? hbase
            have hnew : place ∉ chain := fun h => hmem ⟨place, hplace, h⟩
            rw [identity_of_locate hplace]
            exact ih (hway.down hplace hnew hbase) (hother.down hplace hnew hbase)

/-- A traversal gets no deeper than there are files. -/
theorem Visits.length_le {position : List Nat} (h : Visits here chain path position)
    (hnodup : chain.Nodup) (hfile : ∀ place ∈ chain, place ∈ tree.files.map Prod.fst) :
    position.length + chain.length ≤ tree.files.length := by
  induction h with
  | start =>
      have hle := length_le_files hnodup hfile
      simpa using hle
  | down hplace hnew hbase _ ih =>
      obtain ⟨other, hother, hmem⟩ := file_of_base? hbase
      cases hplace.symm.trans hother
      have hcons := List.nodup_cons.mpr ⟨hnew, hnodup⟩
      have hle := ih hcons (List.forall_mem_cons.mpr ⟨hmem, hfile⟩)
      simp only [List.length_cons] at hle ⊢
      omega

theorem lt_of_base? {declared : Declaration} {number : Nat} {found : Except Error Text}
    (hread : readDeclaration here.disk path = .ok declared)
    (h : base? here.disk path number = some found) : number < (declared.bases.getD []).length := by
  rw [base?_of_read hread, Option.map_eq_some_iff] at h
  obtain ⟨value, hvalue, -⟩ := h
  exact (List.getElem?_eq_some_iff.mp hvalue).1

/-- There are finitely many positions to a depth, as each file extends finitely many. -/
theorem finite_visits (depth : Nat) (chain : List Location) (path : Text) :
    {position | Visits here chain path position ∧ position.length ≤ depth}.Finite := by
  induction depth generalizing chain path with
  | zero =>
      refine (Set.finite_singleton []).subset fun position h => ?_
      exact List.length_eq_zero_iff.mp (Nat.le_zero.mp h.2)
  | succ depth ih =>
      cases hread : readDeclaration here.disk path with
      | error e =>
          refine (Set.finite_singleton []).subset fun position h => ?_
          cases h.1 with
          | start => rfl
          | down _ _ hbase _ =>
              obtain ⟨declared, hdeclared, -⟩ := read_of_base? hbase
              cases hread.symm.trans hdeclared
      | ok declared =>
          obtain ⟨above, habove, -⟩ := file_of_declaration hread
          -- Below one number there are the positions of one base, if it can be located.
          have hbelow : ∀ number, {position | ∃ file rest, position = number :: rest ∧
              base? here.disk path number = some (.ok file) ∧
              Visits here (above :: chain) file rest ∧ rest.length ≤ depth}.Finite := by
            intro number
            by_cases hbase : ∃ file, base? here.disk path number = some (.ok file)
            · obtain ⟨file, hfile⟩ := hbase
              refine ((ih (above :: chain) file).image (number :: ·)).subset ?_
              rintro _ ⟨_, rest, rfl, hsame, hvisits, hlength⟩
              cases hfile.symm.trans hsame
              exact ⟨rest, ⟨hvisits, hlength⟩, rfl⟩
            · refine Set.finite_empty.subset ?_
              rintro _ ⟨file, _, -, hfile, -⟩
              exact hbase ⟨file, hfile⟩
          refine ((Set.finite_singleton []).union ((Set.finite_lt_nat
            (declared.bases.getD []).length).biUnion fun number _ => hbelow number)).subset ?_
          rintro position ⟨hvisits, hlength⟩
          cases hvisits with
          | start => exact Or.inl rfl
          | down hplace _ hbase hrest =>
              cases habove.symm.trans hplace
              refine Or.inr (Set.mem_biUnion (lt_of_base? hread hbase) ?_)
              exact ⟨_, _, rfl, hbase, hrest, Nat.le_of_succ_le_succ hlength⟩

/-! From positions to what is reached, and back. -/

theorem fails_ne_cycle {position : List Nat} {e : Error} (h : Fails here.disk path position e)
    (known : Text) : e ≠ .extendsCycle known := by
  induction h with
  | unread hread =>
      rintro rfl
      exact readDeclaration_ne_cycle hread
  | missing hbase =>
      rintro rfl
      obtain ⟨declared, -, value, -, hlocate⟩ := read_of_base? hbase
      exact locateBase_ne_cycle hlocate
  | down _ _ ih => exact ih

theorem exists_fails_of_reach {file : Text} {position : List Nat} {e : Error}
    (hreach : ReflTransGen (Extends here.disk) path file) (h : Fails here.disk file position e) :
    ∃ position, Fails here.disk path position e := by
  induction hreach using ReflTransGen.head_induction_on with
  | refl => exact ⟨position, h⟩
  | head hextends _ ih =>
      obtain ⟨number, hbase⟩ := hextends
      obtain ⟨rest, hrest⟩ := ih
      exact ⟨number :: rest, .down hbase hrest⟩

/-- A file that fails is not usable. -/
theorem exists_unusable_of_fails {position : List Nat} {e : Error}
    (h : Fails here.disk path position e) :
    ∃ file, ReflTransGen (Extends here.disk) path file ∧ ¬ Usable here.disk file := by
  induction h with
  | unread hread =>
      refine ⟨_, .refl, ?_⟩
      rintro ⟨declared, hdeclared, -⟩
      cases hread.symm.trans hdeclared
  | missing hbase =>
      refine ⟨_, .refl, ?_⟩
      rintro ⟨declared, hdeclared, hall⟩
      obtain ⟨other, hother, value, hvalue, hlocate⟩ := read_of_base? hbase
      cases hdeclared.symm.trans hother
      obtain ⟨file, hfile⟩ := hall value hvalue
      cases hlocate.symm.trans hfile
  | down hbase _ ih =>
      obtain ⟨file, hreach, hfile⟩ := ih
      exact ⟨file, .head ⟨_, hbase⟩ hreach, hfile⟩

theorem usable_of_clear (h : ∀ position e, ¬ Fails here.disk path position e) :
    Usable here.disk path := by
  cases hread : readDeclaration here.disk path with
  | error e => exact absurd (.unread hread) (h [] e)
  | ok declared =>
      refine ⟨declared, hread, fun value hvalue => ?_⟩
      obtain ⟨number, hnumber⟩ := List.getElem?_of_mem hvalue
      cases hlocate : locateBase here.disk (parentOrHere path) value with
      | ok file => exact ⟨file, rfl⟩
      | error e =>
          have hbase : base? here.disk path number = some (.error e) := by
            simp only [base?_of_read hread, hnumber, Option.map_some, hlocate]
          exact absurd (.missing hbase) (h [number] e)

theorem Returns.mono {longer : List Location} {position : List Nat} {place : Location}
    (h : Returns here chain path position place) (hsub : chain ⊆ longer) :
    Returns here longer path position place := by
  induction h generalizing longer with
  | here hplace hmem => exact .here hplace (hsub hmem)
  | down hplace hbase _ ih => exact .down hplace hbase (ih (List.cons_subset_cons _ hsub))

/-- A place on the chain that is reached again is returned to. -/
theorem exists_returns_of_mem {file : Text} {place : Location}
    (hreach : ReflTransGen (Extends here.disk) path file) (hplace : here.locate file = .ok place)
    (hmem : place ∈ chain) : ∃ position, Returns here chain path position place := by
  induction hreach using ReflTransGen.head_induction_on generalizing chain with
  | refl => exact ⟨[], .here hplace hmem⟩
  | head hextends _ ih =>
      obtain ⟨number, hbase⟩ := hextends
      obtain ⟨above, habove, -⟩ := file_of_base? hbase
      obtain ⟨rest, hrest⟩ := ih (List.mem_cons_of_mem above hmem)
      exact ⟨number :: rest, .down habove hbase hrest⟩

theorem exists_returns_of_reach {file : Text} {place : Location}
    (hreach : ReflTransGen (Extends here.disk) path file)
    (h : ∃ position, Returns here [] file position place) :
    ∃ position, Returns here chain path position place := by
  induction hreach using ReflTransGen.head_induction_on generalizing chain with
  | refl =>
      obtain ⟨position, hreturns⟩ := h
      exact ⟨position, hreturns.mono (List.nil_subset chain)⟩
  | head hextends _ ih =>
      obtain ⟨number, hbase⟩ := hextends
      obtain ⟨above, habove, -⟩ := file_of_base? hbase
      obtain ⟨rest, hrest⟩ : ∃ rest, Returns here (above :: chain) _ rest place := ih
      exact ⟨number :: rest, .down habove hbase hrest⟩

/-- A file that extends itself is returned to from itself. -/
theorem ExtendsItself.exists_returns {place : Location} (h : ExtendsItself here path place) :
    ∃ position, Returns here [] path position place := by
  obtain ⟨again, hagain, hplace, hsame⟩ := h
  obtain ⟨file, ⟨number, hbase⟩, hreach⟩ := TransGen.head'_iff.mp hagain
  obtain ⟨rest, hrest⟩ := exists_returns_of_mem hreach hsame (List.mem_singleton_self place)
  exact ⟨number :: rest, .down hplace hbase hrest⟩

/-- What is returned to has been on the chain from the start or extends itself. -/
theorem Returns.extendsItself {position : List Nat} {place : Location}
    (h : Returns here chain path position place) :
    (∃ again, ReflTransGen (Extends here.disk) path again ∧ here.locate again = .ok place ∧
        place ∈ chain) ∨
      ∃ file, ReflTransGen (Extends here.disk) path file ∧ ExtendsItself here file place := by
  induction h with
  | here hplace hmem => exact Or.inl ⟨_, .refl, hplace, hmem⟩
  | down habove hbase _ ih =>
      have hextends : Extends here.disk _ _ := ⟨_, hbase⟩
      rcases ih with ⟨again, hreach, hplace, hmem⟩ | ⟨file, hreach, hitself⟩
      · rcases List.mem_cons.mp hmem with rfl | hmem
        · have hagain := TransGen.head' hextends hreach
          exact Or.inr ⟨_, .refl, again, hagain, habove, hplace⟩
        · exact Or.inl ⟨again, .head hextends hreach, hplace, hmem⟩
      · exact Or.inr ⟨file, .head hextends hreach, hitself⟩

theorem exists_extendsItself {position : List Nat} {place : Location}
    (h : Returns here [] path position place) :
    ∃ file, ReflTransGen (Extends here.disk) path file ∧ ExtendsItself here file place := by
  rcases h.extendsItself with ⟨_, _, _, hmem⟩ | hitself
  · cases hmem
  · exact hitself

theorem acyclic_iff : Acyclic here path ↔ ∀ position place, ¬ Returns here [] path position place := by
  constructor
  · intro h position place hreturns
    obtain ⟨file, hreach, hitself⟩ := exists_extendsItself hreturns
    exact h file place hreach hitself
  · intro h file place hreach hitself
    obtain ⟨position, hreturns⟩ := exists_returns_of_reach hreach hitself.exists_returns
    exact h position place hreturns

theorem onWay_load : OnWay here (here.disk.fileLimit + 1) [] path := .start (Nat.lt_succ_self _)

/-- A cycle is reported exactly if the traversal returns before it fails. -/
theorem load_eq_cycle_iff :
    (∃ known, load here.disk path = Except.error (.extendsCycle known)) ↔
      ∃ position place, Returns here [] path position place ∧
        ∀ before < position, ∀ e, ¬ Fails here.disk path before e := by
  constructor
  · rintro ⟨known, h⟩
    obtain ⟨position, hreports, hclear⟩ := reports_of_load onWay_load h
    cases hreports with
    | cycle hreturns =>
        exact ⟨position, _, hreturns, fun before hlt => (hclear before hlt).fails⟩
    | failure _ hfails => exact absurd rfl (fails_ne_cycle hfails known)
  · rintro ⟨position, place, hreturns, hbefore⟩
    match h : load here.disk path with
    | .ok config =>
        have hclear := clear_of_load onWay_load h position
        exact absurd hreturns (hclear.returns place)
    | .error e =>
        obtain ⟨found, hreports, hclear⟩ := reports_of_load onWay_load h
        cases hreports with
        | cycle _ => exact ⟨_, rfl⟩
        | failure hnone hfails =>
            -- The failure is neither before the position nor at it nor after it.
            rcases Decidable.em (found < position) with hlt | hge
            · exact absurd hfails (hbefore found hlt e)
            · have hle := List.not_lt.mp hge
              rcases List.le_iff_lt_or_eq.mp hle with hlt | rfl
              · exact absurd hreturns ((hclear position hlt).returns place)
              · exact absurd hreturns (hnone place)

theorem load_eq_ok_iff :
    (∃ config, load here.disk path = Except.ok config) ↔
      (∀ file, ReflTransGen (Extends here.disk) path file → Usable here.disk file) ∧
        Acyclic here path := by
  constructor
  · rintro ⟨config, h⟩
    have hclear := clear_of_load onWay_load h
    constructor
    · intro file hreach
      apply usable_of_clear
      intro position e hfails
      obtain ⟨below, hbelow⟩ := exists_fails_of_reach hreach hfails
      exact (hclear below).fails e hbelow
    · apply acyclic_iff.mpr
      intro position place hreturns
      exact (hclear position).returns place hreturns
  · rintro ⟨husable, hacyclic⟩
    match h : load here.disk path with
    | .ok config => exact ⟨config, rfl⟩
    | .error e =>
        obtain ⟨position, hreports, -⟩ := reports_of_load onWay_load h
        cases hreports with
        | cycle hreturns => exact absurd hreturns (acyclic_iff.mp hacyclic position _)
        | failure _ hfails =>
            obtain ⟨file, hreach, hunusable⟩ := exists_unusable_of_fails hfails
            exact absurd (husable file hreach) hunusable

/-- **How loading ends.** Whatever a finite tree holds and whatever its files extend, the
traversal gets to finitely many positions, and the result is the same with any fuel that exceeds
the number of files. A cycle is reported exactly if the traversal comes to a file on the chain of
the files that extend it before anything fails, and the reported file does extend itself, so that
one that is only reached along several branches is never reported. Loading succeeds exactly if all
that is reached is usable and nothing that is reached extends itself. -/
theorem load_outcome {tree : Tree} (here : tree.Standpoint) (path : Text) :
    ({position | Visits here [] path position}.Finite ∧
      (∀ position, Visits here [] path position → position.length ≤ tree.files.length) ∧
      ∀ fuel, tree.files.length < fuel →
        loadWithin here.disk fuel [] path = load here.disk path) ∧
    ((∃ known, load here.disk path = Except.error (.extendsCycle known)) ↔
      ∃ position place, Returns here [] path position place ∧
        ∀ before < position, ∀ e, ¬ Fails here.disk path before e) ∧
    (∀ known, load here.disk path = Except.error (.extendsCycle known) →
      ∃ file place, known = place.text ∧ ReflTransGen (Extends here.disk) path file ∧
        ExtendsItself here file place) ∧
    ((∃ config, load here.disk path = Except.ok config) ↔
      (∀ file, ReflTransGen (Extends here.disk) path file → Usable here.disk file) ∧
        Acyclic here path) := by
  have hdeep : ∀ position, Visits here [] path position →
      position.length ≤ tree.files.length := fun position h =>
    h.length_le List.nodup_nil fun place hmem => absurd hmem List.not_mem_nil
  refine ⟨⟨?_, hdeep, fun fuel hfuel => ?_⟩, load_eq_cycle_iff, fun known h => ?_, load_eq_ok_iff⟩
  · exact (finite_visits tree.files.length [] path).subset fun position h => ⟨h, hdeep position h⟩
  · exact loadWithin_eq (.start hfuel) onWay_load
  · obtain ⟨position, hreports, -⟩ := reports_of_load onWay_load h
    cases hreports with
    | cycle hreturns =>
        obtain ⟨file, hreach, hitself⟩ := exists_extendsItself hreturns
        exact ⟨file, _, rfl, hreach, hitself⟩
    | failure _ hfails => exact absurd rfl (fails_ne_cycle hfails known)

/-- A file that names itself by a detour extends itself. -/
example :
    let bytes := "[\"./lib/../app\", null]".toList.map fun c => UInt8.ofNat c.toNat
    let tree : Tree := { files := [(["app.json"], bytes)], directories := [["lib"]] }
    (match load (tree.disk []) "/app.json" with
      | .ok _ => none
      | .error e => some e) = some (.extendsCycle "/app.json") := by
  decide +kernel

end ConfigFile

end PathAlias
