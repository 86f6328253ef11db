import PathAlias.ConfigFile.Inheritance
import PathAlias.Proofs.Disk
import PathAlias.Proofs.Sequence

/-!
One step of loading a configuration file from a disk without effects. Either the file is on the
chain already, or it cannot be read, or its bases are located and loaded one after the other, and
the first of them for which this fails decides. What a file extends is numbered from the left.
-/

namespace PathAlias

namespace ConfigFile

section Access

variable {disk : Disk Id} {path : Text}

theorem readDeclaration_eq (disk : Disk Id) (path : Text) :
    readDeclaration disk path =
      match disk.readText path with
      | .ok source => Declaration.parse path source
      | .error cause => .error (.configRead path cause) := by
  rw [readDeclaration]
  cases disk.readText path <;> rfl

theorem readDeclaration_eq_error {e : Error} (h : readDeclaration disk path = .error e) :
    (∃ cause, e = .configRead path cause) ∨ e = .configParse path := by
  rw [readDeclaration_eq] at h
  cases hread : disk.readText path with
  | error cause =>
      rw [hread] at h
      cases h
      exact Or.inl ⟨cause, rfl⟩
  | ok source =>
      rw [hread] at h
      simp only [Declaration.parse] at h
      split at h
      · cases h
      · cases h
        exact Or.inr rfl

/-- Reading a file never finds that it extends itself. -/
theorem readDeclaration_ne_cycle {known : Text} :
    readDeclaration disk path ≠ .error (.extendsCycle known) := by
  intro h
  obtain ⟨cause, hcause⟩ | hparse := readDeclaration_eq_error h
  · cases hcause
  · cases hparse

theorem isFile_of_firstFile {dir base : Text} {names : List Text}
    (h : disk.firstFile dir names = some base) : disk.isFile base = true := by
  rw [Disk.firstFile_eq, Option.map_eq_some_iff] at h
  obtain ⟨name, hname, rfl⟩ := h
  have hfile := List.find?_some hname
  exact hfile

theorem isFile_of_inPackages {value dir base : Text}
    (h : inPackages disk value dir = some base) : disk.isFile base = true := by
  change (if (disk.isFile (append (packagesIn dir) value)).run then
      some (append (packagesIn dir) value)
    else if (disk.isFile (append (packagesIn dir) (withExtension value))).run then
      some (append (packagesIn dir) (withExtension value))
    else if (disk.isDirectory (append (packagesIn dir) value)).run then
      disk.firstFile (append (packagesIn dir) value) ["tsconfig.json"]
    else none) = some base at h
  split_ifs at h with hexact hnamed hdir
  · cases h
    exact hexact
  · cases h
    exact hnamed
  · exact isFile_of_firstFile h

theorem locateBase_of_package {dir value : Text} (hvalue : ¬ isPathLike value = true) :
    locateBase disk dir value =
      match (ancestors dir).findSome? (fun above => (inPackages disk value above).run) with
      | some base => .ok base
      | none => .error (.configRead (append (packagesIn dir) value) .extendedNotFound) := by
  rw [locateBase, if_neg hvalue, ← Disk.walkUp_eq]
  cases walkUp dir (inPackages disk value) <;> rfl

/-- What a value names is a normal path, or a file of a package, or nothing. -/
theorem locateBase_cases (disk : Disk Id) (dir value : Text) :
    (∃ p, locateBase disk dir value = .ok (normalize p)) ∨
      (∃ file, locateBase disk dir value = .ok file ∧ disk.isFile file = true) ∨
      locateBase disk dir value =
        .error (.configRead (append (packagesIn dir) value) .extendedNotFound) := by
  by_cases hvalue : isPathLike value = true
  · left
    rw [locateBase, if_pos hvalue]
    exact ⟨_, rfl⟩
  · right
    rw [locateBase_of_package hvalue]
    cases hfound : (ancestors dir).findSome? (fun above => (inPackages disk value above).run) with
    | none => exact Or.inr rfl
    | some file =>
        obtain ⟨above, -, hpackage⟩ := List.exists_of_findSome?_eq_some hfound
        exact Or.inl ⟨file, rfl, isFile_of_inPackages hpackage⟩

theorem locateBase_eq_ok {dir value base : Text} (h : locateBase disk dir value = .ok base) :
    (∃ p, base = normalize p) ∨ disk.isFile base = true := by
  rcases locateBase_cases disk dir value with ⟨p, hp⟩ | ⟨file, hfile, hisFile⟩ | hnone
  · exact Or.inl ⟨p, Except.ok.inj (h.symm.trans hp)⟩
  · cases h.symm.trans hfile
    exact Or.inr hisFile
  · cases h.symm.trans hnone

theorem locateBase_eq_error {dir value : Text} {e : Error} (h : locateBase disk dir value = .error e) :
    e = .configRead (append (packagesIn dir) value) .extendedNotFound := by
  rcases locateBase_cases disk dir value with ⟨p, hp⟩ | ⟨file, hfile, -⟩ | hnone
  · cases h.symm.trans hp
  · cases h.symm.trans hfile
  · exact Except.error.inj (h.symm.trans hnone)

theorem locateBase_ne_cycle {dir value known : Text} :
    locateBase disk dir value ≠ .error (.extendsCycle known) := by
  intro h
  cases locateBase_eq_error h

end Access

variable (disk : Disk Id)

/-- The file that the value with this number in the file at `path` names, or why it names none. -/
def base? (path : Text) (number : Nat) : Option (Except Error Text) :=
  match readDeclaration disk path with
  | .ok declared => (declared.bases.getD [])[number]?.map (locateBase disk (parentOrHere path))
  | .error _ => none

/-- Locates and loads what the file at `path` extends by `value`. -/
def loadBase (fuel : Nat) (chain : List Text) (path value : Text) : ExceptT Error Id ConfigFile := do
  let base ← ExceptT.mk (locateBase disk (parentOrHere path) value)
  loadWithin disk fuel (identity disk path :: chain) base

variable {disk} {fuel : Nat} {chain : List Text} {path : Text}

theorem base?_of_read {declared : Declaration} (hread : readDeclaration disk path = .ok declared)
    (number : Nat) :
    base? disk path number =
      (declared.bases.getD [])[number]?.map (locateBase disk (parentOrHere path)) := by
  rw [base?, hread]

theorem read_of_base? {number : Nat} {found : Except Error Text}
    (h : base? disk path number = some found) :
    ∃ declared, readDeclaration disk path = .ok declared ∧
      ∃ value ∈ declared.bases.getD [], locateBase disk (parentOrHere path) value = found := by
  cases hread : readDeclaration disk path with
  | error e => simp [base?, hread] at h
  | ok declared =>
      rw [base?_of_read hread, Option.map_eq_some_iff] at h
      obtain ⟨value, hvalue, hfound⟩ := h
      exact ⟨declared, rfl, value, List.mem_of_getElem? hvalue, hfound⟩

theorem loadBase_of_located {value base : Text}
    (h : locateBase disk (parentOrHere path) value = .ok base) :
    loadBase disk fuel chain path value =
      loadWithin disk fuel (identity disk path :: chain) base :=
  bind_ok h

theorem loadBase_of_missing {value : Text} {e : Error}
    (h : locateBase disk (parentOrHere path) value = .error e) :
    loadBase disk fuel chain path value = Except.error e :=
  bind_error h

theorem loadWithin_of_chain (hchain : chain.any (samePath (identity disk path)) = true) :
    loadWithin disk (fuel + 1) chain path =
      Except.error (.extendsCycle (identity disk path)) := by
  rw [loadWithin]
  refine (bind_ok rfl).trans ?_
  rw [if_pos hchain]
  rfl

theorem loadWithin_of_unread {e : Error}
    (hchain : ¬ chain.any (samePath (identity disk path)) = true)
    (hread : readDeclaration disk path = .error e) :
    loadWithin disk (fuel + 1) chain path = Except.error e := by
  rw [loadWithin]
  refine (bind_ok rfl).trans ?_
  rw [if_neg hchain]
  exact bind_error hread

theorem loadWithin_of_read {declared : Declaration}
    (hchain : ¬ chain.any (samePath (identity disk path)) = true)
    (hread : readDeclaration disk path = .ok declared) :
    loadWithin disk (fuel + 1) chain path = do
      let bases ← (declared.bases.getD []).mapM (loadBase disk fuel chain path)
      return inheritAll { path, baseUrl := declared.baseUrl, paths := declared.paths } bases := by
  rw [loadWithin]
  refine (bind_ok rfl).trans ?_
  rw [if_neg hchain]
  exact bind_ok hread

/-- A value that a file extends by has been located and loaded. -/
theorem loadBase_eq_ok {value : Text} {config : ConfigFile}
    (h : loadBase disk fuel chain path value = Except.ok config) :
    ∃ base, locateBase disk (parentOrHere path) value = .ok base ∧
      loadWithin disk fuel (identity disk path :: chain) base = Except.ok config := by
  cases hlocate : locateBase disk (parentOrHere path) value with
  | error e => cases (loadBase_of_missing hlocate).symm.trans h
  | ok base => exact ⟨base, rfl, (loadBase_of_located hlocate).symm.trans h⟩

theorem loadBase_eq_error {value : Text} {e : Error}
    (h : loadBase disk fuel chain path value = Except.error e) :
    locateBase disk (parentOrHere path) value = .error e ∨
      ∃ base, locateBase disk (parentOrHere path) value = .ok base ∧
        loadWithin disk fuel (identity disk path :: chain) base = Except.error e := by
  cases hlocate : locateBase disk (parentOrHere path) value with
  | error cause =>
      cases (loadBase_of_missing hlocate).symm.trans h
      exact Or.inl rfl
  | ok base => exact Or.inr ⟨base, rfl, (loadBase_of_located hlocate).symm.trans h⟩

/-- What is known of a file that has been loaded. -/
theorem loadWithin_eq_ok {config : ConfigFile}
    (h : loadWithin disk (fuel + 1) chain path = Except.ok config) :
    ¬ chain.any (samePath (identity disk path)) = true ∧
      ∃ declared bases, readDeclaration disk path = .ok declared ∧
        List.Forall₂
          (fun value base => loadBase disk fuel chain path value = Except.ok base)
          (declared.bases.getD []) bases ∧
        config =
          inheritAll { path, baseUrl := declared.baseUrl, paths := declared.paths } bases := by
  by_cases hchain : chain.any (samePath (identity disk path)) = true
  · cases (loadWithin_of_chain hchain).symm.trans h
  refine ⟨hchain, ?_⟩
  cases hread : readDeclaration disk path with
  | error e => cases (loadWithin_of_unread hchain hread).symm.trans h
  | ok declared =>
      replace h := (loadWithin_of_read hchain hread).symm.trans h
      obtain ⟨bases, hbases, h⟩ := bind_eq_ok h
      cases h
      exact ⟨declared, bases, rfl, mapM_eq_ok hbases, rfl⟩

/-- All that a loaded file extends has been located and loaded. -/
theorem base?_of_ok {config : ConfigFile}
    (h : loadWithin disk (fuel + 1) chain path = Except.ok config) {number : Nat}
    {found : Except Error Text} (hfound : base? disk path number = some found) :
    ∃ file base, found = .ok file ∧
      loadWithin disk fuel (identity disk path :: chain) file = Except.ok base := by
  obtain ⟨-, declared, bases, hread, hbases, -⟩ := loadWithin_eq_ok h
  rw [base?_of_read hread, Option.map_eq_some_iff] at hfound
  obtain ⟨value, hvalue, rfl⟩ := hfound
  obtain ⟨hlength, hall⟩ := List.forall₂_iff_get.mp hbases
  obtain ⟨hlt, rfl⟩ := List.getElem?_eq_some_iff.mp hvalue
  obtain ⟨file, hfile, hload⟩ := loadBase_eq_ok (hall number hlt (hlength ▸ hlt))
  exact ⟨file, _, hfile, hload⟩

/-- Why a file has not been loaded: it is on the chain, it cannot be read, or there is a first base
that cannot be located or loaded. -/
theorem loadWithin_eq_error {e : Error}
    (h : loadWithin disk (fuel + 1) chain path = Except.error e) :
    (chain.any (samePath (identity disk path)) = true ∧ e = .extendsCycle (identity disk path)) ∨
      ¬ chain.any (samePath (identity disk path)) = true ∧
        (readDeclaration disk path = .error e ∨
          ∃ number,
            (base? disk path number = some (.error e) ∨
              ∃ file, base? disk path number = some (.ok file) ∧
                loadWithin disk fuel (identity disk path :: chain) file = Except.error e) ∧
            ∀ earlier < number, ∀ found, base? disk path earlier = some found →
              ∃ file base, found = .ok file ∧
                loadWithin disk fuel (identity disk path :: chain) file = Except.ok base) := by
  by_cases hchain : chain.any (samePath (identity disk path)) = true
  · cases (loadWithin_of_chain hchain).symm.trans h
    exact Or.inl ⟨hchain, rfl⟩
  refine Or.inr ⟨hchain, ?_⟩
  cases hread : readDeclaration disk path with
  | error cause =>
      cases (loadWithin_of_unread hchain hread).symm.trans h
      exact Or.inl rfl
  | ok declared =>
      replace h := (loadWithin_of_read hchain hread).symm.trans h
      cases hbases : (declared.bases.getD []).mapM (loadBase disk fuel chain path) with
      | ok bases => cases (bind_ok hbases).symm.trans h
      | error cause =>
          cases (bind_error hbases).symm.trans h
          obtain ⟨number, value, hvalue, hfails, hearlier⟩ := mapM_eq_error hbases
          refine Or.inr ⟨number, ?_, fun earlier hlt found hfound => ?_⟩
          · rw [base?_of_read hread, hvalue, Option.map_some]
            rcases loadBase_eq_error hfails with hmissing | ⟨file, hfile, hload⟩
            · exact Or.inl (congrArg some hmissing)
            · exact Or.inr ⟨file, congrArg some hfile, hload⟩
          · rw [base?_of_read hread, Option.map_eq_some_iff] at hfound
            obtain ⟨other, hother, rfl⟩ := hfound
            obtain ⟨base, hbase⟩ := hearlier earlier hlt other hother
            obtain ⟨file, hfile, hload⟩ := loadBase_eq_ok hbase
            exact ⟨file, base, hfile, hload⟩

/-- Fuel makes no difference to a file if it makes none to its bases. -/
theorem loadWithin_congr {other : Nat}
    (h : ∀ number file, base? disk path number = some (.ok file) →
      loadWithin disk fuel (identity disk path :: chain) file =
        loadWithin disk other (identity disk path :: chain) file) :
    loadWithin disk (fuel + 1) chain path = loadWithin disk (other + 1) chain path := by
  by_cases hchain : chain.any (samePath (identity disk path)) = true
  · exact (loadWithin_of_chain hchain).trans (loadWithin_of_chain hchain).symm
  cases hread : readDeclaration disk path with
  | error e => exact (loadWithin_of_unread hchain hread).trans (loadWithin_of_unread hchain hread).symm
  | ok declared =>
      rw [loadWithin_of_read hchain hread, loadWithin_of_read hchain hread, mapM_congr]
      intro value hvalue
      cases hlocate : locateBase disk (parentOrHere path) value with
      | error e => exact (loadBase_of_missing hlocate).trans (loadBase_of_missing hlocate).symm
      | ok file =>
          obtain ⟨number, hnumber⟩ := List.getElem?_of_mem hvalue
          have hbase : base? disk path number = some (.ok file) := by
            simp only [base?_of_read hread, hnumber, Option.map_some, hlocate]
          rw [loadBase_of_located hlocate, loadBase_of_located hlocate, h number file hbase]

end ConfigFile

end PathAlias
