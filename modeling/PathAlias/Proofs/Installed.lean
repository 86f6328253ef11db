import PathAlias.Proofs.Path.Canonical
import PathAlias.Proofs.Registry.Rewriting

/-!
Installed packages. Whether a package is installed is asked of one manifest after the other, in the
packages of the directory and of every directory above it, until one is there or cannot be looked at.
A directory is above another one if it is spelled with the first of its components; no packages are
looked for in a directory that itself holds packages. A request is rewritten only if it is mapped and
none of these manifests is there.
-/

namespace PathAlias

/-! ### Names of packages -/

/-- A name of a package: one segment, or a scope and one segment. A segment that opens a name begins
with no `.`. -/
inductive IsPackageName : Text → Prop
  | single {c : Char} {rest : Text} (hdot : c ≠ '.') (hscope : c ≠ '@') (hslash : '/' ∉ c :: rest) :
      IsPackageName (c :: rest)
  | within {scope own : Text} (hscope : '/' ∉ scope) (hown : own ≠ []) (hslash : '/' ∉ own) :
      IsPackageName ('@' :: scope ++ '/' :: own)

/-- Whether a request is a name or goes on behind it with further segments. -/
def StartsWithName (request name : Text) : Prop :=
  request = name ∨ ∃ rest, request = name ++ '/' :: rest

/-- A request starts with the name that its first segments spell. -/
theorem startsWithName_of_segments {request name : Text} {front more : List Text} (hfront : front ≠ [])
    (hname : joinWith ['/'] front = name) (h : segments request = front ++ more) :
    StartsWithName request name := by
  have hjoin : joinWith ['/'] (front ++ more) = request := h ▸ joinWith_splitOn '/' request
  cases more with
  | nil => exact Or.inl (by rw [← hjoin, List.append_nil, hname])
  | cons next more =>
      refine Or.inr ⟨joinWith ['/'] (next :: more), ?_⟩
      rw [← hjoin, joinWith_append _ hfront (List.cons_ne_nil _ _), hname]
      rfl

/-- The segments of a request that starts with a name start with those of the name. -/
theorem segments_of_startsWithName {request name : Text} (h : StartsWithName request name) :
    ∃ more, segments request = segments name ++ more := by
  rcases h with rfl | ⟨rest, rfl⟩
  · exact ⟨[], (List.append_nil _).symm⟩
  · exact ⟨segments rest, splitOn_append '/' name rest⟩

theorem exists_append_of_startsWithName {request name : Text} (h : StartsWithName request name) :
    ∃ rest, request = name ++ rest := by
  rcases h with rfl | ⟨rest, rfl⟩
  · exact ⟨[], (List.append_nil _).symm⟩
  · exact ⟨'/' :: rest, rfl⟩

theorem packageName?_of_isPackageName {request name : Text} (hname : IsPackageName name)
    (h : StartsWithName request name) : packageName? request = some name := by
  obtain ⟨more, hsegments⟩ := segments_of_startsWithName h
  obtain ⟨rest, rfl⟩ := exists_append_of_startsWithName h
  cases hname with
  | @single c own hdot hscope hslash =>
      have hc : ¬ ((decide (c = '.') || decide (c = '/')) = true) := by
        simp [hdot, Ne.symm (List.ne_of_not_mem_cons hslash)]
      have hown : segments (c :: own) = [c :: own] := splitOn_of_not_mem hslash
      rw [hown] at hsegments
      rw [List.cons_append] at hsegments ⊢
      rw [packageName?, if_neg hc, hsegments]
      exact if_neg hscope
  | @within scope own hscope hown hslash =>
      have hc : ¬ ((decide ('@' = '.') || decide ('@' = '/')) = true) := by decide
      have hat : '/' ∉ '@' :: scope := List.not_mem_cons_of_ne_of_not_mem (by decide) hscope
      have hname : segments ('@' :: scope ++ '/' :: own) = ['@' :: scope, own] := by
        rw [segments, splitOn_append, splitOn_of_not_mem hat, splitOn_of_not_mem hslash]
        rfl
      obtain ⟨d, own, rfl⟩ := List.exists_cons_of_ne_nil hown
      rw [hname] at hsegments
      rw [List.cons_append, List.cons_append] at hsegments ⊢
      rw [packageName?, if_neg hc, hsegments]
      rfl

theorem isPackageName_of_packageName? {request name : Text} (h : packageName? request = some name) :
    IsPackageName name ∧ StartsWithName request name := by
  cases request with
  | nil => cases h
  | cons c rest =>
      rw [packageName?] at h
      split at h
      · cases h
      · rename_i hpath
        simp only [Bool.or_eq_true, decide_eq_true_eq, not_or] at hpath
        obtain ⟨piece, pieces, hsegments⟩ := segments_cons hpath.2 rest
        have hslash : ∀ segment ∈ (c :: piece) :: pieces, '/' ∉ segment := by
          rw [← hsegments]
          exact fun segment => not_mem_of_mem_segments
        rw [hsegments] at h
        simp only at h
        split at h
        · rename_i hscope
          match pieces, h with
          | (d :: own) :: more, h =>
              cases h
              rw [hscope] at hsegments hslash ⊢
              have hat := hslash _ List.mem_cons_self
              refine ⟨.within (List.not_mem_of_not_mem_cons hat) (List.cons_ne_nil _ _)
                (hslash _ (List.mem_cons_of_mem _ List.mem_cons_self)), ?_⟩
              have hjoin : joinWith ['/'] ['@' :: piece, d :: own] = '@' :: piece ++ '/' :: d :: own := by
                rw [joinWith_cons_cons, joinWith, List.intercalate_singleton]
                rfl
              exact startsWithName_of_segments (List.cons_ne_nil _ _) hjoin hsegments
        · rename_i hscope
          cases h
          have hjoin : joinWith ['/'] [c :: piece] = c :: piece := List.intercalate_singleton
          exact ⟨.single hpath.1 hscope (hslash _ List.mem_cons_self),
            startsWithName_of_segments (List.cons_ne_nil _ _) hjoin hsegments⟩

/-- The requests that name a package are those that start with a name, and that is the package. -/
theorem packageName?_eq_some_iff {request name : Text} :
    packageName? request = some name ↔ IsPackageName name ∧ StartsWithName request name :=
  ⟨isPackageName_of_packageName?, fun h => packageName?_of_isPackageName h.1 h.2⟩

namespace IsPackageName

variable {name : Text} (h : IsPackageName name)
include h

theorem relative : isAbsolute name = false := by
  cases h with
  | single hdot hscope hslash => exact isAbsolute_of_not_mem hslash
  | within hscope hown hslash => rfl

theorem ne_nil : name ≠ [] := by
  cases h <;> exact List.cons_ne_nil _ _

theorem getLast? : name.getLast? ≠ some '/' := by
  intro hlast
  cases h with
  | single hdot hscope hslash => exact hslash (List.mem_of_getLast? hlast)
  | @within scope own hscope hown hslash =>
      obtain ⟨d, own, rfl⟩ := List.exists_cons_of_ne_nil hown
      rw [List.getLast?_append_of_ne_nil _ (List.cons_ne_nil _ _), List.getLast?_cons_cons] at hlast
      exact hslash (List.mem_of_getLast? hlast)

end IsPackageName

/-! ### Manifests -/

/-- The path of a directory, ready for a name to be put behind it. -/
def opened (dir : Text) : Text :=
  if dir = [] || dir.getLast? = some '/' then dir else dir ++ ['/']

/-- The directories whose packages are looked at from a directory, nearest first. -/
def packageHolders (dir : Text) : List Text :=
  (ancestors dir).filter fun above => (components above).getLast? ≠ some (.name "node_modules")

/-- Where the manifest of a package is among the packages of a directory. -/
def manifestIn (name dir : Text) : Text :=
  opened dir ++ "node_modules/" ++ name ++ "/package.json"

theorem packagesIn_eq (dir : Text) : packagesIn dir = opened dir ++ packageDirectory := by
  have hrelative : isAbsolute packageDirectory = false := by decide
  rw [packagesIn, append, if_neg (Bool.eq_false_iff.mp hrelative), opened]
  split_ifs
  · rfl
  · rw [List.append_assoc]
    rfl

theorem manifestIn_eq {name : Text} (h : IsPackageName name) (dir : Text) :
    append (append (packagesIn dir) name) "package.json" = manifestIn name dir := by
  have hdirectory : packageDirectory ≠ [] := by decide
  have hopened : ("node_modules/" : Text) = packageDirectory ++ ['/'] := by decide
  have hmanifest : ("/package.json" : Text) = '/' :: ("package.json" : Text) := by decide
  have hpackages : packagesIn dir ≠ [] := by
    rw [packagesIn_eq]
    exact List.append_ne_nil_of_right_ne_nil _ hdirectory
  have hlast : (packagesIn dir).getLast? ≠ some '/' := by
    rw [packagesIn_eq, List.getLast?_append_of_ne_nil _ hdirectory]
    decide
  have hinside : append (packagesIn dir) name = packagesIn dir ++ '/' :: name :=
    append_of_last hpackages hlast h.relative
  rw [hinside, append_of_last, packagesIn_eq, manifestIn]
  · rw [hopened, hmanifest]
    simp only [List.append_assoc, List.singleton_append]
  · exact List.append_ne_nil_of_left_ne_nil hpackages _
  · obtain ⟨c, rest, rfl⟩ := List.exists_cons_of_ne_nil h.ne_nil
    rw [List.getLast?_append_of_ne_nil _ (List.cons_ne_nil _ _), List.getLast?_cons_cons]
    exact h.getLast?
  · decide

theorem fileName?_ne_iff (dir n : Text) :
    (fileName? dir != some n) = true ↔ (components dir).getLast? ≠ some (.name n) := by
  rw [fileName?]
  split
  · rename_i m hlast
    rw [hlast, bne_iff_ne, ne_eq, ne_eq, Option.some.injEq, Option.some.injEq, Component.name.injEq]
  · rename_i hname
    refine iff_of_true rfl fun hlast => hname n hlast

/-- The manifests that are asked for are the ones in the packages of the holders. -/
theorem manifestPaths_eq {name : Text} (h : IsPackageName name) (dir : Text) :
    manifestPaths name dir = (packageHolders dir).map (manifestIn name) := by
  have hholds : ∀ above : Text, (fileName? above != some packageDirectory) =
      decide ((components above).getLast? ≠ some (.name "node_modules")) := by
    intro above
    rw [Bool.eq_iff_iff, fileName?_ne_iff, decide_eq_true_iff]
    rfl
  have hpath : ∀ above : Text, append (append (packagesIn above) name) "package.json" =
      manifestIn name above := manifestIn_eq h
  simp only [manifestPaths, packageHolders, hholds, hpath]

/-! ### Questions about files -/

section Files

variable (fs : FileSystem Id)

/-- Whether no other file is looked for after this one: it is there, or it cannot be looked at. -/
def decides (path : Text) : Bool :=
  match fs (.file path) with
  | .ok isThere => isThere
  | .error _ => true

variable (path : Text) (rest : List Text)

theorem run_anyFile_cons :
    (anyFile (path :: rest)).run fs =
      if decides fs path then fs (.file path) else (anyFile rest).run fs := by
  rw [anyFile, Lookup.run_ask, decides]
  cases fs (.file path) with
  | error e => rfl
  | ok isThere => cases isThere <;> rfl

theorem asked_anyFile_cons :
    (anyFile (path :: rest)).asked fs =
      .file path :: if decides fs path then [] else (anyFile rest).asked fs := by
  rw [anyFile, Lookup.asked_ask, decides]
  cases fs (.file path) with
  | error e => rfl
  | ok isThere => cases isThere <;> rfl

variable {fs path} {paths : List Text}

theorem decides_eq_false_iff : decides fs path = false ↔ fs (.file path) = .ok false := by
  rw [decides]
  cases fs (.file path) with
  | error e => exact iff_of_false nofun nofun
  | ok isThere => exact ⟨congrArg Except.ok, Except.ok.inj⟩

/-- Files are looked for up to the first one that decides. -/
theorem run_anyFile (fs : FileSystem Id) (paths : List Text) :
    (anyFile paths).run fs =
      match paths.find? (decides fs) with
      | some path => fs (.file path)
      | none => Except.ok false := by
  induction paths with
  | nil => rfl
  | cons path rest ih =>
      rw [run_anyFile_cons, List.find?_cons, ih]
      cases decides fs path <;> rfl

/-- Missing files are asked for one after the other, and then one that is not missing, if there is any. -/
theorem asked_anyFile (fs : FileSystem Id) (paths : List Text) :
    ∃ missing rest, paths = missing ++ rest ∧ (∀ path ∈ missing, fs (.file path) = .ok false) ∧
      (∀ path ∈ rest.head?, fs (.file path) ≠ .ok false) ∧
      (anyFile paths).asked fs = (missing ++ rest.head?.toList).map .file := by
  induction paths with
  | nil => exact ⟨[], [], rfl, nofun, nofun, rfl⟩
  | cons path rest ih =>
      rw [asked_anyFile_cons]
      cases hdecides : decides fs path with
      | false =>
          obtain ⟨missing, later, rfl, hmissing, hnext, hasked⟩ := ih
          have hpath := decides_eq_false_iff.mp hdecides
          exact ⟨path :: missing, later, rfl, List.forall_mem_cons.mpr ⟨hpath, hmissing⟩, hnext,
            congrArg (Question.file path :: ·) hasked⟩
      | true =>
          refine ⟨[], path :: rest, rfl, nofun, fun next hnext => ?_, rfl⟩
          obtain rfl : path = next := Option.some.inj hnext
          rw [ne_eq, ← decides_eq_false_iff, hdecides]
          exact nofun

/-- One file that is missing after the other, up to one that is not. -/
theorem find?_decides_eq_some_iff :
    paths.find? (decides fs) = some path ↔
      fs (.file path) ≠ .ok false ∧ ∃ missing later, paths = missing ++ path :: later ∧
        ∀ other ∈ missing, fs (.file other) = .ok false := by
  rw [List.find?_eq_some_iff_append]
  simp only [Bool.not_eq_true', decides_eq_false_iff, ← Bool.not_eq_false (decides fs path), ne_eq]

theorem run_anyFile_eq_false_iff :
    (anyFile paths).run fs = Except.ok false ↔ ∀ path ∈ paths, fs (.file path) = .ok false := by
  have hnone : paths.find? (decides fs) = none ↔ ∀ path ∈ paths, fs (.file path) = .ok false := by
    simp only [List.find?_eq_none, Bool.not_eq_true, decides_eq_false_iff]
  rw [run_anyFile, ← hnone]
  cases hfound : paths.find? (decides fs) with
  | none => exact iff_of_true rfl rfl
  | some path => exact iff_of_false (find?_decides_eq_some_iff.mp hfound).1 nofun

theorem run_anyFile_eq_iff {decided : Except Error Bool} (hdecided : decided ≠ .ok false) :
    (anyFile paths).run fs = decided ↔
      ∃ missing path later, paths = missing ++ path :: later ∧ fs (.file path) = decided ∧
        ∀ other ∈ missing, fs (.file other) = .ok false := by
  rw [run_anyFile]
  constructor
  · intro h
    cases hfound : paths.find? (decides fs) with
    | none =>
        rw [hfound] at h
        exact absurd h.symm hdecided
    | some path =>
        rw [hfound] at h
        obtain ⟨-, missing, later, hsplit, hmissing⟩ := find?_decides_eq_some_iff.mp hfound
        exact ⟨missing, path, later, hsplit, h, hmissing⟩
  · rintro ⟨missing, path, later, hsplit, hpath, hmissing⟩
    have hfound : paths.find? (decides fs) = some path := by
      refine find?_decides_eq_some_iff.mpr ⟨?_, missing, later, hsplit, hmissing⟩
      rw [hpath]
      exact hdecided
    rw [hfound]
    exact hpath

/-- A file is found if one is there and none before it cannot be looked at. -/
theorem run_anyFile_eq_true_iff :
    (anyFile paths).run fs = Except.ok true ↔
      ∃ earlier path later, paths = earlier ++ path :: later ∧ fs (.file path) = .ok true ∧
        ∀ other ∈ earlier, ∀ e, fs (.file other) ≠ .error e := by
  constructor
  · intro h
    have htrue : (Except.ok true : Except Error Bool) ≠ .ok false := by simp
    obtain ⟨missing, path, later, hsplit, hpath, hmissing⟩ := (run_anyFile_eq_iff htrue).mp h
    refine ⟨missing, path, later, hsplit, hpath, fun other hother e herror => ?_⟩
    rw [hmissing other hother] at herror
    cases herror
  · rintro ⟨earlier, path, later, rfl, hpath, hearlier⟩
    have hdecides : decides fs path = true := by rw [decides, hpath]
    rw [run_anyFile, List.find?_append, List.find?_cons, hdecides]
    cases hfound : earlier.find? (decides fs) with
    | none => exact hpath
    | some other =>
        -- a file that decides earlier is there too, as it is no error
        have hother : fs (.file other) ≠ .ok false := (find?_decides_eq_some_iff.mp hfound).1
        have hnoerror := hearlier other (List.mem_of_find?_eq_some hfound)
        cases hanswer : fs (.file other) with
        | error e => exact absurd hanswer (hnoerror e)
        | ok isThere =>
            cases isThere with
            | false => exact absurd hanswer hother
            | true => exact hanswer

end Files

/-! ### Installed packages -/

/-- The manifests that tell whether the package of a request is installed for a directory. -/
def installedManifests (request dir : Text) : List Text :=
  match packageName? request with
  | some name => (packageHolders dir).map (manifestIn name)
  | none => []

theorem isInstalled_eq (request dir : Text) :
    isInstalled request dir = anyFile (installedManifests request dir) := by
  rw [isInstalled, installedManifests]
  cases hname : packageName? request with
  | none => rfl
  | some name =>
      exact congrArg anyFile (manifestPaths_eq (packageName?_eq_some_iff.mp hname).1 dir)

/-- What is asked about a package, and how it ends, in either mode. -/
theorem run_isInstalled (request dir : Text) (fs : FileSystem Id) (mode : Mode) :
    ((isInstalled request dir).outcome mode (recording fs)).run [] =
      ((anyFile (installedManifests request dir)).run fs,
        (anyFile (installedManifests request dir)).asked fs) := by
  rw [Lookup.outcome_eq_run, Lookup.run_recording, isInstalled_eq]
  rfl

/-- A request is rewritten only if none of the manifests of its package is there. -/
theorem missing_of_relative {fs : FileSystem Id} {registry : Registry} {found : Option Nat}
    {mode : Mode} {request parent specifier : Text}
    (h : (Call.relative mode request parent).outcome fs registry found = .ok (some specifier)) :
    ∀ manifest ∈ installedManifests request (parentOrHere parent),
      fs (.file manifest) = .ok false := by
  rw [Call.outcome] at h
  split at h
  · split at h
    · cases h
    · rename_i hinstalled
      rw [Lookup.outcome_eq_run, isInstalled_eq] at hinstalled
      exact run_anyFile_eq_false_iff.mp hinstalled
    · cases h
  · rename_i hunmapped
    exact absurd h (hunmapped specifier)

/-- **Installed packages.** A request that names a package starts with a plain or a scoped name, and
that is the package. What is asked about it is whether its manifests are there, one after the other
among the packages of the directory and of the directories above, which are spelled with fewer and
fewer of its components; it is asked up to the first manifest that is there or cannot be looked at,
and nothing is asked if no package is named. The package is installed exactly if a manifest is there
and none before it cannot be looked at; it fails with the error of a manifest exactly if all before
it are missing. A request that is rewritten is mapped, and all manifests of its package are missing. -/
theorem installed_package (request dir : Text) (fs : FileSystem Id) (mode : Mode) :
    let looked := ((isInstalled request dir).outcome mode (recording fs)).run []
    let manifests := installedManifests request dir
    (∀ name, packageName? request = some name ↔ IsPackageName name ∧ StartsWithName request name) ∧
    (∃ missing rest, manifests = missing ++ rest ∧ (∀ path ∈ missing, fs (.file path) = .ok false) ∧
      (∀ path ∈ rest.head?, fs (.file path) ≠ .ok false) ∧
      looked.2 = (missing ++ rest.head?.toList).map .file) ∧
    (looked.1 = .ok true ↔ ∃ earlier path later, manifests = earlier ++ path :: later ∧
      fs (.file path) = .ok true ∧ ∀ other ∈ earlier, ∀ e, fs (.file other) ≠ .error e) ∧
    (∀ e, looked.1 = .error e ↔ ∃ missing path later, manifests = missing ++ path :: later ∧
      fs (.file path) = .error e ∧ ∀ other ∈ missing, fs (.file other) = .ok false) ∧
    (looked.1 = .ok false ↔ ∀ path ∈ manifests, fs (.file path) = .ok false) ∧
    (ancestors dir).map components =
      (if isAbsolute dir then (components dir).inits.tail else (components dir).inits).reverse ∧
    ∀ (world : World) (registry : Registry) (parent specifier : Text),
      (registry.answer world (.relative mode request parent)).1 = .ok (some specifier) →
        (∃ path, ∀ other,
          (registry.answer world (.absolute other request (some parent))).1 = .ok (some path)) ∧
        ∀ manifest ∈ installedManifests request (parentOrHere parent),
          world.fs (.file manifest) = .ok false := by
  intro looked manifests
  have hlooked : looked = ((anyFile manifests).run fs, (anyFile manifests).asked fs) :=
    run_isInstalled request dir fs mode
  rw [hlooked]
  refine ⟨fun name => packageName?_eq_some_iff, asked_anyFile fs manifests,
    run_anyFile_eq_true_iff, fun e => run_anyFile_eq_iff nofun, run_anyFile_eq_false_iff,
    map_components_ancestors dir, fun world registry parent specifier h => ?_⟩
  obtain ⟨path, -, hpath⟩ := Registry.absolute_of_relative h
  obtain ⟨-, found, chosen, -, houtcome⟩ := Registry.chosen_of_answer h
  exact ⟨⟨path, hpath⟩, missing_of_relative houtcome⟩

/-- A directory that holds packages is passed over, whatever is above it. -/
example : installedManifests "@scope/own/fp" "/app/node_modules/base" =
    ["/app/node_modules/base/node_modules/@scope/own/package.json",
      "/app/node_modules/@scope/own/package.json", "/node_modules/@scope/own/package.json"] := by
  decide

end PathAlias
