import PathAlias.Configuration
import PathAlias.Proofs.ConfigFile.Loading
import PathAlias.Proofs.Mapping
import PathAlias.Tree

/-!
What is in force for a configuration file. The files that it is loaded from have a post-order: the
bases of a file in the order in which it names them, each behind its own bases, and then the file.
Base URL and path table are each declared by the last file of this order that declares one, and a
base URL counts from the directory of the file that declares it.
-/

namespace PathAlias

namespace Declaration

/-- A declared base URL counts from the directory of the file. -/
theorem ofSource?_baseUrl {dir : Text} {source : Json.Relaxed.Source} {declared : Declaration}
    (h : ofSource? dir source = some declared) {url : BaseUrl} (hurl : declared.baseUrl = some url) :
    url.absolute = normalize (append dir url.raw) := by
  rw [ofSource?] at h
  obtain ⟨fields, -, h⟩ := Option.bind_eq_some_iff.mp h
  match fields with
  | [bases, options] =>
      obtain ⟨extended, -, h⟩ := Option.bind_eq_some_iff.mp h
      obtain ⟨declares, -, h⟩ := Option.bind_eq_some_iff.mp h
      cases h
      obtain ⟨raw, -, rfl⟩ := Option.map_eq_some_iff.mp hurl
      rfl
  | [] => cases h
  | [_] => cases h
  | _ :: _ :: _ :: _ => cases h

theorem parse_baseUrl {path source : Text} {declared : Declaration}
    (h : parse path source = .ok declared) {url : BaseUrl} (hurl : declared.baseUrl = some url) :
    url.absolute = normalize (append (parentOrHere path) url.raw) := by
  rw [parse] at h
  cases hsource : (Json.Relaxed.ofText? source).bind (ofSource? (parentOrHere path)) with
  | none => simp [hsource] at h
  | some found =>
      rw [hsource] at h
      cases h
      obtain ⟨_, -, hfound⟩ := Option.bind_eq_some_iff.mp hsource
      exact ofSource?_baseUrl hfound hurl

end Declaration

namespace ConfigFile

/-- A file with what it declares. -/
structure Reading where
  path : Text
  /-- What the file declares by itself. -/
  declared : Declaration

/-- The base URL that a file declares, as seen from the directory of the file. -/
def Reading.baseUrl? (file : Reading) : Option BaseUrl :=
  file.declared.baseUrl.map fun url =>
    { raw := url.raw, absolute := normalize (append (parentOrHere file.path) url.raw) }

/-- The files that those at some paths are loaded from, every file behind all that it extends. -/
inductive PostOrder (disk : Disk Id) : List Text → List Reading → Prop
  | nil : PostOrder disk [] []
  | cons {path : Text} {later bases : List Text} {declared : Declaration}
      {below after : List Reading} : readDeclaration disk path = .ok declared →
      List.Forall₂ (fun value base => locateBase disk (parentOrHere path) value = .ok base)
        (declared.bases.getD []) bases →
      PostOrder disk bases below → PostOrder disk later after →
      PostOrder disk (path :: later) (below ++ { path, declared } :: after)

/-- What the last file that declares something declares. -/
def last? {α : Type} (declares : Reading → Option α) (order : List Reading) : Option α :=
  (order.filterMap declares).getLast?

namespace PostOrder

variable {disk : Disk Id} {paths : List Text} {order : List Reading}

theorem append {later : List Text} {after : List Reading} (h : PostOrder disk paths order)
    (hlater : PostOrder disk later after) : PostOrder disk (paths ++ later) (order ++ after) := by
  induction h with
  | nil => exact hlater
  | cons hread hbases hbelow _ _ ih =>
      rw [List.append_assoc]
      exact .cons hread hbases hbelow ih

/-- There is one post-order. -/
theorem unique {other : List Reading} (h : PostOrder disk paths order)
    (hother : PostOrder disk paths other) : other = order := by
  induction h generalizing other with
  | nil =>
      cases hother
      rfl
  | cons hread hbases _ _ ihbelow ihafter =>
      cases hother with
      | cons hread' hbases' hbelow' hafter' =>
          cases hread.symm.trans hread'
          have hsame := List.right_unique_forall₂'
            (fun _ _ _ h h' => Except.ok.inj (h.symm.trans h')) hbases hbases'
          subst hsame
          rw [ihbelow hbelow', ihafter hafter']

end PostOrder

section Last

variable {α : Type} (declares : Reading → Option α)

theorem last?_append (order after : List Reading) :
    last? declares (order ++ after) = (last? declares after).or (last? declares order) := by
  rw [last?, List.filterMap_append, List.getLast?_append]
  rfl

theorem last?_singleton (file : Reading) : last? declares [file] = declares file := by
  rw [last?, List.filterMap_cons]
  cases declares file <;> rfl

theorem isSome_last?_iff (order : List Reading) :
    (last? declares order).isSome ↔ ∃ file ∈ order, (declares file).isSome := by
  rw [last?, List.getLast?_isSome]
  simp only [ne_eq, List.filterMap_eq_nil_iff, not_forall, Option.isSome_iff_ne_none, exists_prop]

end Last

section Inherit

variable {α : Type} {inForce : ConfigFile → Option α}
  (hinherit : ∀ config base, inForce (inherit config base) = (inForce config).or (inForce base))

theorem getLast?_append_filterMap (earlier later : List ConfigFile) :
    ((earlier ++ later).filterMap inForce).getLast? =
      (later.filterMap inForce).getLast?.or (earlier.filterMap inForce).getLast? := by
  rw [List.filterMap_append, List.getLast?_append]

theorem getLast?_filterMap_singleton (config : ConfigFile) :
    ([config].filterMap inForce).getLast? = inForce config := by
  rw [List.filterMap_cons]
  cases inForce config <;> rfl

theorem getLast?_filterMap_cons (first : ConfigFile) (later : List ConfigFile) :
    ((first :: later).filterMap inForce).getLast? =
      (later.filterMap inForce).getLast?.or (inForce first) := by
  rw [← List.singleton_append, getLast?_append_filterMap, getLast?_filterMap_singleton]

include hinherit in
theorem inForce_foldl (first : ConfigFile) (later : List ConfigFile) :
    inForce (later.foldl (fun earlier base => base.inherit earlier) first) =
      ((first :: later).filterMap inForce).getLast? := by
  induction later generalizing first with
  | nil =>
      rw [getLast?_filterMap_cons]
      rfl
  | cons next later ih =>
      rw [List.foldl_cons, ih, getLast?_filterMap_cons, getLast?_filterMap_cons,
        getLast?_filterMap_cons, hinherit, Option.or_assoc]

include hinherit in
/-- Of an option that is inherited by itself the last base that has it counts. -/
theorem inForce_inheritAll (config : ConfigFile) (bases : List ConfigFile) :
    inForce (config.inheritAll bases) =
      (inForce config).or (bases.filterMap inForce).getLast? := by
  cases bases with
  | nil => exact (Option.or_none).symm
  | cons first later => rw [inheritAll, hinherit, inForce_foldl hinherit]

end Inherit

section Load

variable {disk : Disk Id} {fuel : Nat} {chain : List Text} {path : Text}

theorem baseUrl?_of_read {declared : Declaration}
    (hread : readDeclaration disk path = .ok declared) :
    Reading.baseUrl? { path, declared } = declared.baseUrl := by
  rw [readDeclaration_eq] at hread
  cases htext : disk.readText path with
  | error cause => simp [htext] at hread
  | ok source =>
      rw [htext] at hread
      cases hurl : declared.baseUrl with
      | none => rw [Reading.baseUrl?, hurl, Option.map_none]
      | some url =>
          rw [Reading.baseUrl?, hurl, Option.map_some, ← Declaration.parse_baseUrl hread hurl]

theorem located_of_loaded {values : List Text} {bases : List ConfigFile}
    (h : List.Forall₂ (fun value base => loadBase disk fuel chain path value = Except.ok base)
      values bases) :
    ∃ files,
      List.Forall₂ (fun value file => locateBase disk (parentOrHere path) value = .ok file)
        values files ∧
      List.Forall₂
        (fun file base =>
          loadWithin disk fuel (identity disk path :: chain) file = Except.ok base)
        files bases := by
  induction h with
  | nil => exact ⟨[], .nil, .nil⟩
  | cons hload _ ih =>
      obtain ⟨files, hlocated, hloaded⟩ := ih
      obtain ⟨file, hfile, hconfig⟩ := loadBase_eq_ok hload
      exact ⟨file :: files, .cons hfile hlocated, .cons hconfig hloaded⟩

/-- What is in force for some files is what the last file of their post-order declares. -/
structure InForce (disk : Disk Id) (files : List Text) (configs : List ConfigFile)
    (order : List Reading) : Prop where
  postOrder : PostOrder disk files order
  paths : (configs.filterMap ConfigFile.paths).getLast? =
    last? (fun file => file.declared.paths) order
  baseUrl : (configs.filterMap ConfigFile.baseUrl).getLast? = last? Reading.baseUrl? order

namespace InForce

theorem nil : InForce disk [] [] [] := ⟨.nil, rfl, rfl⟩

theorem cons {file : Text} {files : List Text} {config : ConfigFile} {configs : List ConfigFile}
    {order after : List Reading} (h : InForce disk [file] [config] order)
    (hlater : InForce disk files configs after) :
    InForce disk (file :: files) (config :: configs) (order ++ after) where
  postOrder := h.postOrder.append hlater.postOrder
  paths := by
    rw [last?_append, ← h.paths, ← hlater.paths, ← getLast?_append_filterMap]
    rfl
  baseUrl := by
    rw [last?_append, ← h.baseUrl, ← hlater.baseUrl, ← getLast?_append_filterMap]
    rfl

/-- A file overrides its bases, of which a later one overrides an earlier one. -/
theorem override {files : List Text} {bases : List ConfigFile} {below : List Reading}
    {declared : Declaration} (hread : readDeclaration disk path = .ok declared)
    (hlocated : List.Forall₂
      (fun value file => locateBase disk (parentOrHere path) value = .ok file)
      (declared.bases.getD []) files)
    (h : InForce disk files bases below) :
    InForce disk [path]
      [inheritAll { path, baseUrl := declared.baseUrl, paths := declared.paths } bases]
      (below ++ [⟨path, declared⟩]) where
  postOrder := .cons hread hlocated h.postOrder .nil
  paths := by
    rw [last?_append, last?_singleton, ← h.paths, getLast?_filterMap_singleton,
      @inForce_inheritAll _ ConfigFile.paths fun _ _ => rfl]
  baseUrl := by
    rw [last?_append, last?_singleton, ← h.baseUrl, getLast?_filterMap_singleton,
      @inForce_inheritAll _ ConfigFile.baseUrl fun _ _ => rfl, baseUrl?_of_read hread]

end InForce

theorem inForce_of_load {config : ConfigFile}
    (h : loadWithin disk fuel chain path = Except.ok config) :
    ∃ order, InForce disk [path] [config] order := by
  induction fuel generalizing chain path config with
  | zero => cases h
  | succ fuel ih =>
      obtain ⟨-, declared, bases, hread, hbases, rfl⟩ := loadWithin_eq_ok h
      obtain ⟨files, hlocated, hloaded⟩ := located_of_loaded hbases
      have hbelow : ∃ below, InForce disk files bases below := by
        clear h hbases hlocated
        induction hloaded with
        | nil => exact ⟨[], .nil⟩
        | cons hload _ ihlater =>
            obtain ⟨order, horder⟩ := ih hload
            obtain ⟨after, hafter⟩ := ihlater
            exact ⟨order ++ after, horder.cons hafter⟩
      obtain ⟨below, hbelow⟩ := hbelow
      exact ⟨_, .override hread hlocated hbelow⟩

theorem path_of_load {config : ConfigFile}
    (h : loadWithin disk fuel chain path = Except.ok config) : config.path = path := by
  cases fuel with
  | zero => cases h
  | succ fuel =>
      obtain ⟨-, declared, bases, -, -, rfl⟩ := loadWithin_eq_ok h
      cases bases <;> rfl

end Load

theorem load_eq_ofFile {disk : Disk Id} {path : Text} {config : ConfigFile} {env : Environment}
    {cwd : Text} {project : Option Text}
    (hlocate : Configuration.locate disk env cwd project = .ok path)
    (hload : load disk path = Except.ok config) :
    Configuration.load disk env cwd project = Except.ok (Configuration.ofFile env config) :=
  (bind_ok hlocate).trans (bind_ok hload)

/-- **What is in force.** The files that a loaded file is loaded from have one post-order. The path
table in force is, as a whole, that of the last file of this order that declares one, and the base
URL in force is that of the last file that declares one, as seen from the directory of that file.
The environment goes before this base URL, and the directory of the loaded file comes after it. The
matcher has an entry for the bare wildcard exactly if the table declares it, the environment sets a
base URL, or any of the files declares one. -/
theorem load_overrides {disk : Disk Id} {path : Text} {config : ConfigFile}
    (h : load disk path = Except.ok config) :
    ∃ order, (PostOrder disk [path] order ∧
        ∀ other, PostOrder disk [path] other → other = order) ∧
      config.paths = last? (fun file => file.declared.paths) order ∧
      config.baseUrl = last? Reading.baseUrl? order ∧
      ∀ env cwd project, Configuration.locate disk env cwd project = .ok path →
        ∃ loaded, Configuration.load disk env cwd project = Except.ok loaded ∧
          loaded.paths = config.paths.getD default ∧
          (loaded.baseUrl, loaded.absoluteBaseUrl) =
            (match env baseUrlVariable, config.baseUrl with
              | some raw, _ => (some raw, normalize (append (parentOrHere path) raw))
              | none, some url => (some url.raw, url.absolute)
              | none, none => (none, normalize (parentOrHere path))) ∧
          ((∃ entry ∈ loaded.matcher.entries, entry.pattern = [wildcard]) ↔
            [wildcard] ∈ loaded.paths.patterns ∨ (env baseUrlVariable).isSome ∨
              ∃ file ∈ order, file.declared.baseUrl.isSome) := by
  obtain ⟨order, horder⟩ := inForce_of_load h
  have hpaths := horder.paths
  have hbaseUrl := horder.baseUrl
  rw [getLast?_filterMap_singleton] at hpaths hbaseUrl
  refine ⟨order, ⟨horder.postOrder, fun other => horder.postOrder.unique⟩, hpaths, hbaseUrl,
    fun env cwd project hlocate => ⟨_, load_eq_ofFile hlocate h, rfl, ?_, ?_⟩⟩
  · have hpath := path_of_load h
    rw [Configuration.ofFile, dir, hpath]
    cases env baseUrlVariable with
    | some raw => rfl
    | none => cases config.baseUrl <;> rfl
  · have hdeclares : (∃ file ∈ order, file.declared.baseUrl.isSome) ↔ config.baseUrl.isSome := by
      rw [hbaseUrl, isSome_last?_iff]
      simp only [Reading.baseUrl?, Option.isSome_map]
    rw [hdeclares]
    apply (exists_compile_wildcard_iff _ _ _).trans
    apply or_congr Iff.rfl
    rw [Configuration.ofFile]
    cases env baseUrlVariable with
    | some raw => simp only [Option.isSome_some, true_or]
    | none => cases config.baseUrl <;> simp

/-- A tree with a file that extends one in another directory, which declares a base URL. -/
def inheriting : Tree where
  files :=
    [(["app.json"], ascii "\x7bextends:'./base/b'\x7d"),
      (["b.json", "base"], ascii "\x7bcompilerOptions:\x7bbaseUrl:'src'\x7d\x7d")]
  directories := [["base"]]
where
  /-- The bytes of a text without characters beyond the first 128. -/
  ascii (t : Text) : List UInt8 := t.map fun c => UInt8.ofNat c.toNat

theorem load_overrides_inheriting :
    ∃ config loaded, load (inheriting.disk []) "/app.json" = Except.ok config ∧
      Configuration.load (inheriting.disk []) (fun _ => none) "/" (some "app.json") =
        Except.ok loaded ∧
      loaded.absoluteBaseUrl = ("/base/src" : Text) ∧
      ∃ entry ∈ loaded.matcher.entries, entry.pattern = [wildcard] := by
  have hurl : (match load (inheriting.disk []) "/app.json" with
      | .ok config => config.baseUrl
      | .error _ => none) = some ⟨"src", "/base/src"⟩ := by decide +kernel
  have hlocate : Configuration.locate (inheriting.disk []) (fun _ => none) "/" (some "app.json") =
      .ok ("/app.json" : Text) := by rfl
  match hload : load (inheriting.disk []) "/app.json" with
  | .error e => rw [hload] at hurl; cases hurl
  | .ok config =>
      rw [hload] at hurl
      simp only at hurl
      obtain ⟨order, -, -, hbaseUrl, hloaded⟩ := load_overrides hload
      obtain ⟨loaded, hall, -, hbase, hwild⟩ :=
        hloaded (fun _ => none) "/" (some "app.json") hlocate
      rw [hurl] at hbase hbaseUrl
      obtain ⟨file, hfile, hdeclares⟩ : ∃ file ∈ order, (Reading.baseUrl? file).isSome :=
        (isSome_last?_iff _ order).mp (hbaseUrl ▸ rfl)
      rw [Reading.baseUrl?, Option.isSome_map] at hdeclares
      exact ⟨config, loaded, rfl, hall, (Prod.mk.inj hbase).2,
        hwild.mpr (Or.inr (Or.inr ⟨file, hfile, hdeclares⟩))⟩

end ConfigFile

end PathAlias
