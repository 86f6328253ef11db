import PathAlias.Proofs.Registry.History

/-!
What a registry remembers of an importing file. Once the project of a file has been decided, calls
do not load anything for the file any more. The decision stands as long as no project is added that
has the file below its base directory: a project that has it goes before the memo, and then the
first such project is the one that serves the file.
-/

namespace PathAlias

namespace Registry

/-- The registry after some calls in the same world. -/
def serve (world : World) (registry : Registry) (calls : List Call) : Registry :=
  registry.run (calls.map (.call world))

theorem serve_cons (world : World) (registry : Registry) (call : Call) (rest : List Call) :
    registry.serve world (call :: rest) = (registry.answer world call).2.serve world rest := rfl

theorem serve_grows (world : World) (registry : Registry) (calls : List Call) :
    ∃ added noted, registry.serve world calls = registry.grow added noted := by
  induction calls generalizing registry with
  | nil => exact ⟨[], [], (grow_nil registry).symm⟩
  | cons call rest ih =>
      obtain ⟨added, noted, hfirst, -⟩ := answer_grows world registry call
      obtain ⟨more, further, hrest⟩ := ih (registry.answer world call).2
      rw [hfirst, grow_grow, ← hfirst, ← serve_cons] at hrest
      exact ⟨_, _, hrest⟩

/-! ### Decisions -/

/-- The project of a file has been decided: it is the first one that has the file below its base
directory, and where there is none, the one that is remembered. -/
inductive Decides (registry : Registry) (file : Text) : Option Nat → Prop
  | owner {number : Nat} : registry.owner? file = some number → Decides registry file (some number)
  | memo {found : Option Nat} : registry.owner? file = none →
      registry.remembered? (parentOrHere file) = some found → Decides registry file found

section Decision

variable {world : World} {registry chosen : Registry} {file : Text} {found : Option Nat}

/-- Where the project of a file has been decided, nothing is loaded to choose it. -/
theorem Decides.choose_eq_pure {m : Type → Type} [Monad m] (disk : Disk m) (env : Environment)
    (h : registry.Decides file found) :
    registry.choose disk env (some file) = pure (.ok (found, registry)) := by
  cases h with
  | owner howner => simp only [Registry.choose, howner]
  | memo howner hmemo => simp only [Registry.choose, howner, hmemo]

theorem Decides.choose (h : registry.Decides file found) :
    registry.choose world.disk world.env (some file) = Except.ok (found, registry) :=
  h.choose_eq_pure world.disk world.env

theorem Decides.lt {number : Nat} (h : registry.Decides file (some number))
    (hconsistent : registry.Consistent) : number < registry.projects.length := by
  cases h with
  | owner howner => exact owner?_lt howner
  | memo _ hmemo =>
      obtain ⟨entry, hentry, hfound⟩ := Option.map_eq_some_iff.mp hmemo
      exact hconsistent.memo_lt entry (List.mem_of_find?_eq_some hentry) number hfound

/-- A file that lies in no project can only come to lie in a project that is added. -/
theorem le_of_owner?_grow {added : List Project} {noted : List (List Component × Option Nat)}
    {number : Nat} (hnone : registry.owner? file = none)
    (h : (registry.grow added noted).owner? file = some number) :
    registry.projects.length ≤ number := by
  rw [owner?_grow, hnone, Option.none_or] at h
  obtain ⟨place, -, rfl⟩ := Option.map_eq_some_iff.mp h
  exact Nat.le_add_left _ place

theorem remembered?_note {dir : Text} (added : List Project)
    (hnew : registry.remembered? dir = none) :
    (registry.grow added [(components dir, found)]).remembered? dir = some found := by
  rw [remembered?_grow, hnew, List.find?_cons, beq_self_eq_true]
  rfl

/-- To choose the project of a file is to decide it. -/
theorem decides_of_chooses (h : Chooses world registry (some file) (.ok (found, chosen))) :
    chosen.Decides file found := by
  cases h with
  | owned howner => exact .owner howner
  | remembered howner hmemo => exact .memo howner hmemo
  | discovered hnone hnew hdiscovers =>
      have hkept : ∀ noted, (registry.grow [] noted).owner? file = none := by
        intro noted
        rw [owner?_grow, hnone]
        rfl
      cases hdiscovers with
      | known _ _ => exact .memo (hkept _) (remembered?_note [] hnew)
      | absent _ => exact .memo (hkept _) (remembered?_note [] hnew)
      | @added configuration _ _ =>
          cases hnow : (registry.grow [registry.adopt configuration]
              [(components (parentOrHere file), some registry.projects.length)]).owner? file with
          | none => exact .memo hnow (remembered?_note _ hnew)
          | some number =>
              have hle := le_of_owner?_grow hnone hnow
              have hlt := owner?_lt hnow
              rw [projects_grow, List.length_append, List.length_singleton] at hlt
              obtain rfl := Nat.le_antisymm hle (Nat.le_of_lt_succ hlt)
              exact .owner hnow

/-- A decision stands when the registry grows, unless the file lay in no project and lies in an
added one. -/
theorem Decides.grow (h : registry.Decides file found) (added : List Project)
    (noted : List (List Component × Option Nat)) :
    (registry.grow added noted).Decides file found ∨
      ∃ number, registry.owner? file = none ∧
        (registry.grow added noted).owner? file = some number ∧
        registry.projects.length ≤ number := by
  cases h with
  | owner howner =>
      left
      apply Decides.owner
      rw [owner?_grow, howner]
      rfl
  | memo hnone hmemo =>
      cases hnow : (registry.grow added noted).owner? file with
      | none =>
          left
          apply Decides.memo hnow
          rw [remembered?_grow, hmemo]
          rfl
      | some number =>
          right
          exact ⟨number, hnone, rfl, le_of_owner?_grow hnone hnow⟩

end Decision

/-! ### Answers of a decided file -/

section Answers

variable {fs : FileSystem Id} {registry : Registry} {found : Option Nat}

theorem find_grow (h : ∀ number, found = some number → number < registry.projects.length)
    (added : List Project) (noted : List (List Component × Option Nat)) (mode : Mode)
    (request : Text) :
    (registry.grow added noted).find fs mode request found =
      registry.find fs mode request found := by
  cases found with
  | none => rfl
  | some number =>
      rw [find, find, Option.bind_some, Option.bind_some, projects_grow,
        List.getElem?_append_left (h number rfl)]
      rfl

/-- A project answers the same when others have been added. -/
theorem outcome_grow (h : ∀ number, found = some number → number < registry.projects.length)
    (added : List Project) (noted : List (List Component × Option Nat)) (call : Call) :
    call.outcome fs (registry.grow added noted) found = call.outcome fs registry found := by
  cases call with
  | absolute mode request importer => exact find_grow h added noted mode request
  | relative mode request importer => simp only [Call.outcome, find_grow h]

theorem answer_of_decides {world : World} {file : Text} (h : registry.Decides file found)
    {call : Call} (hfile : call.importer? = some file) :
    registry.answer world call =
      (if isCoreModule call.request then .ok none else call.outcome world.fs registry found,
        registry) := by
  rw [answer_eq, hfile, h.choose]
  split <;> rfl

end Answers

/-- **What is remembered.** Let a call for a file choose a project, or find that there is none.
After any further calls in the same world the choice for the file is the same, nothing is loaded for
it, and every request of the file is answered as at first, unless the file lay below the base
directory of no project then and lies below the one of a project that has been added since: then the
first such project is chosen. -/
theorem choice_remembered {world : World} {registry : Registry} (hreachable : registry.Reachable)
    (first : Call) {file : Text} (hfile : first.importer? = some file)
    (hcore : isCoreModule first.request = false) {found : Option Nat} {chosen : Registry}
    (hchoose : registry.choose world.disk world.env (some file) = Except.ok (found, chosen))
    (between : List Call) :
    let later := registry.serve world (first :: between)
    (later.choose world.disk world.env (some file) = Except.ok (found, later) ∧
      (∀ number, found = some number →
        number < chosen.projects.length ∧ later.projects[number]? = chosen.projects[number]?) ∧
      ∀ call : Call, call.importer? = some file →
        later.answer world call = ((registry.answer world call).1, later)) ∨
    ∃ number, later.choose world.disk world.env (some file) = Except.ok (some number, later) ∧
      chosen.owner? file = none ∧ later.owner? file = some number ∧
      chosen.projects.length ≤ number := by
  intro later
  have hchooses := chooses world registry (some file)
  rw [hchoose] at hchooses
  have hdecides : chosen.Decides file found := decides_of_chooses hchooses
  have hrange : ∀ number, found = some number → number < chosen.projects.length := by
    rintro number rfl
    exact hdecides.lt (hreachable.consistent.chooses hchooses)
  -- the first call leaves what the choice leaves, and the others let it grow
  have hfirst : (registry.answer world first).2 = chosen := by
    rw [answer_of_choice (ne_true_of_eq_false hcore) (hfile ▸ hchoose)]
  obtain ⟨added, noted, hgrow⟩ := serve_grows world chosen between
  have hlater : later = chosen.grow added noted := by
    rw [← hgrow, ← hfirst, ← serve_cons]
  rw [hlater]
  rcases hdecides.grow added noted with hkept | ⟨number, hnone, howner, hle⟩
  · refine Or.inl ⟨hkept.choose, fun number hnumber => ⟨hrange number hnumber, ?_⟩,
      fun call hcall => ?_⟩
    · rw [projects_grow, List.getElem?_append_left (hrange number hnumber)]
    · rw [answer_of_decides hkept hcall, outcome_grow hrange, answer_eq, hcall, hchoose]
      split <;> rfl
  · exact Or.inr ⟨number, choose_of_owner howner, hnone, howner, hle⟩

/-- A file that lies in no project keeps the one of its directory while another directory is looked
up. -/
theorem choice_remembered_neighbours :
    ∃ registry chosen,
      start neighbours.disk neighbours.env "/app" none = Except.ok (some registry) ∧
      registry.choose neighbours.disk neighbours.env (some "/lib/a.ts") =
        Except.ok (some 1, chosen) ∧
      let later := registry.serve neighbours
        [.absolute .blocking "x" (some "/lib/a.ts"), .relative .suspending "x" "/none/b.ts"]
      later.choose neighbours.disk neighbours.env (some "/lib/a.ts") =
        Except.ok (some 1, later) := by
  have hpasses : passes (start neighbours.disk neighbours.env "/app" none)
      (fun registry =>
        (Id.run (registry.choose neighbours.disk neighbours.env
          (some "/lib/a.ts"))).toOption.map Prod.fst == some (some 1) &&
        (registry.serve neighbours
          [.absolute .blocking "x" (some "/lib/a.ts"),
            .relative .suspending "x" "/none/b.ts"]).owner? "/lib/a.ts" == none) = true := by
    decide +kernel
  obtain ⟨registry, hstart, htest⟩ := exists_of_passes hpasses
  obtain ⟨hchoice, hnone⟩ := Bool.and_eq_true_iff.mp htest
  have hreachable : registry.Reachable := ⟨neighbours, _, _, registry, [], hstart, rfl⟩
  cases hchoose : registry.choose neighbours.disk neighbours.env (some "/lib/a.ts") with
  | error e =>
      rw [hchoose] at hchoice
      cases hchoice
  | ok choice =>
      rw [hchoose] at hchoice
      obtain ⟨found, chosen⟩ := choice
      obtain rfl : found = some 1 := Option.some.inj (eq_of_beq hchoice)
      refine ⟨registry, chosen, hstart, hchoose, ?_⟩
      rcases choice_remembered hreachable (.absolute .blocking "x" (some "/lib/a.ts")) rfl rfl
        hchoose [.relative .suspending "x" "/none/b.ts"] with hkept | ⟨number, -, -, howner, -⟩
      · exact hkept.1
      · rw [eq_of_beq hnone] at howner
        cases howner

/-- A root directory with three projects. One of them has its base directory above its own. -/
def overlapping : World :=
  .ofTree
    (.holding
      [("/app/tsconfig.json", "\x7b\x7d"),
        ("/lib/tsconfig.json", "\x7bcompilerOptions:\x7bbaseUrl:'src'\x7d\x7d"),
        ("/lib/src/x.ts", ""),
        ("/tool/tsconfig.json", "\x7bcompilerOptions:\x7bbaseUrl:'..'\x7d\x7d")])
    fun _ => none

/-- The same request of the same file gets another answer once the project of another file has been
added. -/
theorem taken_over :
    ∃ registry,
      start overlapping.disk overlapping.env "/app" none = Except.ok (some registry) ∧
      (registry.answer overlapping (.absolute .blocking "x" (some "/lib/a.ts"))).1 =
        Except.ok (some ("/lib/src/x" : Text)) ∧
      ((registry.serve overlapping
        [.absolute .blocking "x" (some "/lib/a.ts"),
          .absolute .blocking "x" (some "/tool/b.ts")]).answer overlapping
        (.absolute .blocking "x" (some "/lib/a.ts"))).1 = Except.ok none := by
  have hpasses : passes (start overlapping.disk overlapping.env "/app" none)
      (fun registry =>
        decide ((registry.answer overlapping (.absolute .blocking "x" (some "/lib/a.ts"))).1 =
          Except.ok (some ("/lib/src/x" : Text))) &&
        decide (((registry.serve overlapping
          [.absolute .blocking "x" (some "/lib/a.ts"),
            .absolute .blocking "x" (some "/tool/b.ts")]).answer overlapping
          (.absolute .blocking "x" (some "/lib/a.ts"))).1 = Except.ok none)) = true := by
    decide +kernel
  obtain ⟨registry, hstart, htest⟩ := exists_of_passes hpasses
  obtain ⟨hfirst, hagain⟩ := Bool.and_eq_true_iff.mp htest
  exact ⟨registry, hstart, of_decide_eq_true hfirst, of_decide_eq_true hagain⟩

end Registry

end PathAlias
