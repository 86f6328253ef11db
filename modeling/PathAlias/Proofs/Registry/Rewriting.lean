import PathAlias.Proofs.Path.Specifier
import PathAlias.Proofs.Registry.History

/-!
Requests that are rewritten. A rewritten request is the local specifier of the path that the request
is mapped to, so what it names when it is read from the importing file is a matter of the two paths
alone, whatever the registry has and however it got there.
-/

namespace PathAlias

namespace Registry

theorem find_mode (fs : FileSystem Id) (mode other : Mode) (request : Text) (registry : Registry)
    (found : Option Nat) :
    registry.find fs mode request found = registry.find fs other request found := by
  rw [find, find]
  cases found.bind fun number => registry.projects[number]? with
  | none => rfl
  | some project => simp only [Lookup.outcome_eq_run]

/-- What is answered is answered by a project that has been chosen. -/
theorem chosen_of_answer {world : World} {registry : Registry} {call : Call} {answered : Text}
    (h : (registry.answer world call).1 = .ok (some answered)) :
    ¬ isCoreModule call.request = true ∧ ∃ found chosen,
      registry.choose world.disk world.env call.importer? = Except.ok (found, chosen) ∧
      call.outcome world.fs chosen found = .ok (some answered) := by
  by_cases hcore : isCoreModule call.request = true
  · rw [answer_of_core hcore] at h
    cases h
  refine ⟨hcore, ?_⟩
  cases hchoose : registry.choose world.disk world.env call.importer? with
  | error e =>
      rw [answer_of_failure hcore hchoose] at h
      cases h
  | ok choice =>
      rw [answer_of_choice hcore hchoose] at h
      exact ⟨choice.1, choice.2, rfl, h⟩

/-- A rewritten request is the local specifier of the path that is found for it. -/
theorem found_of_relative {fs : FileSystem Id} {registry : Registry} {found : Option Nat}
    {mode : Mode} {request parent specifier : Text}
    (h : (Call.relative mode request parent).outcome fs registry found = .ok (some specifier)) :
    ∃ path, registry.find fs mode request found = .ok (some path) ∧
      specifier = localSpecifier (parentOrHere parent) path := by
  rw [Call.outcome] at h
  split at h
  · rename_i path hfind
    split at h
    · cases h
    · cases h
      exact ⟨path, hfind, rfl⟩
    · cases h
  · rename_i hunmapped
    exact absurd h (hunmapped specifier)

/-- What is rewritten is mapped, in either mode, and rewritten as the local specifier of the path. -/
theorem absolute_of_relative {world : World} {registry : Registry} {mode : Mode}
    {request parent specifier : Text}
    (h : (registry.answer world (.relative mode request parent)).1 = .ok (some specifier)) :
    ∃ path, specifier = localSpecifier (parentOrHere parent) path ∧
      ∀ other,
        (registry.answer world (.absolute other request (some parent))).1 = .ok (some path) := by
  obtain ⟨hcore, found, chosen, hchoose, houtcome⟩ := chosen_of_answer h
  obtain ⟨path, hfind, hspecifier⟩ := found_of_relative houtcome
  refine ⟨path, hspecifier, fun other => ?_⟩
  have hmapped : ¬ isCoreModule (Call.absolute other request (some parent)).request = true := hcore
  have hmode := find_mode world.fs other mode request chosen found
  rw [answer_of_choice hmapped hchoose]
  exact hmode.trans hfind

/-- **Rewritten specifiers.** Whatever a registry has met, a request that is rewritten for an
importing file is mapped for it, and read from the directory of the file the specifier names the
path that the request is mapped to, as long as the two paths count from the same place and do not
lead above it. The exception is a directory that is known as `.` only: from there the specifier names
no other path than that directory itself. -/
theorem rewritten_specifier {world : World} {registry : Registry} {mode : Mode}
    {request parent specifier : Text}
    (h : (registry.answer world (.relative mode request parent)).1 = .ok (some specifier)) :
    ∃ path,
      (∀ other,
        (registry.answer world (.absolute other request (some parent))).1 = .ok (some path)) ∧
      (Together parent path →
        (normalize (append (parentOrHere parent) specifier) = normalize path ↔
          (normalize (parentOrHere parent) = "." → normalize path = "."))) := by
  obtain ⟨path, rfl, hpath⟩ := absolute_of_relative h
  exact ⟨path, hpath, normalize_localSpecifier_iff⟩

/-- A project whose path table leads to its sources. -/
def aliased (cwd : Location) : World :=
  .seenFrom
    (.holding
      [("/app/tsconfig.json",
          "\x7bcompilerOptions:\x7bbaseUrl:'.',paths:\x7b'@/*':['src/*']\x7d\x7d\x7d"),
        ("/app/src/x.ts", "")])
    cwd fun _ => none

theorem rewritten_specifier_beside :
    ∃ registry,
      start (aliased []).disk (aliased []).env "/app" none = Except.ok (some registry) ∧
      (registry.answer (aliased []) (.relative .blocking "@/x" "/app/test/../bin/a.ts")).1 =
        Except.ok (some ("../src/x" : Text)) ∧
      (registry.answer (aliased []) (.absolute .suspending "@/x" (some "/app/test/../bin/a.ts"))).1 =
        Except.ok (some ("/app/src/x" : Text)) ∧
      normalize (append "/app/test/../bin" "../src/x") = normalize "/app/src/x" := by
  have hpasses : passes (start (aliased []).disk (aliased []).env "/app" none) (fun registry =>
      decide ((registry.answer (aliased [])
        (.relative .blocking "@/x" "/app/test/../bin/a.ts")).1 =
          Except.ok (some ("../src/x" : Text))) &&
      decide ((registry.answer (aliased [])
        (.absolute .suspending "@/x" (some "/app/test/../bin/a.ts"))).1 =
          Except.ok (some ("/app/src/x" : Text)))) = true := by
    decide +kernel
  obtain ⟨registry, hstart, htest⟩ := exists_of_passes hpasses
  obtain ⟨hrelative, habsolute⟩ := Bool.and_eq_true_iff.mp htest
  have hrelative := of_decide_eq_true hrelative
  have habsolute := of_decide_eq_true habsolute
  obtain ⟨path, hpath, hreads⟩ := rewritten_specifier hrelative
  obtain rfl : path = "/app/src/x" :=
    Option.some.inj (Except.ok.inj ((hpath .suspending).symm.trans habsolute))
  have htogether : Together "/app/test/../bin/a.ts" "/app/src/x" := by decide
  have hdir : parentOrHere "/app/test/../bin/a.ts" = "/app/test/../bin" := by decide
  have hplace : normalize (parentOrHere "/app/test/../bin/a.ts") ≠ "." := by decide
  rw [← hdir]
  exact ⟨registry, hstart, hrelative, habsolute,
    (hreads htogether).mpr fun hhere => absurd hhere hplace⟩

/-- A host that knows its directory as `.` gets a specifier that leads out of this directory, for a
file that lies in it. -/
theorem specifier_leads_out :
    ∃ registry,
      start (aliased ["app"]).disk (aliased ["app"]).env "." none = Except.ok (some registry) ∧
      (registry.answer (aliased ["app"]) (.relative .blocking "@/x" "./a.ts")).1 =
        Except.ok (some ("../src/x" : Text)) ∧
      (registry.answer (aliased ["app"]) (.absolute .blocking "@/x" (some "./a.ts"))).1 =
        Except.ok (some ("src/x" : Text)) ∧
      Together "./a.ts" "src/x" ∧
      normalize (append (parentOrHere "./a.ts") "../src/x") ≠ normalize "src/x" := by
  have hpasses : passes (start (aliased ["app"]).disk (aliased ["app"]).env "." none)
      (fun registry =>
        decide ((registry.answer (aliased ["app"]) (.relative .blocking "@/x" "./a.ts")).1 =
          Except.ok (some ("../src/x" : Text))) &&
        decide ((registry.answer (aliased ["app"])
          (.absolute .blocking "@/x" (some "./a.ts"))).1 =
            Except.ok (some ("src/x" : Text)))) = true := by
    decide +kernel
  obtain ⟨registry, hstart, htest⟩ := exists_of_passes hpasses
  obtain ⟨hrelative, habsolute⟩ := Bool.and_eq_true_iff.mp htest
  exact ⟨registry, hstart, of_decide_eq_true hrelative, of_decide_eq_true habsolute, by decide,
    by decide⟩

end Registry

end PathAlias
