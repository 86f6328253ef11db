import PathAlias.Matcher
import PathAlias.Proofs.Lookup

/-!
How a candidate fares. Under fixed answers a candidate hits, misses or fails, and exactly one of
these; its probe ends accordingly. A package hits only if it is there and the first of its main
fields that holds a string other than the empty one names a file that exists.
-/

namespace PathAlias

namespace Manifest

/-- A field holds a string that is not empty. -/
def Holds (manifest : Manifest) (name main : Text) : Prop :=
  (manifest.field? name).bind Json.Value.string? = some main ∧ main ≠ []

/-- The first of the named fields that holds a string which is not empty holds `main`. -/
def FirstMain (manifest : Manifest) (mainFields : List Text) (main : Text) : Prop :=
  ∃ earlier name later, mainFields = earlier ++ name :: later ∧ manifest.Holds name main ∧
    ∀ other ∈ earlier, ∀ text, ¬ manifest.Holds other text

end Manifest

namespace Candidate

variable (fs : FileSystem Id) (mainFields : List Text) (candidate : Candidate)

/-- The candidate exists and answers. -/
inductive Hits : Text → Prop
  | file : candidate.kind ≠ .package → fs (.file candidate.path) = .ok true →
      Hits candidate.answer
  | package (manifest : Manifest) (main : Text) : candidate.kind = .package →
      fs (.manifest candidate.path) = .ok (some manifest) → manifest.FirstMain mainFields main →
      fs (.file (candidate.mainFile main)) = .ok true →
      Hits (dropExtension (candidate.mainFile main))

/-- The candidate is probed without an error and does not answer. -/
inductive Misses : Prop
  | file : candidate.kind ≠ .package → fs (.file candidate.path) = .ok false → Misses
  | absent : candidate.kind = .package → fs (.manifest candidate.path) = .ok none → Misses
  | unnamed (manifest : Manifest) : candidate.kind = .package →
      fs (.manifest candidate.path) = .ok (some manifest) →
      (∀ main, ¬ manifest.FirstMain mainFields main) → Misses
  | missing (manifest : Manifest) (main : Text) : candidate.kind = .package →
      fs (.manifest candidate.path) = .ok (some manifest) → manifest.FirstMain mainFields main →
      fs (.file (candidate.mainFile main)) = .ok false → Misses

/-- A probe of the candidate is answered by an error. -/
inductive Fails : Error → Prop
  | file (e : Error) : candidate.kind ≠ .package → fs (.file candidate.path) = .error e → Fails e
  | manifest (e : Error) : candidate.kind = .package →
      fs (.manifest candidate.path) = .error e → Fails e
  | main (e : Error) (manifest : Manifest) (main : Text) : candidate.kind = .package →
      fs (.manifest candidate.path) = .ok (some manifest) → manifest.FirstMain mainFields main →
      fs (.file (candidate.mainFile main)) = .error e → Fails e

/-- What is asked about the candidate, in order: one question, and right after a manifest that names a
main file whether that file is there. -/
inductive Asks : List Question → Prop
  | file : candidate.kind ≠ .package → Asks [.file candidate.path]
  | manifest : candidate.kind = .package →
      (∀ manifest main, fs (.manifest candidate.path) = .ok (some manifest) →
        ¬ manifest.FirstMain mainFields main) →
      Asks [.manifest candidate.path]
  | main (manifest : Manifest) (main : Text) : candidate.kind = .package →
      fs (.manifest candidate.path) = .ok (some manifest) → manifest.FirstMain mainFields main →
      Asks [.manifest candidate.path, .file (candidate.mainFile main)]

end Candidate

namespace Manifest

theorem named_eq_some_iff (manifest : Manifest) (name main : Text) :
    (match (manifest.field? name).bind Json.Value.string? with
      | some [] => none
      | found => found) = some main ↔ manifest.Holds name main := by
  rw [Holds]
  cases (manifest.field? name).bind Json.Value.string? with
  | none => simp only [reduceCtorEq, false_and]
  | some text =>
      cases text with
      | nil =>
          constructor
          · intro h
            cases h
          · rintro ⟨h, hne⟩
            exact absurd (Option.some.inj h).symm hne
      | cons c rest =>
          simp only [Option.some.injEq, iff_self_and]
          rintro rfl
          exact List.cons_ne_nil c rest

theorem mainFile?_eq_some_iff (manifest : Manifest) (mainFields : List Text) (main : Text) :
    manifest.mainFile? mainFields = some main ↔ manifest.FirstMain mainFields main := by
  have hfield := manifest.named_eq_some_iff
  rw [mainFile?, List.findSome?_eq_some_iff]
  constructor
  · rintro ⟨earlier, name, later, hsplit, hname, hearlier⟩
    refine ⟨earlier, name, later, hsplit, (hfield name main).mp hname, fun other hother text h => ?_⟩
    cases ((hfield other text).mpr h).symm.trans (hearlier other hother)
  · rintro ⟨earlier, name, later, hsplit, hname, hearlier⟩
    refine ⟨earlier, name, later, hsplit, (hfield name main).mpr hname, fun other hother => ?_⟩
    exact Option.eq_none_iff_forall_ne_some.mpr fun text h =>
      hearlier other hother text ((hfield other text).mp h)

end Manifest

namespace Candidate

variable (fs : FileSystem Id) (mainFields : List Text) (candidate : Candidate)

theorem probe_of_ne_package (hkind : candidate.kind ≠ .package) :
    candidate.probe mainFields = .ask (.file candidate.path) fun isThere =>
      .done (if isThere then some candidate.answer else none) := by
  rw [probe]
  cases hcase : candidate.kind with
  | package => exact absurd hcase hkind
  | _ => rfl

theorem probe_of_package (hkind : candidate.kind = .package) :
    candidate.probe mainFields = .ask (.manifest candidate.path) fun manifest =>
      match manifest.bind fun present => present.mainFile? mainFields with
      | none => .done none
      | some main => .ask (.file (candidate.mainFile main)) fun isThere =>
          .done (if isThere then some (dropExtension (candidate.mainFile main)) else none) := by
  obtain ⟨path, kind⟩ := candidate
  cases hkind
  refine congrArg (Lookup.ask _) (funext fun manifest => ?_)
  cases manifest.bind fun present => present.mainFile? mainFields <;> rfl

/-- How the probe of a candidate ends is how the candidate fares. -/
theorem run_probe_cases :
    (∃ answer, (candidate.probe mainFields).run fs = Except.ok (some answer) ∧
      candidate.Hits fs mainFields answer) ∨
    ((candidate.probe mainFields).run fs = Except.ok none ∧ candidate.Misses fs mainFields) ∨
    (∃ e, (candidate.probe mainFields).run fs = Except.error e ∧
      candidate.Fails fs mainFields e) := by
  by_cases hkind : candidate.kind = .package
  · rw [probe_of_package _ _ hkind, Lookup.run_ask]
    cases hmanifest : fs (.manifest candidate.path) with
    | error e => exact Or.inr (Or.inr ⟨e, rfl, .manifest e hkind hmanifest⟩)
    | ok answer =>
        cases answer with
        | none => exact Or.inr (Or.inl ⟨rfl, .absent hkind hmanifest⟩)
        | some manifest =>
            simp only [Option.bind_some]
            cases hmain : manifest.mainFile? mainFields with
            | none =>
                refine Or.inr (Or.inl ⟨rfl, .unnamed manifest hkind hmanifest fun main h => ?_⟩)
                rw [← Manifest.mainFile?_eq_some_iff, hmain] at h
                cases h
            | some main =>
                have hfirst := (manifest.mainFile?_eq_some_iff mainFields main).mp hmain
                simp only [Lookup.run_ask]
                cases hfile : fs (.file (candidate.mainFile main)) with
                | error e =>
                    exact Or.inr (Or.inr ⟨e, rfl, .main e manifest main hkind hmanifest hfirst hfile⟩)
                | ok isThere =>
                    cases isThere with
                    | false =>
                        exact Or.inr (Or.inl ⟨rfl, .missing manifest main hkind hmanifest hfirst hfile⟩)
                    | true =>
                        exact Or.inl ⟨_, rfl, .package manifest main hkind hmanifest hfirst hfile⟩
  · rw [probe_of_ne_package _ _ hkind, Lookup.run_ask]
    cases hfile : fs (.file candidate.path) with
    | error e => exact Or.inr (Or.inr ⟨e, rfl, .file e hkind hfile⟩)
    | ok isThere =>
        cases isThere with
        | false => exact Or.inr (Or.inl ⟨rfl, .file hkind hfile⟩)
        | true => exact Or.inl ⟨_, rfl, .file hkind hfile⟩

variable {fs mainFields candidate}

theorem run_probe_package {manifest : Manifest} {main : Text} (hkind : candidate.kind = .package)
    (hmanifest : fs (.manifest candidate.path) = .ok (some manifest))
    (hmain : manifest.FirstMain mainFields main) :
    (candidate.probe mainFields).run fs =
      match fs (.file (candidate.mainFile main)) with
      | .ok isThere =>
          Except.ok (if isThere then some (dropExtension (candidate.mainFile main)) else none)
      | .error e => .error e := by
  rw [probe_of_package _ _ hkind, Lookup.run_ask, hmanifest]
  simp only [Option.bind_some]
  rw [(manifest.mainFile?_eq_some_iff mainFields main).mpr hmain]
  simp only [Lookup.run_ask]
  cases fs (.file (candidate.mainFile main)) <;> rfl

theorem Hits.run {answer : Text} (h : candidate.Hits fs mainFields answer) :
    (candidate.probe mainFields).run fs = Except.ok (some answer) := by
  cases h with
  | file hkind hfile => rw [probe_of_ne_package _ _ hkind, Lookup.run_ask, hfile]; rfl
  | package manifest main hkind hmanifest hmain hfile =>
      rw [run_probe_package hkind hmanifest hmain, hfile]
      rfl

theorem Misses.run (h : candidate.Misses fs mainFields) :
    (candidate.probe mainFields).run fs = Except.ok none := by
  cases h with
  | file hkind hfile => rw [probe_of_ne_package _ _ hkind, Lookup.run_ask, hfile]; rfl
  | absent hkind hmanifest => rw [probe_of_package _ _ hkind, Lookup.run_ask, hmanifest]; rfl
  | unnamed manifest hkind hmanifest hmain =>
      have hnone : manifest.mainFile? mainFields = none :=
        Option.eq_none_iff_forall_ne_some.mpr fun main h =>
          hmain main ((manifest.mainFile?_eq_some_iff mainFields main).mp h)
      rw [probe_of_package _ _ hkind, Lookup.run_ask, hmanifest]
      simp only [Option.bind_some, hnone]
      rfl
  | missing manifest main hkind hmanifest hmain hfile =>
      rw [run_probe_package hkind hmanifest hmain, hfile]
      rfl

theorem Fails.run {e : Error} (h : candidate.Fails fs mainFields e) :
    (candidate.probe mainFields).run fs = Except.error e := by
  cases h with
  | file hkind hfile => rw [probe_of_ne_package _ _ hkind, Lookup.run_ask, hfile]
  | manifest hkind hmanifest => rw [probe_of_package _ _ hkind, Lookup.run_ask, hmanifest]
  | main manifest main hkind hmanifest hmain hfile =>
      rw [run_probe_package hkind hmanifest hmain, hfile]

variable (fs mainFields candidate)

theorem hits_iff (answer : Text) :
    candidate.Hits fs mainFields answer ↔
      (candidate.probe mainFields).run fs = Except.ok (some answer) := by
  refine ⟨Hits.run, fun h => ?_⟩
  rcases candidate.run_probe_cases fs mainFields with ⟨found, hrun, hhits⟩ | ⟨hrun, _⟩ | ⟨e, hrun, _⟩
  · cases hrun.symm.trans h
    exact hhits
  · cases hrun.symm.trans h
  · cases hrun.symm.trans h

theorem misses_iff :
    candidate.Misses fs mainFields ↔
      (candidate.probe mainFields).run fs = Except.ok none := by
  refine ⟨Misses.run, fun h => ?_⟩
  rcases candidate.run_probe_cases fs mainFields with ⟨found, hrun, _⟩ | ⟨_, hmiss⟩ | ⟨e, hrun, _⟩
  · cases hrun.symm.trans h
  · exact hmiss
  · cases hrun.symm.trans h

theorem fails_iff (e : Error) :
    candidate.Fails fs mainFields e ↔
      (candidate.probe mainFields).run fs = Except.error e := by
  refine ⟨Fails.run, fun h => ?_⟩
  rcases candidate.run_probe_cases fs mainFields with ⟨found, hrun, _⟩ | ⟨hrun, _⟩ | ⟨e', hrun, hfails⟩
  · cases hrun.symm.trans h
  · cases hrun.symm.trans h
  · cases hrun.symm.trans h
    exact hfails

/-- What a probe asks is what is asked about the candidate. -/
theorem asks_probe : candidate.Asks fs mainFields ((candidate.probe mainFields).asked fs) := by
  by_cases hkind : candidate.kind = .package
  · rw [probe_of_package _ _ hkind, Lookup.asked_ask]
    cases hmanifest : fs (.manifest candidate.path) with
    | error e =>
        refine .manifest hkind fun manifest main h => ?_
        cases hmanifest.symm.trans h
    | ok answer =>
        cases answer with
        | none =>
            refine .manifest hkind fun manifest main h => ?_
            cases hmanifest.symm.trans h
        | some manifest =>
            simp only [Option.bind_some]
            cases hmain : manifest.mainFile? mainFields with
            | none =>
                refine .manifest hkind fun other main h hfirst => ?_
                cases hmanifest.symm.trans h
                cases hmain.symm.trans ((manifest.mainFile?_eq_some_iff mainFields main).mpr hfirst)
            | some main =>
                have hfirst := (manifest.mainFile?_eq_some_iff mainFields main).mp hmain
                have hasked := Asks.main manifest main hkind hmanifest hfirst
                simp only [Lookup.asked_ask]
                cases fs (.file (candidate.mainFile main)) <;> exact hasked
  · rw [probe_of_ne_package _ _ hkind, Lookup.asked_ask]
    cases fs (.file candidate.path) <;> exact .file hkind

end Candidate

end PathAlias
