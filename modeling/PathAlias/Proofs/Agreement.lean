import Mathlib.Data.List.Forall2
import Mathlib.Data.Option.Basic
import PathAlias.Proofs.Disk
import PathAlias.Proofs.Uniform

/-!
Results that agree. Two results agree if both are there and stand in some relation, or both are
errors of one kind about two spellings of one path. A computation whose steps agree agrees, so
nothing else than the spelling of a path in an error tells two directories apart that are spelled
with the same components.
-/

namespace PathAlias

/-! ### Errors -/

namespace Error

def path : Error → Text
  | .configRead path _ => path
  | .configParse path => path
  | .configNotFound start => start
  | .extendsCycle path => path
  | .manifestParse path => path
  | .access path _ => path

/-- The same error about another path. -/
def about (path : Text) : Error → Error
  | .configRead _ cause => .configRead path cause
  | .configParse _ => .configParse path
  | .configNotFound _ => .configNotFound path
  | .extendsCycle _ => .extendsCycle path
  | .manifestParse _ => .manifestParse path
  | .access _ cause => .access path cause

/-- The same error about another spelling of its path. -/
structure Respelled (e other : Error) : Prop where
  about : e.about other.path = other
  path : components e.path = components other.path

theorem Respelled.refl (e : Error) : e.Respelled e := ⟨by cases e <;> rfl, rfl⟩

end Error

/-! ### Results -/

/-- Two results in this relation, or two errors that differ in the spelling of a path. -/
inductive Agree {α β : Type} (same : α → β → Prop) : Except Error α → Except Error β → Prop
  | ok {value : α} {other : β} : same value other → Agree same (.ok value) (.ok other)
  | error {e other : Error} : e.Respelled other → Agree same (.error e) (.error other)

namespace Agree

variable {α β γ δ : Type} {same : α → β → Prop} {next : γ → δ → Prop}

theorem refl {same : α → α → Prop} (hsame : ∀ value, same value value) (x : Except Error α) :
    Agree same x x := by
  cases x with
  | error e => exact .error (.refl e)
  | ok value => exact .ok (hsame value)

theorem eq_ok {x : Except Error α} {value : α} (h : Agree Eq (.ok value) x) : x = .ok value := by
  cases h with
  | ok hsame => rw [hsame]

theorem bind {x : ExceptT Error Id α} {y : ExceptT Error Id β} (h : Agree same x y)
    {f : α → ExceptT Error Id γ} {g : β → ExceptT Error Id δ}
    (hnext : ∀ value other, same value other → Agree next (f value) (g other)) :
    Agree next (x >>= f : ExceptT Error Id γ) (y >>= g : ExceptT Error Id δ) := by
  cases h with
  | ok hsame => exact hnext _ _ hsame
  | error he => exact .error he

theorem mapM {values : List γ} {f : γ → ExceptT Error Id α} {g : γ → ExceptT Error Id β}
    (h : ∀ value ∈ values, Agree same (f value) (g value)) :
    Agree (List.Forall₂ same) (values.mapM f : ExceptT Error Id (List α))
      (values.mapM g : ExceptT Error Id (List β)) := by
  induction values with
  | nil => exact .ok .nil
  | cons value rest ih =>
      rw [List.mapM_cons, List.mapM_cons]
      refine (h value List.mem_cons_self).bind fun first other hfirst => ?_
      refine (ih fun value hvalue => h value (List.mem_cons_of_mem _ hvalue)).bind
        fun later others hlater => ?_
      exact .ok (.cons hfirst hlater)

end Agree

/-! ### Searches -/

theorem rel_findSome? {α β γ δ : Type} {same : α → β → Prop} {next : γ → δ → Prop}
    {f : α → Option γ} {g : β → Option δ}
    (hnext : ∀ value other, same value other → Option.Rel next (f value) (g other))
    {values : List α} {others : List β} (h : List.Forall₂ same values others) :
    Option.Rel next (values.findSome? f) (others.findSome? g) := by
  induction h with
  | nil => exact .none
  | cons hfirst _ ih =>
      have hprobe := hnext _ _ hfirst
      rw [List.findSome?_cons, List.findSome?_cons]
      cases hf : f _ <;> cases hg : g _ <;> rw [hf, hg] at hprobe <;> cases hprobe
      · exact ih
      · exact .some ‹_›

namespace Disk

variable {disk : Disk Id} {dir other : Text}

theorem Uniform.firstFile (huniform : disk.Uniform) (h : components dir = components other)
    (names : List Text) :
    Option.Rel disk.Same (disk.firstFile dir names) (disk.firstFile other names) := by
  have hfile : (fun name => disk.isFile (append dir name)) =
      fun name => disk.isFile (append other name) :=
    funext fun name => (huniform dir other h name).isFile
  rw [firstFile_eq, firstFile_eq, hfile]
  cases names.find? fun name => disk.isFile (append other name) with
  | none => exact .none
  | some name => exact .some (huniform dir other h name)

theorem rel_walkUp {α : Type} {same : α → α → Prop} {probe : Text → Id (Option α)}
    (hprobe : ∀ dir other, components dir = components other →
      Option.Rel same (probe dir) (probe other))
    (h : components dir = components other) :
    Option.Rel same (walkUp dir probe) (walkUp other probe) := by
  rw [walkUp_eq, walkUp_eq]
  exact rel_findSome? hprobe (forall₂_ancestors h)

theorem Same.fileExists {path other : Text} (h : disk.Same path other) :
    Agree Eq (disk.fileExists path) (disk.fileExists other) := by
  rw [fileExists_eq, fileExists_eq, h.stat]
  cases disk.stat other with
  | ok kind => exact .ok rfl
  | error cause =>
      by_cases habsent : cause.isAbsence = true
      · simp only [habsent, if_true]
        exact .ok rfl
      · simp only [habsent]
        exact .error ⟨rfl, h.components⟩

end Disk

end PathAlias
