import Mathlib.Data.List.Forall2
import PathAlias.Error

/-!
Steps that may fail, one after the other. A step that fails is the last one, and what is done for
every member of a list gives a result for each of them, or fails at the first one that gives none.
-/

namespace PathAlias

variable {α β : Type} {f : α → ExceptT Error Id β}

theorem bind_ok {x : ExceptT Error Id α} {result : α} (h : x = Except.ok result) :
    x >>= f = f result := by
  rw [h]
  rfl

theorem bind_error {x : ExceptT Error Id α} {e : Error} (h : x = Except.error e) :
    x >>= f = Except.error e := by
  rw [h]
  rfl

theorem bind_eq_ok {x : ExceptT Error Id α} {result : β} (h : x >>= f = Except.ok result) :
    ∃ value, x = Except.ok value ∧ f value = Except.ok result := by
  cases hx : x with
  | error e => cases (bind_error hx).symm.trans h
  | ok value => exact ⟨value, rfl, (bind_ok hx).symm.trans h⟩

theorem mapM_eq_ok {values : List α} {results : List β} (h : values.mapM f = Except.ok results) :
    List.Forall₂ (fun value result => f value = Except.ok result) values results := by
  induction values generalizing results with
  | nil =>
      cases h
      exact .nil
  | cons value rest ih =>
      rw [List.mapM_cons] at h
      obtain ⟨result, hvalue, h⟩ := bind_eq_ok h
      obtain ⟨others, hrest, h⟩ := bind_eq_ok h
      cases h
      exact .cons hvalue (ih hrest)

/-- If not all of the values give a result, then there is a first one that gives none. -/
theorem mapM_eq_error {values : List α} {e : Error} (h : values.mapM f = Except.error e) :
    ∃ (number : Nat) (value : α), values[number]? = some value ∧ f value = Except.error e ∧
      ∀ earlier < number, ∀ other, values[earlier]? = some other →
        ∃ result, f other = Except.ok result := by
  induction values with
  | nil => cases h
  | cons value rest ih =>
      rw [List.mapM_cons] at h
      cases hvalue : f value with
      | error cause =>
          cases (bind_error hvalue).symm.trans h
          exact ⟨0, value, rfl, hvalue, fun _ hlt => absurd hlt (Nat.not_lt_zero _)⟩
      | ok result =>
          replace h := (bind_ok hvalue).symm.trans h
          cases hrest : rest.mapM f with
          | ok others => cases (bind_ok hrest).symm.trans h
          | error cause =>
              cases (bind_error hrest).symm.trans h
              obtain ⟨number, failing, hat, hfails, hearlier⟩ := ih hrest
              refine ⟨number + 1, failing, hat, hfails, fun earlier hlt other hother => ?_⟩
              cases earlier with
              | zero =>
                  cases hother
                  exact ⟨result, hvalue⟩
              | succ earlier => exact hearlier earlier (Nat.lt_of_succ_lt_succ hlt) other hother

theorem mapM_congr {values : List α} {g : α → ExceptT Error Id β}
    (h : ∀ value ∈ values, f value = g value) : values.mapM f = values.mapM g := by
  induction values with
  | nil => rfl
  | cons value rest ih =>
      rw [List.mapM_cons, List.mapM_cons, h value List.mem_cons_self,
        ih fun other hother => h other (List.mem_cons_of_mem value hother)]

end PathAlias
