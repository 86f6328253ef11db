import Mathlib.Data.List.Basic
import PathAlias.Pattern

/-!
Texts cut at one character. The first and the last occurrence of a character cut a text into what is
before and what is behind it. A pattern is cut at its only wildcard, and a template at its first one.
-/

namespace PathAlias

section Cutting

variable {sep : Char} {t before after : Text}

theorem splitFirst?_eq_some_iff :
    splitFirst? sep t = some (before, after) ↔ sep ∉ before ∧ t = before ++ sep :: after := by
  induction t generalizing before with
  | nil => simp [splitFirst?]
  | cons c rest ih =>
      rw [splitFirst?]
      split_ifs with hc
      · subst hc
        cases before with
        | nil => simp [eq_comm]
        | cons first before =>
            constructor
            · intro h
              cases h
            · rintro ⟨hbefore, heq⟩
              rw [(List.cons.inj heq).1] at hbefore
              exact absurd List.mem_cons_self hbefore
      · rw [Option.map_eq_some_iff]
        constructor
        · rintro ⟨⟨start, later⟩, hparts, heq⟩
          cases heq
          obtain ⟨hstart, rfl⟩ := ih.mp hparts
          exact ⟨List.not_mem_cons_of_ne_of_not_mem (Ne.symm hc) hstart, rfl⟩
        · rintro ⟨hbefore, heq⟩
          cases before with
          | nil => exact absurd (List.cons.inj heq).1 hc
          | cons first before =>
              obtain ⟨rfl, rfl⟩ := List.cons.inj heq
              have hrest := ih.mpr ⟨List.not_mem_of_not_mem_cons hbefore, rfl⟩
              exact ⟨(before, after), hrest, rfl⟩

theorem splitFirst?_eq_none_iff : splitFirst? sep t = none ↔ sep ∉ t := by
  induction t with
  | nil => simp [splitFirst?]
  | cons c rest ih =>
      rw [splitFirst?, List.mem_cons, not_or, ← ih]
      split_ifs with hc
      · simp [hc]
      · simp [Ne.symm hc]

theorem splitLast?_eq_some_iff :
    splitLast? sep t = some (before, after) ↔ sep ∉ after ∧ t = before ++ sep :: after := by
  have hback : ∀ start later : Text, t.reverse = start ++ sep :: later ↔
      t = later.reverse ++ sep :: start.reverse := by
    intro start later
    rw [← List.reverse_inj, List.reverse_reverse]
    simp
  rw [splitLast?, Option.map_eq_some_iff]
  constructor
  · rintro ⟨⟨start, later⟩, hparts, heq⟩
    cases heq
    obtain ⟨hstart, hsplit⟩ := splitFirst?_eq_some_iff.mp hparts
    exact ⟨mt List.mem_reverse.mp hstart, (hback start later).mp hsplit⟩
  · rintro ⟨hafter, hsplit⟩
    refine ⟨(after.reverse, before.reverse), splitFirst?_eq_some_iff.mpr ⟨?_, ?_⟩, by simp⟩
    · exact mt List.mem_reverse.mp hafter
    · rw [hback, List.reverse_reverse, List.reverse_reverse]
      exact hsplit

theorem takeWhile_of_cut (h : sep ∉ before) : (before ++ sep :: after).takeWhile (· != sep) = before := by
  have hbefore : ∀ c ∈ before, (c != sep) = true := by
    intro c hc
    exact bne_iff_ne.mpr (ne_of_mem_of_not_mem hc h)
  rw [List.takeWhile_append_of_pos hbefore, List.takeWhile_cons]
  simp

end Cutting

/-! ### Patterns -/

/-- The only wildcard of a pattern stands for a text that is not empty, between what is before it
and what is behind it. -/
theorem capture?_eq_some_iff {pattern candidate captured : Text} :
    capture? pattern candidate = some captured ↔
      captured ≠ [] ∧ ∃ before after, wildcard ∉ before ∧ wildcard ∉ after ∧
        pattern = before ++ wildcard :: after ∧ candidate = before ++ (captured ++ after) := by
  rw [capture?, Option.bind_eq_bind, Option.bind_eq_some_iff]
  constructor
  · rintro ⟨⟨before, after⟩, hsplit, h⟩
    obtain ⟨hbefore, hpattern⟩ := splitFirst?_eq_some_iff.mp hsplit
    dsimp only at h
    split_ifs at h with hagain
    obtain ⟨rest, hfront, h⟩ := Option.bind_eq_some_iff.mp h
    obtain ⟨middle, hback, h⟩ := Option.bind_eq_some_iff.mp h
    split_ifs at h with hempty
    cases h
    refine ⟨hempty, before, after, hbefore, hagain, hpattern, ?_⟩
    rw [List.isSuffixOf?_eq_some_iff_append_eq.mp hback,
      List.isPrefixOf?_eq_some_iff_append_eq.mp hfront]
  · rintro ⟨hempty, before, after, hbefore, hafter, hpattern, rfl⟩
    refine ⟨(before, after), splitFirst?_eq_some_iff.mpr ⟨hbefore, hpattern⟩, ?_⟩
    have hfront : before.isPrefixOf? (before ++ (captured ++ after)) = some (captured ++ after) :=
      List.isPrefixOf?_eq_some_iff_append_eq.mpr rfl
    have hback : after.isSuffixOf? (captured ++ after) = some captured :=
      List.isSuffixOf?_eq_some_iff_append_eq.mpr rfl
    dsimp only
    rw [if_neg hafter, hfront]
    change (after.isSuffixOf? (captured ++ after)).bind _ = _
    rw [hback]
    exact if_neg hempty

/-! ### Templates -/

theorem substitute_of_not_mem {template : Text} (h : wildcard ∉ template) (captured : Text) :
    substitute template captured = template := by
  induction template with
  | nil => rfl
  | cons c rest ih =>
      have hc := List.ne_of_not_mem_cons h
      rw [substitute, if_neg (Ne.symm hc), ih (List.not_mem_of_not_mem_cons h)]

theorem substitute_append_of_not_mem {front : Text} (h : wildcard ∉ front) (back captured : Text) :
    substitute (front ++ back) captured = front ++ substitute back captured := by
  induction front with
  | nil => rfl
  | cons c front ih =>
      have hc := List.ne_of_not_mem_cons h
      rw [List.cons_append, substitute, if_neg (Ne.symm hc), ih (List.not_mem_of_not_mem_cons h)]
      rfl

theorem substitute_append_of_mem {front : Text} (h : wildcard ∈ front) (back captured : Text) :
    substitute (front ++ back) captured = substitute front captured ++ back := by
  induction front with
  | nil => exact absurd h List.not_mem_nil
  | cons c front ih =>
      rw [List.cons_append, substitute, substitute]
      split_ifs with hc
      · rw [List.append_assoc]
      · rw [ih ((List.mem_cons.mp h).resolve_left (Ne.symm hc)), List.cons_append]

end PathAlias
