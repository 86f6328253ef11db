import Mathlib.Tactic.SplitIfs
import PathAlias.CommandLine.Arguments

/-!
How a command line is read. Arguments come in items, an option with its value being one, and every
item gives something whatever stands before and after it. So a part of a command line that is read
to its end can be told apart from what follows, and a flag between two items gives the same as at
any other place.
-/

namespace PathAlias.CommandLine

/-! ### Items -/

/-- Gives the option of a letter. -/
def Level.giveLetter (level : Level) (given : Given) (letter : Char) : Except Stop Given :=
  match level.letter? letter with
  | some switch => given.switch switch
  | none => .error .rejected

/-- The arguments of one item, and what they do to what has been given. -/
inductive Item (level : Level) : List Text → (Given → Except Stop Given) → Prop
  /-- An option with its value in the same argument. -/
  | attached {argument name value : Text} {setting : Setting} :
      shape argument = .long name (some value) → level.setting? name = some setting →
      Item level [argument] fun given => given.setting setting value
  | flag {argument name : Text} {switch : Switch} :
      shape argument = .long name none → level.switch? name = some switch →
      Item level [argument] fun given => given.switch switch
  /-- An option with its value in the next argument. -/
  | spaced {argument name value : Text} {setting : Setting} :
      shape argument = .long name none → level.switch? name = none →
      level.setting? name = some setting → looksLikeOption value = false →
      Item level [argument, value] fun given => given.setting setting value
  | letters {argument letters : Text} :
      shape argument = .short letters →
      Item level [argument] fun given => letters.foldlM level.giveLetter given
  | operand {argument : Text} :
      level = .resolve → shape argument = .operand →
      Item level [argument] fun given =>
        .ok { given with operands := given.operands ++ [argument] }

/-- What reading some arguments comes to: what is given after them, and what is left of them. -/
inductive Scans (level : Level) : Given → List Text → Given × List Text → Prop
  | done (given : Given) : Scans level given [] (given, [])
  /-- After the end of the options there are operands only. -/
  | ended (given : Given) (operands : List Text) :
      level = .resolve →
      Scans level given (['-', '-'] :: operands)
        ({ given with operands := given.operands ++ operands }, [])
  | closed (given : Given) : level ≠ .resolve → Scans level given [['-', '-']] (given, [])
  /-- The name of a command ends the options of the program. -/
  | command (given : Given) {name : Text} (rest : List Text) :
      level = .program → shape name = .operand →
      Scans level given (name :: rest) (given, name :: rest)
  | item {arguments rest : List Text} {give : Given → Except Stop Given} {given after : Given}
      {result : Given × List Text} :
      Item level arguments give → give given = .ok after → Scans level after rest result →
      Scans level given (arguments ++ rest) result

theorem bind_given_eq_ok {α β : Type} {x : Except Stop α} {f : α → Except Stop β} {result : β}
    (h : x >>= f = .ok result) : ∃ value, x = .ok value ∧ f value = .ok result := by
  cases x with
  | error stop => cases h
  | ok value => exact ⟨value, rfl, h⟩

theorem shape_eq_endOfOptions {argument : Text} (h : shape argument = .endOfOptions) :
    argument = ['-', '-'] := by
  rw [shape.eq_def] at h
  split at h
  · rfl
  · split at h <;> cases h
  · cases h
  · cases h

theorem scans_of_scan {level : Level} {given : Given} {arguments : List Text}
    {result : Given × List Text} (h : scan level given arguments = .ok result) :
    Scans level given arguments result := by
  fun_induction scan level given arguments with
  | case1 given =>
      cases h
      exact .done given
  | case2 given argument rest hshape hlevel =>
      cases h
      rw [shape_eq_endOfOptions hshape]
      exact .ended given rest hlevel
  | case3 given argument hshape hlevel =>
      cases h
      rw [shape_eq_endOfOptions hshape]
      exact .closed given hlevel
  | case5 given argument rest name value hshape setting hsetting ih =>
      obtain ⟨after, hgive, h⟩ := bind_given_eq_ok h
      exact .item (.attached hshape hsetting) hgive (ih after h)
  | case7 given argument rest name hshape switch hswitch ih =>
      obtain ⟨after, hgive, h⟩ := bind_given_eq_ok h
      exact .item (.flag hshape hswitch) hgive (ih after h)
  | case11 given argument name hshape hswitch setting hsetting value later hvalue ih =>
      obtain ⟨after, hgive, h⟩ := bind_given_eq_ok h
      exact .item (.spaced hshape hswitch hsetting (Bool.eq_false_iff.mpr hvalue)) hgive
        (ih after h)
  | case12 given argument rest letters hshape ih =>
      obtain ⟨after, hgive, h⟩ := bind_given_eq_ok h
      exact .item (.letters hshape) hgive (ih after h)
  | case13 given argument rest hshape hlevel =>
      cases h
      exact .command given rest hlevel hshape
  | case14 given argument rest hshape hlevel ih =>
      subst hlevel
      exact .item (.operand rfl hshape) rfl (ih h)
  | case4 | case6 | case8 | case9 | case10 | case15 => cases h

theorem scan_item {level : Level} {arguments : List Text} {give : Given → Except Stop Given}
    (h : Item level arguments give) (given : Given) (rest : List Text) :
    scan level given (arguments ++ rest) = give given >>= fun after => scan level after rest := by
  cases h with
  | attached hshape hsetting =>
      rw [List.singleton_append, scan.eq_def]
      simp only [hshape, hsetting]
  | flag hshape hswitch =>
      rw [List.singleton_append, scan.eq_def]
      simp only [hshape, hswitch]
  | spaced hshape hswitch hsetting hvalue =>
      rw [List.cons_append, List.singleton_append, scan.eq_def]
      simp only [hshape, hswitch, hsetting, hvalue, Bool.false_eq_true, if_false]
  | letters hshape =>
      rw [List.singleton_append, scan.eq_def]
      simp only [hshape]
      rfl
  | operand hlevel hshape =>
      subst hlevel
      rw [List.singleton_append, scan.eq_def]
      simp only [hshape]
      rfl

theorem scan_of_scans {level : Level} {given : Given} {arguments : List Text}
    {result : Given × List Text} (h : Scans level given arguments result) :
    scan level given arguments = .ok result := by
  induction h with
  | done given => rfl
  | ended given operands hlevel =>
      subst hlevel
      rfl
  | closed given hlevel =>
      rw [scan.eq_def]
      exact (if_neg hlevel).trans (if_pos rfl)
  | command given rest hlevel hname =>
      subst hlevel
      rw [scan.eq_def]
      simp only [hname]
  | item hitem hgive _ ih =>
      rw [scan_item hitem, hgive]
      exact ih

/-! ### Parts of a command line -/

/-- What follows arguments that are read to their end is read as if it stood alone. -/
theorem Scans.scan_append {given after : Given} {front : List Text}
    (h : Scans .resolve given front (after, [])) (hopen : ['-', '-'] ∉ front) (rest : List Text) :
    scan .resolve given (front ++ rest) = scan .resolve after rest := by
  generalize hend : (after, ([] : List Text)) = stop at h
  induction h with
  | done given =>
      cases hend
      rfl
  | ended given operands => exact absurd List.mem_cons_self hopen
  | closed given hlevel => exact absurd rfl hlevel
  | command given rest hlevel => cases hlevel
  | item hitem hgive _ ih =>
      rw [List.append_assoc, scan_item hitem, hgive]
      exact ih (fun hmem => hopen (List.mem_append_right _ hmem)) hend

/-- What is given for the program does not depend on what follows the name of the command. -/
theorem Scans.command_append {given program : Given} {arguments later : List Text} {name : Text}
    (h : Scans .program given arguments (program, name :: later)) :
    ∃ before, arguments = before ++ name :: later ∧
      ∀ other, Scans .program given (before ++ name :: other) (program, name :: other) := by
  generalize hend : (program, name :: later) = stop at h
  induction h with
  | done given => cases hend
  | ended given operands hlevel => cases hlevel
  | closed given => cases hend
  | command given rest hlevel hname =>
      cases hend
      exact ⟨[], rfl, fun other => .command _ other hlevel hname⟩
  | item hitem hgive _ ih =>
      obtain ⟨before, rfl, hother⟩ := ih hend
      refine ⟨_ ++ before, (List.append_assoc _ before _).symm, fun other => ?_⟩
      rw [List.append_assoc]
      exact .item hitem hgive (hother other)

end PathAlias.CommandLine
