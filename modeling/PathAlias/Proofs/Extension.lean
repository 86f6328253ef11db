import PathAlias.Proofs.Cut
import PathAlias.Proofs.Path.Canonical
import PathAlias.Proofs.Precedence

/-!
Extensions that are put behind a path and taken off again. Taking off cuts a path at the last dot of
its last name. So of what has been put behind a path only the text from its last dot is taken off
again, and an extension with several dots stays in part. Dots in the path itself do not matter.
-/

namespace PathAlias

/-- What is put behind a file name: a dot and then some text without a slash. -/
inductive IsExtension : Text → Prop
  | dot {rest : Text} : rest ≠ [] → (∀ c ∈ rest, isSlash c = false) → IsExtension ('.' :: rest)

theorem isExtension_iff {ext : Text} :
    IsExtension ext ↔
      ext.head? = some '.' ∧ ext.tail ≠ [] ∧ ext.tail.all (fun c => !isSlash c) = true := by
  constructor
  · rintro ⟨hne, hslash⟩
    refine ⟨rfl, hne, List.all_eq_true.mpr fun c hc => ?_⟩
    rw [hslash c hc]
    rfl
  · rintro ⟨hdot, hne, hslash⟩
    cases ext with
    | nil => cases hdot
    | cons c rest =>
        rw [List.head?_cons, Option.some.injEq] at hdot
        subst hdot
        refine .dot hne fun c hc => ?_
        simpa using List.all_eq_true.mp hslash c hc

instance (ext : Text) : Decidable (IsExtension ext) := decidable_of_iff _ isExtension_iff.symm

/-- An extension is a beginning, perhaps empty, and the text from its last dot. -/
theorem IsExtension.exists_last {ext : Text} (h : IsExtension ext) :
    ∃ stem final, ext = stem ++ '.' :: final ∧ '.' ∉ final ∧ (stem = [] ↔ '.' ∉ ext.tail) := by
  obtain ⟨-, -⟩ := h
  rename_i rest
  cases hsplit : splitLast? '.' rest with
  | none =>
      have hrest : '.' ∉ rest := by
        rw [splitLast?, Option.map_eq_none_iff, splitFirst?_eq_none_iff] at hsplit
        exact mt List.mem_reverse.mpr hsplit
      exact ⟨[], rest, rfl, hrest, iff_of_true rfl hrest⟩
  | some parts =>
      obtain ⟨hfinal, hparts⟩ := splitLast?_eq_some_iff.mp hsplit
      refine ⟨'.' :: parts.1, parts.2, by rw [hparts]; rfl, hfinal, ?_⟩
      refine iff_of_false (List.cons_ne_nil _ _) (not_not_intro ?_)
      rw [List.tail_cons, hparts]
      exact List.mem_append_right _ List.mem_cons_self

/-- A path is a directory, which ends with a slash unless it is empty, and a name. -/
theorem exists_name (p : Text) :
    ∃ dir name, p = dir ++ name ∧ (∀ c ∈ name, isSlash c = false) ∧
      (dir = [] ∨ dir.getLast?.any isSlash = true) := by
  induction p using List.reverseRecOn with
  | nil => exact ⟨[], [], rfl, fun c hc => absurd hc List.not_mem_nil, Or.inl rfl⟩
  | append_singleton p c ih =>
      cases hc : isSlash c with
      | true => exact ⟨p ++ [c], [], by simp, fun c hc => absurd hc List.not_mem_nil, by simp [hc]⟩
      | false =>
          obtain ⟨dir, name, rfl, hname, hdir⟩ := ih
          refine ⟨dir, name ++ [c], by simp, ?_, hdir⟩
          intro other hother
          rcases List.mem_append.mp hother with hmem | hself
          · exact hname other hmem
          · rw [List.mem_singleton.mp hself]
            exact hc

/-- Taking off an extension looks at the name only. -/
theorem dropExtension_of_name {dir name : Text} (hname : ∀ c ∈ name, isSlash c = false)
    (hdir : dir = [] ∨ dir.getLast?.any isSlash = true) :
    dropExtension (dir ++ name) = dir ++ ((splitExtension? name).map Prod.fst).getD name := by
  have hkept : ∀ c ∈ name.reverse, (!isSlash c) = true := by
    intro c hc
    rw [hname c (List.mem_reverse.mp hc)]
    rfl
  have hstop : dir.reverse.takeWhile (fun c => !isSlash c) = [] ∧
      dir.reverse.dropWhile (fun c => !isSlash c) = dir.reverse := by
    rcases hdir with rfl | hlast
    · exact ⟨rfl, rfl⟩
    · rw [List.getLast?_eq_head?_reverse] at hlast
      cases hrow : dir.reverse with
      | nil => exact ⟨rfl, rfl⟩
      | cons c row =>
          rw [hrow] at hlast
          have hc : isSlash c = true := hlast
          simp [hc]
  unfold dropExtension
  dsimp only
  rw [List.reverse_append, List.takeWhile_append_of_pos hkept, List.dropWhile_append_of_pos hkept,
    hstop.1, hstop.2, List.append_nil, List.reverse_reverse, List.reverse_reverse]
  cases splitExtension? name <;> rfl

theorem splitExtension?_eq_some_iff {name stem final : Text} :
    splitExtension? name = some (stem, final) ↔
      stem ≠ [] ∧ splitLast? '.' name = some (stem, final) := by
  unfold splitExtension?
  split
  · rename_i later hnil
    rw [hnil, Option.some.injEq, Prod.mk.injEq]
    refine iff_of_false nofun ?_
    rintro ⟨hne, rfl, -⟩
    exact hne rfl
  · rename_i hstem
    refine (and_iff_right_of_imp ?_).symm
    rintro hsplit rfl
    exact hstem _ hsplit

/-- Of what is put behind a name the text from the last dot is taken off again. -/
theorem dropExtension_append {mapped stem final : Text} (hmapped : mapped ≠ [])
    (hend : ¬ mapped.getLast?.any isSlash = true)
    (hslash : ∀ c ∈ stem ++ '.' :: final, isSlash c = false) (hfinal : '.' ∉ final) :
    dropExtension (mapped ++ (stem ++ '.' :: final)) = mapped ++ stem := by
  obtain ⟨dir, name, rfl, hname, hdir⟩ := exists_name mapped
  have hne : name ≠ [] := by
    rintro rfl
    rw [List.append_nil] at hmapped hend
    exact hend (hdir.resolve_left hmapped)
  have hsplit : splitLast? '.' (name ++ (stem ++ '.' :: final)) = some (name ++ stem, final) :=
    splitLast?_eq_some_iff.mpr ⟨hfinal, (List.append_assoc ..).symm⟩
  have hextension : splitExtension? (name ++ (stem ++ '.' :: final)) = some (name ++ stem, final) :=
    splitExtension?_eq_some_iff.mpr ⟨List.append_ne_nil_of_left_ne_nil hne stem, hsplit⟩
  have hkept : ∀ c ∈ name ++ (stem ++ '.' :: final), isSlash c = false :=
    List.forall_mem_append.mpr ⟨hname, hslash⟩
  rw [List.append_assoc, dropExtension_of_name hkept hdir, hextension, List.append_assoc]
  rfl

theorem dropExtension_ne_nil {ext : Text} (h : IsExtension ext) : dropExtension ext ≠ [] := by
  obtain ⟨hne, hslash⟩ := h
  rename_i rest
  have hname : ∀ c ∈ '.' :: rest, isSlash c = false :=
    List.forall_mem_cons.mpr ⟨rfl, hslash⟩
  have hdrop := dropExtension_of_name hname (Or.inl rfl)
  rw [List.nil_append, List.nil_append] at hdrop
  rw [hdrop]
  cases hsplit : splitExtension? ('.' :: rest) with
  | none => exact List.cons_ne_nil _ _
  | some parts => exact (splitExtension?_eq_some_iff.mp hsplit).1

/-! ### Searches that end with an extension -/

theorem isAbsolute_substitute {template : Text} (h : isAbsolute template = true) (captured : Text) :
    isAbsolute (substitute template captured) = true := by
  cases template with
  | nil => cases h
  | cons c rest =>
      rw [isAbsolute, List.head?_cons, beq_iff_eq, Option.some.injEq] at h
      rw [substitute, if_neg (by rw [h]; decide)]
      simp [isAbsolute, h]

/-- Over an absolute directory every request is mapped to absolute paths. -/
theorem isAbsolute_of_mapped? {base : Text} (hbase : isAbsolute base = true) {table : PathTable}
    {matchAll : Bool} {request mapped : Text} {position : Position}
    (h : position.mapped? (compile base table matchAll) request = some mapped) :
    isAbsolute mapped = true := by
  obtain ⟨-, entry, captured, template, hentry, -, htemplate, rfl⟩ :=
    Position.mapped?_eq_some_iff.mp h
  have htarget := isAbsolute_target (List.mem_of_getElem? hentry) (List.mem_of_getElem? htemplate)
    hbase
  exact isAbsolute_substitute htarget captured

/-- **An extension is taken off from its last dot.** Where a search ends with the file that has an
extension behind a mapped path, the answer is the mapped path with what the extension has before its
last dot. So it is the mapped path itself, and the extension behind it gives the file that was found,
exactly if the extension has no other dot than its first one. The mapped path is not empty as it is
over a relative directory only. -/
theorem answer_of_extension (base : Text) (table : PathTable) (matchAll : Bool)
    (extensions mainFields : List Text) (request : Text) (fs : FileSystem Id)
    (hextensions : ∀ ext ∈ extensions, IsExtension ext)
    {position : Position} {number : Nat} {mapped ext : Text}
    (hslot : position.slot = .extension number) (hext : extensions[number]? = some ext)
    (hmapped : position.mapped? (compile base table matchAll) request = some mapped)
    (hend : ¬ mapped.getLast?.any isSlash = true)
    (hearlier : (Matcher.ofTable base table mainFields matchAll).MissesBefore fs extensions request
      position)
    (hfound : fs (.file (mapped ++ ext)) = .ok true) :
    ∃ answer,
      ((Matcher.ofTable base table mainFields matchAll).search extensions request).run fs =
        Except.ok (some answer) ∧
      (answer = mapped ↔ '.' ∉ ext.tail ∧ mapped ≠ []) ∧
      (answer ++ ext = mapped ++ ext ↔ '.' ∉ ext.tail ∧ mapped ≠ []) ∧
      (∃ stem final, ext = stem ++ '.' :: final ∧ '.' ∉ final ∧
        (mapped ≠ [] → answer = mapped ++ stem)) ∧
      (isAbsolute base = true → mapped ≠ []) := by
  have hshape := hextensions ext (List.mem_of_getElem? hext)
  obtain ⟨stem, final, hsplit, hfinal, hstem⟩ := hshape.exists_last
  have hslash : ∀ c ∈ ext, isSlash c = false := by
    obtain ⟨-, hrest⟩ := hshape
    exact List.forall_mem_cons.mpr ⟨rfl, hrest⟩
  have hanswer : mapped ≠ [] → dropExtension (mapped ++ ext) = mapped ++ stem := by
    intro hne
    rw [hsplit] at hslash ⊢
    exact dropExtension_append hne hend hslash hfinal
  have hiff : dropExtension (mapped ++ ext) = mapped ↔ '.' ∉ ext.tail ∧ mapped ≠ [] := by
    by_cases hne : mapped = []
    · subst hne
      exact iff_of_false (dropExtension_ne_nil hshape) (fun h => h.2 rfl)
    · rw [hanswer hne, List.append_right_eq_self, hstem]
      exact (and_iff_left hne).symm
  have hcandidate : position.candidate? extensions (compile base table matchAll) request =
      some { kind := .extension, path := mapped ++ ext } := by
    rw [Position.candidate?_of_mapped? hmapped, hslot]
    exact congrArg (Option.map _) hext
  have hhits : Candidate.Hits fs mainFields { kind := .extension, path := mapped ++ ext }
      (dropExtension (mapped ++ ext)) := .file nofun hfound
  refine ⟨dropExtension (mapped ++ ext), ?_, hiff, ?_, ⟨stem, final, hsplit, hfinal, hanswer⟩, ?_⟩
  · apply (Matcher.run_search_iff fs (Matcher.ofTable base table mainFields matchAll) extensions
      request _ (by simp)).mpr
    exact ⟨position, _, hcandidate, hhits.run, hearlier⟩
  · rw [List.append_left_inj]
    exact hiff
  · rintro hbase rfl
    cases isAbsolute_of_mapped? hbase hmapped

/-- Dots in the mapped path stay where a file is found by its extension. -/
theorem answer_of_extension_dotted :
    let table := PathTable.ofList [("@/*", ["src.d/*"])]
    let matcher := Matcher.ofTable "/app" table [] false
    let ext : Text := ".ts"
    let mapped : Text := "/app/src.d/x.test"
    let fs := holding (mapped ++ ext)
    let position : Position := { rank := 0, target := 0, slot := .extension 0 }
    IsExtension ext ∧ position.mapped? matcher.entries "@/x.test" = some mapped ∧
    matcher.MissesBefore fs [ext] "@/x.test" position ∧
    (matcher.search [ext] "@/x.test").run fs = Except.ok (some mapped) := by
  intro table matcher ext mapped fs position
  have hext : IsExtension ext := by decide
  have hextensions : ∀ other ∈ [ext], IsExtension other := List.forall_mem_singleton.mpr hext
  have hmapped : position.mapped? matcher.entries "@/x.test" = some mapped := by decide +kernel
  have hmiss : ∀ item ∈ placed [ext] matcher.entries "@/x.test", item.1.key < position.key →
      @Eq (Except Error (Option Text)) ((item.2.probe []).run fs) (.ok none) := by decide +kernel
  have hearlier := (matcher.earlierMiss_placed_iff fs [ext] "@/x.test" position).mp hmiss
  have hfound : fs (.file (mapped ++ ext)) = .ok true := congrArg Except.ok (beq_self_eq_true _)
  obtain ⟨answer, hsearch, hanswer, -⟩ := answer_of_extension "/app" table false [ext] [] "@/x.test" fs
    hextensions rfl rfl hmapped (by decide) hearlier hfound
  have hsame : answer = mapped := hanswer.mpr (by decide)
  exact ⟨hext, hmapped, hearlier, hsame ▸ hsearch⟩

/-- Of an extension with two dots the part before its last dot stays, and the extension behind the
answer is not the file that was found. -/
theorem extension_with_two_dots :
    let table := PathTable.ofList [("@/*", ["src/*"])]
    let matcher := Matcher.ofTable "/app" table [] false
    let ext : Text := ".d.ts"
    let mapped : Text := "/app/src/x"
    let position : Position := { rank := 0, target := 0, slot := .extension 0 }
    let answer : Text := "/app/src/x.d"
    IsExtension ext ∧ position.mapped? matcher.entries "@/x" = some mapped ∧
    matcher.recorded (holding (mapped ++ ext)) [ext] "@/x" =
      (.ok (some answer), [.file mapped, .file (mapped ++ ext)]) ∧
    answer ≠ mapped ∧ answer ++ ext ≠ mapped ++ ext := by
  intro table matcher ext mapped position answer
  have hext : IsExtension ext := by decide
  exact ⟨hext, by decide +kernel, by decide +kernel, by decide, by decide⟩

end PathAlias
