import PathAlias.Proofs.Capture
import PathAlias.Proofs.Installed

/-!
Names of packages. A request is cut into at most three pieces, and its first piece names the package,
or its first two pieces if the first one is a scope. The name is a beginning of the request, taken as a
slice whose end is told from the lengths of the two pieces. This end is where the second piece ends, so
the slice can always be taken. What stands behind the name does not count, so the name is the package
that the name itself names, and that every request below it names.
-/

namespace PathAlias

/-- The pieces of a text between the occurrences of `sep`, at most so many. The last of them is all that
is left. -/
def splitAtMost (sep : Char) : Nat → Text → List Text
  | 0, _ => []
  | 1, t => [t]
  | limit + 2, t =>
      match splitFirst? sep t with
      | some (before, after) => before :: splitAtMost sep (limit + 1) after
      | none => [t]

/-- The first of the pieces behind a scope, unless it is empty. -/
def ownPiece? : List Text → Option Text
  | [] => none
  | [] :: _ => none
  | own :: _ => some own

/-- What a request names that is cut into these pieces. A scope and the name in it are sliced out of the
bytes of the request. There is no outcome where the slice cannot be taken. -/
def nameFromPieces (request : Text) : List Text → Option (Option (List UInt8))
  | [] => some none
  | first :: rest =>
      if first.head? = some '@' then
        match ownPiece? rest with
        | none => some none
        | some own =>
            let stop := utf8Length first + 1 + utf8Length own
            (Utf8.slice? (Utf8.encode request) 0 stop).map some
      else some (some (Utf8.encode first))

/-- The package that a request names, told from the lengths of its pieces in bytes. -/
def packageNameBySlice (request : Text) : Option (Option (List UInt8)) :=
  if request = [] ∨ request.head? = some '.' ∨ request.head? = some '/' then some none
  else nameFromPieces request (splitAtMost '/' 3 request)

/-! ### Pieces of a request -/

/-- Up to the limit the pieces are those between all occurrences. -/
theorem take_splitAtMost (sep : Char) (limit : Nat) (t : Text) :
    (splitAtMost sep (limit + 1) t).take limit = (splitOn sep t).take limit := by
  induction limit generalizing t with
  | zero => rfl
  | succ limit ih =>
      rw [splitAtMost]
      cases hsplit : splitFirst? sep t with
      | none => rw [splitOn_of_not_mem (splitFirst?_eq_none_iff.mp hsplit)]
      | some parts =>
          obtain ⟨before, after⟩ := parts
          obtain ⟨hbefore, rfl⟩ := splitFirst?_eq_some_iff.mp hsplit
          rw [splitOn_append, splitOn_of_not_mem hbefore, List.singleton_append, List.take_succ_cons,
            List.take_succ_cons, ih]

/-- No more than two pieces of a request count. -/
theorem nameFromPieces_take (request : Text) (pieces : List Text) :
    nameFromPieces request (pieces.take 2) = nameFromPieces request pieces := by
  match pieces with
  | [] | [_] | _ :: [] :: _ | _ :: (_ :: _) :: _ => rfl

theorem nameFromPieces_splitAtMost (request : Text) :
    nameFromPieces request (splitAtMost '/' 3 request) = nameFromPieces request (segments request) := by
  rw [← nameFromPieces_take, take_splitAtMost, nameFromPieces_take]
  rfl

theorem ownPiece?_eq_none_iff {pieces : List Text} :
    ownPiece? pieces = none ↔ ∀ own ∈ pieces.head?, own = [] := by
  match pieces with
  | [] | [] :: _ | (_ :: _) :: _ => simp [ownPiece?]

theorem exists_cons_of_ownPiece? {pieces : List Text} {own : Text} (h : ownPiece? pieces = some own) :
    ∃ more, pieces = own :: more := by
  match pieces, h with
  | (_ :: _) :: more, rfl => exact ⟨more, rfl⟩

/-- The end of a name and its scope is where a slice of the request can end. -/
theorem slice?_of_segments {request first own : Text} {more : List Text}
    (h : segments request = first :: own :: more) :
    Utf8.slice? (Utf8.encode request) 0 (utf8Length first + 1 + utf8Length own) =
      some (Utf8.encode (first ++ '/' :: own)) := by
  have hjoin : joinWith ['/'] [first, own] = first ++ '/' :: own := by
    rw [joinWith_cons_cons, joinWith, List.intercalate_singleton]
    rfl
  have hstarts : StartsWithName request (first ++ '/' :: own) :=
    startsWithName_of_segments (List.cons_ne_nil _ _) hjoin h
  obtain ⟨rest, rfl⟩ := exists_append_of_startsWithName hstarts
  have hslash : ('/' : Char).utf8Size = 1 := by decide
  have hstop : utf8Length first + 1 + utf8Length own = utf8Length ([] ++ (first ++ '/' :: own)) := by
    rw [List.nil_append, utf8Length_append, utf8Length, hslash]
    omega
  rw [hstop]
  exact Utf8.slice?_encode [] (first ++ '/' :: own) rest

section Cons

variable {c : Char} {rest piece : Text} {pieces : List Text} (hdot : c ≠ '.') (hslash : c ≠ '/')
  (hsegments : segments (c :: rest) = (c :: piece) :: pieces)

include hdot hslash hsegments

theorem packageName?_of_scope (hscope : c = '@') :
    packageName? (c :: rest) = (ownPiece? pieces).map fun own => (c :: piece) ++ '/' :: own := by
  rw [packageName?, if_neg (by simp [hdot, hslash]), hsegments]
  refine (if_pos hscope).trans ?_
  rcases pieces with _ | ⟨_ | ⟨d, own⟩, more⟩
  · rfl
  · rfl
  · rfl

theorem packageName?_of_not_scope (hscope : c ≠ '@') : packageName? (c :: rest) = some (c :: piece) := by
  rw [packageName?, if_neg (by simp [hdot, hslash]), hsegments]
  exact if_neg hscope

end Cons

/-- The slice can always be taken, and it is the name of the package. -/
theorem packageNameBySlice_eq (request : Text) :
    packageNameBySlice request = some ((packageName? request).map Utf8.encode) := by
  cases request with
  | nil => rfl
  | cons c rest =>
      by_cases hdot : c = '.'
      · subst hdot
        rfl
      by_cases hslash : c = '/'
      · subst hslash
        rfl
      obtain ⟨piece, pieces, hsegments⟩ := segments_cons hslash rest
      have hname : packageNameBySlice (c :: rest) = nameFromPieces (c :: rest) ((c :: piece) :: pieces) := by
        rw [packageNameBySlice, if_neg (by simp [hdot, hslash]), nameFromPieces_splitAtMost, hsegments]
      rw [hname, nameFromPieces, List.head?_cons]
      by_cases hscope : c = '@'
      · rw [packageName?_of_scope hdot hslash hsegments hscope, if_pos (congrArg some hscope)]
        cases hown : ownPiece? pieces with
        | none => rfl
        | some own =>
            obtain ⟨more, rfl⟩ := exists_cons_of_ownPiece? hown
            simp only [slice?_of_segments hsegments, Option.map_some]
      · rw [packageName?_of_not_scope hdot hslash hsegments hscope, if_neg]
        · rfl
        · exact fun hat => hscope (Option.some.inj hat)

/-- No package is named by a path, or by a scope without a name in it. -/
theorem packageName?_eq_none_iff {request : Text} :
    packageName? request = none ↔
      request = [] ∨ request.head? = some '.' ∨ request.head? = some '/' ∨
        request.head? = some '@' ∧ ∀ second ∈ (segments request)[1]?, second = [] := by
  cases request with
  | nil => exact iff_of_true rfl (Or.inl rfl)
  | cons c rest =>
      simp only [List.head?_cons, Option.some.injEq, List.cons_ne_nil, false_or]
      by_cases hdot : c = '.'
      · subst hdot
        exact iff_of_true rfl (Or.inl rfl)
      by_cases hslash : c = '/'
      · subst hslash
        exact iff_of_true rfl (Or.inr (Or.inl rfl))
      obtain ⟨piece, pieces, hsegments⟩ := segments_cons hslash rest
      by_cases hscope : c = '@'
      · have hsecond : (segments (c :: rest))[1]? = pieces.head? := by
          rw [hsegments, List.getElem?_cons_succ, List.head?_eq_getElem?]
        rw [packageName?_of_scope hdot hslash hsegments hscope, Option.map_eq_none_iff,
          ownPiece?_eq_none_iff, hsecond]
        simp [hscope]
      · rw [packageName?_of_not_scope hdot hslash hsegments hscope]
        simp [hdot, hslash, hscope]

/-! ### Names -/

namespace IsPackageName

variable {name : Text} (h : IsPackageName name)
include h

theorem slash_of_not_scope (hscope : name.head? ≠ some '@') : '/' ∉ name := by
  cases h with
  | single hdot hat hslash => exact hslash
  | within hfree hown hslash => exact absurd rfl hscope

theorem exists_own (hscope : name.head? = some '@') :
    ∃ scope own : Text, name = scope ++ '/' :: own ∧ '/' ∉ scope ∧ '/' ∉ own ∧ own ≠ [] := by
  cases h with
  | single hdot hat hslash => exact absurd (Option.some.inj hscope) hat
  | @within scope own hfree hown hslash =>
      refine ⟨'@' :: scope, own, rfl, ?_, hslash, hown⟩
      exact List.not_mem_cons_of_ne_of_not_mem (by decide) hfree

end IsPackageName

/-- **Names of packages.** The package that a request names is a beginning of the request that ends where
the request ends or a slash follows. It has no slash, unless it begins with a scope: then it has one
slash, and a name that is not empty behind it. As a request the name stands for the same package, and so
does every request that goes on behind it with a slash. No package is named exactly by the empty request,
by a path, and by a scope without a name behind it. Told from the lengths of its pieces in bytes the name
is the same, and its slice can always be taken. -/
theorem named_package (request : Text) :
    (∀ name, packageName? request = some name →
      (request = name ∨ ∃ rest, request = name ++ '/' :: rest) ∧
      (name.head? ≠ some '@' → '/' ∉ name) ∧
      (name.head? = some '@' →
        ∃ scope own : Text, name = scope ++ '/' :: own ∧ '/' ∉ scope ∧ '/' ∉ own ∧ own ≠ []) ∧
      packageName? name = some name ∧
      ∀ sub : Text, packageName? (name ++ '/' :: sub) = some name) ∧
    (packageName? request = none ↔
      request = [] ∨ request.head? = some '.' ∨ request.head? = some '/' ∨
        request.head? = some '@' ∧ ∀ second ∈ (segments request)[1]?, second = []) ∧
    packageNameBySlice request = some ((packageName? request).map Utf8.encode) := by
  refine ⟨fun name hnamed => ?_, packageName?_eq_none_iff, packageNameBySlice_eq request⟩
  obtain ⟨hname, hstarts⟩ := packageName?_eq_some_iff.mp hnamed
  refine ⟨hstarts, hname.slash_of_not_scope, hname.exists_own, ?_, fun sub => ?_⟩
  · exact packageName?_of_isPackageName hname (Or.inl rfl)
  · exact packageName?_of_isPackageName hname (Or.inr ⟨sub, rfl⟩)

/-- A scope may be bare, and only its own first segment counts. -/
example : packageNameBySlice "@/ö/é" = some (some (Utf8.encode "@/ö")) := by decide

end PathAlias
