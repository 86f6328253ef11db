import PathAlias.Proofs.Specificity
import PathAlias.Proofs.Utf8

/-!
Captures by offsets. A text is spelled in bytes, and a byte that a character starts with is none of
those it goes on with. So the bytes of one text are found at the start or at the end of those of
another one only where the text itself is, and a text can be cut before and behind it. A pattern that
is matched by the lengths of its two parts and a slice between them therefore captures what its
wildcard stands for, and the slice can always be taken.
-/

namespace PathAlias

namespace Utf8

/-- Whether a character starts at an offset, or the text ends there. -/
def isBoundary (bytes : List UInt8) (offset : Nat) : Bool :=
  offset == bytes.length || bytes[offset]?.any fun byte => decide byte.IsUTF8FirstByte

/-- The bytes between two offsets, if these are in order and each of them is at a boundary. -/
def slice? (bytes : List UInt8) (start stop : Nat) : Option (List UInt8) :=
  if start ≤ stop ∧ isBoundary bytes start ∧ isBoundary bytes stop then
    some ((bytes.take stop).drop start)
  else none

end Utf8

/-- The bytes of a candidate between a text that it begins with and one that it ends with. There is no
outcome where an offset would be negative or the slice cannot be taken. -/
def sliceBetween (before after candidate : Text) : Option (Option (List UInt8)) :=
  let bytes := Utf8.encode candidate
  if (Utf8.encode before).isPrefixOf bytes && (Utf8.encode after).isSuffixOf bytes then
    if utf8Length candidate < utf8Length after then none
    else (Utf8.slice? bytes (utf8Length before) (utf8Length candidate - utf8Length after)).map some
  else some none

/-- What a pattern captures of a candidate, told from lengths and offsets in bytes. -/
def captureBySlice (pattern candidate : Text) : Option (Option (List UInt8)) :=
  if utf8Length candidate < utf8Length pattern then some none
  else if pattern = [wildcard] then some (some (Utf8.encode candidate))
  else
    match splitFirst? wildcard pattern with
    | none => some none
    | some (before, after) =>
        if wildcard ∈ after then some none else sliceBetween before after candidate

/-! ### Spelled texts -/

namespace Utf8

variable {t u : Text}

@[simp]
theorem length_encode (t : Text) : (encode t).length = utf8Length t := by
  induction t with
  | nil => rfl
  | cons c rest ih => rw [encode_cons, List.length_append, ih, String.length_utf8EncodeChar, utf8Length]

theorem encode_prefix_iff : encode t <+: encode u ↔ t <+: u := by
  constructor
  · rintro ⟨rest, hrest⟩
    have hbytes : t.utf8Encode ++ rest.toByteArray = u.utf8Encode := by
      rw [List.utf8Encode, List.utf8Encode, ← List.toByteArray_append]
      exact congrArg List.toByteArray hrest
    exact List.isPrefix_of_utf8Encode_append_eq_utf8Encode _ hbytes
  · rintro ⟨rest, rfl⟩
    exact ⟨encode rest, (encode_append t rest).symm⟩

theorem isBoundary_append (front bytes : List UInt8) (offset : Nat) :
    isBoundary (front ++ bytes) (front.length + offset) = isBoundary bytes offset := by
  rw [isBoundary, isBoundary, List.length_append, List.getElem?_append_right (Nat.le_add_right _ _),
    Nat.add_sub_cancel_left]
  congr 1
  rw [Bool.eq_iff_iff, beq_iff_eq, beq_iff_eq, Nat.add_left_cancel_iff]

/-- A character starts with a byte of its own kind, and goes on with none of that kind. -/
theorem isBoundary_encode_cons {c : Char} {offset : Nat} (hoffset : offset < c.utf8Size) :
    isBoundary (encode (c :: t)) offset = true ↔ offset = 0 := by
  have hsize : offset < (String.utf8EncodeChar c).length := by
    rwa [String.length_utf8EncodeChar]
  have hbyte : (encode (c :: t))[offset]? = some (String.utf8EncodeChar c)[offset] := by
    rw [encode_cons, List.getElem?_append_left hsize, List.getElem?_eq_getElem hsize]
  have hend : offset ≠ (encode (c :: t)).length := by
    rw [length_encode, utf8Length]
    omega
  rw [isBoundary, hbyte, Option.any_some, beq_false_of_ne hend, Bool.false_or, decide_eq_true_iff,
    UInt8.isUTF8FirstByte_getElem_utf8EncodeChar]

/-- The boundaries in a spelled text are where its beginnings end. -/
theorem isBoundary_encode_iff {offset : Nat} :
    isBoundary (encode t) offset = true ↔ ∃ front back, t = front ++ back ∧ utf8Length front = offset := by
  induction t generalizing offset with
  | nil =>
      change (offset == 0 || false) = true ↔ _
      rw [Bool.or_false, beq_iff_eq]
      constructor
      · rintro rfl
        exact ⟨[], [], rfl, rfl⟩
      · rintro ⟨front, back, h, rfl⟩
        rw [(List.append_eq_nil_iff.mp h.symm).1]
        rfl
  | cons c rest ih =>
      by_cases hinside : offset < c.utf8Size
      · rw [isBoundary_encode_cons hinside]
        constructor
        · rintro rfl
          exact ⟨[], c :: rest, rfl, rfl⟩
        · rintro ⟨front, back, h, rfl⟩
          cases front with
          | nil => rfl
          | cons d front =>
              obtain ⟨rfl, -⟩ := List.cons.inj h
              exact absurd (Nat.le_add_right _ _) (Nat.not_le_of_lt hinside)
      · obtain ⟨more, rfl⟩ := Nat.exists_eq_add_of_le (Nat.le_of_not_lt hinside)
        have hrest : isBoundary (encode (c :: rest)) (c.utf8Size + more) =
            isBoundary (encode rest) more := by
          rw [encode_cons, ← String.length_utf8EncodeChar, isBoundary_append]
        rw [hrest, ih]
        constructor
        · rintro ⟨front, back, rfl, rfl⟩
          exact ⟨c :: front, back, rfl, rfl⟩
        · rintro ⟨front, back, h, hlength⟩
          cases front with
          | nil =>
              have hpos := c.utf8Size_pos
              rw [utf8Length] at hlength
              omega
          | cons d front =>
              obtain ⟨rfl, rfl⟩ := List.cons.inj h
              exact ⟨front, back, rfl, Nat.add_left_cancel hlength⟩

/-- The bytes that a text ends with do not begin in the middle of a character. -/
theorem encode_suffix_iff : encode t <:+ encode u ↔ t <:+ u := by
  constructor
  · rintro ⟨bytes, hbytes⟩
    have hstart : isBoundary (encode u) bytes.length = true := by
      have hboundary : isBoundary (encode t) 0 = true := isBoundary_encode_iff.mpr ⟨[], t, rfl, rfl⟩
      rw [← hbytes, ← hboundary]
      exact isBoundary_append bytes (encode t) 0
    obtain ⟨front, back, rfl, hlength⟩ := isBoundary_encode_iff.mp hstart
    rw [encode_append] at hbytes
    have hback := (List.append_inj hbytes (by rw [length_encode, hlength])).2
    exact ⟨front, by rw [encode_injective hback]⟩
  · rintro ⟨front, rfl⟩
    exact ⟨encode front, (encode_append front t).symm⟩

/-- A part of a text can be sliced out of the bytes of the text. -/
theorem slice?_encode (front middle back : Text) :
    slice? (encode (front ++ (middle ++ back))) (utf8Length front) (utf8Length (front ++ middle)) =
      some (encode middle) := by
  have hstart : isBoundary (encode (front ++ (middle ++ back))) (utf8Length front) = true :=
    isBoundary_encode_iff.mpr ⟨front, middle ++ back, rfl, rfl⟩
  have hstop : isBoundary (encode (front ++ (middle ++ back))) (utf8Length (front ++ middle)) = true :=
    isBoundary_encode_iff.mpr ⟨front ++ middle, back, (List.append_assoc ..).symm, rfl⟩
  have horder : utf8Length front ≤ utf8Length (front ++ middle) := by
    rw [utf8Length_append]
    exact Nat.le_add_right _ _
  rw [slice?, if_pos ⟨horder, hstart, hstop⟩, ← List.append_assoc, encode_append,
    List.take_left' (length_encode _), encode_append, List.drop_left' (length_encode _)]

end Utf8

/-! ### Matching by offsets -/

section Between

variable {before after candidate : Text}

theorem sliceBetween_of_middle (before middle after : Text) :
    sliceBetween before after (before ++ (middle ++ after)) = some (some (Utf8.encode middle)) := by
  have hends : before <+: before ++ (middle ++ after) ∧ after <:+ before ++ (middle ++ after) :=
    ⟨List.prefix_append _ _, ⟨before ++ middle, List.append_assoc ..⟩⟩
  have hlength : utf8Length (before ++ (middle ++ after)) =
      utf8Length (before ++ middle) + utf8Length after := by
    rw [← List.append_assoc, utf8Length_append]
  simp only [sliceBetween, Bool.and_eq_true, List.isPrefixOf_iff_prefix, List.isSuffixOf_iff_suffix,
    Utf8.encode_prefix_iff, Utf8.encode_suffix_iff]
  rw [if_pos hends, hlength, if_neg (Nat.not_lt.mpr (Nat.le_add_left _ _)), Nat.add_sub_cancel,
    Utf8.slice?_encode]
  rfl

theorem sliceBetween_of_ends (h : ¬ (before <+: candidate ∧ after <:+ candidate)) :
    sliceBetween before after candidate = some none := by
  simp only [sliceBetween, Bool.and_eq_true, List.isPrefixOf_iff_prefix, List.isSuffixOf_iff_suffix,
    Utf8.encode_prefix_iff, Utf8.encode_suffix_iff]
  exact if_neg h

/-- A beginning and an end of a text that do not fill it leave something between them. -/
theorem exists_middle (hbefore : before <+: candidate) (hafter : after <:+ candidate)
    (hlength : utf8Length before + utf8Length after < utf8Length candidate) :
    ∃ middle, middle ≠ [] ∧ candidate = before ++ (middle ++ after) := by
  obtain ⟨rest, rfl⟩ := hbefore
  obtain ⟨front, hfront⟩ := hafter
  rcases List.append_eq_append_iff.mp hfront with ⟨more, rfl, rfl⟩ | ⟨middle, rfl, rfl⟩
  · -- the end would begin within the beginning
    simp only [utf8Length_append] at hlength
    omega
  · refine ⟨middle, ?_, rfl⟩
    rintro rfl
    simp only [utf8Length_append, utf8Length] at hlength
    omega

end Between

section Capture

variable {pattern candidate captured before after : Text}

theorem utf8Length_of_capture? (h : capture? pattern candidate = some captured) :
    utf8Length pattern ≤ utf8Length candidate := by
  obtain ⟨hne, before, after, -, -, rfl, rfl⟩ := capture?_eq_some_iff.mp h
  have hpos := utf8Length_pos hne
  have hwildcard : wildcard.utf8Size = 1 := by decide
  simp only [utf8Length_append, utf8Length, hwildcard]
  omega

theorem count_of_capture? (h : capture? pattern candidate = some captured) :
    pattern.count wildcard = 1 := by
  obtain ⟨-, before, after, hbefore, hafter, rfl, -⟩ := capture?_eq_some_iff.mp h
  rw [List.count_append, List.count_cons_self, List.count_eq_zero.mpr hbefore,
    List.count_eq_zero.mpr hafter]

theorem substitute_of_capture? (h : capture? pattern candidate = some captured) :
    substitute pattern captured = candidate := by
  obtain ⟨-, before, after, hbefore, -, rfl, rfl⟩ := capture?_eq_some_iff.mp h
  rw [substitute_append_of_not_mem hbefore, substitute, if_pos rfl]

/-- A pattern captures only between its two parts. -/
theorem parts_of_capture? (hsplit : splitFirst? wildcard pattern = some (before, after))
    (h : capture? pattern candidate = some captured) :
    wildcard ∉ after ∧ before <+: candidate ∧ after <:+ candidate := by
  obtain ⟨-, front, back, hfront, hback, hpattern, rfl⟩ := capture?_eq_some_iff.mp h
  have hsame := hsplit.symm.trans (splitFirst?_eq_some_iff.mpr ⟨hfront, hpattern⟩)
  cases hsame
  exact ⟨hback, List.prefix_append _ _, ⟨before ++ captured, List.append_assoc ..⟩⟩

/-- Matching by offsets can always take its slice, and it captures what the wildcard stands for. -/
theorem captureBySlice_eq (pattern candidate : Text) :
    captureBySlice pattern candidate = some ((capture? pattern candidate).map Utf8.encode) := by
  have hnone : (∀ captured, capture? pattern candidate ≠ some captured) →
      some none = some ((capture? pattern candidate).map Utf8.encode) := by
    intro h
    rw [Option.eq_none_iff_forall_ne_some.mpr h]
    rfl
  rw [captureBySlice]
  split_ifs with hshort hall
  · exact hnone fun captured h => absurd (utf8Length_of_capture? h) (Nat.not_le_of_lt hshort)
  · have hne : candidate ≠ [] := by
      rintro rfl
      exact hshort (by rw [hall]; decide)
    have hcaptured : capture? pattern candidate = some candidate :=
      capture?_eq_some_iff.mpr ⟨hne, [], [], List.not_mem_nil, List.not_mem_nil, hall,
        (List.append_nil candidate).symm⟩
    rw [hcaptured]
    rfl
  · cases hsplit : splitFirst? wildcard pattern with
    | none =>
        refine hnone fun captured h => ?_
        have hcount := count_of_capture? h
        rw [List.count_eq_zero.mpr (splitFirst?_eq_none_iff.mp hsplit)] at hcount
        cases hcount
    | some parts =>
        obtain ⟨before, after⟩ := parts
        have hparts := fun captured => @parts_of_capture? pattern candidate captured before after hsplit
        obtain ⟨hbefore, hpattern⟩ := splitFirst?_eq_some_iff.mp hsplit
        simp only
        split_ifs with hagain
        · exact hnone fun captured h => (hparts captured h).1 hagain
        by_cases hends : before <+: candidate ∧ after <:+ candidate
        · have hwildcard : wildcard.utf8Size = 1 := by decide
          have hlength : utf8Length before + utf8Length after < utf8Length candidate := by
            rw [hpattern, utf8Length_append, utf8Length, hwildcard] at hshort
            omega
          obtain ⟨middle, hmiddle, hcandidate⟩ := exists_middle hends.1 hends.2 hlength
          have hcaptured : capture? pattern candidate = some middle :=
            capture?_eq_some_iff.mpr ⟨hmiddle, before, after, hbefore, hagain, hpattern, hcandidate⟩
          rw [hcaptured, hcandidate]
          exact sliceBetween_of_middle before middle after
        · rw [sliceBetween_of_ends hends]
          exact hnone fun captured h => hends (hparts captured h).2

end Capture

/-- What the only wildcard of a pattern stands for in a candidate: a text that is not empty, between the
two parts of the pattern. -/
def Captures (pattern candidate captured : Text) : Prop :=
  captured ≠ [] ∧ ∃ before after : Text, wildcard ∉ before ∧ wildcard ∉ after ∧
    pattern = before ++ [wildcard] ++ after ∧ candidate = before ++ captured ++ after

/-- **Captures.** A pattern captures exactly the text that its only wildcard stands for in a candidate,
and there is no other such text. Told from lengths and offsets in bytes the outcome is the same: the
offsets of the slice are always in order and at boundaries, so it never fails. A pattern with no
wildcard or with several captures nothing, and what is captured gives the candidate again when it is
put back in the place of the wildcard. -/
theorem captured_text (pattern candidate : Text) :
    (∀ captured, capture? pattern candidate = some captured ↔ Captures pattern candidate captured) ∧
    (∀ captured other, Captures pattern candidate captured → Captures pattern candidate other →
      captured = other) ∧
    captureBySlice pattern candidate = some ((capture? pattern candidate).map Utf8.encode) ∧
    (pattern.count wildcard ≠ 1 → capture? pattern candidate = none) ∧
    (∀ captured, capture? pattern candidate = some captured →
      substitute pattern captured = candidate) := by
  have hiff : ∀ captured,
      capture? pattern candidate = some captured ↔ Captures pattern candidate captured := by
    intro captured
    simp only [Captures, List.append_assoc, List.singleton_append, capture?_eq_some_iff]
  refine ⟨hiff, fun captured other h hother => ?_, captureBySlice_eq pattern candidate,
    fun hcount => ?_, fun captured => substitute_of_capture?⟩
  · exact Option.some.inj (((hiff captured).mpr h).symm.trans ((hiff other).mpr hother))
  · exact Option.eq_none_iff_forall_ne_some.mpr fun captured h => hcount (count_of_capture? h)

example : captureBySlice "ä*é" "äöé" = some (some (Utf8.encode "ö")) := by decide

end PathAlias
