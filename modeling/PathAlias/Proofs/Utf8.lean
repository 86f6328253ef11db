import Mathlib.Tactic.SplitIfs
import PathAlias.Utf8

/-!
Texts survive being spelled in bytes. The reader enters a sequence at the first byte of a character
and leaves it with the character at the last one, as the ranges for the second byte leave out exactly
what spells no character. So a text is read back from its bytes, and bytes spell at most one text.
-/

namespace PathAlias.Utf8

/-! ### The first byte of a sequence -/

section Lead

variable {byte : Nat}

theorem lead_single (h : byte < 0x80) : lead byte = .single (Char.ofNat byte) := if_pos h

theorem lead_two (hlow : 0xC2 ≤ byte) (hhigh : byte < 0xE0) :
    lead byte = .opens ⟨byte - 0xC0, 0, 0x80, 0xBF⟩ := by
  rw [lead, if_neg (by omega), if_neg (by omega), if_pos hhigh]

theorem lead_three (hlow : 0xE0 ≤ byte) (hhigh : byte < 0xF0) :
    lead byte = .opens
      ⟨byte - 0xE0, 1, if byte = 0xE0 then 0xA0 else 0x80, if byte = 0xED then 0x9F else 0xBF⟩ := by
  rw [lead, if_neg (by omega), if_neg (by omega), if_neg (by omega)]
  split_ifs <;> first | rfl | omega

theorem lead_four (hlow : 0xF0 ≤ byte) (hhigh : byte ≤ 0xF4) :
    lead byte = .opens
      ⟨byte - 0xF0, 2, if byte = 0xF0 then 0x90 else 0x80, if byte = 0xF4 then 0x8F else 0xBF⟩ := by
  rw [lead, if_neg (by omega), if_neg (by omega), if_neg (by omega), if_neg (by omega),
    if_neg (by omega), if_neg (by omega)]
  split_ifs <;> first | rfl | omega

end Lead

/-! ### Reading one character -/

theorem toNat_ofNat_byte {n : Nat} (h : n < 256) : (UInt8.ofNat n).toNat = n := by
  rw [UInt8.toNat_ofNat', Nat.mod_eq_of_lt h]

section Read

variable {n : Nat} {rest : List UInt8}

theorem read_single (h : n < 0x80) :
    read none (UInt8.ofNat n :: rest) = Char.ofNat n :: read none rest := by
  rw [read, toNat_ofNat_byte (by omega), lead_single h]

theorem read_opens {pending : Pending} (hn : n < 256) (h : lead n = .opens pending) :
    read none (UInt8.ofNat n :: rest) = read (some pending) rest := by
  rw [read, toNat_ofNat_byte hn, h]

variable {bits more low high : Nat} (hn : n < 256) (hlow : low ≤ n) (hhigh : n ≤ high)
include hn hlow hhigh

theorem read_last :
    read (some ⟨bits, 0, low, high⟩) (UInt8.ofNat n :: rest) =
      Char.ofNat (bits * 64 + (n - 0x80)) :: read none rest := by
  have hbyte := toNat_ofNat_byte hn
  rw [read, if_pos (hbyte.symm ▸ ⟨hlow, hhigh⟩), hbyte]

theorem read_further :
    read (some ⟨bits, more + 1, low, high⟩) (UInt8.ofNat n :: rest) =
      read (some ⟨bits * 64 + (n - 0x80), more, 0x80, 0xBF⟩) rest := by
  have hbyte := toNat_ofNat_byte hn
  rw [read, if_pos (hbyte.symm ▸ ⟨hlow, hhigh⟩), hbyte]

end Read

/-- The reader takes a character off its bytes, whatever follows. -/
theorem read_utf8EncodeChar (c : Char) (rest : List UInt8) :
    read none (String.utf8EncodeChar c ++ rest) = c :: read none rest := by
  have hchar : Char.ofNat c.val.toNat = c := Char.ofNat_toNat c
  have hvalid : c.val.toNat < 0xD800 ∨ 0xDFFF < c.val.toNat ∧ c.val.toNat < 0x110000 := c.valid
  unfold String.utf8EncodeChar
  generalize c.val.toNat = v at hchar hvalid
  simp only []
  split_ifs with hone htwo hthree
  · rw [List.singleton_append, read_single (by omega), hchar]
  · have hv : (v / 64 % 32 + 192 - 0xC0) * 64 + (v % 64 + 128 - 0x80) = v := by omega
    simp only [List.cons_append, List.nil_append]
    rw [read_opens (by omega) (lead_two (by omega) (by omega)),
      read_last (by omega) (by omega) (by omega), hv, hchar]
  · have hv : ((v / 4096 % 16 + 224 - 0xE0) * 64 + (v / 64 % 64 + 128 - 0x80)) * 64 +
        (v % 64 + 128 - 0x80) = v := by omega
    simp only [List.cons_append, List.nil_append]
    rw [read_opens (by omega) (lead_three (by omega) (by omega)),
      read_further (by omega) (by split_ifs <;> omega) (by split_ifs <;> omega),
      read_last (by omega) (by omega) (by omega), hv, hchar]
  · have hv : (((v / 262144 % 8 + 240 - 0xF0) * 64 + (v / 4096 % 64 + 128 - 0x80)) * 64 +
        (v / 64 % 64 + 128 - 0x80)) * 64 + (v % 64 + 128 - 0x80) = v := by omega
    simp only [List.cons_append, List.nil_append]
    rw [read_opens (by omega) (lead_four (by omega) (by omega)),
      read_further (by omega) (by split_ifs <;> omega) (by split_ifs <;> omega),
      read_further (by omega) (by omega) (by omega),
      read_last (by omega) (by omega) (by omega), hv, hchar]

/-! ### The bytes of one character -/

theorem encode_cons (c : Char) (t : Text) : encode (c :: t) = String.utf8EncodeChar c ++ encode t :=
  List.flatMap_cons

theorem encode_append (t u : Text) : encode (t ++ u) = encode t ++ encode u := List.flatMap_append

/-- A text is read back from its bytes. -/
theorem read_encode (t : Text) : read none (encode t) = t := by
  induction t with
  | nil => rfl
  | cons c rest ih => rw [encode_cons, read_utf8EncodeChar, ih]

theorem encode_injective {t u : Text} (h : encode t = encode u) : t = u := by
  rw [← read_encode t, h, read_encode]

end PathAlias.Utf8
