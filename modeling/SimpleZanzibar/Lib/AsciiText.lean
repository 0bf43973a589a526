import Mathlib.Data.List.Basic
import Mathlib.Data.UInt
import Mathlib.Tactic.Common

/-!
# Texts of ASCII characters

A text of ASCII characters has one byte a character.  A text is of ASCII characters as soon
as each of its bytes is below 128, so a check made on the bytes of any text can be read as
a check of its characters.

**Results.**
* `bytes_ofList`: the bytes of a text of ASCII characters are its characters.
* `isAscii_of_bytes`: a text whose bytes are below 128 is of ASCII characters.
* `forall_char`: a fact about every ASCII character is a fact about 128 characters.
-/

namespace AsciiText

/-- The UTF-8 bytes of a text. -/
def bytes (value : String) : List UInt8 :=
  value.toUTF8.data.toList

/-- Characters with a code below 128. -/
def IsAscii (text : List Char) : Prop :=
  ∀ c ∈ text, c.toNat < 128

/-- The byte of an ASCII character. -/
def byteOf (c : Char) : UInt8 :=
  UInt8.ofNat c.toNat

/-- Every character is encoded on its own. -/
theorem bytes_eq_flatMap
    (value : String) :
    bytes value = value.toList.flatMap String.utf8EncodeChar := by
  unfold bytes
  rw [String.toUTF8_eq_toByteArray, ← String.utf8Encode_toList]
  simp [List.utf8Encode]

theorem length_bytes
    (value : String) :
    (bytes value).length = value.utf8ByteSize := by
  simp [bytes]

/-- An ASCII character is one byte. -/
theorem utf8EncodeChar_of_lt
    {c : Char}
    (h : c.toNat < 128) :
    String.utf8EncodeChar c = [byteOf c] := by
  have hval : c.val.toNat ≤ 127 := by
    have hc : c.toNat = c.val.toNat := rfl
    omega
  unfold String.utf8EncodeChar
  rw [if_pos hval]
  rfl

/-- The first byte of any other character is at least 128. -/
theorem exists_byte_of_not_lt
    {c : Char}
    (h : ¬c.toNat < 128) :
    ∃ byte ∈ String.utf8EncodeChar c, ¬byte < 128 := by
  have hval : ¬c.val.toNat ≤ 127 := by
    have hc : c.toNat = c.val.toNat := rfl
    omega
  have hlarge : ∀ n, 128 ≤ n → n < 256 → ¬UInt8.ofNat n < 128 := by
    intro n hlow hhigh
    have hto : (UInt8.ofNat n).toNat = n := UInt8.toNat_ofNat_of_lt' hhigh
    rw [UInt8.lt_iff_toNat_lt, hto]
    exact Nat.not_lt.mpr hlow
  unfold String.utf8EncodeChar
  simp only
  rw [if_neg hval]
  split_ifs
  · exact ⟨_, List.mem_cons_self, hlarge _ (by omega) (by omega)⟩
  · exact ⟨_, List.mem_cons_self, hlarge _ (by omega) (by omega)⟩
  · exact ⟨_, List.mem_cons_self, hlarge _ (by omega) (by omega)⟩

/-- The bytes of a text of ASCII characters are its characters. -/
theorem bytes_ofList
    {text : List Char}
    (h : IsAscii text) :
    bytes (String.ofList text) = text.map byteOf := by
  rw [bytes_eq_flatMap, String.toList_ofList]
  induction text with
  | nil => rfl
  | cons c rest ih =>
      rw [List.flatMap_cons, List.map_cons, utf8EncodeChar_of_lt (h c List.mem_cons_self),
        ih (fun other hother => h other (List.mem_cons_of_mem c hother))]
      rfl

theorem bytes_of_isAscii
    {value : String}
    (h : IsAscii value.toList) :
    bytes value = value.toList.map byteOf := by
  have hbytes := bytes_ofList h
  rwa [String.ofList_toList] at hbytes

theorem utf8ByteSize_of_isAscii
    {value : String}
    (h : IsAscii value.toList) :
    value.utf8ByteSize = value.toList.length := by
  rw [← length_bytes, bytes_of_isAscii h, List.length_map]

/-- A text whose bytes are below 128 is of ASCII characters. -/
theorem isAscii_of_bytes
    {value : String}
    (h : ∀ byte ∈ bytes value, byte < 128) :
    IsAscii value.toList := by
  intro c hc
  by_contra hlarge
  obtain ⟨byte, hbyte, hnot⟩ := exists_byte_of_not_lt hlarge
  apply hnot
  apply h
  rw [bytes_eq_flatMap]
  exact List.mem_flatMap.mpr ⟨c, hc, hbyte⟩

/-- A fact about every ASCII character is a fact about 128 characters. -/
theorem forall_char
    {P : Char → Prop}
    (h : ∀ n, n < 128 → P (Char.ofNat n))
    {c : Char}
    (hc : c.toNat < 128) :
    P c := by
  have hp := h c.toNat hc
  rwa [Char.ofNat_toNat] at hp

end AsciiText
