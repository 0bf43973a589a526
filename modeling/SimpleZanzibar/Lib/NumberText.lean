import SimpleZanzibar.Lib.AsciiText

/-!
# Numbers as texts

Decimal numerals with an optional plus sign, read digit by digit below a bound, and byte
strings written with two hexadecimal digits a byte.

**Results.**
* `parseUnsigned_eq_some_iff`: the numerals that are read are those below the bound.
* `isDecimal_repr`: the numeral of a number is one.
* `isHex_flatMap_hexPair`: the digits that a byte string is written with stand for it.
-/

namespace NumberText

/-! ## Decimal numerals -/

/-- A numeral of a number: digits, with or without a plus sign before them. -/
def IsDecimal (text : List Char) (n : Nat) : Prop :=
  ∃ digits : List Char, (text = digits ∨ text = '+' :: digits) ∧ digits ≠ [] ∧
    (∀ c ∈ digits, c.isDigit) ∧ Nat.ofDigitChars 10 digits 0 = n

/-- Digits read from the left; every product and every sum stays below the bound. -/
def parseDigits (bound : Nat) : Nat → List Char → Option Nat
  | value, [] => some value
  | value, c :: rest =>
      if c.isDigit ∧ 10 * value < bound ∧ 10 * value + (c.toNat - '0'.toNat) < bound then
        parseDigits bound (10 * value + (c.toNat - '0'.toNat)) rest
      else none

/-- One plus sign may stand before the digits, of which there is at least one. -/
def parseUnsigned (bound : Nat) (text : List Char) : Option Nat :=
  let digits := if text.head? = some '+' then text.tail else text
  if digits.isEmpty then none else parseDigits bound 0 digits

theorem le_ofDigitChars
    (text : List Char)
    (value : Nat) :
    value ≤ Nat.ofDigitChars 10 text value := by
  rw [Nat.ofDigitChars_eq_ofDigitChars_zero]
  exact le_trans (Nat.le_mul_of_pos_left value (Nat.pow_pos (by decide)))
    (Nat.le_add_right _ _)

theorem parseDigits_eq_some_iff
    {bound value n : Nat} {text : List Char}
    (hvalue : value < bound) :
    parseDigits bound value text = some n ↔
      (∀ c ∈ text, c.isDigit) ∧ Nat.ofDigitChars 10 text value = n ∧ n < bound := by
  induction text generalizing value with
  | nil =>
      simp only [parseDigits, Option.some.injEq, List.not_mem_nil, false_imp_iff, implies_true,
        Nat.ofDigitChars_nil, true_and]
      constructor
      · rintro rfl
        exact ⟨rfl, hvalue⟩
      · rintro ⟨h, -⟩
        exact h
  | cons c rest ih =>
      rw [parseDigits, List.forall_mem_cons, Nat.ofDigitChars_cons]
      split
      · next h =>
          rw [ih h.2.2, and_iff_right h.1]
      · next h =>
          constructor
          · intro hnone
            cases hnone
          · rintro ⟨⟨hdigit, -⟩, hn, hlt⟩
            have hle := le_ofDigitChars rest (10 * value + (c.toNat - '0'.toNat))
            exact absurd ⟨hdigit, by omega, by omega⟩ h

/-- The numerals that are read are those of the numbers below the bound. -/
theorem parseUnsigned_eq_some_iff
    {bound n : Nat} {text : List Char}
    (hbound : 0 < bound) :
    parseUnsigned bound text = some n ↔ IsDecimal text n ∧ n < bound := by
  have hread : ∀ digits : List Char,
      (if digits.isEmpty then none else parseDigits bound 0 digits) = some n ↔
        digits ≠ [] ∧ (∀ c ∈ digits, c.isDigit) ∧ Nat.ofDigitChars 10 digits 0 = n ∧
          n < bound := by
    intro digits
    cases digits with
    | nil => simp
    | cons c rest =>
        rw [List.isEmpty_cons, if_neg (by decide), parseDigits_eq_some_iff hbound]
        simp
  unfold parseUnsigned
  simp only
  rw [hread]
  constructor
  · rintro ⟨hne, hdigits, hvalue, hlt⟩
    refine ⟨⟨_, ?_, hne, hdigits, hvalue⟩, hlt⟩
    split
    · next hplus =>
        cases text with
        | nil => cases hplus
        | cons c rest =>
            cases hplus
            exact Or.inr rfl
    · exact Or.inl rfl
  · rintro ⟨⟨digits, htext, hne, hdigits, hvalue⟩, hlt⟩
    rcases htext with rfl | rfl
    · rw [if_neg]
      · exact ⟨hne, hdigits, hvalue, hlt⟩
      · intro hplus
        have hdigit := hdigits '+' (List.mem_of_head? hplus)
        exact absurd hdigit (by decide)
    · rw [if_pos List.head?_cons, List.tail_cons]
      exact ⟨hne, hdigits, hvalue, hlt⟩

theorem isDecimal_repr
    (n : Nat) :
    IsDecimal n.repr.toList n := by
  rw [Nat.toList_repr]
  exact ⟨_, Or.inl rfl, Nat.toDigits_ne_nil,
    fun c hc => Nat.isDigit_of_mem_toDigits (by decide) (by decide) hc,
    Nat.ofDigitChars_ten_toDigits⟩

theorem isAscii_repr
    (n : Nat) :
    AsciiText.IsAscii n.repr.toList := by
  intro c hc
  rw [Nat.toList_repr] at hc
  have hdigit := Nat.isDigit_of_mem_toDigits (by decide) (by decide) hc
  simp only [Char.isDigit, Bool.and_eq_true, decide_eq_true_eq] at hdigit
  exact lt_of_le_of_lt (UInt32.le_iff_toNat_le.mp hdigit.2) (by decide)

/-- The numeral of a number has no character but digits. -/
theorem not_mem_repr
    {n : Nat} {c : Char}
    (h : c.isDigit = false) :
    c ∉ n.repr.toList := by
  intro hc
  rw [Nat.toList_repr] at hc
  rw [Nat.isDigit_of_mem_toDigits (by decide) (by decide) hc] at h
  cases h

/-! ## Hexadecimal digits -/

/-- The value of a hexadecimal digit of either case. -/
def hexValue (c : Char) : Option Nat :=
  if '0' ≤ c ∧ c ≤ '9' then some (c.toNat - '0'.toNat)
  else if 'a' ≤ c ∧ c ≤ 'f' then some (c.toNat - 'a'.toNat + 10)
  else if 'A' ≤ c ∧ c ≤ 'F' then some (c.toNat - 'A'.toNat + 10)
  else none

/-- Two hexadecimal digits for each byte, the high one first. -/
inductive IsHex : List Char → List UInt8 → Prop
  | nil : IsHex [] []
  | cons
      {high low : Char} {text : List Char} {byte : UInt8} {bytes : List UInt8}
      {highValue lowValue : Nat}
      (hhigh : hexValue high = some highValue)
      (hlow : hexValue low = some lowValue)
      (hbyte : byte.toNat = 16 * highValue + lowValue)
      (rest : IsHex text bytes) :
      IsHex (high :: low :: text) (byte :: bytes)

/-- The two lower-case digits of a byte. -/
def hexPair (byte : UInt8) : List Char :=
  [Nat.digitChar (byte.toNat / 16), Nat.digitChar (byte.toNat % 16)]

theorem hexValue_digitChar :
    ∀ n, n < 16 → hexValue (Nat.digitChar n) = some n := by
  decide

/-- The digits that a byte string is written with stand for it. -/
theorem isHex_flatMap_hexPair
    (bytes : List UInt8) :
    IsHex (bytes.flatMap hexPair) bytes := by
  induction bytes with
  | nil => exact .nil
  | cons byte rest ih =>
      have hlt := byte.toNat_lt
      rw [List.flatMap_cons]
      exact .cons (hexValue_digitChar _ (by omega)) (hexValue_digitChar _ (by omega))
        (by omega) ih

theorem IsHex.length
    {text : List Char} {bytes : List UInt8}
    (h : IsHex text bytes) :
    text.length = 2 * bytes.length := by
  induction h with
  | nil => rfl
  | cons _ _ _ _ ih =>
      rw [List.length_cons, List.length_cons, List.length_cons, ih]
      omega

theorem lt_of_hexValue
    {c : Char} {n : Nat}
    (h : hexValue c = some n) :
    c.toNat < 128 := by
  have hle : ∀ last : Char, c ≤ last → c.toNat ≤ last.toNat :=
    fun last hlast => UInt32.le_iff_toNat_le.mp hlast
  unfold hexValue at h
  split_ifs at h with hdigit hlower hupper
  · exact lt_of_le_of_lt (hle _ hdigit.2) (by decide)
  · exact lt_of_le_of_lt (hle _ hlower.2) (by decide)
  · exact lt_of_le_of_lt (hle _ hupper.2) (by decide)

theorem IsHex.isAscii
    {text : List Char} {bytes : List UInt8}
    (h : IsHex text bytes) :
    AsciiText.IsAscii text := by
  induction h with
  | nil => exact List.forall_mem_nil _
  | cons hhigh hlow _ _ ih =>
      exact List.forall_mem_cons.mpr ⟨lt_of_hexValue hhigh,
        List.forall_mem_cons.mpr ⟨lt_of_hexValue hlow, ih⟩⟩

/-- A text of digits has no other character. -/
theorem IsHex.not_mem
    {text : List Char} {bytes : List UInt8} {c : Char}
    (h : IsHex text bytes)
    (hc : hexValue c = none) :
    c ∉ text := by
  induction h with
  | nil => exact List.not_mem_nil
  | cons hhigh hlow _ _ ih =>
      intro hmem
      rcases List.mem_cons.mp hmem with rfl | hmem
      · rw [hc] at hhigh
        cases hhigh
      · rcases List.mem_cons.mp hmem with rfl | hmem
        · rw [hc] at hlow
          cases hlow
        · exact ih hmem

end NumberText
