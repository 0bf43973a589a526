import SimpleZanzibar.PolicyText
import SimpleZanzibar.Lib.AsciiText

/-!
# The grammar of relationships

A relationship is printed as `type:id#relation@type:id`, with `#relation` behind the subject
of a userset.  The parser cuts a text at the first of each delimiter; no identifier holds a
delimiter, so what it cuts is what was printed.

**Results.**
* `validateTypeIdentifier_iff`, `validateIdIdentifier_iff`: the validators, character by
  character.
* `Relationship.fromStr_ok_iff`: a text parses to a relationship exactly when it is the
  printed form of it and within the byte limit.
* `fromStr_ok_iff_grammar`: the texts that parse are those of the grammar.
* `fromStr_display_iff`: the printed form parses unless a userset has identifiers so long
  that the delimiters pass the byte limit.
-/

namespace SimpleZanzibar

open AsciiText

/-! ## Identifiers, character by character -/

/-- A letter, then letters, digits and underscores; at most 64 bytes. -/
structure IsTypeText (value : String) : Prop where
  nonempty : 1 ≤ value.utf8ByteSize
  size : value.utf8ByteSize ≤ 64
  first : ∀ c ∈ value.toList.head?, c.isAlpha
  rest : ∀ c ∈ value.toList.tail, c.isAlphanum ∨ c = '_'

/-- A visible ASCII character that is no delimiter and no slash. -/
def IsIdChar (c : Char) : Prop :=
  ('!' ≤ c ∧ c ≤ '~') ∧ c ≠ '#' ∧ c ≠ '@' ∧ c ≠ ':' ∧ c ≠ '/' ∧ c ≠ '\\'

instance (c : Char) : Decidable (IsIdChar c) :=
  inferInstanceAs (Decidable (_ ∧ _))

/-- Visible ASCII characters but the delimiters and slashes; at most 256 bytes. -/
structure IsIdText (value : String) : Prop where
  nonempty : 1 ≤ value.utf8ByteSize
  size : value.utf8ByteSize ≤ 256
  chars : ∀ c ∈ value.toList, IsIdChar c

theorem lt_of_isAlphanum
    {c : Char}
    (h : c.isAlphanum ∨ c = '_') :
    c.toNat < 128 := by
  rcases h with h | rfl
  · change (decide ('A'.val ≤ c.val ∧ c.val ≤ 'Z'.val) ||
      (decide ('a'.val ≤ c.val) && decide (c.val ≤ 'z'.val)) ||
      (decide ('0'.val ≤ c.val) && decide (c.val ≤ '9'.val))) = true at h
    simp only [Bool.or_eq_true, Bool.and_eq_true, decide_eq_true_eq,
      UInt32.le_iff_toNat_le] at h
    have hc : c.toNat = c.val.toNat := rfl
    simp at h
    omega
  · decide

theorem IsIdChar.lt
    {c : Char}
    (h : IsIdChar c) :
    c.toNat < 128 := by
  have hle : c.val.toNat ≤ '~'.val.toNat := UInt32.le_iff_toNat_le.mp h.1.2
  exact lt_of_le_of_lt hle (by decide)

theorem isAlpha_iff_byte
    {c : Char}
    (h : c.toNat < 128) :
    c.isAlpha = isAsciiAlphabetic (byteOf c) :=
  forall_char (P := fun c => c.isAlpha = isAsciiAlphabetic (byteOf c)) (by decide) h

theorem isAlphanum_iff_byte
    {c : Char}
    (h : c.toNat < 128) :
    (c.isAlphanum ∨ c = '_') ↔ (isAsciiAlphanumeric (byteOf c) || byteOf c == 95) :=
  forall_char (P := fun c =>
    (c.isAlphanum ∨ c = '_') ↔ (isAsciiAlphanumeric (byteOf c) || byteOf c == 95))
    (by decide) h

/-- The bytes that the validator of identifiers accepts. -/
def isIdByte (byte : UInt8) : Bool :=
  isAsciiGraphic byte &&
    !(byte == 35 || byte == 64 || byte == 58 || byte == 47 || byte == 92)

theorem isIdChar_iff_byte
    {c : Char}
    (h : c.toNat < 128) :
    IsIdChar c ↔ isIdByte (byteOf c) :=
  forall_char (P := fun c => IsIdChar c ↔ isIdByte (byteOf c)) (by decide) h

/-- From an offset on that no first byte is checked at, all bytes pass one check. -/
theorem firstInvalidOffset_eq_none_iff
    {valid : Nat → UInt8 → Bool} {test : UInt8 → Bool}
    {offset : Nat} {bytes : List UInt8}
    (htest : ∀ n, offset ≤ n → valid n = test) :
    firstInvalidOffset valid offset bytes = none ↔ ∀ byte ∈ bytes, test byte := by
  induction bytes generalizing offset with
  | nil => simp [firstInvalidOffset]
  | cons byte rest ih =>
      have hrest := @ih (offset + 1) (fun n hn => htest n (by omega))
      rw [firstInvalidOffset, htest offset le_rfl, List.forall_mem_cons]
      split
      · next h => rw [hrest, and_iff_right h]
      · next h => simp [h]

theorem validateBytes_eq_ok_iff
    {valid : Nat → UInt8 → Bool} {kind : IdentifierKind} {value : String} {maxBytes : Nat} :
    validateBytes valid kind value maxBytes = .ok () ↔
      1 ≤ value.utf8ByteSize ∧ value.utf8ByteSize ≤ maxBytes ∧
        firstInvalidOffset valid 0 (stringBytes value) = none := by
  have hlength : (stringBytes value).length = value.utf8ByteSize := length_bytes value
  unfold validateBytes
  simp only [List.isEmpty_iff_length_eq_zero, hlength]
  split_ifs with hempty hsize
  · simp [hempty]
  · simp [Nat.not_le.mpr hsize]
  · split
    · next offset h => simp [h]
    · next h =>
        rw [and_iff_left h]
        simp only [true_iff]
        omega

/-- Bytes below 128 are those of an ASCII text. -/
theorem isAscii_of_test
    {value : String} {test : UInt8 → Bool}
    (htest : ∀ byte, test byte → byte < 128)
    (h : ∀ byte ∈ stringBytes value, test byte) :
    IsAscii value.toList :=
  isAscii_of_bytes (fun byte hbyte => htest byte (h byte hbyte))

theorem validateIdIdentifier_iff
    {kind : IdentifierKind} {value : String} :
    validateIdIdentifier kind value maxIdBytes = .ok () ↔ IsIdText value := by
  have hbytes : firstInvalidOffset (fun _ => isIdByte) 0 (stringBytes value) = none ↔
      ∀ byte ∈ stringBytes value, isIdByte byte :=
    firstInvalidOffset_eq_none_iff (fun n hn => rfl)
  refine validateBytes_eq_ok_iff.trans ?_
  constructor
  · rintro ⟨hnonempty, hsize, hvalid⟩
    have hall := hbytes.mp hvalid
    have hascii : IsAscii value.toList := isAscii_of_test (by
      intro byte hbyte
      simp only [isIdByte, isAsciiGraphic, Bool.and_eq_true, decide_eq_true_eq] at hbyte
      exact UInt8.lt_of_le_of_lt hbyte.1.2 (by decide)) hall
    refine ⟨hnonempty, hsize, fun c hc => (isIdChar_iff_byte (hascii c hc)).mpr ?_⟩
    apply hall
    rw [stringBytes, ← bytes, bytes_of_isAscii hascii]
    exact List.mem_map_of_mem hc
  · rintro ⟨hnonempty, hsize, hchars⟩
    have hascii : IsAscii value.toList := fun c hc => (hchars c hc).lt
    refine ⟨hnonempty, hsize, hbytes.mpr ?_⟩
    intro byte hbyte
    rw [stringBytes, ← bytes, bytes_of_isAscii hascii] at hbyte
    obtain ⟨c, hc, rfl⟩ := List.mem_map.mp hbyte
    exact (isIdChar_iff_byte (hascii c hc)).mp (hchars c hc)

/-- The bytes that the validator of types accepts behind the first. -/
def isTypeRestByte (byte : UInt8) : Bool :=
  isAsciiAlphanumeric byte || byte == 95

theorem isTypeRestByte_lt
    {byte : UInt8}
    (h : isTypeRestByte byte) :
    byte < 128 := by
  simp only [isTypeRestByte, isAsciiAlphanumeric, isAsciiAlphabetic, Bool.or_eq_true,
    Bool.and_eq_true, decide_eq_true_eq, beq_iff_eq, UInt8.le_iff_toNat_le] at h
  rw [UInt8.lt_iff_toNat_lt]
  rcases h with ((h | h) | h) | rfl
  · exact lt_of_le_of_lt h.2 (by decide)
  · exact lt_of_le_of_lt h.2 (by decide)
  · exact lt_of_le_of_lt h.2 (by decide)
  · decide

/-- The first byte is checked as a letter, the others as letters, digits and underscores. -/
theorem firstInvalidOffset_type_cons_iff
    {byte : UInt8} {rest : List UInt8} :
    firstInvalidOffset (fun offset byte =>
        if offset = 0 then isAsciiAlphabetic byte
        else isAsciiAlphanumeric byte || byte == 95) 0 (byte :: rest) = none ↔
      isAsciiAlphabetic byte ∧ ∀ other ∈ rest, isTypeRestByte other := by
  rw [firstInvalidOffset, if_pos rfl]
  split
  · next h =>
      rw [and_iff_right h]
      refine firstInvalidOffset_eq_none_iff (fun n hn => ?_)
      funext other
      rw [if_neg (by omega)]
      rfl
  · next h => simp [h]

theorem validateTypeIdentifier_iff
    {kind : IdentifierKind} {value : String} :
    validateTypeIdentifier kind value maxTypeBytes = .ok () ↔ IsTypeText value := by
  refine validateBytes_eq_ok_iff.trans ?_
  have hlength : (stringBytes value).length = value.utf8ByteSize := length_bytes value
  constructor
  · rintro ⟨hnonempty, hsize, hvalid⟩
    cases hbytes : stringBytes value with
    | nil =>
        rw [hbytes, List.length_nil] at hlength
        omega
    | cons byte rest =>
        rw [hbytes] at hvalid
        obtain ⟨hbyte, hrest⟩ := firstInvalidOffset_type_cons_iff.mp hvalid
        have hfirst : isTypeRestByte byte := by
          simp [isTypeRestByte, isAsciiAlphanumeric, hbyte]
        have hascii : IsAscii value.toList := isAscii_of_test
          (fun _ => isTypeRestByte_lt)
          (by rw [hbytes]; exact List.forall_mem_cons.mpr ⟨hfirst, hrest⟩)
        have hmap : value.toList.map byteOf = byte :: rest := by
          rw [← hbytes]
          exact (bytes_of_isAscii hascii).symm
        cases htext : value.toList with
        | nil =>
            rw [htext] at hmap
            cases hmap
        | cons c others =>
            rw [htext] at hmap hascii
            obtain ⟨rfl, rfl⟩ := List.cons.inj hmap
            refine ⟨hnonempty, hsize, ?_, ?_⟩
            · rw [htext]
              intro first hfirst
              cases hfirst
              rw [isAlpha_iff_byte (hascii c List.mem_cons_self)]
              exact hbyte
            · rw [htext]
              intro other hother
              rw [isAlphanum_iff_byte (hascii other (List.mem_cons_of_mem c hother))]
              exact hrest _ (List.mem_map_of_mem hother)
  · rintro ⟨hnonempty, hsize, hfirst, hrest⟩
    refine ⟨hnonempty, hsize, ?_⟩
    cases htext : value.toList with
    | nil =>
        rw [← String.ofList_toList (s := value), htext] at hnonempty
        exact absurd hnonempty (by decide)
    | cons c others =>
        rw [htext] at hfirst hrest
        have hc : c.isAlpha := hfirst c rfl
        have hascii : IsAscii (c :: others) := by
          refine List.forall_mem_cons.mpr ⟨lt_of_isAlphanum (Or.inl ?_), fun other hother =>
            lt_of_isAlphanum (hrest other hother)⟩
          simp [Char.isAlphanum, hc]
        have hbytes : stringBytes value = byteOf c :: others.map byteOf := by
          have h : bytes value = value.toList.map byteOf :=
            bytes_of_isAscii (htext ▸ hascii)
          rw [htext] at h
          exact h
        rw [hbytes]
        refine firstInvalidOffset_type_cons_iff.mpr ⟨?_, ?_⟩
        · rw [← isAlpha_iff_byte (hascii c List.mem_cons_self)]
          exact hc
        · intro byte hbyte
          obtain ⟨other, hother, rfl⟩ := List.mem_map.mp hbyte
          exact (isAlphanum_iff_byte (hascii other (List.mem_cons_of_mem c hother))).mp
            (hrest other hother)

/-- The text that a validated identifier of a kind may have. -/
def IdentifierKind.IsText : IdentifierKind → String → Prop
  | .objectType, value => IsTypeText value
  | .objectId, value => IsIdText value
  | .relationName, value => IsTypeText value
  | .subjectType, value => IsTypeText value
  | .subjectId, value => IsIdText value

theorem IdentifierKind.validate_iff_isText
    {kind : IdentifierKind} {value : String} :
    kind.validate value = .ok () ↔ kind.IsText value := by
  cases kind with
  | objectType => exact validateTypeIdentifier_iff
  | objectId => exact validateIdIdentifier_iff
  | relationName => exact validateTypeIdentifier_iff
  | subjectType => exact validateTypeIdentifier_iff
  | subjectId => exact validateIdIdentifier_iff

theorem Identifier.isText
    {kind : IdentifierKind}
    (identifier : Identifier kind) :
    kind.IsText identifier.value :=
  IdentifierKind.validate_iff_isText.mp identifier.valid

/-- The delimiters of the relationship grammar. -/
def IsDelimiter (c : Char) : Prop :=
  c = ':' ∨ c = '#' ∨ c = '@'

theorem IsTypeText.not_mem
    {value : String} {c : Char}
    (h : IsTypeText value)
    (hc : IsDelimiter c) :
    c ∉ value.toList := by
  have hno : ∀ c, IsDelimiter c → ¬(c.isAlphanum ∨ c = '_') := by
    rintro c (rfl | rfl | rfl)
    · decide
    · decide
    · decide
  intro hmem
  cases htext : value.toList with
  | nil => rw [htext] at hmem; cases hmem
  | cons first rest =>
      rw [htext] at hmem
      rcases List.mem_cons.mp hmem with rfl | hrest
      · have hfirst : c.isAlpha := h.first c (by rw [htext]; rfl)
        exact hno c hc (Or.inl (by simp [Char.isAlphanum, hfirst]))
      · exact hno c hc (h.rest c (by rw [htext]; exact hrest))

theorem IsIdText.not_mem
    {value : String} {c : Char}
    (h : IsIdText value)
    (hc : IsDelimiter c) :
    c ∉ value.toList := by
  intro hmem
  obtain ⟨-, hhash, hat, hcolon, -, -⟩ := h.chars c hmem
  rcases hc with rfl | rfl | rfl
  · exact hcolon rfl
  · exact hhash rfl
  · exact hat rfl

/-- No identifier holds a delimiter. -/
theorem Identifier.not_mem
    {kind : IdentifierKind}
    (identifier : Identifier kind)
    {c : Char}
    (hc : IsDelimiter c) :
    c ∉ identifier.value.toList := by
  have h := identifier.isText
  cases kind with
  | objectType => exact IsTypeText.not_mem h hc
  | objectId => exact IsIdText.not_mem h hc
  | relationName => exact IsTypeText.not_mem h hc
  | subjectType => exact IsTypeText.not_mem h hc
  | subjectId => exact IsIdText.not_mem h hc

theorem Identifier.value_isEmpty
    {kind : IdentifierKind}
    (identifier : Identifier kind) :
    identifier.value.isEmpty = false := by
  have hnonempty : 1 ≤ identifier.value.utf8ByteSize := by
    have h := identifier.isText
    cases kind with
    | objectType => exact IsTypeText.nonempty h
    | objectId => exact IsIdText.nonempty h
    | relationName => exact IsTypeText.nonempty h
    | subjectType => exact IsTypeText.nonempty h
    | subjectId => exact IsIdText.nonempty h
  rw [Bool.eq_false_iff]
  intro hempty
  rw [String.isEmpty_iff] at hempty
  rw [hempty] at hnonempty
  exact absurd hnonempty (by decide)

/-! ## Cutting a text at a delimiter -/

theorem splitAtFirst_eq_some_iff
    {delimiter : Char} {value left right : String} :
    splitAtFirst delimiter value = some (left, right) ↔
      delimiter ∉ left.toList ∧ value.toList = left.toList ++ delimiter :: right.toList := by
  unfold splitAtFirst
  constructor
  · intro h
    split at h
    · next hmem =>
        obtain ⟨hleft, hright⟩ := Prod.mk.inj (Option.some.inj h)
        rw [← hleft, ← hright, String.toList_ofList, String.toList_ofList]
        refine ⟨fun hin => ?_, ?_⟩
        · simpa using List.mem_takeWhile_imp hin
        · cases hdrop : value.toList.dropWhile (· != delimiter) with
          | nil =>
              have hall := List.dropWhile_eq_nil_iff.mp hdrop delimiter hmem
              simp at hall
          | cons c rest =>
              have hc : c = delimiter := by
                have h := List.head_dropWhile_not (· != delimiter) (l := value.toList)
                  (by rw [hdrop]; exact List.cons_ne_nil _ _)
                simpa [hdrop] using h
              have hparts := List.takeWhile_append_dropWhile
                (p := (· != delimiter)) (l := value.toList)
              rw [hdrop, hc] at hparts
              exact hparts.symm
    · cases h
  · rintro ⟨hnot, htext⟩
    have hall : ∀ c ∈ left.toList, (c != delimiter) = true := by
      intro c hc
      rw [bne_iff_ne]
      rintro rfl
      exact hnot hc
    rw [if_pos (by rw [htext]; simp), htext, List.takeWhile_append_of_pos hall,
      List.dropWhile_append_of_pos hall]
    simp

theorem splitAtFirst_eq_none_iff
    {delimiter : Char} {value : String} :
    splitAtFirst delimiter value = none ↔ delimiter ∉ value.toList := by
  unfold splitAtFirst
  split
  · next h => simp [h]
  · next h => simp [h]

theorem splitOnce_eq_ok_iff
    {delimiter : Char} {value left right : String} {missingReason : String} :
    splitOnce value delimiter missingReason = .ok (left, right) ↔
      (delimiter ∉ left.toList ∧ value.toList = left.toList ++ delimiter :: right.toList) ∧
        left.isEmpty = false ∧ right.isEmpty = false := by
  rw [← splitAtFirst_eq_some_iff]
  unfold splitOnce
  split
  · next h => simp [h]
  · next first rest h =>
      rw [h, Option.some.injEq, Prod.mk.injEq]
      split
      · next hempty =>
          constructor
          · intro h
            cases h
          · rintro ⟨⟨rfl, rfl⟩, hleft, hright⟩
            simp [hleft, hright] at hempty
      · next hempty =>
          simp only [Bool.or_eq_true, not_or, Bool.not_eq_true] at hempty
          rw [Except.ok.injEq, Prod.mk.injEq]
          constructor
          · rintro ⟨rfl, rfl⟩
            exact ⟨⟨rfl, rfl⟩, hempty⟩
          · rintro ⟨h, -⟩
            exact h

/-! ## Printing -/

def ObjectRef.display (object : ObjectRef) : String :=
  object.objectType.value ++ ":" ++ object.objectId.value

def SubjectRef.display : SubjectRef → String
  | .object target => target.display
  | .userset target relation => target.display ++ "#" ++ relation.value

def Relationship.display (relationship : Relationship) : String :=
  relationship.resource.display ++ "#" ++ relationship.relation.value ++ "@" ++
    relationship.subject.display

/-- An object reference holds no delimiter but its colon. -/
theorem ObjectRef.not_mem_display
    (object : ObjectRef)
    {c : Char}
    (hc : IsDelimiter c)
    (hcolon : c ≠ ':') :
    c ∉ object.display.toList := by
  simp only [display, String.toList_append, List.mem_append, not_or]
  exact ⟨⟨object.objectType.not_mem hc, by simpa using hcolon⟩, object.objectId.not_mem hc⟩

theorem SubjectRef.not_mem_display
    (subject : SubjectRef) :
    '@' ∉ subject.display.toList := by
  have hat : IsDelimiter '@' := Or.inr (Or.inr rfl)
  cases subject with
  | object target => exact target.not_mem_display hat (by decide)
  | userset target relation =>
      simp only [display, String.toList_append, List.mem_append, not_or]
      exact ⟨⟨target.not_mem_display hat (by decide), by decide⟩, relation.not_mem hat⟩

theorem ObjectRef.display_isEmpty
    (object : ObjectRef) :
    object.display.isEmpty = false := by
  rw [Bool.eq_false_iff, ne_eq, String.isEmpty_iff, ← String.toList_eq_nil_iff]
  simp [display]

theorem SubjectRef.display_isEmpty
    (subject : SubjectRef) :
    subject.display.isEmpty = false := by
  cases subject with
  | object target => exact target.display_isEmpty
  | userset target relation =>
      rw [Bool.eq_false_iff, ne_eq, String.isEmpty_iff, ← String.toList_eq_nil_iff]
      simp [display]

/-! ## Parsing -/

/-- The parser of object references reads exactly what is printed. -/
theorem ObjectRef.fromStr_ok_iff
    {value : String} {object : ObjectRef} :
    ObjectRef.fromStr value = .ok object ↔ object.display = value := by
  unfold fromStr
  constructor
  · intro h
    obtain ⟨⟨left, right⟩, hsplit, h⟩ := bind_eq_ok.mp h
    obtain ⟨objectType, htype, h⟩ := bind_eq_ok.mp h
    obtain ⟨objectId, hid, h⟩ := bind_eq_ok.mp h
    cases h
    obtain ⟨⟨-, htext⟩, -⟩ := splitOnce_eq_ok_iff.mp hsplit
    rw [Identifier.new_ok_iff] at htype hid
    rw [← String.toList_inj, htext, display, htype, hid]
    simp
  · rintro rfl
    have hsplit : splitOnce object.display ':' "object reference must contain ':'" =
        .ok (object.objectType.value, object.objectId.value) := by
      refine splitOnce_eq_ok_iff.mpr ⟨⟨object.objectType.not_mem (Or.inl rfl), ?_⟩,
        object.objectType.value_isEmpty, object.objectId.value_isEmpty⟩
      simp [display]
    rw [hsplit]
    simp only [bind, Except.bind, Identifier.new_value]
    rfl

/-- Subjects have validators of their own, which accept the same texts. -/
theorem parseSubjectObject_ok_iff
    {value : String} {object : ObjectRef} :
    parseSubjectObject value = .ok object ↔ object.display = value := by
  unfold parseSubjectObject
  constructor
  · intro h
    obtain ⟨⟨left, right⟩, hsplit, h⟩ := bind_eq_ok.mp h
    obtain ⟨subjectType, hsubjectType, h⟩ := bind_eq_ok.mp h
    obtain ⟨objectType, htype, h⟩ := bind_eq_ok.mp h
    obtain ⟨subjectId, hsubjectId, h⟩ := bind_eq_ok.mp h
    obtain ⟨objectId, hid, h⟩ := bind_eq_ok.mp h
    cases h
    obtain ⟨⟨-, htext⟩, -⟩ := splitOnce_eq_ok_iff.mp hsplit
    rw [Identifier.new_ok_iff] at hsubjectType htype hsubjectId hid
    rw [← String.toList_inj, htext, ObjectRef.display, htype, hsubjectType, hid, hsubjectId]
    simp
  · rintro rfl
    have hsplit : splitOnce object.display ':' "subject reference must contain ':'" =
        .ok (object.objectType.value, object.objectId.value) := by
      refine splitOnce_eq_ok_iff.mpr ⟨⟨object.objectType.not_mem (Or.inl rfl), ?_⟩,
        object.objectType.value_isEmpty, object.objectId.value_isEmpty⟩
      simp [ObjectRef.display]
    have htype : Identifier.new .subjectType object.objectType.value =
        .ok ⟨object.objectType.value,
          (validate_subjectType_iff _).mpr object.objectType.valid⟩ :=
      Identifier.new_ok_iff.mpr rfl
    have hid : Identifier.new .subjectId object.objectId.value =
        .ok ⟨object.objectId.value,
          (validate_subjectId_iff _).mpr object.objectId.valid⟩ :=
      Identifier.new_ok_iff.mpr rfl
    rw [hsplit]
    simp only [bind, Except.bind, htype, hid, Identifier.new_value]
    rfl

/-- The first `#` of a subject is that of a userset. -/
theorem SubjectRef.fromStr_ok_iff
    {value : String} {subject : SubjectRef} :
    SubjectRef.fromStr value = .ok subject ↔ subject.display = value := by
  have hhash : IsDelimiter '#' := Or.inr (Or.inl rfl)
  unfold fromStr
  constructor
  · intro h
    split at h
    · next left right hsplit =>
        obtain ⟨-, htext⟩ := splitAtFirst_eq_some_iff.mp hsplit
        obtain ⟨target, htarget, h⟩ := bind_eq_ok.mp h
        obtain ⟨relation, hrelation, h⟩ := bind_eq_ok.mp h
        cases h
        rw [← String.toList_inj, htext, display, ObjectRef.fromStr_ok_iff.mp htarget,
          Identifier.new_ok_iff.mp hrelation]
        simp
    · next hsplit =>
        obtain ⟨target, htarget, h⟩ := bind_eq_ok.mp h
        cases h
        exact parseSubjectObject_ok_iff.mp htarget
  · rintro rfl
    cases subject with
    | object target =>
        have hsplit : splitAtFirst '#' (SubjectRef.object target).display = none :=
          splitAtFirst_eq_none_iff.mpr (target.not_mem_display hhash (by decide))
        have htarget : parseSubjectObject (SubjectRef.object target).display = .ok target :=
          parseSubjectObject_ok_iff.mpr rfl
        rw [hsplit]
        simp only [bind, Except.bind, htarget]
        rfl
    | userset target relation =>
        have hsplit : splitAtFirst '#' (SubjectRef.userset target relation).display =
            some (target.display, relation.value) := by
          refine splitAtFirst_eq_some_iff.mpr
            ⟨target.not_mem_display hhash (by decide), ?_⟩
          simp [display]
        rw [hsplit]
        simp only [bind, Except.bind, ObjectRef.fromStr_ok_iff.mpr rfl, Identifier.new_value]
        rfl

/-- A text parses to the relationship that it is the printed form of. -/
theorem Relationship.fromStr_ok_iff
    {value : String} {relationship : Relationship} :
    Relationship.fromStr value = .ok relationship ↔
      relationship.display = value ∧ value.utf8ByteSize ≤ maxRelationshipBytes := by
  have hat : IsDelimiter '@' := Or.inr (Or.inr rfl)
  have hhash : IsDelimiter '#' := Or.inr (Or.inl rfl)
  have hlength : (stringBytes value).length = value.utf8ByteSize := length_bytes value
  unfold fromStr
  rw [hlength]
  split
  · next hlong =>
      constructor
      · intro h
        cases h
      · rintro ⟨-, hle⟩
        omega
  · next hshort =>
      rw [and_iff_left (Nat.not_lt.mp hshort)]
      constructor
      · intro h
        obtain ⟨⟨left, right⟩, hsplit, h⟩ := bind_eq_ok.mp h
        simp only at h
        split at h
        · cases h
        · obtain ⟨⟨target, name⟩, hsplit', h⟩ := bind_eq_ok.mp h
          simp only at h
          split at h
          · cases h
          · obtain ⟨resource, hresource, h⟩ := bind_eq_ok.mp h
            obtain ⟨relation, hrelation, h⟩ := bind_eq_ok.mp h
            obtain ⟨subject, hsubject, h⟩ := bind_eq_ok.mp h
            cases h
            obtain ⟨⟨-, htext⟩, -⟩ := splitOnce_eq_ok_iff.mp hsplit
            obtain ⟨⟨-, htext'⟩, -⟩ := splitOnce_eq_ok_iff.mp hsplit'
            rw [← String.toList_inj, htext, htext', display,
              ObjectRef.fromStr_ok_iff.mp hresource, Identifier.new_ok_iff.mp hrelation,
              SubjectRef.fromStr_ok_iff.mp hsubject]
            simp
      · rintro rfl
        have hleft : '@' ∉
            (relationship.resource.display ++ "#" ++ relationship.relation.value).toList := by
          simp only [String.toList_append, List.mem_append, not_or]
          exact ⟨⟨relationship.resource.not_mem_display hat (by decide), by decide⟩,
            relationship.relation.not_mem hat⟩
        have hsplit : splitOnce relationship.display '@'
            "relationship must contain one '@' separator" =
              .ok (relationship.resource.display ++ "#" ++ relationship.relation.value,
                relationship.subject.display) := by
          refine splitOnce_eq_ok_iff.mpr
            ⟨⟨hleft, ?_⟩, ?_, relationship.subject.display_isEmpty⟩
          · simp [display]
          · rw [Bool.eq_false_iff, ne_eq, String.isEmpty_iff, ← String.toList_eq_nil_iff]
            simp
        have hsplit' : splitOnce
            (relationship.resource.display ++ "#" ++ relationship.relation.value) '#'
            "relationship resource must contain '#'" =
              .ok (relationship.resource.display, relationship.relation.value) := by
          refine splitOnce_eq_ok_iff.mpr
            ⟨⟨relationship.resource.not_mem_display hhash (by decide), ?_⟩,
              relationship.resource.display_isEmpty, relationship.relation.value_isEmpty⟩
          simp
        rw [hsplit]
        simp only [bind, Except.bind, if_neg relationship.subject.not_mem_display, pure,
          Except.pure, hsplit', if_neg (relationship.relation.not_mem hhash),
          ObjectRef.fromStr_ok_iff.mpr rfl, Identifier.new_value,
          SubjectRef.fromStr_ok_iff.mpr rfl]

/-! ## The grammar -/

/-- The texts `type:id#relation@type:id` and `type:id#relation@type:id#relation`. -/
def IsRelationshipText (value : String) : Prop :=
  ∃ resourceType resourceId relation subjectType subjectId : String,
    (IsTypeText resourceType ∧ IsIdText resourceId ∧ IsTypeText relation ∧
      IsTypeText subjectType ∧ IsIdText subjectId) ∧
    (value = resourceType ++ ":" ++ resourceId ++ "#" ++ relation ++ "@" ++
        subjectType ++ ":" ++ subjectId ∨
      ∃ subjectRelation : String, IsTypeText subjectRelation ∧
        value = resourceType ++ ":" ++ resourceId ++ "#" ++ relation ++ "@" ++
          subjectType ++ ":" ++ subjectId ++ "#" ++ subjectRelation)

/-- The printed forms of the relationships are the texts of the grammar. -/
theorem exists_display_iff
    {value : String} :
    (∃ relationship : Relationship, relationship.display = value) ↔
      IsRelationshipText value := by
  constructor
  · rintro ⟨⟨resource, relation, subject⟩, rfl⟩
    have hresource : IsTypeText resource.objectType.value ∧ IsIdText resource.objectId.value :=
      ⟨resource.objectType.isText, resource.objectId.isText⟩
    cases subject with
    | object target =>
        refine ⟨_, _, _, _, _, ⟨hresource.1, hresource.2, relation.isText,
          target.objectType.isText, target.objectId.isText⟩, Or.inl ?_⟩
        simp [Relationship.display, SubjectRef.display, ObjectRef.display, String.append_assoc]
    | userset target subjectRelation =>
        refine ⟨_, _, _, _, _, ⟨hresource.1, hresource.2, relation.isText,
          target.objectType.isText, target.objectId.isText⟩,
          Or.inr ⟨_, subjectRelation.isText, ?_⟩⟩
        simp [Relationship.display, SubjectRef.display, ObjectRef.display, String.append_assoc]
  · rintro ⟨resourceType, resourceId, relation, subjectType, subjectId,
      ⟨hresourceType, hresourceId, hrelation, hsubjectType, hsubjectId⟩, hvalue⟩
    let resource : ObjectRef :=
      ⟨⟨resourceType, IdentifierKind.validate_iff_isText.mpr hresourceType⟩,
        ⟨resourceId, IdentifierKind.validate_iff_isText.mpr hresourceId⟩⟩
    let name : RelationName := ⟨relation, IdentifierKind.validate_iff_isText.mpr hrelation⟩
    let target : ObjectRef :=
      ⟨⟨subjectType, IdentifierKind.validate_iff_isText.mpr hsubjectType⟩,
        ⟨subjectId, IdentifierKind.validate_iff_isText.mpr hsubjectId⟩⟩
    rcases hvalue with rfl | ⟨subjectRelation, hsubjectRelation, rfl⟩
    · refine ⟨⟨resource, name, .object target⟩, ?_⟩
      simp [Relationship.display, SubjectRef.display, ObjectRef.display, String.append_assoc,
        resource, name, target]
    · refine ⟨⟨resource, name, .userset target
        ⟨subjectRelation, IdentifierKind.validate_iff_isText.mpr hsubjectRelation⟩⟩, ?_⟩
      simp [Relationship.display, SubjectRef.display, ObjectRef.display, String.append_assoc,
        resource, name, target]

/-- The parser accepts the texts of the grammar within the byte limit, and what it accepts
is the printed form of what it returns. -/
theorem fromStr_ok_iff_grammar
    (value : String) :
    ((∃ relationship, Relationship.fromStr value = .ok relationship) ↔
      value.utf8ByteSize ≤ 768 ∧ IsRelationshipText value) ∧
      ∀ relationship, Relationship.fromStr value = .ok relationship →
        relationship.display = value := by
  constructor
  · rw [← exists_display_iff]
    constructor
    · rintro ⟨relationship, h⟩
      obtain ⟨hdisplay, hsize⟩ := Relationship.fromStr_ok_iff.mp h
      exact ⟨hsize, relationship, hdisplay⟩
    · rintro ⟨hsize, relationship, hdisplay⟩
      exact ⟨relationship, Relationship.fromStr_ok_iff.mpr ⟨hdisplay, hsize⟩⟩
  · intro relationship h
    exact (Relationship.fromStr_ok_iff.mp h).1

/-! ## The byte limit -/

/-- A tuple of a write request: raw strings. -/
structure RelationTuple where
  object : Object
  relation : Relation
  user : User
deriving DecidableEq, Repr

def Relationship.tryFrom (tuple : RelationTuple) : Except DomainError Relationship := do
  let resource ← ObjectRef.tryFrom tuple.object
  let relation ← RelationName.tryFrom tuple.relation
  let subject ← SubjectRef.tryFrom tuple.user
  return ⟨resource, relation, subject⟩

def ObjectRef.identifierBytes (object : ObjectRef) : Nat :=
  object.objectType.value.utf8ByteSize + object.objectId.value.utf8ByteSize

/-- The bytes of a relationship's identifiers, without those of the delimiters. -/
def Relationship.identifierBytes (relationship : Relationship) : Nat :=
  relationship.resource.identifierBytes + relationship.relation.value.utf8ByteSize +
    match relationship.subject with
    | .object target => target.identifierBytes
    | .userset target relation => target.identifierBytes + relation.value.utf8ByteSize

theorem ObjectRef.identifierBytes_le
    (object : ObjectRef) :
    object.identifierBytes ≤ 320 := by
  have htype : IsTypeText object.objectType.value := object.objectType.isText
  have hid : IsIdText object.objectId.value := object.objectId.isText
  have htypeSize := htype.size
  have hidSize := hid.size
  unfold identifierBytes
  omega

theorem ObjectRef.utf8ByteSize_display
    (object : ObjectRef) :
    object.display.utf8ByteSize = object.identifierBytes + 1 := by
  simp only [display, identifierBytes, String.utf8ByteSize_append]
  have hcolon : ":".utf8ByteSize = 1 := rfl
  omega

/-- The printed form parses unless a userset has identifiers of more than 763 bytes. -/
theorem fromStr_display_iff
    (relationship : Relationship) :
    Relationship.fromStr relationship.display = .ok relationship ↔
      ((∃ target, relationship.subject = .object target) ∨
        relationship.identifierBytes ≤ 763) := by
  rw [Relationship.fromStr_ok_iff, and_iff_right rfl]
  obtain ⟨resource, relation, subject⟩ := relationship
  have hhash : "#".utf8ByteSize = 1 := rfl
  have hat : "@".utf8ByteSize = 1 := rfl
  have hresource := resource.identifierBytes_le
  have hrelation : IsTypeText relation.value := relation.isText
  have hrelationSize := hrelation.size
  cases subject with
  | object target =>
      have htarget := target.identifierBytes_le
      simp only [Relationship.display, SubjectRef.display, String.utf8ByteSize_append,
        ObjectRef.utf8ByteSize_display, maxRelationshipBytes]
      constructor
      · intro _
        exact Or.inl ⟨target, rfl⟩
      · intro _
        omega
  | userset target subjectRelation =>
      simp only [Relationship.display, SubjectRef.display, String.utf8ByteSize_append,
        ObjectRef.utf8ByteSize_display, maxRelationshipBytes, Relationship.identifierBytes]
      constructor
      · intro _
        exact Or.inr (by omega)
      · rintro (⟨other, h⟩ | h)
        · cases h
        · omega

def repeatedLetter (count : Nat) : String :=
  String.ofList (List.replicate count 'a')

theorem utf8ByteSize_repeatedLetter
    (count : Nat) :
    (repeatedLetter count).utf8ByteSize = count := by
  have hascii : IsAscii (List.replicate count 'a') := by
    intro c hc
    rw [List.eq_of_mem_replicate hc]
    decide
  rw [← length_bytes, repeatedLetter, bytes_ofList hascii, List.length_map,
    List.length_replicate]

theorem isTypeText_repeatedLetter
    {count : Nat}
    (hpos : 1 ≤ count)
    (hle : count ≤ 64) :
    IsTypeText (repeatedLetter count) := by
  have hsize := utf8ByteSize_repeatedLetter count
  have hchars : (repeatedLetter count).toList = List.replicate count 'a' :=
    String.toList_ofList
  refine ⟨by omega, by omega, ?_, ?_⟩
  · intro c hc
    rw [hchars] at hc
    rw [List.eq_of_mem_replicate (List.mem_of_mem_head? hc)]
    decide
  · intro c hc
    rw [hchars] at hc
    rw [List.eq_of_mem_replicate (List.mem_of_mem_tail hc)]
    exact Or.inl (by decide)

theorem isIdText_repeatedLetter
    {count : Nat}
    (hpos : 1 ≤ count)
    (hle : count ≤ 256) :
    IsIdText (repeatedLetter count) := by
  have hsize := utf8ByteSize_repeatedLetter count
  refine ⟨by omega, by omega, ?_⟩
  intro c hc
  rw [repeatedLetter, String.toList_ofList] at hc
  rw [List.eq_of_mem_replicate hc]
  decide

/-- The longest userset of a tuple write has a printed form of 773 bytes, which does not
parse. -/
theorem fromStr_display_longest_userset :
    ∃ relationship,
      Relationship.tryFrom
          ⟨⟨repeatedLetter 64, repeatedLetter 256⟩, ⟨repeatedLetter 64⟩,
            .userset ⟨repeatedLetter 64, repeatedLetter 256⟩ ⟨repeatedLetter 64⟩⟩ =
        .ok relationship ∧
      Relationship.fromStr relationship.display =
        .error (.identifierTooLong .objectId 768) := by
  have htype : IsTypeText (repeatedLetter 64) :=
    isTypeText_repeatedLetter (by decide) (by decide)
  have hid : IsIdText (repeatedLetter 256) :=
    isIdText_repeatedLetter (by decide) (by decide)
  let object : ObjectRef :=
    ⟨⟨_, IdentifierKind.validate_iff_isText.mpr htype⟩,
      ⟨_, IdentifierKind.validate_iff_isText.mpr hid⟩⟩
  let relation : RelationName := ⟨_, IdentifierKind.validate_iff_isText.mpr htype⟩
  refine ⟨⟨object, relation, .userset object relation⟩, ?_, ?_⟩
  · have hobject : ObjectRef.tryFrom ⟨repeatedLetter 64, repeatedLetter 256⟩ = .ok object :=
      ObjectRef.tryFrom_ok_iff.mpr rfl
    have hrelation : Identifier.new .relationName (repeatedLetter 64) = .ok relation :=
      Identifier.new_ok_iff.mpr rfl
    simp only [Relationship.tryFrom, SubjectRef.tryFrom, RelationName.tryFrom, hobject, hrelation,
      bind, Except.bind, pure, Except.pure]
  · have hobject : object.display.utf8ByteSize = 321 := by
      rw [ObjectRef.utf8ByteSize_display, ObjectRef.identifierBytes]
      simp only [object, utf8ByteSize_repeatedLetter]
    have hdisplay : (Relationship.mk object relation
        (.userset object relation)).display.utf8ByteSize = 773 := by
      simp only [Relationship.display, SubjectRef.display, String.utf8ByteSize_append, hobject,
        relation, utf8ByteSize_repeatedLetter]
      rfl
    unfold Relationship.fromStr
    rw [if_pos]
    · rfl
    · rw [show (stringBytes _).length = String.utf8ByteSize _ from length_bytes _, hdisplay]
      decide

end SimpleZanzibar
