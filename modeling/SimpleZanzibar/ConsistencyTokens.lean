import SimpleZanzibar.Engine
import SimpleZanzibar.Lib.NumberText
import SimpleZanzibar.Snapshot.Format

/-!
# The text of consistency tokens

A token is printed as its version, its revision, its schema hash and its datastore id, with
colons between them; the bytes of the hash and of the id are hexadecimal.  The parser reads
the fields from the left and takes each only when it needs it.

**Results.**
* `decodeHex_ok_iff`: the hexadecimal fields are two digits of either case a byte.
* `ConsistencyToken.fromStr_ok_iff`: the texts that parse, and what each of their fields is.
* `consistencyToken_text`: every token is printed within the byte limit and parsed back.
-/

namespace SimpleZanzibar

open AsciiText NumberText

def tokenVersion : String := "sz1"
def maxConsistencyTokenBytes : Nat := 122

/-- The parse error of the consistency errors, with its reason. -/
structure InvalidToken where
  reason : String
deriving DecidableEq, Repr

/-! ## Revisions -/

def Revision.display (revision : Revision) : String :=
  revision.get.repr

def Revision.fromStr (value : String) : Except InvalidToken Revision :=
  match parseUnsigned (2 ^ 64) value.toList with
  | none => .error ⟨"revision must be a non-zero unsigned integer"⟩
  | some parsed =>
      match Snapshot.revisionFromRaw parsed with
      | some revision => .ok revision
      | none => .error ⟨"revision must be non-zero"⟩

/-- A text is read as a revision when it is a numeral of it. -/
theorem Revision.fromStr_ok_iff
    {value : String} {revision : Revision} :
    Revision.fromStr value = .ok revision ↔ IsDecimal value.toList revision.get := by
  unfold fromStr
  constructor
  · intro h
    split at h
    · cases h
    · next parsed hparsed =>
        have hdecimal := ((parseUnsigned_eq_some_iff (by decide)).mp hparsed).1
        split at h
        · next found hfound =>
            cases h
            unfold Snapshot.revisionFromRaw at hfound
            split at hfound
            · cases hfound
              exact hdecimal
            · cases hfound
        · cases h
  · intro h
    have hparsed : parseUnsigned (2 ^ 64) value.toList = some revision.get :=
      (parseUnsigned_eq_some_iff (by decide)).mpr ⟨h, revision.lt⟩
    have hraw : Snapshot.revisionFromRaw revision.get = some revision :=
      dif_pos ⟨revision.pos, revision.lt⟩
    rw [hparsed]
    simp only [hraw]

/-! ## Hexadecimal fields -/

def writeHex (bytes : List UInt8) : String :=
  String.ofList (bytes.flatMap hexPair)

def decodeNibble (value : UInt8) : Except InvalidToken UInt8 :=
  if 48 ≤ value ∧ value ≤ 57 then .ok (value - 48)
  else if 97 ≤ value ∧ value ≤ 102 then .ok (value - 97 + 10)
  else if 65 ≤ value ∧ value ≤ 70 then .ok (value - 65 + 10)
  else .error ⟨"hex field contains invalid digit"⟩

/-- A byte from its two digits; the product and the sum have to fit a byte. -/
def decodePair (high low : UInt8) : Except InvalidToken UInt8 := do
  let high ← decodeNibble high
  if 256 ≤ high.toNat * 16 then
    .error ⟨"hex field contains invalid digit"⟩
  else
    match decodeNibble low with
    | .error _ => .error ⟨"hex field contains invalid digit"⟩
    | .ok low =>
        if 256 ≤ high.toNat * 16 + low.toNat then
          .error ⟨"hex field contains invalid digit"⟩
        else .ok (high * 16 + low)

/-- The pairs of bytes, without the last byte of an odd number of them. -/
def decodePairs : List UInt8 → Except InvalidToken (List UInt8)
  | high :: low :: rest => do
      let byte ← decodePair high low
      let bytes ← decodePairs rest
      return byte :: bytes
  | _ => .ok []

/-- The pairs overwrite an array of zeros. -/
def decodeHex (size : Nat) (value : String) : Except InvalidToken (Vector UInt8 size) :=
  if (stringBytes value).length ≠ size * 2 then
    .error ⟨"hex field length is invalid"⟩
  else do
    let decoded ← decodePairs (stringBytes value)
    return Vector.ofFn (fun i : Fin size => decoded.getD i.val 0)

/-- The byte of a character is read as the digit that the character is. -/
theorem decodeNibble_byteOf
    {c : Char}
    (h : c.toNat < 128) :
    decodeNibble (byteOf c) =
      match hexValue c with
      | some value => .ok (UInt8.ofNat value)
      | none => .error ⟨"hex field contains invalid digit"⟩ :=
  forall_char (P := fun c => decodeNibble (byteOf c) =
    match hexValue c with
    | some value => .ok (UInt8.ofNat value)
    | none => .error ⟨"hex field contains invalid digit"⟩) (by decide +kernel) h

theorem hexValue_lt
    {c : Char} {value : Nat}
    (h : hexValue c = some value) :
    value < 16 := by
  have hall := forall_char (P := fun c => (hexValue c).getD 0 < 16) (by decide)
    (lt_of_hexValue h)
  rwa [h, Option.getD_some] at hall

theorem decodeNibble_ok_lt
    {byte nibble : UInt8}
    (h : decodeNibble byte = .ok nibble) :
    byte < 128 := by
  have hle : ∀ last : UInt8, last < 128 → byte ≤ last → byte < 128 :=
    fun last hlast hbyte => UInt8.lt_of_le_of_lt hbyte hlast
  unfold decodeNibble at h
  split_ifs at h with hdigit hlower hupper
  · exact hle 57 (by decide) hdigit.2
  · exact hle 102 (by decide) hlower.2
  · exact hle 70 (by decide) hupper.2

/-- The two digits of a byte make it up. -/
theorem decodePair_byteOf_iff
    {high low : Char} {byte : UInt8}
    (hhigh : high.toNat < 128)
    (hlow : low.toNat < 128) :
    decodePair (byteOf high) (byteOf low) = .ok byte ↔
      ∃ highValue lowValue, hexValue high = some highValue ∧ hexValue low = some lowValue ∧
        byte.toNat = 16 * highValue + lowValue := by
  unfold decodePair
  rw [decodeNibble_byteOf hhigh, decodeNibble_byteOf hlow]
  cases hhighValue : hexValue high with
  | none => simp [bind, Except.bind]
  | some highValue =>
      have hhighLt := hexValue_lt hhighValue
      have hhighNat : (UInt8.ofNat highValue).toNat = highValue :=
        UInt8.toNat_ofNat_of_lt' (by omega : highValue < 256)
      simp only [bind, Except.bind, hhighNat]
      rw [if_neg (by omega)]
      cases hlowValue : hexValue low with
      | none => simp
      | some lowValue =>
          have hlowLt := hexValue_lt hlowValue
          have hlowNat : (UInt8.ofNat lowValue).toNat = lowValue :=
            UInt8.toNat_ofNat_of_lt' (by omega : lowValue < 256)
          have hsum : (UInt8.ofNat highValue * 16 + UInt8.ofNat lowValue).toNat =
              16 * highValue + lowValue := by
            rw [UInt8.toNat_add, UInt8.toNat_mul, hhighNat, hlowNat,
              show (16 : UInt8).toNat = 16 from rfl]
            omega
          simp only [hlowNat]
          rw [if_neg (by omega), Except.ok.injEq, ← UInt8.toNat_inj, hsum]
          constructor
          · intro h
            exact ⟨highValue, lowValue, rfl, rfl, h.symm⟩
          · rintro ⟨_, _, ⟨⟩, ⟨⟩, h⟩
            exact h.symm

theorem decodePairs_ok_lt
    {bytes decoded : List UInt8}
    (heven : bytes.length % 2 = 0)
    (h : decodePairs bytes = .ok decoded) :
    ∀ byte ∈ bytes, byte < 128 := by
  induction bytes using decodePairs.induct generalizing decoded with
  | case1 high low rest ih =>
      obtain ⟨byte, hpair, h⟩ := bind_eq_ok.mp h
      obtain ⟨others, hrest, -⟩ := bind_eq_ok.mp h
      have hlengths : rest.length % 2 = 0 := by
        simp only [List.length_cons] at heven
        omega
      obtain ⟨nibble, hhigh, hpair⟩ := bind_eq_ok.mp hpair
      have hlow : low < 128 := by
        split at hpair
        · cases hpair
        · split at hpair
          · cases hpair
          · next hlow => exact decodeNibble_ok_lt hlow
      exact List.forall_mem_cons.mpr ⟨decodeNibble_ok_lt hhigh,
        List.forall_mem_cons.mpr ⟨hlow, ih hlengths hrest⟩⟩
  | case2 bytes hshort =>
      match bytes, hshort, heven with
      | [], _, _ => exact List.forall_mem_nil _
      | [_], _, heven => cases heven
      | high :: low :: rest, hshort, _ => exact absurd rfl (hshort high low rest)

/-- The bytes of ASCII characters are read as the bytes that their digits stand for. -/
theorem decodePairs_map_iff
    {text : List Char} {bytes : List UInt8}
    (hascii : IsAscii text)
    (heven : text.length % 2 = 0) :
    decodePairs (text.map byteOf) = .ok bytes ↔ IsHex text bytes := by
  match text with
  | [] =>
      constructor
      · intro h
        cases h
        exact .nil
      · intro h
        cases h
        rfl
  | [_] => exact absurd heven (by simp)
  | high :: low :: rest =>
      obtain ⟨hhigh, hlow, hrest⟩ : high.toNat < 128 ∧ low.toNat < 128 ∧ IsAscii rest := by
        obtain ⟨hhigh, htail⟩ := List.forall_mem_cons.mp hascii
        exact ⟨hhigh, List.forall_mem_cons.mp htail⟩
      have ih : ∀ {others}, decodePairs (rest.map byteOf) = .ok others ↔ IsHex rest others :=
        decodePairs_map_iff hrest (by simp only [List.length_cons] at heven; omega)
      constructor
      · intro h
        obtain ⟨byte, hpair, h⟩ := bind_eq_ok.mp h
        obtain ⟨others, hothers, h⟩ := bind_eq_ok.mp h
        cases h
        obtain ⟨highValue, lowValue, hhighValue, hlowValue, hbyte⟩ :=
          (decodePair_byteOf_iff hhigh hlow).mp hpair
        exact .cons hhighValue hlowValue hbyte (ih.mp hothers)
      · intro h
        cases h with
        | cons hhighValue hlowValue hbyte hothers =>
            refine bind_eq_ok.mpr ⟨_, (decodePair_byteOf_iff hhigh hlow).mpr
              ⟨_, _, hhighValue, hlowValue, hbyte⟩, ?_⟩
            exact bind_eq_ok.mpr ⟨_, ih.mpr hothers, rfl⟩

/-- A hexadecimal field is two digits for each byte. -/
theorem decodeHex_ok_iff
    {size : Nat} {value : String} {bytes : Vector UInt8 size} :
    decodeHex size value = .ok bytes ↔ IsHex value.toList bytes.toList := by
  have hlist : bytes.toList.length = size := bytes.length_toList
  unfold decodeHex
  constructor
  · intro h
    split at h
    · cases h
    · next hlength =>
        obtain ⟨decoded, hdecoded, h⟩ := bind_eq_ok.mp h
        have hbytes : (stringBytes value).length = size * 2 := not_not.mp hlength
        have heven : (stringBytes value).length % 2 = 0 := by omega
        have hascii : IsAscii value.toList :=
          isAscii_of_bytes (decodePairs_ok_lt heven hdecoded)
        have hmap : stringBytes value = value.toList.map byteOf := bytes_of_isAscii hascii
        have htext : value.toList.length = size * 2 := by
          rw [← hbytes, hmap, List.length_map]
        rw [hmap] at hdecoded
        have hhex := (decodePairs_map_iff hascii (by omega)).mp hdecoded
        have hsize : decoded.length = size := by
          have hhexLength := hhex.length
          omega
        have hvector : bytes.toList = decoded := by
          cases h
          apply List.ext_getElem (by rw [Vector.length_toList, hsize])
          intro i hi hi'
          simp [hi']
        rw [hvector]
        exact hhex
  · intro h
    have hmap : stringBytes value = value.toList.map byteOf := bytes_of_isAscii h.isAscii
    have hlength := h.length
    rw [if_neg (by rw [hmap, List.length_map]; omega), hmap]
    refine bind_eq_ok.mpr ⟨bytes.toList,
      (decodePairs_map_iff h.isAscii (by omega)).mpr h, ?_⟩
    rw [pure, Applicative.toPure]
    refine congrArg Except.ok (Vector.ext ?_)
    intro i hi
    simp

theorem isHex_writeHex
    (bytes : List UInt8) :
    IsHex (writeHex bytes).toList bytes := by
  rw [writeHex, String.toList_ofList]
  exact isHex_flatMap_hexPair bytes

/-! ## Tokens -/

/-- The bytes of an id; their order is that of the number the id is kept as. -/
def DatastoreId.asBytes (id : DatastoreId) : Vector UInt8 16 :=
  ⟨(LittleEndian.encode 16 id.bytes.toNat).toArray, by simp⟩

def DatastoreId.fromBytes (bytes : Vector UInt8 16) : DatastoreId :=
  ⟨BitVec.ofNat 128 (LittleEndian.decode bytes.toList)⟩

theorem DatastoreId.toList_asBytes
    (id : DatastoreId) :
    id.asBytes.toList = LittleEndian.encode 16 id.bytes.toNat :=
  rfl

theorem DatastoreId.toNat_fromBytes
    (bytes : Vector UInt8 16) :
    (DatastoreId.fromBytes bytes).bytes.toNat = LittleEndian.decode bytes.toList := by
  have h := LittleEndian.decode_lt bytes.toList
  rw [bytes.length_toList] at h
  rw [fromBytes, BitVec.toNat_ofNat, Nat.mod_eq_of_lt]
  exact lt_of_lt_of_eq h (by decide)

@[simp] theorem DatastoreId.asBytes_fromBytes
    (bytes : Vector UInt8 16) :
    (DatastoreId.fromBytes bytes).asBytes = bytes := by
  have h := LittleEndian.encode_decode bytes.toList
  rw [bytes.length_toList] at h
  apply Vector.toList_inj.mp
  calc (DatastoreId.fromBytes bytes).asBytes.toList
      = LittleEndian.encode 16 (DatastoreId.fromBytes bytes).bytes.toNat := toList_asBytes _
    _ = LittleEndian.encode 16 (LittleEndian.decode bytes.toList) :=
        congrArg (LittleEndian.encode 16) (toNat_fromBytes bytes)
    _ = bytes.toList := h

@[simp] theorem DatastoreId.fromBytes_asBytes
    (id : DatastoreId) :
    DatastoreId.fromBytes id.asBytes = id := by
  obtain ⟨value⟩ := id
  have hlt : value.toNat < 256 ^ 16 := lt_of_lt_of_eq value.isLt (by decide)
  refine congrArg DatastoreId.mk (BitVec.eq_of_toNat_eq ?_)
  exact (toNat_fromBytes _).trans (LittleEndian.decode_encode hlt)

variable [Blake3Hash]

def SchemaHash.asBytes (hash : SchemaHash) : Vector UInt8 32 :=
  hash.bytes

def SchemaHash.fromBytes (bytes : Vector UInt8 32) : SchemaHash :=
  ⟨bytes⟩

/-- The next field of a token. -/
def nextField (parts : List (List Char)) (missing : String) :
    Except InvalidToken (String × List (List Char)) :=
  match parts with
  | [] => .error ⟨missing⟩
  | part :: rest => .ok (String.ofList part, rest)

omit [Blake3Hash] in
theorem nextField_ok_iff
    {parts rest : List (List Char)} {missing field : String} :
    nextField parts missing = .ok (field, rest) ↔ parts = field.toList :: rest := by
  cases parts with
  | nil => simp [nextField]
  | cons part others =>
      rw [nextField, Except.ok.injEq, Prod.mk.injEq, List.cons.injEq, ← String.toList_inj,
        String.toList_ofList]

namespace ConsistencyToken

def display (token : ConsistencyToken) : String :=
  tokenVersion ++ ":" ++ token.revision.display ++ ":" ++
    writeHex token.schemaHash.asBytes.toList ++ ":" ++
      writeHex token.datastoreId.asBytes.toList

def fromStr (value : String) : Except InvalidToken ConsistencyToken :=
  if maxConsistencyTokenBytes < (stringBytes value).length then
    .error ⟨"token exceeds maximum byte length"⟩
  else do
    let parts := value.toList.splitOn ':'
    let (version, parts) ← nextField parts "missing token version"
    if version ≠ tokenVersion then
      .error ⟨"unsupported token version"⟩
    else do
      let (revision, parts) ← nextField parts "missing revision"
      let revision ← Revision.fromStr revision
      let (schemaHash, parts) ← nextField parts "missing schema hash"
      let schemaHash ← decodeHex 32 schemaHash
      let (datastoreId, parts) ← nextField parts "missing datastore id"
      let datastoreId ← decodeHex 16 datastoreId
      if parts.isEmpty then
        return ⟨revision, SchemaHash.fromBytes schemaHash, DatastoreId.fromBytes datastoreId⟩
      else .error ⟨"too many token fields"⟩

/-- The fields of the texts of a token. -/
structure IsText (token : ConsistencyToken) (value : String) (revision schemaHash datastoreId :
    List Char) : Prop where
  fields : value.toList.splitOn ':' = [tokenVersion.toList, revision, schemaHash, datastoreId]
  revision : IsDecimal revision token.revision.get
  schemaHash : IsHex schemaHash token.schemaHash.asBytes.toList
  datastoreId : IsHex datastoreId token.datastoreId.asBytes.toList

/-- A text parses to a token when it has the four fields of it. -/
theorem fromStr_ok_iff
    {value : String} {token : ConsistencyToken} :
    fromStr value = .ok token ↔
      value.utf8ByteSize ≤ maxConsistencyTokenBytes ∧
        ∃ revision schemaHash datastoreId,
          IsText token value revision schemaHash datastoreId := by
  have hlength : (stringBytes value).length = value.utf8ByteSize := length_bytes value
  unfold fromStr
  rw [hlength]
  constructor
  · intro h
    split at h
    · cases h
    · next hshort =>
        refine ⟨Nat.not_lt.mp hshort, ?_⟩
        simp only at h
        obtain ⟨⟨version, parts⟩, hversion, h⟩ := bind_eq_ok.mp h
        simp only at h
        split at h
        · cases h
        · next hsame =>
            obtain ⟨⟨revision, parts⟩, hrevision, h⟩ := bind_eq_ok.mp h
            obtain ⟨parsed, hparsed, h⟩ := bind_eq_ok.mp h
            obtain ⟨⟨schemaHash, parts⟩, hschemaHash, h⟩ := bind_eq_ok.mp h
            obtain ⟨hash, hhash, h⟩ := bind_eq_ok.mp h
            obtain ⟨⟨datastoreId, parts⟩, hdatastoreId, h⟩ := bind_eq_ok.mp h
            obtain ⟨id, hid, h⟩ := bind_eq_ok.mp h
            simp only at h
            split at h
            · next hempty =>
                cases h
                rw [nextField_ok_iff] at hversion hrevision hschemaHash hdatastoreId
                simp only at hrevision hschemaHash hdatastoreId
                refine ⟨revision.toList, schemaHash.toList, datastoreId.toList, ?_,
                  Revision.fromStr_ok_iff.mp hparsed, decodeHex_ok_iff.mp hhash, ?_⟩
                · rw [hversion, hrevision, hschemaHash, hdatastoreId, not_not.mp hsame,
                    List.isEmpty_iff.mp hempty]
                · rw [DatastoreId.asBytes_fromBytes]
                  exact decodeHex_ok_iff.mp hid
            · cases h
  · rintro ⟨hsize, revision, schemaHash, datastoreId, hfields, hrevision, hschemaHash, hid⟩
    rw [if_neg (Nat.not_lt.mpr hsize)]
    have hrevision' : Revision.fromStr (String.ofList revision) = .ok token.revision :=
      Revision.fromStr_ok_iff.mpr (by rwa [String.toList_ofList])
    have hhash' : decodeHex 32 (String.ofList schemaHash) = .ok token.schemaHash.asBytes :=
      decodeHex_ok_iff.mpr (by rwa [String.toList_ofList])
    have hid' : decodeHex 16 (String.ofList datastoreId) = .ok token.datastoreId.asBytes :=
      decodeHex_ok_iff.mpr (by rwa [String.toList_ofList])
    simp only [hfields, nextField, bind, Except.bind, String.ofList_toList, ne_eq,
      not_true_eq_false, if_false, hrevision', hhash', hid', List.isEmpty_nil, if_true,
      DatastoreId.fromBytes_asBytes]
    rfl

theorem isText_display
    (token : ConsistencyToken) :
    token.IsText token.display token.revision.display.toList
      (writeHex token.schemaHash.asBytes.toList).toList
      (writeHex token.datastoreId.asBytes.toList).toList := by
  have hhash := isHex_writeHex token.schemaHash.asBytes.toList
  have hid := isHex_writeHex token.datastoreId.asBytes.toList
  refine ⟨?_, isDecimal_repr token.revision.get, hhash, hid⟩
  have hdisplay : token.display.toList = [':'].intercalate
      [tokenVersion.toList, token.revision.display.toList,
        (writeHex token.schemaHash.asBytes.toList).toList,
        (writeHex token.datastoreId.asBytes.toList).toList] := by
    simp [display, List.intercalate, List.append_assoc]
  rw [hdisplay]
  refine List.splitOn_intercalate ':' ?_ (List.cons_ne_nil _ _)
  intro field hfield
  simp only [List.mem_cons, List.not_mem_nil, or_false] at hfield
  rcases hfield with rfl | rfl | rfl | rfl
  · decide
  · exact not_mem_repr (by decide)
  · exact hhash.not_mem (by decide)
  · exact hid.not_mem (by decide)

omit [Blake3Hash] in
theorem utf8ByteSize_writeHex
    (bytes : List UInt8) :
    (writeHex bytes).utf8ByteSize = 2 * bytes.length := by
  have h := isHex_writeHex bytes
  rw [utf8ByteSize_of_isAscii h.isAscii, h.length]

/-- The longest revision has twenty digits. -/
theorem utf8ByteSize_display_le
    (token : ConsistencyToken) :
    token.display.utf8ByteSize ≤ maxConsistencyTokenBytes := by
  have hrevision : token.revision.display.utf8ByteSize ≤ 20 := by
    have hlt : token.revision.get < 10 ^ 20 := lt_trans token.revision.lt (by decide)
    have hlength := (Nat.length_repr_le_iff (by decide)).mpr hlt
    have hsize : token.revision.display.utf8ByteSize = token.revision.display.toList.length :=
      utf8ByteSize_of_isAscii (isAscii_repr token.revision.get)
    rw [hsize]
    exact hlength
  have hversion : tokenVersion.utf8ByteSize = 3 := by decide
  have hcolon : ":".utf8ByteSize = 1 := by decide
  simp only [display, String.utf8ByteSize_append, utf8ByteSize_writeHex, Vector.length_toList,
    hversion, hcolon, maxConsistencyTokenBytes]
  omega

end ConsistencyToken

/-- Every token is printed within the byte limit and parsed back, and a text that parses has
four fields: the version, a numeral of the revision, and two hexadecimal digits for each
byte of the schema hash and of the datastore id. -/
theorem consistencyToken_text :
    (∀ token : ConsistencyToken,
      token.display.utf8ByteSize ≤ maxConsistencyTokenBytes ∧
        ConsistencyToken.fromStr token.display = .ok token) ∧
    ∀ (value : String) (token : ConsistencyToken),
      ConsistencyToken.fromStr value = .ok token →
        ∃ revision schemaHash datastoreId,
          token.IsText value revision schemaHash datastoreId ∧
            (1 ≤ token.revision.get ∧ token.revision.get ≤ 2 ^ 64 - 1) ∧
            schemaHash.length = 64 ∧ datastoreId.length = 32 := by
  constructor
  · intro token
    exact ⟨token.utf8ByteSize_display_le, ConsistencyToken.fromStr_ok_iff.mpr
      ⟨token.utf8ByteSize_display_le, _, _, _, token.isText_display⟩⟩
  · intro value token h
    obtain ⟨-, revision, schemaHash, datastoreId, htext⟩ :=
      ConsistencyToken.fromStr_ok_iff.mp h
    have hhash := htext.schemaHash.length
    have hid := htext.datastoreId.length
    rw [Vector.length_toList] at hhash hid
    exact ⟨revision, schemaHash, datastoreId, htext,
      ⟨token.revision.pos, Nat.le_sub_one_of_lt token.revision.lt⟩, hhash, hid⟩

end SimpleZanzibar
