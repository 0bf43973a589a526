import Mathlib.Algebra.GroupWithZero.Nat
import Mathlib.Data.List.Basic
import Mathlib.Data.Finset.Basic

/-!
# Validated domain primitives

Identifiers, object and subject references and relationships of the engine, with
their validators, and the raw request model (`Object`, `Relation`, `User`) that
is converted into them.

The five identifier types of the source come from one macro; here they are one
family `Identifier kind` whose values carry the proof that the validator of
their kind accepted them.
-/

namespace SimpleZanzibar

/-- A fallible computation succeeds iff both of its steps do. -/
theorem bind_eq_ok
    {ε α β : Type} {x : Except ε α} {f : α → Except ε β} {b : β} :
    x >>= f = .ok b ↔ ∃ a, x = .ok a ∧ f a = .ok b := by
  cases x with
  | error error =>
      constructor
      · intro h
        cases h
      · rintro ⟨a, ha, _⟩
        cases ha
  | ok a =>
      constructor
      · intro h
        exact ⟨a, rfl, h⟩
      · rintro ⟨a', ha, h⟩
        cases ha
        exact h

theorem mapError_eq_ok
    {ε ε' α : Type} {x : Except ε α} {f : ε → ε'} {a : α}
    (h : x.mapError f = .ok a) :
    x = .ok a := by
  cases x with
  | error e =>
      cases h
  | ok a' =>
      cases h
      rfl

/-- What a computation that succeeds returns, read off its value. -/
theorem exists_ok_of_map_toOption
    {ε α β : Type} {x : Except ε α} {f : α → β} {b : β}
    (h : (x.map f).toOption = some b) :
    ∃ a, x = .ok a ∧ f a = b := by
  cases x with
  | error error =>
      cases h
  | ok a =>
      exact ⟨a, rfl, Option.some.inj h⟩

theorem eq_ok_of_toOption
    {ε α : Type} {x : Except ε α} {a : α}
    (h : x.toOption = some a) :
    x = .ok a := by
  cases x with
  | error error =>
      cases h
  | ok a' =>
      cases h
      rfl

/-- Kind of a validated identifier. -/
inductive IdentifierKind where
  | objectType
  | objectId
  | relationName
  | subjectType
  | subjectId
deriving DecidableEq, Repr

/-- Errors of the identifier validators and of the relationship grammar. -/
inductive DomainError where
  | identifierTooLong (kind : IdentifierKind) (maxBytes : Nat)
  | emptyIdentifier (kind : IdentifierKind)
  | invalidIdentifierByte (kind : IdentifierKind) (offset : Nat)
  | malformedRelationship (reason : String)
deriving DecidableEq, Repr

def maxTypeBytes : Nat := 64
def maxRelationBytes : Nat := 64
def maxIdBytes : Nat := 256

/-- The UTF-8 bytes of a string. -/
def stringBytes (value : String) : List UInt8 :=
  value.toUTF8.data.toList

def isAsciiAlphabetic (byte : UInt8) : Bool :=
  (65 ≤ byte && byte ≤ 90) || (97 ≤ byte && byte ≤ 122)

def isAsciiAlphanumeric (byte : UInt8) : Bool :=
  isAsciiAlphabetic byte || (48 ≤ byte && byte ≤ 57)

def isAsciiGraphic (byte : UInt8) : Bool :=
  33 ≤ byte && byte ≤ 126

/-- Offset of the first byte that the predicate rejects. -/
def firstInvalidOffset (valid : Nat → UInt8 → Bool) : Nat → List UInt8 → Option Nat
  | _, [] => none
  | offset, byte :: rest =>
      if valid offset byte then firstInvalidOffset valid (offset + 1) rest
      else some offset

/-- The checks that both validators share; they differ in the accepted bytes. -/
def validateBytes
    (valid : Nat → UInt8 → Bool)
    (kind : IdentifierKind)
    (value : String)
    (maxBytes : Nat) :
    Except DomainError Unit :=
  if (stringBytes value).isEmpty then
    .error (.emptyIdentifier kind)
  else if maxBytes < (stringBytes value).length then
    .error (.identifierTooLong kind maxBytes)
  else
    match firstInvalidOffset valid 0 (stringBytes value) with
    | some offset => .error (.invalidIdentifierByte kind offset)
    | none => .ok ()

/-- Types and relations: a letter, then letters, digits and underscores. -/
def validateTypeIdentifier :
    IdentifierKind → String → Nat → Except DomainError Unit :=
  validateBytes (fun offset byte =>
    if offset = 0 then isAsciiAlphabetic byte
    else isAsciiAlphanumeric byte || byte == 95)

/-- Identifiers: visible bytes other than `#`, `@`, `:`, `/` and the backslash. -/
def validateIdIdentifier :
    IdentifierKind → String → Nat → Except DomainError Unit :=
  validateBytes (fun _ byte =>
    isAsciiGraphic byte &&
      !(byte == 35 || byte == 64 || byte == 58 || byte == 47 || byte == 92))

/-- The validator and byte limit of each identifier kind. -/
def IdentifierKind.validate : IdentifierKind → String → Except DomainError Unit
  | .objectType, value => validateTypeIdentifier .objectType value maxTypeBytes
  | .objectId, value => validateIdIdentifier .objectId value maxIdBytes
  | .relationName, value => validateTypeIdentifier .relationName value maxRelationBytes
  | .subjectType, value => validateTypeIdentifier .subjectType value maxTypeBytes
  | .subjectId, value => validateIdIdentifier .subjectId value maxIdBytes

/-- A string that the validator of its kind accepted. -/
structure Identifier (kind : IdentifierKind) where
  value : String
  valid : kind.validate value = .ok ()
deriving DecidableEq

instance {kind : IdentifierKind} : LawfulBEq (Identifier kind) :=
  inferInstance

abbrev ObjectType := Identifier .objectType
abbrev ObjectId := Identifier .objectId
abbrev RelationName := Identifier .relationName
abbrev SubjectType := Identifier .subjectType
abbrev SubjectId := Identifier .subjectId

namespace Identifier

variable {kind : IdentifierKind}

@[ext] theorem ext
    {a b : Identifier kind}
    (h : a.value = b.value) :
    a = b := by
  cases a
  cases b
  cases h
  rfl

/-- Validating constructor, also used for the conversions from strings. -/
def new (kind : IdentifierKind) (value : String) :
    Except DomainError (Identifier kind) :=
  match h : kind.validate value with
  | .ok () => .ok ⟨value, h⟩
  | .error error => .error error

theorem new_ok_iff
    {value : String} {a : Identifier kind} :
    new kind value = .ok a ↔ a.value = value := by
  unfold new
  split
  · next h =>
      rw [Except.ok.injEq]
      constructor
      · rintro rfl
        rfl
      · rintro rfl
        rfl
  · next error h =>
      constructor
      · intro hn
        cases hn
      · rintro rfl
        rw [a.valid] at h
        cases h

@[simp] theorem new_value
    (a : Identifier kind) :
    new kind a.value = .ok a :=
  new_ok_iff.mpr rfl

end Identifier

/-- The subject identifiers obey the rules of the object identifiers. -/
theorem validate_subjectType_iff
    (value : String) :
    IdentifierKind.subjectType.validate value = .ok () ↔
      IdentifierKind.objectType.validate value = .ok () := by
  simp only [IdentifierKind.validate, validateTypeIdentifier, validateBytes]
  split_ifs
  · simp
  · simp
  · split <;> simp

theorem validate_subjectId_iff
    (value : String) :
    IdentifierKind.subjectId.validate value = .ok () ↔
      IdentifierKind.objectId.validate value = .ok () := by
  simp only [IdentifierKind.validate, validateIdIdentifier, validateBytes]
  split_ifs
  · simp
  · simp
  · split <;> simp

/-- Object of a request: raw strings. -/
structure Object where
  namespaceName : String
  id : String
deriving DecidableEq, Repr

/-- Relation or permission name of a request. -/
structure Relation where
  name : String
deriving DecidableEq, Repr

/-- Subject of a request. -/
inductive User where
  | userId (id : String)
  | userset (object : Object) (relation : Relation)
deriving DecidableEq, Repr

/-- Validated object reference. -/
structure ObjectRef where
  objectType : ObjectType
  objectId : ObjectId
deriving DecidableEq

/-- Validated subject reference. -/
inductive SubjectRef where
  | object (object : ObjectRef)
  | userset (object : ObjectRef) (relation : RelationName)
deriving DecidableEq

/-- Validated relationship. -/
structure Relationship where
  resource : ObjectRef
  relation : RelationName
  subject : SubjectRef
deriving DecidableEq

/-- The validator accepts the string. -/
def IdentifierKind.accepts (kind : IdentifierKind) (value : String) : Bool :=
  decide (kind.validate value = .ok ())

/-- An object reference from literals. -/
def objectLit (objectType objectId : String)
    (htype : IdentifierKind.objectType.accepts objectType = true := by exact Eq.refl true)
    (hid : IdentifierKind.objectId.accepts objectId = true := by exact Eq.refl true) :
    ObjectRef :=
  ⟨⟨objectType, of_decide_eq_true htype⟩, ⟨objectId, of_decide_eq_true hid⟩⟩

/-- A relation name from a literal. -/
def relationLit (relation : String)
    (h : IdentifierKind.relationName.accepts relation = true := by exact Eq.refl true) :
    RelationName :=
  ⟨relation, of_decide_eq_true h⟩

def RelationName.tryFrom (relation : Relation) : Except DomainError RelationName :=
  Identifier.new .relationName relation.name

def ObjectRef.tryFrom (object : Object) : Except DomainError ObjectRef := do
  let objectType ← Identifier.new .objectType object.namespaceName
  let objectId ← Identifier.new .objectId object.id
  return ⟨objectType, objectId⟩

/-- The request object with the same type and identifier. -/
def ObjectRef.toObject (object : ObjectRef) : Object :=
  ⟨object.objectType.value, object.objectId.value⟩

def legacyUserSubjectType : String := "user"

def SubjectRef.tryFrom : User → Except DomainError SubjectRef
  | .userId id => do
      let objectType ← Identifier.new .objectType legacyUserSubjectType
      let objectId ← Identifier.new .objectId id
      return .object ⟨objectType, objectId⟩
  | .userset target relation => do
      let objectRef ← ObjectRef.tryFrom target
      let relationName ← Identifier.new .relationName relation.name
      return .userset objectRef relationName

theorem ObjectRef.tryFrom_ok_iff
    {object : Object} {ref : ObjectRef} :
    ObjectRef.tryFrom object = .ok ref ↔ ref.toObject = object := by
  unfold tryFrom
  constructor
  · intro h
    obtain ⟨objectType, ht, h⟩ := bind_eq_ok.mp h
    obtain ⟨objectId, hi, h⟩ := bind_eq_ok.mp h
    cases h
    simp only [toObject, Identifier.new_ok_iff.mp ht, Identifier.new_ok_iff.mp hi]
  · rintro rfl
    simp only [toObject, Identifier.new_value]
    rfl

@[simp] theorem ObjectRef.tryFrom_toObject
    (ref : ObjectRef) :
    ObjectRef.tryFrom ref.toObject = .ok ref :=
  ObjectRef.tryFrom_ok_iff.mpr rfl

theorem ObjectRef.toObject_injective
    {a b : ObjectRef}
    (h : a.toObject = b.toObject) :
    a = b := by
  have ha := ObjectRef.tryFrom_toObject a
  rw [h, ObjectRef.tryFrom_toObject] at ha
  exact (Except.ok.inj ha).symm

end SimpleZanzibar
