import SimpleZanzibar.Writer

/-!
# Relationships as text

The parser of one relationship, and of the relationship files of a policy text: one
relationship a line, with blank lines and full-line comments left out.
-/

namespace SimpleZanzibar

def maxRelationshipBytes : Nat := 768

/-- The parts before and after the first delimiter. -/
def splitAtFirst (delimiter : Char) (value : String) : Option (String × String) :=
  if delimiter ∈ value.toList then
    some (String.ofList (value.toList.takeWhile (· != delimiter)),
      String.ofList ((value.toList.dropWhile (· != delimiter)).drop 1))
  else none

/-- Both parts have to be there. -/
def splitOnce (value : String) (delimiter : Char) (missingReason : String) :
    Except DomainError (String × String) :=
  match splitAtFirst delimiter value with
  | none => .error (.malformedRelationship missingReason)
  | some (left, right) =>
      if left.isEmpty || right.isEmpty then .error (.malformedRelationship missingReason)
      else .ok (left, right)

def ObjectRef.fromStr (value : String) : Except DomainError ObjectRef := do
  let (objectType, objectId) ← splitOnce value ':' "object reference must contain ':'"
  let objectType ← Identifier.new .objectType objectType
  let objectId ← Identifier.new .objectId objectId
  return ⟨objectType, objectId⟩

def parseSubjectObject (value : String) : Except DomainError ObjectRef := do
  let (subjectType, subjectId) ← splitOnce value ':' "subject reference must contain ':'"
  let subjectType ← Identifier.new .subjectType subjectType
  let objectType ← Identifier.new .objectType subjectType.value
  let subjectId ← Identifier.new .subjectId subjectId
  let objectId ← Identifier.new .objectId subjectId.value
  return ⟨objectType, objectId⟩

def SubjectRef.fromStr (value : String) : Except DomainError SubjectRef :=
  match splitAtFirst '#' value with
  | some (target, relation) => do
      let target ← ObjectRef.fromStr target
      let relation ← Identifier.new .relationName relation
      return .userset target relation
  | none => do
      let target ← parseSubjectObject value
      return .object target

def Relationship.fromStr (value : String) : Except DomainError Relationship :=
  if maxRelationshipBytes < (stringBytes value).length then
    .error (.identifierTooLong .objectId maxRelationshipBytes)
  else do
    let (resource, subject) ← splitOnce value '@' "relationship must contain one '@' separator"
    if '@' ∈ subject.toList then
      .error (.malformedRelationship "relationship must contain one '@' separator")
    let (target, relation) ← splitOnce resource '#' "relationship resource must contain '#'"
    if '#' ∈ relation.toList then
      .error (.malformedRelationship "relationship resource must contain one '#'")
    let resource ← ObjectRef.fromStr target
    let relation ← Identifier.new .relationName relation
    let subject ← SubjectRef.fromStr subject
    return ⟨resource, relation, subject⟩

structure PolicyTextFile where
  path : String
  contents : String

structure PolicyText where
  schema : String
  relationshipFiles : List PolicyTextFile

/-- The characters that a trimmed line does not start or end with. -/
def isUnicodeWhitespace (c : Char) : Bool :=
  (9 ≤ c.toNat && c.toNat ≤ 13) || c.toNat == 32 || c.toNat == 133 || c.toNat == 160 ||
    c.toNat == 5760 || (8192 ≤ c.toNat && c.toNat ≤ 8202) || c.toNat == 8232 ||
    c.toNat == 8233 || c.toNat == 8239 || c.toNat == 8287 || c.toNat == 12288

def trimChars (line : List Char) : List Char :=
  ((line.dropWhile isUnicodeWhitespace).reverse.dropWhile isUnicodeWhitespace).reverse

/-- The lines of a text; white space at their ends is trimmed later. -/
def textLines (contents : String) : List (List Char) :=
  contents.toList.splitOn '\n'

def isCommentLine : List Char → Bool
  | '#' :: _ => true
  | '/' :: '/' :: _ => true
  | _ => false

/-- The relationships of one file. -/
def parseRelationshipFile (file : PolicyTextFile) :
    Except ZanzibarError (List Relationship) :=
  (((textLines file.contents).map trimChars).filter (fun line =>
    !(line.isEmpty || isCommentLine line))).mapM
    (fun line => ofDomainError (Relationship.fromStr (String.ofList line)))

def parseRelationships (policy : PolicyText) : Except ZanzibarError (List Relationship) := do
  let files ← policy.relationshipFiles.mapM parseRelationshipFile
  return files.flatten

end SimpleZanzibar
