import Mathlib.Data.List.Sort
import Mathlib.Data.String.Basic
import SimpleZanzibar.Domain

/-!
# The typed schema

Namespace and relation definitions with their userset rewrites, the resolver, and
the compiler that replaces relation names of the same namespace by positions.  The
index maps of the resolver are determined by the definitions, whose names are
distinct, and are modelled as searches.
-/

namespace SimpleZanzibar

/-- A stable sort by name. -/
def sortByName {α : Type} (name : α → String) (items : List α) : List α :=
  items.insertionSort (fun left right => name left ≤ name right)

/-- A userset rewrite as it is written in the schema. -/
inductive UsersetExpression where
  | this
  | computedUserset (relation : RelationName)
  | tupleToUserset (tuplesetRelation computedUsersetRelation : RelationName)
  | union (expressions : List UsersetExpression)
  | intersection (expressions : List UsersetExpression)
  | exclusion (base exclude : UsersetExpression)

/-- Position of a relation inside one compiled schema. -/
structure SchemaRelationId where
  namespaceIndex : Nat
  relationIndex : Nat
deriving DecidableEq

/-- A rewrite whose same-namespace references are resolved. -/
inductive CompiledUsersetExpression where
  | this
  | computedUserset (relation : RelationName) (relationId : SchemaRelationId)
      (targetHasRewrite : Bool)
  | tupleToUserset (tuplesetRelation : RelationName) (tuplesetRelationId : SchemaRelationId)
      (computedUsersetRelation : RelationName)
  | union (expressions : List CompiledUsersetExpression)
  | intersection (expressions : List CompiledUsersetExpression)
  | exclusion (base exclude : CompiledUsersetExpression)

namespace UsersetExpression

mutual

/-- Equality of rewrites, as a computation. -/
def beq : UsersetExpression → UsersetExpression → Bool
  | .this, .this => true
  | .computedUserset a, .computedUserset b => decide (a = b)
  | .tupleToUserset a b, .tupleToUserset c d => decide (a = c) && decide (b = d)
  | .union as, .union bs => beqs as bs
  | .intersection as, .intersection bs => beqs as bs
  | .exclusion a b, .exclusion c d => beq a c && beq b d
  | _, _ => false

def beqs : List UsersetExpression → List UsersetExpression → Bool
  | [], [] => true
  | a :: as, b :: bs => beq a b && beqs as bs
  | _, _ => false

end

mutual

theorem beq_iff : ∀ a b : UsersetExpression, beq a b = true ↔ a = b
  | .this, b => by cases b <;> simp [beq]
  | .computedUserset a, b => by cases b <;> simp [beq]
  | .tupleToUserset a c, b => by cases b <;> simp [beq]
  | .union as, b => by cases b <;> simp [beq, beqs_iff as]
  | .intersection as, b => by cases b <;> simp [beq, beqs_iff as]
  | .exclusion a c, b => by cases b <;> simp [beq, beq_iff a, beq_iff c]

theorem beqs_iff : ∀ as bs : List UsersetExpression, beqs as bs = true ↔ as = bs
  | [], bs => by cases bs <;> simp [beqs]
  | a :: as, bs => by cases bs <;> simp [beqs, beq_iff a, beqs_iff as]

end

instance : DecidableEq UsersetExpression :=
  fun a b => decidable_of_iff (beq a b = true) (beq_iff a b)

end UsersetExpression

namespace CompiledUsersetExpression

mutual

/-- Equality of compiled rewrites, as a computation. -/
def beq : CompiledUsersetExpression → CompiledUsersetExpression → Bool
  | .this, .this => true
  | .computedUserset a b c, .computedUserset d e f =>
      decide (a = d) && decide (b = e) && decide (c = f)
  | .tupleToUserset a b c, .tupleToUserset d e f =>
      decide (a = d) && decide (b = e) && decide (c = f)
  | .union as, .union bs => beqs as bs
  | .intersection as, .intersection bs => beqs as bs
  | .exclusion a b, .exclusion c d => beq a c && beq b d
  | _, _ => false

def beqs : List CompiledUsersetExpression → List CompiledUsersetExpression → Bool
  | [], [] => true
  | a :: as, b :: bs => beq a b && beqs as bs
  | _, _ => false

end

mutual

theorem beq_iff : ∀ a b : CompiledUsersetExpression, beq a b = true ↔ a = b
  | .this, b => by cases b <;> simp [beq]
  | .computedUserset a c d, b => by cases b <;> simp [beq, and_assoc]
  | .tupleToUserset a c d, b => by cases b <;> simp [beq, and_assoc]
  | .union as, b => by cases b <;> simp [beq, beqs_iff as]
  | .intersection as, b => by cases b <;> simp [beq, beqs_iff as]
  | .exclusion a c, b => by cases b <;> simp [beq, beq_iff a, beq_iff c]

theorem beqs_iff : ∀ as bs : List CompiledUsersetExpression, beqs as bs = true ↔ as = bs
  | [], bs => by cases bs <;> simp [beqs]
  | a :: as, bs => by cases bs <;> simp [beqs, beq_iff a, beqs_iff as]

end

instance : DecidableEq CompiledUsersetExpression :=
  fun a b => decidable_of_iff (beq a b = true) (beq_iff a b)

end CompiledUsersetExpression

inductive AllowedSubjectTypes where
  | unspecified
  | explicit (objectTypes : List ObjectType)
deriving DecidableEq

structure RelationDefinition where
  name : RelationName
  allowedSubjectTypes : AllowedSubjectTypes
  usersetRewrite : Option UsersetExpression
  compiledUsersetRewrite : Option CompiledUsersetExpression
deriving DecidableEq

structure NamespaceDefinition where
  name : ObjectType
  relations : List RelationDefinition
deriving DecidableEq

inductive SchemaError where
  | duplicateNamespace (namespaceName : String)
  | duplicateRelation (namespaceName relation : String)
  | namespaceNotFound (namespaceName : String)
  | relationNotFound (namespaceName relation : String)
  | missingRelationReference (namespaceName owner relation missing : String)
  | missingTupleToUsersetTarget (namespaceName owner missing : String)
  | emptyExpression (namespaceName owner operator : String) (minOperands : Nat)
deriving DecidableEq, Repr

def RelationDefinition.new (name : RelationName) (usersetRewrite : Option UsersetExpression) :
    RelationDefinition :=
  ⟨name, .unspecified, usersetRewrite, none⟩

def RelationDefinition.withAllowedSubjectTypes (name : RelationName)
    (allowedSubjectTypes : List ObjectType) (usersetRewrite : Option UsersetExpression) :
    RelationDefinition :=
  ⟨name, .explicit allowedSubjectTypes, usersetRewrite, none⟩

structure SchemaResolver where
  definitions : List NamespaceDefinition
deriving DecidableEq

namespace SchemaResolver

/-- The relations of a namespace have distinct names. -/
def checkRelations (namespaceName : ObjectType) (seen : List RelationName) :
    List RelationDefinition → Except SchemaError Unit
  | [] => .ok ()
  | relation :: rest =>
      if relation.name ∈ seen then
        .error (.duplicateRelation namespaceName.value relation.name.value)
      else checkRelations namespaceName (relation.name :: seen) rest

/-- The namespaces have distinct names, and so have the relations of each. -/
def checkNamespaces (seen : List ObjectType) :
    List NamespaceDefinition → Except SchemaError Unit
  | [] => .ok ()
  | definition :: rest =>
      if definition.name ∈ seen then
        .error (.duplicateNamespace definition.name.value)
      else do
        checkRelations definition.name [] definition.relations
        checkNamespaces (definition.name :: seen) rest

def new (definitions : List NamespaceDefinition) : Except SchemaError SchemaResolver := do
  checkNamespaces [] definitions
  return ⟨definitions⟩

def namespaceIndex (resolver : SchemaResolver) (objectType : ObjectType) : Option Nat :=
  resolver.definitions.findIdx? (fun definition => decide (definition.name = objectType))

def relationIndex (definition : NamespaceDefinition) (relation : RelationName) : Option Nat :=
  definition.relations.findIdx? (fun candidate => decide (candidate.name = relation))

def findNamespace (resolver : SchemaResolver) (objectType : ObjectType) :
    Except SchemaError NamespaceDefinition :=
  match (resolver.namespaceIndex objectType).bind (resolver.definitions[·]?) with
  | some definition => .ok definition
  | none => .error (.namespaceNotFound objectType.value)

def relation (resolver : SchemaResolver) (objectType : ObjectType) (relation : RelationName) :
    Except SchemaError RelationDefinition := do
  let definition ← resolver.findNamespace objectType
  match (relationIndex definition relation).bind (definition.relations[·]?) with
  | some found => .ok found
  | none => .error (.relationNotFound objectType.value relation.value)

def relationId (resolver : SchemaResolver) (objectType : ObjectType) (relation : RelationName) :
    Except SchemaError SchemaRelationId :=
  match resolver.namespaceIndex objectType with
  | none => .error (.namespaceNotFound objectType.value)
  | some namespaceIndex =>
      match (resolver.definitions[namespaceIndex]?).bind (relationIndex · relation) with
      | some relationIndex => .ok ⟨namespaceIndex, relationIndex⟩
      | none => .error (.relationNotFound objectType.value relation.value)

def relationById (resolver : SchemaResolver) (id : SchemaRelationId) : Option RelationDefinition :=
  (resolver.definitions[id.namespaceIndex]?).bind (·.relations[id.relationIndex]?)

def relationExistsAnywhere (resolver : SchemaResolver) (relation : RelationName) : Bool :=
  resolver.definitions.any (fun definition => (relationIndex definition relation).isSome)

mutual

/-- Resolves the same-namespace references of a rewrite. -/
def compileResolvedExpression (resolver : SchemaResolver) (objectType : ObjectType) :
    UsersetExpression → Except SchemaError CompiledUsersetExpression
  | .this => .ok .this
  | .computedUserset relation => do
      let target ← resolver.relation objectType relation
      let relationId ← resolver.relationId objectType relation
      return .computedUserset relation relationId target.usersetRewrite.isSome
  | .tupleToUserset tuplesetRelation computedUsersetRelation => do
      let tuplesetRelationId ← resolver.relationId objectType tuplesetRelation
      return .tupleToUserset tuplesetRelation tuplesetRelationId computedUsersetRelation
  | .union expressions => do
      let compiled ← compileResolvedExpressions resolver objectType expressions
      return .union compiled
  | .intersection expressions => do
      let compiled ← compileResolvedExpressions resolver objectType expressions
      return .intersection compiled
  | .exclusion base exclude => do
      let base ← compileResolvedExpression resolver objectType base
      let exclude ← compileResolvedExpression resolver objectType exclude
      return .exclusion base exclude

def compileResolvedExpressions (resolver : SchemaResolver) (objectType : ObjectType) :
    List UsersetExpression → Except SchemaError (List CompiledUsersetExpression)
  | [] => .ok []
  | expression :: rest => do
      let compiled ← compileResolvedExpression resolver objectType expression
      let compiledRest ← compileResolvedExpressions resolver objectType rest
      return compiled :: compiledRest

end

def ensureRelationInNamespace (resolver : SchemaResolver) (objectType : ObjectType)
    (owner : RelationName) (relationKind : String) (relation : RelationName) :
    Except SchemaError RelationDefinition :=
  match resolver.relation objectType relation with
  | .ok found => .ok found
  | .error (.relationNotFound _ _) =>
      .error (.missingRelationReference objectType.value owner.value relationKind relation.value)
  | .error error => .error error

/-- The computed relation exists on every declared subject type, or anywhere when none is
declared. -/
def validateTupleToUsersetTarget (resolver : SchemaResolver) (objectType : ObjectType)
    (owner : RelationName) (tuplesetRelation : RelationDefinition)
    (computedUsersetRelation : RelationName) : Except SchemaError Unit :=
  let found :=
    match tuplesetRelation.allowedSubjectTypes with
    | .explicit objectTypes =>
        objectTypes.all (fun target =>
          (resolver.relation target computedUsersetRelation).toBool)
    | .unspecified => resolver.relationExistsAnywhere computedUsersetRelation
  if found then .ok ()
  else .error (.missingTupleToUsersetTarget objectType.value owner.value
    computedUsersetRelation.value)

def validateOperands (objectType : ObjectType) (owner : RelationName) (operator : String)
    (minOperands : Nat) (expressions : List UsersetExpression) : Except SchemaError Unit :=
  if expressions.length < minOperands then
    .error (.emptyExpression objectType.value owner.value operator minOperands)
  else .ok ()

mutual

def validateExpression (resolver : SchemaResolver) (objectType : ObjectType)
    (owner : RelationName) : UsersetExpression → Except SchemaError Unit
  | .this => .ok ()
  | .computedUserset relation => do
      let _ ← resolver.ensureRelationInNamespace objectType owner "computed userset" relation
  | .tupleToUserset tuplesetRelation computedUsersetRelation => do
      let tupleset ← resolver.ensureRelationInNamespace objectType owner
        "tuple-to-userset tupleset" tuplesetRelation
      resolver.validateTupleToUsersetTarget objectType owner tupleset computedUsersetRelation
  | .union expressions => do
      validateOperands objectType owner "union" 1 expressions
      validateExpressions resolver objectType owner expressions
  | .intersection expressions => do
      validateOperands objectType owner "intersection" 1 expressions
      validateExpressions resolver objectType owner expressions
  | .exclusion base exclude => do
      validateExpression resolver objectType owner base
      validateExpression resolver objectType owner exclude

def validateExpressions (resolver : SchemaResolver) (objectType : ObjectType)
    (owner : RelationName) : List UsersetExpression → Except SchemaError Unit
  | [] => .ok ()
  | expression :: rest => do
      validateExpression resolver objectType owner expression
      validateExpressions resolver objectType owner rest

end

/-- Validates the rewrites of the relations of one namespace. -/
def validateRelations (resolver : SchemaResolver) (objectType : ObjectType) :
    List RelationDefinition → Except SchemaError Unit
  | [] => .ok ()
  | relation :: rest => do
      match relation.usersetRewrite with
      | some expression => validateExpression resolver objectType relation.name expression
      | none => .ok ()
      validateRelations resolver objectType rest

def validateReferences (resolver : SchemaResolver) :
    List NamespaceDefinition → Except SchemaError Unit
  | [] => .ok ()
  | definition :: rest => do
      checkRelations definition.name [] definition.relations
      validateRelations resolver definition.name definition.relations
      validateReferences resolver rest

def compileRewrite (resolver : SchemaResolver) (objectType : ObjectType) :
    Option UsersetExpression → Except SchemaError (Option CompiledUsersetExpression)
  | none => .ok none
  | some expression => do
      let compiled ← compileResolvedExpression resolver objectType expression
      return some compiled

def compileResolvedRelations (resolver : SchemaResolver) (objectType : ObjectType) :
    List RelationDefinition → Except SchemaError (List RelationDefinition)
  | [] => .ok []
  | relation :: rest => do
      let compiled ← compileRewrite resolver objectType relation.usersetRewrite
      let compiledRest ← compileResolvedRelations resolver objectType rest
      return { relation with compiledUsersetRewrite := compiled } :: compiledRest

def compileResolvedDefinitions (resolver : SchemaResolver) :
    List NamespaceDefinition → Except SchemaError (List NamespaceDefinition)
  | [] => .ok []
  | definition :: rest => do
      let relations ← compileResolvedRelations resolver definition.name definition.relations
      let compiledRest ← compileResolvedDefinitions resolver rest
      return ⟨definition.name, relations⟩ :: compiledRest

end SchemaResolver

structure CompiledSchema where
  definitions : List NamespaceDefinition
  resolver : SchemaResolver
deriving DecidableEq

namespace CompiledSchema

def new (definitions : List NamespaceDefinition) : Except SchemaError CompiledSchema := do
  let resolver ← SchemaResolver.new definitions
  return ⟨definitions, resolver⟩

/-- Validates the definitions and compiles their rewrites. -/
def fromDefinitions (definitions : List NamespaceDefinition) :
    Except SchemaError CompiledSchema := do
  let compiled ← new definitions
  compiled.resolver.validateReferences compiled.definitions
  let resolved ← compiled.resolver.compileResolvedDefinitions compiled.definitions
  new resolved

/-- The relationship stands on a known relation, and so does its userset subject. -/
def validateRelationship (schema : CompiledSchema) (relationship : Relationship) :
    Except SchemaError Unit := do
  let _ ← schema.resolver.relation relationship.resource.objectType relationship.relation
  match relationship.subject with
  | .object _ => return ()
  | .userset object relation => do
      let _ ← schema.resolver.relation object.objectType relation
      return ()

end CompiledSchema

end SimpleZanzibar
