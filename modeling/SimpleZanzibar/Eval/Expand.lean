import SimpleZanzibar.Eval.Check

/-!
# Expansion of a userset

`expand` returns the tree of a relation of an object: the stored subjects are leaves,
computed and tuple-to-userset rewrites are followed, and a key that is already on the
stack of the expansion becomes an empty union.
-/

namespace SimpleZanzibar

/-- The tree that an expansion returns. -/
inductive ExpandedUserset where
  | user (id : String)
  | userset (object : Object) (relation : Relation)
  | union (parts : List ExpandedUserset)
  | intersection (parts : List ExpandedUserset)
  | exclusion (base exclude : ExpandedUserset)

/-- The subject of a row as a leaf. -/
def RelationshipRef.expandedSubject (ref : RelationshipRef) :
    Except ZanzibarError ExpandedUserset :=
  match ref.row.identity.subjectRelation with
  | some relation =>
      .ok (.userset
        ⟨ref.text ref.row.identity.subjectType, ref.text ref.row.identity.subjectId⟩
        ⟨ref.text relation⟩)
  | none =>
      if ref.text ref.row.identity.subjectType = "user" then
        .ok (.user (ref.text ref.row.identity.subjectId))
      else
        .error (.storageError ("legacy expand cannot represent direct subject type '" ++
          ref.text ref.row.identity.subjectType ++ "'"))

namespace EvaluationContext

def isExpandActive (context : EvaluationContext) (key : ExpandKey) : Bool :=
  if !context.useActiveIndexes || decide (context.expandStack.length < activeIndexThreshold) then
    decide (key ∈ context.expandStack)
  else
    (context.activeExpands.lookup key).any (fun mark =>
      decide (mark.generation = context.generation) && mark.active)

/-- Marks every key of the stack as active. -/
def rebuildActiveExpands (context : EvaluationContext) : EvaluationContext :=
  { context with
    activeExpands := context.expandStack.foldr
      (fun key active => active.insert key ⟨context.generation, true⟩) context.activeExpands }

def pushExpandKey (context : EvaluationContext) (key : ExpandKey) : EvaluationContext :=
  let rebuilt :=
    if context.expandStack.length + 1 = activeIndexThreshold then
      context.rebuildActiveExpands
    else context
  let marked :=
    if context.useActiveIndexes &&
        decide (activeIndexThreshold ≤ context.expandStack.length + 1) then
      { rebuilt with
        activeExpands := rebuilt.activeExpands.insert key ⟨context.generation, true⟩ }
    else context
  { marked with expandStack := key :: context.expandStack }

def deactivateExpandKey (context : EvaluationContext) (key : ExpandKey) : EvaluationContext :=
  match context.activeExpands.lookup key with
  | some mark =>
      if mark.generation = context.generation then
        { context with
          activeExpands := context.activeExpands.insert key ⟨mark.generation, false⟩ }
      else context
  | none => context

def popExpandKey (context : EvaluationContext) : EvaluationContext :=
  match context.expandStack with
  | [] => context
  | key :: rest => { context with expandStack := rest }.deactivateExpandKey key

/-- One row more than a step may fan out to. -/
def fanoutQueryLimit (context : EvaluationContext) : QueryLimit :=
  match NonZeroUsize.new (context.limits.maxFanoutPerStep.get + 1) with
  | some limit => limit
  | none => unboundedQueryLimit

end EvaluationContext

namespace Evaluation

/-- Opens the frame of an expanded key. -/
def openExpandKey (key : ExpandKey) : Evaluation Unit := do
  enter (.expand key)
  Action.modify (fun entered => entered.pushExpandKey key)

/-- Takes the expanded key off the stack. -/
def closeExpandKey : Evaluation Unit :=
  Action.modify (fun context => context.popExpandKey.leave)

/-- The expansion of nested keys. -/
abbrev NestedExpand := Object → RelationName → Evaluation ExpandedUserset

section Bodies

variable [StoreHasher] (nested : NestedExpand)

/-- The leaves of the rows, within the fanout limit. -/
def expandRows (fanout : Nat) : List RelationshipRef → Evaluation (List ExpandedUserset)
  | [] => return []
  | ref :: rest => do
      let fanout ← incrementFanout fanout
      let user ← Action.lift ref.expandedSubject
      let users ← expandRows fanout rest
      return user :: users

def expandThis (object : Object) (relationName : RelationName) : Evaluation ExpandedUserset := do
  let resource ← ofDomain (ObjectRef.tryFrom object)
  let context ← Action.get
  let users ← expandRows 0
    (context.snapshot.relationships.resourceRelation resource relationName
      context.fanoutQueryLimit)
  return .union users

/-- The expansions of the computed relation on the userset subjects of the rows. -/
def expandTupleset (computedUsersetRelation : RelationName) (fanout : Nat) :
    List RelationshipRef → Evaluation (List ExpandedUserset)
  | [] => return []
  | ref :: rest => do
      let subject ← Action.lift ref.subjectUsersetRelationName
      match subject with
      | none => expandTupleset computedUsersetRelation fanout rest
      | some (object, _) => do
          let fanout ← incrementFanout fanout
          let user ← nested object computedUsersetRelation
          let users ← expandTupleset computedUsersetRelation fanout rest
          return user :: users

def expandTupleToUserset (object : Object) (tuplesetRelationId : SchemaRelationId)
    (computedUsersetRelation : RelationName) : Evaluation ExpandedUserset := do
  let resource ← ofDomain (ObjectRef.tryFrom object)
  let tupleset ← relationById tuplesetRelationId
  let context ← Action.get
  let users ← expandTupleset nested computedUsersetRelation 0
    (context.snapshot.relationships.resourceRelation resource tupleset.name
      unboundedQueryLimit)
  return .union users

mutual

def expandCompiledSchemaExpression (object : Object) (relationName : RelationName) :
    CompiledUsersetExpression → Evaluation ExpandedUserset
  | .this => expandThis object relationName
  | .computedUserset relation _ _ => nested object relation
  | .tupleToUserset _ tuplesetRelationId computedUsersetRelation =>
      expandTupleToUserset nested object tuplesetRelationId computedUsersetRelation
  | .union expressions => do
      let users ← expandCompiledSchemaExpressions object relationName expressions
      return .union users
  | .intersection expressions => do
      let users ← expandCompiledSchemaExpressions object relationName expressions
      return .intersection users
  | .exclusion base exclude => do
      let base ← expandCompiledSchemaExpression object relationName base
      let exclude ← expandCompiledSchemaExpression object relationName exclude
      return .exclusion base exclude

/-- The trees of the operands, in order. -/
def expandCompiledSchemaExpressions (object : Object) (relationName : RelationName) :
    List CompiledUsersetExpression → Evaluation (List ExpandedUserset)
  | [] => return []
  | expression :: rest => do
      let user ← expandCompiledSchemaExpression object relationName expression
      let users ← expandCompiledSchemaExpressions object relationName rest
      return user :: users

end

def expandRelationNameEntered (object : Object) (relationName : RelationName) :
    Evaluation ExpandedUserset := do
  let objectType ← ofDomain (Identifier.new .objectType object.namespaceName)
  let context ← Action.get
  let definition ← ofSchema (context.snapshot.schema.resolver.relation objectType relationName)
  match definition.compiledUsersetRewrite with
  | some expression => expandCompiledSchemaExpression nested object relationName expression
  | none => expandThis object relationName

end Bodies

section Expansions

variable [StoreHasher]

/-- Expands a key between opening and closing it, or cuts it. -/
def evaluateExpandKey (key : ExpandKey) (evaluate : Evaluation ExpandedUserset) :
    Evaluation ExpandedUserset := do
  let context ← Action.get
  if context.isExpandActive key then return .union []
  else do
    openExpandKey key
    let result ← Action.attempt evaluate
    closeExpandKey
    Action.lift result

/-- Expands a relation of an object.  Every level takes one unit of the remaining depth,
which runs out before the fuel does. -/
def expandRelationName : Nat → NestedExpand
  | 0, object, relationName =>
      evaluateExpandKey ⟨object, relationName⟩
        (Action.throw (.evaluation (.depthExceeded (.expand ⟨object, relationName⟩))))
  | fuel + 1, object, relationName =>
      evaluateExpandKey ⟨object, relationName⟩
        (expandRelationNameEntered (expandRelationName fuel) object relationName)

def expand (object : Object) (relation : Relation) : Evaluation ExpandedUserset := do
  let relationName ← ofDomain (RelationName.tryFrom relation)
  let context ← Action.get
  expandRelationName context.remainingDepth object relationName

end Expansions

end Evaluation

/-- An expansion on a fresh context. -/
def expandWithSnapshot [StoreHasher] (snapshot : PublishedSnapshot) (object : Object)
    (relation : Relation) (limits : EvaluationLimits) : Except ZanzibarError ExpandedUserset :=
  (Evaluation.expand object relation (.new snapshot limits)).1

end SimpleZanzibar
