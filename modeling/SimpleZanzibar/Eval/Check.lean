import SimpleZanzibar.Eval.Context

/-!
# The check evaluator

A depth-first search over the rewrites: a key that is already on the stack is denied,
unions and intersections stop early, cheap exclusions evaluate their second operand
first.  Nested checks recur through `checkNested`, whose fuel is bounded by the
remaining depth of the context.
-/

namespace SimpleZanzibar

namespace RelationshipRef

/-- The text of a symbol, or the placeholder of the source. -/
def text (ref : RelationshipRef) (id : SymbolId) : String :=
  match ref.store.interner.resolve id with
  | .ok value => value
  | .error _ => "<invalid>"

def resourceObjectLegacy (ref : RelationshipRef) : Object :=
  ⟨ref.text ref.row.identity.resourceType, ref.text ref.row.identity.resourceId⟩

def resourceTypeEq (ref : RelationshipRef) (expected : ObjectType) : Bool :=
  decide (ref.text ref.row.identity.resourceType = expected.value)

def relationNameStr (ref : RelationshipRef) : String :=
  ref.text ref.row.identity.relation

def relationNameEq (ref : RelationshipRef) (expected : RelationName) : Bool :=
  decide (ref.relationNameStr = expected.value)

def directUserSubjectId (ref : RelationshipRef) : Option String :=
  if ref.row.identity.subjectRelation.isNone &&
      decide (ref.text ref.row.identity.subjectType = "user") then
    some (ref.text ref.row.identity.subjectId)
  else none

/-- Object and relation of a userset subject. -/
def subjectUsersetRelationName (ref : RelationshipRef) :
    Except ZanzibarError (Option (Object × RelationName)) :=
  match ref.row.identity.subjectRelation with
  | none => .ok none
  | some relation =>
      match Identifier.new .relationName (ref.text relation) with
      | .ok relationName =>
          .ok (some (⟨ref.text ref.row.identity.subjectType, ref.text ref.row.identity.subjectId⟩,
            relationName))
      | .error error => .error (.domain error)

end RelationshipRef

/-- An evaluation step over the context. -/
abbrev Evaluation := Action EvaluationContext ZanzibarError

namespace Evaluation

/-- Domain errors of a conversion. -/
def ofDomain {α : Type} (x : Except DomainError α) : Evaluation α :=
  Action.lift (x.mapError .domain)

/-- Schema errors of a resolution. -/
def ofSchema {α : Type} (x : Except SchemaError α) : Evaluation α :=
  Action.lift (x.mapError .schema)

def enter (key : EvaluationKey) : Evaluation Unit := do
  let context ← Action.get
  if context.remainingDepth = 0 then
    Action.throw (.evaluation (.depthExceeded key))
  else
    Action.set ({ context with
      remainingDepth := context.remainingDepth - 1 }.recordCheckFrameDepth
        (context.remainingDepth - 1))

def incrementFanout (current : Nat) : Evaluation Nat := do
  let context ← Action.get
  let next := min (current + 1) u32Max
  if context.limits.maxFanoutPerStep.get < next then
    Action.throw (.evaluation (.fanoutExceeded context.limits.maxFanoutPerStep))
  else return next

/-- Opens the frame of a key, if it needs one, and puts the key on the stack. -/
def openKey (key : CheckKey) (memoEligible : Bool) : Evaluation Unit := do
  let context ← Action.get
  enter (.check key)
  Action.modify (fun entered =>
    (if memoEligible then entered.pushCheckFrame context.remainingDepth
    else entered).pushCheckKey key)

/-- Takes the key off the stack, closes its frame and records a cacheable answer. -/
def closeKey (key : CheckKey) (memoEligible : Bool) (result : Except ZanzibarError Membership)
    (context : EvaluationContext) : EvaluationContext :=
  if memoEligible then
    let (depthRequired, closed) := context.popCheckKey.popCheckFrameDepthRequired
    match result with
    | .ok membership =>
        if membership.isMemoCacheable then
          closed.leave.memoInsert key membership depthRequired
        else closed.leave
    | .error _ => closed.leave
  else context.popCheckKey.leave

/-- Evaluates the body of a key between opening and closing it. -/
def runKey (key : CheckKey) (memoEligible : Bool) (evaluate : Evaluation Membership) :
    Evaluation Membership := do
  openKey key memoEligible
  let result ← Action.attempt evaluate
  Action.modify (closeKey key memoEligible result)
  Action.lift result

def evaluateCheckKey (key : CheckKey) (evaluate : Evaluation Membership) :
    Evaluation Membership := do
  let context ← Action.get
  if context.isCheckActive key then return .denied
  else if context.checkMemo.isSome && !context.checkStack.isEmpty then do
    let found ← Action.lift (context.memoLookup key)
    match found with
    | some membership => return membership
    | none => runKey key true evaluate
  else runKey key false evaluate

/-- How the body of a nested key is found. -/
inductive NestedBody where
  | relationName
  | relationId (id : SchemaRelationId)
  | plain

/-- The evaluation of nested keys. -/
abbrev Nested := Object → RelationName → NestedBody → Evaluation Membership

section Bodies

variable [StoreHasher] (nested : Nested)

/-- Checks the userset subjects of the rows in turn, each on the relation that
`relationOf` gives for it. -/
def checkUsersets (relationOf : RelationName → RelationName) (fanout : Nat) :
    List RelationshipRef → Evaluation Membership
  | [] => return .denied
  | ref :: rest => do
      let subject ← Action.lift ref.subjectUsersetRelationName
      match subject with
      | none => checkUsersets relationOf fanout rest
      | some (object, relation) => do
          let fanout ← incrementFanout fanout
          let membership ← nested object (relationOf relation) .relationName
          if membership.isAllowed then return .allowed
          else checkUsersets relationOf fanout rest

def evalThis (object : Object) (relationName : RelationName) (user : User) :
    Evaluation Membership := do
  let resource ← ofDomain (ObjectRef.tryFrom object)
  let subject ← ofDomain (SubjectFilter.tryFrom user)
  let context ← Action.get
  if context.snapshot.relationships.anyResourceRelationSubject resource relationName subject then
    return .allowed
  else
    checkUsersets nested id 0
      (context.snapshot.relationships.resourceRelation resource relationName unboundedQueryLimit)

def evalTupleToUserset (object : Object) (tuplesetRelation computedUsersetRelation : RelationName) :
    Evaluation Membership := do
  let resource ← ofDomain (ObjectRef.tryFrom object)
  let context ← Action.get
  checkUsersets nested (fun _ => computedUsersetRelation) 0
    (context.snapshot.relationships.resourceRelation resource tuplesetRelation
      unboundedQueryLimit)

/-- The relation at a position of the schema. -/
def relationById (id : SchemaRelationId) : Evaluation RelationDefinition := do
  let context ← Action.get
  match context.snapshot.schema.resolver.relationById id with
  | some definition => return definition
  | none => Action.throw compiledSchemaInvariantError

def shouldEvalExcludeFirst : CompiledUsersetExpression → Bool
  | .this => true
  | .computedUserset _ _ targetHasRewrite => !targetHasRewrite
  | _ => false

mutual

def evalCompiledSchemaExpression (object : Object) (relationName : RelationName) (user : User) :
    CompiledUsersetExpression → Evaluation Membership
  | .this => evalThis nested object relationName user
  | .computedUserset relation relationId targetHasRewrite =>
      if targetHasRewrite then nested object relation (.relationId relationId)
      else nested object relation .plain
  | .tupleToUserset _ tuplesetRelationId computedUsersetRelation => do
      let tupleset ← relationById tuplesetRelationId
      evalTupleToUserset nested object tupleset.name computedUsersetRelation
  | .union expressions =>
      evalCompiledSchemaUnion object relationName user .denied expressions
  | .intersection expressions =>
      evalCompiledSchemaIntersection object relationName user .allowed expressions
  | .exclusion base exclude =>
      if shouldEvalExcludeFirst exclude then do
        let excludeResult ← evalCompiledSchemaExpression object relationName user exclude
        if excludeResult = .allowed then return .denied
        else do
          let baseResult ← evalCompiledSchemaExpression object relationName user base
          return baseResult.exclusion excludeResult
      else do
        let baseResult ← evalCompiledSchemaExpression object relationName user base
        if baseResult = .denied then return .denied
        else do
          let excludeResult ← evalCompiledSchemaExpression object relationName user exclude
          return baseResult.exclusion excludeResult

def evalCompiledSchemaUnion (object : Object) (relationName : RelationName) (user : User)
    (result : Membership) : List CompiledUsersetExpression → Evaluation Membership
  | [] => return result
  | expression :: rest => do
      let operand ← evalCompiledSchemaExpression object relationName user expression
      if result.union operand = .allowed then return result.union operand
      else evalCompiledSchemaUnion object relationName user (result.union operand) rest

def evalCompiledSchemaIntersection (object : Object) (relationName : RelationName) (user : User)
    (result : Membership) : List CompiledUsersetExpression → Evaluation Membership
  | [] => return result
  | expression :: rest => do
      let operand ← evalCompiledSchemaExpression object relationName user expression
      if result.intersection operand = .denied then return result.intersection operand
      else
        evalCompiledSchemaIntersection object relationName user (result.intersection operand) rest

end

/-- Evaluates the rewrite of a relation, or its rows where it has none. -/
def evalDefinition (object : Object) (relationName : RelationName) (user : User)
    (definition : RelationDefinition) : Evaluation Membership :=
  match definition.compiledUsersetRewrite with
  | some expression => evalCompiledSchemaExpression nested object relationName user expression
  | none => evalThis nested object relationName user

def checkRelationNameEntered (object : Object) (relationName : RelationName) (user : User) :
    Evaluation Membership := do
  let objectType ← ofDomain (Identifier.new .objectType object.namespaceName)
  let context ← Action.get
  let definition ← ofSchema (context.snapshot.schema.resolver.relation objectType relationName)
  evalDefinition nested object relationName user definition

def checkRelationIdEntered (object : Object) (relationName : RelationName)
    (relationId : SchemaRelationId) (user : User) : Evaluation Membership := do
  let definition ← relationById relationId
  evalDefinition nested object relationName user definition

def checkEntered (object : Object) (relation : Relation) (user : User) :
    Evaluation Membership := do
  let objectType ← ofDomain (Identifier.new .objectType object.namespaceName)
  let relationName ← ofDomain (RelationName.tryFrom relation)
  let context ← Action.get
  let definition ← ofSchema (context.snapshot.schema.resolver.relation objectType relationName)
  evalDefinition nested object relationName user definition

/-- The body of a nested key. -/
def nestedEntered (object : Object) (relationName : RelationName) (user : User) :
    NestedBody → Evaluation Membership
  | .relationName => checkRelationNameEntered nested object relationName user
  | .relationId id => checkRelationIdEntered nested object relationName id user
  | .plain => evalThis nested object relationName user

end Bodies

section Checks

variable [StoreHasher]

/-- Evaluates a nested key.  Every level takes one unit of the remaining depth, which
runs out before the fuel does. -/
def checkNested (user : User) : Nat → Nested
  | 0, object, relationName, _ => do
      let context ← Action.get
      let key := CheckKey.fromRelationName context.snapshot object relationName user
      evaluateCheckKey key (Action.throw (.evaluation (.depthExceeded (.check key))))
  | fuel + 1, object, relationName, body => do
      let context ← Action.get
      evaluateCheckKey (CheckKey.fromRelationName context.snapshot object relationName user)
        (nestedEntered (checkNested user fuel) object relationName user body)

def check (object : Object) (relation : Relation) (user : User) : Evaluation Membership := do
  let context ← Action.get
  evaluateCheckKey (CheckKey.new context.snapshot object relation user)
    (checkEntered (checkNested user context.remainingDepth) object relation user)

/-- A check whose relation was resolved by the caller. -/
def checkPrepared (object : Object) (relation : Relation) (user : User)
    (definition : RelationDefinition) : Evaluation Membership := do
  let context ← Action.get
  evaluateCheckKey (CheckKey.new context.snapshot object relation user)
    (evalDefinition (checkNested user context.remainingDepth) object definition.name user
      definition)

end Checks

end Evaluation

section Snapshots

variable [StoreHasher]

/-- A check on a fresh context without memo. -/
def checkWithSnapshot (snapshot : PublishedSnapshot) (object : Object) (relation : Relation)
    (user : User) (limits : EvaluationLimits) : Except ZanzibarError Membership :=
  (Evaluation.check object relation user (.new snapshot limits)).1

def checkPreparedWithSnapshot (snapshot : PublishedSnapshot) (object : Object)
    (relation : Relation) (user : User) (definition : RelationDefinition)
    (limits : EvaluationLimits) : Except ZanzibarError Membership :=
  (Evaluation.checkPrepared object relation user definition (.new snapshot limits)).1

end Snapshots

end SimpleZanzibar
