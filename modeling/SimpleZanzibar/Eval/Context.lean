import SimpleZanzibar.Schema
import SimpleZanzibar.Store.View

/-!
# The evaluation context

Keys, limits, the membership algebra, the request memo and the context that one
request threads through its evaluation: the remaining depth, the stack of active keys
with its index, the depth frames and the optional memo.
-/

namespace SimpleZanzibar

/-- An immutable schema and relationship view, as it was published. -/
structure PublishedSnapshot where
  schema : CompiledSchema
  relationships : RelationshipStoreView

/-- The identifiers of a check as interned symbols. -/
structure StoreCheckKey where
  objectType : SymbolId
  objectId : SymbolId
  relation : SymbolId
  subjectType : SymbolId
  subjectId : SymbolId
  subjectRelation : Option SymbolId
deriving DecidableEq

section StoreKeys

variable [StoreHasher]

/-- Subject type, subject id and subject relation of a user, when they are interned. -/
def IndexedRelationshipStore.storeSubjectKey (store : IndexedRelationshipStore) :
    User → Option (SymbolId × SymbolId × Option SymbolId)
  | .userId id => do
      let subjectType ← store.interner.lookup "user"
      let subjectId ← store.interner.lookup id
      return (subjectType, subjectId, none)
  | .userset object relation => do
      let subjectType ← store.interner.lookup object.namespaceName
      let subjectId ← store.interner.lookup object.id
      let subjectRelation ← store.interner.lookup relation.name
      return (subjectType, subjectId, some subjectRelation)

/-- The key of a check whose relation is given by its text. -/
def IndexedRelationshipStore.storeCheckKey (store : IndexedRelationshipStore) (object : Object)
    (relation : String) (user : User) : Option StoreCheckKey := do
  let relation ← store.interner.lookup relation
  let (subjectType, subjectId, subjectRelation) ← store.storeSubjectKey user
  let objectType ← store.interner.lookup object.namespaceName
  let objectId ← store.interner.lookup object.id
  return ⟨objectType, objectId, relation, subjectType, subjectId, subjectRelation⟩

/-- Symbols of the checkpoint are keys only where no overlay is present. -/
def RelationshipStoreView.storeCheckKey (view : RelationshipStoreView) (object : Object)
    (relation : String) (user : User) : Option StoreCheckKey :=
  if view.delta.isSome then none else view.checkpoint.storeCheckKey object relation user

end StoreKeys

/-- Key of the recursion tracking. -/
inductive CheckKey where
  | store (key : StoreCheckKey)
  | publicName (object : Object) (relation : RelationName) (user : User)
  | publicModel (object : Object) (relation : Relation) (user : User)
deriving DecidableEq

structure ExpandKey where
  object : Object
  relation : RelationName
deriving DecidableEq

inductive EvaluationKey where
  | check (key : CheckKey)
  | expand (key : ExpandKey)
deriving DecidableEq

inductive EvaluationError where
  | depthExceeded (key : EvaluationKey)
  | fanoutExceeded (limit : NonZeroU32)
deriving DecidableEq

inductive ZanzibarError where
  | namespaceNotFound (namespaceName : String)
  | relationNotFound (relation namespaceName : String)
  | parseError
  | storageError (message : String)
  | schemaRequired
  | revisionOverflow
  | domain (error : DomainError)
  | schema (error : SchemaError)
  | store (error : StoreError)
  | evaluation (error : EvaluationError)
deriving DecidableEq

/-- `"compiled schema relation id is out of bounds"`. -/
def compiledSchemaInvariantError : ZanzibarError :=
  .storageError "compiled schema relation id is out of bounds"

namespace CheckKey

variable [StoreHasher]

def new (snapshot : PublishedSnapshot) (object : Object) (relation : Relation) (user : User) :
    CheckKey :=
  match snapshot.relationships.storeCheckKey object relation.name user with
  | some key => .store key
  | none => .publicModel object relation user

def fromRelationName (snapshot : PublishedSnapshot) (object : Object) (relation : RelationName)
    (user : User) : CheckKey :=
  match snapshot.relationships.storeCheckKey object relation.value user with
  | some key => .store key
  | none => .publicName object relation user

end CheckKey

structure EvaluationLimits where
  maxDepth : NonZeroU32
  maxFanoutPerStep : NonZeroU32
  maxLookupResults : NonZeroU32

def EvaluationLimits.default : EvaluationLimits where
  maxDepth := ⟨50, by decide, by decide⟩
  maxFanoutPerStep := ⟨1000, thousand_pos, by decide⟩
  maxLookupResults := ⟨1000, thousand_pos, by decide⟩

inductive Membership where
  | allowed
  | denied
  | conditional
deriving DecidableEq, Repr

namespace Membership

def isAllowed (membership : Membership) : Bool :=
  decide (membership = .allowed)

def union : Membership → Membership → Membership
  | .allowed, _ => .allowed
  | _, .allowed => .allowed
  | .conditional, _ => .conditional
  | _, .conditional => .conditional
  | .denied, .denied => .denied

def intersection : Membership → Membership → Membership
  | .denied, _ => .denied
  | _, .denied => .denied
  | .conditional, _ => .conditional
  | _, .conditional => .conditional
  | .allowed, .allowed => .allowed

def exclusion : Membership → Membership → Membership
  | .denied, _ => .denied
  | _, .allowed => .denied
  | .conditional, _ => .conditional
  | _, .conditional => .conditional
  | .allowed, .denied => .allowed

def isMemoCacheable : Membership → Bool
  | .allowed => true
  | .denied => true
  | .conditional => false

end Membership

/-- Key of the request memo: the two public variants of a check key share an entry. -/
inductive CheckMemoKey where
  | store (key : StoreCheckKey)
  | publicName (object : Object) (relation : RelationName) (user : User)
deriving DecidableEq

def CheckMemoKey.fromCheckKey : CheckKey → Except ZanzibarError CheckMemoKey
  | .store key => .ok (.store key)
  | .publicName object relation user => .ok (.publicName object relation user)
  | .publicModel object relation user =>
      match RelationName.tryFrom relation with
      | .ok relation => .ok (.publicName object relation user)
      | .error error => .error (.domain error)

structure CheckMemoEntry where
  membership : Membership
  depthRequired : Nat

structure RequestCheckMemo where
  entries : AList (fun _ : CheckMemoKey => CheckMemoEntry)
  capacity : Nat

def memoCapacity (limits : EvaluationLimits) : Nat :=
  max 128 (min (min (limits.maxLookupResults.get * 4) u32Max) 16384)

namespace RequestCheckMemo

def new (limits : EvaluationLimits) : RequestCheckMemo :=
  ⟨∅, memoCapacity limits⟩

/-- The stored answer, unless its evaluation needs more depth than remains. -/
def get (memo : RequestCheckMemo) (key : CheckMemoKey) (remainingDepth : Nat) :
    Option Membership :=
  match memo.entries.lookup key with
  | some entry => if entry.depthRequired ≤ remainingDepth then some entry.membership else none
  | none => none

def insert (memo : RequestCheckMemo) (key : CheckMemoKey) (membership : Membership)
    (depthRequired : Nat) : RequestCheckMemo :=
  match memo.entries.lookup key with
  | some entry =>
      if depthRequired ≤ entry.depthRequired then
        { memo with entries := memo.entries.insert key ⟨membership, depthRequired⟩ }
      else memo
  | none =>
      if memo.capacity ≤ memo.entries.keys.length then memo
      else { memo with entries := memo.entries.insert key ⟨membership, depthRequired⟩ }

end RequestCheckMemo

structure CheckFrame where
  entryRemainingDepth : Nat
  minimumRemainingDepth : Nat

structure VisitMark where
  generation : Nat
  active : Bool

def activeIndexThreshold : Nat := 8

/-- The state of one request.  Stacks have their top at the head. -/
structure EvaluationContext where
  snapshot : PublishedSnapshot
  limits : EvaluationLimits
  generation : Nat
  useActiveIndexes : Bool
  remainingDepth : Nat
  activeChecks : AList (fun _ : CheckKey => VisitMark)
  activeExpands : AList (fun _ : ExpandKey => VisitMark)
  checkStack : List CheckKey
  expandStack : List ExpandKey
  checkFrames : List CheckFrame
  checkMemo : Option RequestCheckMemo

namespace EvaluationContext

def new (snapshot : PublishedSnapshot) (limits : EvaluationLimits) : EvaluationContext where
  snapshot := snapshot
  limits := limits
  generation := 1
  useActiveIndexes := false
  remainingDepth := limits.maxDepth.get
  activeChecks := ∅
  activeExpands := ∅
  checkStack := []
  expandStack := []
  checkFrames := []
  checkMemo := none

def newWithRequestMemo (snapshot : PublishedSnapshot) (limits : EvaluationLimits) :
    EvaluationContext :=
  { new snapshot limits with checkMemo := some (.new limits) }

/-- Prepares the context for the next check of the same request. -/
def resetForReuse (context : EvaluationContext) : EvaluationContext :=
  let cleared :=
    { context with
      remainingDepth := context.limits.maxDepth.get
      useActiveIndexes := true
      checkStack := []
      expandStack := []
      checkFrames := [] }
  if context.generation + 1 ≤ u32Max then
    { cleared with generation := context.generation + 1 }
  else
    { cleared with generation := 1, activeChecks := ∅, activeExpands := ∅ }

def isCheckActive (context : EvaluationContext) (key : CheckKey) : Bool :=
  if !context.useActiveIndexes || decide (context.checkStack.length < activeIndexThreshold) then
    decide (key ∈ context.checkStack)
  else
    (context.activeChecks.lookup key).any (fun mark =>
      decide (mark.generation = context.generation) && mark.active)

/-- Marks every key of the stack as active. -/
def rebuildActiveChecks (context : EvaluationContext) : EvaluationContext :=
  { context with
    activeChecks := context.checkStack.foldr
      (fun key active => active.insert key ⟨context.generation, true⟩) context.activeChecks }

def markActive (context : EvaluationContext) (key : CheckKey) : EvaluationContext :=
  { context with activeChecks := context.activeChecks.insert key ⟨context.generation, true⟩ }

def pushCheckKey (context : EvaluationContext) (key : CheckKey) : EvaluationContext :=
  let marked :=
    if context.useActiveIndexes &&
        decide (activeIndexThreshold ≤ context.checkStack.length + 1) then
      (if context.checkStack.length + 1 = activeIndexThreshold then
        context.rebuildActiveChecks
      else context).markActive key
    else context
  { marked with checkStack := key :: context.checkStack }

def deactivateCheckKey (context : EvaluationContext) (key : CheckKey) : EvaluationContext :=
  match context.activeChecks.lookup key with
  | some mark =>
      if mark.generation = context.generation then
        { context with activeChecks := context.activeChecks.insert key ⟨mark.generation, false⟩ }
      else context
  | none => context

def popCheckKey (context : EvaluationContext) : EvaluationContext :=
  match context.checkStack with
  | [] => context
  | key :: rest => { context with checkStack := rest }.deactivateCheckKey key

/-- Lowers the minimum of the innermost frame. -/
def recordCheckFrameDepth (context : EvaluationContext) (remainingDepth : Nat) :
    EvaluationContext :=
  match context.checkFrames with
  | [] => context
  | frame :: rest =>
      { context with
        checkFrames :=
          { frame with
            minimumRemainingDepth := min frame.minimumRemainingDepth remainingDepth } :: rest }

def pushCheckFrame (context : EvaluationContext) (entryRemainingDepth : Nat) :
    EvaluationContext :=
  { context with
    checkFrames := ⟨entryRemainingDepth, context.remainingDepth⟩ :: context.checkFrames }

/-- Closes the innermost frame: the depth that its evaluation used, at least one. -/
def popCheckFrameDepthRequired (context : EvaluationContext) : Nat × EvaluationContext :=
  match context.checkFrames with
  | [] => (1, context)
  | frame :: rest =>
      (max 1 (frame.entryRemainingDepth - frame.minimumRemainingDepth),
        { context with checkFrames := rest }.recordCheckFrameDepth frame.minimumRemainingDepth)

def leave (context : EvaluationContext) : EvaluationContext :=
  { context with remainingDepth := min (context.remainingDepth + 1) u32Max }

def memoLookup (context : EvaluationContext) (key : CheckKey) :
    Except ZanzibarError (Option Membership) :=
  match context.checkMemo with
  | none => .ok none
  | some memo => do
      let memoKey ← CheckMemoKey.fromCheckKey key
      return memo.get memoKey context.remainingDepth

def memoInsert (context : EvaluationContext) (key : CheckKey) (membership : Membership)
    (depthRequired : Nat) : EvaluationContext :=
  match context.checkMemo, CheckMemoKey.fromCheckKey key with
  | some memo, .ok memoKey =>
      { context with checkMemo := some (memo.insert memoKey membership depthRequired) }
  | _, _ => context

end EvaluationContext

end SimpleZanzibar
