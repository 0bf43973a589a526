import SimpleZanzibar.Eval.LookupSubjects

/-!
# Relations between two walks

The bodies of a walk are put together from steps of the context, steps of the collector and the
walks of nested keys.  A relation between steps that holds of the elementary ones and that
sequencing preserves relates the bodies over two related walks of nested keys; a property that
sequencing keeps holds of the bodies over a walk of nested keys with the property.

**Results.**
* `Streaming.Congruence.streamExpression`, `Streaming.Congruence.streamRelationEntered`: the
  bodies over two walks of nested keys.
* `Streaming.Closed.streamRelationEntered`: the bodies over one.
-/

namespace SimpleZanzibar

namespace Streaming

/-- A relation between steps of a walk that holds of the elementary ones and that sequencing
preserves. -/
structure Congruence [StoreHasher] (Rel : ∀ α : Type, Streaming α → Streaming α → Prop) :
    Prop where
  lift : ∀ {α : Type} (r : Except ZanzibarError α), Rel α (Action.lift r) (Action.lift r)
  bind : ∀ {α β : Type} {x x' : Streaming α} {f f' : α → Streaming β}, Rel α x x' →
    (∀ a, Rel β (f a) (f' a)) → Rel β (x >>= f) (x' >>= f')
  get_bind : ∀ {α : Type} {f f' : SubjectStream → Streaming α},
    (∀ stream, Rel α (f stream) (f' stream)) → Rel α (Action.get >>= f) (Action.get >>= f')
  evaluate : ∀ {α : Type} (r : Except ZanzibarError α),
    Rel α (ofEvaluation (Action.lift r)) (ofEvaluation (Action.lift r))
  incrementFanout : ∀ current, Rel Nat (ofEvaluation (Evaluation.incrementFanout current))
    (ofEvaluation (Evaluation.incrementFanout current))
  relationById : ∀ id, Rel RelationDefinition (ofEvaluation (Evaluation.relationById id))
    (ofEvaluation (Evaluation.relationById id))
  collectUser : ∀ id verify,
    Rel Unit (ofCollecting (LookupSubjectCollector.collectUserCandidate id verify))
      (ofCollecting (LookupSubjectCollector.collectUserCandidate id verify))
  collectUserset : ∀ object relation verify,
    Rel Bool (ofCollecting (LookupSubjectCollector.collectUsersetCandidate object relation verify))
      (ofCollecting (LookupSubjectCollector.collectUsersetCandidate object relation verify))

namespace Congruence

variable [StoreHasher] {Rel : ∀ α : Type, Streaming α → Streaming α → Prop} (h : Congruence Rel)
include h

theorem pure
    {α : Type} (a : α) :
    Rel α (Pure.pure a) (Pure.pure a) :=
  h.lift (.ok a)

/-- Stopping where enough subjects are reported. -/
theorem unlessReached
    {x x' : Streaming Unit}
    (hx : Rel Unit x x') :
    Rel Unit (do
      let reached ← resultLimitReached
      if reached then return () else x)
      (do
        let reached ← resultLimitReached
        if reached then return () else x') := by
  have hreached : Rel Bool resultLimitReached resultLimitReached :=
    h.get_bind (fun stream => h.pure _)
  refine h.bind hreached (fun reached => ?_)
  split
  · exact h.pure ()
  · exact hx

section Bodies

variable {nested nested' : NestedStream}
  (hnested : ∀ object relation verify, Rel Unit (nested object relation verify)
    (nested' object relation verify))
include hnested

theorem streamRow
    (verifyCandidates : Bool) (ref : RelationshipRef) :
    Rel Unit (Streaming.streamRow nested verifyCandidates ref)
      (Streaming.streamRow nested' verifyCandidates ref) := by
  refine h.bind (h.lift _) (fun subject => ?_)
  cases subject with
  | some subject =>
      obtain ⟨object, relation⟩ := subject
      refine h.bind (h.collectUserset _ _ _) (fun walk => ?_)
      split
      · exact hnested _ _ _
      · exact h.pure ()
  | none =>
      dsimp only
      split
      · exact h.collectUser _ _
      · exact h.bind (h.lift _) (fun _ => h.pure ())

theorem streamRows
    (verifyCandidates : Bool) (fanout : Nat) (refs : List RelationshipRef) :
    Rel Unit (Streaming.streamRows nested verifyCandidates fanout refs)
      (Streaming.streamRows nested' verifyCandidates fanout refs) := by
  induction refs generalizing fanout with
  | nil => exact h.pure ()
  | cons ref rest ih =>
      refine h.unlessReached (h.bind (h.incrementFanout _) (fun next => ?_))
      exact h.bind (h.streamRow hnested _ _) (fun _ => ih next)

theorem streamThis
    (object : Object) (relationName : RelationName) (verifyCandidates : Bool) :
    Rel Unit (streamLookupSubjectsThis nested object relationName verifyCandidates)
      (streamLookupSubjectsThis nested' object relationName verifyCandidates) := by
  refine h.bind (h.evaluate _) (fun resource => ?_)
  exact h.get_bind (fun stream => h.streamRows hnested _ _ _)

theorem streamTupleset
    (computedUsersetRelation : RelationName) (fanout : Nat) (refs : List RelationshipRef) :
    Rel Unit (Streaming.streamTupleset nested computedUsersetRelation fanout refs)
      (Streaming.streamTupleset nested' computedUsersetRelation fanout refs) := by
  induction refs generalizing fanout with
  | nil => exact h.pure ()
  | cons ref rest ih =>
      refine h.unlessReached (h.bind (h.lift _) (fun subject => ?_))
      cases subject with
      | none => exact ih fanout
      | some subject =>
          refine h.bind (h.incrementFanout _) (fun next => ?_)
          exact h.bind (hnested _ _ _) (fun _ => ih next)

theorem streamTupleToUserset
    (object : Object) (tuplesetRelationId : SchemaRelationId)
    (computedUsersetRelation : RelationName) :
    Rel Unit
      (Streaming.streamTupleToUserset nested object tuplesetRelationId computedUsersetRelation)
      (Streaming.streamTupleToUserset nested' object tuplesetRelationId
        computedUsersetRelation) := by
  refine h.bind (h.evaluate _) (fun resource => ?_)
  refine h.bind (h.relationById _) (fun tupleset => ?_)
  exact h.get_bind (fun stream => h.streamTupleset hnested _ _ _)

omit hnested

mutual

theorem streamExpression
    (hnested : ∀ object relation verify, Rel Unit (nested object relation verify)
      (nested' object relation verify))
    (object : Object) (relationName : RelationName) :
    ∀ (expression : CompiledUsersetExpression) (verifyCandidates : Bool),
      Rel Unit
        (streamLookupSubjectsExpression nested object relationName verifyCandidates expression)
        (streamLookupSubjectsExpression nested' object relationName verifyCandidates expression)
  | .this, verify => by
      rw [streamLookupSubjectsExpression, streamLookupSubjectsExpression]
      exact h.unlessReached (h.streamThis hnested _ _ _)
  | .computedUserset relation _ _, verify => by
      rw [streamLookupSubjectsExpression, streamLookupSubjectsExpression]
      exact h.unlessReached (hnested _ _ _)
  | .tupleToUserset _ tuplesetRelationId computedUsersetRelation, verify => by
      rw [streamLookupSubjectsExpression, streamLookupSubjectsExpression]
      exact h.unlessReached (h.streamTupleToUserset hnested _ _ _)
  | .union expressions, verify => by
      rw [streamLookupSubjectsExpression, streamLookupSubjectsExpression]
      exact h.unlessReached (streamExpressions hnested object relationName expressions _)
  | .intersection expressions, verify => by
      rw [streamLookupSubjectsExpression, streamLookupSubjectsExpression]
      exact h.unlessReached (streamExpressions hnested object relationName expressions _)
  | .exclusion base _, verify => by
      rw [streamLookupSubjectsExpression, streamLookupSubjectsExpression]
      exact h.unlessReached (streamExpression hnested object relationName base _)

theorem streamExpressions
    (hnested : ∀ object relation verify, Rel Unit (nested object relation verify)
      (nested' object relation verify))
    (object : Object) (relationName : RelationName) :
    ∀ (expressions : List CompiledUsersetExpression) (verifyCandidates : Bool),
      Rel Unit
        (streamLookupSubjectsExpressions nested object relationName verifyCandidates expressions)
        (streamLookupSubjectsExpressions nested' object relationName verifyCandidates
          expressions)
  | [], _ => by
      rw [streamLookupSubjectsExpressions, streamLookupSubjectsExpressions]
      exact h.pure ()
  | expression :: rest, verify => by
      rw [streamLookupSubjectsExpressions, streamLookupSubjectsExpressions]
      exact h.bind (streamExpression hnested object relationName expression verify)
        (fun _ => h.unlessReached (streamExpressions hnested object relationName rest _))

end

include hnested

theorem streamRelationEntered
    (object : Object) (relationName : RelationName) (inheritedVerifyCandidates : Bool) :
    Rel Unit
      (streamLookupSubjectsRelationEntered nested object relationName inheritedVerifyCandidates)
      (streamLookupSubjectsRelationEntered nested' object relationName
        inheritedVerifyCandidates) := by
  refine h.bind (h.evaluate _) (fun objectType => ?_)
  apply h.get_bind
  intro stream
  refine h.bind (h.evaluate _) (fun definition => ?_)
  have hrequired : Rel Bool
      (if inheritedVerifyCandidates then return true
        else Action.lift
          (stream.context.snapshot.schema.relationDefinitionRequiresLookupSubjectVerification
            definition))
      (if inheritedVerifyCandidates then return true
        else Action.lift
          (stream.context.snapshot.schema.relationDefinitionRequiresLookupSubjectVerification
            definition)) := by
    split
    · exact h.pure true
    · exact h.lift _
  refine h.bind hrequired (fun required => ?_)
  split
  · exact h.streamExpression hnested _ _ _ _
  · exact h.streamThis hnested _ _ _

end Bodies

end Congruence

/-- A property of steps of a walk that holds of the elementary ones and that sequencing keeps. -/
structure Closed [StoreHasher] (P : ∀ α : Type, Streaming α → Prop) : Prop where
  lift : ∀ {α : Type} (r : Except ZanzibarError α), P α (Action.lift r)
  bind : ∀ {α β : Type} {x : Streaming α} {f : α → Streaming β}, P α x → (∀ a, P β (f a)) →
    P β (x >>= f)
  get_bind : ∀ {α : Type} {f : SubjectStream → Streaming α}, (∀ stream, P α (f stream)) →
    P α (Action.get >>= f)
  evaluate : ∀ {α : Type} (r : Except ZanzibarError α), P α (ofEvaluation (Action.lift r))
  incrementFanout : ∀ current, P Nat (ofEvaluation (Evaluation.incrementFanout current))
  relationById : ∀ id, P RelationDefinition (ofEvaluation (Evaluation.relationById id))
  collectUser : ∀ id verify,
    P Unit (ofCollecting (LookupSubjectCollector.collectUserCandidate id verify))
  collectUserset : ∀ object relation verify,
    P Bool (ofCollecting (LookupSubjectCollector.collectUsersetCandidate object relation verify))

namespace Closed

variable [StoreHasher] {P : ∀ α : Type, Streaming α → Prop} (h : Closed P)
include h

/-- A property relates a walk to itself. -/
theorem congruence :
    Congruence (fun α x x' => P α x ∧ x = x') where
  lift r := ⟨h.lift r, rfl⟩
  bind := by
    rintro α β x x' f f' ⟨hx, rfl⟩ hf
    exact ⟨h.bind hx (fun a => (hf a).1), congrArg _ (funext fun a => (hf a).2)⟩
  get_bind := by
    intro α f f' hf
    exact ⟨h.get_bind (fun stream => (hf stream).1), congrArg _ (funext fun s => (hf s).2)⟩
  evaluate r := ⟨h.evaluate r, rfl⟩
  incrementFanout current := ⟨h.incrementFanout current, rfl⟩
  relationById id := ⟨h.relationById id, rfl⟩
  collectUser id verify := ⟨h.collectUser id verify, rfl⟩
  collectUserset object relation verify := ⟨h.collectUserset object relation verify, rfl⟩

theorem unlessReached
    {x : Streaming Unit}
    (hx : P Unit x) :
    P Unit (do
      let reached ← resultLimitReached
      if reached then return () else x) :=
  (h.congruence.unlessReached ⟨hx, rfl⟩).1

variable {nested : NestedStream}
  (hnested : ∀ object relation verify, P Unit (nested object relation verify))
include hnested

theorem streamRow
    (verifyCandidates : Bool) (ref : RelationshipRef) :
    P Unit (Streaming.streamRow nested verifyCandidates ref) :=
  (h.congruence.streamRow (fun o r v => ⟨hnested o r v, rfl⟩) verifyCandidates ref).1

theorem streamRows
    (verifyCandidates : Bool) (fanout : Nat) (refs : List RelationshipRef) :
    P Unit (Streaming.streamRows nested verifyCandidates fanout refs) :=
  (h.congruence.streamRows (fun o r v => ⟨hnested o r v, rfl⟩) verifyCandidates fanout refs).1

theorem streamRelationEntered
    (object : Object) (relationName : RelationName) (inheritedVerifyCandidates : Bool) :
    P Unit (streamLookupSubjectsRelationEntered nested object relationName
      inheritedVerifyCandidates) :=
  (h.congruence.streamRelationEntered (fun o r v => ⟨hnested o r v, rfl⟩) object relationName
    inheritedVerifyCandidates).1

end Closed

end Streaming

end SimpleZanzibar
