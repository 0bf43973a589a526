import SimpleZanzibar.Eval.Scan
import SimpleZanzibar.Eval.StreamTraversal

/-!
# What a lookup of subjects has seen

A walk only ever adds to what its collector has seen and reported, and it leaves the
snapshot and the limits alone.  A scan of stored rows that ends before enough subjects are
reported has offered every row to the collector.
-/

namespace SimpleZanzibar

/-- The second stream continues the first one. -/
structure SubjectStream.Grows (stream stream' : SubjectStream) : Prop where
  snapshot : stream'.context.snapshot = stream.context.snapshot
  contextLimits : stream'.context.limits = stream.context.limits
  subjectType : stream'.collector.subjectType = stream.collector.subjectType
  limits : stream'.collector.limits = stream.collector.limits
  seenSubjects : stream.collector.seenSubjects ⊆ stream'.collector.seenSubjects
  seenUsersets : stream.collector.seenUsersets ⊆ stream'.collector.seenUsersets
  subjects : stream.collector.subjects <+: stream'.collector.subjects

/-- The second collector continues the first one. -/
structure LookupSubjectCollector.Grows (collector collector' : LookupSubjectCollector) : Prop where
  subjectType : collector'.subjectType = collector.subjectType
  limits : collector'.limits = collector.limits
  seenSubjects : collector.seenSubjects ⊆ collector'.seenSubjects
  seenUsersets : collector.seenUsersets ⊆ collector'.seenUsersets
  subjects : collector.subjects <+: collector'.subjects

/-- The context still evaluates the same request. -/
structure EvaluationContext.SameRequest (context context' : EvaluationContext) : Prop where
  snapshot : context'.snapshot = context.snapshot
  limits : context'.limits = context.limits

namespace EvaluationContext.SameRequest

variable {context context' context'' : EvaluationContext}

theorem refl
    (context : EvaluationContext) :
    context.SameRequest context :=
  ⟨rfl, rfl⟩

theorem trans
    (h : context.SameRequest context')
    (h' : context'.SameRequest context'') :
    context.SameRequest context'' :=
  ⟨h'.snapshot.trans h.snapshot, h'.limits.trans h.limits⟩

instance : Std.Refl EvaluationContext.SameRequest := ⟨refl⟩

instance : Trans EvaluationContext.SameRequest EvaluationContext.SameRequest
    EvaluationContext.SameRequest := ⟨trans⟩

end EvaluationContext.SameRequest

namespace LookupSubjectCollector.Grows

variable {collector collector' collector'' : LookupSubjectCollector}

theorem refl
    (collector : LookupSubjectCollector) :
    collector.Grows collector :=
  ⟨rfl, rfl, subset_rfl, subset_rfl, List.prefix_rfl⟩

theorem trans
    (h : collector.Grows collector')
    (h' : collector'.Grows collector'') :
    collector.Grows collector'' :=
  ⟨h'.subjectType.trans h.subjectType, h'.limits.trans h.limits,
    h.seenSubjects.trans h'.seenSubjects, h.seenUsersets.trans h'.seenUsersets,
    h.subjects.trans h'.subjects⟩

instance : Std.Refl LookupSubjectCollector.Grows := ⟨refl⟩

instance : Trans LookupSubjectCollector.Grows LookupSubjectCollector.Grows
    LookupSubjectCollector.Grows := ⟨trans⟩

end LookupSubjectCollector.Grows

namespace SubjectStream.Grows

variable {stream stream' stream'' : SubjectStream}

theorem refl
    (stream : SubjectStream) :
    stream.Grows stream :=
  ⟨rfl, rfl, rfl, rfl, subset_rfl, subset_rfl, List.prefix_rfl⟩

theorem trans
    (h : stream.Grows stream')
    (h' : stream'.Grows stream'') :
    stream.Grows stream'' :=
  ⟨h'.snapshot.trans h.snapshot, h'.contextLimits.trans h.contextLimits,
    h'.subjectType.trans h.subjectType, h'.limits.trans h.limits,
    h.seenSubjects.trans h'.seenSubjects, h.seenUsersets.trans h'.seenUsersets,
    h.subjects.trans h'.subjects⟩

instance : Std.Refl SubjectStream.Grows := ⟨refl⟩

instance : Trans SubjectStream.Grows SubjectStream.Grows SubjectStream.Grows := ⟨trans⟩

/-- Enough subjects stay enough. -/
theorem resultLimitReached
    (h : stream.Grows stream')
    (hreached : stream.collector.resultLimitReached = true) :
    stream'.collector.resultLimitReached = true := by
  unfold LookupSubjectCollector.resultLimitReached lookupResultLimitReached at hreached ⊢
  rw [decide_eq_true_iff] at hreached ⊢
  rw [h.limits]
  exact hreached.trans h.subjects.length_le

end SubjectStream.Grows

namespace LookupSubjectCollector

theorem respects_pushVerifiedSubject
    (subject : User) :
    (pushVerifiedSubject subject).Respects Grows := by
  intro collector
  exact ⟨rfl, rfl, subset_rfl, subset_rfl, List.prefix_append _ _⟩

theorem respects_insertSubject
    (subject : User) :
    (insertSubject subject).Respects Grows := by
  intro collector
  exact ⟨rfl, rfl, Finset.subset_insert _ _, subset_rfl, List.prefix_rfl⟩

theorem respects_insertUserset
    (object : Object) (relationName : RelationName) :
    (insertUserset object relationName).Respects Grows := by
  intro collector
  exact ⟨rfl, rfl, subset_rfl, Finset.subset_insert _ _, List.prefix_rfl⟩

section Collectors

variable [StoreHasher]

theorem respects_verifySubject
    (subject : User) :
    (verifySubject subject).Respects Grows := by
  apply Action.respects_get_bind
  intro collector
  have hzoom : (Action.zoom (·.checkContext)
      (fun context collector => { collector with checkContext := context })
      (do
        Action.modify EvaluationContext.resetForReuse
        Evaluation.check collector.resource collector.permission subject) :
      Collecting Membership).Respects Grows :=
    Action.Respects.zoom (S := fun _ _ => True) (fun _ => trivial)
      (fun _ _ _ => ⟨rfl, rfl, subset_rfl, subset_rfl, List.prefix_rfl⟩)
  exact hzoom.bind (fun _ => Action.respects_pure _) collector

theorem respects_reportUser
    (subject : User) (verifyCandidate isNew : Bool) :
    (reportUser subject verifyCandidate isNew).Respects Grows := by
  have hpush : (do
      let _ ← pushVerifiedSubject subject
      return () : Collecting Unit).Respects Grows :=
    (respects_pushVerifiedSubject subject).bind (fun _ => Action.respects_pure _)
  have hskip : (return () : Collecting Unit).Respects Grows := Action.respects_pure _
  unfold reportUser
  split
  · split
    · exact hpush
    · refine (respects_verifySubject _).bind (fun allowed => ?_)
      split
      · exact hpush
      · exact hskip
  · exact hskip

theorem respects_collectUserCandidate
    (id : String) (verifyCandidate : Bool) :
    (collectUserCandidate id verifyCandidate).Respects Grows := by
  apply Action.respects_get_bind
  intro collector
  split
  · exact Grows.refl _
  · exact (respects_insertSubject _).bind (fun _ => respects_reportUser _ _ _) collector

theorem respects_reportUserset
    (object : Object) (relationName : RelationName) (verifyCandidate isNew : Bool) :
    (reportUserset object relationName verifyCandidate isNew).Respects Grows := by
  have hinsert := respects_insertUserset object relationName
  unfold reportUserset
  split
  · split
    · exact respects_pushVerifiedSubject _
    · refine (respects_verifySubject _).bind (fun allowed => ?_)
      split
      · refine (respects_pushVerifiedSubject _).bind (fun more => ?_)
        split
        · exact Action.respects_pure _
        · exact hinsert
      · exact hinsert
  · exact hinsert

theorem respects_collectUsersetCandidate
    (object : Object) (relationName : RelationName) (verifyCandidate : Bool) :
    (collectUsersetCandidate object relationName verifyCandidate).Respects Grows := by
  apply Action.respects_get_bind
  intro collector
  split
  · exact (respects_insertSubject _).bind (fun _ => respects_reportUserset _ _ _ _) collector
  · exact respects_insertUserset object relationName collector

/-- The collector has been offered the subject. -/
def Saw (collector : LookupSubjectCollector) : SubjectRef → Prop
  | .object target =>
      target.objectType.value = "user" → collector.subjectType.value = "user" →
        .userId target.objectId.value ∈ collector.seenSubjects
  | .userset target relation =>
      .userset target.toObject ⟨relation.value⟩ ∈ collector.seenSubjects ∨
        (target.toObject, relation) ∈ collector.seenUsersets

omit [StoreHasher] in
theorem Saw.mono
    {collector collector' : LookupSubjectCollector} {subject : SubjectRef}
    (h : collector.Saw subject)
    (hgrows : collector.Grows collector') :
    collector'.Saw subject := by
  cases subject with
  | object target =>
      intro huser htype
      rw [hgrows.subjectType] at htype
      exact hgrows.seenSubjects (h huser htype)
  | userset target relation =>
      exact h.imp (fun h => hgrows.seenSubjects h) (fun h => hgrows.seenUsersets h)

/-- A user that was offered has been seen, where users are asked for. -/
theorem saw_collectUserCandidate
    (target : ObjectRef) (verifyCandidate : Bool) (collector : LookupSubjectCollector) :
    (collectUserCandidate target.objectId.value verifyCandidate collector).2.Saw
      (.object target) := by
  intro _ htype
  have hgrows := respects_collectUserCandidate target.objectId.value verifyCandidate collector
  rw [hgrows.subjectType] at htype
  unfold collectUserCandidate
  rw [Action.get_bind_apply, if_neg (not_not.mpr htype)]
  exact (respects_reportUser _ _ _ _).seenSubjects (Finset.mem_insert_self _ _)

/-- A userset that was offered has been seen. -/
theorem saw_collectUsersetCandidate
    (target : ObjectRef) (relation : RelationName) (verifyCandidate : Bool)
    (collector : LookupSubjectCollector) :
    (collectUsersetCandidate target.toObject relation verifyCandidate collector).2.Saw
      (.userset target relation) := by
  unfold collectUsersetCandidate
  rw [Action.get_bind_apply]
  split
  · exact Or.inl ((respects_reportUserset _ _ _ _ _).seenSubjects (Finset.mem_insert_self _ _))
  · exact Or.inr (Finset.mem_insert_self _ _)

end Collectors

end LookupSubjectCollector

namespace EvaluationContext

theorem sameRequest_recordCheckFrameDepth
    (context : EvaluationContext) (remainingDepth : Nat) :
    context.SameRequest (context.recordCheckFrameDepth remainingDepth) := by
  unfold recordCheckFrameDepth
  split <;> exact ⟨rfl, rfl⟩

theorem sameRequest_pushExpandKey
    (context : EvaluationContext) (key : ExpandKey) :
    context.SameRequest (context.pushExpandKey key) := by
  unfold pushExpandKey rebuildActiveExpands
  dsimp only
  split
  · split <;> exact ⟨rfl, rfl⟩
  · exact ⟨rfl, rfl⟩

theorem sameRequest_popExpandKey
    (context : EvaluationContext) :
    context.SameRequest context.popExpandKey := by
  unfold popExpandKey deactivateExpandKey
  split
  · exact ⟨rfl, rfl⟩
  · split
    · split <;> exact ⟨rfl, rfl⟩
    · exact ⟨rfl, rfl⟩

end EvaluationContext

namespace Evaluation

open EvaluationContext

theorem respects_enter
    (key : EvaluationKey) :
    (enter key).Respects SameRequest := by
  apply Action.respects_get_bind
  intro context
  split
  · exact SameRequest.refl _
  · exact ⟨(sameRequest_recordCheckFrameDepth _ _).snapshot,
      (sameRequest_recordCheckFrameDepth _ _).limits⟩

theorem respects_openExpandKey
    (key : ExpandKey) :
    (openExpandKey key).Respects SameRequest :=
  (respects_enter _).bind (fun _ context => sameRequest_pushExpandKey context key)

theorem respects_closeExpandKey :
    closeExpandKey.Respects SameRequest := by
  intro context
  exact ⟨(sameRequest_popExpandKey context).snapshot, (sameRequest_popExpandKey context).limits⟩

theorem respects_incrementFanout
    (current : Nat) :
    (incrementFanout current).Respects SameRequest := by
  apply Action.respects_get_bind
  intro context
  by_cases hmore : context.limits.maxFanoutPerStep.get < min (current + 1) u32Max
  · simp only [if_pos hmore]
    exact SameRequest.refl _
  · simp only [if_neg hmore]
    exact SameRequest.refl _

theorem respects_relationById
    (id : SchemaRelationId) :
    (relationById id).Respects SameRequest := by
  apply Action.respects_get_bind
  intro context
  cases context.snapshot.schema.resolver.relationById id with
  | some definition => exact SameRequest.refl _
  | none => exact SameRequest.refl _

end Evaluation

namespace Streaming

open SubjectStream

theorem respects_ofEvaluation
    {α : Type} {x : Evaluation α}
    (h : x.Respects EvaluationContext.SameRequest) :
    (ofEvaluation x).Respects Grows :=
  h.zoom (fun _ _ hsame =>
    ⟨hsame.snapshot, hsame.limits, rfl, rfl, subset_rfl, subset_rfl, List.prefix_rfl⟩)

theorem respects_ofCollecting
    {α : Type} {x : Collecting α}
    (h : x.Respects LookupSubjectCollector.Grows) :
    (ofCollecting x).Respects Grows :=
  h.zoom (fun _ _ hgrows => ⟨rfl, rfl, hgrows.subjectType, hgrows.limits, hgrows.seenSubjects,
    hgrows.seenUsersets, hgrows.subjects⟩)

/-- Growing is a property of walks. -/
theorem closed_grows [StoreHasher] :
    Closed (fun _ x => x.Respects Grows) where
  lift := Action.respects_lift
  bind := Action.Respects.bind
  get_bind h := Action.respects_get_bind (fun stream => h stream stream)
  evaluate r := respects_ofEvaluation (Action.respects_lift r)
  incrementFanout current := respects_ofEvaluation (Evaluation.respects_incrementFanout current)
  relationById id := respects_ofEvaluation (Evaluation.respects_relationById id)
  collectUser id verify := respects_ofCollecting
    (LookupSubjectCollector.respects_collectUserCandidate id verify)
  collectUserset object relation verify := respects_ofCollecting
    (LookupSubjectCollector.respects_collectUsersetCandidate object relation verify)

theorem respects_evaluateStreamKey
    [StoreHasher] {key : ExpandKey} {evaluate : Streaming Unit}
    (h : evaluate.Respects Grows) :
    (evaluateStreamKey key evaluate).Respects Grows := by
  refine closed_grows.unlessReached (Action.respects_get_bind (fun stream => ?_))
  split
  · exact Grows.refl _
  · refine Action.Respects.bind (respects_ofEvaluation (Evaluation.respects_openExpandKey key))
      (fun _ => ?_) stream
    refine h.attempt.bind (fun result => ?_)
    exact (respects_ofEvaluation Evaluation.respects_closeExpandKey).bind
      (fun _ => Action.respects_lift _)

/-- A walk adds to what was seen and reported. -/
theorem respects_streamRelation
    [StoreHasher] (fuel : Nat) (object : Object) (relationName : RelationName)
    (inheritedVerifyCandidates : Bool) :
    (streamLookupSubjectsRelation fuel object relationName
      inheritedVerifyCandidates).Respects Grows := by
  induction fuel generalizing object relationName inheritedVerifyCandidates with
  | zero =>
      exact respects_evaluateStreamKey (fun stream => Grows.refl stream)
  | succ fuel ih =>
      exact respects_evaluateStreamKey (closed_grows.streamRelationEntered ih _ _ _)

section Seen

variable [StoreHasher] {nested : NestedStream}
  (hnested : ∀ object relation verify, (nested object relation verify).Respects Grows)
include hnested

omit [StoreHasher] hnested in
/-- Growing streams have growing collectors. -/
theorem grows_collector
    {stream stream' : SubjectStream}
    (h : stream.Grows stream') :
    stream.collector.Grows stream'.collector :=
  ⟨h.subjectType, h.limits, h.seenSubjects, h.seenUsersets, h.subjects⟩

/-- A row that was offered has been seen. -/
theorem saw_streamRow
    {verifyCandidates : Bool} {ref : RelationshipRef} {r : Relationship}
    {stream stream' : SubjectStream}
    (href : ref.relationship = .ok r)
    (h : streamRow nested verifyCandidates ref stream = (.ok (), stream')) :
    stream'.collector.Saw r.subject := by
  have haccess := RelationshipRef.accessors_of_relationship href
  have hd := IndexedRelationshipStore.relationshipFromRow_ok_iff.mp href
  unfold streamRow at h
  rw [haccess.1] at h
  obtain ⟨subject, hsubject, h⟩ := Action.lift_bind_eq_ok.mp h
  cases hsubject
  cases hshape : r.subject with
  | userset target relation =>
      rw [hshape] at h
      obtain ⟨walk, after, hcollect, h⟩ := Action.bind_eq_ok.mp h
      have hsaw : after.collector.Saw (.userset target relation) := by
        have hoffered := LookupSubjectCollector.saw_collectUsersetCandidate target relation
          verifyCandidates stream.collector
        obtain ⟨collector, hrun, hafter⟩ := Action.zoom_eq_ok.mp hcollect
        dsimp only at hrun
        rw [hrun] at hoffered
        rw [hafter]
        exact hoffered
      dsimp only at h
      cases walk with
      | true =>
          have hgrows := hnested target.toObject relation verifyCandidates after
          simp only [if_true] at h
          rw [h] at hgrows
          exact hsaw.mono (grows_collector hgrows)
      | false =>
          cases h
          exact hsaw
  | object target =>
      rw [hshape] at h
      intro huser htype
      have hrelation := hd.subjectRelation
      have htext := hd.subjectType
      have hidText := hd.subjectId
      rw [hshape] at hrelation htext hidText
      have hdirect : ref.directUserSubjectId = some target.objectId.value := by
        unfold RelationshipRef.directUserSubjectId
        rw [Option.map_eq_none_iff.mp hrelation, RelationshipRef.text_of_resolve htext,
          RelationshipRef.text_of_resolve hidText]
        simp only [SubjectRef.objectRef, huser]
        rfl
      simp only [SubjectRef.userset?, Option.map_none, hdirect] at h
      have hoffered := LookupSubjectCollector.saw_collectUserCandidate target verifyCandidates
        stream.collector
      obtain ⟨collector, hrun, hafter⟩ := Action.zoom_eq_ok.mp h
      rw [hrun] at hoffered
      rw [hafter] at htype ⊢
      exact hoffered huser htype

/-- A scan that ends before enough subjects are reported has offered every row, and there
are no more rows than the limit unless the limit is the largest number there is. -/
theorem saw_streamRows
    {verifyCandidates : Bool} {fanout : Nat} {refs : List RelationshipRef}
    {rs : List Relationship} {stream stream' : SubjectStream}
    (hrefs : RefsDenote refs rs)
    (h : streamRows nested verifyCandidates fanout refs stream = (.ok (), stream'))
    (hopen : stream'.collector.resultLimitReached = false)
    (hfanout : fanout ≤ stream.context.limits.maxFanoutPerStep.get) :
    (∀ r ∈ rs, stream'.collector.Saw r.subject) ∧
      (fanout + refs.length ≤ stream.context.limits.maxFanoutPerStep.get ∨
        stream.context.limits.maxFanoutPerStep.get = u32Max) := by
  induction hrefs generalizing fanout stream with
  | nil =>
      exact ⟨fun r hr => (by cases hr), Or.inl hfanout⟩
  | @cons ref r rest rs href _ ih =>
      have hgrows := closed_grows.streamRows hnested verifyCandidates fanout (ref :: rest) stream
      rw [h] at hgrows
      have hstart : stream.collector.resultLimitReached = false := by
        cases hreached : stream.collector.resultLimitReached with
        | false => rfl
        | true =>
            rw [hgrows.resultLimitReached hreached] at hopen
            cases hopen
      have hstep : streamRows nested verifyCandidates fanout (ref :: rest) stream =
          (do
            let fanout ← ofEvaluation (Evaluation.incrementFanout fanout)
            streamRow nested verifyCandidates ref
            streamRows nested verifyCandidates fanout rest : Streaming Unit) stream := by
        rw [streamRows, Action.bind_apply]
        simp [resultLimitReached, Action.bind_apply, hstart]
      rw [hstep] at h
      obtain ⟨next, counted, hcount, htail⟩ := Action.bind_eq_ok.mp h
      obtain ⟨_, offered, hrow, hrows⟩ := Action.bind_eq_ok.mp htail
      have hcounted : counted = stream ∧ next = min (fanout + 1) u32Max ∧
          next ≤ stream.context.limits.maxFanoutPerStep.get := by
        obtain ⟨context', hcall, hafter⟩ := Action.zoom_eq_ok.mp hcount
        obtain ⟨hsame, hvalue, hle⟩ := Evaluation.incrementFanout_eq_ok hcall
        refine ⟨?_, hvalue, hle⟩
        rw [hafter, hsame]
      obtain ⟨rfl, hnext, hle⟩ := hcounted
      have hoffered := closed_grows.streamRow hnested verifyCandidates ref counted
      rw [hrow] at hoffered
      have hlimits : offered.context.limits = counted.context.limits := hoffered.contextLimits
      obtain ⟨hsaw, hrest⟩ := ih hrows (by rw [hlimits]; exact hle)
      have hafter := closed_grows.streamRows hnested verifyCandidates next rest offered
      rw [hrows] at hafter
      refine ⟨?_, ?_⟩
      · intro r' hr'
        rcases List.mem_cons.mp hr' with rfl | hr'
        · exact (saw_streamRow hnested href hrow).mono (grows_collector hafter)
        · exact hsaw r' hr'
      · rw [hlimits] at hrest
        have hlt := counted.context.limits.maxFanoutPerStep.lt
        rw [List.length_cons]
        unfold u32Max at hnext hrest ⊢
        omega

/-- A walk over the stored subjects that ends before enough subjects are reported has seen
every live row, where the scan is complete. -/
theorem saw_streamThis
    {object : Object} {relation : RelationName} {verifyCandidates : Bool}
    {stream stream' : SubjectStream}
    (h : streamLookupSubjectsThis nested object relation verifyCandidates stream =
      (.ok (), stream'))
    (hopen : stream'.collector.resultLimitReached = false)
    (hinv : stream.context.snapshot.relationships.Inv)
    (hscan : ∀ resource, ObjectRef.tryFrom object = .ok resource →
      stream.context.snapshot.relationships.ScanComplete resource relation
        stream.context.limits.maxFanoutPerStep.get stream.context.fanoutQueryLimit) :
    ∃ resource, ObjectRef.tryFrom object = .ok resource ∧
      ∀ r ∈ stream.context.snapshot.relationships.liveOn resource relation,
        stream'.collector.Saw r.subject := by
  unfold streamLookupSubjectsThis at h
  obtain ⟨resource, after, hresource, hrows⟩ := Action.bind_eq_ok.mp h
  have hread : after = stream ∧ ObjectRef.tryFrom object = .ok resource := by
    obtain ⟨context', hlift, hafter⟩ := Action.zoom_eq_ok.mp hresource
    obtain ⟨hvalue, hcontext⟩ := Prod.mk.inj hlift
    rw [hafter, ← hcontext]
    exact ⟨rfl, mapError_eq_ok hvalue⟩
  obtain ⟨rfl, hresource'⟩ := hread
  rw [Action.get_bind_apply] at hrows
  have hdenote := hinv.refsDenote_limited resource relation after.context.fanoutQueryLimit
  obtain ⟨hsaw, hcount⟩ := saw_streamRows hnested hdenote hrows hopen (Nat.zero_le _)
  rw [Nat.zero_add] at hcount
  obtain ⟨rs, hrefs, _, hset⟩ := hinv.yieldsOnce_of_scan after.context.fanoutQueryLimit_get
    (hscan resource hresource') hcount
  refine ⟨resource, hresource', ?_⟩
  intro r hr
  rw [← hset, List.mem_toFinset, hrefs.unique hdenote] at hr
  exact hsaw r hr

end Seen

end Streaming

end SimpleZanzibar
