import SimpleZanzibar.Eval.CheckErrors
import SimpleZanzibar.Eval.LookupSubjectsWalk

/-!
# Lookup of subjects is sound and complete

The bodies of a walk cover the right-hand sides of their keys, so a whole walk visits the
permission on the resource.  A subject of the requested type that was not offered is false there,
and one that was offered is reported iff it holds the permission.

**Results.**
* `SubjectLookup.walks_relation`: the walk of a key, at every depth.
* `SubjectLookup.Grounds.collects`: a whole walk collects the subjects that hold the permission.
* `PublishedSnapshot.listsSubjects_of_lookup`: a lookup lists the subjects of the type that the
  checks allow, each once.
-/

namespace SimpleZanzibar

open BoolSystem Formula

section Walks

variable [StoreHasher]

namespace RelationshipStoreView

omit [StoreHasher] in
/-- What a limited query yields is live. -/
theorem mem_liveOn_of_limited
    {view : RelationshipStoreView} {resource : ObjectRef} {relation : RelationName} {n : Nat}
    {r : Relationship}
    (h : r ∈ (view.insertedOn resource relation).take n ++
      view.withoutTombstones ((view.checkpointOn resource relation).take n)) :
    r ∈ view.liveOn resource relation := by
  rw [mem_liveOn_iff]
  rcases List.mem_append.mp h with h | h
  · exact Or.inl (List.mem_of_mem_take h)
  · obtain ⟨hr, hlive⟩ := List.mem_filter.mp h
    exact Or.inr ⟨List.mem_of_mem_take hr, of_decide_eq_true hlive⟩

omit [StoreHasher] in
theorem mem_liveOn_iff_toObject
    {view : RelationshipStoreView} {resource : ObjectRef} {relation : RelationName}
    {r : Relationship} :
    r ∈ view.liveOn resource relation ↔
      r ∈ view.liveSet ∧ r.resource.toObject = resource.toObject ∧ r.relation = relation := by
  rw [liveOn, Finset.mem_filter]
  exact and_congr_right (fun _ => and_congr_left (fun _ =>
    ⟨fun h => congrArg _ h, ObjectRef.toObject_injective⟩))

end RelationshipStoreView

namespace SubjectLookup

variable {lookup : SubjectLookup} {stack : List ExpandKey} {stream stream' : SubjectStream}
  {nested : Streaming.NestedStream} {key : RelKey} {verifyCandidates : Bool}

theorem formula_union
    (user : User) (expressions : List CompiledUsersetExpression) :
    lookup.formula user key (CompiledUsersetExpression.union expressions).source =
      .any (expressions.map (fun expression => lookup.formula user key expression.source)) := by
  unfold formula
  rw [CompiledUsersetExpression.source, CompiledUsersetExpression.sources_eq_map,
    rewriteFormula, rewriteFormulas_eq_map, List.map_map]
  rfl

theorem formula_intersection
    (user : User) (expressions : List CompiledUsersetExpression) :
    lookup.formula user key (CompiledUsersetExpression.intersection expressions).source =
      .all (expressions.map (fun expression => lookup.formula user key expression.source)) := by
  unfold formula
  rw [CompiledUsersetExpression.source, CompiledUsersetExpression.sources_eq_map,
    rewriteFormula, rewriteFormulas_eq_map, List.map_map]
  rfl

section Bodies

variable (hgrounds : lookup.Grounds)
  (hnested : ∀ (member : RelKey) (verify : Bool), (verify = false → lookup.Opens member) →
    lookup.Walks stack (lookup.Visiting stack member)
      (nested member.object member.relation verify))
include hgrounds hnested

/-- The stored subjects of a key are offered. -/
theorem walks_streamThis
    (hgrows : ∀ object relation verify,
      (nested object relation verify).Respects SubjectStream.Grows)
    (hopens : lookup.OpensStored key verifyCandidates) :
    lookup.Walks stack (lookup.Covering stack (fun user => {lookup.storedFormula user key}))
      (Streaming.streamLookupSubjectsThis nested key.object key.relation verifyCandidates) := by
  intro stream stream' hwalking h
  unfold Streaming.streamLookupSubjectsThis at h
  obtain ⟨resource, after, hread, hscan⟩ := Action.bind_eq_ok.mp h
  have hsame : after = stream ∧ resource.toObject = key.object := by
    obtain ⟨context', hlift, hafter⟩ := Action.zoom_eq_ok.mp hread
    obtain ⟨hvalue, hcontext⟩ := Prod.mk.inj hlift
    rw [hafter, ← hcontext]
    exact ⟨rfl, ObjectRef.tryFrom_ok_iff.mp (mapError_eq_ok hvalue)⟩
  obtain ⟨rfl, hresource⟩ := hsame
  rw [Action.get_bind_apply, hwalking.context.reads] at hscan
  have hdenote := hgrounds.view.refsDenote_limited resource key.relation
    after.context.fanoutQueryLimit
  obtain ⟨hrows, hsaw⟩ := advances_streamRows hgrounds hnested hdenote
    (fun r hr => by
      have hlive := RelationshipStoreView.mem_liveOn_iff_toObject.mp
        (RelationshipStoreView.mem_liveOn_of_limited hr)
      rwa [hresource] at hlive) hopens hwalking hscan
  refine ⟨hrows.grows, hrows.walking, fun hopen subject htype hnew => ?_⟩
  -- the scan has seen every live row
  have hcount := (Streaming.saw_streamRows hgrows hdenote hscan hopen (Nat.zero_le _)).2
  rw [Nat.zero_add] at hcount
  obtain ⟨rs, hrefs, _, hset⟩ := hgrounds.view.yieldsOnce_of_scan
    after.context.fanoutQueryLimit_get
    (hgrounds.view.scanComplete_of_no_tombstones hgrounds.tombstones resource key.relation
      after.context.fanoutQueryLimit_get) hcount
  rw [hrefs.unique hdenote] at hset
  refine Covers.imp (hrows.looked hopen subject htype hnew) (fun W hground f hf => ?_)
  rw [Set.mem_singleton_iff.mp hf]
  refine .any (fun g hg => ?_)
  rcases List.mem_cons.mp hg with rfl | hg
  · have hfalse : directMatch lookup.snapshot.relationships subject key = false := by
      refine Bool.eq_false_iff.mpr (fun hmatch => ?_)
      obtain ⟨r, hr, hobject, hrelation, hdirect⟩ :=
        (hgrounds.view.directMatch_iff hgrounds.tombstones subject key).mp hmatch
      have hmem := RelationshipStoreView.mem_liveOn_iff_toObject.mpr
        ⟨hr, hobject.trans hresource.symm, hrelation⟩
      rw [← hset, List.mem_toFinset] at hmem
      exact hnew (hsaw hopen r hmem subject htype hdirect)
    rw [hfalse]
    exact .const
  · obtain ⟨member, hmember, rfl⟩ := List.mem_map.mp hg
    obtain ⟨r, hr, hobject, hrelation, hsubject⟩ := mem_storedUsersets_iff.mp hmember
    have hmem := RelationshipStoreView.mem_liveOn_iff_toObject.mpr
      ⟨hr, hobject.trans hresource.symm, hrelation⟩
    rw [← hset, List.mem_toFinset] at hmem
    exact hground _ ⟨r, hmem, member, hsubject, rfl⟩

omit hgrounds hnested in
omit [StoreHasher] in
/-- Below the limit a row whose subject is a userset is walked, before the rows behind it. -/
theorem streamTupleset_cons
    {computed : RelationName} {fanout : Nat} {ref : RelationshipRef} {rest : List RelationshipRef}
    (hreached : stream.collector.resultLimitReached = false) :
    Streaming.streamTupleset nested computed fanout (ref :: rest) stream = (do
      let subject ← Action.lift ref.subjectUsersetRelationName
      match subject with
      | none => Streaming.streamTupleset nested computed fanout rest
      | some (object, _) => do
          let fanout ← Streaming.ofEvaluation (Evaluation.incrementFanout fanout)
          nested object computed true
          Streaming.streamTupleset nested computed fanout rest : Streaming Unit) stream := by
  rw [Streaming.streamTupleset, Streaming.resultLimitReached, Action.bind_apply,
    Action.get_bind_apply]
  simp only [hreached]
  rfl

omit hgrounds in
/-- The userset subjects of the rows are walked, each on the computed relation. -/
theorem advances_streamTupleset
    {computed : RelationName} {fanout : Nat} {refs : List RelationshipRef}
    {rs : List Relationship}
    (hrefs : RefsDenote refs rs)
    (hwalking : lookup.Walking stack stream)
    (h : Streaming.streamTupleset nested computed fanout refs stream = (.ok (), stream')) :
    lookup.Advances stack (lookup.Covering stack (fun _ =>
      {f | ∃ r ∈ rs, ∃ member, r.subject.userset? = some member ∧
        f = .atom ⟨member.object, computed⟩})) stream stream' := by
  induction hrefs generalizing fanout stream with
  | nil =>
      cases h
      refine (advances_refl hwalking).imp (fun user seen seen' hcovers => ?_)
      exact Covers.imp hcovers (fun W _ f hf => by
        obtain ⟨r, hr, _⟩ := hf
        cases hr)
  | @cons ref r rest rs href _ ih =>
      cases hreached : stream.collector.resultLimitReached with
      | true =>
          rw [Streaming.streamTupleset, Streaming.resultLimitReached, Action.bind_apply,
            Action.get_bind_apply] at h
          simp only [hreached] at h
          cases h
          exact advances_reached hwalking hreached
      | false =>
          rw [streamTupleset_cons hreached] at h
          rw [(RelationshipRef.accessors_of_relationship href).1] at h
          obtain ⟨subject, hsubject, h⟩ := Action.lift_bind_eq_ok.mp h
          cases hsubject
          cases hkey : r.subject.userset? with
          | none =>
              rw [hkey] at h
              refine (ih hwalking h).imp (fun user seen seen' hcovers => ?_)
              refine Covers.imp hcovers (fun W hground f hf => hground f ?_)
              obtain ⟨other, hother, member, hmember, hf⟩ := hf
              rcases List.mem_cons.mp hother with rfl | hother
              · rw [hkey] at hmember
                cases hmember
              · exact ⟨other, hother, member, hmember, hf⟩
          | some member =>
              rw [hkey] at h
              obtain ⟨next, counted, hcount, htail⟩ := Action.bind_eq_ok.mp h
              obtain ⟨_, walked, hwalk, htail⟩ := Action.bind_eq_ok.mp htail
              obtain ⟨context, hcall, hcounted⟩ := Action.zoom_eq_ok.mp hcount
              obtain ⟨hsame, _, _⟩ := Evaluation.incrementFanout_eq_ok hcall
              rw [hsame] at hcounted
              have hcounted : counted = stream := hcounted
              rw [hcounted] at hwalk
              have hvisit := hnested ⟨member.object, computed⟩ true
                (fun hverify => (by cases hverify))
                _ _ hwalking hwalk
              have hfirst : lookup.Advances stack (lookup.Covering stack
                  (fun _ => {.atom ⟨member.object, computed⟩})) stream walked :=
                hvisit.imp (fun user seen seen' hvisits => Visits.covers hvisits)
              refine (hfirst.trans (ih hvisit.walking htail)).imp
                (fun user seen seen' hcovers => ?_)
              refine Covers.imp hcovers (fun W hground f hf => hground f ?_)
              obtain ⟨other, hother, member', hmember', rfl⟩ := hf
              rcases List.mem_cons.mp hother with rfl | hother
              · rw [hkey] at hmember'
                cases hmember'
                exact Or.inl rfl
              · exact Or.inr ⟨other, hother, member', hmember', rfl⟩

/-- A tuple-to-userset rewrite is walked. -/
theorem walks_streamTupleToUserset
    {tuplesetId : SchemaRelationId} {tupleset computed : RelationName}
    {target : RelationDefinition}
    (htarget : lookup.snapshot.schema.resolver.relationById tuplesetId = some target)
    (hname : target.name = tupleset) :
    lookup.Walks stack
      (lookup.Covering stack
        (fun user => {lookup.formula user key (.tupleToUserset tupleset computed)}))
      (Streaming.streamTupleToUserset nested key.object tuplesetId computed) := by
  intro stream stream' hwalking h
  unfold Streaming.streamTupleToUserset at h
  obtain ⟨resource, after, hread, hscan⟩ := Action.bind_eq_ok.mp h
  have hsame : after = stream ∧ resource.toObject = key.object := by
    obtain ⟨context', hlift, hafter⟩ := Action.zoom_eq_ok.mp hread
    obtain ⟨hvalue, hcontext⟩ := Prod.mk.inj hlift
    rw [hafter, ← hcontext]
    exact ⟨rfl, ObjectRef.tryFrom_ok_iff.mp (mapError_eq_ok hvalue)⟩
  obtain ⟨rfl, hresource⟩ := hsame
  obtain ⟨definition, last, hrelation, hrows⟩ := Action.bind_eq_ok.mp hscan
  have hfound : last = after ∧ definition = target := by
    obtain ⟨context', hlookup, hlast⟩ := Action.zoom_eq_ok.mp hrelation
    unfold Evaluation.relationById at hlookup
    rw [Action.get_bind_apply, hwalking.context.reads, htarget] at hlookup
    cases hlookup
    exact ⟨hlast, rfl⟩
  obtain ⟨rfl, rfl⟩ := hfound
  rw [Action.get_bind_apply, hwalking.context.reads, hname] at hrows
  obtain ⟨rs, hrefs, hstored⟩ := Search.exists_rows_of_key hgrounds.view resource tupleset
  refine (advances_streamTupleset hnested hrefs hwalking hrows).imp
    (fun user seen seen' hcovers => Covers.imp hcovers (fun W hground f hf => ?_))
  rw [Set.mem_singleton_iff.mp hf]
  unfold formula
  rw [rewriteFormula]
  refine .any (fun g hg => ?_)
  obtain ⟨member, hmember, rfl⟩ := List.mem_map.mp hg
  rw [← hresource] at hmember
  obtain ⟨r, hr, hsubject⟩ := (hstored member).mp hmember
  exact hground _ ⟨r, hr, member, hsubject, rfl⟩

omit hgrounds hnested in
/-- Operands are walked in turn. -/
theorem walks_streamExpressions
    {expressions : List CompiledUsersetExpression}
    {formula : CompiledUsersetExpression → User → Formula RelKey}
    (hoperands : ∀ expression ∈ expressions, lookup.Walks stack
      (lookup.Covering stack (fun user => {formula expression user}))
      (Streaming.streamLookupSubjectsExpression nested key.object key.relation verifyCandidates
        expression)) :
    lookup.Walks stack
      (lookup.Covering stack (fun user => {f | ∃ expression ∈ expressions,
        f = formula expression user}))
      (Streaming.streamLookupSubjectsExpressions nested key.object key.relation verifyCandidates
        expressions) := by
  induction expressions with
  | nil =>
      intro stream stream' hwalking h
      rw [Streaming.streamLookupSubjectsExpressions] at h
      cases h
      refine (advances_refl hwalking).imp (fun user seen seen' hcovers => ?_)
      exact Covers.imp hcovers (fun W _ f hf => by
        obtain ⟨r, hr, _⟩ := hf
        cases hr)
  | cons expression rest ih =>
      intro stream stream' hwalking h
      rw [Streaming.streamLookupSubjectsExpressions] at h
      obtain ⟨_, after, hfirst, hrest⟩ := Action.bind_eq_ok.mp h
      have hfirst := hoperands expression List.mem_cons_self _ _ hwalking hfirst
      have hrest := Walks.unlessReached
        (fun stream stream' hwalking _ hrun =>
          ih (fun other hother => hoperands other (List.mem_cons_of_mem _ hother)) stream stream'
            hwalking hrun) _ _ hfirst.walking hrest
      refine (hfirst.trans hrest).imp (fun user seen seen' hcovers => ?_)
      refine Covers.imp hcovers (fun W hground f hf => hground f ?_)
      obtain ⟨other, hother, rfl⟩ := hf
      rcases List.mem_cons.mp hother with rfl | hother
      · exact Or.inl rfl
      · exact Or.inr ⟨other, hother, rfl⟩

omit hgrounds in
/-- A computed userset is walked as the key it names. -/
theorem walks_streamComputedUserset
    {relation : RelationName} {id : SchemaRelationId} {hasRewrite : Bool}
    (hopens : verifyCandidates = false → ∀ user,
      lookup.Grants user (.atom ⟨key.object, relation⟩) → lookup.Holds user) :
    lookup.Walks stack
      (lookup.Covering stack (fun user => {lookup.formula user key
        (CompiledUsersetExpression.computedUserset relation id hasRewrite).source}))
      (Streaming.streamLookupSubjectsExpression nested key.object key.relation verifyCandidates
        (.computedUserset relation id hasRewrite)) := by
  rw [Streaming.streamLookupSubjectsExpression]
  refine Walks.unlessReached (fun stream stream' hwalking _ hrun => ?_)
  unfold formula
  simp only [CompiledUsersetExpression.source, rewriteFormula]
  exact (hnested ⟨key.object, relation⟩ _
    (fun hverify user hmember => hopens hverify user ((sat_atom _ _ _).mpr hmember))
    _ _ hwalking hrun).imp (fun user seen seen' hvisits => Visits.covers hvisits)

omit hgrounds hnested in
/-- A union is walked when its operands are. -/
theorem walks_streamUnion
    {expressions : List CompiledUsersetExpression}
    (hoperands : ∀ expression ∈ expressions, lookup.Walks stack
      (lookup.Covering stack (fun user => {lookup.formula user key expression.source}))
      (Streaming.streamLookupSubjectsExpression nested key.object key.relation verifyCandidates
        expression)) :
    lookup.Walks stack
      (lookup.Covering stack (fun user => {lookup.formula user key
        (CompiledUsersetExpression.union expressions).source}))
      (Streaming.streamLookupSubjectsExpression nested key.object key.relation verifyCandidates
        (.union expressions)) := by
  rw [Streaming.streamLookupSubjectsExpression]
  refine Walks.unlessReached (fun stream stream' hwalking _ hrun => ?_)
  refine (walks_streamExpressions hoperands _ _ hwalking hrun).imp
    (fun user seen seen' hcovers => Covers.imp hcovers (fun W hground f hf => ?_))
  rw [Set.mem_singleton_iff.mp hf, formula_union]
  refine .any (fun g hg => ?_)
  obtain ⟨expression, hexpression, rfl⟩ := List.mem_map.mp hg
  exact hground _ ⟨expression, hexpression, rfl⟩

omit hgrounds hnested in
/-- Of an intersection one operand is enough, and there is one. -/
theorem walks_streamIntersection
    {expressions : List CompiledUsersetExpression}
    (hpresent : expressions ≠ [])
    (hoperands : ∀ expression ∈ expressions, lookup.Walks stack
      (lookup.Covering stack (fun user => {lookup.formula user key expression.source}))
      (Streaming.streamLookupSubjectsExpression nested key.object key.relation verifyCandidates
        expression)) :
    lookup.Walks stack
      (lookup.Covering stack (fun user => {lookup.formula user key
        (CompiledUsersetExpression.intersection expressions).source}))
      (Streaming.streamLookupSubjectsExpression nested key.object key.relation verifyCandidates
        (.intersection expressions)) := by
  rw [Streaming.streamLookupSubjectsExpression]
  refine Walks.unlessReached (fun stream stream' hwalking _ hrun => ?_)
  refine (walks_streamExpressions hoperands _ _ hwalking hrun).imp
    (fun user seen seen' hcovers => Covers.imp hcovers (fun W hground f hf => ?_))
  obtain ⟨expression, hexpression⟩ := List.exists_mem_of_ne_nil expressions hpresent
  rw [Set.mem_singleton_iff.mp hf, formula_intersection]
  exact .all (List.mem_map_of_mem hexpression) (hground _ ⟨expression, hexpression, rfl⟩)

omit hgrounds hnested in
/-- An exclusion is walked by its base. -/
theorem walks_streamExclusion
    {base exclude : CompiledUsersetExpression}
    (hbase : lookup.Walks stack
      (lookup.Covering stack (fun user => {lookup.formula user key base.source}))
      (Streaming.streamLookupSubjectsExpression nested key.object key.relation true base)) :
    lookup.Walks stack
      (lookup.Covering stack (fun user => {lookup.formula user key
        (CompiledUsersetExpression.exclusion base exclude).source}))
      (Streaming.streamLookupSubjectsExpression nested key.object key.relation verifyCandidates
        (.exclusion base exclude)) := by
  rw [Streaming.streamLookupSubjectsExpression]
  refine Walks.unlessReached (fun stream stream' hwalking _ hrun => ?_)
  refine (hbase _ _ hwalking hrun).imp
    (fun user seen seen' hcovers => Covers.imp hcovers (fun W hground f hf => ?_))
  rw [Set.mem_singleton_iff.mp hf]
  unfold formula
  rw [CompiledUsersetExpression.source, rewriteFormula]
  exact .diff (hground _ rfl)

/-- A rewrite is walked; its candidates are checked unless it is a union whose members hold the
permission. -/
theorem walks_streamExpression
    (hgrows : ∀ object relation verify,
      (nested object relation verify).Respects SubjectStream.Grows)
    {objectType : ObjectType} {expression : CompiledUsersetExpression}
    (hresolved : expression.ResolvedIn lookup.snapshot.schema.resolver objectType)
    (hpresent : expression.source.operandsPresent)
    (hopens : verifyCandidates = false → CompiledSchema.plainExpression expression ∧
      ∀ user, lookup.Grants user (lookup.formula user key expression.source) →
        lookup.Holds user) :
    lookup.Walks stack
      (lookup.Covering stack (fun user => {lookup.formula user key expression.source}))
      (Streaming.streamLookupSubjectsExpression nested key.object key.relation verifyCandidates
        expression) := by
  induction hresolved generalizing verifyCandidates with
  | this =>
      rw [Streaming.streamLookupSubjectsExpression]
      refine Walks.unlessReached (fun stream stream' hwalking _ hrun => ?_)
      exact walks_streamThis hgrounds hnested hgrows
        (fun hverify user hgrants => (hopens hverify).2 user hgrants) _ _ hwalking hrun
  | computedUserset _ _ _ =>
      unfold formula at hopens
      simp only [CompiledUsersetExpression.source, rewriteFormula] at hopens
      exact walks_streamComputedUserset hnested (fun hverify => (hopens hverify).2)
  | tupleToUserset htarget hget =>
      rw [Streaming.streamLookupSubjectsExpression]
      refine Walks.unlessReached (fun stream stream' hwalking _ hrun => ?_)
      exact walks_streamTupleToUserset hgrounds hnested hget
        (SchemaResolver.mem_of_relation htarget).1 _ _ hwalking hrun
  | union _ ih =>
      rw [CompiledUsersetExpression.source, CompiledUsersetExpression.sources_eq_map,
        UsersetExpression.operandsPresent, UsersetExpression.allOperandsPresent_iff,
        List.forall_mem_map] at hpresent
      refine walks_streamUnion (fun expression hexpression =>
        ih expression hexpression (hpresent expression hexpression) (fun hverify => ?_))
      obtain ⟨hplain, hholds⟩ := hopens hverify
      refine ⟨CompiledSchema.plainExpressions_iff.mp hplain expression hexpression,
        fun user hgrants => hholds user ?_⟩
      rw [formula_union]
      exact (sat_any _ _ _).mpr ⟨_, List.mem_map_of_mem hexpression, hgrants⟩
  | intersection _ ih =>
      rw [CompiledUsersetExpression.source, CompiledUsersetExpression.sources_eq_map,
        UsersetExpression.operandsPresent, UsersetExpression.allOperandsPresent_iff,
        List.forall_mem_map] at hpresent
      obtain ⟨hsome, hpresent⟩ := hpresent
      refine walks_streamIntersection (fun hnil => hsome (by rw [hnil]; rfl))
        (fun expression hexpression => ih expression hexpression (hpresent expression hexpression)
          (fun hverify => (hopens hverify).1.elim))
  | exclusion _ _ ihbase _ =>
      rw [CompiledUsersetExpression.source, UsersetExpression.operandsPresent] at hpresent
      exact walks_streamExclusion (ihbase hpresent.1 (fun hverify => (by cases hverify)))

/-- The body of a key covers the right-hand side of its equation. -/
theorem walks_relationEntered
    (hgrows : ∀ object relation verify,
      (nested object relation verify).Respects SubjectStream.Grows)
    (hopens : verifyCandidates = false → lookup.Opens key) :
    lookup.Walks stack
      (lookup.Covering stack (fun user => {lookup.snapshot.system user key}))
      (Streaming.streamLookupSubjectsRelationEntered nested key.object key.relation
        verifyCandidates) := by
  intro stream stream' hwalking h
  unfold Streaming.streamLookupSubjectsRelationEntered at h
  obtain ⟨objectType, after, htype, hread⟩ := Action.bind_eq_ok.mp h
  obtain ⟨context, hlift, hafter⟩ := Action.zoom_eq_ok.mp htype
  obtain ⟨htypeValue, hcontext⟩ := Prod.mk.inj hlift
  rw [← hcontext] at hafter
  have hafter : after = stream := hafter
  rw [Action.get_bind_apply, hafter, hwalking.context.reads] at hread
  obtain ⟨definition, found, hdefinition, hverify⟩ := Action.bind_eq_ok.mp hread
  obtain ⟨context', hlift', hfound⟩ := Action.zoom_eq_ok.mp hdefinition
  obtain ⟨hrelationValue, hcontext'⟩ := Prod.mk.inj hlift'
  rw [← hcontext'] at hfound
  have hfound : found = stream := hfound
  rw [hfound] at hverify
  have hrelation := mapError_eq_ok hrelationValue
  have hdefinitionOf : lookup.snapshot.schema.definitionOf key = some definition := by
    unfold CompiledSchema.definitionOf
    simp only [mapError_eq_ok htypeValue, hrelation]
    rfl
  obtain ⟨hsource, hresolved⟩ := hgrounds.schema.relation hrelation
  have hsystem : ∀ user, lookup.snapshot.system user key =
      definitionFormula lookup.snapshot.relationships.liveSet
        (directMatch lookup.snapshot.relationships user) key definition := by
    intro user
    unfold PublishedSnapshot.system membershipSystem
    rw [hdefinitionOf]
  obtain ⟨required, checked, hrequired, hwalk⟩ := Action.bind_eq_ok.mp hverify
  have hchecked : checked = stream ∧ (required = false → verifyCandidates = false ∧
      lookup.snapshot.schema.relationDefinitionRequiresLookupSubjectVerification definition =
        .ok false) := by
    cases verifyCandidates with
    | true =>
        cases hrequired
        exact ⟨rfl, fun hfalse => (by cases hfalse)⟩
    | false =>
        obtain ⟨hvalue, hstate⟩ := Prod.mk.inj hrequired
        exact ⟨hstate.symm, fun hfalse => ⟨rfl, hfalse ▸ hvalue⟩⟩
  obtain ⟨rfl, hplain⟩ := hchecked
  have hholds : required = false → ∀ user,
      lookup.Grants user (lookup.snapshot.system user key) → lookup.Holds user :=
    fun hfalse user hgrants => hopens (hplain hfalse).1 user
      ((hgrounds.mem_model_iff user key).mpr hgrants)
  unfold Covering
  simp only [hsystem] at hholds ⊢
  cases hcompiled : definition.compiledUsersetRewrite with
  | none =>
      rw [hcompiled] at hsource hwalk
      unfold definitionFormula at hholds ⊢
      rw [← hsource] at hholds ⊢
      exact walks_streamThis hgrounds hnested hgrows hholds _ _ hwalking hwalk
  | some expression =>
      rw [hcompiled] at hsource hwalk
      have hpresent := hgrounds.schema.operandsPresent hrelation hsource.symm
      unfold definitionFormula at hholds ⊢
      rw [← hsource] at hholds ⊢
      refine walks_streamExpression hgrounds hnested hgrows (hresolved expression hcompiled)
        hpresent (fun hfalse => ⟨?_, hholds hfalse⟩) _ _ hwalking hwalk
      have hnot := (hplain hfalse).2
      unfold CompiledSchema.relationDefinitionRequiresLookupSubjectVerification at hnot
      rw [hcompiled] at hnot
      exact CompiledSchema.plainExpression_of_not_required expression hnot

end Bodies

/-- A key that is not active is walked with the key active. -/
theorem walks_key
    {evaluate : Streaming Unit}
    (h : lookup.Walks (⟨key.object, key.relation⟩ :: stack)
      (lookup.Covering (⟨key.object, key.relation⟩ :: stack)
        (fun user => {lookup.snapshot.system user key})) evaluate) :
    lookup.Walks stack (lookup.Visiting stack key)
      (Streaming.evaluateStreamKey ⟨key.object, key.relation⟩ evaluate) := by
  refine Walks.unlessReached (fun stream stream' hwalking _ hrun => ?_)
  rw [Action.get_bind_apply] at hrun
  have hactive : stream.context.isExpandActive ⟨key.object, key.relation⟩ = true ↔
      key ∈ expandCut stack := by
    unfold EvaluationContext.isExpandActive
    rw [hwalking.context.plain, hwalking.context.stack]
    exact decide_eq_true_iff
  by_cases hcut : key ∈ expandCut stack
  · rw [if_pos (hactive.mpr hcut)] at hrun
    cases hrun
    exact ⟨.refl _, hwalking, fun _ _ _ _ => visits_active hcut⟩
  · rw [if_neg (fun hfound => hcut (hactive.mp hfound))] at hrun
    obtain ⟨_, opened, hopen, hrun⟩ := Action.bind_eq_ok.mp hrun
    obtain ⟨result, evaluated, hattempt, hrun⟩ := Action.bind_eq_ok.mp hrun
    obtain ⟨_, closed, hclose, hrun⟩ := Action.bind_eq_ok.mp hrun
    obtain ⟨hresult, hclosed⟩ := Prod.mk.inj hrun
    subst hresult hclosed
    have hgrowsOpen := Streaming.respects_ofEvaluation
      (Evaluation.respects_openExpandKey ⟨key.object, key.relation⟩) stream
    have hgrowsClose := Streaming.respects_ofEvaluation Evaluation.respects_closeExpandKey evaluated
    rw [hopen] at hgrowsOpen
    rw [hclose] at hgrowsClose
    obtain ⟨openContext, hpushed, rfl⟩ := Action.zoom_eq_ok.mp hopen
    obtain ⟨closeContext, hpopped, rfl⟩ := Action.zoom_eq_ok.mp hclose
    have hrun : evaluate { stream with context := openContext } = (.ok (), evaluated) := by
      unfold Action.attempt at hattempt
      obtain ⟨hvalue, hstate⟩ := Prod.mk.inj hattempt
      exact Prod.ext (Except.ok.inj hvalue) hstate
    have hbody := h { stream with context := openContext } evaluated
      ⟨expanding_openExpandKey hwalking.context hpushed, hwalking.collected⟩ hrun
    refine ⟨(hgrowsOpen.trans hbody.grows).trans hgrowsClose,
      ⟨expanding_closeExpandKey hbody.walking.context hpopped, hbody.walking.collected⟩,
      fun hmore subject htype hnew => ?_⟩
    have hcovers := hbody.looked hmore subject htype hnew
    unfold Covering at hcovers
    rw [expandCut_cons] at hcovers
    exact hcovers.visits

/-- The walk of a key visits it, at every depth. -/
theorem walks_relation
    (hgrounds : lookup.Grounds)
    (fuel : Nat) (key : RelKey) (stack : List ExpandKey) (verifyCandidates : Bool)
    (hopens : verifyCandidates = false → lookup.Opens key) :
    lookup.Walks stack (lookup.Visiting stack key)
      (Streaming.streamLookupSubjectsRelation fuel key.object key.relation
        verifyCandidates) := by
  induction fuel generalizing key stack verifyCandidates with
  | zero =>
      refine walks_key (fun stream stream' _ h => ?_)
      cases h
  | succ fuel ih =>
      exact walks_key (walks_relationEntered hgrounds (fun member verify hmember =>
        ih member _ verify hmember) (Streaming.respects_streamRelation fuel) hopens)

end SubjectLookup

/-- The list holds subjects of the requested type whom every check that answers allows, each
once, and where it is shorter than the limit it holds all subjects whom some check allows. -/
structure PublishedSnapshot.ListsSubjects (snapshot : PublishedSnapshot)
    (request : LookupSubjectsRequest) (limits : EvaluationLimits) (subjects : List User) :
    Prop where
  nodup : subjects.Nodup
  bounded : subjects.length ≤ limits.maxLookupResults.get
  typed : ∀ subject ∈ subjects, subject.OfType request.subjectType
  sound : ∀ subject ∈ subjects, ∀ checkLimits membership,
    checkWithSnapshot snapshot request.resource request.permission subject checkLimits =
      .ok membership → membership = .allowed
  complete : subjects.length < limits.maxLookupResults.get → ∀ subject,
    subject.OfType request.subjectType → ∀ checkLimits,
      checkWithSnapshot snapshot request.resource request.permission subject checkLimits =
        .ok .allowed → subject ∈ subjects

/-- The walk of a lookup before its first step. -/
def SubjectLookup.initialStream (lookup : SubjectLookup) (permission : Relation) :
    SubjectStream where
  context := .new lookup.snapshot lookup.limits
  collector :=
    { resource := lookup.resource
      permission := permission
      subjectType := lookup.subjectType
      limits := lookup.limits
      seenSubjects := ∅
      seenUsersets := ∅
      subjects := []
      checkContext := .new lookup.snapshot lookup.limits }

/-- A lookup that returns is a whole walk. -/
theorem lookupSubjectsWithSnapshot_eq_ok
    {snapshot : PublishedSnapshot} {request : LookupSubjectsRequest} {limits : EvaluationLimits}
    {subjects : List User}
    (level : User → RelKey → Nat)
    (h : lookupSubjectsWithSnapshot snapshot request limits = .ok subjects) :
    ∃ permission subjectType stream, permission.value = request.permission.name ∧
      subjectType.value = request.subjectType ∧
      Streaming.streamLookupSubjectsRelation limits.maxDepth.get request.resource permission false
        ((SubjectLookup.mk snapshot request.resource permission subjectType limits
          level).initialStream request.permission) = (.ok (), stream) ∧
      stream.collector.subjects = subjects := by
  unfold lookupSubjectsWithSnapshot at h
  obtain ⟨resource, _, h⟩ := bind_eq_ok.mp h
  obtain ⟨permission, hpermission, h⟩ := bind_eq_ok.mp h
  obtain ⟨_, _, h⟩ := bind_eq_ok.mp h
  obtain ⟨subjectType, hsubjectType, h⟩ := bind_eq_ok.mp h
  split at h
  · obtain ⟨_, _, h⟩ := bind_eq_ok.mp h
    obtain ⟨_, _, h⟩ := bind_eq_ok.mp h
    dsimp only at h
    split at h
    · next stream hrun =>
        exact ⟨permission, subjectType, stream,
          Identifier.new_ok_iff.mp (mapError_eq_ok hpermission),
          Identifier.new_ok_iff.mp (mapError_eq_ok hsubjectType), hrun, Except.ok.inj h⟩
    · cases h
  · dsimp only at h
    split at h
    · next stream hrun =>
        exact ⟨permission, subjectType, stream,
          Identifier.new_ok_iff.mp (mapError_eq_ok hpermission),
          Identifier.new_ok_iff.mp (mapError_eq_ok hsubjectType), hrun, Except.ok.inj h⟩
    · cases h

/-- The list holds subjects of the requested type that hold the permission, each once, and where
it is shorter than the limit it holds all for whom the search says so. -/
structure SubjectLookup.Collects (lookup : SubjectLookup) (subjects : List User) : Prop where
  nodup : subjects.Nodup
  bounded : subjects.length ≤ lookup.limits.maxLookupResults.get
  typed : ∀ subject ∈ subjects, subject.OfType lookup.subjectType.value
  sound : ∀ subject ∈ subjects, lookup.Holds subject
  complete : subjects.length < lookup.limits.maxLookupResults.get → ∀ subject,
    subject.OfType lookup.subjectType.value →
      RootEval lookup.snapshot subject ⟨lookup.resource, lookup.permission⟩ true →
        subject ∈ subjects

/-- A whole walk collects the subjects that hold the permission. -/
theorem SubjectLookup.Grounds.collects
    {lookup : SubjectLookup} {permission : Relation} {stream : SubjectStream}
    (hgrounds : lookup.Grounds)
    (hpermission : lookup.permission.value = permission.name)
    (h : Streaming.streamLookupSubjectsRelation lookup.limits.maxDepth.get lookup.resource
      lookup.permission false (lookup.initialStream permission) = (.ok (), stream)) :
    lookup.Collects stream.collector.subjects := by
  have hstart : lookup.Walking [] (lookup.initialStream permission) := by
    refine ⟨⟨rfl, rfl, rfl⟩, ⟨rfl, hpermission.symm, rfl, rfl, ?_⟩, List.nodup_nil, ?_, ?_, ?_, ?_,
      Nat.zero_le _⟩
    · exact Search.valid_direct_new lookup.snapshot lookup.limits
    all_goals
      intro subject hsubject
      simp [initialStream] at hsubject
  have hwalk := SubjectLookup.walks_relation hgrounds _ ⟨lookup.resource, lookup.permission⟩ []
    false (fun _ user hmember => hmember) _ _ hstart h
  refine ⟨hwalk.walking.collected.nodup, hwalk.walking.collected.bounded,
    hwalk.walking.collected.typed, hwalk.walking.collected.sound, ?_⟩
  intro hfewer subject htype heval
  have hholds : lookup.Holds subject :=
    (rootEval_iff_leastModel (hgrounds.stratified subject) heval).mp rfl
  refine hwalk.walking.collected.complete subject ?_ hholds
  by_contra hnew
  have hopen : stream.collector.resultLimitReached = false := by
    unfold LookupSubjectCollector.resultLimitReached lookupResultLimitReached
    rw [hwalk.walking.collected.limits]
    exact decide_eq_false (Nat.not_le_of_lt hfewer)
  have hvisits := hwalk.looked hopen subject htype hnew
  have hcut : expandCut [] = ∅ := by
    ext key
    simp [expandCut]
  have hseen : (lookup.initialStream permission).collector.seenKeys = ∅ := by
    ext key
    simp [initialStream, LookupSubjectCollector.seenKeys]
  unfold SubjectLookup.Visiting at hvisits
  rw [hcut, hseen] at hvisits
  cases hvisits.eval_false heval

/-- What is collected agrees with the checks. -/
theorem SubjectLookup.Collects.listsSubjects
    {lookup : SubjectLookup} {permission : Relation} {subjects : List User}
    (hgrounds : lookup.Grounds)
    (hpermission : lookup.permission.value = permission.name)
    (h : lookup.Collects subjects) :
    lookup.snapshot.ListsSubjects ⟨lookup.resource, permission, lookup.subjectType.value⟩
      lookup.limits subjects := by
  have hchecks : ∀ subject checkLimits membership,
      checkWithSnapshot lookup.snapshot lookup.resource permission subject checkLimits =
        .ok membership →
      ∃ b, membership = .ofBool b ∧
        RootEval lookup.snapshot subject ⟨lookup.resource, lookup.permission⟩ b := by
    intro subject checkLimits membership hcheck
    obtain ⟨name, b, hname, hanswer, heval⟩ :=
      PublishedSnapshot.check_eval hgrounds.view hgrounds.schema hcheck
    have hsame : name = lookup.permission := Identifier.ext (hname.trans hpermission.symm)
    exact ⟨b, hanswer, hsame ▸ heval⟩
  refine ⟨h.nodup, h.bounded, h.typed, ?_, ?_⟩
  · intro subject hsubject checkLimits membership hcheck
    obtain ⟨b, rfl, heval⟩ := hchecks subject checkLimits membership hcheck
    exact Membership.ofBool_eq_allowed_iff.mpr
      ((rootEval_iff_leastModel (hgrounds.stratified subject) heval).mpr
        (h.sound subject hsubject))
  · intro hfewer subject htype checkLimits hcheck
    obtain ⟨b, hallowed, heval⟩ := hchecks subject checkLimits .allowed hcheck
    have htrue := Membership.ofBool_eq_allowed_iff.mp hallowed.symm
    exact h.complete hfewer subject htype (htrue ▸ heval)

/-- A lookup that returns has collected the subjects of its permission and type. -/
theorem PublishedSnapshot.collects_of_lookup
    {snapshot : PublishedSnapshot} {request : LookupSubjectsRequest} {limits : EvaluationLimits}
    {subjects : List User} {level : User → RelKey → Nat}
    (hgrounds : ∀ permission subjectType,
      (SubjectLookup.mk snapshot request.resource permission subjectType limits level).Grounds)
    (h : lookupSubjectsWithSnapshot snapshot request limits = .ok subjects) :
    ∃ permission subjectType, permission.value = request.permission.name ∧
      subjectType.value = request.subjectType ∧
      (SubjectLookup.mk snapshot request.resource permission subjectType limits
        level).Collects subjects := by
  obtain ⟨permission, subjectType, stream, hpermission, hsubjectType, hrun, rfl⟩ :=
    lookupSubjectsWithSnapshot_eq_ok level h
  exact ⟨permission, subjectType, hpermission, hsubjectType,
    (hgrounds permission subjectType).collects hpermission hrun⟩

/-- A lookup that returns lists the subjects whom the checks allow. -/
theorem PublishedSnapshot.listsSubjects_of_lookup
    {snapshot : PublishedSnapshot} {request : LookupSubjectsRequest} {limits : EvaluationLimits}
    {subjects : List User} {level : User → RelKey → Nat}
    (hgrounds : ∀ permission subjectType,
      (SubjectLookup.mk snapshot request.resource permission subjectType limits level).Grounds)
    (h : lookupSubjectsWithSnapshot snapshot request limits = .ok subjects) :
    snapshot.ListsSubjects request limits subjects := by
  obtain ⟨permission, subjectType, hpermission, hsubjectType, hcollects⟩ :=
    collects_of_lookup hgrounds h
  have hlists := hcollects.listsSubjects (hgrounds permission subjectType) hpermission
  rw [show subjectType.value = request.subjectType from hsubjectType] at hlists
  exact hlists

end Walks

namespace EngineCommand

section Runs

variable [Blake3] [StoreHasher]

/-- What a published snapshot without a namespace `user` and without deleted rows provides. -/
theorem grounds_latestSnapshot
    {commands : List (MapListing × EngineCommand)} {datastoreId : DatastoreId}
    {retainedSnapshots : ℕ+} {evaluationLimits : EvaluationLimits} {state : EngineState}
    (hstate : (runAll commands
      (.new datastoreId retainedSnapshots evaluationLimits)).publishedState = some state)
    (hnamespaces : ∀ definition ∈ state.latestSnapshot.schema.definitions,
      definition.name.value ≠ "user")
    (htombstones : state.latestSnapshot.relationships.tombstones = ∅)
    {level : User → RelKey → Nat}
    (hlevel : ∀ user, IsStratification (state.latestSnapshot.system user) (level user))
    (resource : Object) (permission : RelationName) (subjectType : SubjectType)
    (limits : EvaluationLimits) :
    (SubjectLookup.mk state.latestSnapshot.toPublishedSnapshot resource permission subjectType
      limits level).Grounds := by
  have hsound := sound_latestSnapshot hstate
  refine ⟨hsound.view, htombstones, hsound.schema, hlevel, fun r hr key hkey huser => ?_⟩
  have hvalid := hsound.rows r hr
  obtain ⟨definitions, hdefinitions⟩ := hsound.schema
  obtain ⟨_, hresolver, _, _⟩ := CompiledSchema.fromDefinitions_eq_ok hdefinitions
  cases hsubject : r.subject with
  | object target =>
      rw [hsubject] at hkey
      cases hkey
  | userset target name =>
      rw [hsubject] at hkey
      cases hkey
      unfold CompiledSchema.validateRelationship at hvalid
      obtain ⟨_, _, hvalid⟩ := bind_eq_ok.mp hvalid
      rw [hsubject] at hvalid
      obtain ⟨found, hfound, _⟩ := bind_eq_ok.mp hvalid
      obtain ⟨_, i, j, definition, hi, hname, _⟩ := SchemaResolver.mem_of_relation hfound
      rw [hresolver] at hi
      refine hnamespaces definition (List.mem_of_getElem? hi) ?_
      rw [hname]
      exact huser

/-- On every published snapshot that is stratified, has no namespace `user` and no deleted row
beneath it, a lookup of subjects that returns lists the subjects whom the checks allow. -/
theorem lookupSubjects_listsSubjects
    (commands : List (MapListing × EngineCommand)) (datastoreId : DatastoreId)
    (retainedSnapshots : ℕ+) (evaluationLimits : EvaluationLimits) {state : EngineState}
    (hstate : (runAll commands
      (.new datastoreId retainedSnapshots evaluationLimits)).publishedState = some state)
    (hnamespaces : ∀ definition ∈ state.latestSnapshot.schema.definitions,
      definition.name.value ≠ "user")
    (htombstones : state.latestSnapshot.relationships.tombstones = ∅)
    (hstratified : ∀ user, ∃ level, IsStratification (state.latestSnapshot.system user) level)
    {request : LookupSubjectsRequest} {limits : EvaluationLimits} {subjects : List User}
    (h : lookupSubjectsWithSnapshot state.latestSnapshot.toPublishedSnapshot request limits =
      .ok subjects) :
    state.latestSnapshot.ListsSubjects request limits subjects := by
  obtain ⟨level, hlevel⟩ := Classical.axiom_of_choice hstratified
  exact PublishedSnapshot.listsSubjects_of_lookup (fun permission subjectType =>
    grounds_latestSnapshot hstate hnamespaces htombstones hlevel request.resource permission
      subjectType limits) h

end Runs

/-- Two groups that contain each other own a document. -/
def cyclicOwners : List (MapListing × EngineCommand) :=
  [(.latestFirst, .applyNamespaceConfigs
    [.ofRelations "group" [("member", none)],
      .ofRelations "doc" [("owner", none),
        ("viewer", some (.union [.this, .computedUserset ⟨"owner"⟩])),
        ("admin", some (.intersection [.computedUserset ⟨"viewer"⟩,
          .computedUserset ⟨"owner"⟩]))]]),
    (.latestFirst, .writeRelationships
      [.create ⟨objectLit "group" "a", relationLit "member",
          .userset (objectLit "group" "b") (relationLit "member")⟩,
        .create ⟨objectLit "group" "b", relationLit "member",
          .userset (objectLit "group" "a") (relationLit "member")⟩,
        .create ⟨objectLit "group" "b", relationLit "member",
          .object (objectLit "user" "alice")⟩,
        .create ⟨objectLit "doc" "1", relationLit "viewer", .object (objectLit "user" "bob")⟩,
        .create ⟨objectLit "doc" "1", relationLit "owner",
          .userset (objectLit "group" "a") (relationLit "member")⟩] [])]

/-- The member of one group administers the document, the plain viewer does not. -/
theorem lookupSubjects_listsSubjects_cyclic_owners :
    letI := SchemaHash.identityBlake3
    letI := fnvHasher
    ∃ state : EngineState,
      (runAll cyclicOwners (.new ⟨0⟩ ⟨1, Nat.one_pos⟩ .default)).publishedState = some state ∧
      state.latestSnapshot.ListsSubjects ⟨⟨"doc", "1"⟩, ⟨"admin"⟩, "user"⟩ .default
        [.userId "alice"] := by
  let _ := SchemaHash.identityBlake3
  let _ := fnvHasher
  have hrun : (runAll cyclicOwners (.new ⟨0⟩ ⟨1, Nat.one_pos⟩ .default)).publishedState.map
      (fun state => (state.latestSnapshot.schema.exclusionFree,
        state.latestSnapshot.schema.definitions.all (fun definition =>
          decide (definition.name.value ≠ "user")),
        decide (state.latestSnapshot.relationships.tombstones = ∅),
        (lookupSubjectsWithSnapshot state.latestSnapshot.toPublishedSnapshot
          ⟨⟨"doc", "1"⟩, ⟨"admin"⟩, "user"⟩ .default).toOption)) =
      some (true, true, true, some [.userId "alice"]) := by
    decide +kernel
  obtain ⟨state, hstate, hresult⟩ := Option.map_eq_some_iff.mp hrun
  obtain ⟨hfree, hresult⟩ := Prod.mk.inj hresult
  obtain ⟨hnamespaces, hresult⟩ := Prod.mk.inj hresult
  obtain ⟨htombstones, hlookup⟩ := Prod.mk.inj hresult
  exact ⟨state, hstate, lookupSubjects_listsSubjects _ _ _ _ hstate
    (fun definition hdefinition => of_decide_eq_true
      (List.all_eq_true.mp hnamespaces definition hdefinition))
    (of_decide_eq_true htombstones)
    (fun _ => ⟨_, isStratification_of_exclusionFree hfree⟩) (eq_ok_of_toOption hlookup)⟩

end EngineCommand

end SimpleZanzibar
