import SimpleZanzibar.Eval.ExpandCorrect
import SimpleZanzibar.Eval.LookupSubjectsCollector
import SimpleZanzibar.Lib.Coverage
import SimpleZanzibar.SchemaHashCorrect

/-!
# What a lookup of subjects covers

A walk offers the stored subjects of every key that it visits to the collector.  For a subject of
the requested type that was never offered, the walk has therefore found no true constant in the
equations of this subject, and the keys that it has visited are false: the keys on the stack and
those seen before are skipped, and they are looked at elsewhere.

**Results.**
* `SubjectLookup.Opens`: the keys below which a candidate is not checked.
* `SubjectLookup.Walks`: what a walk keeps, and what it has looked at.
* `SubjectLookup.walks_relation`: the walk of a key, at every depth.
-/

namespace SimpleZanzibar

open BoolSystem Formula

namespace UsersetExpression

mutual

/-- Every intersection has an operand. -/
def operandsPresent : UsersetExpression → Prop
  | .this => True
  | .computedUserset _ => True
  | .tupleToUserset _ _ => True
  | .union expressions => allOperandsPresent expressions
  | .intersection expressions => expressions ≠ [] ∧ allOperandsPresent expressions
  | .exclusion base exclude => operandsPresent base ∧ operandsPresent exclude

def allOperandsPresent : List UsersetExpression → Prop
  | [] => True
  | expression :: rest => operandsPresent expression ∧ allOperandsPresent rest

end

theorem allOperandsPresent_iff
    {expressions : List UsersetExpression} :
    allOperandsPresent expressions ↔ ∀ expression ∈ expressions, operandsPresent expression := by
  induction expressions with
  | nil => simp [allOperandsPresent]
  | cons expression rest ih => rw [allOperandsPresent, List.forall_mem_cons, ih]

end UsersetExpression

namespace SchemaResolver

variable {resolver : SchemaResolver} {objectType : ObjectType}

mutual

theorem operandsPresent_of_preorderValid :
    ∀ expression : UsersetExpression, resolver.PreorderValid objectType expression.preorder →
      expression.operandsPresent
  | .this, _ => trivial
  | .computedUserset _, _ => trivial
  | .tupleToUserset _ _, _ => trivial
  | .union expressions, h => by
      rw [UsersetExpression.preorder, preorderValid_cons_iff] at h
      exact allOperandsPresent_of_preorderValid expressions h.2.2
  | .intersection expressions, h => by
      rw [UsersetExpression.preorder, preorderValid_cons_iff] at h
      refine ⟨?_, allOperandsPresent_of_preorderValid expressions h.2.2⟩
      rintro rfl
      exact absurd h.1 (by simp [RewriteSymbol.isOpen])
  | .exclusion base exclude, h => by
      rw [UsersetExpression.preorder, preorderValid_cons_iff] at h
      obtain ⟨hbase, hexclude⟩ := preorderValid_append_iff.mp h.2.2
      exact ⟨operandsPresent_of_preorderValid base hbase,
        operandsPresent_of_preorderValid exclude hexclude⟩

theorem allOperandsPresent_of_preorderValid :
    ∀ expressions : List UsersetExpression,
      resolver.PreorderValid objectType (UsersetExpression.preorders expressions) →
        UsersetExpression.allOperandsPresent expressions
  | [], _ => trivial
  | expression :: rest, h => by
      obtain ⟨hexpression, hrest⟩ := preorderValid_append_iff.mp h
      exact ⟨operandsPresent_of_preorderValid expression hexpression,
        allOperandsPresent_of_preorderValid rest hrest⟩

end

end SchemaResolver

namespace CompiledSchema

/-- The intersections of an accepted schema have operands. -/
theorem Accepted.operandsPresent
    {schema : CompiledSchema}
    (h : schema.Accepted)
    {objectType : ObjectType} {name : RelationName} {definition : RelationDefinition}
    {expression : UsersetExpression}
    (hrelation : schema.resolver.relation objectType name = .ok definition)
    (hrewrite : definition.usersetRewrite = some expression) :
    expression.operandsPresent := by
  obtain ⟨definitions, hdefinitions⟩ := h
  obtain ⟨hvalid, hresolver, hkept, _⟩ := fromDefinitions_eq_ok hdefinitions
  rw [hresolver] at hrelation
  obtain ⟨_, i, j, namespaceDefinition, hi, _, hj⟩ := SchemaResolver.mem_of_relation hrelation
  obtain ⟨source, hsource, hsame⟩ := exists_getElem?_of_forall₂ hkept hi
  obtain ⟨relation, hrelation', hsameRelation⟩ := exists_getElem?_of_forall₂ hsame.relations hj
  refine SchemaResolver.operandsPresent_of_preorderValid expression
    (hvalid.rewrites source (List.mem_of_getElem? hsource) relation
      (List.mem_of_getElem? hrelation') expression ?_)
  rw [← hrewrite, show definition = _ from hsameRelation]

mutual

/-- A rewrite of unions only. -/
def plainExpression : CompiledUsersetExpression → Prop
  | .this => True
  | .computedUserset _ _ _ => True
  | .tupleToUserset _ _ _ => False
  | .union expressions => plainExpressions expressions
  | .intersection _ => False
  | .exclusion _ _ => False

def plainExpressions : List CompiledUsersetExpression → Prop
  | [] => True
  | expression :: rest => plainExpression expression ∧ plainExpressions rest

end

theorem plainExpressions_iff
    {expressions : List CompiledUsersetExpression} :
    plainExpressions expressions ↔ ∀ expression ∈ expressions, plainExpression expression := by
  induction expressions with
  | nil => simp [plainExpressions]
  | cons expression rest ih => rw [plainExpressions, List.forall_mem_cons, ih]

section Verification

variable {visit : List SchemaRelationId → SchemaRelationId → Except ZanzibarError Bool}
  {visiting : List SchemaRelationId}

mutual

/-- Only the candidates of unions are not checked. -/
theorem plainExpression_of_not_required :
    ∀ expression : CompiledUsersetExpression,
      expressionRequiresLookupSubjectVerification visit visiting expression = .ok false →
        plainExpression expression
  | .this, _ => trivial
  | .computedUserset _ _ _, _ => trivial
  | .tupleToUserset _ _ _, h => by cases h
  | .union expressions, h => by
      rw [expressionRequiresLookupSubjectVerification] at h
      exact plainExpressions_of_not_required expressions h
  | .intersection _, h => by cases h
  | .exclusion _ _, h => by cases h

theorem plainExpressions_of_not_required :
    ∀ expressions : List CompiledUsersetExpression,
      someRequiresLookupSubjectVerification visit visiting expressions = .ok false →
        plainExpressions expressions
  | [], _ => trivial
  | expression :: rest, h => by
      rw [someRequiresLookupSubjectVerification] at h
      obtain ⟨required, hrequired, h⟩ := bind_eq_ok.mp h
      cases required with
      | true => cases h
      | false =>
          exact ⟨plainExpression_of_not_required expression hrequired,
            plainExpressions_of_not_required rest h⟩

end

end Verification

end CompiledSchema

namespace LookupSubjectCollector

/-- The keys of the usersets that were seen. -/
def seenKeys (collector : LookupSubjectCollector) : Set RelKey :=
  {key | (key.object, key.relation) ∈ collector.seenUsersets}

end LookupSubjectCollector

section Walks

variable [StoreHasher]

namespace SubjectLookup

/-- What the snapshot of a lookup provides: the facts on which its answers rest. -/
structure Grounds (lookup : SubjectLookup) : Prop where
  view : lookup.snapshot.relationships.Inv
  tombstones : lookup.snapshot.relationships.tombstones = ∅
  schema : lookup.snapshot.schema.Accepted
  stratified : lookup.Stratified
  usersets : ∀ r ∈ lookup.snapshot.relationships.liveSet, ∀ key,
    r.subject.userset? = some key → key.object.namespaceName ≠ "user"

/-- Whoever belongs to the key holds the permission. -/
def Opens (lookup : SubjectLookup) (key : RelKey) : Prop :=
  ∀ user, key ∈ lookup.model user → lookup.Holds user

/-- The truth of a formula in the model of the user. -/
abbrev Grants (lookup : SubjectLookup) (user : User) (f : Formula RelKey) : Prop :=
  Sat (lookup.model user) (lookup.model user) f

/-- A key is in the model iff its right-hand side is true. -/
theorem Grounds.mem_model_iff
    {lookup : SubjectLookup}
    (h : lookup.Grounds)
    (user : User) (key : RelKey) :
    key ∈ lookup.model user ↔ lookup.Grants user (lookup.snapshot.system user key) :=
  mem_leastModel_iff (h.stratified user)

/-- The right-hand side of the stored subjects of a key. -/
noncomputable def storedFormula (lookup : SubjectLookup) (user : User) (key : RelKey) :
    Formula RelKey :=
  thisFormula lookup.snapshot.relationships.liveSet
    (directMatch lookup.snapshot.relationships user) key

/-- The right-hand side that a rewrite of a key stands for. -/
noncomputable def formula (lookup : SubjectLookup) (user : User) (key : RelKey)
    (expression : UsersetExpression) : Formula RelKey :=
  rewriteFormula lookup.snapshot.relationships.liveSet
    (directMatch lookup.snapshot.relationships user) key expression

/-- A row grants its stored subject. -/
theorem Grounds.grants_direct
    {lookup : SubjectLookup}
    (h : lookup.Grounds)
    {key : RelKey} {r : Relationship} {user : User}
    (hlive : r ∈ lookup.snapshot.relationships.liveSet)
    (hobject : r.resource.toObject = key.object)
    (hrelation : r.relation = key.relation)
    (hdirect : r.subject.Direct user) :
    lookup.Grants user (lookup.storedFormula user key) := by
  refine (sat_any _ _ _).mpr ⟨.const _, List.mem_cons_self, (sat_const _ _ _).mpr ?_⟩
  exact (h.view.directMatch_iff h.tombstones user key).mpr
    ⟨r, hlive, hobject, hrelation, hdirect⟩

/-- A row grants the members of its userset subject. -/
theorem grants_userset
    {lookup : SubjectLookup} {key member : RelKey} {r : Relationship} {user : User}
    (hlive : r ∈ lookup.snapshot.relationships.liveSet)
    (hobject : r.resource.toObject = key.object)
    (hrelation : r.relation = key.relation)
    (hsubject : r.subject.userset? = some member)
    (hmember : member ∈ lookup.model user) :
    lookup.Grants user (lookup.storedFormula user key) := by
  refine (sat_any _ _ _).mpr ⟨.atom member, List.mem_cons_of_mem _ (List.mem_map_of_mem ?_),
    (sat_atom _ _ _).mpr hmember⟩
  exact mem_storedUsersets_iff.mpr ⟨r, hlive, hobject, hrelation, hsubject⟩

/-- The stream works for the lookup, with the keys of the stack active. -/
structure Walking (lookup : SubjectLookup) (stack : List ExpandKey) (stream : SubjectStream) :
    Prop where
  context : stream.context.Expanding lookup.snapshot stack
  collected : LookupSubjectCollector.Collected lookup stream.collector

/-- What a walk has looked at, for a subject that was never offered, given the keys that were
seen before and after it. -/
abbrev Looked : Type := User → Set RelKey → Set RelKey → Prop

/-- The walk covers the formulas. -/
def Covering (lookup : SubjectLookup) (stack : List ExpandKey)
    (fs : User → Set (Formula RelKey)) : Looked :=
  fun user seen seen' =>
    Covers (lookup.snapshot.system user) (expandCut stack) seen seen' (fs user)

/-- The walk visits the key. -/
def Visiting (lookup : SubjectLookup) (stack : List ExpandKey) (key : RelKey) : Looked :=
  fun user seen seen' => Visits (lookup.snapshot.system user) (expandCut stack) seen seen' key

/-- The second stream continues the first one.  Unless enough subjects are reported, the walk has
looked at what it had to for every subject of the type that was not offered. -/
structure Advances (lookup : SubjectLookup) (stack : List ExpandKey) (looked : Looked)
    (stream stream' : SubjectStream) : Prop where
  grows : stream.Grows stream'
  walking : lookup.Walking stack stream'
  looked : stream'.collector.resultLimitReached = false → ∀ subject,
    subject.OfType lookup.subjectType.value → subject ∉ stream'.collector.seenSubjects →
      looked subject stream.collector.seenKeys stream'.collector.seenKeys

/-- A walk that ends advances the stream. -/
def Walks (lookup : SubjectLookup) (stack : List ExpandKey) (looked : Looked)
    (x : Streaming Unit) : Prop :=
  ∀ stream stream', lookup.Walking stack stream → x stream = (.ok (), stream') →
    lookup.Advances stack looked stream stream'

variable {lookup : SubjectLookup} {stack : List ExpandKey} {looked looked' : Looked}
  {fs gs : User → Set (Formula RelKey)} {stream stream' stream'' : SubjectStream}

/-- Standing still where enough subjects are reported. -/
theorem advances_reached
    (hwalking : lookup.Walking stack stream)
    (hreached : stream.collector.resultLimitReached = true) :
    lookup.Advances stack looked stream stream := by
  refine ⟨.refl _, hwalking, fun hopen => ?_⟩
  rw [hreached] at hopen
  cases hopen

theorem Advances.imp
    (h : lookup.Advances stack looked stream stream')
    (himp : ∀ user seen seen', looked user seen seen' → looked' user seen seen') :
    lookup.Advances stack looked' stream stream' :=
  ⟨h.grows, h.walking, fun hopen subject htype hnew =>
    himp _ _ _ (h.looked hopen subject htype hnew)⟩

/-- Standing still. -/
theorem advances_refl
    (hwalking : lookup.Walking stack stream) :
    lookup.Advances stack (lookup.Covering stack (fun _ => ∅)) stream stream :=
  ⟨.refl _, hwalking, fun _ _ _ _ => covers_of_grounded (fun _ hf => (by cases hf))⟩

/-- One walk after the other. -/
theorem Advances.trans
    (h : lookup.Advances stack (lookup.Covering stack fs) stream stream')
    (h' : lookup.Advances stack (lookup.Covering stack gs) stream' stream'') :
    lookup.Advances stack (lookup.Covering stack (fun user => fs user ∪ gs user)) stream
      stream'' := by
  refine ⟨h.grows.trans h'.grows, h'.walking, fun hopen subject htype hnew => ?_⟩
  have hopen' : stream'.collector.resultLimitReached = false :=
    Bool.eq_false_iff.mpr (fun hreached => by
      rw [h'.grows.resultLimitReached hreached] at hopen
      cases hopen)
  exact (h.looked hopen' subject htype (fun hseen => hnew (h'.grows.seenSubjects hseen))).trans
    (h'.looked hopen subject htype hnew)

/-- Going on where enough subjects are reported already. -/
theorem Walks.unlessReached
    {x : Streaming Unit}
    (h : ∀ stream stream', lookup.Walking stack stream →
      stream.collector.resultLimitReached = false → x stream = (.ok (), stream') →
        lookup.Advances stack looked stream stream') :
    lookup.Walks stack looked (do
      let reached ← Streaming.resultLimitReached
      if reached then return () else x) := by
  intro stream stream' hwalking hrun
  rw [Streaming.resultLimitReached, Action.bind_apply, Action.get_bind_apply] at hrun
  cases hreached : stream.collector.resultLimitReached with
  | true =>
      simp only [hreached] at hrun
      cases hrun
      exact advances_reached hwalking hreached
  | false =>
      simp only [hreached] at hrun
      exact h stream stream' hwalking hreached hrun

/-! ## Rows -/

/-- The userset subject of a row. -/
def rowFormulas (r : Relationship) : Set (Formula RelKey) :=
  {f | ∃ key, r.subject.userset? = some key ∧ f = .atom key}

/-- The subjects of the row that were asked for have been seen. -/
def SawRow (lookup : SubjectLookup) (stream : SubjectStream) (r : Relationship) : Prop :=
  ∀ subject, subject.OfType lookup.subjectType.value → r.subject.Direct subject →
    subject ∈ stream.collector.seenSubjects

omit [StoreHasher] in
theorem SawRow.mono
    {r : Relationship}
    (h : lookup.SawRow stream r)
    (hgrows : stream.Grows stream') :
    lookup.SawRow stream' r :=
  fun subject htype hdirect => hgrows.seenSubjects (h subject htype hdirect)

omit [StoreHasher] in
/-- The rest of a stream grows where its collector does. -/
theorem grows_of_collector
    {collector : LookupSubjectCollector}
    (h : stream.collector.Grows collector) :
    stream.Grows { stream with collector := collector } :=
  ⟨rfl, rfl, h.subjectType, h.limits, h.seenSubjects, h.seenUsersets, h.subjects⟩

/-- Whoever is stored on the key holds the permission, where candidates are not checked. -/
def OpensStored (lookup : SubjectLookup) (key : RelKey) (verifyCandidates : Bool) : Prop :=
  verifyCandidates = false → ∀ user, lookup.Grants user (lookup.storedFormula user key) →
    lookup.Holds user

section Bodies

variable {nested : Streaming.NestedStream} {key : RelKey} {verifyCandidates : Bool}
  (hgrounds : lookup.Grounds)
  (hnested : ∀ (member : RelKey) (verify : Bool), (verify = false → lookup.Opens member) →
    lookup.Walks stack (lookup.Visiting stack member)
      (nested member.object member.relation verify))
include hgrounds hnested

/-- A userset subject is offered, and walked where it is new. -/
theorem advances_streamUserset
    {r : Relationship} {target : ObjectRef} {relation : RelationName}
    (hlive : r ∈ lookup.snapshot.relationships.liveSet)
    (hobject : r.resource.toObject = key.object)
    (hrelation : r.relation = key.relation)
    (hsubject : r.subject = .userset target relation)
    (hopens : lookup.OpensStored key verifyCandidates)
    (hwalking : lookup.Walking stack stream)
    (hopen : stream.collector.resultLimitReached = false)
    (h : (do
      let walk ← Streaming.ofCollecting (LookupSubjectCollector.collectUsersetCandidate
        target.toObject relation verifyCandidates)
      if walk then nested target.toObject relation verifyCandidates else return () :
        Streaming Unit) stream = (.ok (), stream')) :
    lookup.Advances stack (lookup.Covering stack (fun _ => rowFormulas r)) stream stream' ∧
      lookup.SawRow stream' r := by
  have huserset : r.subject.userset? = some ⟨target.toObject, relation⟩ := by
    rw [hsubject]
    rfl
  have hnotUser : target.toObject.namespaceName ≠ "user" :=
    hgrounds.usersets r hlive _ huserset
  obtain ⟨walk, after, hoffer, h⟩ := Action.bind_eq_ok.mp h
  obtain ⟨collector, hcollect, rfl⟩ := Action.zoom_eq_ok.mp hoffer
  have hgrows := LookupSubjectCollector.respects_collectUsersetCandidate target.toObject relation
    verifyCandidates stream.collector
  rw [hcollect] at hgrows
  have hgrows := grows_of_collector hgrows
  obtain ⟨hcollected, hseen, henters⟩ :=
    LookupSubjectCollector.collected_collectUsersetCandidate hgrounds.view hgrounds.schema
      hgrounds.stratified hwalking.collected hopen hnotUser
      (fun hverify => hopens hverify _ (hgrounds.grants_direct hlive hobject hrelation
        (hsubject ▸ Or.inl rfl))) hcollect
  have hafter : lookup.Walking stack { stream with collector := collector } :=
    ⟨hwalking.context, hcollected⟩
  have hsaw : lookup.SawRow { stream with collector := collector } r := by
    intro subject htype hdirect
    rw [hsubject] at hdirect
    rcases hdirect with rfl | ⟨id, rfl, huser⟩
    · exact hseen htype.2
    · exact absurd (congrArg Object.namespaceName huser) hnotUser
  have hformulas : ∀ f ∈ rowFormulas r, f = .atom ⟨target.toObject, relation⟩ := by
    rintro f ⟨member, hmember, rfl⟩
    rw [huserset] at hmember
    cases hmember
    rfl
  cases walk with
  | false =>
      cases h
      refine ⟨⟨hgrows, hafter, fun hopen' subject _ _ => ?_⟩, hsaw⟩
      rcases henters hopen' with ⟨hwalk, _⟩ | ⟨_, hmem, hsame⟩
      · cases hwalk
      · have hkeys : collector.seenKeys = stream.collector.seenKeys := by
          unfold LookupSubjectCollector.seenKeys
          rw [hsame]
        unfold Covering
        rw [hkeys]
        refine covers_of_grounded (fun f hf => ?_)
        rw [hformulas f hf]
        exact .atom (Or.inr hmem)
  | true =>
      have hmembers : verifyCandidates = false → lookup.Opens ⟨target.toObject, relation⟩ :=
        fun hverify user hmember => hopens hverify user
          (grants_userset hlive hobject hrelation huserset hmember)
      have hvisit := hnested ⟨target.toObject, relation⟩ verifyCandidates hmembers _ _ hafter h
      refine ⟨⟨hgrows.trans hvisit.grows, hvisit.walking, fun hopen' subject htype hnew => ?_⟩,
        hsaw.mono hvisit.grows⟩
      have hstill : collector.resultLimitReached = false :=
        Bool.eq_false_iff.mpr (fun hreached => by
          rw [hvisit.grows.resultLimitReached hreached] at hopen'
          cases hopen')
      have hcover : Covers (lookup.snapshot.system subject) (expandCut stack)
          stream.collector.seenKeys stream'.collector.seenKeys
          {.atom ⟨target.toObject, relation⟩} := by
        have hlooked := hvisit.looked hopen' subject htype hnew
        rcases henters hstill with ⟨_, hsame | hinsert⟩ | ⟨hwalk, _⟩
        · have hkeys : collector.seenKeys = stream.collector.seenKeys := by
            unfold LookupSubjectCollector.seenKeys
            rw [hsame]
          rw [← hkeys]
          exact Visits.covers hlooked
        · have hkeys : collector.seenKeys =
              insert ⟨target.toObject, relation⟩ stream.collector.seenKeys := by
            ext member
            obtain ⟨object, name⟩ := member
            simp [LookupSubjectCollector.seenKeys, hinsert]
          refine Visits.covers_of_insert ?_
          rw [← hkeys]
          exact hlooked
        · cases hwalk
      refine hcover.imp (fun W hground f hf => ?_)
      rw [hformulas f hf]
      exact hground _ rfl

/-- A row is offered. -/
theorem advances_streamRow
    {ref : RelationshipRef} {r : Relationship}
    (href : ref.relationship = .ok r)
    (hlive : r ∈ lookup.snapshot.relationships.liveSet)
    (hobject : r.resource.toObject = key.object)
    (hrelation : r.relation = key.relation)
    (hopens : lookup.OpensStored key verifyCandidates)
    (hwalking : lookup.Walking stack stream)
    (hopen : stream.collector.resultLimitReached = false)
    (h : Streaming.streamRow nested verifyCandidates ref stream = (.ok (), stream')) :
    lookup.Advances stack (lookup.Covering stack (fun _ => rowFormulas r)) stream stream' ∧
      lookup.SawRow stream' r := by
  have haccess := RelationshipRef.accessors_of_relationship href
  have hd := IndexedRelationshipStore.relationshipFromRow_ok_iff.mp href
  unfold Streaming.streamRow at h
  rw [haccess.1] at h
  obtain ⟨subject, hsubject, h⟩ := Action.lift_bind_eq_ok.mp h
  cases hsubject
  cases hshape : r.subject with
  | userset target relation =>
      rw [hshape] at h
      exact advances_streamUserset hgrounds hnested hlive hobject hrelation hshape hopens
        hwalking hopen h
  | object target =>
      rw [hshape] at h
      have hnone : rowFormulas r = ∅ := by
        ext f
        simp [rowFormulas, hshape, SubjectRef.userset?]
      have hrelation' := hd.subjectRelation
      have htext := hd.subjectType
      have hidText := hd.subjectId
      rw [hshape] at hrelation' htext hidText
      rw [hnone]
      have hdirect : ref.directUserSubjectId =
          if target.objectType.value = "user" then some target.objectId.value else none := by
        unfold RelationshipRef.directUserSubjectId
        rw [Option.map_eq_none_iff.mp hrelation', RelationshipRef.text_of_resolve htext,
          RelationshipRef.text_of_resolve hidText]
        by_cases huser : target.objectType.value = "user" <;> simp [SubjectRef.objectRef, huser]
      simp only [SubjectRef.userset?, Option.map_none] at h
      by_cases huser : target.objectType.value = "user"
      · rw [if_pos huser] at hdirect
        simp only [hdirect] at h
        obtain ⟨collector, hcollect, rfl⟩ := Action.zoom_eq_ok.mp h
        have hgrows := LookupSubjectCollector.respects_collectUserCandidate target.objectId.value
          verifyCandidates stream.collector
        have hoffered := LookupSubjectCollector.saw_collectUserCandidate target verifyCandidates
          stream.collector
        rw [hcollect] at hgrows hoffered
        obtain ⟨hcollected, hsame⟩ :=
          LookupSubjectCollector.collected_collectUserCandidate hgrounds.view hgrounds.schema
            hgrounds.stratified hwalking.collected hopen
            (fun hverify => hopens hverify _ (hgrounds.grants_direct hlive hobject hrelation
              (hshape ▸ ⟨_, rfl, congrArg (Object.mk · _) huser⟩))) hcollect
        refine ⟨⟨grows_of_collector hgrows, ⟨hwalking.context, hcollected⟩,
          fun _ subject _ _ => ?_⟩, ?_⟩
        · have hkeys : collector.seenKeys = stream.collector.seenKeys := by
            unfold LookupSubjectCollector.seenKeys
            rw [hsame]
          unfold Covering
          rw [hkeys]
          exact covers_of_grounded (fun _ hf => (by cases hf))
        · intro subject htype hmatch
          rw [hshape] at hmatch
          obtain ⟨id, rfl, hid⟩ := hmatch
          have hidValue : id = target.objectId.value := (congrArg Object.id hid).symm
          rw [hidValue]
          exact hoffered huser (hcollected.subjectType ▸ htype)
      · rw [if_neg huser] at hdirect
        simp only [hdirect] at h
        obtain ⟨_, _, h⟩ := Action.lift_bind_eq_ok.mp h
        cases h
        refine ⟨advances_refl hwalking, fun subject _ hmatch => ?_⟩
        rw [hshape] at hmatch
        obtain ⟨_, _, hid⟩ := hmatch
        exact absurd (congrArg Object.namespaceName hid) huser

/-- The rows are offered in turn. -/
theorem advances_streamRows
    {fanout : Nat} {refs : List RelationshipRef} {rs : List Relationship}
    (hrefs : RefsDenote refs rs)
    (hrows : ∀ r ∈ rs, r ∈ lookup.snapshot.relationships.liveSet ∧
      r.resource.toObject = key.object ∧ r.relation = key.relation)
    (hopens : lookup.OpensStored key verifyCandidates)
    (hwalking : lookup.Walking stack stream)
    (h : Streaming.streamRows nested verifyCandidates fanout refs stream = (.ok (), stream')) :
    lookup.Advances stack (lookup.Covering stack (fun _ => {f | ∃ r ∈ rs, f ∈ rowFormulas r}))
        stream stream' ∧
      (stream'.collector.resultLimitReached = false → ∀ r ∈ rs, lookup.SawRow stream' r) := by
  induction hrefs generalizing fanout stream with
  | nil =>
      cases h
      refine ⟨(advances_refl hwalking).imp (fun user seen seen' hcovers => ?_),
        fun _ r hr => (by cases hr)⟩
      exact Covers.imp hcovers (fun W _ f hf => by
        obtain ⟨r, hr, _⟩ := hf
        cases hr)
  | @cons ref r rest rs href _ ih =>
      rw [Streaming.streamRows, Streaming.resultLimitReached, Action.bind_apply,
        Action.get_bind_apply] at h
      cases hreached : stream.collector.resultLimitReached with
      | true =>
          simp only [hreached] at h
          cases h
          refine ⟨advances_reached hwalking hreached, fun hopen => ?_⟩
          rw [hreached] at hopen
          cases hopen
      | false =>
          simp only [hreached] at h
          obtain ⟨next, counted, hcount, htail⟩ := Action.bind_eq_ok.mp h
          obtain ⟨_, offered, hrow, htail⟩ := Action.bind_eq_ok.mp htail
          obtain ⟨context, hcall, hcounted⟩ := Action.zoom_eq_ok.mp hcount
          obtain ⟨hsame, _, _⟩ := Evaluation.incrementFanout_eq_ok hcall
          rw [hsame] at hcounted
          have hcounted : counted = stream := hcounted
          rw [hcounted] at hrow
          obtain ⟨hlive, hobject, hrelation⟩ := hrows r List.mem_cons_self
          obtain ⟨hfirst, hsaw⟩ := advances_streamRow hgrounds hnested href hlive hobject
            hrelation hopens hwalking hreached hrow
          obtain ⟨hrest, hsawRest⟩ := ih
            (fun other hother => hrows other (List.mem_cons_of_mem _ hother)) hfirst.walking htail
          refine ⟨(hfirst.trans hrest).imp (fun user seen seen' hcovers => ?_), fun hopen => ?_⟩
          · refine Covers.imp hcovers (fun W hground f hf => hground f ?_)
            obtain ⟨other, hother, hf⟩ := hf
            rcases List.mem_cons.mp hother with rfl | hother
            · exact Or.inl hf
            · exact Or.inr ⟨other, hother, hf⟩
          · intro other hother
            rcases List.mem_cons.mp hother with rfl | hother
            · exact hsaw.mono hrest.grows
            · exact hsawRest hopen other hother

end Bodies

end SubjectLookup

end Walks

end SimpleZanzibar
