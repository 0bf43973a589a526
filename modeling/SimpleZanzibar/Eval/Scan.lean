import SimpleZanzibar.Store.LimitedQuery
import SimpleZanzibar.Eval.System
import SimpleZanzibar.Eval.LookupSubjects

/-!
# Scans of the stored subjects

`expand` and `lookup_subjects` read the rows of a relation with a limit of one row more
than a step may fan out to, so that the row in excess is reported.  A scan that ends
without that report has seen every live row iff no live row hides behind deleted ones.
-/

namespace SimpleZanzibar

/-- The leaf that a subject becomes, where it is a user or a userset. -/
def SubjectRef.leaf? : SubjectRef → Option ExpandedUserset
  | .object target =>
      if target.objectType.value = "user" then some (.user target.objectId.value) else none
  | .userset target relation => some (.userset target.toObject ⟨relation.value⟩)

/-- A reference expands to the leaf of its subject. -/
theorem RelationshipRef.expandedSubject_eq_ok
    {ref : RelationshipRef} {r : Relationship} {tree : ExpandedUserset}
    (h : ref.relationship = .ok r)
    (htree : ref.expandedSubject = .ok tree) :
    r.subject.leaf? = some tree := by
  have hd := IndexedRelationshipStore.relationshipFromRow_ok_iff.mp h
  have hrelation := hd.subjectRelation
  have htype := hd.subjectType
  have hobject := hd.subjectId
  unfold expandedSubject at htree
  cases hsubject : r.subject with
  | object target =>
      rw [hsubject] at hrelation htype hobject
      simp only [Option.map_eq_none_iff.mp hrelation, text_of_resolve htype,
        text_of_resolve hobject] at htree
      split at htree
      · next huser =>
          cases htree
          exact if_pos huser
      · cases htree
  | userset target relation =>
      rw [hsubject] at hrelation htype hobject
      obtain ⟨id, hid, hresolve⟩ := Option.map_eq_some_iff.mp hrelation
      simp only [hid, text_of_resolve hresolve, text_of_resolve htype,
        text_of_resolve hobject] at htree
      cases htree
      rfl

namespace EvaluationContext

/-- The query limit of a scan. -/
theorem fanoutQueryLimit_get
    (context : EvaluationContext) :
    context.fanoutQueryLimit.get = context.limits.maxFanoutPerStep.get + 1 := by
  have hlt := context.limits.maxFanoutPerStep.lt
  have hfits : 0 < context.limits.maxFanoutPerStep.get + 1 ∧
      context.limits.maxFanoutPerStep.get + 1 ≤ usizeMax := by
    unfold usizeMax
    omega
  unfold fanoutQueryLimit NonZeroUsize.new
  rw [dif_pos hfits]

end EvaluationContext

namespace Evaluation

variable {context context' : EvaluationContext}

/-- A counted step stays within the limit. -/
theorem incrementFanout_eq_ok
    {current next : Nat}
    (h : incrementFanout current context = (.ok next, context')) :
    context' = context ∧ next = min (current + 1) u32Max ∧
      next ≤ context.limits.maxFanoutPerStep.get := by
  unfold incrementFanout at h
  obtain ⟨read, after, hget, h⟩ := Action.bind_eq_ok.mp h
  cases hget
  split at h
  · cases h
  · next hle =>
      cases h
      exact ⟨rfl, rfl, Nat.le_of_not_lt hle⟩

/-- The leaves of a scan stand for all rows, and there are no more rows than the limit
unless the limit is the largest number there is. -/
theorem expandRows_eq_ok
    {fanout : Nat} {refs : List RelationshipRef} {users : List ExpandedUserset}
    (h : expandRows fanout refs context = (.ok users, context'))
    (hfanout : fanout ≤ context.limits.maxFanoutPerStep.get) :
    context' = context ∧
      List.Forall₂ (fun ref user => ref.expandedSubject = .ok user) refs users ∧
      (fanout + refs.length ≤ context.limits.maxFanoutPerStep.get ∨
        context.limits.maxFanoutPerStep.get = u32Max) := by
  induction refs generalizing fanout users with
  | nil =>
      cases h
      exact ⟨rfl, List.Forall₂.nil, Or.inl hfanout⟩
  | cons ref rest ih =>
      unfold expandRows at h
      obtain ⟨next, after, hnext, hrest⟩ := Action.bind_eq_ok.mp h
      obtain ⟨rfl, hvalue, hle⟩ := incrementFanout_eq_ok hnext
      obtain ⟨user, huser, hrest⟩ := Action.lift_bind_eq_ok.mp hrest
      obtain ⟨users', after', husers, hrest⟩ := Action.bind_eq_ok.mp hrest
      cases hrest
      obtain ⟨rfl, hrows, hcount⟩ := ih husers hle
      refine ⟨rfl, List.Forall₂.cons huser hrows, ?_⟩
      have hlt := context'.limits.maxFanoutPerStep.lt
      rw [List.length_cons]
      unfold u32Max at hvalue hcount ⊢
      omega

end Evaluation

section Scans

variable [StoreHasher]

/-- A scan that did not meet a row in excess yields every live row once. -/
theorem RelationshipStoreView.Inv.yieldsOnce_of_scan
    {view : RelationshipStoreView} {resource : ObjectRef} {relation : RelationName}
    {maxFanout : Nat} {limit : QueryLimit}
    (hinv : view.Inv)
    (hlimit : limit.get = maxFanout + 1)
    (hscan : view.ScanComplete resource relation maxFanout limit)
    (hcount : (view.resourceRelation resource relation limit).length ≤ maxFanout ∨
      maxFanout = u32Max) :
    YieldsOnce (view.resourceRelation resource relation limit)
      (view.liveOn resource relation) := by
  rcases hcount with hcount | hmax
  · rcases hscan with hmore | hall
    · omega
    · exact hall
  · have hinserted : (view.insertedOn resource relation).length ≤ u32Max := by
      unfold RelationshipStoreView.insertedOn RelationshipStoreView.insertedRows
      cases hdelta : view.delta with
      | none =>
          exact Nat.zero_le _
      | some delta =>
          exact (List.length_filter_le _ _).trans
            (hinv.overlay delta hdelta).1.writable.inv.length_rows_le_u32Max
    have hcheckpoint : (view.checkpointOn resource relation).length ≤ u32Max :=
      (List.length_filter_le _ _).trans hinv.checkpoint.length_rows_le_u32Max
    rw [hinv.yieldsOnce_limited_iff (by omega)]
    unfold RelationshipStoreView.hiddenRows
    rw [List.drop_of_length_le (by omega)]
    rfl

/-- The tree of the stored subjects has one leaf for each live row. -/
def SeesRows (view : RelationshipStoreView) (resource : ObjectRef) (relation : RelationName)
    (tree : ExpandedUserset) : Prop :=
  ∃ rs users, tree = .union users ∧ rs.Nodup ∧
    rs.toFinset = view.liveOn resource relation ∧
    List.Forall₂ (fun r user => r.subject.leaf? = some user) rs users

omit [StoreHasher] in
theorem forall₂_leaf
    {refs : List RelationshipRef} {rs : List Relationship} {users : List ExpandedUserset}
    (hrefs : RefsDenote refs rs)
    (husers : List.Forall₂ (fun ref user => ref.expandedSubject = .ok user) refs users) :
    List.Forall₂ (fun (r : Relationship) user => r.subject.leaf? = some user) rs users := by
  induction hrefs generalizing users with
  | nil =>
      cases husers
      exact List.Forall₂.nil
  | cons hr _ ih =>
      cases husers with
      | cons huser hrest =>
          exact List.Forall₂.cons (RelationshipRef.expandedSubject_eq_ok hr huser) (ih hrest)

/-- An expansion of the stored subjects that returns has seen every live row, where the
scan is complete. -/
theorem Evaluation.expandThis_eq_ok
    {context context' : EvaluationContext} {object : Object} {relation : RelationName}
    {tree : ExpandedUserset}
    (h : expandThis object relation context = (.ok tree, context'))
    (hinv : context.snapshot.relationships.Inv)
    (hscan : ∀ resource, ObjectRef.tryFrom object = .ok resource →
      context.snapshot.relationships.ScanComplete resource relation
        context.limits.maxFanoutPerStep.get context.fanoutQueryLimit) :
    context' = context ∧ ∃ resource, ObjectRef.tryFrom object = .ok resource ∧
      SeesRows context.snapshot.relationships resource relation tree := by
  unfold expandThis ofDomain at h
  obtain ⟨resource, hresource, h⟩ := Action.lift_bind_eq_ok.mp h
  have hresource := mapError_eq_ok hresource
  rw [Action.get_bind_apply] at h
  obtain ⟨users, after, hrows, h⟩ := Action.bind_eq_ok.mp h
  cases h
  obtain ⟨rfl, husers, hcount⟩ := expandRows_eq_ok hrows (Nat.zero_le _)
  rw [Nat.zero_add] at hcount
  obtain ⟨rs, hrefs, hnodup, hset⟩ := hinv.yieldsOnce_of_scan context'.fanoutQueryLimit_get
    (hscan resource hresource) hcount
  exact ⟨rfl, resource, hresource, rs, users, rfl, hnodup, hset, forall₂_leaf hrefs husers⟩

end Scans

end SimpleZanzibar
