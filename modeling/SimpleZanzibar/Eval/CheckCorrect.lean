import SimpleZanzibar.Eval.ContextCorrect
import SimpleZanzibar.Eval.System

/-!
# What a check computes

Every evaluation step answers its part of the equations under the cut set of the
stack: the keys that are active and therefore denied.  The theorems are stated for any
answer relation that obeys the laws of a depth-first search with a memo, so that they
serve searches without memo and with one.
-/

namespace SimpleZanzibar

open BoolSystem EvaluationContext

def Membership.ofBool : Bool → Membership
  | true => .allowed
  | false => .denied

@[simp] theorem Membership.ofBool_eq_allowed_iff
    {b : Bool} :
    Membership.ofBool b = .allowed ↔ b = true := by
  cases b <;> simp [Membership.ofBool]

@[simp] theorem Membership.isAllowed_ofBool
    (b : Bool) :
    (Membership.ofBool b).isAllowed = b := by
  cases b <;> rfl

section Keys

variable [StoreHasher]

/-- The memo key of a nested key. -/
def memoKeyOf (snapshot : PublishedSnapshot) (user : User) (key : RelKey) : CheckMemoKey :=
  match snapshot.relationships.storeCheckKey key.object key.relation.value user with
  | some storeKey => .store storeKey
  | none => .publicName key.object key.relation user

theorem fromCheckKey_fromRelationName
    (snapshot : PublishedSnapshot) (user : User) (key : RelKey) :
    CheckMemoKey.fromCheckKey
        (CheckKey.fromRelationName snapshot key.object key.relation user) =
      .ok (memoKeyOf snapshot user key) := by
  unfold CheckKey.fromRelationName memoKeyOf
  cases snapshot.relationships.storeCheckKey key.object key.relation.value user with
  | none =>
      rfl
  | some storeKey =>
      rfl

/-- The subject symbols of a user determine the user. -/
theorem storeSubjectKey_injective
    {store : IndexedRelationshipStore} {user user' : User}
    {subject : SymbolId × SymbolId × Option SymbolId}
    (h : store.storeSubjectKey user = some subject)
    (h' : store.storeSubjectKey user' = some subject) :
    user = user' := by
  have hsame : ∀ {a b : String} {id : SymbolId}, store.interner.lookup a = some id →
      store.interner.lookup b = some id → a = b :=
    fun ha hb => IdentifierInterner.lookup_injective ha hb
  cases user with
  | userId id =>
      obtain ⟨subjectType, _, h⟩ := Option.bind_eq_some_iff.mp h
      obtain ⟨subjectId, hid, h⟩ := Option.bind_eq_some_iff.mp h
      cases h
      cases user' with
      | userId id' =>
          obtain ⟨subjectType', _, h'⟩ := Option.bind_eq_some_iff.mp h'
          obtain ⟨subjectId', hid', h'⟩ := Option.bind_eq_some_iff.mp h'
          cases h'
          rw [hsame hid hid']
      | userset object' relation' =>
          obtain ⟨subjectType', _, h'⟩ := Option.bind_eq_some_iff.mp h'
          obtain ⟨subjectId', _, h'⟩ := Option.bind_eq_some_iff.mp h'
          obtain ⟨subjectRelation', _, h'⟩ := Option.bind_eq_some_iff.mp h'
          cases h'
  | userset object relation =>
      obtain ⟨subjectType, htype, h⟩ := Option.bind_eq_some_iff.mp h
      obtain ⟨subjectId, hid, h⟩ := Option.bind_eq_some_iff.mp h
      obtain ⟨subjectRelation, hrelation, h⟩ := Option.bind_eq_some_iff.mp h
      cases h
      cases user' with
      | userId id' =>
          obtain ⟨subjectType', _, h'⟩ := Option.bind_eq_some_iff.mp h'
          obtain ⟨subjectId', _, h'⟩ := Option.bind_eq_some_iff.mp h'
          cases h'
      | userset object' relation' =>
          obtain ⟨subjectType', htype', h'⟩ := Option.bind_eq_some_iff.mp h'
          obtain ⟨subjectId', hid', h'⟩ := Option.bind_eq_some_iff.mp h'
          obtain ⟨subjectRelation', hrelation', h'⟩ := Option.bind_eq_some_iff.mp h'
          cases h'
          obtain ⟨namespaceName, id⟩ := object
          obtain ⟨namespaceName', id'⟩ := object'
          obtain ⟨name⟩ := relation
          obtain ⟨name'⟩ := relation'
          cases hsame htype htype'
          cases hsame hid hid'
          cases hsame hrelation hrelation'
          rfl

/-- The symbols of a check determine it. -/
theorem storeCheckKey_injective
    {view : RelationshipStoreView}
    {object object' : Object} {relation relation' : String} {user user' : User}
    {key : StoreCheckKey}
    (h : view.storeCheckKey object relation user = some key)
    (h' : view.storeCheckKey object' relation' user' = some key) :
    object = object' ∧ relation = relation' ∧ user = user' := by
  unfold RelationshipStoreView.storeCheckKey at h h'
  by_cases hdelta : view.delta.isSome = true
  · rw [if_pos hdelta] at h
    cases h
  · rw [if_neg hdelta] at h h'
    obtain ⟨relationId, hrelation, h⟩ := Option.bind_eq_some_iff.mp h
    obtain ⟨⟨subjectType, subjectId, subjectRelation⟩, hsubject, h⟩ :=
      Option.bind_eq_some_iff.mp h
    obtain ⟨objectType, htype, h⟩ := Option.bind_eq_some_iff.mp h
    obtain ⟨objectId, hid, h⟩ := Option.bind_eq_some_iff.mp h
    cases h
    obtain ⟨relationId', hrelation', h'⟩ := Option.bind_eq_some_iff.mp h'
    obtain ⟨⟨subjectType', subjectId', subjectRelation'⟩, hsubject', h'⟩ :=
      Option.bind_eq_some_iff.mp h'
    obtain ⟨objectType', htype', h'⟩ := Option.bind_eq_some_iff.mp h'
    obtain ⟨objectId', hid', h'⟩ := Option.bind_eq_some_iff.mp h'
    cases h'
    refine ⟨?_, IdentifierInterner.lookup_injective hrelation hrelation',
      storeSubjectKey_injective hsubject hsubject'⟩
    obtain ⟨namespaceName, id⟩ := object
    obtain ⟨namespaceName', id'⟩ := object'
    cases IdentifierInterner.lookup_injective htype htype'
    cases IdentifierInterner.lookup_injective hid hid'
    rfl

/-- Memo keys of different checks are different. -/
theorem memoKeyOf_injective
    {snapshot : PublishedSnapshot} {user user' : User} {key key' : RelKey}
    (h : memoKeyOf snapshot user key = memoKeyOf snapshot user' key') :
    user = user' ∧ key = key' := by
  unfold memoKeyOf at h
  obtain ⟨object, relation⟩ := key
  obtain ⟨object', relation'⟩ := key'
  split at h
  · next storeKey hstore =>
      split at h
      · next storeKey' hstore' =>
          cases h
          obtain ⟨hobject, hrelation, huser⟩ := storeCheckKey_injective hstore hstore'
          cases hobject
          cases Identifier.ext hrelation
          exact ⟨huser, rfl⟩
      · cases h
  · split at h
    · cases h
    · cases h
      exact ⟨rfl, rfl⟩

/-- Recursion keys of different relations are different. -/
theorem fromRelationName_injective
    {snapshot : PublishedSnapshot} {user : User} {key key' : RelKey}
    (h : CheckKey.fromRelationName snapshot key.object key.relation user =
      CheckKey.fromRelationName snapshot key'.object key'.relation user) :
    key = key' := by
  have hmemo := fromCheckKey_fromRelationName snapshot user key
  rw [h, fromCheckKey_fromRelationName] at hmemo
  exact (memoKeyOf_injective (Except.ok.inj hmemo)).2.symm

/-- The keys that the stack cuts. -/
def cutSet (snapshot : PublishedSnapshot) (user : User) (stack : List CheckKey) : Set RelKey :=
  {key | CheckKey.fromRelationName snapshot key.object key.relation user ∈ stack}

/-- Pushing a key cuts it. -/
theorem cutSet_cons
    (snapshot : PublishedSnapshot) (user : User) (key : RelKey) (stack : List CheckKey) :
    cutSet snapshot user
        (CheckKey.fromRelationName snapshot key.object key.relation user :: stack) =
      insert key (cutSet snapshot user stack) := by
  ext other
  simp only [cutSet, Set.mem_ofPred_eq, List.mem_cons, Set.mem_insert_iff]
  constructor
  · rintro (h | h)
    · exact Or.inl (fromRelationName_injective h)
    · exact Or.inr h
  · rintro (rfl | h)
    · exact Or.inl rfl
    · exact Or.inr h

end Keys

/-- An answer relation for each user, with the laws of a search that shares one memo
between users. -/
structure Search [StoreHasher] (snapshot : PublishedSnapshot) where
  Context : User → Set RelKey → RelKey → Prop
  Answer : User → Set RelKey → RelKey → Formula RelKey → Bool → Prop
  memoised : Prop
  Memo : User → RelKey → Bool → Prop
  laws : ∀ user, AnswerLaws (snapshot.system user) (Context user) (Answer user) memoised
    (Memo user)

namespace Search

variable [StoreHasher] {snapshot : PublishedSnapshot} (search : Search snapshot)

/-- A context of the snapshot whose index and memo are in order. -/
structure Valid (context : EvaluationContext) : Prop where
  reads : context.snapshot = snapshot
  active : context.ActiveInv
  memo : ∀ memo, context.checkMemo = some memo → search.memoised ∧
    ∀ user key entry, memo.entries.lookup (memoKeyOf snapshot user key) = some entry →
      ∃ b, entry.membership = .ofBool b ∧ search.Memo user key b

/-- An evaluation step ended: it kept the context valid and its stack unchanged, and its
answer, if it has one, satisfies `post`. -/
structure Returns (context : EvaluationContext) (post : Bool → Prop)
    (result : Except ZanzibarError Membership) (context' : EvaluationContext) : Prop where
  keeps : Keeps context context'
  valid : search.Valid context'
  answer : ∀ membership, result = .ok membership → ∃ b, membership = .ofBool b ∧ post b

variable {search}

theorem Returns.error
    {context context' : EvaluationContext} {post : Bool → Prop} {e : ZanzibarError}
    (hkeeps : Keeps context context')
    (hvalid : search.Valid context') :
    search.Returns context post (.error e) context' :=
  ⟨hkeeps, hvalid, fun _ h => (by cases h)⟩

theorem Returns.ok
    {context context' : EvaluationContext} {post : Bool → Prop} {b : Bool}
    (hkeeps : Keeps context context')
    (hvalid : search.Valid context')
    (h : post b) :
    search.Returns context post (.ok (.ofBool b)) context' := by
  refine ⟨hkeeps, hvalid, ?_⟩
  intro membership hm
  cases hm
  exact ⟨b, rfl, h⟩

/-- Later steps run from a context that has the same stack. -/
theorem Returns.trans
    {a b c : EvaluationContext} {post : Bool → Prop}
    {result : Except ZanzibarError Membership}
    (hkeeps : Keeps a b)
    (h : search.Returns b post result c) :
    search.Returns a post result c :=
  ⟨hkeeps.trans h.keeps, h.valid, h.answer⟩

theorem Returns.imp
    {context context' : EvaluationContext} {post post' : Bool → Prop}
    {result : Except ZanzibarError Membership}
    (h : search.Returns context post result context')
    (hpost : ∀ b, post b → post' b) :
    search.Returns context post' result context' := by
  refine ⟨h.keeps, h.valid, ?_⟩
  intro membership hm
  obtain ⟨b, hb, hp⟩ := h.answer membership hm
  exact ⟨b, hb, hpost b hp⟩

/-- Sequencing of evaluation steps that do not change the stack. -/
theorem Returns.bind
    {x : Evaluation Membership} {f : Membership → Evaluation Membership}
    {context : EvaluationContext} {post post' : Bool → Prop}
    (hx : x.Leaves context (search.Returns context post))
    (hf : ∀ b context', Keeps context context' → search.Valid context' → post b →
      (f (.ofBool b)).Leaves context' (search.Returns context' post')) :
    (x >>= f).Leaves context (search.Returns context post') := by
  apply Action.Leaves.bind hx
  · intro membership context' h
    obtain ⟨b, rfl, hpost⟩ := h.answer membership rfl
    exact (hf b context' h.keeps h.valid hpost).imp (fun _ _ => Returns.trans h.keeps)
  · intro e context' h
    exact Returns.error h.keeps h.valid

/-- Nested keys are answered under the cut set of the stack, in every context in which a
part of the body of `t` is evaluated. -/
def NestedAnswered (search : Search snapshot) (user : User) (nested : Evaluation.Nested)
    (fits : RelKey → Evaluation.NestedBody → Prop) : Prop :=
  ∀ (context : EvaluationContext) (t k : RelKey) (body : Evaluation.NestedBody),
    search.Valid context →
    search.Context user (cutSet snapshot user context.checkStack) t →
    Formula.Refers (snapshot.system user t) k →
    fits k body →
    (nested k.object k.relation body).Leaves context
      (search.Returns context (search.Answer user (cutSet snapshot user context.checkStack) t
        (.atom k)))

/-- The way in which a body is looked up leads to the definition of the key. -/
def BodyFits (snapshot : PublishedSnapshot) (key : RelKey) : Evaluation.NestedBody → Prop
  | .relationName => True
  | .relationId id => ∃ definition, snapshot.schema.definitionOf key = some definition ∧
      snapshot.schema.resolver.relationById id = some definition
  | .plain => ∃ definition, snapshot.schema.definitionOf key = some definition ∧
      definition.usersetRewrite = none

/-- Counting a fanout step leaves the context alone. -/
theorem leaves_incrementFanout
    {context : EvaluationContext} {f : Nat → Evaluation Membership} {post : Bool → Prop}
    (current : Nat)
    (hvalid : search.Valid context)
    (h : ∀ next, (f next).Leaves context (search.Returns context post)) :
    (Evaluation.incrementFanout current >>= f).Leaves context (search.Returns context post) := by
  have hstep : (Evaluation.incrementFanout current).Leaves context
      (fun _ context' => context' = context) := by
    unfold Evaluation.incrementFanout Action.Leaves
    simp only [Action.bind_apply, Action.get_apply]
    split <;> rfl
  apply Action.Leaves.bind hstep
  · rintro next _ rfl
    exact h next
  · rintro e _ rfl
    exact Returns.error (Keeps.refl _) hvalid

/-- The rows that an unlimited query yields hold the stored usersets of the key. -/
theorem exists_rows_of_key
    {view : RelationshipStoreView}
    (hview : view.Inv)
    (resource : ObjectRef) (relation : RelationName) :
    ∃ rs, RefsDenote (view.resourceRelation resource relation unboundedQueryLimit) rs ∧
      ∀ k, k ∈ storedUsersets view.liveSet ⟨resource.toObject, relation⟩ ↔
        ∃ r ∈ rs, r.subject.userset? = some k := by
  obtain ⟨rs, hrs, _, hset⟩ := hview.yieldsOnce_resourceRelation resource relation
  refine ⟨rs, hrs, ?_⟩
  intro k
  rw [mem_storedUsersets_iff]
  have hmem : ∀ r, r ∈ rs ↔ r ∈ view.liveSet ∧ OnRelation resource relation r := by
    intro r
    rw [← List.mem_toFinset, hset, Finset.mem_filter]
  constructor
  · rintro ⟨r, hr, hresource, hrelation, hk⟩
    exact ⟨r, (hmem r).mpr ⟨hr, ObjectRef.toObject_injective hresource, hrelation⟩, hk⟩
  · rintro ⟨r, hr, hk⟩
    obtain ⟨hlive, hresource, hrelation⟩ := (hmem r).mp hr
    exact ⟨r, hlive, by rw [hresource], hrelation, hk⟩

section Expressions

variable {user : User} {nested : Evaluation.Nested}
  (hnested : search.NestedAnswered user nested (BodyFits snapshot))
include hnested

/-- The loop over the rows of a relation checks their userset subjects one by one. -/
theorem checkUsersets_answered
    (relationOf : RelationName → RelationName)
    {refs : List RelationshipRef} {rs : List Relationship}
    (hrefs : RefsDenote refs rs)
    (fanout : Nat) {context : EvaluationContext} {t : RelKey}
    (hvalid : search.Valid context)
    (hcontext : search.Context user (cutSet snapshot user context.checkStack) t)
    (hrefers : ∀ r ∈ rs, ∀ k, r.subject.userset? = some k →
      Formula.Refers (snapshot.system user t) ⟨k.object, relationOf k.relation⟩) :
    (Evaluation.checkUsersets nested relationOf fanout refs).Leaves context
      (search.Returns context (fun b =>
        (b = true → ∃ r ∈ rs, ∃ k, r.subject.userset? = some k ∧
          search.Answer user (cutSet snapshot user context.checkStack) t
            (.atom ⟨k.object, relationOf k.relation⟩) true) ∧
        (b = false → ∀ r ∈ rs, ∀ k, r.subject.userset? = some k →
          search.Answer user (cutSet snapshot user context.checkStack) t
            (.atom ⟨k.object, relationOf k.relation⟩) false))) := by
  induction hrefs generalizing fanout context with
  | nil =>
      exact Returns.ok (b := false) (Keeps.refl _) hvalid ⟨fun h => (by cases h), by simp⟩
  | @cons ref r refs rs href hrest ih =>
      obtain ⟨hsubject, _, _⟩ := RelationshipRef.accessors_of_relationship href
      have hrefers' : ∀ r' ∈ rs, ∀ k, r'.subject.userset? = some k →
          Formula.Refers (snapshot.system user t) ⟨k.object, relationOf k.relation⟩ :=
        fun r' hr' => hrefers r' (List.mem_cons_of_mem _ hr')
      unfold Evaluation.checkUsersets
      rw [hsubject]
      cases hk : r.subject.userset? with
      | none =>
          apply (ih fanout hvalid hcontext hrefers').imp
          intro result context' h
          refine h.imp ?_
          rintro b ⟨htrue, hfalse⟩
          refine ⟨fun hb => ?_, fun hb r' hr' k hk' => ?_⟩
          · obtain ⟨r', hr', hanswer⟩ := htrue hb
            exact ⟨r', List.mem_cons_of_mem _ hr', hanswer⟩
          · rcases List.mem_cons.mp hr' with rfl | hr'
            · rw [hk] at hk'
              cases hk'
            · exact hfalse hb r' hr' k hk'
      | some k =>
          apply leaves_incrementFanout fanout hvalid
          intro fanout'
          apply Returns.bind (hnested context t ⟨k.object, relationOf k.relation⟩ .relationName
            hvalid hcontext (hrefers r List.mem_cons_self k hk) trivial)
          intro b context' hkeeps hvalid' hanswer
          cases b with
          | true =>
              exact Returns.ok (b := true) (Keeps.refl _) hvalid'
                ⟨fun _ => ⟨r, List.mem_cons_self, k, hk, hanswer⟩, fun h => (by cases h)⟩
          | false =>
              rw [← hkeeps.checkStack] at hcontext hanswer
              have hloop := ih fanout' hvalid' hcontext hrefers'
              rw [hkeeps.checkStack] at hloop hanswer
              apply hloop.imp
              intro result context'' h
              refine h.imp ?_
              rintro b ⟨htrue, hfalse⟩
              refine ⟨fun hb => ?_, fun hb r' hr' k' hk' => ?_⟩
              · obtain ⟨r', hr', hanswer'⟩ := htrue hb
                exact ⟨r', List.mem_cons_of_mem _ hr', hanswer'⟩
              · rcases List.mem_cons.mp hr' with rfl | hr'
                · rw [hk] at hk'
                  cases hk'
                  exact hanswer
                · exact hfalse hb r' hr' k' hk'

/-- `this`: a direct row, or one of the stored usersets. -/
theorem evalThis_answered
    (hview : snapshot.relationships.Inv)
    {context : EvaluationContext} {t key : RelKey}
    (hvalid : search.Valid context)
    (hcontext : search.Context user (cutSet snapshot user context.checkStack) t)
    (hpart : PartOf (snapshot.system user) t
      (thisFormula snapshot.relationships.liveSet (directMatch snapshot.relationships user) key)) :
    (Evaluation.evalThis nested key.object key.relation user).Leaves context
      (search.Returns context
        (search.Answer user (cutSet snapshot user context.checkStack) t
          (thisFormula snapshot.relationships.liveSet
            (directMatch snapshot.relationships user) key))) := by
  have hlaws := search.laws user
  unfold Evaluation.evalThis Evaluation.ofDomain
  apply Action.Leaves.lift_bind
  · intro resource hresource
    apply Action.Leaves.lift_bind
    · intro subject hsubject
      apply Action.Leaves.get_bind
      have hobject := mapError_eq_ok hresource
      have hdirect : directMatch snapshot.relationships user key =
          snapshot.relationships.anyResourceRelationSubject resource key.relation subject := by
        unfold directMatch
        rw [hobject, mapError_eq_ok hsubject]
      rw [hvalid.reads, ← hdirect]
      cases hmatch : directMatch snapshot.relationships user key with
      | true =>
          refine Returns.ok (b := true) (Keeps.refl _) hvalid ?_
          refine hlaws.anyTrue hcontext hpart List.mem_cons_self ?_
          rw [hmatch]
          exact hlaws.const true hcontext
      | false =>
          obtain ⟨rs, hrs, hstored⟩ := exists_rows_of_key hview resource key.relation
          rw [ObjectRef.tryFrom_ok_iff.mp hobject] at hstored
          have hloop := checkUsersets_answered hnested id hrs 0 hvalid hcontext (fun r hr k hk =>
            hpart.refers k (Formula.Refers.any (List.mem_cons_of_mem _
              (List.mem_map_of_mem ((hstored k).mpr ⟨r, hr, hk⟩))) Formula.Refers.atom))
          refine hloop.imp (fun result context' h => h.imp ?_)
          rintro b ⟨htrue, hfalse⟩
          cases b with
          | true =>
              obtain ⟨r, hr, k, hk, hanswer⟩ := htrue rfl
              exact hlaws.anyTrue hcontext hpart (List.mem_cons_of_mem _
                (List.mem_map_of_mem ((hstored k).mpr ⟨r, hr, hk⟩))) hanswer
          | false =>
              refine hlaws.anyFalse hcontext hpart ?_
              intro f hf
              rcases List.mem_cons.mp hf with rfl | hf
              · rw [hmatch]
                exact hlaws.const false hcontext
              · obtain ⟨k, hk, rfl⟩ := List.mem_map.mp hf
                obtain ⟨r, hr, hk⟩ := (hstored k).mp hk
                exact hfalse rfl r hr k hk
    · intro e _
      exact Returns.error (Keeps.refl _) hvalid
  · intro e _
    exact Returns.error (Keeps.refl _) hvalid

/-- A tuple-to-userset: the computed relation of one of the stored usersets. -/
theorem evalTupleToUserset_answered
    (hview : snapshot.relationships.Inv)
    {context : EvaluationContext} {t : RelKey} {object : Object}
    {tupleset computed : RelationName}
    (hvalid : search.Valid context)
    (hcontext : search.Context user (cutSet snapshot user context.checkStack) t)
    (hpart : PartOf (snapshot.system user) t
      (.any ((storedUsersets snapshot.relationships.liveSet ⟨object, tupleset⟩).map
        (fun subject => .atom ⟨subject.object, computed⟩)))) :
    (Evaluation.evalTupleToUserset nested object tupleset computed).Leaves context
      (search.Returns context
        (search.Answer user (cutSet snapshot user context.checkStack) t
          (.any ((storedUsersets snapshot.relationships.liveSet ⟨object, tupleset⟩).map
            (fun subject => .atom ⟨subject.object, computed⟩))))) := by
  have hlaws := search.laws user
  unfold Evaluation.evalTupleToUserset Evaluation.ofDomain
  apply Action.Leaves.lift_bind
  · intro resource hresource
    apply Action.Leaves.get_bind
    rw [hvalid.reads]
    obtain ⟨rs, hrs, hstored⟩ := exists_rows_of_key hview resource tupleset
    rw [ObjectRef.tryFrom_ok_iff.mp (mapError_eq_ok hresource)] at hstored
    have hatom : ∀ r ∈ rs, ∀ k, r.subject.userset? = some k →
        (.atom ⟨k.object, computed⟩ : Formula RelKey) ∈
          (storedUsersets snapshot.relationships.liveSet ⟨object, tupleset⟩).map
            (fun subject => .atom ⟨subject.object, computed⟩) :=
      fun r hr k hk => List.mem_map.mpr ⟨k, (hstored k).mpr ⟨r, hr, hk⟩, rfl⟩
    have hloop := checkUsersets_answered hnested (fun _ => computed) hrs 0 hvalid hcontext
      (fun r hr k hk =>
        hpart.refers _ (Formula.Refers.any (hatom r hr k hk) Formula.Refers.atom))
    refine hloop.imp (fun result context' h => h.imp ?_)
    rintro b ⟨htrue, hfalse⟩
    cases b with
    | true =>
        obtain ⟨r, hr, k, hk, hanswer⟩ := htrue rfl
        exact hlaws.anyTrue hcontext hpart (hatom r hr k hk) hanswer
    | false =>
        refine hlaws.anyFalse hcontext hpart ?_
        intro f hf
        obtain ⟨k, hk, rfl⟩ := List.mem_map.mp hf
        obtain ⟨r, hr, hk⟩ := (hstored k).mp hk
        exact hfalse rfl r hr k hk
  · intro e _
    exact Returns.error (Keeps.refl _) hvalid

omit hnested in
/-- The loop of a union stops at the first operand that is allowed. -/
theorem evalUnion_answered
    {key : RelKey} {stack : List CheckKey} {answer : CompiledUsersetExpression → Bool → Prop}
    {expressions : List CompiledUsersetExpression}
    (hoperands : ∀ expression ∈ expressions, ∀ context, search.Valid context →
      context.checkStack = stack →
      (Evaluation.evalCompiledSchemaExpression nested key.object key.relation user
        expression).Leaves context (search.Returns context (answer expression)))
    {context : EvaluationContext}
    (hvalid : search.Valid context)
    (hstack : context.checkStack = stack) :
    (Evaluation.evalCompiledSchemaUnion nested key.object key.relation user .denied
      expressions).Leaves context (search.Returns context (fun b =>
        (b = true → ∃ expression ∈ expressions, answer expression true) ∧
        (b = false → ∀ expression ∈ expressions, answer expression false))) := by
  induction expressions generalizing context with
  | nil =>
      exact Returns.ok (b := false) (Keeps.refl _) hvalid ⟨fun h => (by cases h), by simp⟩
  | cons expression rest ih =>
      unfold Evaluation.evalCompiledSchemaUnion
      apply Returns.bind (hoperands expression List.mem_cons_self context hvalid hstack)
      intro b context' hkeeps hvalid' hanswer
      cases b with
      | true =>
          exact Returns.ok (b := true) (Keeps.refl _) hvalid'
            ⟨fun _ => ⟨expression, List.mem_cons_self, hanswer⟩, fun h => (by cases h)⟩
      | false =>
          have hloop := ih (fun e he => hoperands e (List.mem_cons_of_mem _ he)) hvalid'
            (hkeeps.checkStack.trans hstack)
          refine hloop.imp (fun result context'' h => h.imp ?_)
          rintro b ⟨htrue, hfalse⟩
          refine ⟨fun hb => ?_, fun hb e he => ?_⟩
          · obtain ⟨e, he, hanswer'⟩ := htrue hb
            exact ⟨e, List.mem_cons_of_mem _ he, hanswer'⟩
          · rcases List.mem_cons.mp he with rfl | he
            · exact hanswer
            · exact hfalse hb e he

omit hnested in
/-- The loop of an intersection stops at the first operand that is denied. -/
theorem evalIntersection_answered
    {key : RelKey} {stack : List CheckKey} {answer : CompiledUsersetExpression → Bool → Prop}
    {expressions : List CompiledUsersetExpression}
    (hoperands : ∀ expression ∈ expressions, ∀ context, search.Valid context →
      context.checkStack = stack →
      (Evaluation.evalCompiledSchemaExpression nested key.object key.relation user
        expression).Leaves context (search.Returns context (answer expression)))
    {context : EvaluationContext}
    (hvalid : search.Valid context)
    (hstack : context.checkStack = stack) :
    (Evaluation.evalCompiledSchemaIntersection nested key.object key.relation user .allowed
      expressions).Leaves context (search.Returns context (fun b =>
        (b = false → ∃ expression ∈ expressions, answer expression false) ∧
        (b = true → ∀ expression ∈ expressions, answer expression true))) := by
  induction expressions generalizing context with
  | nil =>
      exact Returns.ok (b := true) (Keeps.refl _) hvalid ⟨fun h => (by cases h), by simp⟩
  | cons expression rest ih =>
      unfold Evaluation.evalCompiledSchemaIntersection
      apply Returns.bind (hoperands expression List.mem_cons_self context hvalid hstack)
      intro b context' hkeeps hvalid' hanswer
      cases b with
      | false =>
          exact Returns.ok (b := false) (Keeps.refl _) hvalid'
            ⟨fun _ => ⟨expression, List.mem_cons_self, hanswer⟩, fun h => (by cases h)⟩
      | true =>
          have hloop := ih (fun e he => hoperands e (List.mem_cons_of_mem _ he)) hvalid'
            (hkeeps.checkStack.trans hstack)
          refine hloop.imp (fun result context'' h => h.imp ?_)
          rintro b ⟨hfalse, htrue⟩
          refine ⟨fun hb => ?_, fun hb e he => ?_⟩
          · obtain ⟨e, he, hanswer'⟩ := hfalse hb
            exact ⟨e, List.mem_cons_of_mem _ he, hanswer'⟩
          · rcases List.mem_cons.mp he with rfl | he
            · exact hanswer
            · exact htrue hb e he

omit hnested in
/-- Reading a resolved position of the schema. -/
theorem leaves_relationById
    {context : EvaluationContext} {id : SchemaRelationId} {target : RelationDefinition}
    {f : RelationDefinition → Evaluation Membership}
    {post : Except ZanzibarError Membership → EvaluationContext → Prop}
    (hvalid : search.Valid context)
    (htarget : snapshot.schema.resolver.relationById id = some target)
    (h : (f target).Leaves context post) :
    (Evaluation.relationById id >>= f).Leaves context post := by
  have hread : Evaluation.relationById id context = (.ok target, context) := by
    unfold Evaluation.relationById
    rw [Action.bind_apply, Action.get_apply]
    simp only [hvalid.reads, htarget]
    rfl
  unfold Action.Leaves at h ⊢
  rw [Action.bind_apply, hread]
  exact h

/-- From every context with the given stack, the evaluator answers a rewrite as its part of
the equation of `t`. -/
def Answers (search : Search snapshot) (user : User) (nested : Evaluation.Nested)
    (t key : RelKey) (stack : List CheckKey) (expression : CompiledUsersetExpression) : Prop :=
  ∀ ⦃context : EvaluationContext⦄, search.Valid context → context.checkStack = stack →
    (Evaluation.evalCompiledSchemaExpression nested key.object key.relation user
      expression).Leaves context
      (search.Returns context (search.Answer user (cutSet snapshot user stack) t
        (rewriteFormula snapshot.relationships.liveSet
          (directMatch snapshot.relationships user) key expression.source)))

section Rewrites

variable {t key : RelKey} {stack : List CheckKey}
  (hcontext : search.Context user (cutSet snapshot user stack) t)
include hcontext

/-- A computed userset is answered by the nested key it names, whichever of the two ways the
compiler chose to reach its definition. -/
theorem Answers.computedUserset
    {objectType : ObjectType} {relation : RelationName} {id : SchemaRelationId}
    {hasRewrite : Bool} {target : RelationDefinition}
    (htype : Identifier.new .objectType key.object.namespaceName = .ok objectType)
    (htarget : snapshot.schema.resolver.relation objectType relation = .ok target)
    (hget : snapshot.schema.resolver.relationById id = some target)
    (hrewrite : hasRewrite = target.usersetRewrite.isSome)
    (hpart : PartOf (snapshot.system user) t (.atom ⟨key.object, relation⟩)) :
    search.Answers user nested t key stack (.computedUserset relation id hasRewrite) := by
  rintro context hvalid rfl
  have hrefers := hpart.refers ⟨key.object, relation⟩ Formula.Refers.atom
  have hdefinition : snapshot.schema.definitionOf ⟨key.object, relation⟩ = some target := by
    unfold CompiledSchema.definitionOf
    simp only [htype, htarget]
    rfl
  simp only [CompiledUsersetExpression.source, rewriteFormula]
  unfold Evaluation.evalCompiledSchemaExpression
  cases hasRewrite with
  | true =>
      exact hnested context t ⟨key.object, relation⟩ (.relationId id) hvalid hcontext hrefers
        ⟨target, hdefinition, hget⟩
  | false =>
      exact hnested context t ⟨key.object, relation⟩ .plain hvalid hcontext hrefers
        ⟨target, hdefinition, by simpa using hrewrite.symm⟩

omit hnested in
/-- A union is answered when its operands are. -/
theorem Answers.union
    {expressions : List CompiledUsersetExpression}
    (hpart : PartOf (snapshot.system user) t
      (rewriteFormula snapshot.relationships.liveSet (directMatch snapshot.relationships user) key
        (CompiledUsersetExpression.union expressions).source))
    (hoperands : ∀ expression ∈ expressions,
      search.Answers user nested t key stack expression) :
    search.Answers user nested t key stack (.union expressions) := by
  intro context hvalid hstack
  have hlaws := search.laws user
  simp only [CompiledUsersetExpression.source, CompiledUsersetExpression.sources_eq_map,
    rewriteFormula, rewriteFormulas_eq_map, List.map_map] at hpart ⊢
  unfold Evaluation.evalCompiledSchemaExpression
  have hloop := evalUnion_answered (fun e he context' => @hoperands e he context') hvalid hstack
  refine hloop.imp (fun result context' h => h.imp ?_)
  rintro b ⟨htrue, hfalse⟩
  cases b with
  | true =>
      obtain ⟨e, he, hanswer⟩ := htrue rfl
      exact hlaws.anyTrue hcontext hpart (List.mem_map_of_mem he) hanswer
  | false =>
      refine hlaws.anyFalse hcontext hpart ?_
      intro f hf
      obtain ⟨e, he, rfl⟩ := List.mem_map.mp hf
      exact hfalse rfl e he

omit hnested in
/-- An intersection is answered when its operands are. -/
theorem Answers.intersection
    {expressions : List CompiledUsersetExpression}
    (hpart : PartOf (snapshot.system user) t
      (rewriteFormula snapshot.relationships.liveSet (directMatch snapshot.relationships user) key
        (CompiledUsersetExpression.intersection expressions).source))
    (hoperands : ∀ expression ∈ expressions,
      search.Answers user nested t key stack expression) :
    search.Answers user nested t key stack (.intersection expressions) := by
  intro context hvalid hstack
  have hlaws := search.laws user
  simp only [CompiledUsersetExpression.source, CompiledUsersetExpression.sources_eq_map,
    rewriteFormula, rewriteFormulas_eq_map, List.map_map] at hpart ⊢
  unfold Evaluation.evalCompiledSchemaExpression
  have hloop := evalIntersection_answered (fun e he context' => @hoperands e he context')
    hvalid hstack
  refine hloop.imp (fun result context' h => h.imp ?_)
  rintro b ⟨hfalse, htrue⟩
  cases b with
  | true =>
      refine hlaws.allTrue hcontext hpart ?_
      intro f hf
      obtain ⟨e, he, rfl⟩ := List.mem_map.mp hf
      exact htrue rfl e he
  | false =>
      obtain ⟨e, he, hanswer⟩ := hfalse rfl
      exact hlaws.allFalse hcontext hpart (List.mem_map_of_mem he) hanswer

omit hnested in
/-- An exclusion is answered when its operands are, whichever of them goes first. -/
theorem Answers.exclusion
    {base exclude : CompiledUsersetExpression}
    (hpart : PartOf (snapshot.system user) t
      (rewriteFormula snapshot.relationships.liveSet (directMatch snapshot.relationships user) key
        (CompiledUsersetExpression.exclusion base exclude).source))
    (hbase : search.Answers user nested t key stack base)
    (hexclude : search.Answers user nested t key stack exclude) :
    search.Answers user nested t key stack (.exclusion base exclude) := by
  intro context hvalid hstack
  have hlaws := search.laws user
  simp only [CompiledUsersetExpression.source, rewriteFormula] at hpart ⊢
  unfold Evaluation.evalCompiledSchemaExpression
  by_cases hfirst : Evaluation.shouldEvalExcludeFirst exclude = true
  · rw [if_pos hfirst]
    apply Returns.bind (hexclude hvalid hstack)
    intro e context' hkeeps hvalid' hexcluded
    cases e with
    | true =>
        exact Returns.ok (b := false) (Keeps.refl _) hvalid'
          (hlaws.diffExclude hcontext hpart hexcluded)
    | false =>
        apply Returns.bind (hbase hvalid' (hkeeps.checkStack.trans hstack))
        intro b context'' _ hvalid'' hgranted
        cases b with
        | true =>
            exact Returns.ok (b := true) (Keeps.refl _) hvalid''
              (hlaws.diffTrue hcontext hpart hgranted hexcluded)
        | false =>
            exact Returns.ok (b := false) (Keeps.refl _) hvalid''
              (hlaws.diffBase hcontext hpart hgranted)
  · rw [if_neg hfirst]
    apply Returns.bind (hbase hvalid hstack)
    intro b context' hkeeps hvalid' hgranted
    cases b with
    | false =>
        exact Returns.ok (b := false) (Keeps.refl _) hvalid'
          (hlaws.diffBase hcontext hpart hgranted)
    | true =>
        apply Returns.bind (hexclude hvalid' (hkeeps.checkStack.trans hstack))
        intro e context'' _ hvalid'' hexcluded
        cases e with
        | true =>
            exact Returns.ok (b := false) (Keeps.refl _) hvalid''
              (hlaws.diffExclude hcontext hpart hexcluded)
        | false =>
            exact Returns.ok (b := true) (Keeps.refl _) hvalid''
              (hlaws.diffTrue hcontext hpart hgranted hexcluded)

/-- A rewrite is answered as its part of the equations, whatever order the evaluator
visits the operands in and where it stops. -/
theorem evalExpression_answered
    (hview : snapshot.relationships.Inv)
    {objectType : ObjectType}
    (htype : Identifier.new .objectType key.object.namespaceName = .ok objectType)
    {expression : CompiledUsersetExpression}
    (hresolved : expression.ResolvedIn snapshot.schema.resolver objectType)
    (hpart : PartOf (snapshot.system user) t
      (rewriteFormula snapshot.relationships.liveSet (directMatch snapshot.relationships user) key
        expression.source)) :
    search.Answers user nested t key stack expression := by
  induction hresolved with
  | this =>
      rintro context hvalid rfl
      simp only [CompiledUsersetExpression.source, rewriteFormula] at hpart ⊢
      unfold Evaluation.evalCompiledSchemaExpression
      exact evalThis_answered hnested hview hvalid hcontext hpart
  | computedUserset htarget hget hrewrite =>
      simp only [CompiledUsersetExpression.source, rewriteFormula] at hpart
      exact Answers.computedUserset hnested hcontext htype htarget hget hrewrite hpart
  | tupleToUserset htarget hget =>
      rintro context hvalid rfl
      simp only [CompiledUsersetExpression.source, rewriteFormula] at hpart ⊢
      unfold Evaluation.evalCompiledSchemaExpression
      apply leaves_relationById hvalid hget
      rw [(SchemaResolver.mem_of_relation htarget).1]
      exact evalTupleToUserset_answered hnested hview hvalid hcontext hpart
  | union _ ih =>
      refine Answers.union hcontext hpart (fun e he => ih e he ?_)
      simp only [CompiledUsersetExpression.source, CompiledUsersetExpression.sources_eq_map,
        rewriteFormula, rewriteFormulas_eq_map, List.map_map] at hpart
      exact hpart.of_any (List.mem_map_of_mem he)
  | intersection _ ih =>
      refine Answers.intersection hcontext hpart (fun e he => ih e he ?_)
      simp only [CompiledUsersetExpression.source, CompiledUsersetExpression.sources_eq_map,
        rewriteFormula, rewriteFormulas_eq_map, List.map_map] at hpart
      exact hpart.of_all (List.mem_map_of_mem he)
  | exclusion _ _ ihbase ihexclude =>
      have hdiff := hpart
      simp only [CompiledUsersetExpression.source, rewriteFormula] at hdiff
      exact Answers.exclusion hcontext hpart (ihbase hdiff.of_base) (ihexclude hdiff.of_exclude)

end Rewrites

/-- The definition of a key is answered as the right-hand side of its equation. -/
theorem evalDefinition_answered
    (hview : snapshot.relationships.Inv)
    (hschema : snapshot.schema.Accepted)
    {key : RelKey} {definition : RelationDefinition}
    (hdefinition : snapshot.schema.definitionOf key = some definition)
    {context : EvaluationContext}
    (hvalid : search.Valid context)
    (hcontext : search.Context user (cutSet snapshot user context.checkStack) key) :
    (Evaluation.evalDefinition nested key.object key.relation user definition).Leaves context
      (search.Returns context (search.Answer user (cutSet snapshot user context.checkStack) key
        (snapshot.system user key))) := by
  have hwhole : PartOf (snapshot.system user) key (snapshot.system user key) := PartOf.whole
  have hsystem : snapshot.system user key = definitionFormula snapshot.relationships.liveSet
      (directMatch snapshot.relationships user) key definition := by
    unfold PublishedSnapshot.system membershipSystem
    rw [hdefinition]
  unfold CompiledSchema.definitionOf at hdefinition
  split at hdefinition
  · next objectType htype =>
      have hrelation : snapshot.schema.resolver.relation objectType key.relation =
          .ok definition := by
        cases hfound : snapshot.schema.resolver.relation objectType key.relation with
        | error error =>
            rw [hfound] at hdefinition
            cases hdefinition
        | ok found =>
            rw [hfound] at hdefinition
            cases hdefinition
            rfl
      obtain ⟨hsource, hresolved⟩ := hschema.relation hrelation
      rw [hsystem] at hwhole ⊢
      unfold definitionFormula at hwhole ⊢
      unfold Evaluation.evalDefinition
      cases hcompiled : definition.compiledUsersetRewrite with
      | none =>
          rw [hcompiled] at hsource
          rw [← hsource] at hwhole ⊢
          exact evalThis_answered hnested hview hvalid hcontext hwhole
      | some expression =>
          rw [hcompiled] at hsource
          rw [← hsource] at hwhole ⊢
          exact evalExpression_answered hnested hcontext hview htype
            (hresolved expression hcompiled) hwhole hvalid rfl
  · cases hdefinition

/-- The body of a nested key is answered as the right-hand side of its equation. -/
theorem nestedEntered_answered
    (hview : snapshot.relationships.Inv)
    (hschema : snapshot.schema.Accepted)
    {key : RelKey} {body : Evaluation.NestedBody}
    (hfits : BodyFits snapshot key body)
    {context : EvaluationContext}
    (hvalid : search.Valid context)
    (hcontext : search.Context user (cutSet snapshot user context.checkStack) key) :
    (Evaluation.nestedEntered nested key.object key.relation user body).Leaves context
      (search.Returns context (search.Answer user (cutSet snapshot user context.checkStack) key
        (snapshot.system user key))) := by
  cases body with
  | relationName =>
      unfold Evaluation.nestedEntered Evaluation.checkRelationNameEntered Evaluation.ofDomain
        Evaluation.ofSchema
      apply Action.Leaves.lift_bind
      · intro objectType htype
        apply Action.Leaves.get_bind
        rw [hvalid.reads]
        apply Action.Leaves.lift_bind
        · intro definition hrelation
          apply evalDefinition_answered hnested hview hschema _ hvalid hcontext
          unfold CompiledSchema.definitionOf
          rw [mapError_eq_ok htype]
          simp only [mapError_eq_ok hrelation]
          rfl
        · intro e _
          exact Returns.error (Keeps.refl _) hvalid
      · intro e _
        exact Returns.error (Keeps.refl _) hvalid
  | relationId id =>
      obtain ⟨definition, hdefinition, hget⟩ := hfits
      unfold Evaluation.nestedEntered Evaluation.checkRelationIdEntered
      apply leaves_relationById hvalid hget
      exact evalDefinition_answered hnested hview hschema hdefinition hvalid hcontext
  | plain =>
      obtain ⟨definition, hdefinition, hrewrite⟩ := hfits
      have hsystem : snapshot.system user key = thisFormula snapshot.relationships.liveSet
          (directMatch snapshot.relationships user) key := by
        unfold PublishedSnapshot.system membershipSystem
        rw [hdefinition]
        simp only [definitionFormula, hrewrite]
      have hwhole : PartOf (snapshot.system user) key (snapshot.system user key) := PartOf.whole
      rw [hsystem] at hwhole ⊢
      exact evalThis_answered hnested hview hvalid hcontext hwhole

end Expressions

/-- Recording a valid answer keeps the memo valid. -/
theorem Valid.memoInsert
    {context context' : EvaluationContext} {user : User} {key : RelKey} {b : Bool}
    {memo : RequestCheckMemo} {depth : Nat}
    (hvalid : search.Valid context)
    (hmemo : context.checkMemo = some memo)
    (hentry : search.Memo user key b)
    (hactive : context'.ActiveInv)
    (hsnapshot : context'.snapshot = context.snapshot)
    (hinsert : context'.checkMemo =
      some (memo.insert (memoKeyOf snapshot user key) (.ofBool b) depth)) :
    search.Valid context' := by
  obtain ⟨hmemoised, hentries⟩ := hvalid.memo memo hmemo
  refine ⟨hsnapshot.trans hvalid.reads, hactive, ?_⟩
  intro memo' hmemo'
  rw [hinsert] at hmemo'
  cases hmemo'
  refine ⟨hmemoised, ?_⟩
  intro user' key' entry hlookup
  rcases RequestCheckMemo.lookup_insert_cases hlookup with hold | ⟨hkey, hmembership⟩
  · exact hentries user' key' entry hold
  · obtain ⟨rfl, rfl⟩ := memoKeyOf_injective hkey
    exact ⟨b, hmembership, hentry⟩

/-- Running a key returns what its body returns with the key on the stack. -/
theorem runKey_returns
    {key : CheckKey} {memoEligible : Bool} {evaluate : Evaluation Membership}
    {context : EvaluationContext} {post : Bool → Prop}
    (hvalid : search.Valid context)
    (hkey : key ∉ context.checkStack)
    (hbody : ∀ opened, search.Valid opened → opened.checkStack = key :: context.checkStack →
      evaluate.Leaves opened (search.Returns opened post))
    (hrecord : memoEligible = true → ∃ user k,
      CheckMemoKey.fromCheckKey key = .ok (memoKeyOf snapshot user k) ∧
        ∀ b, post b → search.Memo user k b) :
    (Evaluation.runKey key memoEligible evaluate).Leaves context
      (search.Returns context post) := by
  unfold Action.Leaves
  rcases Evaluation.runKey_cases key memoEligible evaluate context with ⟨e, hrun⟩ |
    ⟨opened, hsnapshot, hlimits, hstack, hmemo, hactive, hrun⟩
  · rw [hrun]
    exact Returns.error (Keeps.refl _) hvalid
  · rw [hrun]
    have hopened : search.Valid opened := by
      refine ⟨hsnapshot.trans hvalid.reads, hactive hvalid.active hkey, ?_⟩
      rw [hmemo]
      exact hvalid.memo
    have hreturns := hbody opened hopened hstack
    unfold Action.Leaves at hreturns
    generalize (evaluate opened).1 = result at hreturns
    generalize (evaluate opened).2 = evaluated at hreturns
    obtain ⟨hactive', hrest, hsnapshot', hlimits', hmemo'⟩ :=
      Evaluation.closeKey_spec memoEligible result hreturns.valid.active
        (hreturns.keeps.checkStack.trans hstack)
    refine ⟨⟨?_, ?_, hrest⟩, ?_, hreturns.answer⟩
    · rw [hsnapshot', hreturns.keeps.snapshot, hsnapshot]
    · rw [hlimits', hreturns.keeps.limits, hlimits]
    · rcases hmemo' with hsame | ⟨memo, membership, depth, memoKey, heligible, hresult, hsome,
        hmemoKey, hinsert⟩
      · refine ⟨hsnapshot'.trans hreturns.valid.reads, hactive', ?_⟩
        rw [hsame]
        exact hreturns.valid.memo
      · obtain ⟨b, rfl, hpost⟩ := hreturns.answer membership hresult
        obtain ⟨user, k, hfrom, hentry⟩ := hrecord heligible
        rw [hfrom] at hmemoKey
        cases hmemoKey
        exact hreturns.valid.memoInsert hsome (hentry b hpost) hactive' hsnapshot' hinsert

/-- A check from an empty stack evaluates its body with the root key on the stack. -/
theorem evaluateRoot_returns
    {key : CheckKey} {evaluate : Evaluation Membership} {context : EvaluationContext}
    {post : Bool → Prop}
    (hvalid : search.Valid context)
    (hempty : context.checkStack = [])
    (hbody : ∀ opened, search.Valid opened → opened.checkStack = [key] →
      evaluate.Leaves opened (search.Returns opened post)) :
    (Evaluation.evaluateCheckKey key evaluate).Leaves context (search.Returns context post) := by
  have hnot : key ∉ context.checkStack := by
    rw [hempty]
    exact List.not_mem_nil
  have hinactive : context.isCheckActive key = false := by
    rw [← Bool.not_eq_true, hvalid.active.isCheckActive_iff]
    exact hnot
  unfold Evaluation.evaluateCheckKey
  apply Action.Leaves.get_bind
  simp only [hinactive, hempty, List.isEmpty_nil, Bool.not_true, Bool.and_false]
  apply runKey_returns hvalid hnot
  · intro opened hopened hstack
    rw [hempty] at hstack
    exact hbody opened hopened hstack
  · intro h
    cases h

/-- A nested key is denied on the stack, answered from the memo or evaluated. -/
theorem evaluateNested_returns
    {user : User} {t k : RelKey} {evaluate : Evaluation Membership}
    {context : EvaluationContext}
    (hvalid : search.Valid context)
    (hcontext : search.Context user (cutSet snapshot user context.checkStack) t)
    (hrefers : Formula.Refers (snapshot.system user t) k)
    (hbody : ∀ opened, search.Valid opened →
      cutSet snapshot user opened.checkStack =
        insert k (cutSet snapshot user context.checkStack) →
      search.Context user (cutSet snapshot user opened.checkStack) k →
      evaluate.Leaves opened (search.Returns opened
        (search.Answer user (cutSet snapshot user opened.checkStack) k
          (snapshot.system user k)))) :
    (Evaluation.evaluateCheckKey
      (CheckKey.fromRelationName snapshot k.object k.relation user) evaluate).Leaves context
      (search.Returns context (search.Answer user (cutSet snapshot user context.checkStack) t
        (.atom k))) := by
  have hlaws := search.laws user
  have hiff := hvalid.active.isCheckActive_iff
    (CheckKey.fromRelationName snapshot k.object k.relation user)
  unfold Evaluation.evaluateCheckKey
  apply Action.Leaves.get_bind
  by_cases hcut : k ∈ cutSet snapshot user context.checkStack
  · rw [if_pos (hiff.mpr hcut)]
    exact Returns.ok (b := false) (Keeps.refl _) hvalid (hlaws.cut hcontext hrefers hcut)
  · rw [if_neg (fun h => hcut (hiff.mp h))]
    have hrun : ∀ memoEligible, (memoEligible = true → search.memoised) →
        (Evaluation.runKey (CheckKey.fromRelationName snapshot k.object k.relation user)
          memoEligible evaluate).Leaves context
          (search.Returns context (search.Answer user
            (cutSet snapshot user context.checkStack) t (.atom k))) := by
      intro memoEligible hmemoised
      have hinner : (Evaluation.runKey (CheckKey.fromRelationName snapshot k.object k.relation user)
          memoEligible evaluate).Leaves context
          (search.Returns context (search.Answer user
            (insert k (cutSet snapshot user context.checkStack)) k (snapshot.system user k))) := by
        apply runKey_returns hvalid hcut
        · intro opened hopened hstack
          have hset : cutSet snapshot user opened.checkStack =
              insert k (cutSet snapshot user context.checkStack) := by
            rw [hstack, cutSet_cons]
          have hentered := hlaws.context_enter hcontext hrefers hcut
          rw [← hset] at hentered ⊢
          exact hbody opened hopened hset hentered
        · intro heligible
          exact ⟨user, k, fromCheckKey_fromRelationName snapshot user k,
            fun b hb => hlaws.record (hmemoised heligible) hcontext hrefers hcut hb⟩
      exact hinner.imp (fun result context' h =>
        h.imp (fun b hb => hlaws.enter hcontext hrefers hcut hb))
    by_cases heligible : (context.checkMemo.isSome && !context.checkStack.isEmpty) = true
    · rw [if_pos heligible]
      rw [Bool.and_eq_true] at heligible
      obtain ⟨memo, hmemo⟩ := Option.isSome_iff_exists.mp heligible.1
      obtain ⟨hmemoised, hentries⟩ := hvalid.memo memo hmemo
      have hlookup : context.memoLookup
          (CheckKey.fromRelationName snapshot k.object k.relation user) =
          .ok (memo.get (memoKeyOf snapshot user k) context.remainingDepth) := by
        unfold memoLookup
        rw [hmemo]
        simp only [fromCheckKey_fromRelationName]
        rfl
      rw [hlookup]
      cases hget : memo.get (memoKeyOf snapshot user k) context.remainingDepth with
      | none =>
          exact hrun true (fun _ => hmemoised)
      | some membership =>
          obtain ⟨entry, hentry, rfl⟩ := RequestCheckMemo.lookup_of_get hget
          obtain ⟨b, hb, hvalidEntry⟩ := hentries user k entry hentry
          rw [hb]
          exact Returns.ok (Keeps.refl _) hvalid
            (hlaws.hit hmemoised hcontext hrefers hcut hvalidEntry)
    · rw [if_neg heligible]
      exact hrun false (fun h => (by cases h))

/-- Nested checks answer their keys, whatever fuel they have. -/
theorem checkNested_answered
    (hview : snapshot.relationships.Inv)
    (hschema : snapshot.schema.Accepted)
    (user : User) (fuel : Nat) :
    search.NestedAnswered user (Evaluation.checkNested user fuel) (BodyFits snapshot) := by
  induction fuel with
  | zero =>
      intro context t k body hvalid hcontext hrefers _
      unfold Evaluation.checkNested
      apply Action.Leaves.get_bind
      rw [hvalid.reads]
      apply evaluateNested_returns hvalid hcontext hrefers
      intro opened hopened _ _
      exact Returns.error (Keeps.refl _) hopened
  | succ fuel ih =>
      intro context t k body hvalid hcontext hrefers hfits
      unfold Evaluation.checkNested
      apply Action.Leaves.get_bind
      rw [hvalid.reads]
      apply evaluateNested_returns hvalid hcontext hrefers
      intro opened hopened _ hentered
      exact nestedEntered_answered ih hview hschema hfits hopened hentered

/-- What the root of a check is cut to: its own key where the key is interned. -/
def rootCut (snapshot : PublishedSnapshot) (user : User) (key : RelKey) : Set RelKey :=
  cutSet snapshot user
    [CheckKey.new snapshot key.object ⟨key.relation.value⟩ user]

/-- The answer of the root key with the text of the relation. -/
def RootAnswer (search : Search snapshot) (user : User) (object : Object) (relation : Relation)
    (b : Bool) : Prop :=
  ∃ name : RelationName, name.value = relation.name ∧
    search.Answer user (rootCut snapshot user ⟨object, name⟩) ⟨object, name⟩
      (snapshot.system user ⟨object, name⟩) b

/-- The contexts in which the root key is evaluated are admissible. -/
def RootContext (search : Search snapshot) (user : User) (object : Object) (relation : Relation) :
    Prop :=
  ∀ name : RelationName, name.value = relation.name →
    search.Context user (rootCut snapshot user ⟨object, name⟩) ⟨object, name⟩

/-- A check from an empty stack answers the right-hand side of its key. -/
theorem check_answered
    (hview : snapshot.relationships.Inv)
    (hschema : snapshot.schema.Accepted)
    {user : User} {object : Object} {relation : Relation} {context : EvaluationContext}
    (hvalid : search.Valid context)
    (hempty : context.checkStack = [])
    (hroot : search.RootContext user object relation) :
    (Evaluation.check object relation user).Leaves context
      (search.Returns context (search.RootAnswer user object relation)) := by
  unfold Evaluation.check
  apply Action.Leaves.get_bind
  rw [hvalid.reads]
  apply evaluateRoot_returns hvalid hempty
  intro opened hopened hstack
  unfold Evaluation.checkEntered Evaluation.ofDomain Evaluation.ofSchema
  apply Action.Leaves.lift_bind
  · intro objectType htype
    apply Action.Leaves.lift_bind
    · intro name hname
      have hvalue : name.value = relation.name := Identifier.new_ok_iff.mp (mapError_eq_ok hname)
      obtain ⟨text⟩ := relation
      cases hvalue
      apply Action.Leaves.get_bind
      rw [hopened.reads]
      apply Action.Leaves.lift_bind
      · intro definition hrelation
        have hdefinition : snapshot.schema.definitionOf ⟨object, name⟩ = some definition := by
          unfold CompiledSchema.definitionOf
          simp only [mapError_eq_ok htype, mapError_eq_ok hrelation]
          rfl
        have hcut : cutSet snapshot user opened.checkStack =
            rootCut snapshot user ⟨object, name⟩ := by
          rw [hstack]
          rfl
        have hcontext := hroot name rfl
        rw [← hcut] at hcontext
        have hanswered := evalDefinition_answered
          (checkNested_answered hview hschema user context.remainingDepth) hview hschema
          hdefinition hopened hcontext
        rw [hcut] at hanswered
        exact hanswered.imp (fun result context' h => h.imp (fun b hb => ⟨name, rfl, hb⟩))
      · intro e _
        exact Returns.error (Keeps.refl _) hopened
    · intro e _
      exact Returns.error (Keeps.refl _) hopened
  · intro e _
    exact Returns.error (Keeps.refl _) hopened

/-- A prepared check whose caller resolved the relation by its name. -/
theorem checkPrepared_answered
    (hview : snapshot.relationships.Inv)
    (hschema : snapshot.schema.Accepted)
    {user : User} {object : Object} {relation : Relation} {context : EvaluationContext}
    {definition : RelationDefinition}
    (hname : definition.name.value = relation.name)
    (hdefinition : snapshot.schema.definitionOf ⟨object, definition.name⟩ = some definition)
    (hvalid : search.Valid context)
    (hempty : context.checkStack = [])
    (hroot : search.RootContext user object relation) :
    (Evaluation.checkPrepared object relation user definition).Leaves context
      (search.Returns context (search.RootAnswer user object relation)) := by
  obtain ⟨text⟩ := relation
  cases hname
  unfold Evaluation.checkPrepared
  apply Action.Leaves.get_bind
  rw [hvalid.reads]
  apply evaluateRoot_returns hvalid hempty
  intro opened hopened hstack
  have hcut : cutSet snapshot user opened.checkStack =
      rootCut snapshot user ⟨object, definition.name⟩ := by
    rw [hstack]
    rfl
  have hcontext := hroot definition.name rfl
  rw [← hcut] at hcontext
  have hanswered := evalDefinition_answered
    (checkNested_answered hview hschema user context.remainingDepth) hview hschema
    hdefinition hopened hcontext
  rw [hcut] at hanswered
  exact hanswered.imp (fun result context' h => h.imp (fun b hb => ⟨definition.name, rfl, hb⟩))

end Search

end SimpleZanzibar
