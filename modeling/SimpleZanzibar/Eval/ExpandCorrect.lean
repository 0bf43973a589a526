import SimpleZanzibar.Lib.Freezing
import SimpleZanzibar.Eval.FreshCheck
import SimpleZanzibar.Eval.Scan

/-!
# What an expansion contains

The tree of an expansion is read as a set of users.  Its leaves are the stored subjects;
a userset leaf contains whom a check on the userset allows.  The expansion is a
depth-first search over the equations in which the stored usersets are frozen, so on a
stratified snapshot without tombstones it contains exactly the users that a check allows.
-/

namespace SimpleZanzibar

open BoolSystem

/-- The subject names the user itself: the user, the userset, or a userset over the object
of a plain user. -/
def SubjectRef.Direct (user : User) : SubjectRef → Prop
  | .object target => ∃ id, user = .userId id ∧ target.toObject = ⟨"user", id⟩
  | .userset target relation =>
      user = .userset target.toObject ⟨relation.value⟩ ∨
        ∃ id, user = .userId id ∧ target.toObject = ⟨"user", id⟩

/-- The filter of a user selects the subjects that name the user. -/
theorem SubjectFilter.matches_iff_direct
    {user : User} {filter : SubjectFilter}
    (hfilter : SubjectFilter.tryFrom user = .ok filter)
    (subject : SubjectRef) :
    filter.Matches subject ↔ subject.Direct user := by
  cases user with
  | userId id =>
      unfold SubjectFilter.tryFrom at hfilter
      obtain ⟨subjectType, htype, hfilter⟩ := bind_eq_ok.mp hfilter
      obtain ⟨subjectId, hid, hfilter⟩ := bind_eq_ok.mp hfilter
      cases hfilter
      rw [Identifier.new_ok_iff] at htype hid
      cases subject with
      | object object =>
          simp [Matches, SubjectFilter.exact, SubjectRef.Direct, SubjectRef.objectRef, htype, hid,
            ObjectRef.toObject]
      | userset object relation =>
          simp [Matches, SubjectFilter.exact, SubjectRef.Direct, SubjectRef.objectRef, htype, hid,
            ObjectRef.toObject]
  | userset target name =>
      unfold SubjectFilter.tryFrom at hfilter
      obtain ⟨subjectType, htype, hfilter⟩ := bind_eq_ok.mp hfilter
      obtain ⟨subjectId, hid, hfilter⟩ := bind_eq_ok.mp hfilter
      obtain ⟨relationName, hrelation, hfilter⟩ := bind_eq_ok.mp hfilter
      cases hfilter
      rw [Identifier.new_ok_iff] at htype hid hrelation
      obtain ⟨namespaceName, targetId⟩ := target
      obtain ⟨name⟩ := name
      simp only at htype hid hrelation
      subst htype hid hrelation
      cases subject with
      | object object =>
          simp [Matches, SubjectFilter.exact, SubjectRef.Direct, SubjectRef.relation?]
      | userset object relation =>
          have hmatch : (SubjectFilter.exact subjectType subjectId (some relationName)).Matches
              (.userset object relation) ↔ object.objectType.value = subjectType.value ∧
                object.objectId.value = subjectId.value ∧ relation = relationName := by
            simp [Matches, SubjectFilter.exact, SubjectRef.objectRef, SubjectRef.relation?]
          rw [hmatch, Identifier.ext_iff]
          simp only [SubjectRef.Direct, ObjectRef.toObject, User.userset.injEq, Object.mk.injEq,
            Relation.mk.injEq, reduceCtorEq, false_and, exists_false, or_false]
          constructor
          · rintro ⟨htype, hid, hrelation⟩
            exact ⟨⟨htype.symm, hid.symm⟩, hrelation.symm⟩
          · rintro ⟨⟨htype, hid⟩, hrelation⟩
            exact ⟨htype.symm, hid.symm, hrelation.symm⟩

/-- A user that some subject names has a filter. -/
theorem SubjectRef.Direct.exists_filter
    {user : User} {subject : SubjectRef}
    (h : subject.Direct user) :
    ∃ filter, SubjectFilter.tryFrom user = .ok filter := by
  have hplain : ∀ (object : ObjectRef) (id : String), object.toObject = ⟨"user", id⟩ →
      ∃ filter, SubjectFilter.tryFrom (.userId id) = .ok filter := by
    intro object id hobject
    obtain ⟨objectType, objectId⟩ := object
    simp only [ObjectRef.toObject, Object.mk.injEq] at hobject
    have hid : IdentifierKind.subjectId.validate id = .ok () :=
      (validate_subjectId_iff id).mpr (hobject.2 ▸ objectId.valid)
    have hnew : Identifier.new .subjectId id = .ok ⟨id, hid⟩ := Identifier.new_ok_iff.mpr rfl
    refine ⟨SubjectFilter.exact ⟨"user", by decide⟩ ⟨id, hid⟩ none, ?_⟩
    unfold SubjectFilter.tryFrom
    simp only [hnew]
    rfl
  cases subject with
  | object object =>
      obtain ⟨id, rfl, hobject⟩ := h
      exact hplain object id hobject
  | userset object relation =>
      rcases h with rfl | ⟨id, rfl, hobject⟩
      · have htype : IdentifierKind.subjectType.validate object.objectType.value = .ok () :=
          (validate_subjectType_iff _).mpr object.objectType.valid
        have hid : IdentifierKind.subjectId.validate object.objectId.value = .ok () :=
          (validate_subjectId_iff _).mpr object.objectId.valid
        have hnewType : Identifier.new .subjectType object.objectType.value = .ok ⟨_, htype⟩ :=
          Identifier.new_ok_iff.mpr rfl
        have hnewId : Identifier.new .subjectId object.objectId.value = .ok ⟨_, hid⟩ :=
          Identifier.new_ok_iff.mpr rfl
        refine ⟨SubjectFilter.exact ⟨_, htype⟩ ⟨_, hid⟩ (some relation), ?_⟩
        unfold SubjectFilter.tryFrom
        simp only [ObjectRef.toObject, hnewType, hnewId, Identifier.new_value]
        rfl
      · exact hplain object id hobject

section DirectMatches

variable [StoreHasher] {view : RelationshipStoreView}

/-- Without tombstones the direct match of a user finds the live rows that name the user. -/
theorem RelationshipStoreView.Inv.directMatch_iff
    (hinv : view.Inv)
    (htombstones : view.tombstones = ∅)
    (user : User) (key : RelKey) :
    directMatch view user key = true ↔ ∃ r ∈ view.liveSet,
      r.resource.toObject = key.object ∧ r.relation = key.relation ∧ r.subject.Direct user := by
  have hlive : ∀ resource relation filter,
      view.anyResourceRelationSubject resource relation filter = true ↔
        ∃ r ∈ view.liveSet, OnSubject resource relation filter r := by
    intro resource relation filter
    rw [hinv.anyResourceRelationSubject_iff]
    constructor
    · rintro (⟨r, hr, hon⟩ | ⟨r, hfirst, hr⟩)
      · exact ⟨r, mem_liveSet_iff.mpr (mem_rows_iff.mpr (Or.inr hr)), hon⟩
      · obtain ⟨hmem, hon⟩ := mem_of_firstCheckpointMatch hfirst
        exact ⟨r, mem_liveSet_iff.mpr (mem_rows_iff.mpr (Or.inl ⟨hmem, hr⟩)), hon⟩
    · rintro ⟨r, hr, hon⟩
      rcases exists_match_of_mem_liveSet hr hon with hin | ⟨first, hfirst⟩
      · exact Or.inl hin
      · refine Or.inr ⟨first, hfirst, ?_⟩
        rw [htombstones]
        exact Finset.notMem_empty first
  unfold directMatch
  split
  · next resource filter hresource hfilter =>
      rw [hlive]
      refine exists_congr (fun r => and_congr_right (fun _ => ?_))
      unfold OnSubject OnRelation
      rw [SubjectFilter.matches_iff_direct hfilter, and_assoc,
        ← ObjectRef.tryFrom_ok_iff.mp hresource]
      exact and_congr_left (fun _ => ⟨fun h => congrArg _ h, ObjectRef.toObject_injective⟩)
  · next hnone =>
      refine iff_of_false Bool.false_ne_true ?_
      rintro ⟨r, _, hresource, _, hdirect⟩
      obtain ⟨filter, hfilter⟩ := hdirect.exists_filter
      exact hnone r.resource filter (ObjectRef.tryFrom_ok_iff.mpr hresource) hfilter

end DirectMatches

namespace ExpandedUserset

section Meaning

variable (leaf : Object → Relation → Prop) (user : User)

mutual

/-- The users of a tree; `leaf` says whether a userset leaf grants the user. -/
def Contains : ExpandedUserset → Prop
  | .user id => user = .userId id
  | .userset object relation =>
      user = .userset object relation ∨
        (∃ id, user = .userId id ∧ object = ⟨"user", id⟩) ∨ leaf object relation
  | .union parts => ContainsSome parts
  | .intersection parts => ContainsEvery parts
  | .exclusion base exclude => Contains base ∧ ¬ Contains exclude

def ContainsSome : List ExpandedUserset → Prop
  | [] => False
  | part :: rest => Contains part ∨ ContainsSome rest

def ContainsEvery : List ExpandedUserset → Prop
  | [] => True
  | part :: rest => Contains part ∧ ContainsEvery rest

end

theorem containsSome_iff
    (parts : List ExpandedUserset) :
    ContainsSome leaf user parts ↔ ∃ part ∈ parts, Contains leaf user part := by
  induction parts with
  | nil =>
      simp [ContainsSome]
  | cons part rest ih =>
      simp [ContainsSome, ih]

theorem containsEvery_iff
    (parts : List ExpandedUserset) :
    ContainsEvery leaf user parts ↔ ∀ part ∈ parts, Contains leaf user part := by
  induction parts with
  | nil =>
      simp [ContainsEvery]
  | cons part rest ih =>
      simp [ContainsEvery, ih]

theorem contains_union_iff
    (parts : List ExpandedUserset) :
    Contains leaf user (.union parts) ↔ ∃ part ∈ parts, Contains leaf user part := by
  rw [Contains, containsSome_iff]

theorem contains_intersection_iff
    (parts : List ExpandedUserset) :
    Contains leaf user (.intersection parts) ↔ ∀ part ∈ parts, Contains leaf user part := by
  rw [Contains, containsEvery_iff]

end Meaning

mutual

/-- The userset leaves of a tree. -/
def usersetLeaves : ExpandedUserset → List (Object × Relation)
  | .user _ => []
  | .userset object relation => [(object, relation)]
  | .union parts => usersetLeavesOf parts
  | .intersection parts => usersetLeavesOf parts
  | .exclusion base exclude => usersetLeaves base ++ usersetLeaves exclude

def usersetLeavesOf : List ExpandedUserset → List (Object × Relation)
  | [] => []
  | part :: rest => usersetLeaves part ++ usersetLeavesOf rest

end

mutual

/-- Only what is said of the leaves of the tree matters. -/
theorem contains_congr
    {leaf leaf' : Object → Relation → Prop} {user : User} :
    ∀ tree : ExpandedUserset,
      (∀ entry ∈ usersetLeaves tree, leaf entry.1 entry.2 ↔ leaf' entry.1 entry.2) →
      (Contains leaf user tree ↔ Contains leaf' user tree)
  | .user id, _ => by
      rw [Contains, Contains]
  | .userset object relation, h => by
      rw [Contains, Contains, h (object, relation) (by simp [usersetLeaves])]
  | .union parts, h => by
      rw [contains_union_iff, contains_union_iff]
      exact exists_congr (fun part => and_congr_right (fun hpart =>
        contains_congr_of parts h part hpart))
  | .intersection parts, h => by
      rw [contains_intersection_iff, contains_intersection_iff]
      exact forall_congr' (fun part => imp_congr_right (fun hpart =>
        contains_congr_of parts h part hpart))
  | .exclusion base exclude, h => by
      rw [Contains, Contains]
      rw [usersetLeaves] at h
      rw [contains_congr base (fun entry he => h entry (List.mem_append_left _ he)),
        contains_congr exclude (fun entry he => h entry (List.mem_append_right _ he))]

theorem contains_congr_of
    {leaf leaf' : Object → Relation → Prop} {user : User} :
    ∀ parts : List ExpandedUserset,
      (∀ entry ∈ usersetLeavesOf parts, leaf entry.1 entry.2 ↔ leaf' entry.1 entry.2) →
      ∀ part ∈ parts, (Contains leaf user part ↔ Contains leaf' user part)
  | [], _, part, hpart => by
      cases hpart
  | first :: rest, h, part, hpart => by
      rw [usersetLeavesOf] at h
      rcases List.mem_cons.mp hpart with heq | hpart
      · rw [heq]
        exact contains_congr first (fun entry he => h entry (List.mem_append_left _ he))
      · exact contains_congr_of rest (fun entry he => h entry (List.mem_append_right _ he)) part
          hpart

end

end ExpandedUserset

/-- What a leaf contains: the subject names the user, or its userset grants the user. -/
theorem SubjectRef.contains_leaf_iff
    {leaf : Object → Relation → Prop} {user : User} {subject : SubjectRef}
    {tree : ExpandedUserset}
    (h : subject.leaf? = some tree) :
    ExpandedUserset.Contains leaf user tree ↔
      subject.Direct user ∨ ∃ key, subject.userset? = some key ∧
        leaf key.object ⟨key.relation.value⟩ := by
  cases subject with
  | object target =>
      simp only [leaf?] at h
      split at h
      · next huser =>
          cases h
          simp only [ExpandedUserset.Contains, Direct, userset?, reduceCtorEq, false_and,
            exists_false, or_false, ObjectRef.toObject, huser, Object.mk.injEq, true_and]
          constructor
          · rintro rfl
            exact ⟨_, rfl, rfl⟩
          · rintro ⟨id, rfl, rfl⟩
            rfl
      · cases h
  | userset target relation =>
      cases h
      simp only [ExpandedUserset.Contains, Direct, userset?, Option.some.injEq, exists_eq_left',
        or_assoc]

section Frozen

variable (set : Finset Relationship) (this : RelKey → Formula RelKey)

mutual

/-- The right-hand side of a rewrite whose stored subjects are read by `this`. -/
noncomputable def expansionFormula (key : RelKey) : UsersetExpression → Formula RelKey
  | .this => this key
  | .computedUserset relation => .atom ⟨key.object, relation⟩
  | .tupleToUserset tupleset computed =>
      .any ((storedUsersets set ⟨key.object, tupleset⟩).map
        (fun subject => .atom ⟨subject.object, computed⟩))
  | .union expressions => .any (expansionFormulas key expressions)
  | .intersection expressions => .all (expansionFormulas key expressions)
  | .exclusion base exclude => .diff (expansionFormula key base) (expansionFormula key exclude)

noncomputable def expansionFormulas (key : RelKey) : List UsersetExpression → List (Formula RelKey)
  | [] => []
  | expression :: rest => expansionFormula key expression :: expansionFormulas key rest

end

theorem expansionFormulas_eq_map
    (key : RelKey) (expressions : List UsersetExpression) :
    expansionFormulas set this key expressions =
      expressions.map (expansionFormula set this key) := by
  induction expressions with
  | nil =>
      rfl
  | cons expression rest ih =>
      rw [expansionFormulas, ih, List.map_cons]

/-- The equations that an expansion follows. -/
noncomputable def expansionSystem (schema : CompiledSchema) (key : RelKey) : Formula RelKey :=
  match schema.definitionOf key with
  | some definition =>
      match definition.usersetRewrite with
      | some expression => expansionFormula set this key expression
      | none => this key
  | none => .const false

variable {set this} {direct : RelKey → Bool} {model : Set RelKey}

mutual

theorem freezes_rewrite
    (hthis : ∀ key, Freezes model (thisFormula set direct key) (this key))
    (key : RelKey) :
    ∀ expression : UsersetExpression,
      Freezes model (rewriteFormula set direct key expression)
        (expansionFormula set this key expression)
  | .this => by
      rw [rewriteFormula, expansionFormula]
      exact hthis key
  | .computedUserset relation => by
      rw [rewriteFormula, expansionFormula]
      exact Freezes.same _
  | .tupleToUserset tupleset computed => by
      rw [rewriteFormula, expansionFormula]
      exact Freezes.same _
  | .union expressions => by
      rw [rewriteFormula, expansionFormula]
      exact Freezes.any (freezes_rewrites hthis key expressions)
  | .intersection expressions => by
      rw [rewriteFormula, expansionFormula]
      exact Freezes.all (freezes_rewrites hthis key expressions)
  | .exclusion base exclude => by
      rw [rewriteFormula, expansionFormula]
      exact Freezes.diff (freezes_rewrite hthis key base) (freezes_rewrite hthis key exclude)

theorem freezes_rewrites
    (hthis : ∀ key, Freezes model (thisFormula set direct key) (this key))
    (key : RelKey) :
    ∀ expressions : List UsersetExpression,
      List.Forall₂ (Freezes model) (rewriteFormulas set direct key expressions)
        (expansionFormulas set this key expressions)
  | [] => by
      rw [rewriteFormulas, expansionFormulas]
      exact List.Forall₂.nil
  | expression :: rest => by
      rw [rewriteFormulas, expansionFormulas]
      exact List.Forall₂.cons (freezes_rewrite hthis key expression)
        (freezes_rewrites hthis key rest)

end

/-- The equations of an expansion freeze those of the membership. -/
theorem freezes_system
    {schema : CompiledSchema}
    (hthis : ∀ key, Freezes model (thisFormula set direct key) (this key))
    (key : RelKey) :
    Freezes model (membershipSystem schema set direct key)
      (expansionSystem set this schema key) := by
  unfold membershipSystem expansionSystem
  cases schema.definitionOf key with
  | none =>
      exact Freezes.same _
  | some definition =>
      simp only [definitionFormula]
      cases definition.usersetRewrite with
      | none =>
          exact hthis key
      | some expression =>
          exact freezes_rewrite hthis key expression

end Frozen

/-- Some live row on the key names the user or is a userset of the model. -/
def StoredMember (set : Finset Relationship) (model : Set RelKey) (user : User) (key : RelKey) :
    Prop :=
  ∃ r ∈ set, r.resource.toObject = key.object ∧ r.relation = key.relation ∧
    (r.subject.Direct user ∨ ∃ k, r.subject.userset? = some k ∧ k ∈ model)

open Classical in
/-- The stored subjects of a key, read in a model. -/
noncomputable def storedValue (set : Finset Relationship) (model : Set RelKey) (user : User)
    (key : RelKey) : Formula RelKey :=
  .const (decide (StoredMember set model user key))

/-- Without tombstones the stored subjects have the value of `this`. -/
theorem freezes_this
    [StoreHasher] {view : RelationshipStoreView}
    (hinv : view.Inv)
    (htombstones : view.tombstones = ∅)
    (user : User) (model : Set RelKey) (key : RelKey) :
    Freezes model (thisFormula view.liveSet (directMatch view user) key)
      (storedValue view.liveSet model user key) := by
  classical
  refine Freezes.value ?_
  rw [decide_eq_true_iff, thisFormula, sat_any]
  simp only [List.mem_cons, List.mem_map, exists_eq_or_imp, sat_const,
    hinv.directMatch_iff htombstones]
  unfold StoredMember
  constructor
  · rintro ⟨r, hr, hresource, hrelation, hdirect | ⟨k, hk, hmodel⟩⟩
    · exact Or.inl ⟨r, hr, hresource, hrelation, hdirect⟩
    · exact Or.inr ⟨.atom k, ⟨k, mem_storedUsersets_iff.mpr ⟨r, hr, hresource, hrelation, hk⟩,
        rfl⟩, (sat_atom _ _ _).mpr hmodel⟩
  · rintro (⟨r, hr, hresource, hrelation, hdirect⟩ | ⟨f, ⟨k, hk, rfl⟩, hsat⟩)
    · exact ⟨r, hr, hresource, hrelation, Or.inl hdirect⟩
    · obtain ⟨r, hr, hresource, hrelation, hsubject⟩ := mem_storedUsersets_iff.mp hk
      exact ⟨r, hr, hresource, hrelation, Or.inr ⟨k, hsubject, (sat_atom _ _ _).mp hsat⟩⟩

/-- The context expands over the snapshot, with the keys of the stack active. -/
structure EvaluationContext.Expanding (context : EvaluationContext) (snapshot : PublishedSnapshot)
    (stack : List ExpandKey) : Prop where
  reads : context.snapshot = snapshot
  plain : context.useActiveIndexes = false
  stack : context.expandStack = stack

/-- The keys that an expansion cuts. -/
def expandCut (stack : List ExpandKey) : Set RelKey :=
  {key | ⟨key.object, key.relation⟩ ∈ stack}

theorem expandCut_cons
    (key : RelKey) (stack : List ExpandKey) :
    expandCut (⟨key.object, key.relation⟩ :: stack) = insert key (expandCut stack) := by
  ext other
  obtain ⟨object, relation⟩ := other
  obtain ⟨object', relation'⟩ := key
  simp [expandCut]

section Expansions

variable [StoreHasher] (snapshot : PublishedSnapshot) (model : Set RelKey) (user : User)

/-- The equations of the expansions of a snapshot. -/
noncomputable def PublishedSnapshot.expansion : RelKey → Formula RelKey :=
  expansionSystem snapshot.relationships.liveSet
    (storedValue snapshot.relationships.liveSet model user) snapshot.schema

/-- Membership of the user in a tree, with its leaves read in the model. -/
def InTree (tree : ExpandedUserset) : Prop :=
  ExpandedUserset.Contains (fun object relation => ∃ name : RelationName,
    name.value = relation.name ∧ ⟨object, name⟩ ∈ model) user tree

/-- The tree answers the formula as the depth-first search over the equations does. -/
def TreeAnswers (stack : List ExpandKey) (f : Formula RelKey) (tree : ExpandedUserset) : Prop :=
  ∃ b : Bool, (b = true ↔ InTree model user tree) ∧
    Eval (snapshot.expansion model user) (expandCut stack) f b

/-- A returned tree answers the formula, and the stack is as it was. -/
def ExpandsTo (x : Evaluation ExpandedUserset) (stack : List ExpandKey) (f : Formula RelKey) :
    Prop :=
  ∀ context tree context', context.Expanding snapshot stack → x context = (.ok tree, context') →
    context'.Expanding snapshot stack ∧ TreeAnswers snapshot model user stack f tree

variable {snapshot model user}

omit [StoreHasher] in
/-- The leaves of a subject in the model. -/
theorem inTree_leaf_iff
    {subject : SubjectRef} {tree : ExpandedUserset}
    (h : subject.leaf? = some tree) :
    InTree model user tree ↔
      subject.Direct user ∨ ∃ k, subject.userset? = some k ∧ k ∈ model := by
  unfold InTree
  rw [SubjectRef.contains_leaf_iff h]
  refine or_congr_right (exists_congr (fun k => and_congr_right (fun _ => ?_)))
  constructor
  · rintro ⟨name, hname, hmem⟩
    have heq : name = k.relation := Identifier.ext hname
    rwa [heq] at hmem
  · intro hmem
    exact ⟨k.relation, rfl, hmem⟩

/-- The stored subjects of a key expand to their value in the model. -/
theorem expandsTo_this
    (hinv : snapshot.relationships.Inv)
    (htombstones : snapshot.relationships.tombstones = ∅)
    (key : RelKey) (stack : List ExpandKey) :
    ExpandsTo snapshot model user (Evaluation.expandThis key.object key.relation) stack
      (storedValue snapshot.relationships.liveSet model user key) := by
  classical
  intro context tree context' hcontext hrun
  obtain ⟨rfl, hplain, hstack⟩ := hcontext
  obtain ⟨rfl, resource, hresource, rs, users, rfl, _, hset, hleaves⟩ :=
    Evaluation.expandThis_eq_ok hrun hinv (fun resource _ =>
      hinv.scanComplete_of_no_tombstones htombstones resource key.relation
        context.fanoutQueryLimit_get)
  refine ⟨⟨rfl, hplain, hstack⟩, ?_⟩
  have hiff : InTree model user (.union users) ↔
      StoredMember context'.snapshot.relationships.liveSet model user key := by
    have hmem : ∀ r, r ∈ rs ↔ r ∈ context'.snapshot.relationships.liveSet ∧
        r.resource.toObject = key.object ∧ r.relation = key.relation := by
      intro r
      rw [← List.mem_toFinset, hset, RelationshipStoreView.liveOn, Finset.mem_filter,
        ← ObjectRef.tryFrom_ok_iff.mp hresource]
      exact and_congr_right (fun _ => and_congr_left (fun _ =>
        ⟨fun h => congrArg _ h, ObjectRef.toObject_injective⟩))
    unfold InTree StoredMember
    rw [ExpandedUserset.contains_union_iff]
    constructor
    · rintro ⟨part, hpart, hcontains⟩
      obtain ⟨r, hr, hleaf⟩ := hleaves.exists_left hpart
      obtain ⟨hlive, hobject, hrelation⟩ := (hmem r).mp hr
      exact ⟨r, hlive, hobject, hrelation, (inTree_leaf_iff hleaf).mp hcontains⟩
    · rintro ⟨r, hlive, hobject, hrelation, hgrants⟩
      obtain ⟨part, hpart, hleaf⟩ :=
        hleaves.exists_right ((hmem r).mpr ⟨hlive, hobject, hrelation⟩)
      exact ⟨part, hpart, (inTree_leaf_iff hleaf).mpr hgrants⟩
  refine ⟨decide (StoredMember context'.snapshot.relationships.liveSet model user key), ?_,
    Eval.const _⟩
  rw [decide_eq_true_iff, hiff]

omit [StoreHasher] in
/-- Trees that answer the operands answer their union. -/
theorem treeAnswers_union
    {stack : List ExpandKey} {fs : List (Formula RelKey)} {trees : List ExpandedUserset}
    (h : List.Forall₂ (TreeAnswers snapshot model user stack) fs trees) :
    TreeAnswers snapshot model user stack (.any fs) (.union trees) := by
  unfold TreeAnswers
  unfold InTree
  rw [ExpandedUserset.contains_union_iff]
  by_cases hsome : ∃ tree ∈ trees, InTree model user tree
  · obtain ⟨tree, htree, hin⟩ := hsome
    obtain ⟨f, hf, b, hb, heval⟩ := h.exists_left htree
    rw [hb.mpr hin] at heval
    exact ⟨true, iff_of_true rfl ⟨tree, htree, hin⟩, Eval.anyTrue hf heval⟩
  · refine ⟨false, iff_of_false Bool.false_ne_true hsome, Eval.anyFalse ?_⟩
    intro f hf
    obtain ⟨tree, htree, b, hb, heval⟩ := h.exists_right hf
    have hfalse : b = false := Bool.eq_false_iff.mpr (fun htrue =>
      hsome ⟨tree, htree, hb.mp htrue⟩)
    rwa [hfalse] at heval

omit [StoreHasher] in
theorem treeAnswers_intersection
    {stack : List ExpandKey} {fs : List (Formula RelKey)} {trees : List ExpandedUserset}
    (h : List.Forall₂ (TreeAnswers snapshot model user stack) fs trees) :
    TreeAnswers snapshot model user stack (.all fs) (.intersection trees) := by
  unfold TreeAnswers
  unfold InTree
  rw [ExpandedUserset.contains_intersection_iff]
  by_cases hall : ∀ tree ∈ trees, InTree model user tree
  · refine ⟨true, iff_of_true rfl hall, Eval.allTrue ?_⟩
    intro f hf
    obtain ⟨tree, htree, b, hb, heval⟩ := h.exists_right hf
    rwa [hb.mpr (hall tree htree)] at heval
  · refine ⟨false, iff_of_false Bool.false_ne_true hall, ?_⟩
    push Not at hall
    obtain ⟨tree, htree, hout⟩ := hall
    obtain ⟨f, hf, b, hb, heval⟩ := h.exists_left htree
    have hfalse : b = false := Bool.eq_false_iff.mpr (fun htrue => hout (hb.mp htrue))
    rw [hfalse] at heval
    exact Eval.allFalse hf heval

omit [StoreHasher] in
theorem treeAnswers_exclusion
    {stack : List ExpandKey} {f g : Formula RelKey} {base exclude : ExpandedUserset}
    (hbase : TreeAnswers snapshot model user stack f base)
    (hexclude : TreeAnswers snapshot model user stack g exclude) :
    TreeAnswers snapshot model user stack (.diff f g) (.exclusion base exclude) := by
  obtain ⟨b, hb, hevalBase⟩ := hbase
  obtain ⟨e, he, hevalExclude⟩ := hexclude
  unfold TreeAnswers
  unfold InTree at hb he ⊢
  rw [ExpandedUserset.Contains, ← hb, ← he]
  cases b with
  | false =>
      exact ⟨false, by simp, Eval.diffBase hevalBase⟩
  | true =>
      cases e with
      | true =>
          exact ⟨false, by simp, Eval.diffExclude hevalExclude⟩
      | false =>
          exact ⟨true, by simp, Eval.diffTrue hevalBase hevalExclude⟩

section Expressions

variable {nested : Evaluation.NestedExpand} {stack : List ExpandKey}
  (hnested : ∀ key : RelKey, ExpandsTo snapshot model user (nested key.object key.relation) stack
    (.atom key))
include hnested

omit [StoreHasher] in
/-- The userset subjects of the rows expand to the computed relation on their objects. -/
theorem expandTupleset_answers
    {computed : RelationName} {fanout : Nat} {refs : List RelationshipRef}
    {rs : List Relationship} {trees : List ExpandedUserset} {context context' : EvaluationContext}
    (hrefs : RefsDenote refs rs)
    (hcontext : context.Expanding snapshot stack)
    (h : Evaluation.expandTupleset nested computed fanout refs context = (.ok trees, context')) :
    context'.Expanding snapshot stack ∧
      List.Forall₂ (TreeAnswers snapshot model user stack)
        ((rs.filterMap (·.subject.userset?)).map
          (fun subject => .atom ⟨subject.object, computed⟩)) trees := by
  induction hrefs generalizing fanout trees context with
  | nil =>
      cases h
      exact ⟨hcontext, List.Forall₂.nil⟩
  | @cons ref r refs rs href _ ih =>
      unfold Evaluation.expandTupleset at h
      rw [(RelationshipRef.accessors_of_relationship href).1] at h
      obtain ⟨subject, hsubject, h⟩ := Action.lift_bind_eq_ok.mp h
      cases hsubject
      cases hkey : r.subject.userset? with
      | none =>
          rw [hkey] at h
          simp only [List.filterMap_cons, hkey]
          exact ih hcontext h
      | some key =>
          rw [hkey] at h
          obtain ⟨next, counted, hcount, htail⟩ := Action.bind_eq_ok.mp h
          obtain ⟨hsame, _, _⟩ := Evaluation.incrementFanout_eq_ok hcount
          obtain ⟨tree, after, htree, htail⟩ := Action.bind_eq_ok.mp htail
          obtain ⟨others, last, hothers, hlast⟩ := Action.bind_eq_ok.mp htail
          cases hlast
          rw [hsame] at htree
          obtain ⟨hafter, hanswer⟩ := hnested ⟨key.object, computed⟩ context tree after hcontext
            htree
          obtain ⟨hlast, hanswers⟩ := ih hafter hothers
          simp only [List.filterMap_cons, hkey, List.map_cons]
          exact ⟨hlast, List.Forall₂.cons hanswer hanswers⟩

/-- A tuple-to-userset rewrite expands as its part of the equations. -/
theorem expandsTo_tupleToUserset
    (hinv : snapshot.relationships.Inv)
    {key : RelKey} {tuplesetId : SchemaRelationId} {tupleset computed : RelationName}
    {target : RelationDefinition}
    (htarget : snapshot.schema.resolver.relationById tuplesetId = some target)
    (hname : target.name = tupleset) :
    ExpandsTo snapshot model user
      (Evaluation.expandTupleToUserset nested key.object tuplesetId computed) stack
      (.any ((storedUsersets snapshot.relationships.liveSet ⟨key.object, tupleset⟩).map
        (fun subject => .atom ⟨subject.object, computed⟩))) := by
  intro context tree context' hcontext h
  unfold Evaluation.expandTupleToUserset Evaluation.ofDomain at h
  obtain ⟨resource, hresource, h⟩ := Action.lift_bind_eq_ok.mp h
  have hresource := ObjectRef.tryFrom_ok_iff.mp (mapError_eq_ok hresource)
  have hread : Evaluation.relationById tuplesetId context = (.ok target, context) := by
    unfold Evaluation.relationById
    rw [Action.get_bind_apply, hcontext.reads, htarget]
    rfl
  rw [Action.bind_apply, hread] at h
  dsimp only at h
  rw [Action.get_bind_apply, hname, hcontext.reads] at h
  obtain ⟨trees, after, hrows, hlast⟩ := Action.bind_eq_ok.mp h
  cases hlast
  obtain ⟨rs, hrefs, hstored⟩ := Search.exists_rows_of_key hinv resource tupleset
  obtain ⟨hafter, hanswers⟩ := expandTupleset_answers hnested hrefs hcontext hrows
  refine ⟨hafter, ?_⟩
  rw [hresource] at hstored
  obtain ⟨b, hb, heval⟩ := treeAnswers_union hanswers
  refine ⟨b, hb, heval.congr_any ?_⟩
  intro f
  simp only [List.mem_map, List.mem_filterMap, hstored]

omit hnested in
/-- Operands that expand as their formulas do so in turn. -/
theorem expandExpressions_answers
    {key : RelKey} {expressions : List CompiledUsersetExpression}
    {formula : CompiledUsersetExpression → Formula RelKey}
    (hoperands : ∀ expression ∈ expressions, ExpandsTo snapshot model user
      (Evaluation.expandCompiledSchemaExpression nested key.object key.relation expression) stack
      (formula expression))
    {trees : List ExpandedUserset} {context context' : EvaluationContext}
    (hcontext : context.Expanding snapshot stack)
    (h : Evaluation.expandCompiledSchemaExpressions nested key.object key.relation expressions
      context = (.ok trees, context')) :
    context'.Expanding snapshot stack ∧
      List.Forall₂ (TreeAnswers snapshot model user stack) (expressions.map formula) trees := by
  induction expressions generalizing trees context with
  | nil =>
      cases h
      exact ⟨hcontext, List.Forall₂.nil⟩
  | cons expression rest ih =>
      unfold Evaluation.expandCompiledSchemaExpressions at h
      obtain ⟨tree, after, htree, htail⟩ := Action.bind_eq_ok.mp h
      obtain ⟨others, last, hothers, hlast⟩ := Action.bind_eq_ok.mp htail
      cases hlast
      obtain ⟨hafter, hanswer⟩ := hoperands expression List.mem_cons_self context tree after
        hcontext htree
      obtain ⟨hlast, hanswers⟩ := ih (fun e he => hoperands e (List.mem_cons_of_mem _ he)) hafter
        hothers
      exact ⟨hlast, List.Forall₂.cons hanswer hanswers⟩

/-- A rewrite expands as its part of the equations. -/
theorem expandsTo_expression
    (hinv : snapshot.relationships.Inv)
    (htombstones : snapshot.relationships.tombstones = ∅)
    {key : RelKey} {objectType : ObjectType} {expression : CompiledUsersetExpression}
    (hresolved : expression.ResolvedIn snapshot.schema.resolver objectType) :
    ExpandsTo snapshot model user
      (Evaluation.expandCompiledSchemaExpression nested key.object key.relation expression) stack
      (expansionFormula snapshot.relationships.liveSet
        (storedValue snapshot.relationships.liveSet model user) key expression.source) := by
  induction hresolved with
  | this =>
      unfold Evaluation.expandCompiledSchemaExpression
      rw [CompiledUsersetExpression.source, expansionFormula]
      exact expandsTo_this hinv htombstones key stack
  | @computedUserset relation id hasRewrite target htarget hget hrewrite =>
      unfold Evaluation.expandCompiledSchemaExpression
      rw [CompiledUsersetExpression.source, expansionFormula]
      exact hnested ⟨key.object, relation⟩
  | @tupleToUserset tupleset computed id target htarget hget =>
      unfold Evaluation.expandCompiledSchemaExpression
      rw [CompiledUsersetExpression.source, expansionFormula]
      exact expandsTo_tupleToUserset hnested hinv hget (SchemaResolver.mem_of_relation htarget).1
  | @union expressions _ ih =>
      unfold Evaluation.expandCompiledSchemaExpression
      rw [CompiledUsersetExpression.source, CompiledUsersetExpression.sources_eq_map,
        expansionFormula, expansionFormulas_eq_map, List.map_map]
      intro context tree context' hcontext h
      obtain ⟨trees, last, htrees, hlast⟩ := Action.bind_eq_ok.mp h
      cases hlast
      obtain ⟨hlast, hanswers⟩ := expandExpressions_answers ih hcontext htrees
      exact ⟨hlast, treeAnswers_union hanswers⟩
  | @intersection expressions _ ih =>
      unfold Evaluation.expandCompiledSchemaExpression
      rw [CompiledUsersetExpression.source, CompiledUsersetExpression.sources_eq_map,
        expansionFormula, expansionFormulas_eq_map, List.map_map]
      intro context tree context' hcontext h
      obtain ⟨trees, last, htrees, hlast⟩ := Action.bind_eq_ok.mp h
      cases hlast
      obtain ⟨hlast, hanswers⟩ := expandExpressions_answers ih hcontext htrees
      exact ⟨hlast, treeAnswers_intersection hanswers⟩
  | @exclusion base exclude _ _ ihb ihe =>
      unfold Evaluation.expandCompiledSchemaExpression
      rw [CompiledUsersetExpression.source, expansionFormula]
      intro context tree context' hcontext h
      obtain ⟨baseTree, after, hbase, h⟩ := Action.bind_eq_ok.mp h
      obtain ⟨hafter, hanswerBase⟩ := ihb context baseTree after hcontext hbase
      obtain ⟨excludeTree, last, hexclude, h⟩ := Action.bind_eq_ok.mp h
      obtain ⟨hlast, hanswerExclude⟩ := ihe after excludeTree last hafter hexclude
      cases h
      exact ⟨hlast, treeAnswers_exclusion hanswerBase hanswerExclude⟩

/-- The body of a key expands as the right-hand side of its equation. -/
theorem expandsTo_body
    (hinv : snapshot.relationships.Inv)
    (htombstones : snapshot.relationships.tombstones = ∅)
    (hschema : snapshot.schema.Accepted)
    (key : RelKey) :
    ExpandsTo snapshot model user
      (Evaluation.expandRelationNameEntered nested key.object key.relation) stack
      (snapshot.expansion model user key) := by
  intro context tree context' hcontext h
  unfold Evaluation.expandRelationNameEntered Evaluation.ofDomain Evaluation.ofSchema at h
  obtain ⟨objectType, htype, h⟩ := Action.lift_bind_eq_ok.mp h
  rw [Action.get_bind_apply, hcontext.reads] at h
  obtain ⟨definition, hdefinition, h⟩ := Action.lift_bind_eq_ok.mp h
  have hrelation := mapError_eq_ok hdefinition
  have hfound : snapshot.schema.definitionOf key = some definition := by
    unfold CompiledSchema.definitionOf
    simp only [mapError_eq_ok htype, hrelation]
    rfl
  obtain ⟨hsource, hresolved⟩ := hschema.relation hrelation
  unfold PublishedSnapshot.expansion expansionSystem
  simp only [hfound]
  cases hcompiled : definition.compiledUsersetRewrite with
  | none =>
      rw [hcompiled] at hsource h
      rw [← hsource]
      exact expandsTo_this hinv htombstones key stack context tree context' hcontext h
  | some expression =>
      rw [hcompiled] at hsource h
      rw [← hsource]
      exact expandsTo_expression hnested hinv htombstones (hresolved expression hcompiled) context
        tree context' hcontext h

end Expressions

omit [StoreHasher] in
/-- Opening a key puts it on the stack. -/
theorem expanding_openExpandKey
    {key : ExpandKey} {stack : List ExpandKey} {context context' : EvaluationContext}
    (hcontext : context.Expanding snapshot stack)
    (h : Evaluation.openExpandKey key context = (.ok (), context')) :
    context'.Expanding snapshot (key :: stack) := by
  unfold Evaluation.openExpandKey at h
  obtain ⟨_, entered, henter, h⟩ := Action.bind_eq_ok.mp h
  have hentered : entered.Expanding snapshot stack := by
    unfold Evaluation.enter at henter
    rw [Action.get_bind_apply] at henter
    split at henter
    · cases henter
    · cases henter
      unfold EvaluationContext.recordCheckFrameDepth
      obtain ⟨hover, hplain, hstack⟩ := hcontext
      split <;> exact ⟨hover, hplain, hstack⟩
  cases h
  obtain ⟨hover, hplain, hstack⟩ := hentered
  unfold EvaluationContext.pushExpandKey
  simp only [hplain, Bool.false_and, Bool.false_eq_true, if_false]
  exact ⟨hover, rfl, congrArg _ hstack⟩

omit [StoreHasher] in
/-- Closing a key takes it off the stack. -/
theorem expanding_closeExpandKey
    {key : ExpandKey} {stack : List ExpandKey} {context context' : EvaluationContext}
    (hcontext : context.Expanding snapshot (key :: stack))
    (h : Evaluation.closeExpandKey context = (.ok (), context')) :
    context'.Expanding snapshot stack := by
  obtain ⟨hover, hplain, hstack⟩ := hcontext
  cases h
  change context.popExpandKey.leave.Expanding snapshot stack
  unfold EvaluationContext.popExpandKey EvaluationContext.deactivateExpandKey
    EvaluationContext.leave
  rw [hstack]
  dsimp only
  split
  · split <;> exact ⟨hover, hplain, rfl⟩
  · exact ⟨hover, hplain, rfl⟩

omit [StoreHasher] in
/-- A key that is not active expands as its equation, with the key cut. -/
theorem expandsTo_key
    {key : RelKey} {stack : List ExpandKey} {evaluate : Evaluation ExpandedUserset}
    (hevaluate : ExpandsTo snapshot model user evaluate (⟨key.object, key.relation⟩ :: stack)
      (snapshot.expansion model user key)) :
    ExpandsTo snapshot model user
      (Evaluation.evaluateExpandKey ⟨key.object, key.relation⟩ evaluate) stack (.atom key) := by
  intro context tree context' hcontext h
  unfold Evaluation.evaluateExpandKey at h
  rw [Action.get_bind_apply] at h
  have hactive : context.isExpandActive ⟨key.object, key.relation⟩ = true ↔
      key ∈ expandCut stack := by
    unfold EvaluationContext.isExpandActive
    rw [hcontext.plain, hcontext.stack]
    exact decide_eq_true_iff
  by_cases hcut : key ∈ expandCut stack
  · rw [if_pos (hactive.mpr hcut)] at h
    cases h
    refine ⟨hcontext, false, ?_, Eval.cut hcut⟩
    unfold InTree
    rw [ExpandedUserset.contains_union_iff]
    simp
  · rw [if_neg (fun hfound => hcut (hactive.mp hfound))] at h
    obtain ⟨_, opened, hopen, h⟩ := Action.bind_eq_ok.mp h
    obtain ⟨result, evaluated, hattempt, h⟩ := Action.bind_eq_ok.mp h
    obtain ⟨_, closed, hclose, h⟩ := Action.bind_eq_ok.mp h
    obtain ⟨hresult, hclosed⟩ := Prod.mk.inj h
    subst hresult hclosed
    have hrun : evaluate opened = (.ok tree, evaluated) := by
      unfold Action.attempt at hattempt
      obtain ⟨hvalue, hstate⟩ := Prod.mk.inj hattempt
      exact Prod.ext (Except.ok.inj hvalue) hstate
    obtain ⟨hevaluated, b, hb, heval⟩ :=
      hevaluate opened tree evaluated (expanding_openExpandKey hcontext hopen) hrun
    refine ⟨expanding_closeExpandKey hevaluated hclose, b, hb, Eval.enter hcut ?_⟩
    rwa [← expandCut_cons]

/-- Nested expansions follow the equations, at every depth. -/
theorem expandsTo_relationName
    (hinv : snapshot.relationships.Inv)
    (htombstones : snapshot.relationships.tombstones = ∅)
    (hschema : snapshot.schema.Accepted)
    (fuel : Nat) (key : RelKey) (stack : List ExpandKey) :
    ExpandsTo snapshot model user (Evaluation.expandRelationName fuel key.object key.relation)
      stack (.atom key) := by
  induction fuel generalizing key stack with
  | zero =>
      refine expandsTo_key ?_
      intro context tree context' _ h
      cases h
  | succ fuel ih =>
      exact expandsTo_key (expandsTo_body (fun key => ih key _) hinv htombstones hschema key)

end Expansions

/-- On every stratified snapshot without tombstones a user is in the tree of an expansion iff
a check allows the user, the userset leaves being read by checks of their own. -/
theorem expand_agrees_with_check
    [StoreHasher] {snapshot : PublishedSnapshot}
    (hsnapshot : snapshot.Admissible)
    (htombstones : snapshot.relationships.tombstones = ∅)
    {user : User} {level : RelKey → Nat}
    (hlevel : IsStratification (snapshot.system user) level)
    {object : Object} {relation : Relation} {expandLimits checkLimits : EvaluationLimits}
    {tree : ExpandedUserset} {m : Membership}
    (hexpand : expandWithSnapshot snapshot object relation expandLimits = .ok tree)
    (hcheck : checkWithSnapshot snapshot object relation user checkLimits = .ok m)
    (leafLimits : Object → Relation → EvaluationLimits)
    (hleaves : ∀ leaf ∈ tree.usersetLeaves, ∃ answer,
      checkWithSnapshot snapshot leaf.1 leaf.2 user (leafLimits leaf.1 leaf.2) = .ok answer) :
    tree.Contains (fun leafObject leafRelation =>
        checkWithSnapshot snapshot leafObject leafRelation user
          (leafLimits leafObject leafRelation) = .ok .allowed) user ↔
      m = .allowed := by
  have hagrees := fun {object relation limits m} =>
    (check_computes_leastModel hsnapshot hlevel object relation limits m).1
  -- the leaves are checked as the least model says
  have hread : tree.Contains (fun leafObject leafRelation =>
      checkWithSnapshot snapshot leafObject leafRelation user
        (leafLimits leafObject leafRelation) = .ok .allowed) user ↔
      InTree (leastModel (snapshot.system user) level) user tree := by
    refine ExpandedUserset.contains_congr tree ?_
    rintro ⟨leafObject, leafRelation⟩ hleaf
    obtain ⟨answer, hanswer⟩ := hleaves _ hleaf
    obtain ⟨name, hname, hiff⟩ := hagrees hanswer
    rw [hanswer, Except.ok.injEq, hiff]
    constructor
    · exact fun hmem => ⟨name, hname, hmem⟩
    · rintro ⟨other, hother, hmem⟩
      have heq : other = name := Identifier.ext (hother.trans hname.symm)
      rwa [heq] at hmem
  -- the expansion follows equations with the same least model
  have hfreeze : ∀ key, Freezes (leastModel (snapshot.system user) level)
      (snapshot.system user key)
      (snapshot.expansion (leastModel (snapshot.system user) level) user key) :=
    freezes_system (fun key => freezes_this hsnapshot.inv htombstones user _ key)
  unfold expandWithSnapshot at hexpand
  rcases hrun : Evaluation.expand object relation (.new snapshot expandLimits) with ⟨result, last⟩
  rw [hrun] at hexpand
  cases hexpand
  unfold Evaluation.expand Evaluation.ofDomain at hrun
  obtain ⟨name, hname, hrun⟩ := Action.lift_bind_eq_ok.mp hrun
  have hname := Identifier.new_ok_iff.mp (mapError_eq_ok hname)
  rw [Action.get_bind_apply] at hrun
  obtain ⟨_, b, hb, heval⟩ := expandsTo_relationName hsnapshot.inv htombstones hsnapshot.schema _
    ⟨object, name⟩ [] (.new snapshot expandLimits) tree last ⟨rfl, rfl, rfl⟩ hrun
  have hcut : expandCut [] = ∅ := by
    ext key
    simp [expandCut]
  rw [hcut] at heval
  obtain ⟨other, hother, hiff⟩ := hagrees hcheck
  have hsame : other = name := Identifier.ext (hother.trans hname.symm)
  rw [hsame] at hiff
  rw [hread, ← hb, hiff, ← leastModel_freeze hlevel hfreeze]
  exact eval_atom_iff_leastModel (hlevel.freeze hfreeze) heval

/-- Two groups that contain each other own a document: the expansion of its viewers contains
the member of one group, whom a check allows. -/
theorem expand_agrees_with_check_cyclic_groups :
    ∃ snapshot tree, @PublishedSnapshot.Admissible fnvHasher snapshot ∧
      @expandWithSnapshot fnvHasher snapshot ⟨"doc", "1"⟩ ⟨"viewer"⟩ .default = .ok tree ∧
      tree.usersetLeaves = [(⟨"group", "a"⟩, ⟨"member"⟩)] ∧
      tree.Contains (fun leafObject leafRelation =>
        @checkWithSnapshot fnvHasher snapshot leafObject leafRelation (.userId "alice")
          .default = .ok .allowed) (.userId "alice") := by
  let _ := fnvHasher
  have hrun : ((WriterCommand.runAll .latestFirst
      [.applyNamespaceConfigs
        [.ofRelations "group" [("member", none)],
          .ofRelations "doc" [("owner", none),
            ("viewer", some (.union [.this, .computedUserset ⟨"owner"⟩]))]],
        .applyRelationshipMutations
          [.create ⟨objectLit "group" "a", relationLit "member",
              .userset (objectLit "group" "b") (relationLit "member")⟩,
            .create ⟨objectLit "group" "b", relationLit "member",
              .userset (objectLit "group" "a") (relationLit "member")⟩,
            .create ⟨objectLit "group" "b", relationLit "member",
              .object (objectLit "user" "alice")⟩,
            .create ⟨objectLit "doc" "1", relationLit "owner",
              .userset (objectLit "group" "a") (relationLit "member")⟩] []] .new).map
      (fun state => state.published.map (fun snapshot =>
        ((snapshot.schema.exclusionFree, decide (snapshot.relationships.tombstones = ∅)),
          (checkWithSnapshot snapshot ⟨"doc", "1"⟩ ⟨"viewer"⟩ (.userId "alice")
            .default).toOption,
          (checkWithSnapshot snapshot ⟨"group", "a"⟩ ⟨"member"⟩ (.userId "alice")
            .default).toOption,
          ((expandWithSnapshot snapshot ⟨"doc", "1"⟩ ⟨"viewer"⟩ .default).map (fun tree =>
            decide (tree.usersetLeaves = [(⟨"group", "a"⟩, ⟨"member"⟩)]))).toOption)))).toOption =
      some (some ((true, true), some .allowed, some .allowed, some true)) := by
    decide +kernel
  obtain ⟨snapshot, hreachable, hresult⟩ := exists_published_of_runAll hrun
  obtain ⟨hfacts, hresult⟩ := Prod.mk.inj hresult
  obtain ⟨hfree, htombstones⟩ := Prod.mk.inj hfacts
  obtain ⟨hcheck, hresult⟩ := Prod.mk.inj hresult
  obtain ⟨hleaf, hexpand⟩ := Prod.mk.inj hresult
  obtain ⟨tree, htree, hleaves⟩ := exists_ok_of_map_toOption hexpand
  have hleaves := of_decide_eq_true hleaves
  refine ⟨snapshot, tree, hreachable.admissible, htree, hleaves, ?_⟩
  refine (expand_agrees_with_check hreachable.admissible (of_decide_eq_true htombstones)
    (isStratification_of_exclusionFree hfree) htree (eq_ok_of_toOption hcheck)
    (fun _ _ => .default) ?_).mpr rfl
  intro leaf hmem
  rw [hleaves] at hmem
  rw [List.mem_singleton.mp hmem]
  exact ⟨.allowed, eq_ok_of_toOption hleaf⟩

end SimpleZanzibar
