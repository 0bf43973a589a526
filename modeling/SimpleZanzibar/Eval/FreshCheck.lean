import SimpleZanzibar.Eval.CheckCorrect
import SimpleZanzibar.WriterCorrect

/-!
# Checks on a fresh context

Without memo a check is the plain depth-first search.  On a stratified snapshot the
search computes the stratum-by-stratum least fixpoint, over any cycles of the data and
of the schema.
-/

namespace SimpleZanzibar

open BoolSystem

section RootKeys

variable [StoreHasher]

/-- All identifiers of the check are interned, and no overlay is present. -/
def Interned (snapshot : PublishedSnapshot) (user : User) (key : RelKey) : Prop :=
  (snapshot.relationships.storeCheckKey key.object key.relation.value user).isSome = true

namespace Search

variable {snapshot : PublishedSnapshot} {user : User} {key : RelKey}

/-- An interned root meets itself again on its stack. -/
theorem rootCut_of_interned
    (h : Interned snapshot user key) :
    rootCut snapshot user key = {key} := by
  obtain ⟨storeKey, hkey⟩ := Option.isSome_iff_exists.mp h
  have hroot : CheckKey.new snapshot key.object ⟨key.relation.value⟩ user =
      CheckKey.fromRelationName snapshot key.object key.relation user := by
    unfold CheckKey.new CheckKey.fromRelationName
    simp only [hkey]
  unfold rootCut
  rw [hroot, cutSet_cons]
  ext other
  simp [cutSet]

/-- A root that is not interned has a key of its own, which no nested key equals. -/
theorem rootCut_of_not_interned
    (h : ¬ Interned snapshot user key) :
    rootCut snapshot user key = ∅ := by
  have hnone : snapshot.relationships.storeCheckKey key.object key.relation.value user = none :=
    Option.not_isSome_iff_eq_none.mp h
  ext other
  simp only [rootCut, cutSet, CheckKey.new, hnone, List.mem_singleton, Set.mem_ofPred_eq,
    Set.mem_empty_iff_false, iff_false]
  unfold CheckKey.fromRelationName
  intro hsame
  split at hsame <;> cases hsame

/-- The root cuts itself or nothing. -/
theorem rootCut_subset
    (snapshot : PublishedSnapshot) (user : User) (key : RelKey) :
    rootCut snapshot user key ⊆ {key} := by
  by_cases hinterned : Interned snapshot user key
  · rw [rootCut_of_interned hinterned]
  · rw [rootCut_of_not_interned hinterned]
    exact Set.empty_subset _

/-- The search of a context without memo. -/
def direct (snapshot : PublishedSnapshot) : Search snapshot where
  Context _ _ _ := True
  Answer user S _ f b := Eval (snapshot.system user) S f b
  memoised := False
  Memo _ _ _ := True
  laws _ := answerLaws_eval

theorem valid_direct_new
    (snapshot : PublishedSnapshot) (limits : EvaluationLimits) :
    (direct snapshot).Valid (.new snapshot limits) :=
  ⟨rfl, EvaluationContext.activeInv_new snapshot limits, fun _ h => (by cases h)⟩

end Search

end RootKeys

section Admissible

variable [StoreHasher]

/-- An accepted schema over a view that an engine can hold. -/
structure PublishedSnapshot.Admissible (snapshot : PublishedSnapshot) : Prop where
  schema : snapshot.schema.Accepted
  view : ∃ state, WriterReachable state ∧ state.relationships = snapshot.relationships

theorem PublishedSnapshot.Admissible.inv
    {snapshot : PublishedSnapshot}
    (h : snapshot.Admissible) :
    snapshot.relationships.Inv := by
  obtain ⟨state, hstate, hview⟩ := h.view
  exact hview ▸ hstate.invariant.relationships

theorem PublishedSnapshot.Reachable.admissible
    {snapshot : PublishedSnapshot}
    (h : snapshot.Reachable) :
    snapshot.Admissible := by
  obtain ⟨state, hstate, hpublished⟩ := h
  obtain ⟨schema, hschema, rfl⟩ := Option.map_eq_some_iff.mp hpublished
  exact ⟨hstate.invariant.schema schema hschema, state, hstate, rfl⟩

variable {snapshot : PublishedSnapshot}

/-- The answer of the search from the root of a check. -/
def RootEval (snapshot : PublishedSnapshot) (user : User) (key : RelKey) (b : Bool) : Prop :=
  Eval (snapshot.system user) (Search.rootCut snapshot user key) (snapshot.system user key) b

/-- A relation whose search answers true is declared. -/
theorem RootEval.exists_definition
    {snapshot : PublishedSnapshot} {user : User} {key : RelKey}
    (h : RootEval snapshot user key true) :
    ∃ definition, snapshot.schema.definitionOf key = some definition := by
  unfold RootEval at h
  unfold PublishedSnapshot.system membershipSystem at h
  cases hdefinition : snapshot.schema.definitionOf key with
  | none =>
      rw [hdefinition] at h
      cases h
  | some definition => exact ⟨definition, rfl⟩

/-- A fresh check over a sound view and an accepted schema answers its key by the plain
search. -/
theorem PublishedSnapshot.check_eval
    (hview : snapshot.relationships.Inv)
    (hschema : snapshot.schema.Accepted)
    {object : Object} {relation : Relation} {user : User} {limits : EvaluationLimits}
    {m : Membership}
    (hcheck : checkWithSnapshot snapshot object relation user limits = .ok m) :
    ∃ (name : RelationName) (b : Bool), name.value = relation.name ∧ m = .ofBool b ∧
      RootEval snapshot user ⟨object, name⟩ b := by
  have hleaves : (Evaluation.check object relation user).Leaves (.new snapshot limits)
      ((Search.direct snapshot).Returns (.new snapshot limits)
        ((Search.direct snapshot).RootAnswer user object relation)) :=
    Search.check_answered hview hschema (Search.valid_direct_new snapshot limits) rfl
      (fun _ _ => trivial)
  obtain ⟨b, rfl, name, hname, heval⟩ := hleaves.answer m hcheck
  exact ⟨name, b, hname, rfl, heval⟩

theorem PublishedSnapshot.Admissible.check_eval
    (h : snapshot.Admissible)
    {object : Object} {relation : Relation} {user : User} {limits : EvaluationLimits}
    {m : Membership}
    (hcheck : checkWithSnapshot snapshot object relation user limits = .ok m) :
    ∃ (name : RelationName) (b : Bool), name.value = relation.name ∧ m = .ofBool b ∧
      RootEval snapshot user ⟨object, name⟩ b :=
  PublishedSnapshot.check_eval h.inv h.schema hcheck

/-- The same of a prepared check. -/
theorem PublishedSnapshot.Admissible.checkPrepared_eval
    (h : snapshot.Admissible)
    {object : Object} {relation : Relation} {user : User} {limits : EvaluationLimits}
    {definition : RelationDefinition} {m : Membership}
    (hname : definition.name.value = relation.name)
    (hdefinition : snapshot.schema.definitionOf ⟨object, definition.name⟩ = some definition)
    (hcheck : checkPreparedWithSnapshot snapshot object relation user definition limits =
      .ok m) :
    ∃ b : Bool, m = .ofBool b ∧ RootEval snapshot user ⟨object, definition.name⟩ b := by
  have hleaves : (Evaluation.checkPrepared object relation user definition).Leaves
      (.new snapshot limits)
      ((Search.direct snapshot).Returns (.new snapshot limits)
        ((Search.direct snapshot).RootAnswer user object relation)) :=
    Search.checkPrepared_answered h.inv h.schema hname hdefinition
      (Search.valid_direct_new snapshot limits) rfl (fun _ _ => trivial)
  obtain ⟨b, rfl, name, hsame, heval⟩ := hleaves.answer m hcheck
  have hkey : name = definition.name := Identifier.ext (hsame.trans hname.symm)
  exact ⟨b, rfl, hkey ▸ heval⟩

/-- On a stratified snapshot the search from a root decides the least fixpoint, whether the
root is cut or not. -/
theorem eval_root_iff_leastModel
    {user : User} {level : RelKey → Nat}
    (hlevel : IsStratification (snapshot.system user) level)
    {key : RelKey} {b : Bool} {S : Set RelKey}
    (hS : S ⊆ {key})
    (h : Eval (snapshot.system user) S (snapshot.system user key) b) :
    b = true ↔ key ∈ leastModel (snapshot.system user) level := by
  rcases Set.subset_singleton_iff_eq.mp hS with rfl | rfl
  · exact eval_body_iff_leastModel hlevel h
  · have hatom : Eval (snapshot.system user) ∅ (.atom key) b := by
      refine Eval.enter (Set.notMem_empty key) ?_
      rwa [insert_empty_eq]
    exact eval_atom_iff_leastModel hlevel hatom

theorem rootEval_iff_leastModel
    {user : User} {level : RelKey → Nat}
    (hlevel : IsStratification (snapshot.system user) level)
    {key : RelKey} {b : Bool}
    (h : RootEval snapshot user key b) :
    b = true ↔ key ∈ leastModel (snapshot.system user) level :=
  eval_root_iff_leastModel hlevel (Search.rootCut_subset snapshot user key) h

/-- The answer is `Allowed` iff the user belongs to the relation of the object in the
stratum-by-stratum least fixpoint. -/
def AgreesWithFixpoint (snapshot : PublishedSnapshot) (level : RelKey → Nat) (user : User)
    (object : Object) (relation : Relation) (m : Membership) : Prop :=
  ∃ name : RelationName, name.value = relation.name ∧
    (m = .allowed ↔ ⟨object, name⟩ ∈ leastModel (snapshot.system user) level)

/-- On every stratified snapshot, a check and a prepared check on a fresh context that
return an answer return the one of the least fixpoint. -/
theorem check_computes_leastModel
    (hsnapshot : snapshot.Admissible)
    {user : User} {level : RelKey → Nat}
    (hlevel : IsStratification (snapshot.system user) level)
    (object : Object) (relation : Relation) (limits : EvaluationLimits) (m : Membership) :
    (checkWithSnapshot snapshot object relation user limits = .ok m →
      AgreesWithFixpoint snapshot level user object relation m) ∧
    ∀ definition : RelationDefinition, definition.name.value = relation.name →
      snapshot.schema.definitionOf ⟨object, definition.name⟩ = some definition →
      checkPreparedWithSnapshot snapshot object relation user definition limits = .ok m →
      AgreesWithFixpoint snapshot level user object relation m := by
  constructor
  · intro hcheck
    obtain ⟨name, b, hname, rfl, heval⟩ := hsnapshot.check_eval hcheck
    refine ⟨name, hname, ?_⟩
    rw [Membership.ofBool_eq_allowed_iff]
    exact rootEval_iff_leastModel hlevel heval
  · intro definition hname hdefinition hcheck
    obtain ⟨b, rfl, heval⟩ := hsnapshot.checkPrepared_eval hname hdefinition hcheck
    refine ⟨definition.name, hname, ?_⟩
    rw [Membership.ofBool_eq_allowed_iff]
    exact rootEval_iff_leastModel hlevel heval

end Admissible

namespace UsersetExpression

mutual

/-- The rewrite has no exclusion. -/
def exclusionFree : UsersetExpression → Bool
  | .this => true
  | .computedUserset _ => true
  | .tupleToUserset _ _ => true
  | .union expressions => exclusionsFree expressions
  | .intersection expressions => exclusionsFree expressions
  | .exclusion _ _ => false

def exclusionsFree : List UsersetExpression → Bool
  | [] => true
  | expression :: rest => exclusionFree expression && exclusionsFree rest

end

end UsersetExpression

section ExclusionFree

variable {set : Finset Relationship} {direct : RelKey → Bool}

theorem not_refersExcluded_this
    {key k : RelKey} :
    ¬ Formula.RefersExcluded (thisFormula set direct key) k := by
  intro h
  cases h with
  | any hf h =>
      rcases List.mem_cons.mp hf with rfl | hf
      · cases h
      · obtain ⟨subject, _, rfl⟩ := List.mem_map.mp hf
        cases h

mutual

theorem not_refersExcluded_rewrite
    {key k : RelKey} :
    ∀ expression : UsersetExpression, expression.exclusionFree = true →
      ¬ Formula.RefersExcluded (rewriteFormula set direct key expression) k
  | .this, _ => not_refersExcluded_this
  | .computedUserset relation, _ => by
      rw [rewriteFormula]
      intro h
      cases h
  | .tupleToUserset tupleset computed, _ => by
      rw [rewriteFormula]
      intro h
      cases h with
      | any hf h =>
          obtain ⟨subject, _, rfl⟩ := List.mem_map.mp hf
          cases h
  | .union expressions, hfree => by
      rw [rewriteFormula]
      intro h
      cases h with
      | any hf h =>
          exact not_refersExcluded_rewrites expressions hfree _ hf h
  | .intersection expressions, hfree => by
      rw [rewriteFormula]
      intro h
      cases h with
      | all hf h =>
          exact not_refersExcluded_rewrites expressions hfree _ hf h
  | .exclusion base exclude, hfree => by
      cases hfree

theorem not_refersExcluded_rewrites
    {key k : RelKey} :
    ∀ expressions : List UsersetExpression, UsersetExpression.exclusionsFree expressions = true →
      ∀ f ∈ rewriteFormulas set direct key expressions, ¬ Formula.RefersExcluded f k
  | [], _, f, hf => by
      cases hf
  | expression :: rest, hfree, f, hf => by
      rw [UsersetExpression.exclusionsFree, Bool.and_eq_true] at hfree
      rw [rewriteFormulas] at hf
      rcases List.mem_cons.mp hf with rfl | hf
      · exact not_refersExcluded_rewrite expression hfree.1
      · exact not_refersExcluded_rewrites rest hfree.2 f hf

end

/-- No relation of the schema has an exclusion in its rewrite. -/
def CompiledSchema.exclusionFree (schema : CompiledSchema) : Bool :=
  schema.resolver.definitions.all (fun definition =>
    definition.relations.all (fun relation =>
      relation.usersetRewrite.all (·.exclusionFree)))

/-- The definition of a key stands in the schema. -/
theorem mem_of_definitionOf
    {schema : CompiledSchema} {key : RelKey} {definition : RelationDefinition}
    (h : schema.definitionOf key = some definition) :
    ∃ namespaceDefinition ∈ schema.resolver.definitions,
      definition ∈ namespaceDefinition.relations := by
  unfold CompiledSchema.definitionOf at h
  split at h
  · next objectType _ =>
      cases hfound : schema.resolver.relation objectType key.relation with
      | error error =>
          rw [hfound] at h
          cases h
      | ok found =>
          rw [hfound] at h
          cases h
          obtain ⟨_, i, j, namespaceDefinition, hi, _, hj⟩ :=
            SchemaResolver.mem_of_relation hfound
          exact ⟨namespaceDefinition, List.mem_of_getElem? hi, List.mem_of_getElem? hj⟩
  · cases h

/-- Over a schema without exclusions every snapshot is stratified by one level. -/
theorem isStratification_of_exclusionFree
    {schema : CompiledSchema}
    (hfree : schema.exclusionFree = true) :
    IsStratification (membershipSystem schema set direct) (fun _ => 0) := by
  refine ⟨fun _ => Nat.le_refl 0, ?_⟩
  intro t k h
  exfalso
  unfold membershipSystem at h
  cases hdefinition : schema.definitionOf t with
  | none =>
      rw [hdefinition] at h
      cases h
  | some definition =>
      simp only [hdefinition] at h
      obtain ⟨namespaceDefinition, hi, hj⟩ := mem_of_definitionOf hdefinition
      have hrewrite : definition.usersetRewrite.all (·.exclusionFree) = true :=
        List.all_eq_true.mp (List.all_eq_true.mp hfree _ hi) _ hj
      unfold definitionFormula at h
      cases hexpression : definition.usersetRewrite with
      | none =>
          rw [hexpression] at h
          exact not_refersExcluded_this h
      | some expression =>
          rw [hexpression] at h hrewrite
          exact not_refersExcluded_rewrite expression hrewrite h

end ExclusionFree

namespace UsersetExpression

variable (rank : RelationName → Nat) (relation : RelationName)

mutual

/-- The rewrite of the relation follows relations of lower rank only. -/
def ranked : UsersetExpression → Bool
  | .this => true
  | .computedUserset target => decide (rank target < rank relation)
  | .tupleToUserset _ computed => decide (rank computed < rank relation)
  | .union expressions => allRanked expressions
  | .intersection expressions => allRanked expressions
  | .exclusion base exclude => ranked base && ranked exclude

def allRanked : List UsersetExpression → Bool
  | [] => true
  | expression :: rest => ranked expression && allRanked rest

end

end UsersetExpression

/-- All references of the snapshot, in rewrites and in rows, go to relations of lower rank. -/
def PublishedSnapshot.ranked (snapshot : PublishedSnapshot) (rank : RelationName → Nat) : Bool :=
  snapshot.schema.resolver.definitions.all (fun definition =>
    definition.relations.all (fun relation =>
      relation.usersetRewrite.all (·.ranked rank relation.name))) &&
  snapshot.relationships.rows.all (fun r =>
    r.subject.userset?.all (fun subject => decide (rank subject.relation < rank r.relation)))

section Ranked

variable {set : Finset Relationship} {direct : RelKey → Bool} {rank : RelationName → Nat}

mutual

theorem refers_of_ranked
    (hrows : ∀ key, ∀ k ∈ storedUsersets set key, rank k.relation < rank key.relation)
    {key k : RelKey} :
    ∀ expression : UsersetExpression, expression.ranked rank key.relation = true →
      Formula.Refers (rewriteFormula set direct key expression) k →
      rank k.relation < rank key.relation
  | .this, _, h => hrows key k (refers_thisFormula h)
  | .computedUserset target, hranked, h => by
      cases h
      exact of_decide_eq_true hranked
  | .tupleToUserset tupleset computed, hranked, h => by
      cases h with
      | any hf h =>
          obtain ⟨subject, _, rfl⟩ := List.mem_map.mp hf
          cases h
          exact of_decide_eq_true hranked
  | .union expressions, hranked, h => by
      cases h with
      | any hf h => exact refers_of_allRanked hrows expressions hranked _ hf h
  | .intersection expressions, hranked, h => by
      cases h with
      | all hf h => exact refers_of_allRanked hrows expressions hranked _ hf h
  | .exclusion base exclude, hranked, h => by
      rw [UsersetExpression.ranked, Bool.and_eq_true] at hranked
      cases h with
      | base h => exact refers_of_ranked hrows base hranked.1 h
      | exclude h => exact refers_of_ranked hrows exclude hranked.2 h

theorem refers_of_allRanked
    (hrows : ∀ key, ∀ k ∈ storedUsersets set key, rank k.relation < rank key.relation)
    {key k : RelKey} :
    ∀ expressions : List UsersetExpression,
      UsersetExpression.allRanked rank key.relation expressions = true →
      ∀ f ∈ rewriteFormulas set direct key expressions, Formula.Refers f k →
        rank k.relation < rank key.relation
  | [], _, f, hf, _ => by
      cases hf
  | expression :: rest, hranked, f, hf, h => by
      rw [UsersetExpression.allRanked, Bool.and_eq_true] at hranked
      rw [rewriteFormulas] at hf
      rcases List.mem_cons.mp hf with rfl | hf
      · exact refers_of_ranked hrows expression hranked.1 h
      · exact refers_of_allRanked hrows rest hranked.2 f hf h

end

/-- In a ranked snapshot every reference goes down. -/
theorem PublishedSnapshot.refers_of_ranked
    [StoreHasher] {snapshot : PublishedSnapshot}
    (h : snapshot.ranked rank = true)
    {user : User} {t k : RelKey}
    (hrefers : Formula.Refers (snapshot.system user t) k) :
    rank k.relation < rank t.relation := by
  unfold PublishedSnapshot.ranked at h
  rw [Bool.and_eq_true] at h
  obtain ⟨hschema, hrows⟩ := h
  have hstored : ∀ key, ∀ k ∈ storedUsersets snapshot.relationships.liveSet key,
      rank k.relation < rank key.relation := by
    intro key k hk
    obtain ⟨r, hr, _, hrelation, hsubject⟩ := mem_storedUsersets_iff.mp hk
    have hrow := List.all_eq_true.mp hrows r (RelationshipStoreView.mem_liveSet_iff.mp hr)
    rw [hsubject, hrelation] at hrow
    exact of_decide_eq_true hrow
  unfold PublishedSnapshot.system membershipSystem at hrefers
  cases hdefinition : snapshot.schema.definitionOf t with
  | none =>
      rw [hdefinition] at hrefers
      cases hrefers
  | some definition =>
      simp only [hdefinition] at hrefers
      unfold definitionFormula at hrefers
      obtain ⟨namespaceDefinition, hi, hj⟩ := mem_of_definitionOf hdefinition
      obtain ⟨_, _, hrelation⟩ := CompiledSchema.definitionOf_eq_some.mp hdefinition
      have hrewrite := List.all_eq_true.mp (List.all_eq_true.mp hschema _ hi) _ hj
      rw [(SchemaResolver.mem_of_relation hrelation).1] at hrewrite
      cases hexpression : definition.usersetRewrite with
      | none =>
          rw [hexpression] at hrefers
          exact hstored t k (refers_thisFormula hrefers)
      | some expression =>
          rw [hexpression] at hrefers hrewrite
          exact SimpleZanzibar.refers_of_ranked hstored expression hrewrite hrefers

end Ranked

/-- The snapshot that commands publish, with what is read off it. -/
theorem exists_published_of_runAll
    [StoreHasher] {listing : MapListing} {commands : List WriterCommand} {β : Type}
    {f : PublishedSnapshot → β} {value : β}
    (h : ((WriterCommand.runAll listing commands .new).map (fun state =>
      state.published.map f)).toOption = some (some value)) :
    ∃ snapshot : PublishedSnapshot, snapshot.Reachable ∧ f snapshot = value := by
  obtain ⟨state, hstate, hvalue⟩ := exists_ok_of_map_toOption h
  obtain ⟨snapshot, hsnapshot, hvalue⟩ := Option.map_eq_some_iff.mp hvalue
  exact ⟨snapshot, ⟨state, WriterReachable.new.runAll hstate, hsnapshot⟩, hvalue⟩

/-- Two groups that contain each other own a document: the snapshot is stratified, and the
check of the viewer answers as the fixpoint does. -/
theorem check_computes_leastModel_cyclic_groups :
    ∃ snapshot, @PublishedSnapshot.Admissible fnvHasher snapshot ∧
      IsStratification (@PublishedSnapshot.system fnvHasher snapshot (.userId "alice"))
        (fun _ => 0) ∧
      @checkWithSnapshot fnvHasher snapshot ⟨"doc", "1"⟩ ⟨"viewer"⟩ (.userId "alice") .default =
        .ok .allowed ∧
      @AgreesWithFixpoint fnvHasher snapshot (fun _ => 0) (.userId "alice") ⟨"doc", "1"⟩
        ⟨"viewer"⟩ .allowed := by
  let _ := fnvHasher
  have hrun : ((WriterCommand.runAll .latestFirst
      [.applyNamespaceConfigs
        [.ofRelations "group" [("member", none)],
          .ofRelations "doc" [("owner", none),
            ("viewer", some (.union [.this, .computedUserset ⟨"owner"⟩]))]],
        .applyRelationshipMutations
          [.create ⟨objectLit "group" "a", relationLit "member",
              .userset (objectLit "group" "b") (relationLit "member")⟩,
            .create ⟨objectLit "group" "b", relationLit "member",
              .userset (objectLit "group" "a") (relationLit "member")⟩,
            .create ⟨objectLit "group" "b", relationLit "member",
              .object (objectLit "user" "alice")⟩,
            .create ⟨objectLit "doc" "1", relationLit "owner",
              .userset (objectLit "group" "a") (relationLit "member")⟩] []] .new).map
      (fun state => state.published.map (fun snapshot => (snapshot.schema.exclusionFree,
        (checkWithSnapshot snapshot ⟨"doc", "1"⟩ ⟨"viewer"⟩ (.userId "alice")
          .default).toOption)))).toOption = some (some (true, some .allowed)) := by
    decide +kernel
  obtain ⟨snapshot, hreachable, hresult⟩ := exists_published_of_runAll hrun
  obtain ⟨hfree, hcheck⟩ := Prod.mk.inj hresult
  have hanswer : checkWithSnapshot snapshot ⟨"doc", "1"⟩ ⟨"viewer"⟩ (.userId "alice") .default =
      .ok .allowed :=
    eq_ok_of_toOption hcheck
  have hlevel : IsStratification (snapshot.system (.userId "alice")) (fun _ => 0) :=
    isStratification_of_exclusionFree hfree
  exact ⟨snapshot, hreachable.admissible, hlevel, hanswer,
    (check_computes_leastModel hreachable.admissible hlevel ⟨"doc", "1"⟩ ⟨"viewer"⟩ .default
      .allowed).1 hanswer⟩

end SimpleZanzibar
