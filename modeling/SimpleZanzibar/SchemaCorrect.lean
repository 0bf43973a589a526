import Mathlib.Data.List.Forall2
import SimpleZanzibar.Schema

/-!
# What an accepted schema guarantees

Compiling keeps the names and the rewrites of the definitions and their positions, so
that the names and the positions of a compiled rewrite resolve to the same relation
of the compiled schema.
-/

namespace SimpleZanzibar

/-- Lists that are related pointwise have related entries. -/
theorem exists_getElem?_of_forall₂
    {α β : Type} {R : α → β → Prop} {as : List α} {bs : List β}
    (h : List.Forall₂ R as bs)
    {i : Nat} {b : β}
    (hb : bs[i]? = some b) :
    ∃ a, as[i]? = some a ∧ R a b := by
  induction h generalizing i with
  | nil =>
      cases hb
  | @cons a b' as bs hab _ ih =>
      cases i with
      | zero =>
          cases hb
          exact ⟨a, rfl, hab⟩
      | succ i =>
          exact ih hb

/-- A relation that the entries of both lists strengthen. -/
theorem forall₂_imp_of_mem
    {α β : Type} {R S : α → β → Prop} {as : List α} {bs : List β}
    (h : List.Forall₂ R as bs)
    (himp : ∀ a ∈ as, ∀ b ∈ bs, R a b → S a b) :
    List.Forall₂ S as bs := by
  induction h with
  | nil => exact List.Forall₂.nil
  | cons hab _ ih =>
      refine List.Forall₂.cons (himp _ List.mem_cons_self _ List.mem_cons_self hab) (ih ?_)
      intro a ha b hb
      exact himp a (List.mem_cons_of_mem _ ha) b (List.mem_cons_of_mem _ hb)

/-- Searches that agree on related entries find the same position. -/
theorem findIdx?_eq_of_forall₂
    {α β : Type} {R : α → β → Prop} {as : List α} {bs : List β}
    {p : α → Bool} {q : β → Bool}
    (h : List.Forall₂ R as bs)
    (hpq : ∀ a b, R a b → p a = q b) :
    as.findIdx? p = bs.findIdx? q := by
  induction h with
  | nil =>
      rfl
  | cons hab _ ih =>
      rw [List.findIdx?_cons, List.findIdx?_cons, hpq _ _ hab, ih]

namespace CompiledUsersetExpression

mutual

/-- The rewrite that was compiled. -/
def source : CompiledUsersetExpression → UsersetExpression
  | .this => .this
  | .computedUserset relation _ _ => .computedUserset relation
  | .tupleToUserset tuplesetRelation _ computedUsersetRelation =>
      .tupleToUserset tuplesetRelation computedUsersetRelation
  | .union expressions => .union (sources expressions)
  | .intersection expressions => .intersection (sources expressions)
  | .exclusion base exclude => .exclusion (source base) (source exclude)

def sources : List CompiledUsersetExpression → List UsersetExpression
  | [] => []
  | expression :: rest => source expression :: sources rest

end

@[simp] theorem sources_eq_map
    (expressions : List CompiledUsersetExpression) :
    sources expressions = expressions.map source := by
  induction expressions with
  | nil =>
      rfl
  | cons expression rest ih =>
      rw [sources, ih, List.map_cons]

/-- The references of the compiled rewrite point to the relations that they name. -/
inductive ResolvedIn (resolver : SchemaResolver) (objectType : ObjectType) :
    CompiledUsersetExpression → Prop where
  | this : ResolvedIn resolver objectType .this
  | computedUserset {relation : RelationName} {id : SchemaRelationId} {hasRewrite : Bool}
      {target : RelationDefinition} :
      resolver.relation objectType relation = .ok target →
      resolver.relationById id = some target →
      hasRewrite = target.usersetRewrite.isSome →
      ResolvedIn resolver objectType (.computedUserset relation id hasRewrite)
  | tupleToUserset {tupleset computed : RelationName} {id : SchemaRelationId}
      {target : RelationDefinition} :
      resolver.relation objectType tupleset = .ok target →
      resolver.relationById id = some target →
      ResolvedIn resolver objectType (.tupleToUserset tupleset id computed)
  | union {expressions : List CompiledUsersetExpression} :
      (∀ expression ∈ expressions, ResolvedIn resolver objectType expression) →
      ResolvedIn resolver objectType (.union expressions)
  | intersection {expressions : List CompiledUsersetExpression} :
      (∀ expression ∈ expressions, ResolvedIn resolver objectType expression) →
      ResolvedIn resolver objectType (.intersection expressions)
  | exclusion {base exclude : CompiledUsersetExpression} :
      ResolvedIn resolver objectType base →
      ResolvedIn resolver objectType exclude →
      ResolvedIn resolver objectType (.exclusion base exclude)

end CompiledUsersetExpression

namespace SchemaResolver

variable {resolver : SchemaResolver} {objectType : ObjectType} {name : RelationName}

/-- The entry at a position that a search found passes the test of the search. -/
theorem of_findIdx?_eq_some
    {α : Type} {as : List α} {p : α → Bool} {i : Nat} {a : α}
    (hi : as.findIdx? p = some i)
    (ha : as[i]? = some a) :
    p a = true := by
  obtain ⟨hlt, hp, _⟩ := List.findIdx?_eq_some_iff_getElem.mp hi
  rw [List.getElem?_eq_getElem hlt] at ha
  cases ha
  exact hp

/-- Names resolve to the relation at the position of the name. -/
theorem relation_eq_ok_iff
    {found : RelationDefinition} :
    resolver.relation objectType name = .ok found ↔
      ∃ id, resolver.relationId objectType name = .ok id ∧
        resolver.relationById id = some found := by
  unfold SchemaResolver.relation findNamespace relationId relationById
  cases hindex : resolver.namespaceIndex objectType with
  | none =>
      simp [bind_eq_ok]
  | some i =>
      cases hdefinition : resolver.definitions[i]? with
      | none =>
          simp [bind_eq_ok, hdefinition]
      | some definition =>
          cases hrelation : relationIndex definition name with
          | none =>
              simp [bind_eq_ok, hdefinition, hrelation]
          | some j =>
              cases hfound : definition.relations[j]? with
              | none =>
                  simp [bind_eq_ok, hdefinition, hrelation, hfound]
              | some found' =>
                  simp [bind_eq_ok, hdefinition, hrelation, hfound]

/-- The relation that a name resolves to stands in the namespace and has the name. -/
theorem mem_of_relation
    {found : RelationDefinition}
    (h : resolver.relation objectType name = .ok found) :
    found.name = name ∧ ∃ (i j : Nat) (definition : NamespaceDefinition),
      resolver.definitions[i]? = some definition ∧ definition.name = objectType ∧
        definition.relations[j]? = some found := by
  unfold SchemaResolver.relation at h
  obtain ⟨definition, hdefinition, h⟩ := bind_eq_ok.mp h
  unfold findNamespace at hdefinition
  split at hdefinition
  · next definition' hfound =>
      cases hdefinition
      obtain ⟨i, hi, hget⟩ := Option.bind_eq_some_iff.mp hfound
      split at h
      · next found' hfound' =>
          cases h
          obtain ⟨j, hj, hget'⟩ := Option.bind_eq_some_iff.mp hfound'
          refine ⟨by simpa using of_findIdx?_eq_some hj hget', i, j, definition, hget, ?_, hget'⟩
          simpa using of_findIdx?_eq_some hi hget
      · cases h
  · cases hdefinition

/-- The second resolver has the relations of the first at the same positions, with the
same rewrites. -/
structure SameShape (resolver compiled : SchemaResolver) : Prop where
  relationId : ∀ objectType name,
    compiled.relationId objectType name = resolver.relationId objectType name
  relationById : ∀ id target, resolver.relationById id = some target →
    ∃ target', compiled.relationById id = some target' ∧
      target'.usersetRewrite = target.usersetRewrite

/-- A resolved name in a resolver of the same shape. -/
theorem SameShape.relation
    {compiled : SchemaResolver}
    (hshape : SameShape resolver compiled)
    {id : SchemaRelationId}
    (hid : resolver.relationId objectType name = .ok id) :
    (∀ target, resolver.relation objectType name = .ok target →
      ∃ target', compiled.relation objectType name = .ok target' ∧
        compiled.relationById id = some target' ∧
        target'.usersetRewrite = target.usersetRewrite) := by
  intro target htarget
  obtain ⟨id', hid', hget⟩ := relation_eq_ok_iff.mp htarget
  rw [hid] at hid'
  cases hid'
  obtain ⟨target', hget', hrewrite⟩ := hshape.relationById id target hget
  refine ⟨target', relation_eq_ok_iff.mpr ⟨id, ?_, hget'⟩, hget', hrewrite⟩
  rw [hshape.relationId, hid]

/-- A position that was found for a name holds a relation. -/
theorem exists_relation_of_relationId
    {id : SchemaRelationId}
    (hid : resolver.relationId objectType name = .ok id) :
    ∃ target, resolver.relation objectType name = .ok target := by
  have hget : ∃ target, resolver.relationById id = some target := by
    unfold SchemaResolver.relationId at hid
    split at hid
    · cases hid
    · next i _ =>
        split at hid
        · next j hj =>
            cases hid
            obtain ⟨definition, hdefinition, hindex⟩ := Option.bind_eq_some_iff.mp hj
            obtain ⟨hlt, _⟩ := List.findIdx?_eq_some_iff_getElem.mp hindex
            refine ⟨definition.relations[j], ?_⟩
            unfold SchemaResolver.relationById
            simp only [hdefinition, Option.bind_some]
            exact List.getElem?_eq_getElem hlt
        · cases hid
  obtain ⟨target, hget⟩ := hget
  exact ⟨target, relation_eq_ok_iff.mpr ⟨id, hid, hget⟩⟩

mutual

/-- Compiling keeps the rewrite and resolves its references. -/
theorem compileResolvedExpression_spec
    {compiled : SchemaResolver}
    (hshape : SameShape resolver compiled) :
    ∀ (expression : UsersetExpression) {result : CompiledUsersetExpression},
      resolver.compileResolvedExpression objectType expression = .ok result →
      result.source = expression ∧ result.ResolvedIn compiled objectType
  | .this, result, h => by
      cases h
      exact ⟨rfl, .this⟩
  | .computedUserset relation, result, h => by
      obtain ⟨target, htarget, h⟩ := bind_eq_ok.mp h
      obtain ⟨id, hid, h⟩ := bind_eq_ok.mp h
      cases h
      obtain ⟨target', htarget', hget', hrewrite⟩ := hshape.relation hid target htarget
      exact ⟨rfl, .computedUserset htarget' hget' (by rw [hrewrite])⟩
  | .tupleToUserset tupleset computed, result, h => by
      obtain ⟨id, hid, h⟩ := bind_eq_ok.mp h
      cases h
      obtain ⟨target, htarget⟩ := exists_relation_of_relationId hid
      obtain ⟨target', htarget', hget', _⟩ := hshape.relation hid target htarget
      exact ⟨rfl, .tupleToUserset htarget' hget'⟩
  | .union expressions, result, h => by
      obtain ⟨results, hresults, h⟩ := bind_eq_ok.mp h
      cases h
      obtain ⟨hsource, hresolved⟩ := compileResolvedExpressions_spec hshape expressions hresults
      refine ⟨?_, .union hresolved⟩
      rw [CompiledUsersetExpression.source, CompiledUsersetExpression.sources_eq_map, hsource]
  | .intersection expressions, result, h => by
      obtain ⟨results, hresults, h⟩ := bind_eq_ok.mp h
      cases h
      obtain ⟨hsource, hresolved⟩ := compileResolvedExpressions_spec hshape expressions hresults
      refine ⟨?_, .intersection hresolved⟩
      rw [CompiledUsersetExpression.source, CompiledUsersetExpression.sources_eq_map, hsource]
  | .exclusion base exclude, result, h => by
      obtain ⟨base', hbase, h⟩ := bind_eq_ok.mp h
      obtain ⟨exclude', hexclude, h⟩ := bind_eq_ok.mp h
      cases h
      obtain ⟨hsource, hresolved⟩ := compileResolvedExpression_spec hshape base hbase
      obtain ⟨hsource', hresolved'⟩ := compileResolvedExpression_spec hshape exclude hexclude
      refine ⟨?_, .exclusion hresolved hresolved'⟩
      rw [CompiledUsersetExpression.source, hsource, hsource']

theorem compileResolvedExpressions_spec
    {compiled : SchemaResolver}
    (hshape : SameShape resolver compiled) :
    ∀ (expressions : List UsersetExpression) {results : List CompiledUsersetExpression},
      resolver.compileResolvedExpressions objectType expressions = .ok results →
      results.map CompiledUsersetExpression.source = expressions ∧
        ∀ result ∈ results, result.ResolvedIn compiled objectType
  | [], results, h => by
      cases h
      exact ⟨rfl, fun result hresult => (by cases hresult)⟩
  | expression :: rest, results, h => by
      obtain ⟨result, hresult, h⟩ := bind_eq_ok.mp h
      obtain ⟨restResults, hrest, h⟩ := bind_eq_ok.mp h
      cases h
      obtain ⟨hsource, hresolved⟩ := compileResolvedExpression_spec hshape expression hresult
      obtain ⟨hsources, hresolvedAll⟩ := compileResolvedExpressions_spec hshape rest hrest
      refine ⟨by rw [List.map_cons, hsource, hsources], ?_⟩
      intro result' hmem
      rcases List.mem_cons.mp hmem with rfl | hmem
      · exact hresolved
      · exact hresolvedAll result' hmem

end

/-- The second relation is the first with its rewrite compiled. -/
structure RelationCompiled (resolver : SchemaResolver) (objectType : ObjectType)
    (relation compiled : RelationDefinition) : Prop where
  name : compiled.name = relation.name
  rewrite : compiled.usersetRewrite = relation.usersetRewrite
  compiled : resolver.compileRewrite objectType relation.usersetRewrite =
    .ok compiled.compiledUsersetRewrite

/-- The second namespace is the first with its relations compiled. -/
structure NamespaceCompiled (resolver : SchemaResolver)
    (definition compiled : NamespaceDefinition) : Prop where
  name : compiled.name = definition.name
  relations : List.Forall₂ (RelationCompiled resolver definition.name)
    definition.relations compiled.relations

theorem compileResolvedRelations_spec
    {relations compiled : List RelationDefinition}
    (h : resolver.compileResolvedRelations objectType relations = .ok compiled) :
    List.Forall₂ (RelationCompiled resolver objectType) relations compiled := by
  induction relations generalizing compiled with
  | nil =>
      cases h
      exact List.Forall₂.nil
  | cons relation rest ih =>
      obtain ⟨rewrite, hrewrite, h⟩ := bind_eq_ok.mp h
      obtain ⟨restCompiled, hrest, h⟩ := bind_eq_ok.mp h
      cases h
      exact List.Forall₂.cons ⟨rfl, rfl, hrewrite⟩ (ih hrest)

theorem compileResolvedDefinitions_spec
    {definitions compiled : List NamespaceDefinition}
    (h : resolver.compileResolvedDefinitions definitions = .ok compiled) :
    List.Forall₂ (NamespaceCompiled resolver) definitions compiled := by
  induction definitions generalizing compiled with
  | nil =>
      cases h
      exact List.Forall₂.nil
  | cons definition rest ih =>
      obtain ⟨relations, hrelations, h⟩ := bind_eq_ok.mp h
      obtain ⟨restCompiled, hrest, h⟩ := bind_eq_ok.mp h
      cases h
      exact List.Forall₂.cons ⟨rfl, compileResolvedRelations_spec hrelations⟩ (ih hrest)

theorem NamespaceCompiled.relationIndex
    {definition compiled : NamespaceDefinition}
    (h : NamespaceCompiled resolver definition compiled)
    (name : RelationName) :
    SchemaResolver.relationIndex compiled name =
      SchemaResolver.relationIndex definition name := by
  refine (findIdx?_eq_of_forall₂ h.relations ?_).symm
  intro relation relation' hrelation
  rw [hrelation.name]

/-- Compiling keeps the shape of the resolver. -/
theorem sameShape_of_compiled
    {compiled : List NamespaceDefinition}
    (h : List.Forall₂ (NamespaceCompiled resolver) resolver.definitions compiled) :
    SameShape resolver ⟨compiled⟩ := by
  have hindex : ∀ objectType, SchemaResolver.namespaceIndex ⟨compiled⟩ objectType =
      resolver.namespaceIndex objectType := by
    intro objectType
    refine (findIdx?_eq_of_forall₂ h ?_).symm
    intro definition definition' hdefinition
    rw [hdefinition.name]
  constructor
  · intro objectType name
    unfold SchemaResolver.relationId
    rw [hindex]
    cases hi : resolver.namespaceIndex objectType with
    | none =>
        rfl
    | some i =>
        have hbind : (compiled[i]?).bind (SchemaResolver.relationIndex · name) =
            (resolver.definitions[i]?).bind (SchemaResolver.relationIndex · name) := by
          cases hdefinition : compiled[i]? with
          | none =>
              have hlength := h.length_eq
              have hnone : resolver.definitions[i]? = none := by
                rw [List.getElem?_eq_none_iff] at hdefinition ⊢
                omega
              rw [hnone]
          | some definition' =>
              obtain ⟨definition, hget, hcompiled⟩ := exists_getElem?_of_forall₂ h hdefinition
              rw [hget]
              exact hcompiled.relationIndex name
        simp only [hbind]
  · intro id target htarget
    obtain ⟨definition, hdefinition, hget⟩ := Option.bind_eq_some_iff.mp htarget
    obtain ⟨definition', hdefinition', hcompiled⟩ :=
      exists_getElem?_of_forall₂ h.flip hdefinition
    obtain ⟨target', hget', hrelation⟩ := exists_getElem?_of_forall₂ hcompiled.relations.flip hget
    refine ⟨target', ?_, hrelation.rewrite⟩
    unfold SchemaResolver.relationById
    simp only [hdefinition', Option.bind_some]
    exact hget'

end SchemaResolver

namespace CompiledSchema

/-- The compiler accepted some definitions and returned the schema. -/
def Accepted (schema : CompiledSchema) : Prop :=
  ∃ definitions, fromDefinitions definitions = .ok schema

theorem new_eq_ok
    {definitions : List NamespaceDefinition} {schema : CompiledSchema}
    (h : new definitions = .ok schema) :
    schema.definitions = definitions ∧ schema.resolver = ⟨definitions⟩ := by
  obtain ⟨resolver, hresolver, h⟩ := bind_eq_ok.mp h
  obtain ⟨_, _, hresolver⟩ := bind_eq_ok.mp hresolver
  cases h
  cases hresolver
  exact ⟨rfl, rfl⟩

/-- Every relation of an accepted schema carries its rewrite in compiled form. -/
theorem Accepted.relation
    {schema : CompiledSchema}
    (haccepted : schema.Accepted)
    {objectType : ObjectType} {name : RelationName} {found : RelationDefinition}
    (h : schema.resolver.relation objectType name = .ok found) :
    found.compiledUsersetRewrite.map (·.source) = found.usersetRewrite ∧
      ∀ compiled, found.compiledUsersetRewrite = some compiled →
        compiled.ResolvedIn schema.resolver objectType := by
  obtain ⟨definitions, haccepted⟩ := haccepted
  obtain ⟨first, hfirst, haccepted⟩ := bind_eq_ok.mp haccepted
  obtain ⟨_, _, haccepted⟩ := bind_eq_ok.mp haccepted
  obtain ⟨resolved, hresolved, hnew⟩ := bind_eq_ok.mp haccepted
  obtain ⟨hdefinitions, hresolver⟩ := new_eq_ok hfirst
  obtain ⟨_, hresolver'⟩ := new_eq_ok hnew
  rw [hresolver'] at h ⊢
  have hcompiled := SchemaResolver.compileResolvedDefinitions_spec hresolved
  rw [hdefinitions] at hcompiled
  have hshape : SchemaResolver.SameShape first.resolver ⟨resolved⟩ := by
    apply SchemaResolver.sameShape_of_compiled
    rw [hresolver] at hcompiled ⊢
    exact hcompiled
  obtain ⟨_, i, j, definition', hdefinition', hname, hfound⟩ := SchemaResolver.mem_of_relation h
  obtain ⟨definition, _, hdefinition⟩ := exists_getElem?_of_forall₂ hcompiled hdefinition'
  obtain ⟨relation, _, hrelation⟩ := exists_getElem?_of_forall₂ hdefinition.relations hfound
  have hrewrite := hrelation.compiled
  rw [← hrelation.rewrite, ← hdefinition.name, hname] at hrewrite
  cases hsource : found.usersetRewrite with
  | none =>
      rw [hsource] at hrewrite
      cases hnone : found.compiledUsersetRewrite with
      | none =>
          exact ⟨rfl, fun compiled hsome => (by cases hsome)⟩
      | some compiled =>
          rw [hnone] at hrewrite
          cases hrewrite
  | some expression =>
      rw [hsource] at hrewrite
      obtain ⟨compiled, hcompile, hrewrite⟩ := bind_eq_ok.mp hrewrite
      have hsome : found.compiledUsersetRewrite = some compiled := (Except.ok.inj hrewrite).symm
      obtain ⟨hsource', hresolved'⟩ :=
        SchemaResolver.compileResolvedExpression_spec hshape expression hcompile
      rw [hsome]
      refine ⟨congrArg some hsource', ?_⟩
      intro compiled' h'
      cases h'
      exact hresolved'

end CompiledSchema

end SimpleZanzibar
