import SimpleZanzibar.Eval.LookupResources
import SimpleZanzibar.Eval.LookupSubjectsComplete
import SimpleZanzibar.Eval.Memo

/-!
# Lookups over all permissions of an object

`lookup_object_permissions` looks up the subjects of one type for every relation of the
namespace of a resource, in the order of the names, and keeps the relations that somebody holds.
`lookup_permissions` checks one subject on the same relations, on one context whose memo stays.
The two lookups are inverse to each other where the memo is transparent.

**Results.**
* `allowedPermissions_keepsAllowed`: what the loop of checks keeps of each relation.
* `permissionSubjects_keepsAnswers`: what the loop keeps of each relation.
* `PublishedSnapshot.ListsPermissions.of_noMutual`: a call that returns lists the permissions
  that the checks allow.
* `PublishedSnapshot.GroupsSubjects.of_grounds`: a call that returns groups the subjects that
  the checks allow.
* `PermissionsInverse.of_grounds`: the two lookups tell the same pairs.
-/

namespace SimpleZanzibar

open BoolSystem

structure LookupPermissionsRequest where
  subject : User
  resource : Object

def LookupPermissionsRequest.validate (request : LookupPermissionsRequest) :
    Except DomainError Unit := do
  let _ ← SubjectRef.tryFrom request.subject
  let _ ← ObjectRef.tryFrom request.resource

structure LookupObjectPermissionsRequest where
  resource : Object
  subjectType : String

/-- The subjects that hold one permission. -/
structure PermissionSubjects where
  permission : Relation
  subjects : List User
deriving DecidableEq

namespace LookupObjectPermissionsRequest

def validate (request : LookupObjectPermissionsRequest) : Except DomainError Unit := do
  let _ ← ObjectRef.tryFrom request.resource
  let _ ← Identifier.new .subjectType request.subjectType

/-- The lookup of one permission. -/
def forPermission (request : LookupObjectPermissionsRequest) (permission : Relation) :
    LookupSubjectsRequest :=
  ⟨request.resource, permission, request.subjectType⟩

end LookupObjectPermissionsRequest

section Calls

variable [StoreHasher]

/-- The permissions that the checks allow, with a reset of the context before each check. -/
def allowedPermissions (request : LookupPermissionsRequest) :
    List RelationDefinition → Evaluation (List Relation)
  | [] => pure []
  | relationDefinition :: rest => do
      let relation : Relation := ⟨relationDefinition.name.value⟩
      Action.modify EvaluationContext.resetForReuse
      let membership ← Evaluation.checkPrepared request.resource relation request.subject
        relationDefinition
      let permissions ← allowedPermissions request rest
      return if membership.isAllowed then relation :: permissions else permissions

/-- `lookup_permissions` on the snapshot that the consistency of the request selects. -/
def lookupPermissions (snapshot : PublishedSnapshot) (request : LookupPermissionsRequest)
    (limits : EvaluationLimits) : Except ZanzibarError (List Relation) := do
  request.validate.mapError .domain
  let objectType ←
    (Identifier.new .objectType request.resource.namespaceName).mapError .domain
  let _ ← (snapshot.schema.resolver.findNamespace objectType).mapError .schema
  let relations ← (snapshot.schema.resolver.sortedRelations objectType).mapError .schema
  (allowedPermissions request relations (.newWithRequestMemo snapshot limits)).1

/-- The groups of the relations that somebody holds. -/
def permissionSubjects (snapshot : PublishedSnapshot) (request : LookupObjectPermissionsRequest)
    (limits : EvaluationLimits) :
    List RelationDefinition → Except ZanzibarError (List PermissionSubjects)
  | [] => .ok []
  | relationDefinition :: rest => do
      let permission : Relation := ⟨relationDefinition.name.value⟩
      let subjects ← lookupSubjectsWithSnapshot snapshot (request.forPermission permission) limits
      let permissions ← permissionSubjects snapshot request limits rest
      return if subjects.isEmpty then permissions else ⟨permission, subjects⟩ :: permissions

/-- `lookup_object_permissions` on the snapshot that the consistency of the request selects. -/
def lookupObjectPermissions (snapshot : PublishedSnapshot)
    (request : LookupObjectPermissionsRequest) (limits : EvaluationLimits) :
    Except ZanzibarError (List PermissionSubjects) := do
  request.validate.mapError .domain
  let objectType ←
    (Identifier.new .objectType request.resource.namespaceName).mapError .domain
  let _ ← (snapshot.schema.resolver.findNamespace objectType).mapError .schema
  let subjectType ← (Identifier.new .subjectType request.subjectType).mapError .domain
  if subjectType.value ≠ "user" then
    let subjectObjectType ← (Identifier.new .objectType subjectType.value).mapError .domain
    let _ ← (snapshot.schema.resolver.findNamespace subjectObjectType).mapError .schema
  let relations ← (snapshot.schema.resolver.sortedRelations objectType).mapError .schema
  permissionSubjects snapshot request limits relations

/-! ## The loops -/

/-- A call that returns ran its checks over the sorted relations of the resource's namespace. -/
theorem lookupPermissions_eq_ok
    {snapshot : PublishedSnapshot} {request : LookupPermissionsRequest}
    {limits : EvaluationLimits} {permissions : List Relation}
    (h : lookupPermissions snapshot request limits = .ok permissions) :
    ∃ objectType relations context,
      Identifier.new .objectType request.resource.namespaceName = .ok objectType ∧
      snapshot.schema.resolver.sortedRelations objectType = .ok relations ∧
      allowedPermissions request relations (.newWithRequestMemo snapshot limits) =
        (.ok permissions, context) := by
  unfold lookupPermissions at h
  obtain ⟨_, _, h⟩ := bind_eq_ok.mp h
  obtain ⟨objectType, htype, h⟩ := bind_eq_ok.mp h
  obtain ⟨_, _, h⟩ := bind_eq_ok.mp h
  obtain ⟨relations, hrelations, hrun⟩ := bind_eq_ok.mp h
  exact ⟨objectType, relations, _, mapError_eq_ok htype, mapError_eq_ok hrelations,
    Prod.ext hrun rfl⟩

/-- What the checks keep of the relations, in their order: each check has an answer, and the
permissions are those whose answer is true. -/
structure KeepsAllowed (snapshot : PublishedSnapshot) (request : LookupPermissionsRequest)
    (relations : List RelationDefinition) (permissions : List Relation) : Prop where
  names : (permissions.map (·.name)).Sublist (relations.map (·.name.value))
  decided : ∀ relation ∈ relations, ∃ b,
    RootEval snapshot request.subject ⟨request.resource, relation.name⟩ b ∧
      (b = true → ⟨relation.name.value⟩ ∈ permissions)
  sound : ∀ permission ∈ permissions, ∃ relation ∈ relations,
    relation.name.value = permission.name ∧
      RootEval snapshot request.subject ⟨request.resource, relation.name⟩ true

/-- The check of a relation for the subject. -/
def LookupPermissionsRequest.checkOf (request : LookupPermissionsRequest)
    (relation : RelationDefinition) : CheckRequest :=
  .prepared request.resource ⟨relation.name.value⟩ request.subject relation

theorem allowedPermissions_keepsAllowed
    {snapshot : PublishedSnapshot} {request : LookupPermissionsRequest}
    {checks : List CheckRequest}
    (hview : snapshot.relationships.Inv)
    (hschema : snapshot.schema.Accepted)
    (hmutual : NoMutualKeys snapshot checks) :
    ∀ {relations : List RelationDefinition} {context after : EvaluationContext}
      {permissions : List Relation},
      (∀ relation ∈ relations, request.checkOf relation ∈ checks ∧
        snapshot.schema.definitionOf ⟨request.resource, relation.name⟩ = some relation) →
      (Search.memo hmutual).Valid context →
      allowedPermissions request relations context = (.ok permissions, after) →
        KeepsAllowed snapshot request relations permissions
  | [], _, _, permissions, _, _, h => by
      cases h
      exact ⟨.slnil, by simp, by simp⟩
  | relation :: rest, context, after, permissions, hrelations, hvalid, h => by
      obtain ⟨hcheck, hdefinition⟩ := hrelations relation List.mem_cons_self
      obtain ⟨hreset, hempty⟩ := hvalid.resetForReuse
      obtain ⟨hchecked, hanswer⟩ := CheckRequest.run_memo hmutual hview hschema hcheck
        ⟨rfl, hdefinition⟩ hreset hempty
      unfold allowedPermissions at h
      obtain ⟨_, _, hmodify, h⟩ := Action.bind_eq_ok.mp h
      cases hmodify
      obtain ⟨membership, checked, hrun, h⟩ := Action.bind_eq_ok.mp h
      obtain ⟨permissions', _, hrest, h⟩ := Action.bind_eq_ok.mp h
      obtain ⟨hpermissions, _⟩ := Prod.mk.inj h
      have hrun' : (request.checkOf relation).run context.resetForReuse =
          (.ok membership, checked) := hrun
      rw [hrun'] at hchecked hanswer
      obtain ⟨name, b, hname, rfl, heval⟩ := hanswer membership rfl
      obtain rfl : name = relation.name := Identifier.ext hname
      have hkeeps := allowedPermissions_keepsAllowed hview hschema hmutual
        (fun other hother => hrelations other (List.mem_cons_of_mem _ hother)) hchecked hrest
      have hsound : ∀ permission ∈ permissions', ∃ other ∈ relation :: rest,
          other.name.value = permission.name ∧
            RootEval snapshot request.subject ⟨request.resource, other.name⟩ true := by
        intro permission hpermission
        obtain ⟨other, hother, hfound⟩ := hkeeps.sound permission hpermission
        exact ⟨other, List.mem_cons_of_mem _ hother, hfound⟩
      cases b with
      | false =>
          obtain rfl : permissions' = permissions := Except.ok.inj hpermissions
          refine ⟨hkeeps.names.cons _, ?_, hsound⟩
          intro other hother
          rcases List.mem_cons.mp hother with rfl | hother
          · exact ⟨false, heval, fun h => by cases h⟩
          · exact hkeeps.decided other hother
      | true =>
          obtain rfl : ⟨relation.name.value⟩ :: permissions' = permissions :=
            Except.ok.inj hpermissions
          refine ⟨hkeeps.names.cons_cons _, ?_, ?_⟩
          · intro other hother
            rcases List.mem_cons.mp hother with rfl | hother
            · exact ⟨true, heval, fun _ => List.mem_cons_self⟩
            · obtain ⟨b, hother, hkept⟩ := hkeeps.decided other hother
              exact ⟨b, hother, fun htrue => List.mem_cons_of_mem _ (hkept htrue)⟩
          · intro permission hpermission
            rcases List.mem_cons.mp hpermission with rfl | hpermission
            · exact ⟨relation, List.mem_cons_self, rfl, heval⟩
            · exact hsound permission hpermission

/-- A call that returns ran the loop over the sorted relations of the resource's namespace. -/
theorem lookupObjectPermissions_eq_ok
    {snapshot : PublishedSnapshot} {request : LookupObjectPermissionsRequest}
    {limits : EvaluationLimits} {permissions : List PermissionSubjects}
    (h : lookupObjectPermissions snapshot request limits = .ok permissions) :
    ∃ objectType relations,
      Identifier.new .objectType request.resource.namespaceName = .ok objectType ∧
      snapshot.schema.resolver.sortedRelations objectType = .ok relations ∧
      permissionSubjects snapshot request limits relations = .ok permissions := by
  unfold lookupObjectPermissions at h
  obtain ⟨_, _, h⟩ := bind_eq_ok.mp h
  obtain ⟨objectType, htype, h⟩ := bind_eq_ok.mp h
  obtain ⟨_, _, h⟩ := bind_eq_ok.mp h
  obtain ⟨subjectType, _, h⟩ := bind_eq_ok.mp h
  have hloop : ((snapshot.schema.resolver.sortedRelations objectType).mapError .schema >>=
      permissionSubjects snapshot request limits) = .ok permissions := by
    split at h
    · obtain ⟨_, _, h⟩ := bind_eq_ok.mp h
      obtain ⟨_, _, h⟩ := bind_eq_ok.mp h
      exact h
    · exact h
  obtain ⟨relations, hrelations, hrun⟩ := bind_eq_ok.mp hloop
  exact ⟨objectType, relations, mapError_eq_ok htype, mapError_eq_ok hrelations, hrun⟩

/-- What the loop keeps of the relations, in their order: each group is the answer of a lookup
with subjects, and the lookup of a relation without a group found nobody. -/
structure KeepsAnswers (snapshot : PublishedSnapshot) (request : LookupObjectPermissionsRequest)
    (limits : EvaluationLimits) (relations : List RelationDefinition)
    (permissions : List PermissionSubjects) : Prop where
  names : (permissions.map (·.permission.name)).Sublist (relations.map (·.name.value))
  nonempty : ∀ group ∈ permissions, group.subjects ≠ []
  answers : ∀ group ∈ permissions, lookupSubjectsWithSnapshot snapshot
    (request.forPermission group.permission) limits = .ok group.subjects
  omits : ∀ relation ∈ relations, (∀ group ∈ permissions, group.permission.name ≠
    relation.name.value) → lookupSubjectsWithSnapshot snapshot
      (request.forPermission ⟨relation.name.value⟩) limits = .ok []

theorem permissionSubjects_keepsAnswers
    {snapshot : PublishedSnapshot} {request : LookupObjectPermissionsRequest}
    {limits : EvaluationLimits} :
    ∀ {relations : List RelationDefinition} {permissions : List PermissionSubjects},
      permissionSubjects snapshot request limits relations = .ok permissions →
        KeepsAnswers snapshot request limits relations permissions
  | [], permissions, h => by
      cases h
      exact ⟨.slnil, by simp, by simp, by simp⟩
  | relation :: rest, permissions, h => by
      unfold permissionSubjects at h
      obtain ⟨subjects, hsubjects, h⟩ := bind_eq_ok.mp h
      obtain ⟨permissions', hrest, h⟩ := bind_eq_ok.mp h
      have hkeeps := permissionSubjects_keepsAnswers hrest
      cases subjects with
      | nil =>
          cases h
          refine ⟨hkeeps.names.cons _, hkeeps.nonempty, hkeeps.answers, ?_⟩
          intro other hother hnone
          rcases List.mem_cons.mp hother with rfl | hother
          · exact hsubjects
          · exact hkeeps.omits other hother hnone
      | cons subject subjects =>
          cases h
          refine ⟨hkeeps.names.cons_cons _, ?_, ?_, ?_⟩
          · intro group hgroup
            rcases List.mem_cons.mp hgroup with rfl | hgroup
            · exact List.cons_ne_nil _ _
            · exact hkeeps.nonempty group hgroup
          · intro group hgroup
            rcases List.mem_cons.mp hgroup with rfl | hgroup
            · exact hsubjects
            · exact hkeeps.answers group hgroup
          · intro other hother hnone
            have hhead := hnone _ List.mem_cons_self
            rcases List.mem_cons.mp hother with rfl | hother
            · exact absurd rfl hhead
            · exact hkeeps.omits other hother
                (fun group hgroup => hnone group (List.mem_cons_of_mem _ hgroup))

/-! ## The sorted relations -/

/-- The relations are those that are declared for the object, in the order of their names. -/
structure CompiledSchema.SortedFor (schema : CompiledSchema) (object : Object)
    (relations : List RelationDefinition) : Prop where
  ascending : (relations.map (·.name.value)).Pairwise (· < ·)
  mem_iff : ∀ relation,
    relation ∈ relations ↔ schema.definitionOf ⟨object, relation.name⟩ = some relation

omit [StoreHasher] in
theorem CompiledSchema.Accepted.sortedFor
    {schema : CompiledSchema} {object : Object} {objectType : ObjectType}
    {relations : List RelationDefinition}
    (hschema : schema.Accepted)
    (htype : Identifier.new .objectType object.namespaceName = .ok objectType)
    (hrelations : schema.resolver.sortedRelations objectType = .ok relations) :
    schema.SortedFor object relations := by
  obtain ⟨definitions, hdefinitions⟩ := hschema
  obtain ⟨_, hresolver, _, hdistinct⟩ := fromDefinitions_eq_ok hdefinitions
  rw [hresolver] at hrelations
  obtain ⟨definition, hdefinition, h⟩ := bind_eq_ok.mp hrelations
  cases h
  obtain ⟨hmem, hname⟩ := (SchemaResolver.findNamespace_eq_ok_iff_mem hdistinct).mp hdefinition
  constructor
  · rw [List.pairwise_map]
    have hsorted : (sortByName (·.name.value) definition.relations).Pairwise
        (fun left right => left.name.value ≤ right.name.value) :=
      pairwise_sortByName definition.relations
    have hnodup : ((sortByName (·.name.value) definition.relations).map (·.name)).Nodup :=
      ((perm_sortByName definition.relations).map (·.name)).nodup_iff.mpr
        (hdistinct.relations definition hmem)
    refine (hsorted.and (List.pairwise_map.mp hnodup)).imp ?_
    rintro left right ⟨hle, hne⟩
    exact lt_of_le_of_ne hle (fun hvalue => hne (Identifier.ext hvalue))
  · intro relation
    rw [List.mem_insertionSort, definitionOf_eq_some, hresolver]
    constructor
    · intro hrelation
      exact ⟨objectType, htype, (SchemaResolver.relation_eq_ok_iff_mem hdistinct).mpr
        ⟨definition, hmem, hname, hrelation, rfl⟩⟩
    · rintro ⟨objectType', htype', hrelation⟩
      cases htype.symm.trans htype'
      obtain ⟨definition', hmem', hname', hrelation, _⟩ :=
        (SchemaResolver.relation_eq_ok_iff_mem hdistinct).mp hrelation
      rwa [List.inj_on_of_nodup_map hdistinct.namespaces hmem hmem' (hname.trans hname'.symm)]

omit [StoreHasher] in
/-- A declared relation has its own name. -/
theorem CompiledSchema.name_of_definitionOf
    {schema : CompiledSchema} {key : RelKey} {definition : RelationDefinition}
    (h : schema.definitionOf key = some definition) :
    definition.name = key.relation := by
  obtain ⟨_, _, hrelation⟩ := definitionOf_eq_some.mp h
  exact (SchemaResolver.mem_of_relation hrelation).1

/-- What a check allows is one of the sorted relations, and its search answers true. -/
theorem CompiledSchema.SortedFor.exists_of_check
    {snapshot : PublishedSnapshot} {object : Object} {relations : List RelationDefinition}
    (hsorted : snapshot.schema.SortedFor object relations)
    (hview : snapshot.relationships.Inv)
    (hschema : snapshot.schema.Accepted)
    {permission : Relation} {user : User} {limits : EvaluationLimits}
    (hcheck : checkWithSnapshot snapshot object permission user limits = .ok .allowed) :
    ∃ relation ∈ relations, permission = ⟨relation.name.value⟩ ∧
      RootEval snapshot user ⟨object, relation.name⟩ true := by
  obtain ⟨name, b, hname, hallowed, heval⟩ := snapshot.check_eval hview hschema hcheck
  obtain rfl : b = true := Membership.ofBool_eq_allowed_iff.mp hallowed.symm
  obtain ⟨relation, hdefinition⟩ := heval.exists_definition
  obtain rfl : relation.name = name := name_of_definitionOf hdefinition
  exact ⟨relation, (hsorted.mem_iff relation).mpr hdefinition,
    congrArg Relation.mk hname.symm, heval⟩

/-! ## The permissions of a subject -/

/-- The permissions stand in the order of their names, each is declared and allowed by every
check that answers, and all that some check allows are there. -/
structure PublishedSnapshot.ListsPermissions (snapshot : PublishedSnapshot)
    (request : LookupPermissionsRequest) (permissions : List Relation) : Prop where
  ascending : (permissions.map (·.name)).Pairwise (· < ·)
  declared : ∀ permission ∈ permissions, ∃ definition, permission = ⟨definition.name.value⟩ ∧
    snapshot.schema.definitionOf ⟨request.resource, definition.name⟩ = some definition
  sound : ∀ permission ∈ permissions, ∀ checkLimits membership,
    checkWithSnapshot snapshot request.resource permission request.subject checkLimits =
      .ok membership → membership = .allowed
  complete : ∀ permission checkLimits,
    checkWithSnapshot snapshot request.resource permission request.subject checkLimits =
      .ok .allowed → permission ∈ permissions

/-- Below the relations of the object no two keys depend on each other. -/
def LookupPermissionsRequest.NoMutual (snapshot : PublishedSnapshot)
    (request : LookupPermissionsRequest) : Prop :=
  NoMutualBelow (snapshot.system request.subject) {key | key.object = request.resource}

/-- A call that returns decided every relation of the object. -/
theorem keepsAllowed_of_lookupPermissions
    {snapshot : PublishedSnapshot} {request : LookupPermissionsRequest}
    {limits : EvaluationLimits} {permissions : List Relation}
    (hview : snapshot.relationships.Inv)
    (hschema : snapshot.schema.Accepted)
    (hmutual : request.NoMutual snapshot)
    (h : lookupPermissions snapshot request limits = .ok permissions) :
    ∃ relations, snapshot.schema.SortedFor request.resource relations ∧
      KeepsAllowed snapshot request relations permissions := by
  obtain ⟨objectType, relations, context, htype, hrelations, hrun⟩ := lookupPermissions_eq_ok h
  have hsorted := hschema.sortedFor htype hrelations
  have hchecks : NoMutualKeys snapshot (relations.map request.checkOf) := by
    intro user r hr
    obtain ⟨check, hcheck, rfl, hobject, _⟩ := hr
    obtain ⟨relation, _, rfl⟩ := List.mem_map.mp hcheck
    exact hmutual r hobject
  exact ⟨relations, hsorted, allowedPermissions_keepsAllowed hview hschema hchecks
    (fun relation hrelation => ⟨List.mem_map_of_mem hrelation,
      (hsorted.mem_iff relation).mp hrelation⟩)
    (Search.valid_below_new hchecks limits) hrun⟩

/-- Where no two keys below the object depend on each other, a call that returns lists the
permissions that fresh checks allow, whatever the memo holds between its checks. -/
theorem PublishedSnapshot.ListsPermissions.of_noMutual
    {snapshot : PublishedSnapshot} {request : LookupPermissionsRequest}
    {limits : EvaluationLimits} {permissions : List Relation}
    (hview : snapshot.relationships.Inv)
    (hschema : snapshot.schema.Accepted)
    (hmutual : request.NoMutual snapshot)
    (h : lookupPermissions snapshot request limits = .ok permissions) :
    snapshot.ListsPermissions request permissions := by
  obtain ⟨relations, hsorted, hkeeps⟩ :=
    keepsAllowed_of_lookupPermissions hview hschema hmutual h
  refine ⟨hsorted.ascending.sublist hkeeps.names, ?_, ?_, ?_⟩
  · intro permission hpermission
    obtain ⟨relation, hrelation, hname, _⟩ := hkeeps.sound permission hpermission
    exact ⟨relation, congrArg Relation.mk hname.symm, (hsorted.mem_iff relation).mp hrelation⟩
  · intro permission hpermission checkLimits membership hcheck
    obtain ⟨relation, _, hname, heval⟩ := hkeeps.sound permission hpermission
    obtain ⟨name, b, hname', rfl, heval'⟩ := snapshot.check_eval hview hschema hcheck
    rw [← rootEval_unique hname hname' heval heval']
    rfl
  · intro permission checkLimits hcheck
    obtain ⟨relation, hrelation, rfl, heval⟩ := hsorted.exists_of_check hview hschema hcheck
    obtain ⟨b, heval', hkept⟩ := hkeeps.decided relation hrelation
    exact hkept (Eval.deterministic heval' heval)

/-! ## The subjects of the permissions -/

/-- The groups stand in the order of their names, each lists the subjects that the checks allow
its declared permission, and every permission that a check allows to a subject of the type has a
group. -/
structure PublishedSnapshot.GroupsSubjects (snapshot : PublishedSnapshot)
    (request : LookupObjectPermissionsRequest) (limits : EvaluationLimits)
    (permissions : List PermissionSubjects) : Prop where
  ascending : (permissions.map (·.permission.name)).Pairwise (· < ·)
  declared : ∀ group ∈ permissions, ∃ definition,
    group.permission = ⟨definition.name.value⟩ ∧
      snapshot.schema.definitionOf ⟨request.resource, definition.name⟩ = some definition
  nonempty : ∀ group ∈ permissions, group.subjects ≠ []
  lists : ∀ group ∈ permissions,
    snapshot.ListsSubjects (request.forPermission group.permission) limits group.subjects
  complete : ∀ permission subject checkLimits, subject.OfType request.subjectType →
    checkWithSnapshot snapshot request.resource permission subject checkLimits = .ok .allowed →
      ∃ group ∈ permissions, group.permission = permission

/-- A call that returns looked up every relation of the object. -/
theorem keepsAnswers_of_lookupObjectPermissions
    {snapshot : PublishedSnapshot} {request : LookupObjectPermissionsRequest}
    {limits : EvaluationLimits} {permissions : List PermissionSubjects}
    (hschema : snapshot.schema.Accepted)
    (h : lookupObjectPermissions snapshot request limits = .ok permissions) :
    ∃ relations, snapshot.schema.SortedFor request.resource relations ∧
      KeepsAnswers snapshot request limits relations permissions := by
  obtain ⟨objectType, relations, htype, hrelations, hrun⟩ := lookupObjectPermissions_eq_ok h
  exact ⟨relations, hschema.sortedFor htype hrelations, permissionSubjects_keepsAnswers hrun⟩

/-- The group of a permission stands for one of the relations. -/
theorem KeepsAnswers.exists_relation
    {snapshot : PublishedSnapshot} {request : LookupObjectPermissionsRequest}
    {limits : EvaluationLimits} {relations : List RelationDefinition}
    {permissions : List PermissionSubjects}
    (h : KeepsAnswers snapshot request limits relations permissions)
    {group : PermissionSubjects}
    (hgroup : group ∈ permissions) :
    ∃ relation ∈ relations, group.permission = ⟨relation.name.value⟩ := by
  obtain ⟨relation, hrelation, hname⟩ := List.mem_map.mp
    (h.names.subset (List.mem_map_of_mem hgroup))
  exact ⟨relation, hrelation, congrArg Relation.mk hname.symm⟩

section Grounds

variable {snapshot : PublishedSnapshot} {limits : EvaluationLimits} {level : User → RelKey → Nat}

/-- A relation for which the search of a subject of the type answers true has a group, with the
subject in it unless the group is as long as the limit. -/
theorem KeepsAnswers.exists_group
    {request : LookupObjectPermissionsRequest} {relations : List RelationDefinition}
    {permissions : List PermissionSubjects}
    (h : KeepsAnswers snapshot request limits relations permissions)
    (hgrounds : ∀ permission subjectType,
      (SubjectLookup.mk snapshot request.resource permission subjectType limits level).Grounds)
    {relation : RelationDefinition} {subject : User}
    (hrelation : relation ∈ relations)
    (hsubject : subject.OfType request.subjectType)
    (heval : RootEval snapshot subject ⟨request.resource, relation.name⟩ true) :
    ∃ group ∈ permissions, group.permission = ⟨relation.name.value⟩ ∧
      (group.subjects.length < limits.maxLookupResults.get → subject ∈ group.subjects) := by
  have hlisted : ∀ {subjects : List User},
      lookupSubjectsWithSnapshot snapshot (request.forPermission ⟨relation.name.value⟩) limits =
        .ok subjects →
      subjects.length < limits.maxLookupResults.get → subject ∈ subjects := by
    intro subjects hlookup hfewer
    obtain ⟨name, subjectType, hname, htype, hcollects⟩ :=
      PublishedSnapshot.collects_of_lookup hgrounds hlookup
    obtain rfl : name = relation.name := Identifier.ext hname
    exact hcollects.complete hfewer subject (htype.symm ▸ hsubject) heval
  by_cases hgroup : ∃ group ∈ permissions, group.permission.name = relation.name.value
  · obtain ⟨group, hgroup, hname⟩ := hgroup
    have hpermission : group.permission = ⟨relation.name.value⟩ := congrArg Relation.mk hname
    refine ⟨group, hgroup, hpermission, hlisted ?_⟩
    rw [← hpermission]
    exact h.answers group hgroup
  · -- nobody is listed, although the limit leaves room for the subject
    have hempty := h.omits relation hrelation
      (fun group hmem hname => hgroup ⟨group, hmem, hname⟩)
    cases hlisted hempty limits.maxLookupResults.pos

/-- Where the lookups of the permissions have what they need, a call that returns groups the
subjects that the checks allow. -/
theorem PublishedSnapshot.GroupsSubjects.of_grounds
    {request : LookupObjectPermissionsRequest} {permissions : List PermissionSubjects}
    (hgrounds : ∀ permission subjectType,
      (SubjectLookup.mk snapshot request.resource permission subjectType limits level).Grounds)
    (hview : snapshot.relationships.Inv)
    (hschema : snapshot.schema.Accepted)
    (h : lookupObjectPermissions snapshot request limits = .ok permissions) :
    snapshot.GroupsSubjects request limits permissions := by
  obtain ⟨relations, hsorted, hkeeps⟩ := keepsAnswers_of_lookupObjectPermissions hschema h
  refine ⟨hsorted.ascending.sublist hkeeps.names, ?_, hkeeps.nonempty,
    fun group hgroup => listsSubjects_of_lookup hgrounds (hkeeps.answers group hgroup), ?_⟩
  · intro group hgroup
    obtain ⟨relation, hrelation, hpermission⟩ := hkeeps.exists_relation hgroup
    exact ⟨relation, hpermission, (hsorted.mem_iff relation).mp hrelation⟩
  · intro permission subject checkLimits hsubject hcheck
    obtain ⟨relation, hrelation, rfl, heval⟩ := hsorted.exists_of_check hview hschema hcheck
    obtain ⟨group, hgroup, hpermission, _⟩ :=
      hkeeps.exists_group hgrounds hrelation hsubject heval
    exact ⟨group, hgroup, hpermission⟩

/-- The two lookups are inverse to each other: a permission of the subject has a group, with the
subject in it unless the group is as long as the limit, and the groups that list the subject are
of permissions of the subject. -/
structure PermissionsInverse (limits : EvaluationLimits) (subject : User)
    (permissions : List Relation) (groups : List PermissionSubjects) : Prop where
  grouped : ∀ permission ∈ permissions, ∃ group ∈ groups, group.permission = permission ∧
    (group.subjects.length < limits.maxLookupResults.get → subject ∈ group.subjects)
  permitted : ∀ group ∈ groups, subject ∈ group.subjects → group.permission ∈ permissions

theorem PermissionsInverse.of_grounds
    {resource : Object} {subject : User} {subjectType : String}
    {permissionLimits : EvaluationLimits} {permissions : List Relation}
    {groups : List PermissionSubjects}
    (hgrounds : ∀ permission subjectType,
      (SubjectLookup.mk snapshot resource permission subjectType limits level).Grounds)
    (hview : snapshot.relationships.Inv)
    (hschema : snapshot.schema.Accepted)
    (hlevel : IsStratification (snapshot.system subject) (level subject))
    (hmutual : LookupPermissionsRequest.NoMutual snapshot ⟨subject, resource⟩)
    (hsubject : subject.OfType subjectType)
    (hpermissions : lookupPermissions snapshot ⟨subject, resource⟩ permissionLimits =
      .ok permissions)
    (hgroups : lookupObjectPermissions snapshot ⟨resource, subjectType⟩ limits = .ok groups) :
    PermissionsInverse limits subject permissions groups := by
  obtain ⟨relations, hsorted, hkeeps⟩ :=
    keepsAllowed_of_lookupPermissions hview hschema hmutual hpermissions
  obtain ⟨relations', hsorted', hkeeps'⟩ :=
    keepsAnswers_of_lookupObjectPermissions hschema hgroups
  have hsame : ∀ relation, relation ∈ relations ↔ relation ∈ relations' := fun relation =>
    (hsorted.mem_iff relation).trans (hsorted'.mem_iff relation).symm
  constructor
  · intro permission hpermission
    obtain ⟨relation, hrelation, hname, heval⟩ := hkeeps.sound permission hpermission
    obtain ⟨group, hgroup, hgroupName, hlisted⟩ :=
      hkeeps'.exists_group hgrounds ((hsame relation).mp hrelation) hsubject heval
    exact ⟨group, hgroup, hgroupName.trans (congrArg Relation.mk hname), hlisted⟩
  · intro group hgroup hlisted
    obtain ⟨relation, hrelation, hpermission⟩ := hkeeps'.exists_relation hgroup
    obtain ⟨b, heval, hkept⟩ := hkeeps.decided relation ((hsame relation).mpr hrelation)
    obtain ⟨name, _, hname, _, hcollects⟩ :=
      PublishedSnapshot.collects_of_lookup hgrounds (hkeeps'.answers group hgroup)
    rw [hpermission] at hname ⊢
    obtain rfl : name = relation.name := Identifier.ext hname
    exact hkept ((rootEval_iff_leastModel hlevel heval).mpr (hcollects.sound subject hlisted))

end Grounds

end Calls

namespace EngineCommand

section Runs

variable [Blake3] [StoreHasher]

/-- On every published snapshot that is stratified, has no namespace `user` and no deleted row
beneath it, a lookup over the permissions of an object that returns groups the subjects that the
checks allow. -/
theorem lookupObjectPermissions_groupsSubjects
    (commands : List (MapListing × EngineCommand)) (datastoreId : DatastoreId)
    (retainedSnapshots : ℕ+) (evaluationLimits : EvaluationLimits) {state : EngineState}
    (hstate : (runAll commands
      (.new datastoreId retainedSnapshots evaluationLimits)).publishedState = some state)
    (hnamespaces : ∀ definition ∈ state.latestSnapshot.schema.definitions,
      definition.name.value ≠ "user")
    (htombstones : state.latestSnapshot.relationships.tombstones = ∅)
    (hstratified : ∀ user, ∃ level, IsStratification (state.latestSnapshot.system user) level)
    {request : LookupObjectPermissionsRequest} {limits : EvaluationLimits}
    {permissions : List PermissionSubjects}
    (h : lookupObjectPermissions state.latestSnapshot.toPublishedSnapshot request limits =
      .ok permissions) :
    state.latestSnapshot.GroupsSubjects request limits permissions := by
  obtain ⟨level, hlevel⟩ := Classical.axiom_of_choice hstratified
  have hsound := sound_latestSnapshot hstate
  exact .of_grounds (fun permission subjectType =>
    grounds_latestSnapshot hstate hnamespaces htombstones hlevel request.resource permission
      subjectType limits) hsound.view hsound.schema h

end Runs

/-- The groups of a document that two groups own that contain each other. -/
theorem lookupObjectPermissions_groupsSubjects_cyclic_owners :
    letI := SchemaHash.identityBlake3
    letI := fnvHasher
    ∃ state : EngineState,
      (runAll cyclicOwners (.new ⟨0⟩ ⟨1, Nat.one_pos⟩ .default)).publishedState = some state ∧
      state.latestSnapshot.GroupsSubjects ⟨⟨"doc", "1"⟩, "user"⟩ .default
        [⟨⟨"admin"⟩, [.userId "alice"]⟩, ⟨⟨"owner"⟩, [.userId "alice"]⟩,
          ⟨⟨"viewer"⟩, [.userId "bob", .userId "alice"]⟩] := by
  let _ := SchemaHash.identityBlake3
  let _ := fnvHasher
  have hrun : (runAll cyclicOwners (.new ⟨0⟩ ⟨1, Nat.one_pos⟩ .default)).publishedState.map
      (fun state => (state.latestSnapshot.schema.exclusionFree,
        state.latestSnapshot.schema.definitions.all (fun definition =>
          decide (definition.name.value ≠ "user")),
        decide (state.latestSnapshot.relationships.tombstones = ∅),
        (lookupObjectPermissions state.latestSnapshot.toPublishedSnapshot
          ⟨⟨"doc", "1"⟩, "user"⟩ .default).toOption)) =
      some (true, true, true, some
        [⟨⟨"admin"⟩, [.userId "alice"]⟩, ⟨⟨"owner"⟩, [.userId "alice"]⟩,
          ⟨⟨"viewer"⟩, [.userId "bob", .userId "alice"]⟩]) := by
    decide +kernel
  obtain ⟨state, hstate, hresult⟩ := Option.map_eq_some_iff.mp hrun
  obtain ⟨hfree, hresult⟩ := Prod.mk.inj hresult
  obtain ⟨hnamespaces, hresult⟩ := Prod.mk.inj hresult
  obtain ⟨htombstones, hlookup⟩ := Prod.mk.inj hresult
  exact ⟨state, hstate, lookupObjectPermissions_groupsSubjects _ _ _ _ hstate
    (fun definition hdefinition => of_decide_eq_true
      (List.all_eq_true.mp hnamespaces definition hdefinition))
    (of_decide_eq_true htombstones)
    (fun _ => ⟨_, isStratification_of_exclusionFree hfree⟩) (eq_ok_of_toOption hlookup)⟩

section Runs

variable [Blake3] [StoreHasher]

/-- On every published snapshot on which no two keys below the object depend on each other, a
lookup of permissions that returns lists those that the checks allow, although the memo stays
between its checks. -/
theorem lookupPermissions_listsPermissions
    (commands : List (MapListing × EngineCommand)) (datastoreId : DatastoreId)
    (retainedSnapshots : ℕ+) (evaluationLimits : EvaluationLimits) {state : EngineState}
    (hstate : (runAll commands
      (.new datastoreId retainedSnapshots evaluationLimits)).publishedState = some state)
    {request : LookupPermissionsRequest} {limits : EvaluationLimits}
    {permissions : List Relation}
    (hmutual : request.NoMutual state.latestSnapshot.toPublishedSnapshot)
    (h : lookupPermissions state.latestSnapshot.toPublishedSnapshot request limits =
      .ok permissions) :
    state.latestSnapshot.ListsPermissions request permissions :=
  have hsound := sound_latestSnapshot hstate
  .of_noMutual hsound.view hsound.schema hmutual h

/-- On such snapshots the lookups of permissions and of their subjects tell the same pairs. -/
theorem permissionLookups_inverse
    (commands : List (MapListing × EngineCommand)) (datastoreId : DatastoreId)
    (retainedSnapshots : ℕ+) (evaluationLimits : EvaluationLimits) {state : EngineState}
    (hstate : (runAll commands
      (.new datastoreId retainedSnapshots evaluationLimits)).publishedState = some state)
    (hnamespaces : ∀ definition ∈ state.latestSnapshot.schema.definitions,
      definition.name.value ≠ "user")
    (htombstones : state.latestSnapshot.relationships.tombstones = ∅)
    (hstratified : ∀ user, ∃ level, IsStratification (state.latestSnapshot.system user) level)
    {resource : Object} {subject : User} {subjectType : String}
    (hmutual : LookupPermissionsRequest.NoMutual state.latestSnapshot.toPublishedSnapshot
      ⟨subject, resource⟩)
    (hsubject : subject.OfType subjectType)
    {permissionLimits limits : EvaluationLimits} {permissions : List Relation}
    {groups : List PermissionSubjects}
    (hpermissions : lookupPermissions state.latestSnapshot.toPublishedSnapshot
      ⟨subject, resource⟩ permissionLimits = .ok permissions)
    (hgroups : lookupObjectPermissions state.latestSnapshot.toPublishedSnapshot
      ⟨resource, subjectType⟩ limits = .ok groups) :
    PermissionsInverse limits subject permissions groups := by
  obtain ⟨level, hlevel⟩ := Classical.axiom_of_choice hstratified
  have hsound := sound_latestSnapshot hstate
  exact .of_grounds (fun permission subjectType =>
    grounds_latestSnapshot hstate hnamespaces htombstones hlevel resource permission subjectType
      limits) hsound.view hsound.schema (hlevel subject) hmutual hsubject hpermissions hgroups

end Runs

/-- A group owns a document. -/
def ownedDocument : List (MapListing × EngineCommand) :=
  [(.latestFirst, .applyNamespaceConfigs
    [.ofRelations "group" [("member", none)],
      .ofRelations "doc" [("owner", none),
        ("viewer", some (.union [.this, .computedUserset ⟨"owner"⟩]))]]),
    (.latestFirst, .writeRelationships
      [.create ⟨objectLit "group" "a", relationLit "member",
          .object (objectLit "user" "alice")⟩,
        .create ⟨objectLit "doc" "1", relationLit "viewer", .object (objectLit "user" "bob")⟩,
        .create ⟨objectLit "doc" "1", relationLit "owner",
          .userset (objectLit "group" "a") (relationLit "member")⟩] [])]

/-- The place of a relation of the document. -/
def ownedRank (name : RelationName) : Nat :=
  ["member", "owner", "viewer"].idxOf name.value

/-- What is published of the document, with the answers of both lookups. -/
theorem exists_ownedDocument :
    letI := SchemaHash.identityBlake3
    letI := fnvHasher
    ∃ state : EngineState,
      (runAll ownedDocument (.new ⟨0⟩ ⟨1, Nat.one_pos⟩ .default)).publishedState = some state ∧
      state.latestSnapshot.ranked ownedRank = true ∧
      (∀ definition ∈ state.latestSnapshot.schema.definitions, definition.name.value ≠ "user") ∧
      state.latestSnapshot.relationships.tombstones = ∅ ∧
      lookupPermissions state.latestSnapshot.toPublishedSnapshot
        ⟨.userId "alice", ⟨"doc", "1"⟩⟩ .default = .ok [⟨"owner"⟩, ⟨"viewer"⟩] ∧
      lookupObjectPermissions state.latestSnapshot.toPublishedSnapshot
        ⟨⟨"doc", "1"⟩, "user"⟩ .default =
          .ok [⟨⟨"owner"⟩, [.userId "alice"]⟩, ⟨⟨"viewer"⟩, [.userId "bob", .userId "alice"]⟩] := by
  let _ := SchemaHash.identityBlake3
  let _ := fnvHasher
  have hrun : (runAll ownedDocument (.new ⟨0⟩ ⟨1, Nat.one_pos⟩ .default)).publishedState.map
      (fun state => state.latestSnapshot.ranked ownedRank &&
        state.latestSnapshot.schema.definitions.all (fun definition =>
          decide (definition.name.value ≠ "user")) &&
        decide (state.latestSnapshot.relationships.tombstones = ∅) &&
        decide ((lookupPermissions state.latestSnapshot.toPublishedSnapshot
          ⟨.userId "alice", ⟨"doc", "1"⟩⟩ .default).toOption =
            some [⟨"owner"⟩, ⟨"viewer"⟩]) &&
        decide ((lookupObjectPermissions state.latestSnapshot.toPublishedSnapshot
          ⟨⟨"doc", "1"⟩, "user"⟩ .default).toOption =
            some [⟨⟨"owner"⟩, [.userId "alice"]⟩,
              ⟨⟨"viewer"⟩, [.userId "bob", .userId "alice"]⟩])) = some true := by
    decide +kernel
  obtain ⟨state, hstate, hresult⟩ := Option.map_eq_some_iff.mp hrun
  simp only [Bool.and_eq_true, decide_eq_true_eq] at hresult
  obtain ⟨⟨⟨⟨hranked, hnamespaces⟩, htombstones⟩, hpermissions⟩, hgroups⟩ := hresult
  exact ⟨state, hstate, hranked, fun definition hdefinition => of_decide_eq_true
      (List.all_eq_true.mp hnamespaces definition hdefinition), htombstones,
    eq_ok_of_toOption hpermissions, eq_ok_of_toOption hgroups⟩

/-- The permissions of a member of the group that owns the document. -/
theorem lookupPermissions_listsPermissions_ownedDocument :
    letI := SchemaHash.identityBlake3
    letI := fnvHasher
    ∃ state : EngineState,
      (runAll ownedDocument (.new ⟨0⟩ ⟨1, Nat.one_pos⟩ .default)).publishedState = some state ∧
      state.latestSnapshot.ListsPermissions ⟨.userId "alice", ⟨"doc", "1"⟩⟩
        [⟨"owner"⟩, ⟨"viewer"⟩] := by
  let _ := SchemaHash.identityBlake3
  let _ := fnvHasher
  obtain ⟨state, hstate, hranked, _, _, hpermissions, _⟩ := exists_ownedDocument
  exact ⟨state, hstate, lookupPermissions_listsPermissions _ _ _ _ hstate
    (noMutualBelow_of_decreasing
      (fun hrefers => PublishedSnapshot.refers_of_ranked hranked hrefers) _) hpermissions⟩

/-- The pairs of the document. -/
theorem permissionLookups_inverse_ownedDocument :
    PermissionsInverse .default (.userId "alice") [⟨"owner"⟩, ⟨"viewer"⟩]
      [⟨⟨"owner"⟩, [.userId "alice"]⟩, ⟨⟨"viewer"⟩, [.userId "bob", .userId "alice"]⟩] := by
  let _ := SchemaHash.identityBlake3
  let _ := fnvHasher
  obtain ⟨state, hstate, hranked, hnamespaces, htombstones, hpermissions, hgroups⟩ :=
    exists_ownedDocument
  have hdecreasing : ∀ {user : User} {t k : RelKey},
      Formula.Refers (state.latestSnapshot.system user t) k →
        ownedRank k.relation < ownedRank t.relation :=
    fun hrefers => PublishedSnapshot.refers_of_ranked hranked hrefers
  exact permissionLookups_inverse _ _ _ _ hstate hnamespaces htombstones
    (fun _ => ⟨_, isStratification_of_decreasing hdecreasing⟩)
    (noMutualBelow_of_decreasing hdecreasing _)
    (show User.OfType "user" (.userId "alice") from rfl) hpermissions hgroups

end EngineCommand

end SimpleZanzibar
