import SimpleZanzibar.SchemaOrder
import SimpleZanzibar.WriterCorrect

/-!
# What schema edits change

The schema of a reachable writer is compiled from the values of its configurations, which are
filed under their names.  Deleting or replacing a namespace therefore changes what it names and
nothing else.  The relations of a namespace are filed under keys that the writer never compares
with the names in the values: deleting a relation removes the one that its key points to.

**Results.**
* `WriterReachable.configured`: how the schema follows from the configurations.
* `SchemaEdit.exact_iff`: when an edit changes exactly what it names.
* `SchemaEdit.deleteRelation_swapped`: a deletion that removes another relation.
-/

namespace SimpleZanzibar

/-! ## What a schema defines -/

/-- The definition without its compiled rewrite. -/
def RelationDefinition.source (relation : RelationDefinition) : RelationDefinition :=
  { relation with compiledUsersetRewrite := none }

def CompiledSchema.HasNamespace (schema : CompiledSchema) (namespaceName : String) : Prop :=
  ∃ definition ∈ schema.definitions, definition.name.value = namespaceName

def CompiledSchema.HasRelation (schema : CompiledSchema) (namespaceName : String)
    (relation : RelationDefinition) : Prop :=
  ∃ definition ∈ schema.definitions, definition.name.value = namespaceName ∧
    ∃ found ∈ definition.relations, found.source = relation

/-- The configuration holds a relation that compiles to the definition. -/
def NamespaceConfig.Configures (config : NamespaceConfig) (relation : RelationDefinition) : Prop :=
  ∃ entry ∈ config.relations.entries, compileLegacyRelation entry.2 = .ok relation

theorem compileLegacyRelation_eq_ok
    {config : RelationConfig} {relation : RelationDefinition}
    (h : compileLegacyRelation config = .ok relation) :
    relation.source = relation ∧ relation.name.value = config.name.name := by
  obtain ⟨name, hname, h⟩ := bind_eq_ok.mp h
  obtain ⟨rewrite, _, h⟩ := bind_eq_ok.mp h
  cases h
  exact ⟨rfl, Identifier.new_ok_iff.mp (mapError_eq_ok hname)⟩

theorem names_of_compiled
    {entries : List RelationConfig} {relations : List RelationDefinition}
    (h : List.Forall₂ (fun entry relation => compileLegacyRelation entry = .ok relation)
      entries relations) :
    entries.map (·.name.name) = relations.map (·.name.value) := by
  induction h with
  | nil => rfl
  | cons hfirst _ ih =>
      rw [List.map_cons, List.map_cons, ih, (compileLegacyRelation_eq_ok hfirst).2]

theorem compileLegacyNamespace_eq_ok
    {listing : MapListing} {config : NamespaceConfig} {definition : NamespaceDefinition}
    (h : compileLegacyNamespace listing config = .ok definition) :
    definition.name.value = config.name ∧
      List.Forall₂ (fun entry relation => compileLegacyRelation entry = .ok relation)
        (listing.relations config) definition.relations := by
  obtain ⟨relations, hrelations, h⟩ := bind_eq_ok.mp h
  obtain ⟨name, hname, h⟩ := bind_eq_ok.mp h
  cases h
  exact ⟨Identifier.new_ok_iff.mp (mapError_eq_ok hname), mapM_eq_ok_iff.mp hrelations⟩

/-- A compiled namespace holds what its configuration configures. -/
theorem configures_iff
    {listing : MapListing} {config : NamespaceConfig} {definition : NamespaceDefinition}
    (h : compileLegacyNamespace listing config = .ok definition)
    (relation : RelationDefinition) :
    config.Configures relation ↔ ∃ found ∈ definition.relations, found.source = relation := by
  have hentries : config.Configures relation ↔
      ∃ entry ∈ listing.relations config, compileLegacyRelation entry = .ok relation := by
    have hmem : ∀ entry, entry ∈ listing.relations config ↔
        ∃ pair ∈ config.relations.entries, pair.2 = entry := by
      intro entry
      rw [(listing.relations_perm config).mem_iff, List.mem_map]
    constructor
    · rintro ⟨pair, hpair, hcompile⟩
      exact ⟨pair.2, (hmem _).mpr ⟨pair, hpair, rfl⟩, hcompile⟩
    · rintro ⟨entry, hentry, hcompile⟩
      obtain ⟨pair, hpair, rfl⟩ := (hmem entry).mp hentry
      exact ⟨pair, hpair, hcompile⟩
  rw [hentries]
  refine exists_mem_iff_of_forall₂ (compileLegacyNamespace_eq_ok h).2 ?_
  intro entry found hfound
  rw [hfound, Except.ok.injEq, (compileLegacyRelation_eq_ok hfound).1]

/-- A compiled schema holds what its configurations configure. -/
theorem hasRelation_iff_configures
    {listing : MapListing} {configs : List NamespaceConfig} {schema : CompiledSchema}
    (h : compileLegacyConfigs listing configs = .ok schema)
    (namespaceName : String) :
    (schema.HasNamespace namespaceName ↔ ∃ config ∈ configs, config.name = namespaceName) ∧
      ∀ relation, schema.HasRelation namespaceName relation ↔
        ∃ config ∈ configs, config.name = namespaceName ∧ config.Configures relation := by
  obtain ⟨definitions, hdefinitions, h⟩ := bind_eq_ok.mp h
  obtain ⟨_, _, hkept, _⟩ := CompiledSchema.fromDefinitions_eq_ok (mapError_eq_ok h)
  have hcompiled := mapM_eq_ok_iff.mp hdefinitions
  constructor
  · have hsource : (∃ config ∈ configs, config.name = namespaceName) ↔
        ∃ definition ∈ definitions, definition.name.value = namespaceName :=
      exists_mem_iff_of_forall₂ hcompiled (fun config definition hdefinition => by
        rw [(compileLegacyNamespace_eq_ok hdefinition).1])
    rw [hsource]
    exact (exists_mem_iff_of_forall₂ hkept (fun definition compiled hpair => by
      rw [hpair.name])).symm
  · intro relation
    have hsource : (∃ config ∈ configs, config.name = namespaceName ∧
        config.Configures relation) ↔ ∃ definition ∈ definitions,
          definition.name.value = namespaceName ∧
            ∃ found ∈ definition.relations, found.source = relation :=
      exists_mem_iff_of_forall₂ hcompiled (fun config definition hdefinition => by
        rw [(compileLegacyNamespace_eq_ok hdefinition).1, configures_iff hdefinition])
    rw [hsource]
    refine (exists_mem_iff_of_forall₂ hkept (fun definition compiled hpair => ?_)).symm
    rw [hpair.name]
    refine and_congr_right (fun _ => exists_mem_iff_of_forall₂ hpair.relations ?_)
    intro found found' hfound
    rw [hfound]
    rfl

/-- The relations of an accepted configuration have distinct names. -/
theorem nodup_relation_names
    {listing : MapListing} {configs : List NamespaceConfig} {schema : CompiledSchema}
    (h : compileLegacyConfigs listing configs = .ok schema)
    {config : NamespaceConfig}
    (hconfig : config ∈ configs) :
    (config.relations.entries.map (fun entry => entry.2.name.name)).Nodup := by
  obtain ⟨definitions, hdefinitions, h⟩ := bind_eq_ok.mp h
  have hdistinct := (CompiledSchema.fromDefinitions_eq_ok (mapError_eq_ok h)).1.distinct
  obtain ⟨definition, hmem, hdefinition⟩ :=
    (mapM_eq_ok_iff.mp hdefinitions).exists_right hconfig
  have hnodup : ((listing.relations config).map (·.name.name)).Nodup := by
    rw [names_of_compiled (compileLegacyNamespace_eq_ok hdefinition).2,
      ← Function.comp_def (·.value) (fun relation : RelationDefinition => relation.name),
      ← List.map_map]
    exact (hdistinct.relations definition hmem).map (fun _ _ hvalue => Identifier.ext hvalue)
  have hperm := (listing.relations_perm config).map (fun entry => entry.name.name)
  rw [List.map_map] at hperm
  exact hperm.nodup_iff.mp hnodup

/-! ## The configurations of a reachable writer -/

namespace WriterState

def HasNamespace (state : WriterState) (namespaceName : String) : Prop :=
  ∃ schema, state.schema = some schema ∧ schema.HasNamespace namespaceName

def HasRelation (state : WriterState) (namespaceName : String) (relation : RelationDefinition) :
    Prop :=
  ∃ schema, state.schema = some schema ∧ schema.HasRelation namespaceName relation

/-- The relation of the namespace resolves. -/
def Resolves (state : WriterState) (namespaceName relation : String) : Prop :=
  ∃ schema objectType name found, state.schema = some schema ∧
    objectType.value = namespaceName ∧ name.value = relation ∧
    schema.resolver.relation objectType name = .ok found

/-- The configurations are filed under their names, and the schema is compiled from them. -/
structure Configured (state : WriterState) : Prop where
  keyed : ∀ name config, state.configs.lookup name = some config → config.name = name
  compiled : ∀ schema, state.schema = some schema → ∃ listing configs,
    configs.Perm (state.configs.entries.map (·.2)) ∧
      compileLegacyConfigs listing configs = .ok schema
  unloaded : state.schema = none → state.configs = ∅ ∧ state.relationships.rows = []

/-- The configuration that the list gives the name last. -/
def lastNamed (name : String) (configs : List NamespaceConfig) : Option NamespaceConfig :=
  configs.reverse.find? (fun config => decide (config.name = name))

theorem lookup_insertConfigs
    (configs : NamespaceConfigs) (added : List NamespaceConfig) (name : String) :
    (insertConfigs configs added).lookup name =
      (lastNamed name added).or (configs.lookup name) := by
  induction added generalizing configs with
  | nil => rfl
  | cons config rest ih =>
      unfold insertConfigs at ih ⊢
      rw [List.foldl_cons, ih]
      unfold lastNamed
      rw [List.reverse_cons, List.find?_append, Option.or_assoc]
      by_cases hname : config.name = name
      · subst hname
        rw [AList.lookup_insert]
        simp
      · rw [AList.lookup_insert_ne (Ne.symm hname)]
        simp [hname]

theorem name_of_lastNamed
    {name : String} {configs : List NamespaceConfig} {config : NamespaceConfig}
    (h : lastNamed name configs = some config) :
    config.name = name := by
  simpa using List.find?_some h

namespace Configured

variable {state : WriterState} (hconfigured : state.Configured)
include hconfigured

/-- Reading the schema off the configurations. -/
theorem hasRelation_iff
    (namespaceName : String) :
    (state.HasNamespace namespaceName ↔
        ∃ config, state.configs.lookup namespaceName = some config) ∧
      ∀ relation, state.HasRelation namespaceName relation ↔
        ∃ config, state.configs.lookup namespaceName = some config ∧
          config.Configures relation := by
  cases hschema : state.schema with
  | none =>
      have hempty := (hconfigured.unloaded hschema).1
      unfold HasNamespace HasRelation
      simp [hschema, hempty]
  | some schema =>
      obtain ⟨listing, configs, hperm, hcompile⟩ := hconfigured.compiled schema hschema
      have hmem : ∀ config, (config ∈ configs ∧ config.name = namespaceName) ↔
          state.configs.lookup namespaceName = some config := by
        intro config
        rw [hperm.mem_iff, List.mem_map]
        constructor
        · rintro ⟨⟨⟨key, value⟩, hentry, rfl⟩, hname⟩
          have hlookup := AList.mem_lookup_iff.mpr hentry
          have hkey := hconfigured.keyed key value hlookup
          exact hname ▸ hkey ▸ hlookup
        · intro hlookup
          exact ⟨⟨⟨namespaceName, config⟩, AList.mem_lookup_iff.mp hlookup, rfl⟩,
            hconfigured.keyed namespaceName config hlookup⟩
      obtain ⟨hnamespace, hrelation⟩ := hasRelation_iff_configures hcompile namespaceName
      unfold HasNamespace HasRelation
      simp only [hschema, Option.some.injEq, exists_eq_left', hnamespace, hrelation,
        ← hmem, and_assoc, implies_true, and_self]

/-- Relations of one namespace are told apart by their names. -/
theorem key_of_name
    {name : String} {config : NamespaceConfig}
    (hlookup : state.configs.lookup name = some config)
    {key key' : Relation} {entry entry' : RelationConfig}
    (hentry : config.relations.lookup key = some entry)
    (hentry' : config.relations.lookup key' = some entry')
    (hsame : entry.name.name = entry'.name.name) :
    key = key' := by
  cases hschema : state.schema with
  | none =>
      rw [(hconfigured.unloaded hschema).1] at hlookup
      cases hlookup
  | some schema =>
      obtain ⟨listing, configs, hperm, hcompile⟩ := hconfigured.compiled schema hschema
      have hmem : config ∈ configs :=
        hperm.mem_iff.mpr (List.mem_map_of_mem (AList.mem_lookup_iff.mp hlookup))
      have hpairs := List.inj_on_of_nodup_map (nodup_relation_names hcompile hmem)
        (AList.mem_lookup_iff.mp hentry) (AList.mem_lookup_iff.mp hentry') hsame
      exact congrArg Sigma.fst hpairs

/-- Every relation of a configured namespace compiles. -/
theorem exists_compiled
    {name : String} {config : NamespaceConfig}
    (hlookup : state.configs.lookup name = some config)
    {key : Relation} {entry : RelationConfig}
    (hentry : config.relations.lookup key = some entry) :
    ∃ relation, compileLegacyRelation entry = .ok relation := by
  cases hschema : state.schema with
  | none =>
      rw [(hconfigured.unloaded hschema).1] at hlookup
      cases hlookup
  | some schema =>
      obtain ⟨listing, configs, hperm, hcompile⟩ := hconfigured.compiled schema hschema
      have hmem : config ∈ configs :=
        hperm.mem_iff.mpr (List.mem_map_of_mem (AList.mem_lookup_iff.mp hlookup))
      obtain ⟨definitions, hdefinitions, _⟩ := bind_eq_ok.mp hcompile
      obtain ⟨definition, _, hdefinition⟩ :=
        (mapM_eq_ok_iff.mp hdefinitions).exists_right hmem
      have hlisted : entry ∈ listing.relations config :=
        (listing.relations_perm config).mem_iff.mpr
          (List.mem_map_of_mem (AList.mem_lookup_iff.mp hentry))
      obtain ⟨relation, _, hrelation⟩ :=
        (compileLegacyNamespace_eq_ok hdefinition).2.exists_right hlisted
      exact ⟨relation, hrelation⟩

/-- Without the entry of a key, a configuration lacks the relation that the entry names. -/
theorem configures_erase_iff
    {name : String} {config : NamespaceConfig}
    (hlookup : state.configs.lookup name = some config)
    {key : Relation} {entry : RelationConfig}
    (hentry : config.relations.lookup key = some entry)
    (definition : RelationDefinition) :
    { config with relations := config.relations.erase key }.Configures definition ↔
      config.Configures definition ∧ definition.name.value ≠ entry.name.name := by
  constructor
  · rintro ⟨pair, hpair, hcompile⟩
    have hfound := AList.mem_lookup_iff.mpr hpair
    have hkey : pair.1 ≠ key := by
      intro hkey
      rw [hkey, AList.lookup_erase] at hfound
      cases hfound
    rw [AList.lookup_erase_ne hkey] at hfound
    refine ⟨⟨pair, AList.mem_lookup_iff.mp hfound, hcompile⟩, fun hsame => hkey ?_⟩
    rw [(compileLegacyRelation_eq_ok hcompile).2] at hsame
    exact hconfigured.key_of_name hlookup hfound hentry hsame
  · rintro ⟨⟨pair, hpair, hcompile⟩, hname⟩
    have hfound := AList.mem_lookup_iff.mpr hpair
    have hkey : pair.1 ≠ key := by
      intro hkey
      rw [hkey, hentry] at hfound
      cases hfound
      exact hname (compileLegacyRelation_eq_ok hcompile).2
    exact ⟨pair, AList.mem_lookup_iff.mp ((AList.lookup_erase_ne hkey).trans hfound), hcompile⟩

end Configured

theorem keyed_insertConfigs
    {configs : NamespaceConfigs}
    (hkeyed : ∀ name config, configs.lookup name = some config → config.name = name)
    (added : List NamespaceConfig) :
    ∀ name config, (insertConfigs configs added).lookup name = some config →
      config.name = name := by
  intro name config hlookup
  rw [lookup_insertConfigs] at hlookup
  rcases Option.or_eq_some_iff.mp hlookup with hadded | ⟨_, hold⟩
  · exact name_of_lastNamed hadded
  · exact hkeyed name config hold

theorem keyed_erase
    {configs : NamespaceConfigs}
    (hkeyed : ∀ name config, configs.lookup name = some config → config.name = name)
    (erased : String) :
    ∀ name config, (configs.erase erased).lookup name = some config → config.name = name := by
  intro name config hlookup
  by_cases hname : name = erased
  · subst hname
    rw [AList.lookup_erase] at hlookup
    cases hlookup
  · rw [AList.lookup_erase_ne hname] at hlookup
    exact hkeyed name config hlookup

theorem keyed_insert
    {configs : NamespaceConfigs}
    (hkeyed : ∀ name config, configs.lookup name = some config → config.name = name)
    (inserted : NamespaceConfig) :
    ∀ name config, (configs.insert inserted.name inserted).lookup name = some config →
      config.name = name :=
  keyed_insertConfigs hkeyed [inserted]

section Runs

variable [StoreHasher] {state next : WriterState} {listing : MapListing}

/-- Publishing a schema files its configurations and keeps the relationships. -/
theorem publishConfigs_ok
    {configs : NamespaceConfigs}
    (hkeyed : ∀ name config, configs.lookup name = some config → config.name = name)
    (h : state.publishConfigs listing configs = .ok next) :
    next.Configured ∧ next.configs = configs ∧
      (state.Configured → ∀ r, r ∈ next.relationships.rows ↔ r ∈ state.relationships.rows) := by
  obtain ⟨schema, hschema, h⟩ := bind_eq_ok.mp h
  obtain ⟨view, hview, h⟩ := bind_eq_ok.mp h
  obtain ⟨revision, _, h⟩ := bind_eq_ok.mp h
  cases h
  refine ⟨⟨hkeyed, ?_, fun hnone => (by cases hnone)⟩, rfl, ?_⟩
  · intro schema' hsome
    cases hsome
    exact ⟨listing, _, listing.namespaces_perm configs, hschema⟩
  · intro hconfigured r
    cases hold : state.schema with
    | some old =>
        exact (relationshipStoreForSchema_ok hview).2.2 (by rw [hold]; rfl) r
    | none =>
        unfold relationshipStoreForSchema at hview
        rw [hold] at hview
        cases hview
        rw [(hconfigured.unloaded hold).2]
        exact Iff.rfl

theorem Configured.applyRelationshipMutations
    (hconfigured : state.Configured)
    {mutations : List RelationshipMutation} {preconditions : List Precondition}
    (h : state.applyRelationshipMutations mutations preconditions = .ok next) :
    next.Configured := by
  unfold WriterState.applyRelationshipMutations at h
  cases hschema : state.schema with
  | none =>
      rw [hschema] at h
      cases h
  | some schema =>
      rw [hschema] at h
      obtain ⟨_, _, h⟩ := bind_eq_ok.mp h
      obtain ⟨_, _, h⟩ := bind_eq_ok.mp h
      obtain ⟨view, _, h⟩ := bind_eq_ok.mp h
      obtain ⟨revision, _, h⟩ := bind_eq_ok.mp h
      cases h
      exact ⟨hconfigured.keyed, hschema ▸ hconfigured.compiled, fun hnone => (by cases hnone)⟩

theorem Configured.importRelationships
    {relationships : List Relationship}
    (hconfigured : state.Configured)
    (h : state.importRelationships relationships = .ok next) :
    next.Configured := by
  fun_induction WriterState.importRelationships state relationships generalizing next with
  | case1 =>
      cases h
      exact hconfigured
  | case2 state relationships hne batch =>
      rename_i ih
      obtain ⟨state', hstate', h⟩ := bind_eq_ok.mp h
      exact ih state' (hconfigured.applyRelationshipMutations hstate') h

/-- Every command keeps the configurations and the schema together. -/
theorem Configured.run
    (hconfigured : state.Configured)
    {command : WriterCommand}
    (h : command.run listing state = .ok next) :
    next.Configured := by
  cases command with
  | applyRelationshipMutations mutations preconditions =>
      exact hconfigured.applyRelationshipMutations h
  | applyNamespaceConfigs configs =>
      exact (publishConfigs_ok (keyed_insertConfigs hconfigured.keyed configs) h).1
  | replaceNamespaceConfigs configs =>
      exact (publishConfigs_ok (keyed_insertConfigs (fun _ _ hnone => (by cases hnone)) configs)
        h).1
  | deleteNamespace namespaceName =>
      obtain ⟨_, _, h⟩ := bind_eq_ok.mp h
      split at h
      · cases h
      · exact (publishConfigs_ok (keyed_erase hconfigured.keyed namespaceName) h).1
  | deleteRelation namespaceName relation =>
      obtain ⟨_, _, h⟩ := bind_eq_ok.mp h
      obtain ⟨_, _, h⟩ := bind_eq_ok.mp h
      split at h
      · cases h
      · next config hlookup =>
          split at h
          · cases h
          · have hname := hconfigured.keyed namespaceName config hlookup
            subst hname
            exact (publishConfigs_ok (keyed_insert hconfigured.keyed
              { config with relations := config.relations.erase ⟨relation⟩ }) h).1
  | applyPolicyText configs relationships =>
      obtain ⟨candidate, hcandidate, h⟩ := bind_eq_ok.mp h
      have hpublished :=
        publishConfigs_ok (keyed_insertConfigs (fun _ _ hnone => (by cases hnone)) configs)
          hcandidate
      exact Configured.importRelationships hpublished.1 h

theorem Configured.load
    {loaded : WriterState} {file : SnapshotFile} {options : SnapshotLoadOptions}
    (hload : file.load listing options = .ok loaded) :
    loaded.Configured := by
  obtain ⟨_, _, hload⟩ := bind_eq_ok.mp hload
  split at hload
  · cases hload
  obtain ⟨schema, hschema, hload⟩ := bind_eq_ok.mp hload
  obtain ⟨view, _, hload⟩ := bind_eq_ok.mp hload
  cases hload
  have hcompile := mapError_eq_ok hschema
  refine ⟨keyed_insertConfigs (fun _ _ hnone => (by cases hnone)) _, ?_,
    fun hnone => (by cases hnone)⟩
  intro schema' hsome
  cases hsome
  refine ⟨listing, file.schemaConfigs, ?_, hcompile⟩
  exact (values_insertConfigs_perm ∅ (nodup_names_of_compile hcompile)
    (fun _ _ => AList.notMem_empty _)).symm

end Runs

end WriterState

section Edits

variable [StoreHasher] {state next : WriterState} {listing : MapListing}

/-- In every reachable state the schema follows from the configurations. -/
theorem WriterReachable.configured
    (h : WriterReachable state) :
    state.Configured := by
  induction h with
  | new =>
      exact ⟨fun _ _ hnone => (by cases hnone), fun _ hnone => (by cases hnone),
        fun _ => ⟨rfl, rfl⟩⟩
  | command listing command _ hrun ih => exact ih.run hrun
  | load _ _ _ _ hload _ => exact WriterState.Configured.load hload

/-- What resolves is a relation of the schema. -/
theorem WriterReachable.hasRelation_of_resolves
    (h : WriterReachable state)
    {namespaceName relation : String}
    (hresolves : state.Resolves namespaceName relation) :
    ∃ definition, state.HasRelation namespaceName definition ∧
      definition.name.value = relation := by
  obtain ⟨schema, objectType, name, found, hschema, rfl, rfl, hfound⟩ := hresolves
  obtain ⟨definitions, haccepted⟩ := h.invariant.schema schema hschema
  obtain ⟨_, hresolver, _, _⟩ := CompiledSchema.fromDefinitions_eq_ok haccepted
  obtain ⟨hname, i, j, definition, hi, hdefinition, hj⟩ := SchemaResolver.mem_of_relation hfound
  rw [hresolver] at hi
  exact ⟨found.source, ⟨schema, hschema, definition, List.mem_of_getElem? hi,
    congrArg Identifier.value hdefinition, found, List.mem_of_getElem? hj, rfl⟩,
    congrArg Identifier.value hname⟩

end Edits

/-! ## Edits of the schema -/

inductive SchemaEdit where
  | deleteRelation (namespaceName relation : String)
  | deleteNamespace (namespaceName : String)
  | applyNamespaceConfigs (configs : List NamespaceConfig)

namespace SchemaEdit

def command : SchemaEdit → WriterCommand
  | .deleteRelation namespaceName relation => .deleteRelation namespaceName relation
  | .deleteNamespace namespaceName => .deleteNamespace namespaceName
  | .applyNamespaceConfigs configs => .applyNamespaceConfigs configs

/-- The second state defines what the first does, apart from what the edit names. -/
def ChangesSchema (state next : WriterState) : SchemaEdit → Prop
  | .deleteRelation namespaceName relation =>
      ¬ next.Resolves namespaceName relation ∧
        (∀ name, next.HasNamespace name ↔ state.HasNamespace name) ∧
        ∀ name definition, next.HasRelation name definition ↔
          state.HasRelation name definition ∧
            ¬ (name = namespaceName ∧ definition.name.value = relation)
  | .deleteNamespace namespaceName =>
      (∀ name, next.HasNamespace name ↔ state.HasNamespace name ∧ name ≠ namespaceName) ∧
        ∀ name definition, next.HasRelation name definition ↔
          state.HasRelation name definition ∧ name ≠ namespaceName
  | .applyNamespaceConfigs configs =>
      ∀ name, match WriterState.lastNamed name configs with
        | some config => next.HasNamespace name ∧
            ∀ definition, next.HasRelation name definition ↔ config.Configures definition
        | none => (next.HasNamespace name ↔ state.HasNamespace name) ∧
            ∀ definition, next.HasRelation name definition ↔ state.HasRelation name definition

/-- The edit changes what it names, and nothing else. -/
def Exact (state next : WriterState) (edit : SchemaEdit) : Prop :=
  edit.ChangesSchema state next ∧ next.relationships.liveSet = state.relationships.liveSet

/-- The relation that a deletion finds under its key has the name of the key. -/
def FindsItsName (state : WriterState) : SchemaEdit → Prop
  | .deleteRelation namespaceName relation =>
      ∀ config entry, state.configs.lookup namespaceName = some config →
        config.relations.lookup ⟨relation⟩ = some entry → entry.name = ⟨relation⟩
  | _ => True

section Exactness

variable [StoreHasher] {state next : WriterState} {listing : MapListing}

/-- Deleting a namespace. -/
theorem changesSchema_deleteNamespace
    (hconfigured : state.Configured)
    {namespaceName : String}
    (hrun : state.deleteNamespace listing namespaceName = .ok next) :
    ChangesSchema state next (.deleteNamespace namespaceName) ∧
      ∀ r, r ∈ next.relationships.rows ↔ r ∈ state.relationships.rows := by
  obtain ⟨_, _, hrun⟩ := bind_eq_ok.mp hrun
  split at hrun
  · cases hrun
  obtain ⟨hnext, hconfigs, hrows⟩ := WriterState.publishConfigs_ok
    (WriterState.keyed_erase hconfigured.keyed namespaceName) hrun
  have hlookup : ∀ name config, next.configs.lookup name = some config ↔
      state.configs.lookup name = some config ∧ name ≠ namespaceName := by
    intro name config
    rw [hconfigs]
    by_cases hname : name = namespaceName
    · subst hname
      simp
    · simp [AList.lookup_erase_ne hname, hname]
  refine ⟨⟨fun name => ?_, fun name definition => ?_⟩, hrows hconfigured⟩
  · rw [(hnext.hasRelation_iff name).1, (hconfigured.hasRelation_iff name).1]
    simp only [hlookup, exists_and_right]
  · rw [(hnext.hasRelation_iff name).2, (hconfigured.hasRelation_iff name).2]
    simp only [hlookup]
    constructor
    · rintro ⟨config, ⟨hconfig, hname⟩, hconfigures⟩
      exact ⟨⟨config, hconfig, hconfigures⟩, hname⟩
    · rintro ⟨⟨config, hconfig, hconfigures⟩, hname⟩
      exact ⟨config, ⟨hconfig, hname⟩, hconfigures⟩

/-- Adding and replacing namespaces. -/
theorem changesSchema_applyNamespaceConfigs
    (hconfigured : state.Configured)
    {configs : List NamespaceConfig}
    (hrun : state.applyNamespaceConfigs listing configs = .ok next) :
    ChangesSchema state next (.applyNamespaceConfigs configs) ∧
      ∀ r, r ∈ next.relationships.rows ↔ r ∈ state.relationships.rows := by
  obtain ⟨hnext, hconfigs, hrows⟩ := WriterState.publishConfigs_ok
    (WriterState.keyed_insertConfigs hconfigured.keyed configs) hrun
  refine ⟨fun name => ?_, hrows hconfigured⟩
  have hlookup := WriterState.lookup_insertConfigs state.configs configs name
  rw [← hconfigs] at hlookup
  cases hlast : WriterState.lastNamed name configs with
  | some config =>
      rw [hlast, Option.some_or] at hlookup
      refine ⟨(hnext.hasRelation_iff name).1.mpr ⟨config, hlookup⟩, fun definition => ?_⟩
      rw [(hnext.hasRelation_iff name).2, hlookup]
      simp
  | none =>
      rw [hlast, Option.none_or] at hlookup
      refine ⟨?_, fun definition => ?_⟩
      · rw [(hnext.hasRelation_iff name).1, (hconfigured.hasRelation_iff name).1, hlookup]
      · rw [(hnext.hasRelation_iff name).2, (hconfigured.hasRelation_iff name).2, hlookup]

/-- Deleting a relation removes the one whose name the entry carries. -/
theorem deleteRelation_removes
    (hconfigured : state.Configured)
    {namespaceName relation : String}
    (hrun : state.deleteRelation listing namespaceName relation = .ok next) :
    ∃ config entry, state.configs.lookup namespaceName = some config ∧
      config.relations.lookup ⟨relation⟩ = some entry ∧
      (∀ name, next.HasNamespace name ↔ state.HasNamespace name) ∧
      (∀ name definition, next.HasRelation name definition ↔
        state.HasRelation name definition ∧
          ¬ (name = namespaceName ∧ definition.name.value = entry.name.name)) ∧
      ∀ r, r ∈ next.relationships.rows ↔ r ∈ state.relationships.rows := by
  obtain ⟨_, _, hrun⟩ := bind_eq_ok.mp hrun
  obtain ⟨_, _, hrun⟩ := bind_eq_ok.mp hrun
  split at hrun
  · cases hrun
  next config hconfig =>
  split at hrun
  · cases hrun
  next entry hentry =>
  have hname := hconfigured.keyed namespaceName config hconfig
  subst hname
  obtain ⟨hnext, hconfigs, hrows⟩ := WriterState.publishConfigs_ok
    (WriterState.keyed_insert hconfigured.keyed
      { config with relations := config.relations.erase ⟨relation⟩ }) hrun
  refine ⟨config, entry, hconfig, hentry, fun name => ?_, fun name definition => ?_,
    hrows hconfigured⟩
  · rw [(hnext.hasRelation_iff name).1, (hconfigured.hasRelation_iff name).1, hconfigs]
    by_cases hname : name = config.name
    · subst hname
      simp [hconfig]
    · rw [AList.lookup_insert_ne hname]
  · rw [(hnext.hasRelation_iff name).2, (hconfigured.hasRelation_iff name).2, hconfigs]
    by_cases hname : name = config.name
    · subst hname
      rw [AList.lookup_insert, hconfig]
      simp only [Option.some.injEq, exists_eq_left', true_and]
      exact hconfigured.configures_erase_iff hconfig hentry definition
    · rw [AList.lookup_insert_ne hname]
      simp [hname]

omit [StoreHasher] in
theorem liveSet_eq_of_rows
    {view view' : RelationshipStoreView}
    (h : ∀ r, r ∈ view'.rows ↔ r ∈ view.rows) :
    view'.liveSet = view.liveSet := by
  ext r
  rw [RelationshipStoreView.mem_liveSet_iff, RelationshipStoreView.mem_liveSet_iff, h r]

/-- A successful edit of a reachable writer changes exactly what it names if and only if a
deletion of a relation finds an entry of that name under the key. -/
theorem exact_iff
    (hreach : WriterReachable state)
    (listing : MapListing) (edit : SchemaEdit)
    (hrun : edit.command.run listing state = .ok next) :
    edit.Exact state next ↔ edit.FindsItsName state := by
  have hconfigured := hreach.configured
  cases edit with
  | deleteNamespace namespaceName =>
      obtain ⟨hchanges, hrows⟩ := changesSchema_deleteNamespace hconfigured hrun
      exact ⟨fun _ => trivial, fun _ => ⟨hchanges, liveSet_eq_of_rows hrows⟩⟩
  | applyNamespaceConfigs configs =>
      obtain ⟨hchanges, hrows⟩ := changesSchema_applyNamespaceConfigs hconfigured hrun
      exact ⟨fun _ => trivial, fun _ => ⟨hchanges, liveSet_eq_of_rows hrows⟩⟩
  | deleteRelation namespaceName relation =>
      obtain ⟨config, entry, hconfig, hentry, hnamespaces, hrelations, hrows⟩ :=
        deleteRelation_removes hconfigured hrun
      have hfinds : FindsItsName state (.deleteRelation namespaceName relation) ↔
          entry.name.name = relation := by
        constructor
        · intro hfinds
          rw [hfinds config entry hconfig hentry]
        · rintro rfl config' entry' hconfig' hentry'
          cases hconfig.symm.trans hconfig'
          cases hentry.symm.trans hentry'
          rfl
      rw [hfinds]
      constructor
      · -- the removed relation is one that the edit does not name
        rintro ⟨⟨_, _, hexact⟩, _⟩
        by_contra hother
        obtain ⟨definition, hcompile⟩ := hconfigured.exists_compiled hconfig hentry
        have hname := (compileLegacyRelation_eq_ok hcompile).2
        have hold : state.HasRelation namespaceName definition :=
          ((hconfigured.hasRelation_iff namespaceName).2 definition).mpr
            ⟨config, hconfig, _, AList.mem_lookup_iff.mp hentry, hcompile⟩
        have hkept := (hexact namespaceName definition).mpr
          ⟨hold, fun h => hother (hname.symm.trans h.2)⟩
        exact ((hrelations namespaceName definition).mp hkept).2 ⟨rfl, hname⟩
      · rintro rfl
        refine ⟨⟨?_, hnamespaces, hrelations⟩, liveSet_eq_of_rows hrows⟩
        intro hresolves
        obtain ⟨definition, hdefinition, hname⟩ :=
          (hreach.command listing _ hrun).hasRelation_of_resolves hresolves
        exact ((hrelations namespaceName definition).mp hdefinition).2 ⟨rfl, hname⟩

end Exactness

/-- The states before and after a command, with what is read off them. -/
theorem exists_states_of_run
    [StoreHasher] {listing : MapListing} {commands : List WriterCommand}
    {command : WriterCommand} {β : Type} {f : WriterState → WriterState → β} {value : β}
    (h : ((WriterCommand.runAll listing commands .new).bind (fun state =>
      (command.run listing state).map (f state))).toOption = some value) :
    ∃ state next, WriterReachable state ∧ command.run listing state = .ok next ∧
      f state next = value := by
  obtain ⟨state, hstate, hnext⟩ := bind_eq_ok.mp (eq_ok_of_toOption h)
  obtain ⟨next, hnext, hvalue⟩ :=
    exists_ok_of_map_toOption (congrArg Except.toOption hnext)
  exact ⟨state, next, WriterReachable.new.runAll hstate, hnext, hvalue⟩

/-- Deleting a relation that is filed under its name. -/
theorem exact_iff_unused :
    letI := fnvHasher
    ∃ state next, WriterReachable state ∧
      (SchemaEdit.deleteRelation "doc" "unused").command.run .latestFirst state = .ok next ∧
      (SchemaEdit.deleteRelation "doc" "unused").Exact state next := by
  let _ := fnvHasher
  have hrun : ((WriterCommand.runAll .latestFirst [.applyNamespaceConfigs
      [.ofRelations "doc" [("viewer", none), ("unused", none)]]] .new).bind (fun state =>
        ((SchemaEdit.deleteRelation "doc" "unused").command.run .latestFirst state).map (fun _ =>
          (state.configs.lookup "doc").bind (fun config =>
            (config.relations.lookup ⟨"unused"⟩).map (·.name))))).toOption =
      some (some ⟨"unused"⟩) := by
    decide +kernel
  obtain ⟨state, next, hreach, hnext, hname⟩ := exists_states_of_run
    (f := fun state _ => (state.configs.lookup "doc").bind (fun config =>
      (config.relations.lookup ⟨"unused"⟩).map (·.name))) hrun
  refine ⟨state, next, hreach, hnext,
    (exact_iff hreach .latestFirst (.deleteRelation "doc" "unused") hnext).mpr ?_⟩
  intro config entry hconfig hentry
  simpa [hconfig, hentry] using hname

/-- Two relations that are filed under each other's name. -/
def swappedConfig : NamespaceConfig where
  name := "doc"
  relations := ((∅ : AList (fun _ : Relation => RelationConfig)).insert ⟨"editor"⟩
    ⟨⟨"viewer"⟩, none⟩).insert ⟨"viewer"⟩ ⟨⟨"editor"⟩, none⟩

/-- Deleting one of them removes the other, and the one that was to be deleted still
resolves. -/
theorem deleteRelation_swapped :
    letI := fnvHasher
    ∃ state next, WriterReachable state ∧
      (SchemaEdit.deleteRelation "doc" "viewer").command.run .latestFirst state = .ok next ∧
      next.Resolves "doc" "viewer" ∧ ¬ next.Resolves "doc" "editor" ∧
      ¬ (SchemaEdit.deleteRelation "doc" "viewer").Exact state next := by
  let _ := fnvHasher
  have hrun : ((WriterCommand.runAll .latestFirst
      [.applyNamespaceConfigs [swappedConfig]] .new).bind (fun state =>
        ((SchemaEdit.deleteRelation "doc" "viewer").command.run .latestFirst state).map
          (fun next => next.schema.map (fun schema => [relationLit "viewer",
            relationLit "editor"].map (fun name => (schema.resolver.relation
              (objectLit "doc" "1").objectType name).isOk))))).toOption =
      some (some [true, false]) := by
    decide +kernel
  obtain ⟨state, next, hreach, hnext, hresolved⟩ := exists_states_of_run hrun
  obtain ⟨schema, hschema, hresolved⟩ := Option.map_eq_some_iff.mp hresolved
  obtain ⟨hviewer, heditor⟩ := List.cons_eq_cons.mp hresolved
  have hfound : next.Resolves "doc" "viewer" := by
    cases hrelation : schema.resolver.relation (objectLit "doc" "1").objectType
        (relationLit "viewer") with
    | error error =>
        simp only [hrelation] at hviewer
        cases hviewer
    | ok found => exact ⟨schema, _, _, found, hschema, rfl, rfl, hrelation⟩
  have hremoved : ¬ next.Resolves "doc" "editor" := by
    rintro ⟨schema', objectType, name, found, hschema', htype, hname, hrelation⟩
    cases hschema.symm.trans hschema'
    rw [Identifier.ext (a := objectType) (b := (objectLit "doc" "1").objectType) htype,
      Identifier.ext (a := name) (b := relationLit "editor") hname] at hrelation
    simp only [List.map_cons, List.map_nil, hrelation] at heditor
    cases heditor
  exact ⟨state, next, hreach, hnext, hfound, hremoved, fun hexact => hexact.1.1 hfound⟩

end SchemaEdit

end SimpleZanzibar
