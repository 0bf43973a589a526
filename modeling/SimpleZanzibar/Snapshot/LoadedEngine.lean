import SimpleZanzibar.EngineCorrect
import SimpleZanzibar.Snapshot.LoadCorrect

/-!
# The engine that a file starts

A full load checks the rows of a file and compiles its schema, but it does not check the one
against the other.  The loaded engine satisfies the invariant of the writer exactly when the
rows name relations that the schema text declares.

**Results.**
* `exists_relation_iff_declares`: the relations of a compiled schema are those of its text.
* `loadSnapshot_inv_iff`: when the loaded engine satisfies the invariant of the writer.
* `loadSnapshot_undeclared_relation`: a file that is accepted although it does not.
-/

namespace SimpleZanzibar

/-- The text declares a relation of a namespace. -/
def Declares (namespaces : List Dsl.LegacyNamespaceAst) (namespaceName relation : String) :
    Prop :=
  ∃ ast ∈ namespaces, ast.name = namespaceName ∧
    ∃ declared ∈ ast.relations, declared.name = relation

section Compiled

/-- The definitions declare a relation of a namespace. -/
def Defines (definitions : List NamespaceDefinition) (namespaceName relation : String) : Prop :=
  ∃ definition ∈ definitions, definition.name.value = namespaceName ∧
    ∃ found ∈ definition.relations, found.name.value = relation

theorem defines_iff_of_kept
    {definitions compiled : List NamespaceDefinition} {namespaceName relation : String}
    (h : List.Forall₂ NamespaceDefinition.Kept definitions compiled) :
    Defines definitions namespaceName relation ↔ Defines compiled namespaceName relation := by
  refine exists_mem_iff_of_forall₂ h ?_
  intro definition compiled' hkept
  rw [hkept.name]
  refine and_congr_right (fun _ => exists_mem_iff_of_forall₂ hkept.relations ?_)
  intro found found' hfound
  rw [hfound]

theorem exists_relation_iff_defines
    {definitions : List NamespaceDefinition}
    (hdistinct : NamesDistinct definitions)
    {objectType : ObjectType} {name : RelationName} :
    (∃ found, SchemaResolver.relation ⟨definitions⟩ objectType name = .ok found) ↔
      Defines definitions objectType.value name.value := by
  constructor
  · rintro ⟨found, hfound⟩
    obtain ⟨definition, hmem, rfl, hrelation, rfl⟩ :=
      (SchemaResolver.relation_eq_ok_iff_mem hdistinct).mp hfound
    exact ⟨definition, hmem, rfl, found, hrelation, rfl⟩
  · rintro ⟨definition, hmem, hname, found, hrelation, hfound⟩
    exact ⟨found, (SchemaResolver.relation_eq_ok_iff_mem hdistinct).mpr
      ⟨definition, hmem, Identifier.ext hname, hrelation, Identifier.ext hfound⟩⟩

/-- Relations that are entered under their names. -/
def EnteredByName (relations : AList (fun _ : Relation => RelationConfig)) : Prop :=
  ∀ entry ∈ relations.entries, entry.2.name = entry.1

/-- Entering parsed relations keeps them under their names. -/
theorem enteredByName_foldl
    (declared : List Dsl.LegacyRelationAst)
    {relations : AList (fun _ : Relation => RelationConfig)}
    (h : EnteredByName relations) :
    EnteredByName (declared.foldl (fun relations relation =>
      relations.insert ⟨relation.name⟩ ⟨⟨relation.name⟩, relation.rewrite⟩) relations) := by
  induction declared generalizing relations with
  | nil => exact h
  | cons relation rest ih =>
      apply ih
      intro entry hentry
      rw [AList.entries_insert] at hentry
      rcases List.mem_cons.mp hentry with rfl | hentry
      · rfl
      · exact h entry ((List.kerase_sublist _ _).subset hentry)

theorem mem_foldl_insert_iff
    (declared : List Dsl.LegacyRelationAst)
    (relations : AList (fun _ : Relation => RelationConfig)) (name : String) :
    (⟨name⟩ : Relation) ∈ declared.foldl (fun relations relation =>
        relations.insert ⟨relation.name⟩ ⟨⟨relation.name⟩, relation.rewrite⟩) relations ↔
      (⟨name⟩ : Relation) ∈ relations ∨ ∃ relation ∈ declared, relation.name = name := by
  induction declared generalizing relations with
  | nil => simp
  | cons relation rest ih =>
      rw [List.foldl_cons, ih, AList.mem_insert, List.exists_mem_cons_iff, Relation.mk.injEq,
        @eq_comm _ name, or_comm (a := relation.name = name), or_assoc]

/-- The relations of a configuration that was parsed are those of its text. -/
theorem exists_relation_ofAst_iff
    (listing : MapListing) (ast : Dsl.LegacyNamespaceAst) (name : String) :
    (∃ relation ∈ listing.relations (NamespaceConfig.ofAst ast), relation.name.name = name) ↔
      ∃ declared ∈ ast.relations, declared.name = name := by
  have hmem := mem_foldl_insert_iff ast.relations ∅ name
  rw [or_iff_right (AList.notMem_empty _)] at hmem
  rw [← hmem]
  have hentered : EnteredByName (NamespaceConfig.ofAst ast).relations :=
    enteredByName_foldl ast.relations (fun _ h => (by cases h))
  constructor
  · rintro ⟨relation, hrelation, rfl⟩
    rw [(listing.relations_perm _).mem_iff] at hrelation
    obtain ⟨entry, hentry, rfl⟩ := List.mem_map.mp hrelation
    rw [hentered entry hentry]
    show entry.1 ∈ (NamespaceConfig.ofAst ast).relations.entries.map Sigma.fst
    exact List.mem_map_of_mem hentry
  · intro hkey
    obtain ⟨entry, hentry, hname⟩ := List.mem_map.mp hkey
    refine ⟨entry.2, ?_, ?_⟩
    · rw [(listing.relations_perm _).mem_iff]
      exact List.mem_map_of_mem hentry
    · rw [hentered entry hentry, hname]

/-- The relations of a compiled schema are those of its text. -/
theorem exists_relation_iff_declares
    {listing : MapListing} {namespaces : List Dsl.LegacyNamespaceAst} {schema : CompiledSchema}
    (h : compileLegacyConfigs listing (namespaces.map NamespaceConfig.ofAst) = .ok schema)
    (objectType : ObjectType) (name : RelationName) :
    (∃ found, schema.resolver.relation objectType name = .ok found) ↔
      Declares namespaces objectType.value name.value := by
  obtain ⟨definitions, hdefinitions, h⟩ := bind_eq_ok.mp h
  obtain ⟨_, hresolver, hkept, hdistinct⟩ :=
    CompiledSchema.fromDefinitions_eq_ok (mapError_eq_ok h)
  rw [hresolver, exists_relation_iff_defines hdistinct, ← defines_iff_of_kept hkept]
  have hcompiled := mapM_eq_ok_iff.mp hdefinitions
  rw [List.forall₂_map_left_iff] at hcompiled
  symm
  refine exists_mem_iff_of_forall₂ hcompiled ?_
  intro ast definition hdefinition
  obtain ⟨relations, hrelations, hdefinition⟩ := bind_eq_ok.mp hdefinition
  obtain ⟨namespaceName, hname, hdefinition⟩ := bind_eq_ok.mp hdefinition
  cases hdefinition
  have hvalue : namespaceName.value = ast.name := Identifier.new_ok_iff.mp (mapError_eq_ok hname)
  rw [hvalue]
  refine and_congr_right (fun _ => ?_)
  rw [← exists_relation_ofAst_iff listing ast name.value]
  refine exists_mem_iff_of_forall₂ (mapM_eq_ok_iff.mp hrelations) ?_
  intro relation found hfound
  obtain ⟨relationName, hrelationName, hfound⟩ := bind_eq_ok.mp hfound
  obtain ⟨_, _, hfound⟩ := bind_eq_ok.mp hfound
  cases hfound
  have hsame : relationName.value = relation.name.name :=
    Identifier.new_ok_iff.mp (mapError_eq_ok hrelationName)
  rw [← hsame]
  rfl

end Compiled

namespace Snapshot

/-! ## The rows as the file has them -/

/-- Two symbols of a file spell a relation that the text declares. -/
def SymbolsDeclared (namespaces : List Dsl.LegacyNamespaceAst) (symbols : List String)
    (objectType relation : Nat) : Prop :=
  ∃ typeName relationName, symbols[objectType - 1]? = some typeName ∧
    symbols[relation - 1]? = some relationName ∧ Declares namespaces typeName relationName

/-- The relation of a row, and that of its subject if it has one, are declared. -/
structure RowDeclared (namespaces : List Dsl.LegacyNamespaceAst) (symbols : List String)
    (row : DiskRow) : Prop where
  resource : SymbolsDeclared namespaces symbols row.resourceType row.relation
  subject : row.subjectRelation ≠ 0 →
    SymbolsDeclared namespaces symbols row.subjectType row.subjectRelation

/-- The rows of a file name relations that its schema text declares. -/
def RowsDeclared [Blake3Hash] [Zstd] (file : List UInt8) (options : LoadOptions) : Prop :=
  ∀ bytes reader text namespaces byteLen symbols rows,
    readDecodePayload file options = .ok bytes → parseReader bytes options = .ok reader →
    schemaText reader = .ok text → parseDslAst text = .ok namespaces →
    decodeSymbolTable reader = .ok (byteLen, symbols) → decodeDiskRows reader = .ok rows →
    ∀ row ∈ rows, RowDeclared namespaces symbols row

theorem symbolId_getElem?_eq
    {interner : IdentifierInterner} {id : SymbolId} {value : String}
    (h : interner.resolve id = .ok value) :
    interner.entries[id.value.get - 1]? = some value :=
  IdentifierInterner.resolve_eq_ok_iff.mp h

/-- The numbers of a row that was typed. -/
theorem rowFromDisk_eq_ok
    {diskRow : DiskRow} {symbolCount : Nat} {row : RowIdentity}
    (h : rowFromDisk diskRow symbolCount = .ok row) :
    diskRow = DiskRow.ofRow row := by
  obtain ⟨resourceType, h₁, h⟩ := bind_eq_ok.mp h
  obtain ⟨resourceId, h₂, h⟩ := bind_eq_ok.mp h
  obtain ⟨relation, h₃, h⟩ := bind_eq_ok.mp h
  obtain ⟨subjectType, h₄, h⟩ := bind_eq_ok.mp h
  obtain ⟨subjectId, h₅, h⟩ := bind_eq_ok.mp h
  obtain ⟨subjectRelation, h₆, h⟩ := bind_eq_ok.mp h
  cases h
  have hsubject := optionalSymbolFromDisk_eq_ok h₆
  obtain ⟨_, _, _, _, _, _⟩ := diskRow
  simp only [DiskRow.ofRow, DiskRow.mk.injEq]
  refine ⟨(symbolId_fromSnapshotRaw_eq_ok h₁).1.symm, (symbolId_fromSnapshotRaw_eq_ok h₂).1.symm,
    (symbolId_fromSnapshotRaw_eq_ok h₃).1.symm, (symbolId_fromSnapshotRaw_eq_ok h₄).1.symm,
    (symbolId_fromSnapshotRaw_eq_ok h₅).1.symm, ?_⟩
  cases subjectRelation with
  | none => exact hsubject
  | some id => exact hsubject

section Rows

variable [StoreHasher]

/-- The rows of a load are those of the file. -/
theorem decodeRow_foldlM_rows
    {interner : IdentifierInterner} {symbolCount : Nat} {validation : SnapshotValidationMode}
    {diskRows : List DiskRow} {fold result : RowFold}
    (h : diskRows.foldlM (decodeRow interner symbolCount validation) fold = .ok result) :
    ∃ rows, result.rows = fold.rows ++ rows ∧
      diskRows = rows.map (fun row => DiskRow.ofRow row.identity) := by
  induction diskRows generalizing fold with
  | nil =>
      cases h
      exact ⟨[], (List.append_nil _).symm, rfl⟩
  | cons diskRow diskRows ih =>
      rw [List.foldlM_cons] at h
      obtain ⟨middle, hmiddle, hrest⟩ := bind_eq_ok.mp h
      obtain ⟨rows, hrows, hdisk⟩ := ih hrest
      obtain ⟨rowId, _, hmiddle⟩ := bind_eq_ok.mp hmiddle
      obtain ⟨row, hrow, hmiddle⟩ := bind_eq_ok.mp hmiddle
      have hadded : middle.rows = fold.rows ++ [⟨rowId, row⟩] := by
        cases validation with
        | full =>
            obtain ⟨_, _, hmiddle⟩ := bind_eq_ok.mp hmiddle
            obtain ⟨_, hmiddle⟩ := require_bind_eq_ok.mp hmiddle
            cases hmiddle
            rfl
        | trustedFastLoad =>
            cases hmiddle
            rfl
      refine ⟨⟨rowId, row⟩ :: rows, ?_, ?_⟩
      · rw [hrows, hadded, List.append_assoc]
        rfl
      · rw [List.map_cons, ← hdisk, rowFromDisk_eq_ok hrow]

variable [Blake3Hash]

/-- The strings and the rows of a full load are those of the file. -/
theorem decodeStore_full_contents
    {reader : Reader} {profile : SnapshotLoadProfile} {store : IndexedRelationshipStore}
    (h : decodeStore reader profile .full = .ok store) :
    (∃ byteLen, decodeSymbolTable reader = .ok (byteLen, store.interner.entries)) ∧
      decodeDiskRows reader =
        .ok (store.rowTable.map (fun row => DiskRow.ofRow row.identity)) := by
  obtain ⟨interner, hinterner, h⟩ := bind_eq_ok.mp h
  obtain ⟨rows, hrows, h⟩ := bind_eq_ok.mp h
  obtain ⟨_, _, h⟩ := bind_eq_ok.mp h
  cases h
  constructor
  · obtain ⟨⟨byteLen, symbols⟩, hsymbols, hinterner⟩ := bind_eq_ok.mp hinterner
    obtain ⟨hashes, _, hinterner⟩ := bind_eq_ok.mp hinterner
    obtain ⟨lookup, _, hinterner⟩ := bind_eq_ok.mp hinterner
    obtain ⟨tables, _, hinterner⟩ := bind_eq_ok.mp hinterner
    cases hinterner
    exact ⟨byteLen, hsymbols⟩
  · obtain ⟨diskRows, hdiskRows, hrows⟩ := bind_eq_ok.mp hrows
    obtain ⟨fold, hfold, hrest⟩ := bind_eq_ok.mp hrows
    cases hrest
    obtain ⟨rows, hfoldRows, rfl⟩ := decodeRow_foldlM_rows hfold
    rw [hdiskRows]
    show _ = Except.ok (fold.rows.map _)
    rw [hfoldRows]
    rfl

end Rows

/-- A relationship is valid when the relation and that of its userset subject resolve. -/
theorem validateRelationship_eq_ok_iff
    {schema : CompiledSchema} {r : Relationship} :
    schema.validateRelationship r = .ok () ↔
      (∃ found, schema.resolver.relation r.resource.objectType r.relation = .ok found) ∧
        ∀ relation, r.subject.relation? = some relation →
          ∃ found, schema.resolver.relation r.subject.objectRef.objectType relation =
            .ok found := by
  unfold CompiledSchema.validateRelationship
  rw [bind_eq_ok]
  cases hsubject : r.subject with
  | object object =>
      constructor
      · rintro ⟨found, hfound, _⟩
        exact ⟨⟨found, hfound⟩, fun relation hrelation => (by cases hrelation)⟩
      · rintro ⟨⟨found, hfound⟩, _⟩
        exact ⟨found, hfound, rfl⟩
  | userset object relation =>
      constructor
      · rintro ⟨found, hfound, hrest⟩
        obtain ⟨subjectFound, hsubjectFound, _⟩ := bind_eq_ok.mp hrest
        refine ⟨⟨found, hfound⟩, ?_⟩
        intro other hother
        cases hother
        exact ⟨subjectFound, hsubjectFound⟩
      · rintro ⟨⟨found, hfound⟩, hrelation⟩
        obtain ⟨subjectFound, hsubjectFound⟩ := hrelation relation rfl
        exact ⟨found, hfound, bind_eq_ok.mpr ⟨subjectFound, hsubjectFound, rfl⟩⟩

theorem symbolsDeclared_iff
    {namespaces : List Dsl.LegacyNamespaceAst} {interner : IdentifierInterner}
    {objectType relation : SymbolId} {typeName relationName : String}
    (htype : interner.resolve objectType = .ok typeName)
    (hrelation : interner.resolve relation = .ok relationName) :
    SymbolsDeclared namespaces interner.entries objectType.value.get relation.value.get ↔
      Declares namespaces typeName relationName := by
  unfold SymbolsDeclared
  rw [symbolId_getElem?_eq htype, symbolId_getElem?_eq hrelation]
  constructor
  · rintro ⟨_, _, hfirst, hsecond, hdeclared⟩
    cases hfirst
    cases hsecond
    exact hdeclared
  · intro hdeclared
    exact ⟨_, _, rfl, rfl, hdeclared⟩

/-- A row names declared relations exactly when its relationship is valid. -/
theorem rowDeclared_iff
    {listing : MapListing} {namespaces : List Dsl.LegacyNamespaceAst} {schema : CompiledSchema}
    {interner : IdentifierInterner} {row : RowIdentity} {r : Relationship}
    (hschema : compileLegacyConfigs listing (namespaces.map NamespaceConfig.ofAst) = .ok schema)
    (hdenotes : row.Denotes interner r) :
    RowDeclared namespaces interner.entries (DiskRow.ofRow row) ↔
      schema.validateRelationship r = .ok () := by
  rw [validateRelationship_eq_ok_iff, exists_relation_iff_declares hschema,
    ← symbolsDeclared_iff hdenotes.resourceType hdenotes.relation]
  have hsubject := hdenotes.subjectRelation
  cases hrow : row.subjectRelation with
  | none =>
      rw [hrow] at hsubject
      have hnone : r.subject.relation? = none := by
        cases hrelation : r.subject.relation? with
        | none => rfl
        | some relation =>
            rw [hrelation] at hsubject
            cases hsubject
      rw [hnone]
      constructor
      · intro hdeclared
        exact ⟨hdeclared.resource, fun relation hrelation => (by cases hrelation)⟩
      · rintro ⟨hresource, _⟩
        refine ⟨hresource, fun hzero => absurd ?_ hzero⟩
        simp [DiskRow.ofRow, hrow]
  | some id =>
      rw [hrow] at hsubject
      obtain ⟨relation, hrelation, hresolve⟩ := Option.map_eq_some_iff.mp hsubject.symm
      have hraw : (DiskRow.ofRow row).subjectRelation = id.value.get := by
        simp [DiskRow.ofRow, hrow]
      have hdeclared : (∀ other, r.subject.relation? = some other →
            ∃ found, schema.resolver.relation r.subject.objectRef.objectType other =
              .ok found) ↔
          SymbolsDeclared namespaces interner.entries row.subjectType.value.get id.value.get := by
        rw [symbolsDeclared_iff hdenotes.subjectType hresolve.symm,
          ← exists_relation_iff_declares hschema, hrelation]
        constructor
        · intro hall
          exact hall relation rfl
        · rintro hfound other hother
          cases hother
          exact hfound
      rw [hdeclared]
      constructor
      · intro h
        have hpair := h.subject (by rw [hraw]; exact Nat.pos_iff_ne_zero.mp id.value.pos)
        rw [hraw] at hpair
        exact ⟨h.resource, hpair⟩
      · rintro ⟨hresource, hpair⟩
        refine ⟨hresource, fun _ => ?_⟩
        rw [hraw]
        exact hpair

end Snapshot

/-! ## The loaded engine -/

section Engine

open Snapshot

variable [Blake3Hash] [StoreHasher] [Zstd]

/-- What the loaded engine holds. -/
theorem EngineWriter.loadSnapshot_eq_ok
    {datastoreId : DatastoreId} {evaluationLimits : EvaluationLimits} {listing : MapListing}
    {file : List UInt8} {options : LoadOptions} {writer : EngineWriter}
    (h : EngineWriter.loadSnapshot datastoreId evaluationLimits listing file options =
      .ok writer) :
    ∃ snapshot, loadSnapshotFile listing file options = .ok snapshot ∧
      writer.Latest snapshot ∧ writer.snapshotHistory = [snapshot] ∧
      writer.retainedSnapshots = ⟨1, Nat.one_pos⟩ := by
  obtain ⟨snapshot, hsnapshot, h⟩ := bind_eq_ok.mp h
  cases h
  refine ⟨snapshot, hsnapshot, ⟨rfl, rfl, rfl, ?_, rfl, rfl, rfl, rfl⟩, rfl, rfl⟩
  obtain ⟨_, _, _, _, _, _, _, _, _, _, hloaded⟩ := loadSnapshotFile_eq_ok hsnapshot
  rw [hloaded]

/-- The loaded engine satisfies the invariant when its relationships are valid. -/
theorem EngineWriter.inv_of_loadSnapshot
    {datastoreId : DatastoreId} {evaluationLimits : EvaluationLimits} {listing : MapListing}
    {file : List UInt8} {options : LoadOptions} {writer : EngineWriter}
    (h : EngineWriter.loadSnapshot datastoreId evaluationLimits listing file options =
      .ok writer)
    (hvalid : ∀ schema, writer.schema = some schema →
      ∀ r ∈ writer.relationships.rows, schema.validateRelationship r = .ok ()) :
    writer.Inv := by
  obtain ⟨snapshot, hsnapshot, hlatest, hhistory, hretained⟩ := loadSnapshot_eq_ok h
  obtain ⟨_, reader, configs, schema, store, _, _, _, hcompile, _, hloaded⟩ :=
    loadSnapshotFile_eq_ok hsnapshot
  refine ⟨?_, hvalid, fun _ _ => ⟨snapshot, hlatest⟩, ?_, ?_, ?_⟩
  · intro schema' hschema' listing'
    have hsame : schema' = schema := by
      rw [hlatest.schema, hloaded] at hschema'
      exact (Option.some.inj hschema').symm
    have hconfigs : writer.configs = WriterState.insertConfigs ∅ configs := by
      rw [← hlatest.configs, hloaded]
    obtain ⟨_, _, hcompile⟩ := bind_eq_ok.mp hcompile
    obtain ⟨configs', _, hcompile⟩ := bind_eq_ok.mp hcompile
    obtain ⟨schema'', hcompiled, hcompile⟩ := bind_eq_ok.mp hcompile
    obtain ⟨_, _, hcompile⟩ := bind_eq_ok.mp hcompile
    cases hcompile
    rw [hconfigs, hsame]
    exact compileLegacyConfigs_insertConfigs (mapError_eq_ok hcompiled) listing'
  · intro hnone
    cases hnone.symm.trans hlatest.schema
  · rw [hhistory, hretained]
    exact Nat.le_refl 1
  · rw [hhistory]
    exact List.isChain_singleton snapshot

/-- For every byte string that a full load accepts: the decoded relationships are valid under
the decoded schema, and the engine satisfies the invariant of the writer, exactly when the
rows name relations that the schema text declares. -/
theorem loadSnapshot_inv_iff
    (datastoreId : DatastoreId) (evaluationLimits : EvaluationLimits) (listing : MapListing)
    (file : List UInt8) (options : LoadOptions) (writer : EngineWriter)
    (hfull : options.validation = .full)
    (h : EngineWriter.loadSnapshot datastoreId evaluationLimits listing file options =
      .ok writer) :
    ((∀ schema, writer.schema = some schema →
        ∀ r ∈ writer.relationships.rows, schema.validateRelationship r = .ok ()) ∧
      writer.Inv) ↔ RowsDeclared file options := by
  obtain ⟨snapshot, hsnapshot, hlatest, _⟩ := EngineWriter.loadSnapshot_eq_ok h
  obtain ⟨bytes, reader, configs, schema, store, _, hbytes, hreader, hcompile, hstore, hloaded⟩ :=
    loadSnapshotFile_eq_ok hsnapshot
  rw [hfull] at hstore
  obtain ⟨hvalidStore, _, _⟩ := decodeStore_full hstore
  have hinv := decodeStore_full_inv hstore
  obtain ⟨⟨byteLen, hsymbols⟩, hrows⟩ := decodeStore_full_contents hstore
  obtain ⟨text, htext, hcompile⟩ := bind_eq_ok.mp hcompile
  obtain ⟨configs', hparse, hcompile⟩ := bind_eq_ok.mp hcompile
  obtain ⟨schema', hcompiled, hcompile⟩ := bind_eq_ok.mp hcompile
  obtain ⟨_, _, hcompile⟩ := bind_eq_ok.mp hcompile
  cases hcompile
  obtain ⟨namespaces, hnamespaces, hparse⟩ := bind_eq_ok.mp (mapError_eq_ok hparse)
  cases hparse
  have hschema : writer.schema = some schema := by
    rw [hlatest.schema, hloaded]
  have hstoreRows : writer.relationships.rows = store.rows := by
    rw [← hlatest.relationships, hloaded]
    rfl
  have hmem : ∀ r, r ∈ writer.relationships.rows ↔
      ∃ row ∈ store.rowTable, row.identity.Denotes store.interner r := by
    intro r
    rw [hstoreRows, hinv.mem_rows_iff]
    constructor
    · rintro ⟨row, hrow, _, hdenotes⟩
      exact ⟨row, hrow, hdenotes⟩
    · rintro ⟨row, hrow, hdenotes⟩
      refine ⟨row, hrow, ?_, hdenotes⟩
      have hget := hinv.getElem?_rowId hrow
      unfold IndexedRelationshipStore.Live
      rw [hvalidStore.allLive, LiveRows.contains_full]
      exact decide_eq_true (List.getElem?_eq_some_iff.mp hget).1
  constructor
  · rintro ⟨hvalid, _⟩
    intro bytes' reader' text' namespaces' byteLen' symbols' rows' hbytes' hreader' htext'
      hnamespaces' hsymbols' hrows' diskRow hdiskRow
    cases hbytes.symm.trans hbytes'
    cases hreader.symm.trans hreader'
    cases (mapError_eq_ok htext).symm.trans htext'
    cases hnamespaces.symm.trans hnamespaces'
    cases hsymbols.symm.trans hsymbols'
    cases hrows.symm.trans hrows'
    obtain ⟨row, hrow, rfl⟩ := List.mem_map.mp hdiskRow
    obtain ⟨r, hdenotes⟩ := hinv.denotes row hrow
    exact (rowDeclared_iff (mapError_eq_ok hcompiled) hdenotes).mpr
      (hvalid schema hschema r ((hmem r).mpr ⟨row, hrow, hdenotes⟩))
  · intro hdeclared
    have hvalid : ∀ schema', writer.schema = some schema' →
        ∀ r ∈ writer.relationships.rows, schema'.validateRelationship r = .ok () := by
      intro schema' hschema' r hr
      cases hschema.symm.trans hschema'
      obtain ⟨row, hrow, hdenotes⟩ := (hmem r).mp hr
      exact (rowDeclared_iff (mapError_eq_ok hcompiled) hdenotes).mp
        (hdeclared bytes reader text namespaces byteLen _ _ hbytes hreader (mapError_eq_ok htext)
          hnamespaces hsymbols hrows _ (List.mem_map_of_mem hrow))
    exact ⟨hvalid, EngineWriter.inv_of_loadSnapshot h hvalid⟩

end Engine

open Snapshot

/-- The file whose rows share keys and whose text declares their relations. -/
theorem loadSnapshot_inv_iff_sharedRows :
    letI := sumHash
    letI := fnvHasher
    letI := storedZstd
    ∃ file writer, sharedRowsFile = .ok file ∧
      EngineWriter.loadSnapshot ⟨0⟩ .default .latestFirst file fullFastLoad = .ok writer ∧
      writer.relationships.rows.length = 3 ∧
      (writer.Inv ↔ RowsDeclared file fullFastLoad) ∧ writer.Inv := by
  let _ := sumHash
  let _ := fnvHasher
  let _ := storedZstd
  obtain ⟨file, snapshot, hfile, hload⟩ := loadFull_accepted loadFull_sharedRowsFile
  have hsnapshot : loadFull sharedRowsFile = .ok snapshot := bind_eq_ok.mpr ⟨file, hfile, hload⟩
  have hcomputed : (loadFull sharedRowsFile).toOption.any (fun snapshot =>
      decide (snapshot.relationships.rows.length = 3 ∧
        ∀ r ∈ snapshot.relationships.rows, snapshot.schema.validateRelationship r = .ok ())) =
          true := by
    decide +kernel
  rw [hsnapshot] at hcomputed
  obtain ⟨hcount, hvalid⟩ := of_decide_eq_true hcomputed
  have hwriter : EngineWriter.loadSnapshot ⟨0⟩ .default .latestFirst file fullFastLoad = .ok _ :=
    bind_eq_ok.mpr ⟨snapshot, hload, rfl⟩
  have hiff := loadSnapshot_inv_iff ⟨0⟩ .default .latestFirst file fullFastLoad _ rfl hwriter
  have hinv : EngineWriter.Inv _ := EngineWriter.inv_of_loadSnapshot hwriter (by
    intro schema hschema r hr
    cases hschema
    exact hvalid r hr)
  refine ⟨file, _, hfile, hwriter, hcount, ?_, hinv⟩
  rw [← hiff]
  exact ⟨fun hinv => ⟨hinv.valid, hinv⟩, And.right⟩

/-- A schema text without the relation of the row. -/
def emptyDocSource : String :=
  "namespace doc \x7b\x7d"

/-- A file that is fully validated and accepted although the relation of its row is not
declared. -/
theorem loadSnapshot_undeclared_relation :
    letI := sumHash
    letI := fnvHasher
    letI := storedZstd
    ∃ file writer schema, oneRowFile emptyDocSource = .ok file ∧
      EngineWriter.loadSnapshot ⟨0⟩ .default .latestFirst file fullFastLoad = .ok writer ∧
      writer.schema = some schema ∧
      ∃ r ∈ writer.relationships.rows,
        schema.validateRelationship r = .error (.relationNotFound "doc" "viewer") := by
  let _ := sumHash
  let _ := fnvHasher
  let _ := storedZstd
  have haccepted : (loadFull (oneRowFile emptyDocSource)).isOk = true := by decide +kernel
  obtain ⟨file, snapshot, hfile, hload⟩ := loadFull_accepted haccepted
  have hcomputed : (loadFull (oneRowFile emptyDocSource)).toOption.any (fun snapshot =>
      snapshot.relationships.rows.any (fun r => decide (snapshot.schema.validateRelationship r =
        .error (.relationNotFound "doc" "viewer")))) = true := by
    decide +kernel
  have hsnapshot : loadFull (oneRowFile emptyDocSource) = .ok snapshot :=
    bind_eq_ok.mpr ⟨file, hfile, hload⟩
  rw [hsnapshot] at hcomputed
  obtain ⟨r, hr, hinvalid⟩ := List.any_eq_true.mp hcomputed
  exact ⟨file, _, snapshot.schema, hfile, bind_eq_ok.mpr ⟨snapshot, hload, rfl⟩, rfl, r, hr,
    of_decide_eq_true hinvalid⟩

end SimpleZanzibar
