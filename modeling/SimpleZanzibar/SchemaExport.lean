import SimpleZanzibar.EngineCorrect
import SimpleZanzibar.RelationshipText
import SimpleZanzibar.SchemaTextCorrect

/-!
# Exported schemas restore the schema

The printed configurations hold what the maps hold: their names and rewrites, in the order of the
names.  The keys of the relations are not printed; the parser files each relation under its name.

**Results.**
* `canonicalSchemaSource_refiled`: printing what was read back prints the same text.
* `parseDsl_canonicalSchemaSource`: every text that is accepted has a printed form that is
  accepted, means the same and is printed as it is.
* `compileLegacyConfigs_refiled`: what was read back compiles to the same schema.
* `EngineWriter.exportedSchema_restores`: the schema that an engine exports restores its schema
  in an empty engine, after any run.
-/

namespace SimpleZanzibar

open Dsl

/-! ## What is read back -/

/-- The configurations hold the same relations, under whatever keys. -/
structure NamespaceConfig.Alike (config config' : NamespaceConfig) : Prop where
  name : config.name = config'.name
  relations : (config.relations.entries.map (·.2)).Perm (config'.relations.entries.map (·.2))

/-- The names that the values of the maps carry are distinct. -/
structure NamespaceConfigs.NamesDistinct (configs : NamespaceConfigs) : Prop where
  namespaces : (configs.entries.map (·.2.name)).Nodup
  relations : ∀ entry ∈ configs.entries,
    (entry.2.relations.entries.map (·.2.name.name)).Nodup

/-- Relations with distinct names are the values of the map that they are entered into. -/
theorem values_insertRelations_perm
    {relations : List RelationConfig}
    (existing : AList (fun _ : Relation => RelationConfig))
    (hdistinct : (relations.map (·.name.name)).Nodup)
    (hfresh : ∀ relation ∈ relations, relation.name ∉ existing) :
    ((relations.foldl (fun relations relation => relations.insert relation.name relation)
      existing).entries.map (·.2)).Perm (existing.entries.map (·.2) ++ relations) := by
  induction relations generalizing existing with
  | nil => simp
  | cons relation rest ih =>
      obtain ⟨hnew, hrest⟩ := List.nodup_cons.mp hdistinct
      have hstep : ∀ other ∈ rest, other.name ∉ existing.insert relation.name relation := by
        intro other hother
        rw [AList.mem_insert, not_or]
        refine ⟨?_, hfresh other (List.mem_cons_of_mem _ hother)⟩
        intro hsame
        exact hnew (List.mem_map.mpr ⟨other, hother, congrArg (·.name) hsame⟩)
      refine (ih _ hrest hstep).trans ?_
      rw [AList.entries_insert_of_notMem (hfresh relation List.mem_cons_self), List.map_cons,
        List.cons_append]
      exact List.perm_middle.symm

/-- What the text of a namespace is read as. -/
theorem ofAst_namespaceAst
    (listing : MapListing) (config : NamespaceConfig) :
    NamespaceConfig.ofAst (namespaceAst listing config) = config.refiled listing := by
  rw [NamespaceConfig.ofAst, namespaceAst, List.foldl_map]
  rfl

/-- What the text of a schema is read as. -/
theorem map_ofAst_namespaceAst
    (listing : MapListing) (configs : NamespaceConfigs) :
    ((sortByName (·.name) (listing.namespaces configs)).map (namespaceAst listing)).map
      NamespaceConfig.ofAst = configs.refiled listing := by
  rw [List.map_map]
  exact List.map_congr_left (fun config _ => ofAst_namespaceAst listing config)

/-- A printed namespace is read back with its relations. -/
theorem alike_refiled
    (listing : MapListing) {config : NamespaceConfig}
    (hdistinct : (config.relations.entries.map (·.2.name.name)).Nodup) :
    config.Alike (config.refiled listing) := by
  refine ⟨rfl, ?_⟩
  have hsorted : (sortByName (·.name.name) (listing.relations config)).Perm
      (config.relations.entries.map (·.2)) :=
    (perm_sortByName _).trans (listing.relations_perm config)
  have hnames : ((sortByName (·.name.name) (listing.relations config)).map
      (·.name.name)).Nodup := by
    have hperm := hsorted.map (·.name.name)
    rw [List.map_map] at hperm
    exact hperm.nodup_iff.mpr hdistinct
  exact (hsorted.symm.trans
    (values_insertRelations_perm ∅ hnames (fun _ _ => AList.notMem_empty _)).symm)

/-- The order of the relations in the text does not depend on the keys. -/
theorem sortByName_relations_of_alike
    {config config' : NamespaceConfig}
    (h : config.Alike config')
    (hdistinct : (config.relations.entries.map (·.2.name.name)).Nodup)
    (listing listing' : MapListing) :
    sortByName (·.name.name) (listing'.relations config') =
      sortByName (·.name.name) (listing.relations config) := by
  have hperm : (listing.relations config).Perm (listing'.relations config') :=
    (listing.relations_perm config).trans
      (h.relations.trans (listing'.relations_perm config').symm)
  refine (sortByName_eq_of_perm hperm ?_).symm
  have hnodup : ((listing.relations config).map (·.name.name)).Nodup := by
    have hnames := (listing.relations_perm config).map (·.name.name)
    rw [List.map_map] at hnames
    exact hnames.nodup_iff.mpr hdistinct
  intro relation hrelation relation' hrelation' hsame
  exact List.inj_on_of_nodup_map hnodup hrelation hrelation' hsame

theorem pushNamespace_of_alike
    {config config' : NamespaceConfig}
    (h : config.Alike config')
    (hdistinct : (config.relations.entries.map (·.2.name.name)).Nodup)
    (listing listing' : MapListing) :
    pushNamespace listing' config' = pushNamespace listing config := by
  rw [pushNamespace, pushNamespace, sortByName_relations_of_alike h hdistinct listing listing',
    h.name]

section ReadBack

variable {configs : NamespaceConfigs} (hdistinct : configs.NamesDistinct)
include hdistinct

theorem nodup_relations_of_mem
    {listing : MapListing} {config : NamespaceConfig}
    (hconfig : config ∈ sortByName (·.name) (listing.namespaces configs)) :
    (config.relations.entries.map (·.2.name.name)).Nodup := by
  have hlisted := (perm_sortByName _).mem_iff.mp hconfig
  obtain ⟨entry, hentry, rfl⟩ :=
    List.mem_map.mp ((listing.namespaces_perm configs).mem_iff.mp hlisted)
  exact hdistinct.relations entry hentry

theorem refiled_alike
    (listing : MapListing) :
    List.Forall₂ NamespaceConfig.Alike (sortByName (·.name) (listing.namespaces configs))
      (configs.refiled listing) := by
  have hmem := @nodup_relations_of_mem configs hdistinct listing
  unfold NamespaceConfigs.refiled
  generalize sortByName (·.name) (listing.namespaces configs) = sorted at hmem
  induction sorted with
  | nil => exact .nil
  | cons config rest ih =>
      exact .cons (alike_refiled listing (hmem List.mem_cons_self))
        (ih (fun hconfig => hmem (List.mem_cons_of_mem _ hconfig)))

theorem nodup_names_refiled
    (listing : MapListing) :
    ((configs.refiled listing).map (·.name)).Nodup := by
  have hnames : (configs.refiled listing).map (·.name) =
      (sortByName (·.name) (listing.namespaces configs)).map (·.name) := by
    rw [NamespaceConfigs.refiled, List.map_map]
    rfl
  have hperm := ((@perm_sortByName _ (fun config : NamespaceConfig => config.name) _).trans
    (listing.namespaces_perm configs)).map (·.name)
  rw [List.map_map] at hperm
  rw [hnames]
  exact hperm.nodup_iff.mpr hdistinct.namespaces

/-- The map that holds what was read back. -/
theorem values_refiled_perm
    (listing listing' : MapListing) :
    (listing'.namespaces (WriterState.insertConfigs ∅ (configs.refiled listing))).Perm
      (configs.refiled listing) :=
  (listing'.namespaces_perm _).trans (values_insertConfigs_perm ∅
    (nodup_names_refiled hdistinct listing) (fun _ _ => AList.notMem_empty _))

omit hdistinct in
/-- What was read back is in the order of the names. -/
theorem pairwise_refiled
    (listing : MapListing) :
    (configs.refiled listing).Pairwise (fun left right => left.name ≤ right.name) := by
  rw [NamespaceConfigs.refiled, List.pairwise_map]
  exact pairwise_sortByName _

/-- Printing what was read back prints the same text. -/
theorem canonicalSchemaSource_refiled
    (listing listing' : MapListing) :
    canonicalSchemaSource listing' (WriterState.insertConfigs ∅ (configs.refiled listing)) =
      canonicalSchemaSource listing configs := by
  have hsorted : sortByName (·.name)
      (listing'.namespaces (WriterState.insertConfigs ∅ (configs.refiled listing))) =
        configs.refiled listing := by
    have hperm := (@perm_sortByName _ (fun config : NamespaceConfig => config.name) _).trans
      (values_refiled_perm hdistinct listing listing')
    refine List.Perm.eq_of_pairwise ?_ (pairwise_sortByName _) (pairwise_refiled listing) hperm
    intro config config' hconfig hconfig' hle hle'
    exact List.inj_on_of_nodup_map (nodup_names_refiled hdistinct listing)
      (hperm.mem_iff.mp hconfig) hconfig' (le_antisymm hle hle')
  rw [canonicalSchemaSource, canonicalSchemaSource, hsorted, NamespaceConfigs.refiled,
    List.map_map]
  refine congrArg String.join (List.map_congr_left ?_)
  intro config hconfig
  have hrelations := nodup_relations_of_mem hdistinct hconfig
  exact pushNamespace_of_alike (alike_refiled listing hrelations) hrelations listing listing'

end ReadBack

/-! ## What can be printed -/

theorem isName_of_isTypeText
    {name : String}
    (h : IsTypeText name) :
    IsName name := by
  cases htext : name.toList with
  | nil =>
      have hempty : name = "" := by
        rw [← String.ofList_toList (s := name), htext]
      have hnonempty := h.nonempty
      rw [hempty] at hnonempty
      exact absurd hnonempty (by decide)
  | cons c rest =>
      have hfirst : c.isAlpha := h.first c (by rw [htext]; rfl)
      refine ⟨c, rest, htext, by simp [isIdentifierStart, hfirst], ?_⟩
      intro other hother
      have hrest := h.rest other (by rw [htext]; exact hother)
      simpa [isIdentifierRest] using hrest

theorem isQuotable_of_isTypeText
    {name : String}
    (h : IsTypeText name) :
    IsQuotable name := by
  obtain ⟨c, rest, htext, hc, hrest⟩ := isName_of_isTypeText h
  rw [IsQuotable, htext, List.mem_cons, not_or]
  refine ⟨?_, fun hmem => ?_⟩
  · rintro rfl
    exact absurd hc (by decide)
  · exact absurd (hrest _ hmem) (by decide)

/-- The names of relations that compile. -/
theorem isTypeText_of_tryFrom
    {relation : Relation} {name : RelationName}
    (h : ofDomainError (RelationName.tryFrom relation) = .ok name) :
    IsTypeText relation.name := by
  have hvalue := Identifier.new_ok_iff.mp (mapError_eq_ok h)
  rw [← hvalue]
  exact name.isText

mutual

theorem quotable_of_compile :
    ∀ (e : LegacyUsersetExpression) (compiled : UsersetExpression),
      compileLegacyExpression e = .ok compiled → Quotable e
  | .this, _, _ => trivial
  | .computedUserset relation, _, h => by
      obtain ⟨name, hname, _⟩ := bind_eq_ok.mp h
      exact isQuotable_of_isTypeText (isTypeText_of_tryFrom hname)
  | .tupleToUserset tuplesetRelation computedUsersetRelation, _, h => by
      obtain ⟨tupleset, htupleset, h⟩ := bind_eq_ok.mp h
      obtain ⟨computed, hcomputed, _⟩ := bind_eq_ok.mp h
      exact ⟨isQuotable_of_isTypeText (isTypeText_of_tryFrom htupleset),
        isQuotable_of_isTypeText (isTypeText_of_tryFrom hcomputed)⟩
  | .union expressions, _, h => by
      obtain ⟨compiled, hcompiled, _⟩ := bind_eq_ok.mp h
      exact allQuotable_of_compile expressions compiled hcompiled
  | .intersection expressions, _, h => by
      obtain ⟨compiled, hcompiled, _⟩ := bind_eq_ok.mp h
      exact allQuotable_of_compile expressions compiled hcompiled
  | .exclusion base exclude, _, h => by
      obtain ⟨compiledBase, hbase, h⟩ := bind_eq_ok.mp h
      obtain ⟨compiledExclude, hexclude, _⟩ := bind_eq_ok.mp h
      exact ⟨quotable_of_compile base compiledBase hbase,
        quotable_of_compile exclude compiledExclude hexclude⟩

theorem allQuotable_of_compile :
    ∀ (es : List LegacyUsersetExpression) (compiled : List UsersetExpression),
      compileLegacyExpressions es = .ok compiled → AllQuotable es
  | [], _, _ => trivial
  | e :: es, _, h => by
      obtain ⟨first, hfirst, h⟩ := bind_eq_ok.mp h
      obtain ⟨rest, hrest, _⟩ := bind_eq_ok.mp h
      exact ⟨quotable_of_compile e first hfirst, allQuotable_of_compile es rest hrest⟩

end

theorem printableRelation_of_compile
    {relation : RelationConfig} {compiled : RelationDefinition}
    (h : compileLegacyRelation relation = .ok compiled) :
    PrintableRelation relation := by
  obtain ⟨name, hname, h⟩ := bind_eq_ok.mp h
  obtain ⟨rewrite, hrewrite, _⟩ := bind_eq_ok.mp h
  refine ⟨isName_of_isTypeText (isTypeText_of_tryFrom hname), ?_⟩
  intro expression hexpression
  rw [hexpression] at hrewrite
  obtain ⟨compiled, hcompiled, _⟩ := bind_eq_ok.mp hrewrite
  exact quotable_of_compile expression compiled hcompiled

/-- Configurations that compile can be printed and read. -/
theorem printable_of_compile
    {listing : MapListing} {configs : NamespaceConfigs} {schema : CompiledSchema}
    (h : compileLegacyConfigs listing (listing.namespaces configs) = .ok schema) :
    ∀ entry ∈ configs.entries, PrintableNamespace entry.2 := by
  intro entry hentry
  obtain ⟨definitions, hdefinitions, _⟩ := bind_eq_ok.mp h
  have hlisted : entry.2 ∈ listing.namespaces configs :=
    (listing.namespaces_perm configs).mem_iff.mpr (List.mem_map_of_mem hentry)
  obtain ⟨definition, _, hdefinition⟩ := (mapM_eq_ok_iff.mp hdefinitions).exists_right hlisted
  have hrelations := (compileLegacyNamespace_eq_ok hdefinition).2
  obtain ⟨_, _, hname⟩ := bind_eq_ok.mp hdefinition
  obtain ⟨name, hname, _⟩ := bind_eq_ok.mp hname
  have htext := name.isText
  rw [Identifier.new_ok_iff.mp (mapError_eq_ok hname)] at htext
  refine ⟨isName_of_isTypeText htext, ?_⟩
  intro relation hrelation
  have hmem : relation.2 ∈ listing.relations entry.2 :=
    (listing.relations_perm entry.2).mem_iff.mpr (List.mem_map_of_mem hrelation)
  obtain ⟨compiled, _, hcompiled⟩ := hrelations.exists_right hmem
  exact printableRelation_of_compile hcompiled

/-- They carry distinct names. -/
theorem namesDistinct_of_compile
    {listing : MapListing} {configs : NamespaceConfigs} {schema : CompiledSchema}
    (h : compileLegacyConfigs listing (listing.namespaces configs) = .ok schema) :
    configs.NamesDistinct := by
  constructor
  · have hperm := (listing.namespaces_perm configs).map (·.name)
    rw [List.map_map] at hperm
    exact hperm.nodup_iff.mp (nodup_names_of_compile h)
  · intro entry hentry
    exact nodup_relation_names h ((listing.namespaces_perm configs).mem_iff.mpr
      (List.mem_map_of_mem hentry))

/-! ## Texts that are accepted -/

/-- The values of a map that are filed under their names have distinct names. -/
theorem nodup_of_filed
    {α β : Type} [DecidableEq α] {map : AList (fun _ : α => β)} {name : β → α}
    (h : ∀ entry ∈ map.entries, name entry.2 = entry.1) :
    (map.entries.map (fun entry => name entry.2)).Nodup := by
  have hkeys : map.entries.map (fun entry => name entry.2) = map.keys :=
    List.map_congr_left h
  rw [hkeys]
  exact map.keys_nodup

/-- Entering values under their names. -/
theorem filed_foldl
    {α β : Type} [DecidableEq α] {name : β → α} {P : β → Prop} {values : List β}
    {map : AList (fun _ : α => β)}
    (hvalues : ∀ value ∈ values, P value)
    (hmap : ∀ entry ∈ map.entries, name entry.2 = entry.1 ∧ P entry.2) :
    ∀ entry ∈ (values.foldl (fun map value => map.insert (name value) value) map).entries,
      name entry.2 = entry.1 ∧ P entry.2 := by
  induction values generalizing map with
  | nil => exact hmap
  | cons value rest ih =>
      refine ih (fun other hother => hvalues other (List.mem_cons_of_mem _ hother)) ?_
      intro entry hentry
      have hlookup := AList.mem_lookup_iff.mpr hentry
      by_cases hkey : entry.1 = name value
      · rw [hkey, AList.lookup_insert] at hlookup
        have hvalue := Option.some.inj hlookup
        rw [← hvalue]
        exact ⟨hkey.symm, hvalues value List.mem_cons_self⟩
      · rw [AList.lookup_insert_ne hkey] at hlookup
        exact hmap entry (AList.mem_lookup_iff.mp hlookup)

theorem relations_ofAst
    {ast : LegacyNamespaceAst}
    (h : ∀ relation ∈ ast.relations, PrintableAst relation) :
    ∀ entry ∈ (NamespaceConfig.ofAst ast).relations.entries,
      entry.2.name = entry.1 ∧ PrintableRelation entry.2 := by
  have hfold : (NamespaceConfig.ofAst ast).relations =
      (ast.relations.map (fun relation => (⟨⟨relation.name⟩, relation.rewrite⟩ :
        RelationConfig))).foldl
          (fun relations relation => relations.insert relation.name relation) ∅ := by
    rw [NamespaceConfig.ofAst, List.foldl_map]
  rw [hfold]
  refine filed_foldl ?_ (fun _ hentry => (by cases hentry))
  intro relation hrelation
  obtain ⟨parsed, hparsed, rfl⟩ := List.mem_map.mp hrelation
  exact ⟨(h parsed hparsed).name, (h parsed hparsed).rewrite⟩

/-- What the parser accepts can be printed, and carries distinct names. -/
theorem printable_of_parseDsl
    {text : String} {configs : List NamespaceConfig}
    (h : parseDsl text = .ok configs) :
    (∀ entry ∈ (WriterState.insertConfigs ∅ configs).entries, PrintableNamespace entry.2) ∧
      (WriterState.insertConfigs ∅ configs).NamesDistinct := by
  obtain ⟨namespaces, hnamespaces, h⟩ := bind_eq_ok.mp h
  cases h
  have hfile : file text.toList = some namespaces := by
    unfold parseDslAst at hnamespaces
    split at hnamespaces
    · cases hnamespaces
      assumption
    · cases hnamespaces
  have hread := file_printable hfile
  have hconfigs : ∀ config ∈ namespaces.map NamespaceConfig.ofAst, IsName config.name ∧
      ∀ entry ∈ config.relations.entries, entry.2.name = entry.1 ∧ PrintableRelation entry.2 := by
    intro config hconfig
    obtain ⟨ast, hast, rfl⟩ := List.mem_map.mp hconfig
    exact ⟨(hread ast hast).1, relations_ofAst (hread ast hast).2⟩
  have hentries := @filed_foldl String NamespaceConfig _ (·.name) _ _ ∅ hconfigs
    (fun _ hentry => (by cases hentry))
  refine ⟨fun entry hentry => ?_, ?_, fun entry hentry => ?_⟩
  · obtain ⟨_, hname, hrelations⟩ := hentries entry hentry
    exact ⟨hname, fun relation hrelation => (hrelations relation hrelation).2⟩
  · exact nodup_of_filed (fun entry hentry => (hentries entry hentry).1)
  · have hnames : ∀ relation ∈ entry.2.relations.entries, relation.2.name = relation.1 :=
      fun relation hrelation => ((hentries entry hentry).2.2 relation hrelation).1
    have hinjective : Function.Injective Relation.name := by
      rintro ⟨left⟩ ⟨right⟩ rfl
      rfl
    have hnodup := (nodup_of_filed hnames).map hinjective
    rw [List.map_map] at hnodup
    exact hnodup

/-- Whatever text was accepted, with its comments, its spacing and its repetitions: the printed
form is accepted, reads the same relations, and printing it again changes nothing. -/
theorem parseDsl_canonicalSchemaSource
    {text : String} {configs : List NamespaceConfig}
    (h : parseDsl text = .ok configs)
    (listing listing' : MapListing) :
    ∃ read, parseDsl (canonicalSchemaSource listing (WriterState.insertConfigs ∅ configs)) =
        .ok read ∧
      UpToOrder NamespaceConfig.Alike
        ((WriterState.insertConfigs ∅ configs).entries.map (·.2)) read ∧
      canonicalSchemaSource listing' (WriterState.insertConfigs ∅ read) =
        canonicalSchemaSource listing (WriterState.insertConfigs ∅ configs) := by
  obtain ⟨hprintable, hdistinct⟩ := printable_of_parseDsl h
  refine ⟨(WriterState.insertConfigs ∅ configs).refiled listing, ?_, ⟨_, ?_,
    refiled_alike hdistinct listing⟩, canonicalSchemaSource_refiled hdistinct listing listing'⟩
  · rw [parseDsl, parseDslAst_canonicalSchemaSource hprintable]
    exact congrArg Except.ok (map_ofAst_namespaceAst listing _)
  · exact ((perm_sortByName _).trans (listing.namespaces_perm _)).symm

/-- The namespace `doc` with the relation `a`, which was entered twice. -/
def docWithTwice : NamespaceConfig :=
  ⟨"doc", ((∅ : AList (fun _ : Relation => RelationConfig)).insert ⟨"a"⟩
    ⟨⟨"a"⟩, none⟩).insert ⟨"a"⟩ ⟨⟨"a"⟩, none⟩⟩

/-- A comment and a relation that is declared twice. -/
theorem parseDsl_canonicalSchemaSource_twice :
    parseDsl "// v1\nnamespace doc \x7b relation a \x7b\x7d relation a \x7b\x7d \x7d" =
        .ok [docWithTwice] ∧
      ∃ read, parseDsl (canonicalSchemaSource .latestFirst
          (WriterState.insertConfigs ∅ [docWithTwice])) = .ok read ∧
        canonicalSchemaSource .latestFirst (WriterState.insertConfigs ∅ read) =
          canonicalSchemaSource .latestFirst (WriterState.insertConfigs ∅ [docWithTwice]) := by
  have hparse : parseDsl
      "// v1\nnamespace doc \x7b relation a \x7b\x7d relation a \x7b\x7d \x7d" =
        .ok [docWithTwice] := rfl
  obtain ⟨read, hread, _, hsame⟩ :=
    parseDsl_canonicalSchemaSource hparse .latestFirst .latestFirst
  exact ⟨hparse, read, hread, hsame⟩

/-! ## What was read back compiles -/

/-- The printed relations, in the order of the printer. -/
def MapListing.sorted (listing : MapListing) : MapListing where
  namespaces configs := sortByName (·.name) (listing.namespaces configs)
  relations config := sortByName (·.name.name) (listing.relations config)
  namespaces_perm configs := (perm_sortByName _).trans (listing.namespaces_perm configs)
  relations_perm config := (perm_sortByName _).trans (listing.relations_perm config)

/-- The compiler of parsed texts does what the compiler of configurations does. -/
theorem compileLegacyAst_namespaceAst
    (listing : MapListing) (configs : List NamespaceConfig) :
    compileLegacyAst (configs.map (namespaceAst listing)) =
      compileLegacyConfigs listing.sorted configs := by
  have hrelations : ∀ relations : List RelationConfig,
      (relations.map relationAst).mapM (fun relation =>
        compileLegacyRelation ⟨⟨relation.name⟩, relation.rewrite⟩) =
          relations.mapM compileLegacyRelation := by
    intro relations
    rw [List.mapM_map]
    rfl
  rw [compileLegacyAst, compileLegacyConfigs, List.mapM_map]
  refine congrArg (· >>= _) (congrArg (fun compile => configs.mapM compile) ?_)
  funext config
  exact congrArg (· >>= _) (hrelations _)

theorem compileLegacyNamespace_alike
    {listing : MapListing} {config config' : NamespaceConfig} {definition : NamespaceDefinition}
    (h : compileLegacyNamespace listing config = .ok definition)
    (halike : config.Alike config')
    (listing' : MapListing) :
    ∃ definition', compileLegacyNamespace listing' config' = .ok definition' ∧
      definition.Reordered definition' := by
  obtain ⟨relations, hrelations, h⟩ := bind_eq_ok.mp h
  obtain ⟨name, hname, h⟩ := bind_eq_ok.mp h
  cases h
  have hperm : (listing.relations config).Perm (listing'.relations config') :=
    (listing.relations_perm config).trans
      (halike.relations.trans (listing'.relations_perm config').symm)
  obtain ⟨relations', hrelations', hsame⟩ := exists_mapM_of_perm hrelations hperm
  rw [halike.name] at hname
  exact ⟨⟨name, relations'⟩,
    bind_eq_ok.mpr ⟨relations', hrelations', bind_eq_ok.mpr ⟨name, hname, rfl⟩⟩, rfl, hsame⟩

theorem mapM_compileLegacyNamespace_alike
    {listing : MapListing} {configs configs' : List NamespaceConfig}
    {definitions : List NamespaceDefinition}
    (h : configs.mapM (compileLegacyNamespace listing) = .ok definitions)
    (halike : List.Forall₂ NamespaceConfig.Alike configs configs')
    (listing' : MapListing) :
    ∃ definitions', configs'.mapM (compileLegacyNamespace listing') = .ok definitions' ∧
      List.Forall₂ NamespaceDefinition.Reordered definitions definitions' := by
  induction halike generalizing definitions with
  | nil =>
      cases h
      exact ⟨[], rfl, .nil⟩
  | cons hfirst _ ih =>
      obtain ⟨definition, rest, hdefinition, hrest, rfl⟩ :=
        List.forall₂_cons_left_iff.mp (mapM_eq_ok_iff.mp h)
      obtain ⟨definition', hdefinition', hreordered⟩ :=
        compileLegacyNamespace_alike hdefinition hfirst listing'
      obtain ⟨rest', hrest', hreorderedRest⟩ := ih (mapM_eq_ok_iff.mpr hrest)
      exact ⟨definition' :: rest',
        mapM_eq_ok_iff.mpr (.cons hdefinition' (mapM_eq_ok_iff.mp hrest')),
        .cons hreordered hreorderedRest⟩

/-- Configurations that hold the same relations compile to the same schema. -/
theorem compileLegacyConfigs_alike
    {listing : MapListing} {configs configs' : List NamespaceConfig} {schema : CompiledSchema}
    (h : compileLegacyConfigs listing configs = .ok schema)
    (halike : List.Forall₂ NamespaceConfig.Alike configs configs')
    (listing' : MapListing) :
    ∃ schema', compileLegacyConfigs listing' configs' = .ok schema' ∧
      schema.Same Eq schema' := by
  obtain ⟨definitions, hdefinitions, h⟩ := bind_eq_ok.mp h
  obtain ⟨definitions', hdefinitions', hreordered⟩ :=
    mapM_compileLegacyNamespace_alike hdefinitions halike listing'
  obtain ⟨schema', hschema', hsame⟩ :=
    CompiledSchema.fromDefinitions_reordered (mapError_eq_ok h)
      ⟨definitions, .refl _, hreordered⟩
  refine ⟨schema', bind_eq_ok.mpr ⟨definitions', hdefinitions', ?_⟩, hsame⟩
  rw [hschema']
  rfl

/-! ## The text of a schema that compiles -/

section Exported

variable {listing : MapListing} {configs : NamespaceConfigs} {schema : CompiledSchema}
  (h : compileLegacyConfigs listing (listing.namespaces configs) = .ok schema)
include h

theorem parseDsl_export
    (listing' : MapListing) :
    parseDsl (canonicalSchemaSource listing' configs) = .ok (configs.refiled listing') := by
  rw [parseDsl, parseDslAst_canonicalSchemaSource (printable_of_compile h)]
  exact congrArg Except.ok (map_ofAst_namespaceAst listing' configs)

/-- The text compiles to the same schema. -/
theorem compileLegacyDsl_export
    (listing' : MapListing) :
    ∃ schema', compileLegacyDsl (canonicalSchemaSource listing' configs) = .ok schema' ∧
      schema.Same Eq schema' := by
  have hperm : (listing.namespaces configs).Perm (listing'.sorted.namespaces configs) :=
    (listing.namespaces_perm configs).trans (listing'.sorted.namespaces_perm configs).symm
  obtain ⟨schema', hschema', hsame⟩ := compileLegacyConfigs_reordered h hperm listing'.sorted
  refine ⟨schema', ?_, hsame⟩
  rw [compileLegacyDsl, parseDslAst_canonicalSchemaSource (printable_of_compile h)]
  exact (compileLegacyAst_namespaceAst listing' _).trans hschema'

/-- So do the configurations that are read back. -/
theorem compileLegacyConfigs_read
    (listing' listing'' : MapListing) :
    ∃ read, compileLegacyConfigs listing'' (configs.refiled listing') = .ok read ∧
      schema.Same Eq read := by
  have hperm : (listing.namespaces configs).Perm
      (sortByName (·.name) (listing'.namespaces configs)) :=
    (listing.namespaces_perm configs).trans
      ((perm_sortByName _).trans (listing'.namespaces_perm configs)).symm
  obtain ⟨sorted, hsorted, hsame⟩ := compileLegacyConfigs_reordered h hperm listing
  obtain ⟨read, hread, hsame'⟩ := compileLegacyConfigs_alike hsorted
    (refiled_alike (namesDistinct_of_compile h) listing') listing''
  exact ⟨read, hread, hsame.trans (fun _ _ _ => NamespaceDefinition.Same.trans) hsame'⟩

/-- They compile to it as the values of a map, too. -/
theorem compileLegacyConfigs_refiled
    (listing' listing'' : MapListing) :
    ∃ schema', compileLegacyConfigs listing'' (listing''.namespaces
        (WriterState.insertConfigs ∅ (configs.refiled listing'))) = .ok schema' ∧
      schema.Same Eq schema' := by
  obtain ⟨read, hread, hsame⟩ := compileLegacyConfigs_read h listing' listing''
  obtain ⟨schema', hschema', hsame'⟩ := compileLegacyConfigs_reordered hread
    (values_refiled_perm (namesDistinct_of_compile h) listing' listing'').symm listing''
  exact ⟨schema', hschema', hsame.trans (fun _ _ _ => NamespaceDefinition.Same.trans) hsame'⟩

end Exported

/-- Compiled configurations declare no subject types. -/
theorem plain_of_compile
    {listing : MapListing} {configs : List NamespaceConfig} {schema : CompiledSchema}
    (h : compileLegacyConfigs listing configs = .ok schema) :
    SchemaHash.Plain schema ∧ NamesDistinct schema.definitions := by
  obtain ⟨definitions, hdefinitions, h⟩ := bind_eq_ok.mp h
  obtain ⟨_, _, hkept, hdistinct⟩ := CompiledSchema.fromDefinitions_eq_ok (mapError_eq_ok h)
  refine ⟨?_, hdistinct⟩
  intro definition hdefinition relation hrelation
  obtain ⟨source, hsource, hpair⟩ := hkept.exists_left hdefinition
  obtain ⟨found, hfound, hsame⟩ := hpair.relations.exists_left hrelation
  obtain ⟨config, _, hconfig⟩ := (mapM_eq_ok_iff.mp hdefinitions).exists_left hsource
  obtain ⟨entry, _, hentry⟩ := (compileLegacyNamespace_eq_ok hconfig).2.exists_left hfound
  obtain ⟨_, _, hentry⟩ := bind_eq_ok.mp hentry
  obtain ⟨_, _, hentry⟩ := bind_eq_ok.mp hentry
  cases hentry
  rw [hsame]
  trivial

/-- The same schema has the same hash. -/
theorem forSchema_eq_of_same
    [Blake3] {listing listing' : MapListing} {configs configs' : List NamespaceConfig}
    {schema schema' : CompiledSchema}
    (h : compileLegacyConfigs listing configs = .ok schema)
    (h' : compileLegacyConfigs listing' configs' = .ok schema')
    (hsame : schema.Same Eq schema') :
    SchemaHash.forSchema schema = SchemaHash.forSchema schema' := by
  obtain ⟨hplain, hdistinct⟩ := plain_of_compile h
  obtain ⟨hplain', hdistinct'⟩ := plain_of_compile h'
  rw [SchemaHash.forSchema_eq, SchemaHash.forSchema_eq,
    (SchemaHash.schemaWords_eq_iff hplain hplain' hdistinct hdistinct').mpr
      (SchemaHash.sameSymbols_of_eq hsame)]

/-! ## Engines -/

namespace EngineWriter

variable [Blake3] [StoreHasher]

theorem publishConfigs_apply
    {listing : MapListing} {writer : EngineWriter} {configs : NamespaceConfigs}
    {schema : CompiledSchema} {relationships : RelationshipStoreView}
    (hschema : compileLegacyConfigs listing (listing.namespaces configs) = .ok schema)
    (hstore : writer.core.relationshipStoreForSchema schema = .ok relationships) :
    publishConfigs listing configs writer =
      publishSnapshot configs schema relationships writer := by
  rw [publishConfigs, Action.get_bind_apply, Action.bind_apply, Action.lift_apply, hschema]
  simp only [Action.bind_apply, Action.lift_apply, hstore]

/-- An engine without a schema reads the text of any configurations that compile. -/
theorem replaceDslWithToken_export
    {listing : MapListing} {configs : NamespaceConfigs} {schema : CompiledSchema}
    (h : compileLegacyConfigs listing (listing.namespaces configs) = .ok schema)
    {empty : EngineWriter}
    (hempty : empty.schema = none)
    (listing' listing'' : MapListing) :
    ∃ schema', schema'.Accepted ∧ schema.Same Eq schema' ∧
      SchemaHash.forSchema schema = SchemaHash.forSchema schema' ∧
      replaceDslWithToken listing'' (canonicalSchemaSource listing' configs) empty =
        publishSnapshot (WriterState.insertConfigs ∅ (configs.refiled listing')) schema'
          .default empty := by
  obtain ⟨compiled, hcompiled, _⟩ := compileLegacyDsl_export h listing'
  obtain ⟨schema', hschema', hsame⟩ := compileLegacyConfigs_refiled h listing' listing''
  have hstore : empty.core.relationshipStoreForSchema schema' = .ok .default := by
    have hnone : empty.core.schema = none := hempty
    rw [WriterState.relationshipStoreForSchema, hnone]
    rfl
  refine ⟨schema', WriterState.accepted_of_compile hschema', hsame,
    forSchema_eq_of_same h hschema' hsame, ?_⟩
  rw [replaceDslWithToken, hcompiled, parseDsl_export h listing']
  exact publishConfigs_apply hschema' hstore

/-- Whatever commands an engine has run, the schema that it exports restores its schema in an
empty engine, in whatever order their maps are listed: the reader publishes the same schema
under the same hash, and exports the same text. -/
theorem exportedSchema_restores
    (commands : List (MapListing × EngineCommand)) (datastoreId datastoreId' : DatastoreId)
    (retainedSnapshots retainedSnapshots' : ℕ+) (limits limits' : EvaluationLimits)
    (listing listing' : MapListing) :
    let writer := EngineCommand.runAll commands (.new datastoreId retainedSnapshots limits)
    let text := canonicalSchemaSource listing writer.configs
    let restored := replaceDslWithToken listing' text
      (.new datastoreId' retainedSnapshots' limits')
    writer.schema = none ∨ ∃ schema token schema', writer.schema = some schema ∧
      restored.1 = .ok token ∧ token.schemaHash = SchemaHash.forSchema schema ∧
      restored.2.schema = some schema' ∧ schema.Same Eq schema' ∧
      ∀ listing'', canonicalSchemaSource listing'' restored.2.configs = text := by
  intro writer text restored
  have hsound : writer.Sound := EngineCommand.sound_runAll (sound_new _ _ _) commands
  cases hschema : writer.schema with
  | none => exact .inl rfl
  | some schema =>
      obtain ⟨_, hcompile⟩ := hsound.coherent.compiled schema hschema
      have hempty : (new datastoreId' retainedSnapshots' limits').schema = none := rfl
      obtain ⟨schema', _, hsame, hhash, hrestored⟩ :=
        replaceDslWithToken_export hcompile hempty listing listing'
      refine .inr ⟨schema, _, schema', rfl, congrArg Prod.fst hrestored, hhash.symm, ?_, hsame, ?_⟩
      · exact congrArg (fun result => result.2.schema) hrestored
      · intro listing''
        have hconfigs : restored.2.configs =
            WriterState.insertConfigs ∅ (writer.configs.refiled listing) :=
          congrArg (fun result => result.2.configs) hrestored
        rw [hconfigs]
        exact canonicalSchemaSource_refiled (namesDistinct_of_compile hcompile) listing listing''

end EngineWriter

end SimpleZanzibar
