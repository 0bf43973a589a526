import SimpleZanzibar.SchemaHashCorrect
import SimpleZanzibar.Writer

/-!
# Compiling in another order

The configurations are kept in hash maps, so that a schema is compiled from its definitions
in an arbitrary order.  The order decides the relation ids of the compiled rewrites and
nothing else.

**Results.**
* `SchemaResolver.relation_eq_ok_iff_mem`: lookup by name, as membership.
* `CompiledSchema.Valid.of_reordered`: the compiler accepts reordered definitions.
* `compileLegacyConfigs_reordered`: configurations compile to the same schema, up to the order
  of the definitions, in whatever order their maps list them.
* `compileLegacyConfigs_insertConfigs`: they do so as the values of a map.
-/

namespace SimpleZanzibar

/-- The second namespace has the relations of the first in another order. -/
structure NamespaceDefinition.Reordered (left right : NamespaceDefinition) : Prop where
  name : left.name = right.name
  relations : left.relations.Perm right.relations

/-- The second list has the namespaces of the first in another order. -/
def Reordered (left right : List NamespaceDefinition) : Prop :=
  UpToOrder NamespaceDefinition.Reordered left right

theorem UpToOrder.exists_left
    {α : Type} {R : α → α → Prop} {as bs : List α}
    (h : UpToOrder R as bs)
    {b : α}
    (hb : b ∈ bs) :
    ∃ a ∈ as, R a b := by
  obtain ⟨cs, hperm, hcs⟩ := h
  obtain ⟨c, hc, hcb⟩ := hcs.exists_left hb
  exact ⟨c, hperm.mem_iff.mpr hc, hcb⟩

theorem NamesDistinct.of_reordered
    {definitions definitions' : List NamespaceDefinition}
    (hdistinct : NamesDistinct definitions)
    (h : Reordered definitions definitions') :
    NamesDistinct definitions' := by
  constructor
  · obtain ⟨middle, hperm, hmiddle⟩ := h
    have hnames : middle.map (·.name) = definitions'.map (·.name) := by
      clear hperm
      induction hmiddle with
      | nil => rfl
      | cons hsame _ ih => rw [List.map_cons, List.map_cons, ih, hsame.name]
    rw [← hnames]
    exact (hperm.map _).nodup_iff.mp hdistinct.namespaces
  · intro definition' hdefinition'
    obtain ⟨definition, hdefinition, hsame⟩ := h.exists_left hdefinition'
    exact (hsame.relations.map _).nodup_iff.mp (hdistinct.relations definition hdefinition)

namespace SchemaResolver

variable {definitions definitions' : List NamespaceDefinition}

/-- With distinct names, the first entry of a name is the only one. -/
theorem find?_eq_some_iff_mem
    {α β : Type} [DecidableEq β] {name : α → β} {as : List α}
    (hdistinct : (as.map name).Nodup)
    {a : α} {b : β} :
    as.find? (fun a => decide (name a = b)) = some a ↔ a ∈ as ∧ name a = b := by
  constructor
  · intro h
    exact ⟨List.mem_of_find?_eq_some h, by simpa using List.find?_some h⟩
  · rintro ⟨ha, rfl⟩
    have hsome : (as.find? (fun a' => decide (name a' = name a))).isSome :=
      List.find?_isSome.mpr ⟨a, ha, decide_eq_true rfl⟩
    obtain ⟨a', ha'⟩ := Option.isSome_iff_exists.mp hsome
    have hname : name a' = name a := by simpa using List.find?_some ha'
    rw [ha', List.inj_on_of_nodup_map hdistinct (List.mem_of_find?_eq_some ha') ha hname]

theorem findNamespace_eq_ok_iff_mem
    (hdistinct : NamesDistinct definitions)
    {objectType : ObjectType} {definition : NamespaceDefinition} :
    findNamespace ⟨definitions⟩ objectType = .ok definition ↔
      definition ∈ definitions ∧ definition.name = objectType := by
  rw [← find?_eq_some_iff_mem hdistinct.namespaces, List.find?_eq_bind_findIdx?_getElem?]
  unfold findNamespace namespaceIndex
  split
  · next found hfound => simp [hfound]
  · next hnone => simp [hnone]

/-- Lookup by name. -/
theorem relation_eq_ok_iff_mem
    (hdistinct : NamesDistinct definitions)
    {objectType : ObjectType} {name : RelationName} {found : RelationDefinition} :
    SchemaResolver.relation ⟨definitions⟩ objectType name = .ok found ↔
      ∃ definition ∈ definitions, definition.name = objectType ∧
        found ∈ definition.relations ∧ found.name = name := by
  have hlookup : ∀ definition ∈ definitions,
      ((relationIndex definition name).bind (definition.relations[·]?) = some found ↔
        found ∈ definition.relations ∧ found.name = name) := by
    intro definition hdefinition
    rw [← find?_eq_some_iff_mem (hdistinct.relations definition hdefinition),
      List.find?_eq_bind_findIdx?_getElem?]
    rfl
  constructor
  · intro h
    obtain ⟨definition, hdefinition, h⟩ := bind_eq_ok.mp h
    obtain ⟨hmem, hname⟩ := (findNamespace_eq_ok_iff_mem hdistinct).mp hdefinition
    split at h
    · next found' hfound =>
        cases h
        exact ⟨definition, hmem, hname, (hlookup definition hmem).mp hfound⟩
    · cases h
  · rintro ⟨definition, hmem, hname, hfound⟩
    refine bind_eq_ok.mpr ⟨definition,
      (findNamespace_eq_ok_iff_mem hdistinct).mpr ⟨hmem, hname⟩, ?_⟩
    rw [(hlookup definition hmem).mpr hfound]

/-- Names resolve to the same relation in another order. -/
theorem relation_of_reordered
    (hdistinct : NamesDistinct definitions)
    (h : Reordered definitions definitions')
    {objectType : ObjectType} {name : RelationName} {found : RelationDefinition}
    (hfound : SchemaResolver.relation ⟨definitions⟩ objectType name = .ok found) :
    SchemaResolver.relation ⟨definitions'⟩ objectType name = .ok found := by
  obtain ⟨definition, hmem, hname, hrelation, hfoundName⟩ :=
    (relation_eq_ok_iff_mem hdistinct).mp hfound
  obtain ⟨definition', hmem', hsame⟩ := h.exists_right hmem
  exact (relation_eq_ok_iff_mem (hdistinct.of_reordered h)).mpr ⟨definition', hmem',
    hsame.name.symm.trans hname, hsame.relations.mem_iff.mp hrelation, hfoundName⟩

theorem relationExistsAnywhere_of_reordered
    (h : Reordered definitions definitions')
    {name : RelationName}
    (hname : relationExistsAnywhere ⟨definitions⟩ name = true) :
    relationExistsAnywhere ⟨definitions'⟩ name = true := by
  unfold relationExistsAnywhere relationIndex at hname ⊢
  obtain ⟨definition, hmem, hsome⟩ := List.any_eq_true.mp hname
  obtain ⟨definition', hmem', hsame⟩ := h.exists_right hmem
  refine List.any_eq_true.mpr ⟨definition', hmem', ?_⟩
  rw [List.findIdx?_isSome, List.any_eq_true] at hsome ⊢
  obtain ⟨relation, hrelation, heq⟩ := hsome
  exact ⟨relation, hsame.relations.mem_iff.mp hrelation, heq⟩

theorem symbolValid_of_reordered
    (hdistinct : NamesDistinct definitions)
    (h : Reordered definitions definitions')
    {objectType : ObjectType} {symbol : RewriteSymbol}
    (hvalid : SymbolValid ⟨definitions⟩ objectType symbol) :
    SymbolValid ⟨definitions'⟩ objectType symbol := by
  cases symbol with
  | computedUserset relation =>
      obtain ⟨found, hfound⟩ := hvalid
      exact ⟨found, relation_of_reordered hdistinct h hfound⟩
  | tupleToUserset tupleset computed =>
      obtain ⟨found, hfound, htarget⟩ := hvalid
      refine ⟨found, relation_of_reordered hdistinct h hfound, ?_⟩
      cases hallowed : found.allowedSubjectTypes with
      | unspecified =>
          rw [hallowed] at htarget
          exact relationExistsAnywhere_of_reordered h htarget
      | explicit objectTypes =>
          rw [hallowed] at htarget
          intro target hmem
          obtain ⟨other, hother⟩ := htarget target hmem
          exact ⟨other, relation_of_reordered hdistinct h hother⟩
  | this => trivial
  | union => trivial
  | intersection => trivial
  | exclusion => trivial

end SchemaResolver

namespace CompiledSchema

/-- Validity does not depend on the order of the definitions. -/
theorem Valid.of_reordered
    {definitions definitions' : List NamespaceDefinition}
    (hvalid : Valid definitions)
    (h : Reordered definitions definitions') :
    Valid definitions' := by
  refine ⟨hvalid.distinct.of_reordered h, ?_⟩
  intro definition' hdefinition' relation hrelation expression hexpression
  obtain ⟨definition, hdefinition, hsame⟩ := h.exists_left hdefinition'
  obtain ⟨hfits, hsymbols⟩ := hvalid.rewrites definition hdefinition relation
    (hsame.relations.mem_iff.mpr hrelation) expression hexpression
  rw [← hsame.name]
  exact ⟨hfits, fun entry hentry =>
    SchemaResolver.symbolValid_of_reordered hvalid.distinct h (hsymbols entry hentry)⟩

end CompiledSchema

/-! ## The same schema up to order -/

theorem UpToOrder.of_forall₂
    {α : Type} {R : α → α → Prop} {as bs : List α}
    (h : List.Forall₂ R as bs) :
    UpToOrder R as bs :=
  ⟨as, List.Perm.refl as, h⟩

theorem UpToOrder.symm
    {α : Type} {R : α → α → Prop} {as bs : List α}
    (hsymm : ∀ a b, R a b → R b a)
    (h : UpToOrder R as bs) :
    UpToOrder R bs as := by
  obtain ⟨cs, hperm, hcs⟩ := h
  have hback : List.Forall₂ R bs cs := hcs.flip.imp (fun _ _ hab => hsymm _ _ hab)
  have hcomp : Relation.Comp (List.Forall₂ R) List.Perm bs as := ⟨cs, hback, hperm.symm⟩
  rw [List.forall₂_comp_perm_eq_perm_comp_forall₂] at hcomp
  exact hcomp

theorem UpToOrder.trans
    {α : Type} {R : α → α → Prop} {as bs cs : List α}
    (htrans : ∀ a b c, R a b → R b c → R a c)
    (h : UpToOrder R as bs)
    (h' : UpToOrder R bs cs) :
    UpToOrder R as cs := by
  obtain ⟨ds, hperm, hds⟩ := h
  obtain ⟨es, hperm', hes⟩ := h'
  have hcomp : Relation.Comp (List.Forall₂ R) List.Perm ds es := ⟨bs, hds, hperm'⟩
  rw [List.forall₂_comp_perm_eq_perm_comp_forall₂] at hcomp
  obtain ⟨middle, hmiddle, hpairs⟩ := hcomp
  exact ⟨middle, hperm.trans hmiddle, forall₂_trans htrans hpairs hes⟩

theorem AllowedSubjectTypes.Same.symm
    {left right : AllowedSubjectTypes}
    (h : left.Same right) :
    right.Same left := by
  cases left with
  | unspecified =>
      cases right with
      | unspecified => trivial
      | explicit right => exact h.elim
  | explicit left =>
      cases right with
      | unspecified => exact h.elim
      | explicit right => exact List.Perm.symm h

theorem AllowedSubjectTypes.Same.trans
    {first second third : AllowedSubjectTypes}
    (h : first.Same second)
    (h' : second.Same third) :
    first.Same third := by
  cases second with
  | unspecified =>
      cases first with
      | unspecified => exact h'
      | explicit first => exact h.elim
  | explicit second =>
      cases first with
      | unspecified => exact h.elim
      | explicit first =>
          cases third with
          | unspecified => exact h'.elim
          | explicit third => exact List.Perm.trans h h'

theorem RelationDefinition.Same.symm
    {left right : RelationDefinition}
    (h : left.Same Eq right) :
    right.Same Eq left :=
  ⟨h.name.symm, h.subjects.symm, h.rewrite.symm⟩

theorem RelationDefinition.Same.trans
    {first second third : RelationDefinition}
    (h : first.Same Eq second)
    (h' : second.Same Eq third) :
    first.Same Eq third :=
  ⟨h.name.trans h'.name, h.subjects.trans h'.subjects, h.rewrite.trans h'.rewrite⟩

theorem NamespaceDefinition.Same.symm
    {left right : NamespaceDefinition}
    (h : left.Same Eq right) :
    right.Same Eq left :=
  ⟨h.name.symm, h.relations.symm (fun _ _ => RelationDefinition.Same.symm)⟩

theorem NamespaceDefinition.Same.trans
    {first second third : NamespaceDefinition}
    (h : first.Same Eq second)
    (h' : second.Same Eq third) :
    first.Same Eq third :=
  ⟨h.name.trans h'.name, h.relations.trans (fun _ _ _ => RelationDefinition.Same.trans)
    h'.relations⟩

theorem RelationDefinition.same_refl
    (relation : RelationDefinition) :
    relation.Same Eq relation :=
  ⟨rfl, AllowedSubjectTypes.same_refl _, rfl⟩

theorem NamespaceDefinition.Reordered.same
    {left right : NamespaceDefinition}
    (h : left.Reordered right) :
    left.Same Eq right :=
  ⟨h.name, right.relations, h.relations,
    List.forall₂_same.mpr (fun relation _ => relation.same_refl)⟩

theorem NamespaceDefinition.Kept.same
    {definition compiled : NamespaceDefinition}
    (h : definition.Kept compiled) :
    definition.Same Eq compiled := by
  refine ⟨h.name.symm, UpToOrder.of_forall₂ (h.relations.imp ?_)⟩
  intro relation compiled' hkept
  rw [hkept]
  exact ⟨rfl, AllowedSubjectTypes.same_refl _, rfl⟩

/-- Reordered definitions compile to the same schema up to order. -/
theorem CompiledSchema.fromDefinitions_reordered
    {definitions definitions' : List NamespaceDefinition} {schema : CompiledSchema}
    (hschema : CompiledSchema.fromDefinitions definitions = .ok schema)
    (h : Reordered definitions definitions') :
    ∃ schema', CompiledSchema.fromDefinitions definitions' = .ok schema' ∧
      schema.Same Eq schema' := by
  obtain ⟨hvalid, _, hkept, _⟩ := fromDefinitions_eq_ok hschema
  obtain ⟨schema', hschema'⟩ := exists_fromDefinitions_iff.mpr (hvalid.of_reordered h)
  obtain ⟨_, _, hkept', _⟩ := fromDefinitions_eq_ok hschema'
  have hleft : UpToOrder (NamespaceDefinition.Same Eq) schema.definitions definitions :=
    UpToOrder.of_forall₂ (hkept.flip.imp (fun _ _ hpair => hpair.same.symm))
  have hmiddle : UpToOrder (NamespaceDefinition.Same Eq) definitions definitions' :=
    h.imp_of_mem (fun _ _ _ _ hpair => hpair.same)
  have hright : UpToOrder (NamespaceDefinition.Same Eq) definitions' schema'.definitions :=
    UpToOrder.of_forall₂ (hkept'.imp (fun _ _ hpair => hpair.same))
  have htrans : ∀ a b c : NamespaceDefinition, a.Same Eq b → b.Same Eq c → a.Same Eq c :=
    fun _ _ _ => NamespaceDefinition.Same.trans
  exact ⟨schema', hschema', (hleft.trans htrans hmiddle).trans htrans hright⟩

/-! ## Listing the maps in another order -/

theorem mapM_eq_ok_iff
    {ε α β : Type} {f : α → Except ε β} {as : List α} {bs : List β} :
    as.mapM f = .ok bs ↔ List.Forall₂ (fun a b => f a = .ok b) as bs := by
  induction as generalizing bs with
  | nil =>
      rw [List.mapM_nil, List.forall₂_nil_left_iff]
      exact ⟨fun h => (by cases h; rfl), fun h => (by rw [h]; rfl)⟩
  | cons a rest ih =>
      rw [List.mapM_cons, bind_eq_ok, List.forall₂_cons_left_iff]
      constructor
      · rintro ⟨b, hb, h⟩
        obtain ⟨bs', hbs', h⟩ := bind_eq_ok.mp h
        cases h
        exact ⟨b, bs', hb, ih.mp hbs', rfl⟩
      · rintro ⟨b, bs', hb, hbs', rfl⟩
        exact ⟨b, hb, bind_eq_ok.mpr ⟨bs', ih.mpr hbs', rfl⟩⟩

/-- What a run over a list returned was returned for one of its elements. -/
theorem exists_of_mem_mapM
    {ε α β : Type} {f : α → Except ε β} {as : List α} {bs : List β}
    (h : as.mapM f = .ok bs)
    {b : β}
    (hb : b ∈ bs) :
    ∃ a ∈ as, f a = .ok b := by
  have hpairs := mapM_eq_ok_iff.mp h
  induction hpairs with
  | nil => cases hb
  | @cons a b' rest bs' hfirst hrest ih =>
      rcases List.mem_cons.mp hb with rfl | hb
      · exact ⟨a, List.mem_cons_self, hfirst⟩
      · obtain ⟨other, hother, heq⟩ := ih (mapM_eq_ok_iff.mpr hrest) hb
        exact ⟨other, List.mem_cons_of_mem _ hother, heq⟩

theorem exists_mem_iff_of_forall₂
    {α β : Type} {R : α → β → Prop} {p : α → Prop} {q : β → Prop} {as : List α} {bs : List β}
    (h : List.Forall₂ R as bs)
    (hpq : ∀ a b, R a b → (p a ↔ q b)) :
    (∃ a ∈ as, p a) ↔ ∃ b ∈ bs, q b := by
  induction h with
  | nil => simp
  | cons hfirst _ ih => rw [List.exists_mem_cons_iff, List.exists_mem_cons_iff, ih, hpq _ _ hfirst]

/-- Mapping a reordered list gives a reordered result. -/
theorem exists_mapM_of_perm
    {ε α β : Type} {f : α → Except ε β} {as as' : List α} {bs : List β}
    (h : as.mapM f = .ok bs)
    (hperm : as.Perm as') :
    ∃ bs', as'.mapM f = .ok bs' ∧ bs.Perm bs' := by
  obtain ⟨bs', hbs', hperm'⟩ := List.perm_comp_forall₂ hperm.symm (mapM_eq_ok_iff.mp h)
  exact ⟨bs', mapM_eq_ok_iff.mpr hbs', hperm'.symm⟩

theorem compileLegacyNamespace_reordered
    {listing : MapListing} {config : NamespaceConfig} {definition : NamespaceDefinition}
    (h : compileLegacyNamespace listing config = .ok definition)
    (listing' : MapListing) :
    ∃ definition', compileLegacyNamespace listing' config = .ok definition' ∧
      definition.Reordered definition' := by
  obtain ⟨relations, hrelations, h⟩ := bind_eq_ok.mp h
  obtain ⟨name, hname, h⟩ := bind_eq_ok.mp h
  cases h
  have hperm : (listing.relations config).Perm (listing'.relations config) :=
    (listing.relations_perm config).trans (listing'.relations_perm config).symm
  obtain ⟨relations', hrelations', hsame⟩ := exists_mapM_of_perm hrelations hperm
  exact ⟨⟨name, relations'⟩,
    bind_eq_ok.mpr ⟨relations', hrelations', bind_eq_ok.mpr ⟨name, hname, rfl⟩⟩, rfl, hsame⟩

theorem mapM_compileLegacyNamespace_reordered
    {listing : MapListing} {configs configs' : List NamespaceConfig}
    {definitions : List NamespaceDefinition}
    (h : configs.mapM (compileLegacyNamespace listing) = .ok definitions)
    (hperm : configs.Perm configs')
    (listing' : MapListing) :
    ∃ definitions', configs'.mapM (compileLegacyNamespace listing') = .ok definitions' ∧
      Reordered definitions definitions' := by
  obtain ⟨middle, hmiddle, hsame⟩ := exists_mapM_of_perm h hperm
  have hpointwise : ∃ definitions',
      List.Forall₂ (fun config definition =>
        compileLegacyNamespace listing' config = .ok definition) configs' definitions' ∧
      List.Forall₂ NamespaceDefinition.Reordered middle definitions' := by
    have hpairs := mapM_eq_ok_iff.mp hmiddle
    clear hmiddle hsame hperm
    induction hpairs with
    | nil => exact ⟨[], .nil, .nil⟩
    | cons hdefinition _ ih =>
        obtain ⟨rest, hrest, hreordered⟩ := ih
        obtain ⟨definition', hdefinition', hfirst⟩ :=
          compileLegacyNamespace_reordered hdefinition listing'
        exact ⟨definition' :: rest, .cons hdefinition' hrest, .cons hfirst hreordered⟩
  obtain ⟨definitions', hdefinitions', hreordered⟩ := hpointwise
  exact ⟨definitions', mapM_eq_ok_iff.mpr hdefinitions', middle, hsame, hreordered⟩

/-- The order in which the maps are listed does not change the schema. -/
theorem compileLegacyConfigs_reordered
    {listing : MapListing} {configs configs' : List NamespaceConfig} {schema : CompiledSchema}
    (h : compileLegacyConfigs listing configs = .ok schema)
    (hperm : configs.Perm configs')
    (listing' : MapListing) :
    ∃ schema', compileLegacyConfigs listing' configs' = .ok schema' ∧
      schema.Same Eq schema' := by
  obtain ⟨definitions, hdefinitions, h⟩ := bind_eq_ok.mp h
  obtain ⟨definitions', hdefinitions', hreordered⟩ :=
    mapM_compileLegacyNamespace_reordered hdefinitions hperm listing'
  obtain ⟨schema', hschema', hsame⟩ :=
    CompiledSchema.fromDefinitions_reordered (mapError_eq_ok h) hreordered
  refine ⟨schema', bind_eq_ok.mpr ⟨definitions', hdefinitions', ?_⟩, hsame⟩
  rw [hschema']
  rfl

/-! ## Configurations as a map -/

/-- Configurations with distinct names are the values of the map that they are entered
into. -/
theorem values_insertConfigs_perm
    {configs : List NamespaceConfig}
    (existing : NamespaceConfigs)
    (hdistinct : (configs.map (·.name)).Nodup)
    (hfresh : ∀ config ∈ configs, config.name ∉ existing) :
    ((WriterState.insertConfigs existing configs).entries.map (·.2)).Perm
      (existing.entries.map (·.2) ++ configs) := by
  induction configs generalizing existing with
  | nil => simp [WriterState.insertConfigs]
  | cons config rest ih =>
      obtain ⟨hnew, hrest⟩ := List.nodup_cons.mp hdistinct
      have hstep : ∀ other ∈ rest, other.name ∉ existing.insert config.name config := by
        intro other hother
        rw [AList.mem_insert, not_or]
        refine ⟨?_, hfresh other (List.mem_cons_of_mem _ hother)⟩
        intro hsame
        exact hnew (List.mem_map.mpr ⟨other, hother, hsame⟩)
      refine (ih _ hrest hstep).trans ?_
      rw [AList.entries_insert_of_notMem (hfresh config List.mem_cons_self), List.map_cons,
        List.cons_append]
      exact List.perm_middle.symm

theorem map_name_of_compiled
    {listing : MapListing} {configs : List NamespaceConfig}
    {definitions : List NamespaceDefinition}
    (h : List.Forall₂ (fun config definition =>
      compileLegacyNamespace listing config = .ok definition) configs definitions) :
    configs.map (·.name) = definitions.map (·.name.value) := by
  induction h with
  | nil => rfl
  | cons hdefinition _ ih =>
      obtain ⟨_, _, hdefinition⟩ := bind_eq_ok.mp hdefinition
      obtain ⟨name, hname, hdefinition⟩ := bind_eq_ok.mp hdefinition
      cases hdefinition
      rw [List.map_cons, List.map_cons, ih, Identifier.new_ok_iff.mp (mapError_eq_ok hname)]

/-- Accepted configurations have distinct names. -/
theorem nodup_names_of_compile
    {listing : MapListing} {configs : List NamespaceConfig} {schema : CompiledSchema}
    (h : compileLegacyConfigs listing configs = .ok schema) :
    (configs.map (·.name)).Nodup := by
  obtain ⟨definitions, hdefinitions, h⟩ := bind_eq_ok.mp h
  have hdistinct := (CompiledSchema.fromDefinitions_eq_ok (mapError_eq_ok h)).1.distinct
  rw [map_name_of_compiled (mapM_eq_ok_iff.mp hdefinitions),
    ← Function.comp_def (·.value) (fun definition : NamespaceDefinition => definition.name),
    ← List.map_map]
  exact hdistinct.namespaces.map (fun _ _ hvalue => Identifier.ext hvalue)

/-- The configurations that were compiled, entered into a map, compile again whatever the
order in which the map is listed. -/
theorem compileLegacyConfigs_insertConfigs
    {listing : MapListing} {configs : List NamespaceConfig} {schema : CompiledSchema}
    (h : compileLegacyConfigs listing configs = .ok schema)
    (listing' : MapListing) :
    ∃ schema', compileLegacyConfigs listing'
        (listing'.namespaces (WriterState.insertConfigs ∅ configs)) = .ok schema' ∧
      schema.Same Eq schema' := by
  have hvalues := values_insertConfigs_perm ∅ (nodup_names_of_compile h)
    (fun _ _ => AList.notMem_empty _)
  exact compileLegacyConfigs_reordered h
    (hvalues.symm.trans (listing'.namespaces_perm _).symm) listing'

end SimpleZanzibar
