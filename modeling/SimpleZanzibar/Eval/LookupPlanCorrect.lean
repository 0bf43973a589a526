import SimpleZanzibar.Eval.FreshCheck
import SimpleZanzibar.Eval.LookupPlan

/-!
# What a producer plan promises

The rules of a plan are proofs of membership: a direct row on the relation of a rule, with the
residual operands as the rule expects them, makes the subject a member.  And they cover the
permission: whoever is a member has some row on a listed relation.  Both are read off the same
induction over the rewrite that the rules were collected from.

**Results.**
* `RulesFor`: the rules of a formula are sound for it and cover it.
* `collectRelation_rulesFor`: the rules of a relation are rules for its equation.
* `verificationRules_sound`, `producerPlan_covers`: the same of a plan.
-/

namespace SimpleZanzibar

open BoolSystem

/-- The object has a row with this subject on the relation. -/
def directRow (set : Finset Relationship) (subject : SubjectRef) (key : RelKey) : Bool :=
  decide (∃ r ∈ set, r.resource.toObject = key.object ∧ r.relation = key.relation ∧
    r.subject = subject)

/-- The object has some row on the relation. -/
def HasRow (set : Finset Relationship) (key : RelKey) : Prop :=
  ∃ r ∈ set, r.resource.toObject = key.object ∧ r.relation = key.relation

theorem hasRow_of_directRow
    {set : Finset Relationship} {subject : SubjectRef} {key : RelKey}
    (h : directRow set subject key = true) :
    HasRow set key := by
  obtain ⟨r, hr, hobject, hrelation, _⟩ := of_decide_eq_true h
  exact ⟨r, hr, hobject, hrelation⟩

theorem hasRow_of_mem_storedUsersets
    {set : Finset Relationship} {key k : RelKey}
    (h : k ∈ storedUsersets set key) :
    HasRow set key := by
  obtain ⟨r, hr, hobject, hrelation, _⟩ := mem_storedUsersets_iff.mp h
  exact ⟨r, hr, hobject, hrelation⟩

section Rules

variable (set : Finset Relationship) (direct : RelKey → Bool) (members : Set RelKey)
  (object : Object)

/-- The residual operand has the value on the object that the rule expects. -/
def LookupResidualCheck.Holds (residual : LookupResidualCheck) : Prop :=
  match residual.expected with
  | .allowed => Sat members members
      (rewriteFormula set direct ⟨object, residual.relationContext⟩ residual.expression.source)
  | .denied => ¬ Sat members members
      (rewriteFormula set direct ⟨object, residual.relationContext⟩ residual.expression.source)

/-- The verification accepts the object without a full check. -/
def LookupCandidateVerification.Accepts : LookupCandidateVerification → Prop
  | .fullRoot => False
  | .provenWithoutCheck => True
  | .residual residuals => ∀ residual ∈ residuals, residual.Holds set direct members object

/-- The rules prove the formula, and the formula needs a row on one of their relations. -/
structure RulesFor (formula : Formula RelKey) (rules : List LookupVerificationRule) : Prop where
  sound : ∀ rule ∈ rules, direct ⟨object, rule.relation⟩ = true →
    rule.verification.Accepts set direct members object → Sat members members formula
  covers : Sat members members formula → ∃ rule ∈ rules, HasRow set ⟨object, rule.relation⟩

end Rules

section Verifications

variable {set : Finset Relationship} {direct : RelKey → Bool} {members : Set RelKey}
  {object : Object}

theorem accepts_withResidual_iff
    {verification : LookupCandidateVerification} {residual : LookupResidualCheck} :
    (verification.withResidual residual).Accepts set direct members object ↔
      verification.Accepts set direct members object ∧
        residual.Holds set direct members object := by
  cases verification with
  | fullRoot =>
      simp [LookupCandidateVerification.withResidual, LookupCandidateVerification.Accepts]
  | provenWithoutCheck =>
      simp [LookupCandidateVerification.withResidual, LookupCandidateVerification.Accepts]
  | residual residuals =>
      simp only [LookupCandidateVerification.withResidual, LookupCandidateVerification.Accepts,
        List.mem_append, List.mem_singleton]
      constructor
      · intro h
        exact ⟨fun other hother => h other (Or.inl hother), h residual (Or.inr rfl)⟩
      · rintro ⟨hall, hlast⟩ other (hother | rfl)
        · exact hall other hother
        · exact hlast

/-- Merging keeps one of the two proofs. -/
theorem accepts_of_unionMerge
    {left right : LookupCandidateVerification}
    (h : (left.unionMerge right).Accepts set direct members object) :
    left.Accepts set direct members object ∨ right.Accepts set direct members object := by
  cases left with
  | fullRoot =>
      cases right with
      | provenWithoutCheck => exact Or.inr h
      | fullRoot => exact h.elim
      | residual residuals => exact h.elim
  | provenWithoutCheck => exact Or.inl h
  | residual residuals =>
      cases right with
      | provenWithoutCheck => exact Or.inr h
      | fullRoot => exact h.elim
      | residual others =>
          by_cases heq : residuals = others
          · exact Or.inl (by rwa [LookupCandidateVerification.unionMerge, if_pos heq] at h)
          · rw [LookupCandidateVerification.unionMerge, if_neg heq] at h
            exact h.elim

/-- Guards that were added all hold. -/
theorem accepts_requireAllowed
    {relation : RelationName} {guards : List CompiledUsersetExpression}
    {verification : LookupCandidateVerification}
    (h : (guards.foldl (fun verification guard =>
      verification.withRequiredAllowed relation guard) verification).Accepts set direct members
        object) :
    verification.Accepts set direct members object ∧ ∀ guard ∈ guards,
      Sat members members (rewriteFormula set direct ⟨object, relation⟩ guard.source) := by
  induction guards generalizing verification with
  | nil => exact ⟨h, fun guard hguard => (by cases hguard)⟩
  | cons guard rest ih =>
      obtain ⟨hfirst, hrest⟩ := ih h
      obtain ⟨hverification, hguard⟩ := accepts_withResidual_iff.mp hfirst
      refine ⟨hverification, fun other hother => ?_⟩
      rcases List.mem_cons.mp hother with rfl | hother
      · exact hguard
      · exact hrest other hother

end Verifications

section Merging

variable {set : Finset Relationship} {direct : RelKey → Bool} {members : Set RelKey}
  {object : Object}

/-- A merged rule stands for one that was merged, in all that merging takes from one of two
rules. -/
theorem exists_of_mem_mergeRule
    {proves : LookupCandidateVerification → Prop}
    (hmerge : ∀ left right : LookupCandidateVerification,
      proves (left.unionMerge right) → proves left ∨ proves right)
    {rule merged : LookupVerificationRule} {rules : List LookupVerificationRule}
    (h : merged ∈ mergeLookupVerificationRule rule rules)
    (hproves : proves merged.verification) :
    ∃ original ∈ rule :: rules, original.relation = merged.relation ∧
      proves original.verification := by
  induction rules with
  | nil => exact ⟨merged, h, rfl, hproves⟩
  | cons existing rest ih =>
      unfold mergeLookupVerificationRule at h
      split at h
      · next hsame =>
          rcases List.mem_cons.mp h with rfl | h
          · rcases hmerge _ _ hproves with hleft | hright
            · exact ⟨existing, List.mem_cons_of_mem _ List.mem_cons_self, rfl, hleft⟩
            · exact ⟨rule, List.mem_cons_self, hsame.symm, hright⟩
          · exact ⟨merged, List.mem_cons_of_mem _ (List.mem_cons_of_mem _ h), rfl, hproves⟩
      · rcases List.mem_cons.mp h with rfl | h
        · exact ⟨merged, List.mem_cons_of_mem _ List.mem_cons_self, rfl, hproves⟩
        · obtain ⟨original, horiginal, hproof⟩ := ih h
          refine ⟨original, ?_, hproof⟩
          rcases List.mem_cons.mp horiginal with rfl | horiginal
          · exact List.mem_cons_self
          · exact List.mem_cons_of_mem _ (List.mem_cons_of_mem _ horiginal)

/-- The same of a rule of the merged list. -/
theorem exists_of_mem_mergeRules
    {proves : LookupCandidateVerification → Prop}
    (hmerge : ∀ left right : LookupCandidateVerification,
      proves (left.unionMerge right) → proves left ∨ proves right)
    {merged : LookupVerificationRule} {rules : List LookupVerificationRule}
    (h : merged ∈ mergeLookupVerificationRules rules)
    (hproves : proves merged.verification) :
    ∃ original ∈ rules, original.relation = merged.relation ∧ proves original.verification := by
  have hfold : ∀ (rules before : List LookupVerificationRule),
      merged ∈ rules.foldl (fun merged rule => mergeLookupVerificationRule rule merged) before →
      ∃ original ∈ before ++ rules, original.relation = merged.relation ∧
        proves original.verification := by
    intro rules
    induction rules with
    | nil =>
        intro before hmerged
        exact ⟨merged, List.mem_append_left _ hmerged, rfl, hproves⟩
    | cons rule rest ih =>
        intro before hmerged
        obtain ⟨found, hfound, hrelation, hproof⟩ := ih _ hmerged
        rcases List.mem_append.mp hfound with hfound | hfound
        · obtain ⟨original, horiginal, hsame, hproof⟩ :=
            exists_of_mem_mergeRule hmerge hfound hproof
          refine ⟨original, ?_, hsame.trans hrelation, hproof⟩
          rcases List.mem_cons.mp horiginal with rfl | horiginal
          · exact List.mem_append_right _ List.mem_cons_self
          · exact List.mem_append_left _ horiginal
        · exact ⟨found, List.mem_append_right _ (List.mem_cons_of_mem _ hfound), hrelation,
            hproof⟩
  simpa using hfold rules [] h

/-- Merging keeps the relations. -/
theorem exists_mem_mergeRule_iff
    {rule : LookupVerificationRule} {rules : List LookupVerificationRule}
    {relation : RelationName} :
    (∃ merged ∈ mergeLookupVerificationRule rule rules, merged.relation = relation) ↔
      ∃ original ∈ rule :: rules, original.relation = relation := by
  induction rules with
  | nil => rfl
  | cons existing rest ih =>
      unfold mergeLookupVerificationRule
      split
      · next hsame =>
          simp only [List.exists_mem_cons_iff, ← hsame]
          tauto
      · simp only [List.exists_mem_cons_iff] at ih ⊢
        rw [ih]
        tauto

/-- Rules only see the truth of the formula. -/
theorem RulesFor.congr
    {formula formula' : Formula RelKey} {rules : List LookupVerificationRule}
    (hiff : Sat members members formula ↔ Sat members members formula')
    (h : RulesFor set direct members object formula rules) :
    RulesFor set direct members object formula' rules :=
  ⟨fun rule hrule hrow haccepts => hiff.mp (h.sound rule hrule hrow haccepts),
    fun hsat => h.covers (hiff.mpr hsat)⟩

/-- Merging keeps proofs and relations. -/
theorem RulesFor.merge
    {formula : Formula RelKey} {rules : List LookupVerificationRule}
    (h : RulesFor set direct members object formula rules) :
    RulesFor set direct members object formula (mergeLookupVerificationRules rules) := by
  have hfold : ∀ (rules merged : List LookupVerificationRule),
      RulesFor set direct members object formula (merged ++ rules) →
      RulesFor set direct members object formula
        (rules.foldl (fun merged rule => mergeLookupVerificationRule rule merged) merged) := by
    intro rules
    induction rules with
    | nil =>
        intro merged h
        rwa [List.append_nil] at h
    | cons rule rest ih =>
        intro merged h
        apply ih
        have hmove : ∀ {original : LookupVerificationRule}, original ∈ rule :: merged →
            original ∈ merged ++ rule :: rest := by
          intro original horiginal
          rcases List.mem_cons.mp horiginal with rfl | horiginal
          · exact List.mem_append_right _ List.mem_cons_self
          · exact List.mem_append_left _ horiginal
        constructor
        · intro found hfound hdirect haccepts
          rcases List.mem_append.mp hfound with hfound | hfound
          · obtain ⟨original, horiginal, hrelation, hproof⟩ :=
              exists_of_mem_mergeRule (fun _ _ => accepts_of_unionMerge) hfound haccepts
            exact h.sound original (hmove horiginal) (hrelation ▸ hdirect) hproof
          · exact h.sound found
              (List.mem_append_right _ (List.mem_cons_of_mem _ hfound)) hdirect haccepts
        · intro hsat
          obtain ⟨found, hfound, hrow⟩ := h.covers hsat
          have hcases : found ∈ rule :: merged ∨ found ∈ rest := by
            rcases List.mem_append.mp hfound with hfound | hfound
            · exact Or.inl (List.mem_cons_of_mem _ hfound)
            · rcases List.mem_cons.mp hfound with rfl | hfound
              · exact Or.inl List.mem_cons_self
              · exact Or.inr hfound
          rcases hcases with hfound | hfound
          · obtain ⟨kept, hkept, hrelation⟩ :=
              exists_mem_mergeRule_iff.mpr ⟨found, hfound, rfl⟩
            exact ⟨kept, List.mem_append_left _ hkept, hrelation.symm ▸ hrow⟩
          · exact ⟨found, List.mem_append_right _ hfound, hrow⟩
  exact hfold rules [] h

end Merging

section Collecting

variable {schema : CompiledSchema} {set : Finset Relationship} {direct : RelKey → Bool}
  {members : Set RelKey} {object : Object}

/-- `this` needs a row on the relation, and a direct row is enough for it. -/
theorem rulesFor_this
    (hdirect : ∀ key, direct key = true → HasRow set key)
    (relation : RelationName) :
    RulesFor set direct members object (thisFormula set direct ⟨object, relation⟩)
      [⟨relation, .provenWithoutCheck⟩] := by
  constructor
  · intro rule hrule hrow _
    rw [List.mem_singleton.mp hrule] at hrow
    exact (sat_any _ _ _).mpr ⟨_, List.mem_cons_self, (sat_const _ _ _).mpr hrow⟩
  · intro hsat
    refine ⟨_, List.mem_cons_self, ?_⟩
    obtain ⟨f, hf, hsat⟩ := (sat_any _ _ _).mp hsat
    rcases List.mem_cons.mp hf with rfl | hf
    · exact hdirect _ ((sat_const _ _ _).mp hsat)
    · obtain ⟨subject, hsubject, _⟩ := List.mem_map.mp hf
      exact hasRow_of_mem_storedUsersets hsubject

/-- A tuple-to-userset needs a row on its tupleset relation. -/
theorem rulesFor_tupleToUserset
    (tupleset : RelationName) (formulaOf : RelKey → Formula RelKey) :
    RulesFor set direct members object
      (.any ((storedUsersets set ⟨object, tupleset⟩).map formulaOf)) [⟨tupleset, .fullRoot⟩] := by
  constructor
  · intro rule hrule _ haccepts
    rw [List.mem_singleton.mp hrule] at haccepts
    exact haccepts.elim
  · intro hsat
    refine ⟨_, List.mem_cons_self, ?_⟩
    obtain ⟨f, hf, _⟩ := (sat_any _ _ _).mp hsat
    obtain ⟨subject, hsubject, _⟩ := List.mem_map.mp hf
    exact hasRow_of_mem_storedUsersets hsubject

theorem RulesFor.any_nil :
    RulesFor set direct members object (.any []) [] := by
  constructor
  · intro rule hrule
    cases hrule
  · intro hsat
    obtain ⟨f, hf, _⟩ := (sat_any _ _ _).mp hsat
    cases hf

/-- The rules of a union are those of its operands one after the other. -/
theorem RulesFor.any_cons
    {formula : Formula RelKey} {formulas : List (Formula RelKey)}
    {rules others : List LookupVerificationRule}
    (h : RulesFor set direct members object formula rules)
    (hothers : RulesFor set direct members object (.any formulas) others) :
    RulesFor set direct members object (.any (formula :: formulas)) (rules ++ others) := by
  constructor
  · intro rule hrule hrow haccepts
    rcases List.mem_append.mp hrule with hrule | hrule
    · exact (sat_any _ _ _).mpr ⟨formula, List.mem_cons_self, h.sound rule hrule hrow haccepts⟩
    · obtain ⟨f, hf, hsat⟩ := (sat_any _ _ _).mp (hothers.sound rule hrule hrow haccepts)
      exact (sat_any _ _ _).mpr ⟨f, List.mem_cons_of_mem _ hf, hsat⟩
  · intro hsat
    obtain ⟨f, hf, hholds⟩ := (sat_any _ _ _).mp hsat
    rcases List.mem_cons.mp hf with rfl | hf
    · obtain ⟨rule, hrule, hrow⟩ := h.covers hholds
      exact ⟨rule, List.mem_append_left _ hrule, hrow⟩
    · obtain ⟨rule, hrule, hrow⟩ := hothers.covers ((sat_any _ _ _).mpr ⟨f, hf, hholds⟩)
      exact ⟨rule, List.mem_append_right _ hrule, hrow⟩

/-- The rules of an intersection are those of one operand, guarded by all the others. -/
theorem RulesFor.requireAllowed
    {relation : RelationName} {before rest : List CompiledUsersetExpression}
    {seed : CompiledUsersetExpression} {rules : List LookupVerificationRule}
    (h : RulesFor set direct members object
      (rewriteFormula set direct ⟨object, relation⟩ seed.source) rules) :
    RulesFor set direct members object
      (.all ((before ++ seed :: rest).map fun expression =>
        rewriteFormula set direct ⟨object, relation⟩ expression.source))
      (SimpleZanzibar.requireAllowed relation (before ++ rest) rules) := by
  constructor
  · intro rule hrule hrow haccepts
    obtain ⟨original, horiginal, rfl⟩ := List.mem_map.mp hrule
    obtain ⟨hproof, hguards⟩ := accepts_requireAllowed haccepts
    have hseed := h.sound original horiginal hrow hproof
    refine (sat_all _ _ _).mpr fun f hf => ?_
    obtain ⟨expression, hexpression, rfl⟩ := List.mem_map.mp hf
    rcases List.mem_append.mp hexpression with hexpression | hexpression
    · exact hguards expression (List.mem_append_left _ hexpression)
    · rcases List.mem_cons.mp hexpression with rfl | hexpression
      · exact hseed
      · exact hguards expression (List.mem_append_right _ hexpression)
  · intro hall
    obtain ⟨original, horiginal, hrow⟩ := h.covers ((sat_all _ _ _).mp hall _
      (List.mem_map_of_mem (List.mem_append_right before List.mem_cons_self)))
    exact ⟨_, List.mem_map_of_mem horiginal, hrow⟩

/-- The rules of an exclusion are those of its base, each of which also asks that the
excluded operand is denied. -/
theorem RulesFor.requireDenied
    {relation : RelationName} {exclude : CompiledUsersetExpression} {base : Formula RelKey}
    {rules : List LookupVerificationRule}
    (h : RulesFor set direct members object base rules) :
    RulesFor set direct members object
      (.diff base (rewriteFormula set direct ⟨object, relation⟩ exclude.source))
      (SimpleZanzibar.requireDenied relation exclude rules) := by
  constructor
  · intro rule hrule hrow haccepts
    obtain ⟨original, horiginal, rfl⟩ := List.mem_map.mp hrule
    obtain ⟨hbase, hdenied⟩ := accepts_withResidual_iff.mp haccepts
    exact (sat_diff _ _ _ _).mpr ⟨h.sound original horiginal hrow hbase, hdenied⟩
  · intro hsat
    obtain ⟨original, horiginal, hrow⟩ := h.covers ((sat_diff _ _ _ _).mp hsat).1
    exact ⟨_, List.mem_map_of_mem horiginal, hrow⟩

/-- The rules of the definitions that a collection visits. -/
def CollectsFor (schema : CompiledSchema) (set : Finset Relationship) (direct : RelKey → Bool)
    (members : Set RelKey) (object : Object)
    (collect : List SchemaRelationId → SchemaRelationId → RelationDefinition →
      Except ZanzibarError (Option (List LookupVerificationRule))) : Prop :=
  ∀ visiting id (key : RelKey) definition rules, key.object = object →
    schema.definitionOf key = some definition →
    collect visiting id definition = .ok (some rules) →
    RulesFor set direct members object (definitionFormula set direct key definition) rules

variable {collect : List SchemaRelationId → SchemaRelationId → RelationDefinition →
    Except ZanzibarError (Option (List LookupVerificationRule))}
  {objectType : ObjectType}

/-- A computed userset has the rules of the relation it names. -/
theorem rulesFor_computedUserset
    (hdirect : ∀ key, direct key = true → HasRow set key)
    (hmembers : ∀ key, key ∈ members ↔
      Sat members members (membershipSystem schema set direct key))
    (htype : Identifier.new .objectType object.namespaceName = .ok objectType)
    (hcollect : CollectsFor schema set direct members object collect)
    {visiting : List SchemaRelationId} {relation target : RelationName} {id : SchemaRelationId}
    {hasRewrite : Bool} {found : RelationDefinition} {rules : List LookupVerificationRule}
    (hrelation : schema.resolver.relation objectType target = .ok found)
    (hid : schema.resolver.relationById id = some found)
    (hrewrite : hasRewrite = found.usersetRewrite.isSome)
    (h : schema.collectExpressionVerificationRules collect visiting relation
      (.computedUserset target id hasRewrite) = .ok (some rules)) :
    RulesFor set direct members object (.atom ⟨object, target⟩) rules := by
  have hdefinition : schema.definitionOf ⟨object, target⟩ = some found := by
    unfold CompiledSchema.definitionOf
    simp only [htype, hrelation]
    rfl
  have hkey : Sat members members (definitionFormula set direct ⟨object, target⟩ found) ↔
      Sat members members (.atom ⟨object, target⟩) := by
    rw [sat_atom, hmembers, membershipSystem, hdefinition]
  refine RulesFor.congr hkey ?_
  unfold CompiledSchema.collectExpressionVerificationRules at h
  split at h
  · next hnone =>
      cases h
      have hno : found.usersetRewrite = none := by
        rw [hrewrite, Bool.not_eq_true', Option.isSome_eq_false_iff,
          Option.isNone_iff_eq_none] at hnone
        exact hnone
      rw [definitionFormula, hno]
      exact rulesFor_this hdirect target
  · rw [hid] at h
    exact hcollect visiting id ⟨object, target⟩ found rules rfl hdefinition h

mutual

/-- The rules of a rewrite are rules for what it stands for. -/
theorem collectExpression_rulesFor
    (hdirect : ∀ key, direct key = true → HasRow set key)
    (hmembers : ∀ key, key ∈ members ↔
      Sat members members (membershipSystem schema set direct key))
    (htype : Identifier.new .objectType object.namespaceName = .ok objectType)
    (hcollect : CollectsFor schema set direct members object collect)
    {visiting : List SchemaRelationId} {relation : RelationName} :
    ∀ (expression : CompiledUsersetExpression) {rules : List LookupVerificationRule},
      expression.ResolvedIn schema.resolver objectType →
      schema.collectExpressionVerificationRules collect visiting relation expression =
        .ok (some rules) →
      RulesFor set direct members object
        (rewriteFormula set direct ⟨object, relation⟩ expression.source) rules
  | .this, rules, _, h => by
      cases h
      exact rulesFor_this hdirect relation
  | .computedUserset target id hasRewrite, rules, hresolved, h => by
      cases hresolved with
      | computedUserset hrelation hid hrewrite =>
          exact rulesFor_computedUserset hdirect hmembers htype hcollect hrelation hid hrewrite h
  | .tupleToUserset tupleset id computed, rules, _, h => by
      cases h
      exact rulesFor_tupleToUserset tupleset _
  | .union expressions, rules, hresolved, h => by
      cases hresolved with
      | union hresolved =>
          rw [CompiledUsersetExpression.source, CompiledUsersetExpression.sources_eq_map,
            rewriteFormula, rewriteFormulas_eq_map, List.map_map]
          exact collectUnion_rulesFor hdirect hmembers htype hcollect expressions hresolved h
  | .intersection expressions, rules, hresolved, h => by
      cases hresolved with
      | intersection hresolved =>
          rw [CompiledUsersetExpression.source, CompiledUsersetExpression.sources_eq_map,
            rewriteFormula, rewriteFormulas_eq_map, List.map_map]
          exact collectIntersection_rulesFor hdirect hmembers htype hcollect [] expressions
            hresolved h
  | .exclusion base exclude, rules, hresolved, h => by
      cases hresolved with
      | exclusion hbase hexclude =>
          unfold CompiledSchema.collectExpressionVerificationRules at h
          obtain ⟨baseRules, hcollected, h⟩ := bind_eq_ok.mp h
          obtain ⟨rules', rfl, rfl⟩ := Option.map_eq_some_iff.mp (Except.ok.inj h)
          rw [CompiledUsersetExpression.source, rewriteFormula]
          exact (collectExpression_rulesFor hdirect hmembers htype hcollect base hbase
            hcollected).requireDenied

theorem collectUnion_rulesFor
    (hdirect : ∀ key, direct key = true → HasRow set key)
    (hmembers : ∀ key, key ∈ members ↔
      Sat members members (membershipSystem schema set direct key))
    (htype : Identifier.new .objectType object.namespaceName = .ok objectType)
    (hcollect : CollectsFor schema set direct members object collect)
    {visiting : List SchemaRelationId} {relation : RelationName} :
    ∀ (expressions : List CompiledUsersetExpression) {rules : List LookupVerificationRule},
      (∀ expression ∈ expressions, expression.ResolvedIn schema.resolver objectType) →
      schema.collectUnionVerificationRules collect visiting relation expressions =
        .ok (some rules) →
      RulesFor set direct members object
        (.any (expressions.map fun expression =>
          rewriteFormula set direct ⟨object, relation⟩ expression.source)) rules
  | [], rules, _, h => by
      cases h
      exact RulesFor.any_nil
  | expression :: rest, rules, hresolved, h => by
      unfold CompiledSchema.collectUnionVerificationRules at h
      obtain ⟨childRules, hchild, h⟩ := bind_eq_ok.mp h
      cases childRules with
      | none => cases h
      | some childRules =>
          obtain ⟨restRules, hrest, h⟩ := bind_eq_ok.mp h
          obtain ⟨restRules, rfl, rfl⟩ := Option.map_eq_some_iff.mp (Except.ok.inj h)
          have hfirst := collectExpression_rulesFor hdirect hmembers htype hcollect expression
            (hresolved _ List.mem_cons_self) hchild
          exact hfirst.any_cons (collectUnion_rulesFor hdirect hmembers htype hcollect rest
            (fun other hother => hresolved other (List.mem_cons_of_mem _ hother)) hrest)

/-- The operands before the seed are guards like those after it. -/
theorem collectIntersection_rulesFor
    (hdirect : ∀ key, direct key = true → HasRow set key)
    (hmembers : ∀ key, key ∈ members ↔
      Sat members members (membershipSystem schema set direct key))
    (htype : Identifier.new .objectType object.namespaceName = .ok objectType)
    (hcollect : CollectsFor schema set direct members object collect)
    {visiting : List SchemaRelationId} {relation : RelationName} :
    ∀ (before expressions : List CompiledUsersetExpression)
      {rules : List LookupVerificationRule},
      (∀ expression ∈ expressions, expression.ResolvedIn schema.resolver objectType) →
      schema.collectIntersectionVerificationRules collect visiting relation before expressions =
        .ok (some rules) →
      RulesFor set direct members object
        (.all ((before ++ expressions).map fun expression =>
          rewriteFormula set direct ⟨object, relation⟩ expression.source)) rules
  | before, [], rules, _, h => by
      cases h
  | before, seed :: rest, rules, hresolved, h => by
      have hskip : schema.collectIntersectionVerificationRules collect visiting relation
          (before ++ [seed]) rest = .ok (some rules) →
          RulesFor set direct members object
            (.all ((before ++ seed :: rest).map fun expression =>
              rewriteFormula set direct ⟨object, relation⟩ expression.source)) rules := by
        intro hrest
        have hrules := collectIntersection_rulesFor hdirect hmembers htype hcollect
          (before ++ [seed]) rest
          (fun other hother => hresolved other (List.mem_cons_of_mem _ hother)) hrest
        rwa [List.append_assoc, List.singleton_append] at hrules
      unfold CompiledSchema.collectIntersectionVerificationRules at h
      obtain ⟨seedRules, hseed, h⟩ := bind_eq_ok.mp h
      cases seedRules with
      | none => exact hskip h
      | some seedRules =>
          dsimp only at h
          split at h
          · exact hskip h
          · obtain rfl := Option.some.inj (Except.ok.inj h)
            exact (collectExpression_rulesFor hdirect hmembers htype hcollect seed
              (hresolved _ List.mem_cons_self) hseed).requireAllowed

end

/-- The rules of a relation are rules for its equation, however deep the collection goes. -/
theorem collectRelation_rulesFor
    (hschema : schema.Accepted)
    (hdirect : ∀ key, direct key = true → HasRow set key)
    (hmembers : ∀ key, key ∈ members ↔
      Sat members members (membershipSystem schema set direct key))
    (fuel : Nat) :
    CollectsFor schema set direct members object
      (schema.collectRelationVerificationRules fuel) := by
  induction fuel with
  | zero =>
      intro visiting id key definition rules _ _ h
      cases h
  | succ fuel ih =>
      rintro visiting id key definition rules rfl hdefinition h
      unfold CompiledSchema.collectRelationVerificationRules at h
      split at h
      · cases h
      · obtain ⟨collected, hcollected, h⟩ := bind_eq_ok.mp h
        obtain ⟨original, rfl, rfl⟩ := Option.map_eq_some_iff.mp (Except.ok.inj h)
        apply RulesFor.merge
        obtain ⟨objectType, htype, hrelation⟩ := CompiledSchema.definitionOf_eq_some.mp hdefinition
        obtain ⟨hsource, hresolved⟩ := hschema.relation hrelation
        obtain ⟨hname, _⟩ := SchemaResolver.mem_of_relation hrelation
        unfold definitionFormula
        rw [← hsource]
        cases hcompiled : definition.compiledUsersetRewrite with
        | none =>
            rw [hcompiled] at hcollected
            cases hcollected
            rw [hname]
            exact rulesFor_this hdirect key.relation
        | some expression =>
            rw [hcompiled] at hcollected
            rw [hname] at hcollected
            exact collectExpression_rulesFor hdirect hmembers htype ih expression
              (hresolved expression hcompiled) hcollected

/-- The relations of a plan are those of its rules. -/
theorem mem_producerRelations_iff
    {rules : List LookupVerificationRule} {relation : RelationName} :
    relation ∈ CompiledSchema.producerRelations rules ↔
      ∃ rule ∈ rules, rule.relation = relation := by
  have hfold : ∀ (rules : List LookupVerificationRule) (relations : List RelationName),
      relation ∈ rules.foldl (fun relations rule =>
          if rule.relation ∈ relations then relations else relations ++ [rule.relation])
          relations ↔
        relation ∈ relations ∨ ∃ rule ∈ rules, rule.relation = relation := by
    intro rules
    induction rules with
    | nil => simp
    | cons rule rest ih =>
        intro relations
        rw [List.foldl_cons, ih, List.exists_mem_cons_iff]
        split
        · next hmem =>
            constructor
            · tauto
            · rintro (h | rfl | h)
              · exact Or.inl h
              · exact Or.inl hmem
              · exact Or.inr h
        · rw [List.mem_append, List.mem_singleton, or_assoc, eq_comm]
  unfold CompiledSchema.producerRelations
  rw [hfold]
  simp

/-- The rules of a plan are rules for the equation of the permission. -/
theorem lookupProducerPlan_rulesFor
    (hschema : schema.Accepted)
    (hdirect : ∀ key, direct key = true → HasRow set key)
    (hmembers : ∀ key, key ∈ members ↔
      Sat members members (membershipSystem schema set direct key))
    {resourceType : ObjectType} {permission : RelationName} {plan : LookupProducerPlan}
    (hplan : schema.lookupProducerPlan resourceType permission = .ok (some plan))
    (htype : object.namespaceName = resourceType.value) :
    RulesFor set direct members object (.atom ⟨object, permission⟩) plan.verificationRules ∧
      plan.relations = CompiledSchema.producerRelations plan.verificationRules := by
  unfold CompiledSchema.lookupProducerPlan at hplan
  obtain ⟨id, hid, hplan⟩ := bind_eq_ok.mp hplan
  have hid := mapError_eq_ok hid
  obtain ⟨definition, hget, hplan⟩ := bind_eq_ok.mp hplan
  obtain ⟨rules, hrules, hplan⟩ := bind_eq_ok.mp hplan
  have hget : schema.resolver.relationById id = some definition := by
    split at hget
    · next found hfound =>
        cases hget
        exact hfound
    · cases hget
  cases rules with
  | none => cases hplan
  | some rules =>
      dsimp only at hplan
      split at hplan
      · cases hplan
      · cases hplan
        refine ⟨?_, rfl⟩
        have hdefinition : schema.definitionOf ⟨object, permission⟩ = some definition := by
          apply CompiledSchema.definitionOf_eq_some.mpr
          refine ⟨resourceType, ?_, SchemaResolver.relation_eq_ok_iff.mpr ⟨id, hid, hget⟩⟩
          rw [htype, Identifier.new_value]
        refine RulesFor.congr ?_ (collectRelation_rulesFor hschema hdirect hmembers _ [] id
          ⟨object, permission⟩ definition rules rfl hdefinition hrules)
        rw [sat_atom, hmembers, membershipSystem, hdefinition]

end Collecting

section Plans

variable {schema : CompiledSchema} {set : Finset Relationship} {subject : SubjectRef}
  {level : RelKey → Nat}

/-- The equations of a set of relationships for one subject. -/
noncomputable def subjectSystem (schema : CompiledSchema) (set : Finset Relationship)
    (subject : SubjectRef) : RelKey → Formula RelKey :=
  membershipSystem schema set (directRow set subject)

/-- Documents that viewers of their own team may read. -/
def teamReaderDefinitions : List NamespaceDefinition :=
  [⟨(objectLit "doc" "1").objectType,
    [.new (relationLit "viewer") none, .new (relationLit "team") none,
      .new (relationLit "reader") (some (.intersection
        [.computedUserset (relationLit "viewer"), .computedUserset (relationLit "team")]))]⟩]

/-- Alice views the document and is on its team. -/
def teamReaderRows : Finset Relationship :=
  {⟨objectLit "doc" "1", relationLit "viewer", .object (objectLit "user" "alice")⟩,
    ⟨objectLit "doc" "1", relationLit "team", .object (objectLit "user" "alice")⟩}

/-- The plan of the readers: a viewer is a reader once it is checked to be on the team. -/
def teamReaderPlan : LookupProducerPlan :=
  ⟨[relationLit "viewer"],
    [⟨relationLit "viewer", .residual [⟨relationLit "reader",
      .computedUserset (relationLit "team") ⟨0, 1⟩ false, .allowed⟩]⟩]⟩

/-- What the witnesses below need of the compiled schema. -/
structure TeamReaderSchema (schema : CompiledSchema) : Prop where
  accepted : schema.Accepted
  plan : schema.lookupProducerPlan (objectLit "doc" "1").objectType (relationLit "reader") =
    .ok (some teamReaderPlan)
  exclusionFree : schema.exclusionFree = true
  team : ∃ definition, schema.definitionOf ⟨⟨"doc", "1"⟩, relationLit "team"⟩ = some definition ∧
    definition.usersetRewrite = none

theorem exists_teamReaderSchema :
    ∃ schema, TeamReaderSchema schema := by
  have hrun : ((CompiledSchema.fromDefinitions teamReaderDefinitions).map (fun schema =>
      (schema.exclusionFree,
        (schema.lookupProducerPlan (objectLit "doc" "1").objectType
          (relationLit "reader")).toOption,
        (schema.definitionOf ⟨⟨"doc", "1"⟩, relationLit "team"⟩).map
          (·.usersetRewrite)))).toOption =
      some (true, some (some teamReaderPlan), some none) := by
    decide +kernel
  obtain ⟨schema, hschema, hresult⟩ := exists_ok_of_map_toOption hrun
  obtain ⟨hfree, hresult⟩ := Prod.mk.inj hresult
  obtain ⟨hplan, hteam⟩ := Prod.mk.inj hresult
  obtain ⟨definition, hdefinition, hnone⟩ := Option.map_eq_some_iff.mp hteam
  exact ⟨schema, ⟨_, hschema⟩, eq_ok_of_toOption hplan, hfree, definition, hdefinition, hnone⟩

/-- Alice is on the team of the document. -/
theorem TeamReaderSchema.mem_team
    {schema : CompiledSchema}
    (h : TeamReaderSchema schema) :
    ⟨⟨"doc", "1"⟩, relationLit "team"⟩ ∈ leastModel (subjectSystem schema teamReaderRows
      (.object (objectLit "user" "alice"))) (fun _ => 0) := by
  obtain ⟨definition, hdefinition, hnone⟩ := h.team
  have hlevel : IsStratification (subjectSystem schema teamReaderRows
      (.object (objectLit "user" "alice"))) (fun _ => 0) :=
    isStratification_of_exclusionFree h.exclusionFree
  rw [mem_leastModel_iff hlevel]
  unfold subjectSystem membershipSystem definitionFormula
  rw [hdefinition]
  simp only [hnone]
  exact (sat_any _ _ _).mpr ⟨_, List.mem_cons_self, (sat_const _ _ _).mpr (by decide)⟩

/-- The residual operand of the plan holds. -/
theorem TeamReaderSchema.residuals
    {schema : CompiledSchema}
    (h : TeamReaderSchema schema)
    {residuals : List LookupResidualCheck}
    (hresiduals : LookupCandidateVerification.residual [⟨relationLit "reader",
      .computedUserset (relationLit "team") ⟨0, 1⟩ false, .allowed⟩] = .residual residuals) :
    ∀ residual ∈ residuals, residual.Holds teamReaderRows
      (directRow teamReaderRows (.object (objectLit "user" "alice")))
      (leastModel (subjectSystem schema teamReaderRows (.object (objectLit "user" "alice")))
        (fun _ => 0)) ⟨"doc", "1"⟩ := by
  cases hresiduals
  intro residual hresidual
  obtain rfl := List.mem_singleton.mp hresidual
  exact (sat_atom _ (leastModel (subjectSystem schema teamReaderRows
    (.object (objectLit "user" "alice"))) (fun _ => 0)) _).mpr h.mem_team

/-- A direct row on the relation of a rule, with the residual operands as the rule expects
them, makes the subject a member of the permission. -/
theorem verificationRules_sound
    (hschema : schema.Accepted)
    {resourceType : ObjectType} {permission : RelationName} {plan : LookupProducerPlan}
    (hplan : schema.lookupProducerPlan resourceType permission = .ok (some plan))
    (hlevel : IsStratification (subjectSystem schema set subject) level)
    {rule : LookupVerificationRule}
    (hrule : rule ∈ plan.verificationRules)
    (hshortcut : rule.verification ≠ .fullRoot)
    {object : Object}
    (htype : object.namespaceName = resourceType.value)
    (hrow : directRow set subject ⟨object, rule.relation⟩ = true)
    (hresiduals : ∀ residuals, rule.verification = .residual residuals →
      ∀ residual ∈ residuals, residual.Holds set (directRow set subject)
        (leastModel (subjectSystem schema set subject) level) object) :
    ⟨object, permission⟩ ∈ leastModel (subjectSystem schema set subject) level := by
  obtain ⟨hrules, _⟩ := lookupProducerPlan_rulesFor hschema (fun _ => hasRow_of_directRow)
    (fun _ => mem_leastModel_iff hlevel) hplan htype
  rw [← sat_atom]
  apply hrules.sound rule hrule hrow
  cases hverification : rule.verification with
  | fullRoot => exact hshortcut hverification
  | provenWithoutCheck => trivial
  | residual residuals => exact hresiduals residuals hverification

/-- Alice may read the document: she views it and is on its team. -/
theorem verificationRules_sound_reader :
    ∃ schema : CompiledSchema, schema.Accepted ∧
      ⟨⟨"doc", "1"⟩, relationLit "reader"⟩ ∈ leastModel (subjectSystem schema teamReaderRows
        (.object (objectLit "user" "alice"))) (fun _ => 0) := by
  obtain ⟨schema, h⟩ := exists_teamReaderSchema
  refine ⟨schema, h.accepted, ?_⟩
  refine verificationRules_sound h.accepted h.plan
    (isStratification_of_exclusionFree h.exclusionFree) List.mem_cons_self (by decide) rfl
    (by decide) ?_
  exact fun _ hresiduals => h.residuals hresiduals

/-- Whoever belongs to the permission of an object has led there by a row of the object on a
relation of the plan. -/
theorem producerPlan_covers
    (hschema : schema.Accepted)
    {resourceType : ObjectType} {permission : RelationName} {plan : LookupProducerPlan}
    (hplan : schema.lookupProducerPlan resourceType permission = .ok (some plan))
    (hlevel : IsStratification (subjectSystem schema set subject) level)
    {object : Object}
    (htype : object.namespaceName = resourceType.value)
    (hmember : ⟨object, permission⟩ ∈ leastModel (subjectSystem schema set subject) level) :
    ∃ r ∈ set, r.resource.toObject = object ∧ r.relation ∈ plan.relations := by
  obtain ⟨hrules, hrelations⟩ := lookupProducerPlan_rulesFor hschema
    (fun _ => hasRow_of_directRow) (fun _ => mem_leastModel_iff hlevel) hplan htype
  obtain ⟨rule, hrule, r, hr, hobject, hrelation⟩ :=
    hrules.covers ((sat_atom _ _ _).mpr hmember)
  refine ⟨r, hr, hobject, ?_⟩
  rw [hrelations]
  exact mem_producerRelations_iff.mpr ⟨rule, hrule, hrelation.symm⟩

/-- The reader of the document has a row on a listed relation, that of the viewers. -/
theorem producerPlan_covers_reader :
    ∃ schema : CompiledSchema, schema.Accepted ∧
      ∃ r ∈ teamReaderRows, r.resource.toObject = ⟨"doc", "1"⟩ ∧
        r.relation ∈ teamReaderPlan.relations := by
  obtain ⟨schema, h⟩ := exists_teamReaderSchema
  have hlevel : IsStratification (subjectSystem schema teamReaderRows
      (.object (objectLit "user" "alice"))) (fun _ => 0) :=
    isStratification_of_exclusionFree h.exclusionFree
  refine ⟨schema, h.accepted, producerPlan_covers h.accepted h.plan hlevel rfl ?_⟩
  have hrules : RulesFor teamReaderRows (directRow teamReaderRows
      (.object (objectLit "user" "alice"))) (leastModel (subjectSystem schema teamReaderRows
      (.object (objectLit "user" "alice"))) (fun _ => 0)) ⟨"doc", "1"⟩
      (.atom ⟨⟨"doc", "1"⟩, relationLit "reader"⟩) teamReaderPlan.verificationRules :=
    (lookupProducerPlan_rulesFor h.accepted (fun _ => hasRow_of_directRow)
      (fun _ => mem_leastModel_iff hlevel) h.plan rfl).1
  have hsat := hrules.sound _ List.mem_cons_self (by decide) (h.residuals rfl)
  exact (sat_atom _ _ _).mp hsat

end Plans

end SimpleZanzibar
