import SimpleZanzibar.Lib.Freezing
import SimpleZanzibar.SchemaHash

/-!
# What the schema hash identifies

The words of a rewrite leave the operand counts out, so that the hash identifies a schema
exactly when every rewrite is the only one with its nodes in preorder.

**Results.**
* `CompiledSchema.exists_fromDefinitions_iff`: the definitions that the compiler accepts.
* `SchemaHash.identifies_iff_tight`: among the schemas with plain subject types, the hash of
  a schema is its own iff its rewrites are tight.
-/

namespace SimpleZanzibar

namespace UsersetExpression

open PreorderWord

mutual

theorem completes_preorder :
    ∀ (expression : UsersetExpression) (n : Nat) (rest : List (RewriteSymbol × Nat)),
      Completes (n + 1) (expression.preorder ++ rest) ↔ Completes n rest
  | .this, n, rest => Iff.rfl
  | .computedUserset relation, n, rest => Iff.rfl
  | .tupleToUserset tupleset computed, n, rest => Iff.rfl
  | .union expressions, n, rest => completes_preorders expressions n rest
  | .intersection expressions, n, rest => completes_preorders expressions n rest
  | .exclusion base exclude, n, rest => by
      have hstep : Completes (n + 1) (preorder (.exclusion base exclude) ++ rest) ↔
          Completes (n + 1 + 1) (base.preorder ++ (exclude.preorder ++ rest)) := by
        rw [preorder, List.cons_append, List.append_assoc]
        exact Iff.rfl
      rw [hstep, completes_preorder base, completes_preorder exclude]

theorem completes_preorders :
    ∀ (expressions : List UsersetExpression) (n : Nat) (rest : List (RewriteSymbol × Nat)),
      Completes (n + expressions.length) (preorders expressions ++ rest) ↔ Completes n rest
  | [], n, rest => Iff.rfl
  | expression :: expressions, n, rest => by
      rw [preorders, List.append_assoc, List.length_cons, ← Nat.add_assoc,
        completes_preorder expression, completes_preorders expressions]

end

theorem completes_one
    (expression : UsersetExpression) :
    Completes 1 expression.preorder := by
  have h := (completes_preorder expression 0 []).mpr rfl
  rwa [List.append_nil] at h

mutual

/-- A rewrite can be read back from its preorder. -/
theorem preorder_append_inj :
    ∀ (left right : UsersetExpression) {rest rest' : List (RewriteSymbol × Nat)},
      left.preorder ++ rest = right.preorder ++ rest' → left = right ∧ rest = rest'
  | .this, right, rest, rest', h => by
      cases right <;> simp_all [preorder]
  | .computedUserset relation, right, rest, rest', h => by
      cases right <;> simp_all [preorder]
  | .tupleToUserset tupleset computed, right, rest, rest', h => by
      cases right <;> simp_all [preorder]
  | .union expressions, right, rest, rest', h => by
      cases right with
      | union expressions' =>
          obtain ⟨hcount, htail⟩ := List.cons.inj h
          obtain ⟨rfl, hrest⟩ := preorders_append_inj expressions expressions'
            (Prod.mk.inj hcount).2 htail
          exact ⟨rfl, hrest⟩
      | _ => simp [preorder] at h
  | .intersection expressions, right, rest, rest', h => by
      cases right with
      | intersection expressions' =>
          obtain ⟨hcount, htail⟩ := List.cons.inj h
          obtain ⟨rfl, hrest⟩ := preorders_append_inj expressions expressions'
            (Prod.mk.inj hcount).2 htail
          exact ⟨rfl, hrest⟩
      | _ => simp [preorder] at h
  | .exclusion base exclude, right, rest, rest', h => by
      cases right with
      | exclusion base' exclude' =>
          have htail := (List.cons.inj h).2
          rw [List.append_eq, List.append_eq, List.append_assoc, List.append_assoc] at htail
          obtain ⟨rfl, hexclude⟩ := preorder_append_inj base base' htail
          obtain ⟨rfl, hrest⟩ := preorder_append_inj exclude exclude' hexclude
          exact ⟨rfl, hrest⟩
      | _ => simp [preorder] at h

theorem preorders_append_inj :
    ∀ (left right : List UsersetExpression) {rest rest' : List (RewriteSymbol × Nat)},
      left.length = right.length → preorders left ++ rest = preorders right ++ rest' →
        left = right ∧ rest = rest'
  | [], right, rest, rest', hlength, h => by
      cases right with
      | nil => exact ⟨rfl, h⟩
      | cons expression right => cases hlength
  | expression :: left, right, rest, rest', hlength, h => by
      cases right with
      | nil => cases hlength
      | cons expression' right =>
          rw [preorders, preorders, List.append_assoc, List.append_assoc] at h
          obtain ⟨rfl, htail⟩ := preorder_append_inj expression expression' h
          obtain ⟨rfl, hrest⟩ := preorders_append_inj left right (Nat.succ.inj hlength) htail
          exact ⟨rfl, hrest⟩

end

theorem preorder_injective :
    Function.Injective preorder := by
  intro left right h
  have happend : left.preorder ++ [] = right.preorder ++ [] := by rw [h]
  exact (preorder_append_inj left right happend).1

/-- Every union and intersection of the rewrite has an operand. -/
def Fits (expression : UsersetExpression) : Prop :=
  PreorderWord.Fits RewriteSymbol.isOpen RewriteSymbol.arity expression.preorder

theorem preorders_append
    (left right : List UsersetExpression) :
    preorders (left ++ right) = preorders left ++ preorders right := by
  induction left with
  | nil => rfl
  | cons expression left ih =>
      rw [List.cons_append, preorders, preorders, ih, List.append_assoc]

/-- A word that fits is the preorder of as many rewrites as it completes. -/
theorem exists_preorders
    {n : Nat} {word : List (RewriteSymbol × Nat)}
    (hfits : PreorderWord.Fits RewriteSymbol.isOpen RewriteSymbol.arity word)
    (h : Completes n word) :
    ∃ expressions : List UsersetExpression, expressions.length = n ∧
      preorders expressions = word := by
  induction word generalizing n with
  | nil => exact ⟨[], h.symm, rfl⟩
  | cons entry rest ih =>
      obtain ⟨symbol, count⟩ := entry
      obtain ⟨hpos, hrest⟩ := completes_cons_iff.mp h
      obtain ⟨hcount, hfitsRest⟩ := Fits.cons_iff.mp hfits
      dsimp only at hrest hcount
      obtain ⟨expressions, hlength, hwords⟩ := ih hfitsRest hrest
      cases symbol with
      | this =>
          have hzero : count = 0 := hcount
          refine ⟨.this :: expressions, by rw [List.length_cons]; omega, ?_⟩
          rw [preorders, hwords, hzero]
          rfl
      | computedUserset relation =>
          have hzero : count = 0 := hcount
          refine ⟨.computedUserset relation :: expressions, by rw [List.length_cons]; omega, ?_⟩
          rw [preorders, hwords, hzero]
          rfl
      | tupleToUserset tupleset computed =>
          have hzero : count = 0 := hcount
          refine ⟨.tupleToUserset tupleset computed :: expressions,
            by rw [List.length_cons]; omega, ?_⟩
          rw [preorders, hwords, hzero]
          rfl
      | union =>
          refine ⟨.union (expressions.take count) :: expressions.drop count, ?_, ?_⟩
          · rw [List.length_cons, List.length_drop]
            omega
          · rw [preorders, preorder, List.length_take, Nat.min_eq_left (by omega),
              List.cons_append, ← preorders_append, List.take_append_drop, hwords]
      | intersection =>
          refine ⟨.intersection (expressions.take count) :: expressions.drop count, ?_, ?_⟩
          · rw [List.length_cons, List.length_drop]
            omega
          · rw [preorders, preorder, List.length_take, Nat.min_eq_left (by omega),
              List.cons_append, ← preorders_append, List.take_append_drop, hwords]
      | exclusion =>
          have htwo : count = 2 := hcount
          match expressions, hlength, hwords with
          | base :: exclude :: remaining, hlength, hwords =>
              refine ⟨.exclusion base exclude :: remaining, ?_, ?_⟩
              · simp only [List.length_cons] at hlength ⊢
                omega
              · rw [preorders, preorder, htwo, ← hwords, preorders, preorders]
                simp
          | [base], hlength, _ =>
              simp only [List.length_cons, List.length_nil] at hlength
              omega
          | [], hlength, _ =>
              simp only [List.length_nil] at hlength
              omega

/-- A tight rewrite is the only one with its nodes. -/
theorem eq_of_symbols
    {left right : UsersetExpression}
    (htight : left.tight = true)
    (hfits : left.Fits)
    (hfits' : right.Fits)
    (h : left.symbols = right.symbols) :
    left = right :=
  preorder_injective
    (tight_unique h hfits hfits' htight left.completes_one right.completes_one)

/-- Every other rewrite shares its nodes with a second one. -/
theorem exists_other_of_not_tight
    {expression : UsersetExpression}
    (htight : expression.tight = false)
    (hfits : expression.Fits) :
    ∃ other : UsersetExpression, other ≠ expression ∧ other.Fits ∧
      other.symbols = expression.symbols := by
  obtain ⟨word, hne, hlabels, hfitsWord, hword⟩ :=
    PreorderWord.exists_other_of_not_tight hfits htight expression.completes_one
  obtain ⟨expressions, hlength, hwords⟩ := exists_preorders hfitsWord hword
  match expressions, hlength, hwords with
  | [other], _, hwords =>
      have hother : other.preorder = word := by
        rw [← hwords, preorders, preorders, List.append_nil]
      refine ⟨other, ?_, ?_, ?_⟩
      · rintro rfl
        exact hne hother.symm
      · unfold Fits
        rw [hother]
        exact hfitsWord
      · unfold symbols
        rw [hother, hlabels]

end UsersetExpression

/-! ## The definitions that the compiler accepts -/

namespace SchemaResolver

variable {resolver : SchemaResolver} {objectType : ObjectType} {owner : RelationName}

/-- The computed relation of a tuple-to-userset node exists where it may be looked up. -/
def TargetExists (resolver : SchemaResolver) (computed : RelationName) :
    AllowedSubjectTypes → Prop
  | .explicit objectTypes => ∀ target ∈ objectTypes, ∃ found,
      resolver.relation target computed = .ok found
  | .unspecified => resolver.relationExistsAnywhere computed = true

/-- The names of a node resolve. -/
def SymbolValid (resolver : SchemaResolver) (objectType : ObjectType) : RewriteSymbol → Prop
  | .computedUserset relation => ∃ found, resolver.relation objectType relation = .ok found
  | .tupleToUserset tupleset computed => ∃ found,
      resolver.relation objectType tupleset = .ok found ∧
        resolver.TargetExists computed found.allowedSubjectTypes
  | _ => True

theorem unit_bind_eq_ok
    {ε α : Type} {x : Except ε Unit} {f : Unit → Except ε α} {a : α} :
    x >>= f = .ok a ↔ x = .ok () ∧ f () = .ok a := by
  rw [bind_eq_ok]
  exact ⟨fun ⟨_, hx, hf⟩ => ⟨hx, hf⟩, fun ⟨hx, hf⟩ => ⟨(), hx, hf⟩⟩

theorem ensureRelationInNamespace_eq_ok_iff
    {kind : String} {relation : RelationName} {found : RelationDefinition} :
    resolver.ensureRelationInNamespace objectType owner kind relation = .ok found ↔
      resolver.relation objectType relation = .ok found := by
  unfold ensureRelationInNamespace
  split
  · next found' hfound => rw [hfound]
  · next name name' herror => simp [herror]
  · next error _ herror => simp [herror]

theorem validateTupleToUsersetTarget_eq_ok_iff
    {tupleset : RelationDefinition} {computed : RelationName} :
    resolver.validateTupleToUsersetTarget objectType owner tupleset computed = .ok () ↔
      resolver.TargetExists computed tupleset.allowedSubjectTypes := by
  unfold validateTupleToUsersetTarget TargetExists
  have htoBool : ∀ result : Except SchemaError RelationDefinition,
      result.toBool = true ↔ ∃ found, result = .ok found := by
    intro result
    cases result with
    | ok found => simp [Except.toBool]
    | error error => simp [Except.toBool]
  cases tupleset.allowedSubjectTypes with
  | unspecified => simp
  | explicit objectTypes => simp [List.all_eq_true, htoBool]

theorem validateOperands_eq_ok_iff
    {operator : String} {expressions : List UsersetExpression} :
    validateOperands objectType owner operator 1 expressions = .ok () ↔
      0 < expressions.length := by
  unfold validateOperands
  split
  · next h =>
      simp only [reduceCtorEq, false_iff]
      omega
  · next h =>
      simp only [true_iff]
      omega

/-- The operand counts of a preorder fit and its names resolve. -/
def PreorderValid (resolver : SchemaResolver) (objectType : ObjectType)
    (word : List (RewriteSymbol × Nat)) : Prop :=
  PreorderWord.Fits RewriteSymbol.isOpen RewriteSymbol.arity word ∧
    ∀ entry ∈ word, resolver.SymbolValid objectType entry.1

theorem preorderValid_nil : resolver.PreorderValid objectType [] :=
  ⟨fun entry hentry => (by cases hentry), fun entry hentry => (by cases hentry)⟩

theorem preorderValid_cons_iff
    {symbol : RewriteSymbol} {count : Nat} {word : List (RewriteSymbol × Nat)} :
    resolver.PreorderValid objectType ((symbol, count) :: word) ↔
      (if symbol.isOpen then 0 < count else count = symbol.arity) ∧
        resolver.SymbolValid objectType symbol ∧ resolver.PreorderValid objectType word := by
  unfold PreorderValid
  rw [PreorderWord.Fits.cons_iff, List.forall_mem_cons]
  tauto

theorem preorderValid_append_iff
    {word word' : List (RewriteSymbol × Nat)} :
    resolver.PreorderValid objectType (word ++ word') ↔
      resolver.PreorderValid objectType word ∧ resolver.PreorderValid objectType word' := by
  unfold PreorderValid PreorderWord.Fits
  rw [List.forall_mem_append, List.forall_mem_append]
  tauto

mutual

/-- The validator accepts the rewrites whose operands are there and whose names resolve. -/
theorem validateExpression_eq_ok_iff :
    ∀ expression : UsersetExpression,
      resolver.validateExpression objectType owner expression = .ok () ↔
        resolver.PreorderValid objectType expression.preorder
  | .this => by
      rw [UsersetExpression.preorder, preorderValid_cons_iff]
      exact ⟨fun _ => ⟨rfl, trivial, preorderValid_nil⟩, fun _ => rfl⟩
  | .computedUserset relation => by
      rw [UsersetExpression.preorder, preorderValid_cons_iff, validateExpression, bind_eq_ok]
      constructor
      · rintro ⟨found, hfound, _⟩
        exact ⟨rfl, ⟨found, ensureRelationInNamespace_eq_ok_iff.mp hfound⟩, preorderValid_nil⟩
      · rintro ⟨_, ⟨found, hfound⟩, _⟩
        exact ⟨found, ensureRelationInNamespace_eq_ok_iff.mpr hfound, rfl⟩
  | .tupleToUserset tupleset computed => by
      rw [UsersetExpression.preorder, preorderValid_cons_iff, validateExpression, bind_eq_ok]
      constructor
      · rintro ⟨found, hfound, htarget⟩
        exact ⟨rfl, ⟨found, ensureRelationInNamespace_eq_ok_iff.mp hfound,
          validateTupleToUsersetTarget_eq_ok_iff.mp htarget⟩, preorderValid_nil⟩
      · rintro ⟨_, ⟨found, hfound, htarget⟩, _⟩
        exact ⟨found, ensureRelationInNamespace_eq_ok_iff.mpr hfound,
          validateTupleToUsersetTarget_eq_ok_iff.mpr htarget⟩
  | .union expressions => by
      rw [UsersetExpression.preorder, preorderValid_cons_iff, validateExpression,
        unit_bind_eq_ok, validateOperands_eq_ok_iff, validateExpressions_eq_ok_iff expressions]
      exact ⟨fun h => ⟨h.1, trivial, h.2⟩, fun h => ⟨h.1, h.2.2⟩⟩
  | .intersection expressions => by
      rw [UsersetExpression.preorder, preorderValid_cons_iff, validateExpression,
        unit_bind_eq_ok, validateOperands_eq_ok_iff, validateExpressions_eq_ok_iff expressions]
      exact ⟨fun h => ⟨h.1, trivial, h.2⟩, fun h => ⟨h.1, h.2.2⟩⟩
  | .exclusion base exclude => by
      rw [UsersetExpression.preorder, preorderValid_cons_iff, preorderValid_append_iff,
        validateExpression, unit_bind_eq_ok, validateExpression_eq_ok_iff base,
        validateExpression_eq_ok_iff exclude]
      exact ⟨fun h => ⟨rfl, trivial, h⟩, fun h => h.2.2⟩

theorem validateExpressions_eq_ok_iff :
    ∀ expressions : List UsersetExpression,
      resolver.validateExpressions objectType owner expressions = .ok () ↔
        resolver.PreorderValid objectType (UsersetExpression.preorders expressions)
  | [] => ⟨fun _ => preorderValid_nil, fun _ => rfl⟩
  | expression :: rest => by
      rw [UsersetExpression.preorders, preorderValid_append_iff, validateExpressions,
        unit_bind_eq_ok, validateExpression_eq_ok_iff expression,
        validateExpressions_eq_ok_iff rest]

end

mutual

/-- Rewrites whose names resolve are compiled. -/
theorem exists_compileResolvedExpression :
    ∀ expression : UsersetExpression,
      resolver.PreorderValid objectType expression.preorder →
        ∃ compiled, resolver.compileResolvedExpression objectType expression = .ok compiled
  | .this, _ => ⟨_, rfl⟩
  | .computedUserset relation, h => by
      obtain ⟨_, ⟨found, hfound⟩, _⟩ := preorderValid_cons_iff.mp h
      obtain ⟨id, hid, _⟩ := relation_eq_ok_iff.mp hfound
      exact ⟨_, bind_eq_ok.mpr ⟨found, hfound, bind_eq_ok.mpr ⟨id, hid, rfl⟩⟩⟩
  | .tupleToUserset tupleset computed, h => by
      obtain ⟨_, ⟨found, hfound, _⟩, _⟩ := preorderValid_cons_iff.mp h
      obtain ⟨id, hid, _⟩ := relation_eq_ok_iff.mp hfound
      exact ⟨_, bind_eq_ok.mpr ⟨id, hid, rfl⟩⟩
  | .union expressions, h => by
      obtain ⟨_, _, hrest⟩ := preorderValid_cons_iff.mp h
      obtain ⟨compiled, hcompiled⟩ := exists_compileResolvedExpressions expressions hrest
      exact ⟨_, bind_eq_ok.mpr ⟨compiled, hcompiled, rfl⟩⟩
  | .intersection expressions, h => by
      obtain ⟨_, _, hrest⟩ := preorderValid_cons_iff.mp h
      obtain ⟨compiled, hcompiled⟩ := exists_compileResolvedExpressions expressions hrest
      exact ⟨_, bind_eq_ok.mpr ⟨compiled, hcompiled, rfl⟩⟩
  | .exclusion base exclude, h => by
      obtain ⟨_, _, hrest⟩ := preorderValid_cons_iff.mp h
      obtain ⟨hbase, hexclude⟩ := preorderValid_append_iff.mp hrest
      obtain ⟨base', hbase'⟩ := exists_compileResolvedExpression base hbase
      obtain ⟨exclude', hexclude'⟩ := exists_compileResolvedExpression exclude hexclude
      exact ⟨_, bind_eq_ok.mpr ⟨base', hbase', bind_eq_ok.mpr ⟨exclude', hexclude', rfl⟩⟩⟩

theorem exists_compileResolvedExpressions :
    ∀ expressions : List UsersetExpression,
      resolver.PreorderValid objectType (UsersetExpression.preorders expressions) →
        ∃ compiled, resolver.compileResolvedExpressions objectType expressions = .ok compiled
  | [], _ => ⟨_, rfl⟩
  | expression :: rest, h => by
      obtain ⟨hexpression, hrest⟩ := preorderValid_append_iff.mp h
      obtain ⟨compiled, hcompiled⟩ := exists_compileResolvedExpression expression hexpression
      obtain ⟨compiledRest, hcompiledRest⟩ := exists_compileResolvedExpressions rest hrest
      exact ⟨_, bind_eq_ok.mpr ⟨compiled, hcompiled,
        bind_eq_ok.mpr ⟨compiledRest, hcompiledRest, rfl⟩⟩⟩

end

/-- The rewrites of a relation and the names that they use are valid. -/
def RelationValid (resolver : SchemaResolver) (objectType : ObjectType)
    (relation : RelationDefinition) : Prop :=
  ∀ expression, relation.usersetRewrite = some expression →
    resolver.PreorderValid objectType expression.preorder

theorem validateRelations_eq_ok_iff
    {relations : List RelationDefinition} :
    resolver.validateRelations objectType relations = .ok () ↔
      ∀ relation ∈ relations, resolver.RelationValid objectType relation := by
  induction relations with
  | nil => exact ⟨fun _ relation hrelation => (by cases hrelation), fun _ => rfl⟩
  | cons relation rest ih =>
      rw [validateRelations, List.forall_mem_cons, RelationValid]
      cases relation.usersetRewrite with
      | none =>
          refine ih.trans ⟨fun h => ⟨fun expression hnone => (by cases hnone), h⟩, And.right⟩
      | some expression =>
          dsimp only
          rw [unit_bind_eq_ok, ih, validateExpression_eq_ok_iff]
          refine and_congr_left (fun _ => ?_)
          exact ⟨fun h expression' hsome => (Option.some.inj hsome) ▸ h, fun h => h _ rfl⟩

theorem checkRelations_eq_ok_iff
    {seen : List RelationName} {relations : List RelationDefinition} :
    checkRelations objectType seen relations = .ok () ↔
      (relations.map (·.name)).Nodup ∧ ∀ relation ∈ relations, relation.name ∉ seen := by
  induction relations generalizing seen with
  | nil => simp [checkRelations]
  | cons relation rest ih =>
      unfold checkRelations
      split
      · next hseen => simp [hseen]
      · next hseen =>
          rw [ih, List.map_cons, List.nodup_cons, List.forall_mem_cons]
          simp only [List.mem_cons, not_or, List.mem_map, not_exists, not_and]
          constructor
          · rintro ⟨hnodup, hrest⟩
            exact ⟨⟨fun other hother => (hrest other hother).1, hnodup⟩, hseen,
              fun other hother => (hrest other hother).2⟩
          · rintro ⟨⟨hfresh, hnodup⟩, _, hrest⟩
            exact ⟨hnodup, fun other hother => ⟨hfresh other hother, hrest other hother⟩⟩

theorem checkNamespaces_eq_ok_iff
    {seen : List ObjectType} {definitions : List NamespaceDefinition} :
    checkNamespaces seen definitions = .ok () ↔
      NamesDistinct definitions ∧ ∀ definition ∈ definitions, definition.name ∉ seen := by
  induction definitions generalizing seen with
  | nil => simp [checkNamespaces, namesDistinct_iff]
  | cons definition rest ih =>
      unfold checkNamespaces
      split
      · next hseen => simp [hseen]
      · next hseen =>
          rw [unit_bind_eq_ok, ih, checkRelations_eq_ok_iff, namesDistinct_iff,
            namesDistinct_iff, List.map_cons, List.nodup_cons, List.forall_mem_cons,
            List.forall_mem_cons]
          simp only [List.mem_cons, not_or, List.mem_map, not_exists, not_and, List.not_mem_nil,
            not_false_eq_true, implies_true, and_true]
          constructor
          · rintro ⟨hrelations, ⟨hnodup, hall⟩, hrest⟩
            exact ⟨⟨⟨fun other hother => (hrest other hother).1, hnodup⟩, hrelations, hall⟩,
              hseen, fun other hother => (hrest other hother).2⟩
          · rintro ⟨⟨⟨hfresh, hnodup⟩, hrelations, hall⟩, _, hrest⟩
            exact ⟨hrelations, ⟨hnodup, hall⟩,
              fun other hother => ⟨hfresh other hother, hrest other hother⟩⟩

theorem validateReferences_eq_ok_iff
    {definitions : List NamespaceDefinition} :
    resolver.validateReferences definitions = .ok () ↔
      ∀ definition ∈ definitions, (definition.relations.map (·.name)).Nodup ∧
        ∀ relation ∈ definition.relations, resolver.RelationValid definition.name relation := by
  induction definitions with
  | nil => exact ⟨fun _ definition hdefinition => (by cases hdefinition), fun _ => rfl⟩
  | cons definition rest ih =>
      rw [validateReferences, unit_bind_eq_ok, unit_bind_eq_ok, ih, checkRelations_eq_ok_iff,
        validateRelations_eq_ok_iff, List.forall_mem_cons, and_assoc]
      simp only [List.not_mem_nil, not_false_eq_true, implies_true, true_and, and_assoc]

theorem exists_compileResolvedRelations
    {relations : List RelationDefinition}
    (h : ∀ relation ∈ relations, resolver.RelationValid objectType relation) :
    ∃ compiled, resolver.compileResolvedRelations objectType relations = .ok compiled := by
  induction relations with
  | nil => exact ⟨_, rfl⟩
  | cons relation rest ih =>
      obtain ⟨hrelation, hrest⟩ := List.forall_mem_cons.mp h
      obtain ⟨compiledRest, hcompiledRest⟩ := ih hrest
      have hrewrite : ∃ compiled,
          resolver.compileRewrite objectType relation.usersetRewrite = .ok compiled := by
        cases hsome : relation.usersetRewrite with
        | none => exact ⟨_, rfl⟩
        | some expression =>
            obtain ⟨compiled, hcompiled⟩ :=
              exists_compileResolvedExpression expression (hrelation expression hsome)
            exact ⟨_, bind_eq_ok.mpr ⟨compiled, hcompiled, rfl⟩⟩
      obtain ⟨compiled, hcompiled⟩ := hrewrite
      exact ⟨_, bind_eq_ok.mpr ⟨compiled, hcompiled,
        bind_eq_ok.mpr ⟨compiledRest, hcompiledRest, rfl⟩⟩⟩

theorem exists_compileResolvedDefinitions
    {definitions : List NamespaceDefinition}
    (h : ∀ definition ∈ definitions, ∀ relation ∈ definition.relations,
      resolver.RelationValid definition.name relation) :
    ∃ compiled, resolver.compileResolvedDefinitions definitions = .ok compiled := by
  induction definitions with
  | nil => exact ⟨_, rfl⟩
  | cons definition rest ih =>
      obtain ⟨hdefinition, hrest⟩ := List.forall_mem_cons.mp h
      obtain ⟨relations, hrelations⟩ := exists_compileResolvedRelations hdefinition
      obtain ⟨compiledRest, hcompiledRest⟩ := ih hrest
      exact ⟨_, bind_eq_ok.mpr ⟨relations, hrelations,
        bind_eq_ok.mpr ⟨compiledRest, hcompiledRest, rfl⟩⟩⟩

end SchemaResolver

/-! ## Compiling keeps the definitions -/

/-- The second relation is the first up to its compiled rewrite. -/
def RelationDefinition.Kept (relation compiled : RelationDefinition) : Prop :=
  compiled = { relation with compiledUsersetRewrite := compiled.compiledUsersetRewrite }

structure NamespaceDefinition.Kept (definition compiled : NamespaceDefinition) : Prop where
  name : compiled.name = definition.name
  relations : List.Forall₂ RelationDefinition.Kept definition.relations compiled.relations

namespace SchemaResolver

theorem compileResolvedRelations_kept
    {resolver : SchemaResolver} {objectType : ObjectType}
    {relations compiled : List RelationDefinition}
    (h : resolver.compileResolvedRelations objectType relations = .ok compiled) :
    List.Forall₂ RelationDefinition.Kept relations compiled := by
  induction relations generalizing compiled with
  | nil =>
      cases h
      exact List.Forall₂.nil
  | cons relation rest ih =>
      obtain ⟨rewrite, _, h⟩ := bind_eq_ok.mp h
      obtain ⟨restCompiled, hrest, h⟩ := bind_eq_ok.mp h
      cases h
      exact List.Forall₂.cons rfl (ih hrest)

theorem compileResolvedDefinitions_kept
    {resolver : SchemaResolver} {definitions compiled : List NamespaceDefinition}
    (h : resolver.compileResolvedDefinitions definitions = .ok compiled) :
    List.Forall₂ NamespaceDefinition.Kept definitions compiled := by
  induction definitions generalizing compiled with
  | nil =>
      cases h
      exact List.Forall₂.nil
  | cons definition rest ih =>
      obtain ⟨relations, hrelations, h⟩ := bind_eq_ok.mp h
      obtain ⟨restCompiled, hrest, h⟩ := bind_eq_ok.mp h
      cases h
      exact List.Forall₂.cons ⟨rfl, compileResolvedRelations_kept hrelations⟩ (ih hrest)

end SchemaResolver

/-! ## Definitions that differ in operand counts only -/

/-- The relations agree in all but the operand counts of their rewrites, which are valid. -/
structure RelationDefinition.Alike (left right : RelationDefinition) : Prop where
  name : right.name = left.name
  subjects : right.allowedSubjectTypes = left.allowedSubjectTypes
  rewrite : SchemaHash.SameSymbols left.usersetRewrite right.usersetRewrite
  fits : (∀ expression, left.usersetRewrite = some expression → expression.Fits) →
    ∀ expression, right.usersetRewrite = some expression → expression.Fits

structure NamespaceDefinition.Alike (left right : NamespaceDefinition) : Prop where
  name : right.name = left.name
  relations : List.Forall₂ RelationDefinition.Alike left.relations right.relations

theorem RelationDefinition.Kept.alike
    {relation compiled : RelationDefinition}
    (h : relation.Kept compiled) :
    relation.Alike compiled := by
  rw [h]
  exact ⟨rfl, rfl, rfl, fun hfits => hfits⟩

theorem RelationDefinition.Alike.trans
    {a b c : RelationDefinition}
    (hab : a.Alike b)
    (hbc : b.Alike c) :
    a.Alike c :=
  ⟨hbc.name.trans hab.name, hbc.subjects.trans hab.subjects, hab.rewrite.trans hbc.rewrite,
    fun hfits => hbc.fits (hab.fits hfits)⟩

theorem forall₂_trans
    {α : Type} {R : α → α → Prop}
    (htrans : ∀ a b c, R a b → R b c → R a c)
    {as bs cs : List α}
    (h : List.Forall₂ R as bs)
    (h' : List.Forall₂ R bs cs) :
    List.Forall₂ R as cs := by
  induction h generalizing cs with
  | nil =>
      cases h'
      exact List.Forall₂.nil
  | cons hab _ ih =>
      cases h' with
      | cons hbc hrest => exact List.Forall₂.cons (htrans _ _ _ hab hbc) (ih hrest)

theorem NamespaceDefinition.Alike.trans
    {a b c : NamespaceDefinition}
    (hab : a.Alike b)
    (hbc : b.Alike c) :
    a.Alike c :=
  ⟨hbc.name.trans hab.name,
    forall₂_trans (R := RelationDefinition.Alike) (fun _ _ _ => RelationDefinition.Alike.trans)
      hab.relations hbc.relations⟩

theorem NamespaceDefinition.Kept.alike
    {definition compiled : NamespaceDefinition}
    (h : definition.Kept compiled) :
    definition.Alike compiled :=
  ⟨h.name, h.relations.imp (fun _ _ hkept => hkept.alike)⟩

theorem map_name_of_alike
    {relations relations' : List RelationDefinition}
    (h : List.Forall₂ RelationDefinition.Alike relations relations') :
    relations'.map (·.name) = relations.map (·.name) := by
  induction h with
  | nil => rfl
  | cons halike _ ih => rw [List.map_cons, List.map_cons, ih, halike.name]

/-- The names stay distinct. -/
theorem NamesDistinct.of_alike
    {definitions definitions' : List NamespaceDefinition}
    (hdistinct : NamesDistinct definitions)
    (h : List.Forall₂ NamespaceDefinition.Alike definitions definitions') :
    NamesDistinct definitions' := by
  have hnames : definitions'.map (·.name) = definitions.map (·.name) := by
    clear hdistinct
    induction h with
    | nil => rfl
    | cons halike _ ih => rw [List.map_cons, List.map_cons, ih, halike.name]
  refine ⟨hnames ▸ hdistinct.namespaces, ?_⟩
  intro definition' hdefinition'
  obtain ⟨definition, hdefinition, halike⟩ := h.exists_left hdefinition'
  rw [map_name_of_alike halike.relations]
  exact hdistinct.relations definition hdefinition

namespace CompiledSchema

theorem new_eq_ok_iff
    {definitions : List NamespaceDefinition} {schema : CompiledSchema} :
    new definitions = .ok schema ↔
      NamesDistinct definitions ∧ schema = ⟨definitions, ⟨definitions⟩⟩ := by
  have hcheck : SchemaResolver.checkNamespaces [] definitions = .ok () ↔
      NamesDistinct definitions := by
    rw [SchemaResolver.checkNamespaces_eq_ok_iff]
    exact ⟨And.left, fun h => ⟨h, fun _ _ => List.not_mem_nil⟩⟩
  rw [← hcheck]
  constructor
  · intro h
    obtain ⟨resolver, hresolver, h⟩ := bind_eq_ok.mp h
    obtain ⟨_, hchecked, hresolver⟩ := bind_eq_ok.mp hresolver
    cases hresolver
    cases h
    exact ⟨hchecked, rfl⟩
  · rintro ⟨hchecked, rfl⟩
    exact bind_eq_ok.mpr ⟨_, bind_eq_ok.mpr ⟨(), hchecked, rfl⟩, rfl⟩

/-- The definitions have distinct names and valid rewrites. -/
structure Valid (definitions : List NamespaceDefinition) : Prop where
  distinct : NamesDistinct definitions
  rewrites : ∀ definition ∈ definitions, ∀ relation ∈ definition.relations,
    SchemaResolver.RelationValid ⟨definitions⟩ definition.name relation

/-- What the compiler returns for valid definitions. -/
theorem fromDefinitions_eq_ok
    {definitions : List NamespaceDefinition} {schema : CompiledSchema}
    (h : fromDefinitions definitions = .ok schema) :
    Valid definitions ∧ schema.resolver = ⟨schema.definitions⟩ ∧
      List.Forall₂ NamespaceDefinition.Kept definitions schema.definitions ∧
      NamesDistinct schema.definitions := by
  obtain ⟨first, hfirst, h⟩ := bind_eq_ok.mp h
  obtain ⟨_, hreferences, h⟩ := bind_eq_ok.mp h
  obtain ⟨resolved, hresolved, hnew⟩ := bind_eq_ok.mp h
  obtain ⟨hdistinct, rfl⟩ := new_eq_ok_iff.mp hfirst
  obtain ⟨hdistinct', rfl⟩ := new_eq_ok_iff.mp hnew
  have hvalid := SchemaResolver.validateReferences_eq_ok_iff.mp hreferences
  exact ⟨⟨hdistinct, fun definition hdefinition => (hvalid definition hdefinition).2⟩, rfl,
    SchemaResolver.compileResolvedDefinitions_kept hresolved, hdistinct'⟩

/-- The compiler accepts exactly the valid definitions. -/
theorem exists_fromDefinitions_iff
    {definitions : List NamespaceDefinition} :
    (∃ schema, fromDefinitions definitions = .ok schema) ↔ Valid definitions := by
  constructor
  · rintro ⟨schema, h⟩
    exact (fromDefinitions_eq_ok h).1
  · intro hvalid
    obtain ⟨resolved, hresolved⟩ :=
      SchemaResolver.exists_compileResolvedDefinitions hvalid.rewrites
    have hdistinct := hvalid.distinct.of_alike
      ((SchemaResolver.compileResolvedDefinitions_kept hresolved).imp (fun _ _ h => h.alike))
    have hreferences : SchemaResolver.validateReferences ⟨definitions⟩ definitions = .ok () :=
      SchemaResolver.validateReferences_eq_ok_iff.mpr (fun definition hdefinition =>
        ⟨hvalid.distinct.relations definition hdefinition,
          hvalid.rewrites definition hdefinition⟩)
    exact ⟨_, bind_eq_ok.mpr ⟨_, new_eq_ok_iff.mpr ⟨hvalid.distinct, rfl⟩,
      bind_eq_ok.mpr ⟨(), hreferences, bind_eq_ok.mpr ⟨resolved, hresolved,
        new_eq_ok_iff.mpr ⟨hdistinct, rfl⟩⟩⟩⟩⟩

end CompiledSchema

namespace SchemaResolver

variable {definitions definitions' : List NamespaceDefinition}

theorem relationIndex_of_alike
    {definition definition' : NamespaceDefinition}
    (h : definition.Alike definition')
    (name : RelationName) :
    relationIndex definition' name = relationIndex definition name := by
  refine (findIdx?_eq_of_forall₂ h.relations ?_).symm
  intro relation relation' hrelation
  rw [hrelation.name]

/-- Names resolve alike in alike definitions. -/
theorem relation_of_alike
    (h : List.Forall₂ NamespaceDefinition.Alike definitions definitions')
    {objectType : ObjectType} {name : RelationName} {found : RelationDefinition}
    (hfound : SchemaResolver.relation ⟨definitions⟩ objectType name = .ok found) :
    ∃ found', SchemaResolver.relation ⟨definitions'⟩ objectType name = .ok found' ∧
      found.Alike found' := by
  have hindex : namespaceIndex ⟨definitions'⟩ objectType =
      namespaceIndex ⟨definitions⟩ objectType := by
    refine (findIdx?_eq_of_forall₂ h ?_).symm
    intro definition definition' hdefinition
    rw [hdefinition.name]
  obtain ⟨definition, hdefinition, hfound⟩ := bind_eq_ok.mp hfound
  unfold findNamespace at hdefinition
  split at hdefinition
  · next definition₀ hsome =>
      cases hdefinition
      obtain ⟨i, hi, hget⟩ := Option.bind_eq_some_iff.mp hsome
      obtain ⟨definition', hget', halike⟩ := exists_getElem?_of_forall₂ h.flip hget
      split at hfound
      · next found₀ hsome' =>
          cases hfound
          obtain ⟨j, hj, hentry⟩ := Option.bind_eq_some_iff.mp hsome'
          obtain ⟨found', hentry', hrelation⟩ :=
            exists_getElem?_of_forall₂ halike.relations.flip hentry
          refine ⟨found', bind_eq_ok.mpr ⟨definition', ?_, ?_⟩, hrelation⟩
          · unfold findNamespace
            rw [hindex, hi]
            simp only [Option.bind_some]
            rw [hget']
          · rw [relationIndex_of_alike halike, hj]
            simp only [Option.bind_some]
            rw [hentry']
      · cases hfound
  · cases hdefinition

theorem relationExistsAnywhere_of_alike
    (h : List.Forall₂ NamespaceDefinition.Alike definitions definitions')
    (name : RelationName) :
    relationExistsAnywhere ⟨definitions'⟩ name = relationExistsAnywhere ⟨definitions⟩ name := by
  unfold relationExistsAnywhere
  dsimp only
  induction h with
  | nil => rfl
  | cons halike _ ih =>
      rw [List.any_cons, List.any_cons, ih, relationIndex_of_alike halike]

theorem symbolValid_of_alike
    (h : List.Forall₂ NamespaceDefinition.Alike definitions definitions')
    {objectType : ObjectType} {symbol : RewriteSymbol}
    (hvalid : SymbolValid ⟨definitions⟩ objectType symbol) :
    SymbolValid ⟨definitions'⟩ objectType symbol := by
  cases symbol with
  | computedUserset relation =>
      obtain ⟨found, hfound⟩ := hvalid
      obtain ⟨found', hfound', _⟩ := relation_of_alike h hfound
      exact ⟨found', hfound'⟩
  | tupleToUserset tupleset computed =>
      obtain ⟨found, hfound, htarget⟩ := hvalid
      obtain ⟨found', hfound', halike⟩ := relation_of_alike h hfound
      refine ⟨found', hfound', ?_⟩
      rw [halike.subjects]
      cases hallowed : found.allowedSubjectTypes with
      | unspecified =>
          rw [hallowed] at htarget
          exact (relationExistsAnywhere_of_alike h computed).trans htarget
      | explicit objectTypes =>
          rw [hallowed] at htarget
          intro target hmem
          obtain ⟨other, hother⟩ := htarget target hmem
          obtain ⟨other', hother', _⟩ := relation_of_alike h hother
          exact ⟨other', hother'⟩
  | this => trivial
  | union => trivial
  | intersection => trivial
  | exclusion => trivial

/-- Validity does not depend on the operand counts. -/
theorem relationValid_of_alike
    (h : List.Forall₂ NamespaceDefinition.Alike definitions definitions')
    {objectType : ObjectType} {relation relation' : RelationDefinition}
    (halike : relation.Alike relation')
    (hvalid : RelationValid ⟨definitions⟩ objectType relation) :
    RelationValid ⟨definitions'⟩ objectType relation' := by
  intro expression' hexpression'
  refine ⟨halike.fits (fun expression hexpression => (hvalid expression hexpression).1)
    expression' hexpression', ?_⟩
  intro entry hentry
  have hrewrite := halike.rewrite
  unfold SchemaHash.SameSymbols at hrewrite
  rw [hexpression'] at hrewrite
  obtain ⟨expression, hexpression, hsymbols⟩ := Option.map_eq_some_iff.mp hrewrite
  have hmem : entry.1 ∈ expression.symbols := by
    rw [hsymbols]
    exact List.mem_map_of_mem hentry
  obtain ⟨entry', hentry', hsame⟩ := List.mem_map.mp hmem
  rw [← hsame]
  exact symbolValid_of_alike h ((hvalid expression hexpression).2 entry' hentry')

end SchemaResolver

namespace CompiledSchema

/-- The compiler accepts definitions that are like accepted ones. -/
theorem Valid.of_alike
    {definitions definitions' : List NamespaceDefinition}
    (hvalid : Valid definitions)
    (h : List.Forall₂ NamespaceDefinition.Alike definitions definitions') :
    Valid definitions' := by
  refine ⟨hvalid.distinct.of_alike h, ?_⟩
  intro definition' hdefinition' relation' hrelation'
  obtain ⟨definition, hdefinition, halike⟩ := h.exists_left hdefinition'
  obtain ⟨relation, hrelation, hrelations⟩ := halike.relations.exists_left hrelation'
  rw [halike.name]
  exact SchemaResolver.relationValid_of_alike h hrelations
    (hvalid.rewrites definition hdefinition relation hrelation)

/-- The definitions of an accepted schema are valid themselves. -/
theorem Accepted.valid
    {schema : CompiledSchema}
    (haccepted : schema.Accepted) :
    Valid schema.definitions := by
  obtain ⟨definitions, hschema⟩ := haccepted
  obtain ⟨hvalid, _, hkept, _⟩ := fromDefinitions_eq_ok hschema
  exact hvalid.of_alike (hkept.imp (fun _ _ h => h.alike))

end CompiledSchema

/-! ## When the hash identifies the schema -/

theorem UpToOrder.imp_of_mem
    {α : Type} {R S : α → α → Prop} {as bs : List α}
    (h : UpToOrder R as bs)
    (himp : ∀ a ∈ as, ∀ b ∈ bs, R a b → S a b) :
    UpToOrder S as bs := by
  obtain ⟨cs, hperm, hcs⟩ := h
  exact ⟨cs, hperm, forall₂_imp_of_mem hcs (fun c hc => himp c (hperm.mem_iff.mpr hc))⟩

theorem UpToOrder.exists_right
    {α : Type} {R : α → α → Prop} {as bs : List α}
    (h : UpToOrder R as bs)
    {a : α}
    (ha : a ∈ as) :
    ∃ b ∈ bs, R a b := by
  obtain ⟨cs, hperm, hcs⟩ := h
  exact hcs.exists_right (hperm.mem_iff.mp ha)

theorem AllowedSubjectTypes.same_refl
    (subjects : AllowedSubjectTypes) :
    subjects.Same subjects := by
  cases subjects with
  | unspecified => trivial
  | explicit subjects => exact List.Perm.refl subjects

namespace SchemaHash

/-- Every rewrite of the schema is the only one with its nodes in preorder. -/
def Tight (schema : CompiledSchema) : Prop :=
  ∀ definition ∈ schema.definitions, ∀ relation ∈ definition.relations,
    ∀ expression, relation.usersetRewrite = some expression → expression.tight = true

theorem sameSymbols_of_eq
    {left right : CompiledSchema}
    (h : left.Same Eq right) :
    left.Same SameSymbols right := by
  refine h.imp_of_mem (fun definition _ definition' _ hsame => ⟨hsame.name, ?_⟩)
  refine hsame.relations.imp_of_mem (fun relation _ relation' _ hrelation => ?_)
  exact ⟨hrelation.name, hrelation.subjects, congrArg _ hrelation.rewrite⟩

/-- Tight rewrites with the same nodes are the same. -/
theorem eq_of_sameSymbols
    {left right : CompiledSchema}
    (hleft : left.Accepted)
    (hright : right.Accepted)
    (htight : Tight left)
    (h : left.Same SameSymbols right) :
    left.Same Eq right := by
  refine h.imp_of_mem (fun definition hdefinition definition' hdefinition' hsame =>
    ⟨hsame.name, ?_⟩)
  refine hsame.relations.imp_of_mem (fun relation hrelation relation' hrelation' hboth =>
    ⟨hboth.name, hboth.subjects, ?_⟩)
  have hrewrite := hboth.rewrite
  unfold SameSymbols at hrewrite
  cases hexpression : relation.usersetRewrite with
  | none =>
      rw [hexpression] at hrewrite
      exact (Option.map_eq_none_iff.mp hrewrite.symm).symm
  | some expression =>
      rw [hexpression] at hrewrite
      obtain ⟨expression', hexpression', hsymbols⟩ := Option.map_eq_some_iff.mp hrewrite.symm
      rw [hexpression']
      refine congrArg some (UsersetExpression.eq_of_symbols
        (htight definition hdefinition relation hrelation expression hexpression) ?_ ?_
        hsymbols.symm)
      · exact (hleft.valid.rewrites definition hdefinition relation hrelation expression
          hexpression).1
      · exact (hright.valid.rewrites definition' hdefinition' relation' hrelation' expression'
          hexpression').1

theorem same_of_alike
    {left right : CompiledSchema}
    (h : List.Forall₂ NamespaceDefinition.Alike left.definitions right.definitions) :
    left.Same SameSymbols right := by
  refine ⟨left.definitions, List.Perm.refl _, h.imp (fun definition definition' halike => ?_)⟩
  refine ⟨halike.name.symm, definition.relations, List.Perm.refl _,
    halike.relations.imp (fun relation relation' hrelation => ?_)⟩
  refine ⟨hrelation.name.symm, ?_, hrelation.rewrite⟩
  rw [hrelation.subjects]
  exact AllowedSubjectTypes.same_refl _

theorem plain_of_alike
    {left right : CompiledSchema}
    (h : List.Forall₂ NamespaceDefinition.Alike left.definitions right.definitions)
    (hplain : Plain left) :
    Plain right := by
  intro definition' hdefinition' relation' hrelation'
  obtain ⟨definition, hdefinition, halike⟩ := h.exists_left hdefinition'
  obtain ⟨relation, hrelation, hboth⟩ := halike.relations.exists_left hrelation'
  rw [hboth.subjects]
  exact hplain definition hdefinition relation hrelation

/-- The definitions with the rewrite of one relation replaced. -/
def replaceRewrite (objectType : ObjectType) (name : RelationName)
    (expression : UsersetExpression) (definition : NamespaceDefinition) : NamespaceDefinition :=
  if definition.name = objectType then
    ⟨definition.name, definition.relations.map (fun relation =>
      if relation.name = name then { relation with usersetRewrite := some expression }
      else relation)⟩
  else definition

/-- Replacing a rewrite by one with the same nodes keeps the definitions alike. -/
theorem alike_replaceRewrite
    {definitions : List NamespaceDefinition}
    (hdistinct : NamesDistinct definitions)
    {definition : NamespaceDefinition} {relation : RelationDefinition}
    {expression other : UsersetExpression}
    (hdefinition : definition ∈ definitions)
    (hrelation : relation ∈ definition.relations)
    (hexpression : relation.usersetRewrite = some expression)
    (hfits : other.Fits)
    (hsymbols : other.symbols = expression.symbols) :
    List.Forall₂ NamespaceDefinition.Alike definitions
      (definitions.map (replaceRewrite definition.name relation.name other)) := by
  rw [List.forall₂_map_right_iff, List.forall₂_same]
  intro candidate hcandidate
  unfold replaceRewrite
  split
  · next hname =>
      have hsame : candidate = definition :=
        List.inj_on_of_nodup_map hdistinct.namespaces hcandidate hdefinition hname
      subst hsame
      refine ⟨rfl, ?_⟩
      rw [List.forall₂_map_right_iff, List.forall₂_same]
      intro member hmember
      split
      · next hmemberName =>
          have hboth : member = relation := List.inj_on_of_nodup_map
            (hdistinct.relations candidate hdefinition) hmember hrelation hmemberName
          subst hboth
          refine ⟨rfl, rfl, ?_, ?_⟩
          · unfold SameSymbols
            rw [hexpression]
            exact congrArg some hsymbols.symm
          · intro _ expression' hexpression'
            cases hexpression'
            exact hfits
      · exact ⟨rfl, rfl, rfl, fun h => h⟩
  · refine ⟨rfl, ?_⟩
    rw [List.forall₂_same]
    intro member _
    exact ⟨rfl, rfl, rfl, fun h => h⟩

/-- An accepted schema with a rewrite that is not tight has the words of another one. -/
theorem exists_collision
    {schema : CompiledSchema}
    (haccepted : schema.Accepted)
    (hplain : Plain schema)
    (htight : ¬ Tight schema) :
    ∃ other : CompiledSchema, other.Accepted ∧ Plain other ∧
      schema.Same SameSymbols other ∧ ¬ schema.Same Eq other := by
  unfold Tight at htight
  push Not at htight
  obtain ⟨definition, hdefinition, relation, hrelation, expression, hexpression, hnot⟩ := htight
  have hvalid := haccepted.valid
  obtain ⟨other, hne, hfits, hsymbols⟩ := UsersetExpression.exists_other_of_not_tight
    (Bool.not_eq_true _ ▸ hnot)
    (hvalid.rewrites definition hdefinition relation hrelation expression hexpression).1
  have hreplaced := alike_replaceRewrite hvalid.distinct hdefinition hrelation hexpression hfits
    hsymbols
  obtain ⟨result, hresult⟩ :=
    CompiledSchema.exists_fromDefinitions_iff.mpr (hvalid.of_alike hreplaced)
  obtain ⟨_, _, hkept, _⟩ := CompiledSchema.fromDefinitions_eq_ok hresult
  have halike := forall₂_trans (R := NamespaceDefinition.Alike)
    (fun _ _ _ => NamespaceDefinition.Alike.trans) hreplaced (hkept.imp (fun _ _ h => h.alike))
  refine ⟨result, ⟨_, hresult⟩, plain_of_alike halike hplain, same_of_alike halike, ?_⟩
  intro hsame
  obtain ⟨definition', hdefinition', hdefinitions⟩ := hsame.exists_right hdefinition
  obtain ⟨relation', hrelation', hrelations⟩ := hdefinitions.relations.exists_right hrelation
  obtain ⟨source, hsource, hsourceKept⟩ := hkept.exists_left hdefinition'
  obtain ⟨candidate, _, rfl⟩ := List.mem_map.mp hsource
  obtain ⟨member, hmember, hmemberKept⟩ := hsourceKept.relations.exists_left hrelation'
  have hname : member.name = relation.name := by
    rw [hrelations.name, hmemberKept]
  have hrewrite : member.usersetRewrite = some expression := by
    rw [← hexpression, hrelations.rewrite, hmemberKept]
  refine hne ?_
  unfold replaceRewrite at hmember hsourceKept
  split at hmember
  · obtain ⟨original, _, rfl⟩ := List.mem_map.mp hmember
    split at hrewrite
    · exact Option.some.inj hrewrite
    · next hother =>
        rw [if_neg hother] at hname
        exact absurd hname hother
  · next hother =>
      rw [if_neg hother] at hsourceKept
      exact absurd (hsourceKept.name.symm.trans hdefinitions.name.symm) hother

/-- Among the schemas with plain subject types, the hash of an accepted schema is shared with
the same schemas only iff every rewrite is tight. -/
theorem identifies_iff_tight
    [Blake3] (hinjective : Function.Injective Blake3.finalize)
    {schema : CompiledSchema}
    (haccepted : schema.Accepted)
    (hplain : Plain schema) :
    (∀ other : CompiledSchema, other.Accepted → Plain other →
      (forSchema schema = forSchema other ↔ schema.Same Eq other)) ↔ Tight schema := by
  have hequal : ∀ other : CompiledSchema, other.Accepted → Plain other →
      (forSchema schema = forSchema other ↔ schema.Same SameSymbols other) :=
    fun other hother hotherPlain => forSchema_eq_iff hinjective hplain hotherPlain
      haccepted.valid.distinct hother.valid.distinct
  constructor
  · intro h
    by_contra htight
    obtain ⟨other, hother, hotherPlain, hsymbols, hdifferent⟩ :=
      exists_collision haccepted hplain htight
    have hhash := (hequal other hother hotherPlain).mpr hsymbols
    exact hdifferent ((h other hother hotherPlain).mp hhash)
  · intro htight other hother hotherPlain
    rw [hequal other hother hotherPlain]
    exact ⟨eq_of_sameSymbols haccepted hother htight, sameSymbols_of_eq⟩

/-- Every rewrite of a schema is found in the same schemas. -/
theorem exists_rewrite_of_same
    {left right : CompiledSchema}
    (h : left.Same Eq right) :
    ∀ definition ∈ left.definitions, ∀ relation ∈ definition.relations,
      ∃ definition' ∈ right.definitions, ∃ relation' ∈ definition'.relations,
        relation.usersetRewrite = relation'.usersetRewrite := by
  intro definition hdefinition relation hrelation
  obtain ⟨definition', hdefinition', hsame⟩ := h.exists_right hdefinition
  obtain ⟨relation', hrelation', hboth⟩ := hsame.relations.exists_right hrelation
  exact ⟨definition', hdefinition', relation', hrelation', hboth.rewrite⟩

/-- A digest that keeps all bytes. -/
@[reducible] def identityBlake3 : Blake3 :=
  ⟨List UInt8, inferInstance, id⟩

/-- One namespace with an owner relation and a viewer relation with the rewrite. -/
def viewerDefinitions (rewrite : UsersetExpression) : List NamespaceDefinition :=
  [⟨(objectLit "doc" "1").objectType,
    [RelationDefinition.new (relationLit "owner") none,
      RelationDefinition.new (relationLit "viewer") (some rewrite)]⟩]

/-- The compiled schema of the namespace above. -/
def viewerSchema (rewrite : UsersetExpression) : CompiledSchema :=
  ((CompiledSchema.fromDefinitions (viewerDefinitions rewrite)).toOption).getD ⟨[], ⟨[]⟩⟩

/-- The rewrite `this + owner`. -/
def thisOrOwner : UsersetExpression :=
  .union [.this, .computedUserset (relationLit "owner")]

theorem identifies_iff_tight_viewer :
    letI := identityBlake3
    (∀ other : CompiledSchema, other.Accepted → Plain other →
      (forSchema (viewerSchema thisOrOwner) = forSchema other ↔
        (viewerSchema thisOrOwner).Same Eq other)) ↔
      Tight (viewerSchema thisOrOwner) := by
  let _ := identityBlake3
  refine identifies_iff_tight (fun _ _ h => h) ⟨viewerDefinitions thisOrOwner, by decide⟩ ?_
  unfold Plain
  decide

/-- An intersection of one operand beside the owner. -/
def ownerOutside : UsersetExpression :=
  .union [.intersection [.this], .computedUserset (relationLit "owner")]

/-- An intersection with the owner. -/
def ownerInside : UsersetExpression :=
  .union [.intersection [.this, .computedUserset (relationLit "owner")]]

/-- The end of the operands of an intersection is not in the stream. -/
theorem forSchema_operand_moves_out :
    letI := identityBlake3
    Function.Injective Blake3.finalize ∧
      (viewerSchema ownerOutside).Accepted ∧ (viewerSchema ownerInside).Accepted ∧
      ¬ (forSchema (viewerSchema ownerOutside) = forSchema (viewerSchema ownerInside) ↔
        (viewerSchema ownerOutside).Same Eq (viewerSchema ownerInside)) := by
  let _ := identityBlake3
  have hhash : forSchema (viewerSchema ownerOutside) = forSchema (viewerSchema ownerInside) := by
    decide +kernel
  refine ⟨fun _ _ h => h, ⟨viewerDefinitions ownerOutside, by decide⟩,
    ⟨viewerDefinitions ownerInside, by decide⟩, ?_⟩
  intro hiff
  have hrewrites := exists_rewrite_of_same (hiff.mp hhash)
  revert hrewrites
  decide +kernel

end SchemaHash

end SimpleZanzibar
