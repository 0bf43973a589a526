import SimpleZanzibar.Eval.Congruence
import SimpleZanzibar.Eval.Frames
import SimpleZanzibar.Eval.LookupResources
import SimpleZanzibar.Lib.Points

/-!
# The index of active keys mirrors the stacks

Checks and expansions open and close keys on one context.  In every state on the way the index
answers what the stacks hold, and an evaluation leaves the stacks and the remaining depth as it
found them, also when it fails; the frame outside may have recorded a depth.

**Results.**
* `EvaluationContext.Indexed`, `EvaluationContext.Restores`: the invariant of every state, and
  what an evaluation restores.
* `EvaluationContext.Move`: the updates of a context.
* `Evaluation.balanced_check`, `Evaluation.balanced_expand`: the evaluations.
-/

namespace SimpleZanzibar

namespace EvaluationContext

/-- The stack of expansions with its marks. -/
def expandIndex (context : EvaluationContext) : ActiveIndex ExpandKey where
  stack := context.expandStack
  marks := context.activeExpands
  generation := context.generation
  indexed := context.useActiveIndexes

/-- A push of an expansion is a push on its index. -/
theorem expandIndex_pushExpandKey
    (context : EvaluationContext) (key : ExpandKey) :
    (context.pushExpandKey key).expandIndex = context.expandIndex.push key := by
  unfold pushExpandKey ActiveIndex.push expandIndex
  dsimp only
  split
  · split <;> rfl
  · rfl

theorem deactivateExpandKey_eq
    (context : EvaluationContext) (key : ExpandKey) :
    context.deactivateExpandKey key =
      { context with activeExpands := context.expandIndex.withdrawn key } := by
  unfold deactivateExpandKey ActiveIndex.withdrawn expandIndex
  cases hlookup : context.activeExpands.lookup key with
  | none => rfl
  | some mark =>
      by_cases hgeneration : mark.generation = context.generation
      · simp only [if_pos hgeneration]
      · simp only [if_neg hgeneration]

/-- A pop of an expansion is a pop on its index. -/
theorem expandIndex_popExpandKey
    (context : EvaluationContext) :
    context.popExpandKey.expandIndex = context.expandIndex.pop := by
  obtain ⟨_, _, _, _, _, _, _, _, stack, _, _⟩ := context
  cases stack with
  | nil => rfl
  | cons key rest => exact congrArg expandIndex (deactivateExpandKey_eq _ key)

/-- The rest of the context stays with a push of an expansion. -/
theorem pushExpandKey_eq
    (context : EvaluationContext) (key : ExpandKey) :
    ∃ active, context.pushExpandKey key =
      { context with activeExpands := active, expandStack := key :: context.expandStack } := by
  unfold pushExpandKey rebuildActiveExpands
  dsimp only
  split
  · split <;> exact ⟨_, rfl⟩
  · exact ⟨_, rfl⟩

theorem popExpandKey_eq
    {context : EvaluationContext} {key : ExpandKey} {rest : List ExpandKey}
    (hstack : context.expandStack = key :: rest) :
    ∃ active, context.popExpandKey =
      { context with activeExpands := active, expandStack := rest } := by
  refine ⟨context.expandIndex.withdrawn key, ?_⟩
  unfold popExpandKey
  rw [hstack]
  exact deactivateExpandKey_eq { context with expandStack := rest } key

/-- Both indexes are in step with their stacks, over one snapshot. -/
structure Indexed (snapshot : PublishedSnapshot) (context : EvaluationContext) : Prop where
  reads : context.snapshot = snapshot
  checks : context.checkIndex.Inv
  expands : context.expandIndex.Inv
  depth : context.remainingDepth ≤ u32Max

/-- What an evaluation leaves as it was.  The innermost frame may have recorded a depth. -/
structure Restores (context context' : EvaluationContext) : Prop where
  checkStack : context'.checkStack = context.checkStack
  expandStack : context'.expandStack = context.expandStack
  checkFrames : Aligned context.checkFrames context'.checkFrames
  remainingDepth : context'.remainingDepth = context.remainingDepth
  limits : context'.limits = context.limits

theorem Restores.refl
    (context : EvaluationContext) :
    Restores context context :=
  ⟨rfl, rfl, Aligned.refl _, rfl, rfl⟩

theorem Restores.trans
    {a b c : EvaluationContext}
    (h : Restores a b)
    (h' : Restores b c) :
    Restores a c :=
  ⟨h'.checkStack.trans h.checkStack, h'.expandStack.trans h.expandStack,
    h.checkFrames.trans h'.checkFrames, h'.remainingDepth.trans h.remainingDepth,
    h'.limits.trans h.limits⟩

instance : Std.Refl Restores := ⟨Restores.refl⟩

instance : Trans Restores Restores Restores := ⟨Restores.trans⟩

variable {snapshot : PublishedSnapshot} {context : EvaluationContext}

/-- Only the stacks, their indexes and the depth matter. -/
theorem Indexed.congr
    {context' : EvaluationContext}
    (h : context.Indexed snapshot)
    (hover : context'.snapshot = context.snapshot)
    (hchecks : context'.checkIndex = context.checkIndex)
    (hexpands : context'.expandIndex = context.expandIndex)
    (hdepth : context'.remainingDepth ≤ u32Max) :
    context'.Indexed snapshot :=
  ⟨hover.trans h.reads, hchecks ▸ h.checks, hexpands ▸ h.expands, hdepth⟩

theorem Indexed.pushCheckKey
    (h : context.Indexed snapshot)
    {key : CheckKey}
    (hkey : key ∉ context.checkStack) :
    (context.pushCheckKey key).Indexed snapshot := by
  have hchecks : (context.pushCheckKey key).checkIndex.Inv := by
    rw [checkIndex_pushCheckKey]
    exact h.checks.push hkey
  obtain ⟨active, hpush⟩ := pushCheckKey_eq context key
  rw [hpush] at hchecks ⊢
  exact ⟨h.reads, hchecks, h.expands, h.depth⟩

theorem Indexed.popCheckKey
    (h : context.Indexed snapshot)
    {key : CheckKey} {rest : List CheckKey}
    (hstack : context.checkStack = key :: rest) :
    context.popCheckKey.Indexed snapshot := by
  have hchecks : context.popCheckKey.checkIndex.Inv := by
    rw [checkIndex_popCheckKey]
    exact h.checks.pop
  obtain ⟨active, hpop⟩ := popCheckKey_eq hstack
  rw [hpop] at hchecks ⊢
  exact ⟨h.reads, hchecks, h.expands, h.depth⟩

theorem Indexed.pushExpandKey
    (h : context.Indexed snapshot)
    {key : ExpandKey}
    (hkey : key ∉ context.expandStack) :
    (context.pushExpandKey key).Indexed snapshot := by
  have hexpands : (context.pushExpandKey key).expandIndex.Inv := by
    rw [expandIndex_pushExpandKey]
    exact h.expands.push hkey
  obtain ⟨active, hpush⟩ := pushExpandKey_eq context key
  rw [hpush] at hexpands ⊢
  exact ⟨h.reads, h.checks, hexpands, h.depth⟩

theorem Indexed.popExpandKey
    (h : context.Indexed snapshot)
    {key : ExpandKey} {rest : List ExpandKey}
    (hstack : context.expandStack = key :: rest) :
    context.popExpandKey.Indexed snapshot := by
  have hexpands : context.popExpandKey.expandIndex.Inv := by
    rw [expandIndex_popExpandKey]
    exact h.expands.pop
  obtain ⟨active, hpop⟩ := popExpandKey_eq hstack
  rw [hpop] at hexpands ⊢
  exact ⟨h.reads, h.checks, hexpands, h.depth⟩

/-- The updates of a context. -/
inductive Move : EvaluationContext → EvaluationContext → Prop
  | resetForReuse (context : EvaluationContext) : Move context context.resetForReuse
  | enter {context : EvaluationContext} (hdepth : context.remainingDepth ≠ 0) :
      Move context ({ context with
        remainingDepth := context.remainingDepth - 1 }.recordCheckFrameDepth
          (context.remainingDepth - 1))
  | pushCheck {context : EvaluationContext} {key : CheckKey}
      (hkey : key ∉ context.checkStack) : Move context (context.pushCheckKey key)
  | pushFramedCheck {context : EvaluationContext} {key : CheckKey} (entryRemainingDepth : Nat)
      (hkey : key ∉ context.checkStack) :
      Move context ((context.pushCheckFrame entryRemainingDepth).pushCheckKey key)
  | closeCheck {context : EvaluationContext} {key : CheckKey} {rest : List CheckKey}
      (memoEligible : Bool) (result : Except ZanzibarError Membership)
      (hstack : context.checkStack = key :: rest) :
      Move context (Evaluation.closeKey key memoEligible result context)
  | pushExpand {context : EvaluationContext} {key : ExpandKey}
      (hkey : key ∉ context.expandStack) : Move context (context.pushExpandKey key)
  | closeExpand {context : EvaluationContext} {key : ExpandKey} {rest : List ExpandKey}
      (hstack : context.expandStack = key :: rest) : Move context context.popExpandKey.leave

/-- A context at rest between two operations. -/
structure Resting (context : EvaluationContext) : Prop where
  checkStack : context.checkStack = []
  expandStack : context.expandStack = []
  checkFrames : context.checkFrames = []
  remainingDepth : context.remainingDepth = context.limits.maxDepth.get

theorem Indexed.resetForReuse
    (h : context.Indexed snapshot) :
    context.resetForReuse.Indexed snapshot := by
  have hdepth : context.limits.maxDepth.get ≤ u32Max :=
    Nat.le_of_lt_succ context.limits.maxDepth.lt
  unfold EvaluationContext.resetForReuse
  by_cases hfits : context.generation + 1 ≤ u32Max
  · simp only [hfits, if_true]
    refine ⟨h.reads, ActiveIndex.inv_empty rfl ?_, ActiveIndex.inv_empty rfl ?_, hdepth⟩
    · exact fun key mark hmark => Nat.lt_succ_of_le (h.checks.generation key mark hmark)
    · exact fun key mark hmark => Nat.lt_succ_of_le (h.expands.generation key mark hmark)
  · simp only [hfits, if_false]
    refine ⟨h.reads, ActiveIndex.inv_empty rfl ?_, ActiveIndex.inv_empty rfl ?_, hdepth⟩
    · intro key mark hmark
      cases hmark
    · intro key mark hmark
      cases hmark

/-- An evaluation that restores the context leaves it at rest. -/
theorem Resting.restored
    {context' : EvaluationContext}
    (h : context.Resting)
    (hrestores : Restores context context') :
    context'.Resting := by
  have hframes : context'.checkFrames = [] := by
    apply Aligned.eq_nil
    rw [← h.checkFrames]
    exact hrestores.checkFrames
  refine ⟨hrestores.checkStack.trans h.checkStack, hrestores.expandStack.trans h.expandStack,
    hframes, ?_⟩
  rw [hrestores.remainingDepth, h.remainingDepth, hrestores.limits]

end EvaluationContext

namespace Evaluation

open EvaluationContext

variable {snapshot : PublishedSnapshot} {context : EvaluationContext}

/-! ## Checks -/

/-- From every state in step all states on the way are in step, and the evaluation restores the
context. -/
abbrev Balances {α : Type} (snapshot : PublishedSnapshot) (x : Evaluation α) : Prop :=
  x.Balanced Move (Indexed snapshot) Restores

theorem balanced_incrementFanout
    (current : Nat) :
    Balances snapshot (incrementFanout current) := by
  apply Action.balanced_get_bind
  intro context _
  dsimp only
  split
  · exact Action.balanced_throw _
  · exact Action.balanced_pure _

section Checks

variable [StoreHasher]

end Checks

/-! ## Expansions -/

/-- Opening an expanded key where no depth is left. -/
theorem openExpandKey_zero
    (key : ExpandKey)
    (hdepth : context.remainingDepth = 0) :
    openExpandKey key context = (.error (.evaluation (.depthExceeded (.expand key))), context) := by
  simp [openExpandKey, enter, Action.bind_apply, hdepth]

/-- Opening an expanded key where depth is left. -/
theorem openExpandKey_apply
    (key : ExpandKey)
    (hdepth : context.remainingDepth ≠ 0) :
    ∃ active, openExpandKey key context = (.ok (), { context with
      activeExpands := active
      expandStack := key :: context.expandStack
      remainingDepth := context.remainingDepth - 1
      checkFrames := lowerFrames (context.remainingDepth - 1) context.checkFrames }) := by
  obtain ⟨active, hpush⟩ := pushExpandKey_eq
    { context with
      remainingDepth := context.remainingDepth - 1
      checkFrames := lowerFrames (context.remainingDepth - 1) context.checkFrames } key
  refine ⟨active, ?_⟩
  rw [← hpush]
  simp [openExpandKey, enter, Action.bind_apply, hdepth, recordCheckFrameDepth_eq]

section Expansions

variable [StoreHasher] {nested : NestedExpand}

omit [StoreHasher] in
theorem balanced_relationById
    (id : SchemaRelationId) :
    Balances snapshot (relationById id) := by
  apply Action.balanced_get_bind
  intro context _
  split
  · exact Action.balanced_pure _
  · exact Action.balanced_throw _

omit [StoreHasher] in
theorem balanced_expandRows
    (fanout : Nat) (refs : List RelationshipRef) :
    Balances snapshot (expandRows fanout refs) := by
  induction refs generalizing fanout with
  | nil => exact Action.balanced_pure _
  | cons ref rest ih =>
      refine (balanced_incrementFanout fanout).bind (fun next => ?_)
      refine (Action.balanced_lift _).bind (fun user => ?_)
      exact (ih next).bind (fun _ => Action.balanced_pure _)

theorem balanced_expandThis
    (object : Object) (relationName : RelationName) :
    Balances snapshot (expandThis object relationName) := by
  refine (Action.balanced_lift _).bind (fun resource => ?_)
  apply Action.balanced_get_bind
  exact fun context _ => (balanced_expandRows _ _).bind (fun _ => Action.balanced_pure _)

omit [StoreHasher] in
theorem balanced_expandTupleset
    (hnested : ∀ object relation, Balances snapshot (nested object relation))
    (computed : RelationName) (fanout : Nat) (refs : List RelationshipRef) :
    Balances snapshot (expandTupleset nested computed fanout refs) := by
  induction refs generalizing fanout with
  | nil => exact Action.balanced_pure _
  | cons ref rest ih =>
      refine (Action.balanced_lift _).bind (fun subject => ?_)
      cases subject with
      | none => exact ih fanout
      | some target =>
          refine (balanced_incrementFanout fanout).bind (fun next => ?_)
          refine (hnested _ _).bind (fun user => ?_)
          exact (ih next).bind (fun _ => Action.balanced_pure _)

mutual

theorem balanced_expandExpression
    (hnested : ∀ object relation, Balances snapshot (nested object relation))
    (object : Object) (relationName : RelationName) :
    ∀ expression : CompiledUsersetExpression,
      Balances snapshot (expandCompiledSchemaExpression nested object relationName expression)
  | .this => by
      unfold expandCompiledSchemaExpression
      exact balanced_expandThis object relationName
  | .computedUserset relation _ _ => by
      unfold expandCompiledSchemaExpression
      exact hnested object relation
  | .tupleToUserset _ tuplesetRelationId computed => by
      unfold expandCompiledSchemaExpression
      refine (Action.balanced_lift _).bind (fun resource => ?_)
      refine (balanced_relationById _).bind (fun tupleset => ?_)
      apply Action.balanced_get_bind
      exact fun context _ => (balanced_expandTupleset hnested computed 0 _).bind
        (fun _ => Action.balanced_pure _)
  | .union expressions => by
      unfold expandCompiledSchemaExpression
      exact (balanced_expandExpressions hnested object relationName expressions).bind
        (fun _ => Action.balanced_pure _)
  | .intersection expressions => by
      unfold expandCompiledSchemaExpression
      exact (balanced_expandExpressions hnested object relationName expressions).bind
        (fun _ => Action.balanced_pure _)
  | .exclusion base exclude => by
      unfold expandCompiledSchemaExpression
      refine (balanced_expandExpression hnested object relationName base).bind (fun _ => ?_)
      exact (balanced_expandExpression hnested object relationName exclude).bind
        (fun _ => Action.balanced_pure _)

theorem balanced_expandExpressions
    (hnested : ∀ object relation, Balances snapshot (nested object relation))
    (object : Object) (relationName : RelationName) :
    ∀ expressions : List CompiledUsersetExpression,
      Balances snapshot (expandCompiledSchemaExpressions nested object relationName expressions)
  | [] => by
      unfold expandCompiledSchemaExpressions
      exact Action.balanced_pure _
  | expression :: rest => by
      unfold expandCompiledSchemaExpressions
      refine (balanced_expandExpression hnested object relationName expression).bind (fun _ => ?_)
      exact (balanced_expandExpressions hnested object relationName rest).bind
        (fun _ => Action.balanced_pure _)

end

end Expansions

end Evaluation

end SimpleZanzibar
