import SimpleZanzibar.Eval.ActiveKeys
import SimpleZanzibar.Eval.AnalysesEnd
import SimpleZanzibar.Eval.StreamTraversal

/-!
# Walks of subjects end

A walk of `lookup_subjects` follows the stored usersets, also around a cycle of the data, and every
level of it takes one unit of the remaining depth.  The walk therefore never goes deeper than the
depth that it starts with, however many subjects it reports.

**Results.**
* `Streaming.evaluateStreamKey_cases`: a key is skipped or walked one level deeper.
* `Streaming.streamRelation_ends`: the walk ends.
-/

namespace SimpleZanzibar

namespace EvaluationContext

theorem popExpandKey_remainingDepth
    (context : EvaluationContext) :
    context.popExpandKey.remainingDepth = context.remainingDepth := by
  unfold popExpandKey
  split
  · rfl
  · rw [deactivateExpandKey_eq]

end EvaluationContext

namespace Streaming

/-- A walk of a key over the walks of the nested keys. -/
def streamBody [StoreHasher] (nested : NestedStream) : NestedStream :=
  fun object relationName inheritedVerifyCandidates =>
    evaluateStreamKey ⟨object, relationName⟩
      (streamLookupSubjectsRelationEntered nested object relationName inheritedVerifyCandidates)

theorem streamRelation_eq_iterate
    [StoreHasher] (fuel : Nat) :
    streamLookupSubjectsRelation fuel = streamBody^[fuel] (streamLookupSubjectsRelation 0) := by
  induction fuel with
  | zero => rfl
  | succ fuel ih =>
      rw [Function.iterate_succ_apply', ← ih]
      rfl

/-- A key is skipped, whatever its body, or its body is walked with one unit of depth less. -/
theorem evaluateStreamKey_cases
    (key : ExpandKey) (stream : SubjectStream) :
    (∃ result, ∀ evaluate, evaluateStreamKey key evaluate stream = (result, stream)) ∨
      ∃ opened : EvaluationContext, opened.remainingDepth + 1 = stream.context.remainingDepth ∧
        ∀ evaluate, evaluateStreamKey key evaluate stream =
          ((evaluate { stream with context := opened }).1,
            { (evaluate { stream with context := opened }).2 with
              context := (evaluate { stream with
                context := opened }).2.context.popExpandKey.leave }) := by
  have hrun : ∀ evaluate, evaluateStreamKey key evaluate stream =
      if stream.collector.resultLimitReached then (.ok (), stream)
      else if stream.context.isExpandActive key then (.ok (), stream)
      else (do
        ofEvaluation (Evaluation.openExpandKey key)
        let result ← Action.attempt evaluate
        ofEvaluation Evaluation.closeExpandKey
        Action.lift result : Streaming Unit) stream := by
    intro evaluate
    cases hreached : stream.collector.resultLimitReached <;>
      cases hactive : stream.context.isExpandActive key <;>
      simp [evaluateStreamKey, resultLimitReached, Action.bind_apply, hreached, hactive]
  by_cases hreached : stream.collector.resultLimitReached = true
  · exact Or.inl ⟨.ok (), fun evaluate => by rw [hrun, if_pos hreached]⟩
  · by_cases hactive : stream.context.isExpandActive key = true
    · exact Or.inl ⟨.ok (), fun evaluate => by rw [hrun, if_neg hreached, if_pos hactive]⟩
    · by_cases hdepth : stream.context.remainingDepth = 0
      · refine Or.inl ⟨.error (.evaluation (.depthExceeded (.expand key))), fun evaluate => ?_⟩
        have hopen := Evaluation.openExpandKey_zero key hdepth
        rw [hrun, if_neg hreached, if_neg hactive]
        simp only [Action.bind_apply, ofEvaluation, Action.zoom, hopen]
      · obtain ⟨opened, hopen, hless⟩ : ∃ opened,
            Evaluation.openExpandKey key stream.context = (.ok (), opened) ∧
              opened.remainingDepth + 1 = stream.context.remainingDepth := by
          obtain ⟨active, hopen⟩ := Evaluation.openExpandKey_apply key hdepth
          exact ⟨_, hopen, Nat.sub_add_cancel (Nat.pos_of_ne_zero hdepth)⟩
        refine Or.inr ⟨opened, hless, fun evaluate => ?_⟩
        rw [hrun, if_neg hreached, if_neg hactive]
        simp only [Action.bind_apply, ofEvaluation, Action.zoom, hopen, Action.attempt,
          Evaluation.closeExpandKey, Action.modify_apply, Action.lift_apply]

/-- From a stream with at most this depth left the steps do the same, and leave no more depth. -/
def SameWithin (depth : Nat) (α : Type) (x x' : Streaming α) : Prop :=
  ∀ stream, stream.context.remainingDepth ≤ depth → x stream = x' stream ∧
    (x stream).2.context.remainingDepth ≤ stream.context.remainingDepth

theorem sameWithin_refl
    {depth : Nat} {α : Type} {x : Streaming α}
    (h : ∀ stream, (x stream).2.context.remainingDepth ≤ stream.context.remainingDepth) :
    SameWithin depth α x x :=
  fun stream _ => ⟨rfl, h stream⟩

/-- Doing the same is kept by the bodies of a walk. -/
theorem congruence_sameWithin
    [StoreHasher] (depth : Nat) :
    Congruence (SameWithin depth) where
  lift r := sameWithin_refl (fun stream => le_rfl)
  bind := by
    intro α β x x' f f' hx hf stream hdepth
    obtain ⟨heq, hleft⟩ := hx stream hdepth
    rw [Action.bind_apply, Action.bind_apply, ← heq]
    rcases hrun : x stream with ⟨r, after⟩
    rw [hrun] at hleft
    cases r with
    | error error => exact ⟨rfl, hleft⟩
    | ok a =>
        obtain ⟨heq', hleft'⟩ := hf a after (hleft.trans hdepth)
        exact ⟨heq', hleft'.trans hleft⟩
  get_bind h := fun stream hdepth => h stream stream hdepth
  evaluate r := sameWithin_refl (fun stream => le_rfl)
  incrementFanout current := by
    refine sameWithin_refl (fun stream => le_of_eq ?_)
    simp only [ofEvaluation, Action.zoom, Evaluation.incrementFanout, Action.get_bind_apply]
    split <;> rfl
  relationById id := by
    refine sameWithin_refl (fun stream => le_of_eq ?_)
    simp only [ofEvaluation, Action.zoom, Evaluation.relationById, Action.get_bind_apply]
    cases stream.context.snapshot.schema.resolver.relationById id <;> rfl
  collectUser id verify := sameWithin_refl (fun stream => le_rfl)
  collectUserset object relation verify := sameWithin_refl (fun stream => le_rfl)

/-- The bodies of two walks of a key, related one level deeper. -/
theorem sameWithin_evaluateStreamKey
    {key : ExpandKey} {evaluate evaluate' : Streaming Unit} {depth : Nat}
    (h : ∀ deeper, deeper + 1 ≤ depth → SameWithin deeper Unit evaluate evaluate') :
    SameWithin depth Unit (evaluateStreamKey key evaluate) (evaluateStreamKey key evaluate') := by
  intro stream hdepth
  rcases evaluateStreamKey_cases key stream with ⟨result, hskipped⟩ | ⟨opened, hless, hwalked⟩
  · rw [hskipped, hskipped]
    exact ⟨rfl, le_rfl⟩
  · obtain ⟨heq, hleft⟩ := h opened.remainingDepth (hless.trans_le hdepth)
      { stream with context := opened } le_rfl
    rw [hwalked, hwalked, ← heq]
    refine ⟨rfl, ?_⟩
    show min ((evaluate { stream with context := opened }).2.context.popExpandKey.remainingDepth +
      1) u32Max ≤ stream.context.remainingDepth
    rw [EvaluationContext.popExpandKey_remainingDepth, ← hless]
    exact (min_le_left _ _).trans (Nat.succ_le_succ hleft)

/-- A walk ends with what the fuel computes: nothing deeper than the remaining depth of its
context is ever walked. -/
theorem streamRelation_ends
    [StoreHasher] (stream : SubjectStream) (object : Object) (relationName : RelationName)
    (inheritedVerifyCandidates : Bool) :
    EndsWith streamBody
      (fun nested => nested object relationName inheritedVerifyCandidates stream)
      (streamLookupSubjectsRelation stream.context.remainingDepth object relationName
        inheritedVerifyCandidates stream) := by
  rw [streamRelation_eq_iterate]
  refine endsWith_of_agree
    (fun k nested nested' => ∀ object relationName verify,
      SameWithin k Unit (nested object relationName verify) (nested' object relationName verify))
    (fun nested object relationName verify => ?_)
    (fun k nested nested' h object relationName verify => ?_) (fun nested nested' h => ?_)
  · apply sameWithin_evaluateStreamKey
    intro deeper hdeeper
    exact absurd hdeeper (Nat.not_succ_le_zero deeper)
  · apply sameWithin_evaluateStreamKey
    intro deeper hdeeper
    apply (congruence_sameWithin deeper).streamRelationEntered
    intro object' relation' verify' inner hinner
    exact h object' relation' verify' inner (hinner.trans (Nat.le_of_succ_le_succ hdeeper))
  · exact (h object relationName inheritedVerifyCandidates stream le_rfl).1

end Streaming

end SimpleZanzibar
