import SimpleZanzibar.Eval.Congruence
import SimpleZanzibar.Eval.Memo

/-!
# Memo hits below an open frame

The frame of a nested key records how far the evaluation of the key went down.  A nested key
that is answered from the memo is not descended into, so the frame records nothing for it.
The hit is covered where the frame has already recorded as much as the entry takes.

**Results.**
* `EvaluationContext.uncoveredHit`: a hit that takes more depth than the frame has recorded.
* `CheckRequest.runCovered`: the run of a check that stops at such a hit.
* `CheckRequest.run_of_covered`: where it does not stop, it is the run of the check.
-/

namespace SimpleZanzibar

/-- The key is answered from the memo, and the innermost frame has not recorded the depth that
the entry takes. -/
def EvaluationContext.uncoveredHit (context : EvaluationContext) (key : CheckKey) : Bool :=
  match context.checkMemo, CheckMemoKey.fromCheckKey key, context.checkFrames with
  | some memo, .ok memoKey, frame :: _ =>
      (memo.entries.lookup memoKey).any (fun entry =>
        decide (entry.depthRequired ≤ context.remainingDepth) &&
          decide (context.remainingDepth - entry.depthRequired < frame.minimumRemainingDepth))
  | _, _, _ => false

/-- The mark of a run that stopped at an uncovered hit; no step of the evaluator fails with
it. -/
def uncoveredHitError : ZanzibarError :=
  .storageError "memo hit needs more depth than its frame has recorded"

namespace Evaluation

/-- Stops at an uncovered hit. -/
def guardHits (key : CheckKey) (evaluate : Evaluation Membership) : Evaluation Membership := do
  let context ← Action.get
  if context.uncoveredHit key then Action.throw uncoveredHitError else evaluate

section Guarded

variable [StoreHasher]

/-- The evaluation of nested keys that stops at an uncovered hit. -/
def coveredNested (user : User) : Nat → Nested
  | 0, object, relationName, _ => do
      let context ← Action.get
      let key := CheckKey.fromRelationName context.snapshot object relationName user
      guardHits key
        (evaluateCheckKey key (Action.throw (.evaluation (.depthExceeded (.check key)))))
  | fuel + 1, object, relationName, body => do
      let context ← Action.get
      let key := CheckKey.fromRelationName context.snapshot object relationName user
      guardHits key (evaluateCheckKey key
        (nestedEntered (coveredNested user fuel) object relationName user body))

def coveredCheck (object : Object) (relation : Relation) (user : User) :
    Evaluation Membership := do
  let context ← Action.get
  evaluateCheckKey (CheckKey.new context.snapshot object relation user)
    (checkEntered (coveredNested user context.remainingDepth) object relation user)

def coveredCheckPrepared (object : Object) (relation : Relation) (user : User)
    (definition : RelationDefinition) : Evaluation Membership := do
  let context ← Action.get
  evaluateCheckKey (CheckKey.new context.snapshot object relation user)
    (evalDefinition (coveredNested user context.remainingDepth) object definition.name user
      definition)

end Guarded

end Evaluation

namespace CheckRequest

variable [StoreHasher]

/-- A check of a request that stops at an uncovered hit. -/
def runCovered : CheckRequest → Evaluation Membership
  | .named object relation user => Evaluation.coveredCheck object relation user
  | .prepared object relation user definition =>
      Evaluation.coveredCheckPrepared object relation user definition

/-- No check of the request meets an uncovered hit. -/
def Covered : EvaluationContext → List CheckRequest → Prop
  | _, [] => True
  | context, request :: rest =>
      (request.runCovered context).1 ≠ .error uncoveredHitError ∧
        Covered (request.run context).2.resetForReuse rest

/-- Whether a run is covered can be computed. -/
def decideCovered : ∀ (context : EvaluationContext) (requests : List CheckRequest),
    Decidable (Covered context requests)
  | _, [] => inferInstanceAs (Decidable True)
  | context, request :: rest =>
      have : Decidable (Covered (request.run context).2.resetForReuse rest) :=
        decideCovered (request.run context).2.resetForReuse rest
      inferInstanceAs (Decidable ((request.runCovered context).1 ≠ .error uncoveredHitError ∧
        Covered (request.run context).2.resetForReuse rest))

instance (context : EvaluationContext) (requests : List CheckRequest) :
    Decidable (Covered context requests) :=
  decideCovered context requests

/-- The context after the checks of a request. -/
def contextAfter : EvaluationContext → List CheckRequest → EvaluationContext
  | context, [] => context
  | context, request :: rest => contextAfter (request.run context).2.resetForReuse rest

omit [StoreHasher] in
/-- The key that a check puts on the stack. -/
def rootKey (snapshot : PublishedSnapshot) (request : CheckRequest) : CheckKey :=
  CheckKey.new snapshot request.object request.relation request.user

/-- The body of a check over an evaluation of nested keys. -/
def entered (nested : Evaluation.Nested) : CheckRequest → Evaluation Membership
  | .named object relation user => Evaluation.checkEntered nested object relation user
  | .prepared object _ user definition =>
      Evaluation.evalDefinition nested object definition.name user definition

theorem run_eq
    (request : CheckRequest) (context : EvaluationContext) :
    request.run context = Evaluation.evaluateCheckKey (request.rootKey context.snapshot)
      (request.entered (Evaluation.checkNested request.user context.remainingDepth)) context := by
  cases request <;> rfl

theorem runCovered_eq
    (request : CheckRequest) (context : EvaluationContext) :
    request.runCovered context = Evaluation.evaluateCheckKey (request.rootKey context.snapshot)
      (request.entered (Evaluation.coveredNested request.user context.remainingDepth))
        context := by
  cases request <;> rfl

end CheckRequest

namespace Evaluation

/-- A key is opened, its body runs and the key is closed. -/
theorem runKey_apply
    (key : CheckKey) (memoEligible : Bool) (evaluate : Evaluation Membership)
    (context : EvaluationContext) :
    runKey key memoEligible evaluate context =
      match openKey key memoEligible context with
      | (.ok _, opened) => ((evaluate opened).1,
          closeKey key memoEligible (evaluate opened).1 (evaluate opened).2)
      | (.error error, opened) => (.error error, opened) := by
  unfold runKey
  rw [Action.bind_apply]
  rcases openKey key memoEligible context with ⟨r, opened⟩
  cases r with
  | error error => rfl
  | ok _ => rfl

section Same

variable {snapshot : PublishedSnapshot}

/-- Where the first run does not stop at an uncovered hit, the second one is the same. -/
abbrev SameRun (snapshot : PublishedSnapshot) (α : Type) (x x' : Evaluation α) : Prop :=
  x.Tracks (·.snapshot = snapshot) (fun _ => True) (· = uncoveredHitError) Eq x'

theorem SameRun.eq
    {α : Type} {x x' : Evaluation α} {context : EvaluationContext}
    (h : SameRun snapshot α x x')
    (hover : context.snapshot = snapshot)
    (hcovered : (x context).1 ≠ .error uncoveredHitError) :
    x' context = x context := by
  obtain ⟨_, hrun, rfl⟩ := h.simulates context context (x context).1 (x context).2 hover rfl rfl
    trivial (fun error herror hmark => hcovered (by rw [herror, hmark]))
  exact hrun

theorem sameRun_of_eq
    {α : Type} {x x' : Evaluation α}
    (hkeeps : ∀ context, context.snapshot = snapshot → (x context).2.snapshot = snapshot)
    (heq : ∀ context, context.snapshot = snapshot →
      (x context).1 ≠ .error uncoveredHitError → x' context = x context) :
    SameRun snapshot α x x' := by
  refine ⟨hkeeps, fun _ _ _ => trivial, ?_⟩
  rintro context _ r t hover rfl hrun _ hexempt
  refine ⟨t, ?_, rfl⟩
  rw [heq context hover ?_, hrun]
  rw [hrun]
  intro hmark
  exact hexempt _ hmark rfl

theorem sameRun_self
    {α : Type} {x : Evaluation α}
    (hstays : Stays (· = snapshot) (fun _ => True) x) :
    SameRun snapshot α x x :=
  sameRun_of_eq (fun context hover => (hstays context hover).1) (fun _ _ _ => rfl)

theorem congruence_sameRun :
    Congruence snapshot (SameRun snapshot) :=
  congruence_tracks (fun _ h => h) (fun _ _ hover h => h ▸ hover)
    (fun current => sameRun_self (stays_incrementFanout _ (fun _ => trivial) current))

theorem SameRun.evaluateCheckKey
    {key : CheckKey} {evaluate evaluate' : Evaluation Membership}
    (h : SameRun snapshot Membership evaluate evaluate') :
    SameRun snapshot Membership (Evaluation.evaluateCheckKey key evaluate)
      (Evaluation.evaluateCheckKey key evaluate') := by
  have hstays : Stays (· = snapshot) (fun _ => True) (Evaluation.evaluateCheckKey key evaluate) :=
    stays_evaluateCheckKey _ (fun _ => trivial) (fun _ _ => trivial)
      (fun context hover => ⟨h.keeps context hover, fun _ _ => trivial⟩)
  apply sameRun_of_eq (fun context hover => (hstays context hover).1)
  intro context hover
  have hrun : ∀ memoEligible,
      (runKey key memoEligible evaluate context).1 ≠ .error uncoveredHitError →
        runKey key memoEligible evaluate' context = runKey key memoEligible evaluate context := by
    intro memoEligible
    rw [runKey_apply, runKey_apply]
    have hopen : Stays (· = snapshot) (fun _ => True) (openKey key memoEligible) :=
      stays_openKey (fun _ => trivial) key memoEligible
    have hopened : (openKey key memoEligible context).2.snapshot = snapshot :=
      (hopen context hover).1
    rcases hopen : openKey key memoEligible context with ⟨r, opened⟩
    rw [hopen] at hopened
    cases r with
    | error error => exact fun _ => rfl
    | ok _ =>
        intro hcovered
        simp only
        rw [h.eq hopened hcovered]
  unfold Evaluation.evaluateCheckKey
  simp only [Action.get_bind_apply]
  split
  · exact fun _ => rfl
  · split
    · rw [Action.bind_apply, Action.bind_apply]
      cases context.memoLookup key with
      | error error => exact fun _ => rfl
      | ok found =>
          cases found with
          | some membership => exact fun _ => rfl
          | none => exact hrun true
    · exact hrun false

theorem SameRun.guardHits
    {key : CheckKey} {evaluate evaluate' : Evaluation Membership}
    (h : SameRun snapshot Membership evaluate evaluate') :
    SameRun snapshot Membership (Evaluation.guardHits key evaluate) evaluate' := by
  apply sameRun_of_eq
  · intro context hover
    unfold Evaluation.guardHits
    rw [Action.get_bind_apply]
    split
    · exact hover
    · exact h.keeps context hover
  · intro context hover
    unfold Evaluation.guardHits
    rw [Action.get_bind_apply]
    split
    · exact fun hcovered => absurd rfl hcovered
    · exact h.eq hover

variable [StoreHasher]

theorem coveredNested_sameRun
    (user : User) (fuel : Nat)
    (object : Object) (relation : RelationName) (body : NestedBody) :
    SameRun snapshot Membership (coveredNested user fuel object relation body)
      (checkNested user fuel object relation body) := by
  induction fuel generalizing object relation body with
  | zero =>
      unfold coveredNested checkNested
      apply congruence_sameRun.read
      intro context context' hover hover'
      rw [hover, hover']
      exact (SameRun.evaluateCheckKey (congruence_sameRun.throw (evaluatorError_evaluation _))).guardHits
  | succ fuel ih =>
      unfold coveredNested checkNested
      apply congruence_sameRun.read
      intro context context' hover hover'
      rw [hover, hover']
      exact (SameRun.evaluateCheckKey (congruence_sameRun.nestedEntered
        (fun object relation body _ => ih object relation body) user
        (bodyCalls_of_all (fun _ _ _ => trivial) body))).guardHits

end Same

end Evaluation

/-- A check that does not stop at an uncovered hit runs as it does without the guard. -/
theorem CheckRequest.run_of_covered
    [StoreHasher] (request : CheckRequest) (context : EvaluationContext)
    (hcovered : (request.runCovered context).1 ≠ .error uncoveredHitError) :
    request.run context = request.runCovered context := by
  have hnested : ∀ object relation body, True →
      Evaluation.SameRun context.snapshot Membership
        (Evaluation.coveredNested request.user context.remainingDepth object relation body)
        (Evaluation.checkNested request.user context.remainingDepth object relation body) :=
    fun object relation body _ =>
      Evaluation.coveredNested_sameRun request.user context.remainingDepth object relation body
  have hbody : Evaluation.SameRun context.snapshot Membership
      (request.entered (Evaluation.coveredNested request.user context.remainingDepth))
      (request.entered (Evaluation.checkNested request.user context.remainingDepth)) := by
    cases request with
    | named object relation user =>
        exact Evaluation.congruence_sameRun.checkEntered hnested user (fun _ _ definition _ _ _ =>
          Evaluation.definitionCalls_of_all (fun _ _ _ => trivial) definition)
    | prepared object relation user definition =>
        exact Evaluation.congruence_sameRun.evalDefinition hnested user
          (Evaluation.definitionCalls_of_all (fun _ _ _ => trivial) definition)
  rw [request.runCovered_eq] at hcovered ⊢
  rw [request.run_eq]
  exact hbody.evaluateCheckKey.eq rfl hcovered

end SimpleZanzibar
