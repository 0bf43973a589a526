import SimpleZanzibar.Eval.Congruence
import SimpleZanzibar.Eval.FreshCheck

/-!
# Limits only turn answers into errors

A check never looks at how much depth or fanout is left but to fail.  A check that answers
under some limits therefore answers the same under greater ones.

**Results.**
* `Roomier`: the second context has at least the depth and the fanout of the first.
* `checkNested_answersMore`: a nested check under greater limits and with more fuel.
* `checkWithSnapshot_mono`: greater limits keep the answers.
-/

namespace SimpleZanzibar

/-- The second context is the first one with at least as much depth and fanout left; neither
has a memo or an index of its stack. -/
structure Roomier (context context' : EvaluationContext) : Prop where
  snapshot : context'.snapshot = context.snapshot
  fanout : context.limits.maxFanoutPerStep.get ≤ context'.limits.maxFanoutPerStep.get
  depth : context.remainingDepth ≤ context'.remainingDepth
  checkStack : context'.checkStack = context.checkStack
  scans : context.useActiveIndexes = false
  scans' : context'.useActiveIndexes = false
  noMemo : context.checkMemo = none
  noMemo' : context'.checkMemo = none

namespace Roomier

variable {context context' : EvaluationContext}

theorem isCheckActive_eq
    (h : context.useActiveIndexes = false)
    (key : CheckKey) :
    context.isCheckActive key = decide (key ∈ context.checkStack) := by
  unfold EvaluationContext.isCheckActive
  rw [h]
  rfl

theorem isCheckActive
    (h : Roomier context context')
    (key : CheckKey) :
    context'.isCheckActive key = context.isCheckActive key := by
  rw [isCheckActive_eq h.scans, isCheckActive_eq h.scans', h.checkStack]

theorem pushCheckKey
    (h : Roomier context context')
    (key : CheckKey) :
    Roomier (context.pushCheckKey key) (context'.pushCheckKey key) := by
  have hpush : ∀ {first : EvaluationContext}, first.useActiveIndexes = false →
      first.pushCheckKey key = { first with checkStack := key :: first.checkStack } := by
    intro first hfirst
    unfold EvaluationContext.pushCheckKey
    simp only [hfirst, Bool.false_and, Bool.false_eq_true, if_false]
  rw [hpush h.scans, hpush h.scans']
  exact { h with checkStack := congrArg (key :: ·) h.checkStack }

theorem popCheckKey
    (h : Roomier context context') :
    Roomier context.popCheckKey context'.popCheckKey := by
  have hdeactivate : ∀ {first second : EvaluationContext} (key : CheckKey),
      Roomier first second → Roomier (first.deactivateCheckKey key)
        (second.deactivateCheckKey key) := by
    intro first second key hroomier
    rw [EvaluationContext.deactivateCheckKey_eq, EvaluationContext.deactivateCheckKey_eq]
    exact { hroomier with }
  unfold EvaluationContext.popCheckKey
  rw [h.checkStack]
  cases context.checkStack with
  | nil => exact h
  | cons key rest => exact hdeactivate key { h with checkStack := rfl }

theorem leave
    (h : Roomier context context') :
    Roomier context.leave context'.leave := by
  have hdepth : min (context.remainingDepth + 1) u32Max ≤
      min (context'.remainingDepth + 1) u32Max :=
    min_le_min_right u32Max (Nat.succ_le_succ h.depth)
  exact { h with depth := hdepth }

end Roomier

namespace Evaluation

variable {context context' : EvaluationContext}

theorem enter_simulated
    (h : Roomier context context')
    (key : EvaluationKey) :
    (enter key).SimulatedBy Roomier context (enter key) context' := by
  unfold enter
  apply Action.SimulatedBy.get_bind
  have hdepth := h.depth
  by_cases hzero : context.remainingDepth = 0
  · rw [if_pos hzero]
    exact Action.simulatedBy_throw _
  · rw [if_neg hzero, if_neg (by omega)]
    rintro _ _ hset
    cases hset
    refine ⟨_, rfl, ?_⟩
    obtain ⟨_, hframes⟩ := EvaluationContext.recordCheckFrameDepth_frame
      { context with remainingDepth := context.remainingDepth - 1 } (context.remainingDepth - 1)
    obtain ⟨_, hframes'⟩ := EvaluationContext.recordCheckFrameDepth_frame
      { context' with remainingDepth := context'.remainingDepth - 1 }
      (context'.remainingDepth - 1)
    rw [hframes, hframes']
    exact { h with depth := Nat.sub_le_sub_right hdepth 1 }

theorem enter_snapshot
    {key : EvaluationKey} {entered : EvaluationContext}
    (h : enter key context = (.ok (), entered)) :
    entered.snapshot = context.snapshot := by
  have hstays : Stays (· = context.snapshot) (fun _ => True) (enter key) :=
    stays_enter _ (fun _ => trivial) key
  have hentered := (hstays context rfl).1
  rwa [h] at hentered

theorem incrementFanout_simulated
    (h : Roomier context context')
    (current : Nat) :
    (incrementFanout current).SimulatedBy Roomier context (incrementFanout current)
      context' := by
  unfold incrementFanout
  apply Action.SimulatedBy.get_bind
  have hfanout := h.fanout
  dsimp only
  by_cases hexceeded : context.limits.maxFanoutPerStep.get < min (current + 1) u32Max
  · rw [if_pos hexceeded]
    exact Action.simulatedBy_throw _
  · rw [if_neg hexceeded, if_neg (by omega)]
    exact Action.simulatedBy_pure h _

/-- Running a key without a memo: its body is evaluated one level deeper. -/
theorem runKey_simulated
    {key : CheckKey} {evaluate evaluate' : Evaluation Membership}
    (h : Roomier context context')
    (hevaluate : ∀ {opened opened' : EvaluationContext}, opened.snapshot = context.snapshot →
      Roomier opened opened' → evaluate.SimulatedBy Roomier opened evaluate' opened') :
    (runKey key false evaluate).SimulatedBy Roomier context (runKey key false evaluate')
      context' := by
  unfold runKey openKey
  intro m closed hrun
  simp only [Bool.false_eq_true, if_false] at hrun ⊢
  obtain ⟨_, opened, hopen, hrun⟩ := Action.bind_eq_ok.mp hrun
  rw [Action.get_bind_apply] at hopen
  obtain ⟨_, entered, henter, hpush⟩ := Action.bind_eq_ok.mp hopen
  cases hpush
  obtain ⟨entered', henter', hentered⟩ := enter_simulated h (.check key) () entered henter
  obtain ⟨result, evaluated, hattempt, hrun⟩ := Action.bind_eq_ok.mp hrun
  cases hattempt
  obtain ⟨_, closed', hclose, hrun⟩ := Action.bind_eq_ok.mp hrun
  cases hclose
  obtain ⟨hm, rfl⟩ := Prod.mk.inj hrun
  have hopened : (entered.pushCheckKey key).snapshot = context.snapshot := by
    rw [(EvaluationContext.pushCheckKey_frame entered key).1]
    exact enter_snapshot henter
  obtain ⟨evaluated', hevaluated', hroomier⟩ := hevaluate hopened (hentered.pushCheckKey key) m
    (evaluate (entered.pushCheckKey key)).2 (Prod.ext hm rfl)
  refine ⟨evaluated'.popCheckKey.leave, ?_, hroomier.popCheckKey.leave⟩
  simp only [Action.bind_apply, Action.get_apply, henter', Action.modify_apply, Action.attempt,
    hevaluated', Action.lift_apply, closeKey, Bool.false_eq_true, if_false]

theorem evaluateCheckKey_simulated
    {key : CheckKey} {evaluate evaluate' : Evaluation Membership}
    (h : Roomier context context')
    (hevaluate : ∀ {opened opened' : EvaluationContext}, opened.snapshot = context.snapshot →
      Roomier opened opened' → evaluate.SimulatedBy Roomier opened evaluate' opened') :
    (evaluateCheckKey key evaluate).SimulatedBy Roomier context (evaluateCheckKey key evaluate')
      context' := by
  unfold evaluateCheckKey
  apply Action.SimulatedBy.get_bind
  rw [h.isCheckActive, h.noMemo, h.noMemo']
  by_cases hactive : context.isCheckActive key = true
  · rw [if_pos hactive, if_pos hactive]
    exact Action.simulatedBy_pure h _
  · rw [if_neg hactive, if_neg hactive]
    exact runKey_simulated h hevaluate

section Nested

variable {snapshot : PublishedSnapshot}

/-- The second run answers all that the first one answers, over the snapshot. -/
abbrev AnswersMore (snapshot : PublishedSnapshot) (α : Type) (x x' : Evaluation α) : Prop :=
  x.Tracks (·.snapshot = snapshot) (fun _ => True) (fun _ => True) Roomier x'

theorem congruence_answersMore :
    Congruence snapshot (AnswersMore snapshot) := by
  refine congruence_tracks (fun _ h => h) (fun _ _ hover h => h.snapshot.trans hover)
    (fun current => ⟨fun context hover => ?_, fun _ _ _ => trivial, ?_⟩)
  · have hstays : Stays (· = snapshot) (fun _ => True) (incrementFanout current) :=
      stays_incrementFanout _ (fun _ => trivial) current
    exact (hstays context hover).1
  · intro context context' result counted _ h hrun _ hexempt
    cases result with
    | ok next => exact incrementFanout_simulated h current next counted hrun
    | error error => exact absurd trivial (hexempt error rfl)

theorem AnswersMore.evaluateCheckKey
    {key : CheckKey} {evaluate evaluate' : Evaluation Membership}
    (h : AnswersMore snapshot Membership evaluate evaluate') :
    AnswersMore snapshot Membership (Evaluation.evaluateCheckKey key evaluate)
      (Evaluation.evaluateCheckKey key evaluate') := by
  refine ⟨fun context hover => ?_, fun _ _ _ => trivial, ?_⟩
  · refine (stays_evaluateCheckKey (· = snapshot) (fun _ => trivial) (fun _ _ => trivial)
      (fun context hover => ⟨h.keeps context hover, fun _ _ => trivial⟩) context hover).1
  · intro context context' result closed hover hroomier hrun _ hexempt
    cases result with
    | error error => exact absurd trivial (hexempt error rfl)
    | ok m =>
        refine evaluateCheckKey_simulated hroomier ?_ m closed hrun
        intro opened opened' hopened hroomier' m' evaluated hrun'
        exact h.simulates opened opened' _ evaluated (hopened.trans hover) hroomier' hrun' trivial
          (fun _ h => (by cases h))

variable [StoreHasher]

/-- A nested check with more fuel: fuel bounds the recursion and decides nothing. -/
theorem checkNested_answersMore
    (user : User) {fuel fuel' : Nat}
    (hfuel : fuel ≤ fuel')
    (object : Object) (relation : RelationName) (body : NestedBody) :
    AnswersMore snapshot Membership (checkNested user fuel object relation body)
      (checkNested user fuel' object relation body) := by
  induction fuel generalizing fuel' object relation body with
  | zero =>
      cases fuel' with
      | zero =>
          unfold checkNested
          apply congruence_answersMore.read
          intro context context' hover hover'
          rw [hover, hover']
          exact AnswersMore.evaluateCheckKey (Action.tracks_throw trivial _)
      | succ fuel' =>
          unfold checkNested
          apply congruence_answersMore.read
          intro context context' hover hover'
          rw [hover, hover']
          exact AnswersMore.evaluateCheckKey (Action.tracks_throw trivial _)
  | succ fuel ih =>
      obtain ⟨fuel', rfl⟩ : ∃ n, fuel' = n + 1 := ⟨fuel' - 1, by omega⟩
      unfold checkNested
      apply congruence_answersMore.read
      intro context context' hover hover'
      rw [hover, hover']
      exact AnswersMore.evaluateCheckKey (congruence_answersMore.nestedEntered
        (fun object relation body _ => ih (Nat.le_of_succ_le_succ hfuel) object relation body)
        user (bodyCalls_of_all (fun _ _ _ => trivial) body))

theorem check_simulated
    (hover : context.snapshot = snapshot)
    (h : Roomier context context')
    (object : Object) (relation : Relation) (user : User) :
    (check object relation user).SimulatedBy Roomier context (check object relation user)
      context' := by
  have hbody : AnswersMore snapshot Membership
      (checkEntered (checkNested user context.remainingDepth) object relation user)
      (checkEntered (checkNested user context'.remainingDepth) object relation user) :=
    congruence_answersMore.checkEntered
      (fun object relation body _ => checkNested_answersMore user h.depth object relation body)
      user (fun _ _ definition _ _ _ => definitionCalls_of_all (fun _ _ _ => trivial) definition)
  unfold check
  apply Action.SimulatedBy.get_bind
  rw [h.snapshot]
  refine evaluateCheckKey_simulated h ?_
  intro opened opened' hopened hroomier m evaluated hrun
  exact hbody.simulates opened opened' _ evaluated (hopened.trans hover) hroomier hrun trivial
    (fun _ h => (by cases h))

end Nested

end Evaluation

/-- Every answer of a check under some limits is its answer under limits that are at least
as great. -/
theorem checkWithSnapshot_mono
    [StoreHasher] {limits limits' : EvaluationLimits}
    (hdepth : limits.maxDepth.get ≤ limits'.maxDepth.get)
    (hfanout : limits.maxFanoutPerStep.get ≤ limits'.maxFanoutPerStep.get)
    (snapshot : PublishedSnapshot) (object : Object) (relation : Relation) (user : User)
    {m : Membership}
    (hcheck : checkWithSnapshot snapshot object relation user limits = .ok m) :
    checkWithSnapshot snapshot object relation user limits' = .ok m := by
  unfold checkWithSnapshot at hcheck ⊢
  have hroomier : Roomier (.new snapshot limits) (.new snapshot limits') :=
    ⟨rfl, hfanout, hdepth, rfl, rfl, rfl, rfl, rfl⟩
  obtain ⟨_, hcheck', _⟩ := Evaluation.check_simulated rfl hroomier object relation user m _
    (Prod.ext hcheck rfl)
  rw [hcheck']

/-- A document of a group, checked with the depth and the fanout that it takes and with the
default limits. -/
theorem checkWithSnapshot_mono_group_document :
    ∃ (snapshot : PublishedSnapshot) (limits : EvaluationLimits),
      limits.maxDepth.get = 2 ∧ limits.maxFanoutPerStep.get = 1 ∧
      @checkWithSnapshot fnvHasher snapshot ⟨"doc", "1"⟩ ⟨"owner"⟩ (.userId "alice") limits =
        .ok .allowed ∧
      @checkWithSnapshot fnvHasher snapshot ⟨"doc", "1"⟩ ⟨"owner"⟩ (.userId "alice") .default =
        .ok .allowed := by
  let _ := fnvHasher
  let limits : EvaluationLimits :=
    ⟨⟨2, by decide, by decide⟩, ⟨1, by decide, by decide⟩, ⟨1, by decide, by decide⟩⟩
  have hrun : ((WriterCommand.runAll .latestFirst
      [.applyNamespaceConfigs
        [.ofRelations "group" [("member", none)], .ofRelations "doc" [("owner", none)]],
        .applyRelationshipMutations
          [.create ⟨objectLit "group" "a", relationLit "member",
              .object (objectLit "user" "alice")⟩,
            .create ⟨objectLit "doc" "1", relationLit "owner",
              .userset (objectLit "group" "a") (relationLit "member")⟩] []] .new).map
      (fun state => state.published.map (fun snapshot =>
        (checkWithSnapshot snapshot ⟨"doc", "1"⟩ ⟨"owner"⟩ (.userId "alice")
          limits).toOption))).toOption = some (some (some .allowed)) := by
    decide +kernel
  obtain ⟨snapshot, _, hresult⟩ := exists_published_of_runAll hrun
  have hanswer : checkWithSnapshot snapshot ⟨"doc", "1"⟩ ⟨"owner"⟩ (.userId "alice") limits =
      .ok .allowed :=
    eq_ok_of_toOption hresult
  exact ⟨snapshot, limits, rfl, rfl, hanswer,
    checkWithSnapshot_mono (by decide) (by decide) snapshot ⟨"doc", "1"⟩ ⟨"owner"⟩
      (.userId "alice") hanswer⟩

end SimpleZanzibar
