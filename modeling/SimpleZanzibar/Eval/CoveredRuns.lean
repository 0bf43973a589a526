import SimpleZanzibar.Eval.MemoDepth

/-!
# Which runs meet no uncovered hit

A nested key stops the run where the context has an uncovered hit of the key or where its body
stops below.  An uncovered hit lies below an open frame, and the entry takes no more depth than
is left.  There is no room for one where the depth limit is at most two, or where the keys that
the checks ask for ask for no keys in turn.

**Results.**
* `congruence_unmarked`: the evaluator does not return the mark by itself.
* `Memoised.guarded_marked_iff`: the condition at one nested key, on its context.
* `CheckRequest.covered_of_maxDepth_le_two`, `CheckRequest.covered_of_flat`: limits and checks
  for which every run is covered.
-/

namespace SimpleZanzibar

open BoolSystem

theorem not_evaluatorError_uncoveredHitError :
    ¬ Evaluation.EvaluatorError uncoveredHitError := by
  rintro (hsame | hother)
  · simp [uncoveredHitError, compiledSchemaInvariantError] at hsame
  · exact hother _ rfl

section Steps

variable [StoreHasher] {snapshot : PublishedSnapshot} {limits : EvaluationLimits} {user : User}
  {key : RelKey} {stack : List CheckKey} {depth : Nat} {frames : List CheckFrame}
  {context : EvaluationContext}

/-- From a context of this stack, depth and frames the step does not stop at an uncovered
hit. -/
abbrev Unmarked (snapshot : PublishedSnapshot) (limits : EvaluationLimits)
    (stack : List CheckKey) (depth : Nat) (frames : List CheckFrame) {α : Type}
    (x : Evaluation α) : Prop :=
  x.Within (Memoised snapshot limits stack depth frames) (· ≠ uncoveredHitError)

/-- The bodies of checks do not stop by themselves. -/
theorem congruence_unmarked :
    Evaluation.Congruence snapshot
      (fun _ x _ => Unmarked snapshot limits stack depth frames x) where
  lift r hr := Action.within_lift (fun error herror hmark =>
    not_evaluatorError_uncoveredHitError (hmark ▸ hr error herror))
  bind hx hf := hx.bind hf
  incrementFanout current := by
    apply Action.within_get_bind
    intro context _
    dsimp only
    split
    · exact Action.within_throw (fun hmark => by cases hmark)
    · exact Action.within_pure _
  read h := Action.within_get_bind
    (fun context hcontext => h context context hcontext.reads hcontext.reads)

/-- A nested key stops the run exactly where the context has an uncovered hit of it, or where it
is not in the memo and its body stops. -/
theorem Memoised.guarded_marked_iff
    (h : Memoised snapshot limits stack depth frames context)
    (evaluate : Evaluation Membership)
    (hkey : stackKey snapshot user key ∉ stack)
    (hstack : stack ≠ []) :
    (Evaluation.guardHits (stackKey snapshot user key)
        (Evaluation.evaluateCheckKey (stackKey snapshot user key) evaluate) context).1 =
          .error uncoveredHitError ↔
      context.uncoveredHit (stackKey snapshot user key) = true ∨
        (∃ memo, context.checkMemo = some memo ∧
          memo.get (memoKeyOf snapshot user key) depth = none) ∧
        ∃ opened, Evaluation.openKey (stackKey snapshot user key) true context = (.ok (), opened) ∧
          (evaluate opened).1 = .error uncoveredHitError := by
  unfold Evaluation.guardHits
  rw [Action.get_bind_apply]
  cases hhit : context.uncoveredHit (stackKey snapshot user key) with
  | true => exact ⟨fun _ => Or.inl rfl, fun _ => rfl⟩
  | false =>
      obtain ⟨memo, hmemo, hevaluate⟩ := h.evaluateCheckKey_eq evaluate hkey hstack
      simp only [Bool.false_eq_true, if_false, false_or, hevaluate, hmemo, Option.some.injEq,
        exists_eq_left']
      cases hget : memo.get (memoKeyOf snapshot user key) depth with
      | some membership => simp
      | none =>
          simp only [Option.elim_none, true_and, Evaluation.runKey_apply]
          by_cases hdepth : depth = 0
          · rw [Evaluation.openKey_zero _ true (h.remainingDepth.trans hdepth)]
            simp [uncoveredHitError]
          · obtain ⟨opened, hopen, _⟩ := h.openKey (stackKey snapshot user key) true hkey hdepth
            simp [hopen]

/-- A hit without an open frame is covered. -/
theorem Memoised.uncoveredHit_of_nil
    (h : Memoised snapshot limits stack depth [] context)
    (checkKey : CheckKey) :
    context.uncoveredHit checkKey = false := by
  obtain ⟨memo, hmemo, _⟩ := h.memo
  unfold EvaluationContext.uncoveredHit
  rw [h.aligned.eq_nil, hmemo]
  cases CheckMemoKey.fromCheckKey checkKey <;> rfl

/-- An honest entry takes a level of depth. -/
theorem HonestEntry.depthRequired_pos
    {entry : CheckMemoEntry}
    (h : HonestEntry snapshot limits user key entry) :
    0 < entry.depthRequired := by
  by_contra hnot
  have hfresh : Unmemoised snapshot limits [] 0
      { EvaluationContext.new snapshot limits with remainingDepth := 0 } :=
    ⟨rfl, rfl, { EvaluationContext.activeInv_new snapshot limits with }, rfl, rfl, rfl⟩
  obtain ⟨_, hrun, _⟩ := h [] 0 0 .relationName _ (fun s hs => (by cases hs)) trivial
    (Nat.le_of_not_gt hnot) (Nat.le_refl _) (Nat.zero_le _) hfresh
  -- without depth the key is not opened
  unfold Evaluation.checkNested Evaluation.evaluateCheckKey at hrun
  rw [Action.get_bind_apply, Action.get_bind_apply,
    hfresh.not_active List.not_mem_nil, hfresh.noMemo] at hrun
  simp only [Bool.false_eq_true, if_false, Option.isSome_none, Bool.false_and,
    Evaluation.runKey_apply, Evaluation.openKey_zero _ false hfresh.remainingDepth] at hrun
  cases hrun

/-- Without depth nothing is answered from the memo. -/
theorem Memoised.uncoveredHit_of_zero
    (h : Memoised snapshot limits stack 0 frames context) :
    context.uncoveredHit (stackKey snapshot user key) = false := by
  obtain ⟨memo, hmemo, hhonest⟩ := h.memo
  unfold EvaluationContext.uncoveredHit
  rw [hmemo, fromCheckKey_fromRelationName]
  cases context.checkFrames with
  | nil => rfl
  | cons frame rest =>
      cases hentry : memo.entries.lookup (memoKeyOf snapshot user key) with
      | none => simp [hentry]
      | some entry =>
          obtain ⟨_, _, _, hentryHonest⟩ := hhonest _ entry hentry
          have hpositive := hentryHonest.depthRequired_pos
          simp only [hentry, Option.any_some, h.remainingDepth, Bool.and_eq_false_iff,
            decide_eq_false_iff_not]
          omega

theorem Memoised.guarded_unmarked
    (h : Memoised snapshot limits stack depth frames context)
    {evaluate : Evaluation Membership}
    (hkey : stackKey snapshot user key ∉ stack)
    (hstack : stack ≠ [])
    (hstep : context.uncoveredHit (stackKey snapshot user key) = false)
    (hbody : ∀ opened, depth ≠ 0 → Memoised snapshot limits
      (stackKey snapshot user key :: stack) (depth - 1) opened.checkFrames opened →
      (evaluate opened).1 ≠ .error uncoveredHitError) :
    (Evaluation.guardHits (stackKey snapshot user key)
      (Evaluation.evaluateCheckKey (stackKey snapshot user key) evaluate) context).1 ≠
        .error uncoveredHitError := by
  intro hmarked
  rcases (h.guarded_marked_iff evaluate hkey hstack).mp hmarked with
    hhit | ⟨_, opened, hopen, hstops⟩
  · rw [hstep] at hhit
    cases hhit
  · have hdepth : depth ≠ 0 := by
      intro hzero
      rw [Evaluation.openKey_zero _ true (h.remainingDepth.trans hzero)] at hopen
      cases hopen
    obtain ⟨opened', hopen', hopened, _⟩ :=
      h.openKey (stackKey snapshot user key) true hkey hdepth
    rw [hopen] at hopen'
    cases hopen'
    exact hbody opened hdepth hopened hstops

/-- A nested key is evaluated without an uncovered hit where there is none at the key and none in
its body. -/
theorem coveredNested_unmarked
    (hsnapshot : snapshot.Admissible)
    (hacyclic : snapshot.Acyclic)
    {fuel : Nat} {body : Evaluation.NestedBody}
    (habove : StackAbove snapshot user key stack)
    (hstack : stack ≠ [])
    (hfits : Search.BodyFits snapshot key body)
    (hmax : depth ≤ u32Max)
    (hstep : ∀ context, Memoised snapshot limits stack depth frames context →
      context.uncoveredHit (stackKey snapshot user key) = false)
    (hbody : ∀ fuel frames', depth ≠ 0 →
      Unmarked snapshot limits (stackKey snapshot user key :: stack) (depth - 1) frames'
        (Evaluation.nestedEntered (Evaluation.coveredNested user fuel) key.object key.relation
          user body)) :
    Unmarked snapshot limits stack depth frames
      (Evaluation.coveredNested user fuel key.object key.relation body) := by
  have hkey := habove.not_mem hacyclic
  intro context hcontext
  refine ⟨(coveredNested_simulated hsnapshot hacyclic habove habove hstack hfits hfits hmax hmax
    (Nat.le_add_right depth 0) (Nat.le_refl _)).keeps context hcontext, ?_⟩
  rintro _ hmarked rfl
  cases fuel with
  | zero =>
      unfold Evaluation.coveredNested at hmarked
      rw [Action.get_bind_apply, hcontext.reads] at hmarked
      refine hcontext.guarded_unmarked hkey hstack (hstep context hcontext) ?_ hmarked
      intro opened _ _ hthrown
      cases hthrown
  | succ fuel =>
      unfold Evaluation.coveredNested at hmarked
      rw [Action.get_bind_apply, hcontext.reads] at hmarked
      refine hcontext.guarded_unmarked hkey hstack (hstep context hcontext) ?_ hmarked
      intro opened hdepth hopened hstops
      exact (hbody fuel opened.checkFrames hdepth opened hopened).2 _ hstops rfl

/-- A nested key without an open frame is evaluated without an uncovered hit where its body is. -/
theorem coveredNested_unmarked_of_nil
    (hsnapshot : snapshot.Admissible)
    (hacyclic : snapshot.Acyclic)
    {fuel : Nat} {body : Evaluation.NestedBody}
    (habove : StackAbove snapshot user key stack)
    (hstack : stack ≠ [])
    (hfits : Search.BodyFits snapshot key body)
    (hmax : depth ≤ u32Max)
    (hcalls : ∀ k body fuel frames', depth ≠ 0 → Formula.Refers (snapshot.system user key) k →
      Search.BodyFits snapshot k body →
      Unmarked snapshot limits (stackKey snapshot user key :: stack) (depth - 1) frames'
        (Evaluation.coveredNested user fuel k.object k.relation body)) :
    Unmarked snapshot limits stack depth []
      (Evaluation.coveredNested user fuel key.object key.relation body) := by
  refine coveredNested_unmarked hsnapshot hacyclic habove hstack hfits hmax
    (fun context hcontext => hcontext.uncoveredHit_of_nil _) (fun fuel frames' hdepth => ?_)
  exact @Evaluation.Congruence.nestedEntered _ _ congruence_unmarked _ _
    (Evaluation.coveredNested user fuel) _
    (fun object relation body hcall => hcalls ⟨object, relation⟩ body fuel frames' hdepth
      hcall.1 hcall.2)
    key.object key.relation user body (bodyCalls_of_fits hsnapshot hfits (fun _ hk => hk))

end Steps

section Requests

variable [StoreHasher] {snapshot : PublishedSnapshot} {limits : EvaluationLimits}
  {start : EvaluationContext} {requests : List CheckRequest}

/-- A check meets no uncovered hit where the keys that it asks for do not. -/
theorem CheckRequest.unmarked_of_asked
    (hsnapshot : snapshot.Admissible)
    {request : CheckRequest}
    (hresolved : request.Resolved snapshot.schema)
    {context : EvaluationContext}
    (hcontext : Memoised snapshot limits [] limits.maxDepth.get [] context)
    (hasked : ∀ k body, request.Asks snapshot k → Search.BodyFits snapshot k body →
      Unmarked snapshot limits [request.rootKey snapshot] (limits.maxDepth.get - 1) []
        (Evaluation.coveredNested request.user limits.maxDepth.get k.object k.relation body)) :
    (request.runCovered context).1 ≠ .error uncoveredHitError := by
  have hbody : Unmarked snapshot limits [request.rootKey snapshot] (limits.maxDepth.get - 1) []
      (request.entered (Evaluation.coveredNested request.user limits.maxDepth.get)) :=
    @CheckRequest.entered_related _ _ _ congruence_unmarked hsnapshot request hresolved _
      (Evaluation.coveredNested request.user limits.maxDepth.get) hasked
  rw [request.runCovered_eq, hcontext.reads, hcontext.remainingDepth]
  obtain ⟨opened, hopened, hevaluate⟩ := hcontext.evaluateRoot
    (request.entered (Evaluation.coveredNested request.user limits.maxDepth.get))
    limits.maxDepth.pos.ne'
  rw [hevaluate]
  exact fun hmark => (hbody opened hopened).2 _ hmark rfl

/-- A run is covered whose checks meet no uncovered hit on any honest memo. -/
theorem CheckRequest.covered_of_each
    (hsnapshot : snapshot.Admissible)
    (hacyclic : snapshot.Acyclic)
    (hstart : Memoised snapshot limits [] limits.maxDepth.get [] start)
    (hresolved : ∀ request ∈ requests, request.Resolved snapshot.schema)
    (heach : ∀ request ∈ requests, ∀ context,
      Memoised snapshot limits [] limits.maxDepth.get [] context →
        (request.runCovered context).1 ≠ .error uncoveredHitError) :
    CheckRequest.Covered start requests := by
  induction requests generalizing start with
  | nil => trivial
  | cons first rest ih =>
      have hfirst := heach first List.mem_cons_self start hstart
      have hafter := (CheckRequest.run_of_memoised hsnapshot hacyclic
        (hresolved first List.mem_cons_self) hstart hfirst).1
      exact ⟨hfirst, ih hafter.resetForReuse
        (fun request hrequest => hresolved request (List.mem_cons_of_mem _ hrequest))
        (fun request hrequest => heach request (List.mem_cons_of_mem _ hrequest))⟩

theorem memoised_start
    (hstart : start = .newWithRequestMemo snapshot limits ∨
      start = (EvaluationContext.newWithRequestMemo snapshot limits).resetForReuse) :
    Memoised snapshot limits [] limits.maxDepth.get [] start := by
  rcases hstart with rfl | rfl
  · exact memoised_new snapshot limits
  · exact (memoised_new snapshot limits).resetForReuse

/-- Where at most two levels of depth are allowed every run is covered: below the frame of a nested
key no depth is left. -/
theorem CheckRequest.covered_of_maxDepth_le_two
    (hsnapshot : snapshot.Admissible)
    (hacyclic : snapshot.Acyclic)
    (hstart : start = .newWithRequestMemo snapshot limits ∨
      start = (EvaluationContext.newWithRequestMemo snapshot limits).resetForReuse)
    (hresolved : ∀ request ∈ requests, request.Resolved snapshot.schema)
    (hdepth : limits.maxDepth.get ≤ 2) :
    CheckRequest.Covered start requests := by
  have hmax : limits.maxDepth.get ≤ u32Max := Nat.le_pred_of_lt limits.maxDepth.lt
  refine CheckRequest.covered_of_each hsnapshot hacyclic (memoised_start hstart) hresolved
    (fun request hrequest context hcontext => ?_)
  refine CheckRequest.unmarked_of_asked hsnapshot (hresolved request hrequest) hcontext
    (fun k body hasks hfits => ?_)
  refine coveredNested_unmarked_of_nil hsnapshot hacyclic hasks.above (List.cons_ne_nil _ _) hfits
    (by omega) (fun j body' fuel frames' hleft hrefers hfits' => ?_)
  have hzero : limits.maxDepth.get - 1 - 1 = 0 := by omega
  rw [hzero]
  exact coveredNested_unmarked hsnapshot hacyclic (hasks.above.push hrefers)
    (List.cons_ne_nil _ _) hfits' (Nat.zero_le _)
    (fun context hcontext => hcontext.uncoveredHit_of_zero)
    (fun _ _ hnot => absurd rfl hnot)

/-- Where the keys that the checks ask for ask for no keys in turn every run is covered, whatever
the limits. -/
theorem CheckRequest.covered_of_flat
    (hsnapshot : snapshot.Admissible)
    (hacyclic : snapshot.Acyclic)
    (hstart : start = .newWithRequestMemo snapshot limits ∨
      start = (EvaluationContext.newWithRequestMemo snapshot limits).resetForReuse)
    (hresolved : ∀ request ∈ requests, request.Resolved snapshot.schema)
    (hflat : ∀ request ∈ requests, ∀ k, request.Asks snapshot k →
      ∀ j, ¬ Formula.Refers (snapshot.system request.user k) j) :
    CheckRequest.Covered start requests := by
  have hmax : limits.maxDepth.get ≤ u32Max := Nat.le_pred_of_lt limits.maxDepth.lt
  refine CheckRequest.covered_of_each hsnapshot hacyclic (memoised_start hstart) hresolved
    (fun request hrequest context hcontext => ?_)
  refine CheckRequest.unmarked_of_asked hsnapshot (hresolved request hrequest) hcontext
    (fun k body hasks hfits => ?_)
  exact coveredNested_unmarked_of_nil hsnapshot hacyclic hasks.above (List.cons_ne_nil _ _) hfits
    (by omega) (fun j _ _ _ _ hrefers _ => absurd hrefers (hflat request hrequest k hasks j))

end Requests

end SimpleZanzibar
