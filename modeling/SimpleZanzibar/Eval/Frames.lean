import SimpleZanzibar.Eval.ContextCorrect

/-!
# Frames of nested keys

What opening and closing a key do to the whole context.  A key with a frame leaves the depth
that its frame has seen to the frame outside.

**Results.**
* `Aligned`, `AboveFloor`: frames up to what the innermost one has recorded, and a bound on it.
* `Evaluation.openKey_apply`, `Evaluation.closeKey_apply`, `Evaluation.closeKey_frame`: the
  contexts after opening and closing a key.
-/

namespace SimpleZanzibar

/-- The frames with the innermost one lowered. -/
def lowerFrames (depth : Nat) : List CheckFrame → List CheckFrame
  | [] => []
  | frame :: rest =>
      { frame with minimumRemainingDepth := min frame.minimumRemainingDepth depth } :: rest

/-- The frames differ at most in what the innermost one has recorded. -/
inductive Aligned : List CheckFrame → List CheckFrame → Prop
  | nil : Aligned [] []
  | cons (entry minimum minimum' : Nat) (rest : List CheckFrame) :
      Aligned (⟨entry, minimum⟩ :: rest) (⟨entry, minimum'⟩ :: rest)

/-- The innermost frame has not recorded less than the floor; without a frame the floor is
zero. -/
def AboveFloor (floor : Nat) : List CheckFrame → Prop
  | [] => floor = 0
  | frame :: _ => floor ≤ frame.minimumRemainingDepth

theorem Aligned.lower
    {frames frames' : List CheckFrame}
    (h : Aligned frames frames')
    (depth : Nat) :
    Aligned frames (lowerFrames depth frames') := by
  cases h with
  | nil => exact .nil
  | cons entry minimum minimum' rest => exact .cons entry minimum _ rest

theorem Aligned.refl
    (frames : List CheckFrame) :
    Aligned frames frames := by
  cases frames with
  | nil => exact .nil
  | cons frame rest => exact .cons frame.entryRemainingDepth frame.minimumRemainingDepth _ rest

theorem Aligned.trans
    {frames frames' frames'' : List CheckFrame}
    (h : Aligned frames frames')
    (h' : Aligned frames' frames'') :
    Aligned frames frames'' := by
  cases h with
  | nil => exact h'
  | cons entry minimum minimum' rest =>
      cases h' with
      | cons _ _ minimum'' _ => exact .cons entry minimum minimum'' rest

theorem Aligned.eq_nil
    {frames : List CheckFrame}
    (h : Aligned [] frames) :
    frames = [] := by
  cases h
  rfl

theorem aboveFloor_lowerFrames
    {floor depth : Nat} {frames : List CheckFrame}
    (h : AboveFloor floor (lowerFrames depth frames)) :
    AboveFloor floor frames ∧ floor ≤ depth := by
  cases frames with
  | nil =>
      cases h
      exact ⟨rfl, Nat.zero_le _⟩
  | cons frame rest =>
      exact le_min_iff.mp h

namespace EvaluationContext

theorem recordCheckFrameDepth_eq
    (context : EvaluationContext) (depth : Nat) :
    context.recordCheckFrameDepth depth =
      { context with checkFrames := lowerFrames depth context.checkFrames } := by
  obtain ⟨_, _, _, _, _, _, _, _, _, frames, _⟩ := context
  cases frames with
  | nil => rfl
  | cons frame rest => rfl

theorem popCheckFrameDepthRequired_eq
    {context : EvaluationContext} {entry minimum : Nat} {rest : List CheckFrame}
    (hframes : context.checkFrames = ⟨entry, minimum⟩ :: rest) :
    context.popCheckFrameDepthRequired = (max 1 (entry - minimum),
      { context with checkFrames := lowerFrames minimum rest }) := by
  unfold popCheckFrameDepthRequired
  rw [hframes]
  simp only [recordCheckFrameDepth_eq]

end EvaluationContext

namespace Evaluation

/-- Opening a key where depth is left. -/
theorem openKey_apply
    {context : EvaluationContext}
    (key : CheckKey) (memoEligible : Bool)
    (hdepth : context.remainingDepth ≠ 0) :
    ∃ active, openKey key memoEligible context = (.ok (),
      { context with
        activeChecks := active
        checkStack := key :: context.checkStack
        remainingDepth := context.remainingDepth - 1
        checkFrames :=
          if memoEligible then
            ⟨context.remainingDepth, context.remainingDepth - 1⟩ ::
              lowerFrames (context.remainingDepth - 1) context.checkFrames
          else lowerFrames (context.remainingDepth - 1) context.checkFrames }) := by
  obtain ⟨active, hpush⟩ := EvaluationContext.pushCheckKey_eq
    { context with
      remainingDepth := context.remainingDepth - 1
      checkFrames :=
        if memoEligible then
          ⟨context.remainingDepth, context.remainingDepth - 1⟩ ::
            lowerFrames (context.remainingDepth - 1) context.checkFrames
        else lowerFrames (context.remainingDepth - 1) context.checkFrames } key
  refine ⟨active, ?_⟩
  rw [← hpush]
  cases memoEligible with
  | false =>
      simp [openKey, enter, Action.bind_apply, hdepth,
        EvaluationContext.recordCheckFrameDepth_eq]
  | true =>
      simp [openKey, enter, Action.bind_apply, hdepth,
        EvaluationContext.recordCheckFrameDepth_eq, EvaluationContext.pushCheckFrame]

theorem openKey_zero
    {context : EvaluationContext}
    (key : CheckKey) (memoEligible : Bool)
    (hdepth : context.remainingDepth = 0) :
    openKey key memoEligible context =
      (.error (.evaluation (.depthExceeded (.check key))), context) := by
  simp [openKey, enter, Action.bind_apply, hdepth]

/-- Closing a key that has no frame. -/
theorem closeKey_apply
    {key : CheckKey} {context : EvaluationContext} {rest : List CheckKey}
    (hstack : context.checkStack = key :: rest)
    (result : Except ZanzibarError Membership) :
    ∃ active, closeKey key false result context =
      { context with
        activeChecks := active
        checkStack := rest
        remainingDepth := min (context.remainingDepth + 1) u32Max } := by
  obtain ⟨active, hpop⟩ := EvaluationContext.popCheckKey_eq hstack
  refine ⟨active, ?_⟩
  simp only [closeKey, Bool.false_eq_true, if_false, hpop]
  rfl

/-- Closing a key with its frame: the answer is recorded with the depth that the frame has
seen, and the outer frame has seen it too. -/
theorem closeKey_frame
    {key : CheckKey} {context : EvaluationContext} {rest : List CheckKey} {memo : RequestCheckMemo}
    {memoKey : CheckMemoKey} {entry minimum : Nat} {frames : List CheckFrame}
    (hstack : context.checkStack = key :: rest)
    (hframes : context.checkFrames = ⟨entry, minimum⟩ :: frames)
    (hmemo : context.checkMemo = some memo)
    (hkey : CheckMemoKey.fromCheckKey key = .ok memoKey)
    (result : Except ZanzibarError Membership) :
    ∃ active memo', closeKey key true result context =
        { context with
          activeChecks := active
          checkStack := rest
          remainingDepth := min (context.remainingDepth + 1) u32Max
          checkFrames := lowerFrames minimum frames
          checkMemo := some memo' } ∧
      (memo' = memo ∨ ∃ membership, result = .ok membership ∧
        memo' = memo.insert memoKey membership (max 1 (entry - minimum))) := by
  obtain ⟨active, hpop⟩ := EvaluationContext.popCheckKey_eq hstack
  have hclosed : context.popCheckKey.popCheckFrameDepthRequired = (max 1 (entry - minimum),
      { context with
        activeChecks := active
        checkStack := rest
        checkFrames := lowerFrames minimum frames }) := by
    rw [hpop]
    exact EvaluationContext.popCheckFrameDepthRequired_eq hframes
  unfold closeKey
  simp only [if_true, hclosed]
  cases result with
  | error error =>
      refine ⟨active, memo, ?_, Or.inl rfl⟩
      simp only [EvaluationContext.leave, hmemo]
  | ok membership =>
      by_cases hcacheable : membership.isMemoCacheable = true
      · refine ⟨active, _, ?_, Or.inr ⟨membership, rfl, rfl⟩⟩
        simp only [if_pos hcacheable, EvaluationContext.memoInsert, EvaluationContext.leave,
          hmemo, hkey]
      · refine ⟨active, memo, ?_, Or.inl rfl⟩
        simp only [if_neg hcacheable, EvaluationContext.leave, hmemo]

end Evaluation

end SimpleZanzibar
