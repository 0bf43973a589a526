import SimpleZanzibar.Eval.ActiveIndex
import SimpleZanzibar.Eval.Check

/-!
# The stack of active keys and the request memo

The index of active keys answers as a search of the stack does, over pushes, pops and
the reuse of the context with a new generation.  Opening and closing a key leave the
stack as it was and add at most the answer of the key to the memo.
-/

namespace SimpleZanzibar

namespace EvaluationContext

/-- The marks of the current generation agree with the stack. -/
structure ActiveInv (context : EvaluationContext) : Prop where
  nodup : context.checkStack.Nodup
  generation : ∀ key mark, context.activeChecks.lookup key = some mark →
    mark.generation ≤ context.generation
  sound : ∀ key mark, context.activeChecks.lookup key = some mark →
    mark.generation = context.generation → mark.active = true → key ∈ context.checkStack
  complete : context.useActiveIndexes = true →
    activeIndexThreshold ≤ context.checkStack.length → ∀ key ∈ context.checkStack,
      context.activeChecks.lookup key = some ⟨context.generation, true⟩

/-- The stack of checks with its marks. -/
def checkIndex (context : EvaluationContext) : ActiveIndex CheckKey where
  stack := context.checkStack
  marks := context.activeChecks
  generation := context.generation
  indexed := context.useActiveIndexes

theorem activeInv_iff
    {context : EvaluationContext} :
    context.ActiveInv ↔ context.checkIndex.Inv :=
  ⟨fun h => ⟨h.nodup, h.generation, h.sound, h.complete⟩,
    fun h => ⟨h.nodup, h.generation, h.sound, h.complete⟩⟩

theorem activeInv_new
    (snapshot : PublishedSnapshot) (limits : EvaluationLimits) :
    (new snapshot limits).ActiveInv := by
  apply activeInv_iff.mpr
  apply ActiveIndex.inv_empty rfl
  intro key mark h
  cases h

/-- Only the stack and its index matter. -/
theorem ActiveInv.congr
    {context context' : EvaluationContext}
    (h : context.ActiveInv)
    (hstack : context'.checkStack = context.checkStack)
    (hactive : context'.activeChecks = context.activeChecks)
    (hgeneration : context'.generation = context.generation)
    (huse : context'.useActiveIndexes = context.useActiveIndexes) :
    context'.ActiveInv := by
  constructor
  · rw [hstack]
    exact h.nodup
  · rw [hactive, hgeneration]
    exact h.generation
  · rw [hactive, hgeneration, hstack]
    exact h.sound
  · rw [hactive, hgeneration, hstack, huse]
    exact h.complete

/-- A key is found active iff it is on the stack. -/
theorem ActiveInv.isCheckActive_iff
    {context : EvaluationContext}
    (h : context.ActiveInv)
    (key : CheckKey) :
    context.isCheckActive key = true ↔ key ∈ context.checkStack :=
  (activeInv_iff.mp h).isActive_iff key

@[simp] theorem pushCheckKey_checkStack
    (context : EvaluationContext) (key : CheckKey) :
    (context.pushCheckKey key).checkStack = key :: context.checkStack :=
  rfl

/-- Pushing a key changes the stack and its index only. -/
theorem pushCheckKey_frame
    (context : EvaluationContext) (key : CheckKey) :
    (context.pushCheckKey key).snapshot = context.snapshot ∧
      (context.pushCheckKey key).limits = context.limits ∧
      (context.pushCheckKey key).generation = context.generation ∧
      (context.pushCheckKey key).useActiveIndexes = context.useActiveIndexes ∧
      (context.pushCheckKey key).checkMemo = context.checkMemo := by
  unfold pushCheckKey rebuildActiveChecks markActive
  split
  · split <;> exact ⟨rfl, rfl, rfl, rfl, rfl⟩
  · exact ⟨rfl, rfl, rfl, rfl, rfl⟩

/-- A push changes the stack and its index only. -/
theorem pushCheckKey_eq
    (context : EvaluationContext) (key : CheckKey) :
    ∃ active, context.pushCheckKey key =
      { context with activeChecks := active, checkStack := key :: context.checkStack } := by
  unfold pushCheckKey rebuildActiveChecks markActive
  split
  · split <;> exact ⟨_, rfl⟩
  · exact ⟨_, rfl⟩

/-- A push of a check is a push on its index. -/
theorem checkIndex_pushCheckKey
    (context : EvaluationContext) (key : CheckKey) :
    (context.pushCheckKey key).checkIndex = context.checkIndex.push key := by
  unfold pushCheckKey ActiveIndex.push checkIndex
  dsimp only
  split
  · split <;> rfl
  · rfl

/-- Putting a new key on the stack keeps the index in step. -/
theorem ActiveInv.pushCheckKey
    {context : EvaluationContext}
    (h : context.ActiveInv)
    {key : CheckKey}
    (hkey : key ∉ context.checkStack) :
    (context.pushCheckKey key).ActiveInv := by
  apply activeInv_iff.mpr
  rw [checkIndex_pushCheckKey]
  exact (activeInv_iff.mp h).push hkey

/-- Deactivating a key changes its mark only. -/
theorem deactivateCheckKey_eq
    (context : EvaluationContext) (key : CheckKey) :
    context.deactivateCheckKey key =
      { context with activeChecks := context.checkIndex.withdrawn key } := by
  unfold deactivateCheckKey ActiveIndex.withdrawn checkIndex
  cases hlookup : context.activeChecks.lookup key with
  | none => rfl
  | some mark =>
      by_cases hgeneration : mark.generation = context.generation
      · simp only [if_pos hgeneration]
      · simp only [if_neg hgeneration]

/-- A pop changes the stack and its index only. -/
theorem popCheckKey_eq
    {context : EvaluationContext} {key : CheckKey} {rest : List CheckKey}
    (hstack : context.checkStack = key :: rest) :
    ∃ active, context.popCheckKey =
      { context with activeChecks := active, checkStack := rest } := by
  refine ⟨context.checkIndex.withdrawn key, ?_⟩
  unfold popCheckKey
  rw [hstack]
  exact deactivateCheckKey_eq { context with checkStack := rest } key

/-- A pop of a check is a pop on its index. -/
theorem checkIndex_popCheckKey
    (context : EvaluationContext) :
    context.popCheckKey.checkIndex = context.checkIndex.pop := by
  obtain ⟨_, _, _, _, _, _, _, stack, _, _, _⟩ := context
  cases stack with
  | nil => rfl
  | cons key rest => exact congrArg checkIndex (deactivateCheckKey_eq _ key)

/-- Taking the top key off the stack. -/
theorem ActiveInv.popCheckKey
    {context : EvaluationContext}
    (h : context.ActiveInv)
    {key : CheckKey} {rest : List CheckKey}
    (hstack : context.checkStack = key :: rest) :
    context.popCheckKey.ActiveInv ∧ context.popCheckKey.checkStack = rest ∧
      context.popCheckKey.snapshot = context.snapshot ∧
      context.popCheckKey.limits = context.limits ∧
      context.popCheckKey.checkMemo = context.checkMemo := by
  have hinv : context.popCheckKey.ActiveInv := by
    apply activeInv_iff.mpr
    rw [checkIndex_popCheckKey]
    exact (activeInv_iff.mp h).pop
  obtain ⟨active, heq⟩ := popCheckKey_eq hstack
  refine ⟨hinv, ?_⟩
  rw [heq]
  exact ⟨rfl, rfl, rfl, rfl⟩

/-- A context that is prepared for the next check has an empty stack. -/
theorem ActiveInv.resetForReuse
    {context : EvaluationContext}
    (h : context.ActiveInv) :
    context.resetForReuse.ActiveInv ∧ context.resetForReuse.checkStack = [] ∧
      context.resetForReuse.snapshot = context.snapshot ∧
      context.resetForReuse.limits = context.limits ∧
      context.resetForReuse.checkMemo = context.checkMemo ∧
      context.resetForReuse.remainingDepth = context.limits.maxDepth.get := by
  unfold EvaluationContext.resetForReuse
  by_cases hfits : context.generation + 1 ≤ u32Max
  · simp only [hfits, if_true]
    refine ⟨activeInv_iff.mpr (ActiveIndex.inv_empty rfl fun key mark hmark => ?_),
      trivial, trivial, trivial, trivial, trivial⟩
    exact Nat.lt_succ_of_le (h.generation key mark hmark)
  · simp only [hfits, if_false]
    refine ⟨activeInv_iff.mpr (ActiveIndex.inv_empty rfl fun key mark hmark => ?_),
      trivial, trivial, trivial, trivial, trivial⟩
    cases hmark

theorem recordCheckFrameDepth_frame
    (context : EvaluationContext) (depth : Nat) :
    ∃ frames, context.recordCheckFrameDepth depth = { context with checkFrames := frames } := by
  unfold recordCheckFrameDepth
  split
  · exact ⟨context.checkFrames, rfl⟩
  · exact ⟨_, rfl⟩

theorem popCheckFrameDepthRequired_frame
    (context : EvaluationContext) :
    ∃ depth frames,
      context.popCheckFrameDepthRequired = (depth, { context with checkFrames := frames }) := by
  unfold popCheckFrameDepthRequired
  split
  · exact ⟨1, context.checkFrames, rfl⟩
  · next frame rest _ =>
      obtain ⟨frames, hframes⟩ := recordCheckFrameDepth_frame
        { context with checkFrames := rest } frame.minimumRemainingDepth
      exact ⟨_, frames, congrArg (Prod.mk _) hframes⟩

/-- What an evaluation step leaves as it was. -/
structure Keeps (context context' : EvaluationContext) : Prop where
  snapshot : context'.snapshot = context.snapshot
  limits : context'.limits = context.limits
  checkStack : context'.checkStack = context.checkStack

theorem Keeps.refl
    (context : EvaluationContext) :
    Keeps context context :=
  ⟨rfl, rfl, rfl⟩

theorem Keeps.trans
    {a b c : EvaluationContext}
    (h : Keeps a b)
    (h' : Keeps b c) :
    Keeps a c :=
  ⟨h'.snapshot.trans h.snapshot, h'.limits.trans h.limits, h'.checkStack.trans h.checkStack⟩

end EvaluationContext

/-- An entry after an insertion is an old one or the inserted answer with its depth. -/
theorem RequestCheckMemo.lookup_insert_or
    {memo : RequestCheckMemo} {key other : CheckMemoKey} {membership : Membership}
    {depth : Nat} {entry : CheckMemoEntry}
    (h : (memo.insert key membership depth).entries.lookup other = some entry) :
    memo.entries.lookup other = some entry ∨ other = key ∧ entry = ⟨membership, depth⟩ := by
  have hcases : ∀ entries : AList (fun _ : CheckMemoKey => CheckMemoEntry),
      entries = memo.entries ∨ entries = memo.entries.insert key ⟨membership, depth⟩ →
      entries.lookup other = some entry →
      memo.entries.lookup other = some entry ∨ other = key ∧ entry = ⟨membership, depth⟩ := by
    rintro entries (rfl | rfl) hlookup
    · exact Or.inl hlookup
    · by_cases heq : other = key
      · subst heq
        rw [AList.lookup_insert] at hlookup
        cases hlookup
        exact Or.inr ⟨rfl, rfl⟩
      · rw [AList.lookup_insert_ne heq] at hlookup
        exact Or.inl hlookup
  unfold RequestCheckMemo.insert at h
  split at h
  · split at h
    · exact hcases _ (Or.inr rfl) h
    · exact hcases _ (Or.inl rfl) h
  · split at h
    · exact hcases _ (Or.inl rfl) h
    · exact hcases _ (Or.inr rfl) h

/-- An entry after an insertion is an old one or the inserted answer. -/
theorem RequestCheckMemo.lookup_insert_cases
    {memo : RequestCheckMemo} {key other : CheckMemoKey} {membership : Membership}
    {depth : Nat} {entry : CheckMemoEntry}
    (h : (memo.insert key membership depth).entries.lookup other = some entry) :
    memo.entries.lookup other = some entry ∨ other = key ∧ entry.membership = membership := by
  rcases lookup_insert_or h with hold | ⟨hkey, rfl⟩
  · exact Or.inl hold
  · exact Or.inr ⟨hkey, rfl⟩

/-- A memo answer is the membership of an entry. -/
theorem RequestCheckMemo.lookup_of_get
    {memo : RequestCheckMemo} {key : CheckMemoKey} {depth : Nat} {membership : Membership}
    (h : memo.get key depth = some membership) :
    ∃ entry, memo.entries.lookup key = some entry ∧ entry.membership = membership := by
  unfold RequestCheckMemo.get at h
  split at h
  · next entry hentry =>
      split at h
      · cases h
        exact ⟨entry, hentry, rfl⟩
      · cases h
  · cases h

namespace Evaluation

open EvaluationContext

/-- Opening a key fails at depth zero and otherwise puts the key on the stack. -/
theorem openKey_cases
    (key : CheckKey) (memoEligible : Bool) (context : EvaluationContext) :
    openKey key memoEligible context =
        (.error (.evaluation (.depthExceeded (.check key))), context) ∨
      ∃ opened, openKey key memoEligible context = (.ok (), opened) ∧
        opened.snapshot = context.snapshot ∧ opened.limits = context.limits ∧
        opened.checkStack = key :: context.checkStack ∧
        opened.checkMemo = context.checkMemo ∧
        (context.ActiveInv → key ∉ context.checkStack → opened.ActiveInv) := by
  by_cases hdepth : context.remainingDepth = 0
  · left
    simp [openKey, enter, Action.bind_apply, hdepth]
  · right
    obtain ⟨frames, hframes⟩ := recordCheckFrameDepth_frame
      { context with remainingDepth := context.remainingDepth - 1 } (context.remainingDepth - 1)
    have hbase : ∃ frames', (if memoEligible then
          { context with
            remainingDepth := context.remainingDepth - 1
            checkFrames := frames }.pushCheckFrame context.remainingDepth
        else { context with
            remainingDepth := context.remainingDepth - 1
            checkFrames := frames }) =
        { context with
          remainingDepth := context.remainingDepth - 1
          checkFrames := frames' } := by
      cases memoEligible with
      | true =>
          exact ⟨_, rfl⟩
      | false =>
          exact ⟨_, rfl⟩
    obtain ⟨frames', hbase⟩ := hbase
    obtain ⟨hsnapshot, hlimits, _, _, hmemo⟩ := pushCheckKey_frame
      { context with
        remainingDepth := context.remainingDepth - 1
        checkFrames := frames' } key
    refine ⟨_, ?_, hsnapshot, hlimits, pushCheckKey_checkStack _ _, hmemo, ?_⟩
    · simp only [openKey, enter, Action.bind_apply, Action.get_apply, if_neg hdepth,
        Action.set_apply, Action.modify_apply, hframes, hbase]
    · intro hactive hkey
      have hentered : { context with
          remainingDepth := context.remainingDepth - 1
          checkFrames := frames' }.ActiveInv := hactive.congr rfl rfl rfl rfl
      exact hentered.pushCheckKey hkey

/-- Closing a key takes it off the stack and adds at most its answer to the memo. -/
theorem closeKey_spec
    {key : CheckKey} {context : EvaluationContext} {rest : List CheckKey}
    (memoEligible : Bool) (result : Except ZanzibarError Membership)
    (hactive : context.ActiveInv)
    (hstack : context.checkStack = key :: rest) :
    (closeKey key memoEligible result context).ActiveInv ∧
      (closeKey key memoEligible result context).checkStack = rest ∧
      (closeKey key memoEligible result context).snapshot = context.snapshot ∧
      (closeKey key memoEligible result context).limits = context.limits ∧
      ((closeKey key memoEligible result context).checkMemo = context.checkMemo ∨
        ∃ memo membership depth memoKey, memoEligible = true ∧ result = .ok membership ∧
          context.checkMemo = some memo ∧ CheckMemoKey.fromCheckKey key = .ok memoKey ∧
          (closeKey key memoEligible result context).checkMemo =
            some (memo.insert memoKey membership depth)) := by
  obtain ⟨hpopped, hrest, hsnapshot, hlimits, hmemo⟩ := hactive.popCheckKey hstack
  obtain ⟨depth, frames, hframes⟩ := popCheckFrameDepthRequired_frame context.popCheckKey
  have hleave : ∀ frames', ({ context.popCheckKey with checkFrames := frames' }.leave).ActiveInv :=
    fun frames' => hpopped.congr rfl rfl rfl rfl
  cases memoEligible with
  | false =>
      exact ⟨hpopped.congr rfl rfl rfl rfl, hrest, hsnapshot, hlimits, Or.inl hmemo⟩
  | true =>
      simp only [closeKey, if_true, hframes]
      cases result with
      | error error =>
          exact ⟨hleave frames, hrest, hsnapshot, hlimits, Or.inl hmemo⟩
      | ok membership =>
          simp only
          split
          · unfold memoInsert
            split
            · next memo memoKey hsome hkey =>
                refine ⟨(hleave frames).congr rfl rfl rfl rfl, hrest, hsnapshot, hlimits,
                  Or.inr ⟨memo, membership, depth, memoKey, trivial, rfl, ?_, hkey, rfl⟩⟩
                rw [← hmemo]
                exact hsome
            · exact ⟨hleave frames, hrest, hsnapshot, hlimits, Or.inl hmemo⟩
          · exact ⟨hleave frames, hrest, hsnapshot, hlimits, Or.inl hmemo⟩

/-- Running a key: opening it fails, or its body is evaluated with the key on the stack
and the key is closed again. -/
theorem runKey_cases
    (key : CheckKey) (memoEligible : Bool) (evaluate : Evaluation Membership)
    (context : EvaluationContext) :
    (∃ error, runKey key memoEligible evaluate context = (.error error, context)) ∨
      ∃ opened, opened.snapshot = context.snapshot ∧ opened.limits = context.limits ∧
        opened.checkStack = key :: context.checkStack ∧
        opened.checkMemo = context.checkMemo ∧
        (context.ActiveInv → key ∉ context.checkStack → opened.ActiveInv) ∧
        runKey key memoEligible evaluate context =
          ((evaluate opened).1,
            closeKey key memoEligible (evaluate opened).1 (evaluate opened).2) := by
  rcases openKey_cases key memoEligible context with hfail | ⟨opened, hopen, hrest⟩
  · left
    refine ⟨.evaluation (.depthExceeded (.check key)), ?_⟩
    simp only [runKey, Action.bind_apply, hfail]
  · right
    obtain ⟨hsnapshot, hlimits, hstack, hmemo, hactive⟩ := hrest
    refine ⟨opened, hsnapshot, hlimits, hstack, hmemo, hactive, ?_⟩
    simp only [runKey, Action.bind_apply, hopen, Action.attempt, Action.modify_apply,
      Action.lift_apply]

/-! ## Steps over one snapshot

No step changes the snapshot of the context, and apart from its body a key fails only on the
depth and on its memo key.
-/

section Steps

variable {holds : PublishedSnapshot → Prop} {exn : ZanzibarError → Prop}

/-- The step keeps what holds of the snapshot and fails with such errors only. -/
abbrev Stays {α : Type} (holds : PublishedSnapshot → Prop) (exn : ZanzibarError → Prop)
    (x : Evaluation α) : Prop :=
  x.Within (fun context => holds context.snapshot) exn

theorem popCheckKey_snapshot
    (context : EvaluationContext) :
    context.popCheckKey.snapshot = context.snapshot := by
  unfold EvaluationContext.popCheckKey
  split
  · rfl
  · rw [deactivateCheckKey_eq]

theorem closeKey_snapshot
    (key : CheckKey) (memoEligible : Bool) (result : Except ZanzibarError Membership)
    (context : EvaluationContext) :
    (closeKey key memoEligible result context).snapshot = context.snapshot := by
  have hpopped := popCheckKey_snapshot context
  unfold closeKey
  split
  · obtain ⟨depth, frames, hframes⟩ := popCheckFrameDepthRequired_frame context.popCheckKey
    simp only [hframes]
    cases result with
    | error error => exact hpopped
    | ok membership =>
        dsimp only
        split
        · unfold memoInsert
          split <;> exact hpopped
        · exact hpopped
  · exact hpopped

theorem stays_enter
    (holds : PublishedSnapshot → Prop)
    (hexn : ∀ error, exn (.evaluation error))
    (key : EvaluationKey) :
    Stays holds exn (enter key) := by
  apply Action.within_get_bind
  intro context hover
  split
  · exact Action.within_throw (hexn _)
  · obtain ⟨frames, hframes⟩ := recordCheckFrameDepth_frame
      { context with remainingDepth := context.remainingDepth - 1 } (context.remainingDepth - 1)
    rw [hframes]
    exact Action.within_set hover

theorem stays_incrementFanout
    (holds : PublishedSnapshot → Prop)
    (hexn : ∀ error, exn (.evaluation error))
    (current : Nat) :
    Stays holds exn (incrementFanout current) := by
  apply Action.within_get_bind
  intro context _
  dsimp only
  split
  · exact Action.within_throw (hexn _)
  · exact Action.within_pure _

theorem stays_openKey
    (hexn : ∀ error, exn (.evaluation error))
    (key : CheckKey) (memoEligible : Bool) :
    Stays holds exn (openKey key memoEligible) := by
  apply Action.within_get_bind
  intro context _
  refine (stays_enter holds hexn _).bind (fun _ => Action.within_modify (fun entered hover => ?_))
  have hframed : (if memoEligible then entered.pushCheckFrame context.remainingDepth
      else entered).snapshot = entered.snapshot := by
    split <;> rfl
  rw [(pushCheckKey_frame _ key).1, hframed]
  exact hover

theorem stays_runKey
    (hexn : ∀ error, exn (.evaluation error))
    {key : CheckKey} {memoEligible : Bool} {evaluate : Evaluation Membership}
    (h : Stays holds exn evaluate) :
    Stays holds exn (runKey key memoEligible evaluate) := by
  refine (stays_openKey hexn key memoEligible).bind
    (fun _ => h.attempt_bind (fun result hresult => ?_))
  refine Action.Within.bind (Action.within_modify (fun context h => ?_)) (fun _ => ?_)
  · rw [closeKey_snapshot]
    exact h
  · exact Action.within_lift hresult

theorem stays_evaluateCheckKey
    (holds : PublishedSnapshot → Prop)
    (hexn : ∀ error, exn (.evaluation error))
    {key : CheckKey} {evaluate : Evaluation Membership}
    (hkey : ∀ error, CheckMemoKey.fromCheckKey key = .error error → exn error)
    (h : Stays holds exn evaluate) :
    Stays holds exn (evaluateCheckKey key evaluate) := by
  apply Action.within_get_bind
  intro context _
  split
  · exact Action.within_pure _
  · split
    · refine Action.within_lift_bind (fun error herror => ?_) (fun found _ => ?_)
      · unfold EvaluationContext.memoLookup at herror
        split at herror
        · cases herror
        · cases hmemo : CheckMemoKey.fromCheckKey key with
          | ok memoKey =>
              rw [hmemo] at herror
              cases herror
          | error failure =>
              rw [hmemo] at herror
              cases herror
              exact hkey _ hmemo
      · cases found with
        | some membership => exact Action.within_pure _
        | none => exact stays_runKey hexn h
    · exact stays_runKey hexn h

/-- A resolved position is looked up without failure. -/
theorem stays_relationById_bind
    (holds : PublishedSnapshot → Prop)
    {α : Type} {id : SchemaRelationId} {definition : RelationDefinition}
    {f : RelationDefinition → Evaluation α}
    (hget : ∀ snapshot, holds snapshot →
      snapshot.schema.resolver.relationById id = some definition)
    (hf : Stays holds exn (f definition)) :
    Stays holds exn (relationById id >>= f) := by
  intro context hover
  have hfound : relationById id context = (.ok definition, context) := by
    unfold relationById
    rw [Action.get_bind_apply, hget context.snapshot hover]
    rfl
  rw [Action.bind_apply, hfound]
  exact hf context hover

end Steps

end Evaluation

end SimpleZanzibar
