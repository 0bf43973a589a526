import SimpleZanzibar.Eval.Frames
import SimpleZanzibar.Eval.MemoHits

/-!
# The depth of a memo entry

An answer of the memo must not take less depth than the evaluation that it stands for.  Where
the keys of a snapshot do not depend on themselves and every memo hit is covered, the run of a
request is simulated by fresh runs: with the depth that an entry takes its key is evaluated
from scratch, and a check that runs out of depth on a fresh context runs out of it on the
shared one.

**Results.**
* `HonestEntry`: evaluating the key from scratch takes no more depth than the entry says.
* `coveredNested_simulated`: a covered run is simulated by a fresh one.
* `memo_reports_depth_of_covered`: no depth error is hidden.
* `memo_hides_depth_error`: an uncovered hit hides one.
-/

namespace SimpleZanzibar

open BoolSystem

section Calls

variable [StoreHasher] {snapshot : PublishedSnapshot} {user : User} {P : RelKey → Prop}

/-- The nested keys that the body of a key asks for: the keys that satisfy `P`, with a body
that leads to their definition. -/
def FittingCalls (snapshot : PublishedSnapshot) (P : RelKey → Prop) (object : Object)
    (relation : RelationName) (body : Evaluation.NestedBody) : Prop :=
  P ⟨object, relation⟩ ∧ Search.BodyFits snapshot ⟨object, relation⟩ body

theorem rowsCall_of_storedUsersets
    (hview : snapshot.relationships.Inv)
    {object : Object} {relation : RelationName} {relationOf : RelationName → RelationName}
    (h : ∀ k ∈ storedUsersets snapshot.relationships.liveSet ⟨object, relation⟩,
      P ⟨k.object, relationOf k.relation⟩) :
    Evaluation.RowsCall snapshot (FittingCalls snapshot P) object relation relationOf := by
  intro resource hresource ref href target htarget
  obtain ⟨rs, hrs, hstored⟩ := Search.exists_rows_of_key hview resource relation
  rw [ObjectRef.tryFrom_ok_iff.mp hresource] at hstored
  obtain ⟨r, hr, hrelationship⟩ := RefsDenote.exists_of_mem hrs href
  obtain ⟨hsubject, _, _⟩ := RelationshipRef.accessors_of_relationship hrelationship
  rw [hsubject] at htarget
  obtain ⟨k, hk, rfl⟩ := Option.map_eq_some_iff.mp (Except.ok.inj htarget)
  exact ⟨h k ((hstored k).mpr ⟨r, hr, hk⟩), trivial⟩

/-- `this` asks for the stored usersets. -/
theorem rowsCall_this
    (hview : snapshot.relationships.Inv)
    {key : RelKey}
    (h : ∀ k, Formula.Refers (thisFormula snapshot.relationships.liveSet
      (directMatch snapshot.relationships user) key) k → P k) :
    Evaluation.RowsCall snapshot (FittingCalls snapshot P) key.object key.relation id :=
  rowsCall_of_storedUsersets hview (fun k hk =>
    h k (.any (List.mem_cons_of_mem _ (List.mem_map_of_mem hk)) .atom))

/-- A rewrite asks for the keys that it refers to. -/
theorem callsIn_of_refers
    (hview : snapshot.relationships.Inv)
    {key : RelKey} {objectType : ObjectType}
    (htype : Identifier.new .objectType key.object.namespaceName = .ok objectType)
    {expression : CompiledUsersetExpression}
    (hresolved : expression.ResolvedIn snapshot.schema.resolver objectType)
    (h : ∀ k, Formula.Refers (rewriteFormula snapshot.relationships.liveSet
      (directMatch snapshot.relationships user) key expression.source) k → P k) :
    Evaluation.CallsIn snapshot (FittingCalls snapshot P) key.object key.relation expression := by
  induction hresolved with
  | this => exact .this (rowsCall_this hview h)
  | @computedUserset relation id hasRewrite target htarget hget hrewrite =>
      have hdefinition : snapshot.schema.definitionOf ⟨key.object, relation⟩ = some target :=
        CompiledSchema.definitionOf_eq_some.mpr ⟨objectType, htype, htarget⟩
      refine .computedUserset ⟨h ⟨key.object, relation⟩ .atom, ?_⟩
      cases hasRewrite with
      | true => exact ⟨target, hdefinition, hget⟩
      | false => exact ⟨target, hdefinition, by simpa using hrewrite.symm⟩
  | @tupleToUserset tupleset computed id target htarget hget =>
      refine .tupleToUserset (fun definition hid => ?_)
      rw [hget] at hid
      cases hid
      rw [(SchemaResolver.mem_of_relation htarget).1]
      exact rowsCall_of_storedUsersets hview (fun k hk =>
        h _ (.any (List.mem_map.mpr ⟨k, hk, rfl⟩) .atom))
  | @union expressions _ ih =>
      simp only [CompiledUsersetExpression.source, CompiledUsersetExpression.sources_eq_map,
        rewriteFormula, rewriteFormulas_eq_map, List.map_map] at h
      exact .union (fun e he => ih e he (fun k hk => h k (.any (List.mem_map_of_mem he) hk)))
  | @intersection expressions _ ih =>
      simp only [CompiledUsersetExpression.source, CompiledUsersetExpression.sources_eq_map,
        rewriteFormula, rewriteFormulas_eq_map, List.map_map] at h
      exact .intersection (fun e he =>
        ih e he (fun k hk => h k (.all (List.mem_map_of_mem he) hk)))
  | @exclusion base exclude _ _ ihb ihe =>
      simp only [CompiledUsersetExpression.source, rewriteFormula] at h
      exact .exclusion (ihb (fun k hk => h k (.base hk))) (ihe (fun k hk => h k (.exclude hk)))

/-- A definition asks for the keys that the equation of its key refers to. -/
theorem definitionCalls_of_definitionOf
    (hsnapshot : snapshot.Admissible)
    {key : RelKey} {definition : RelationDefinition}
    (hdefinition : snapshot.schema.definitionOf key = some definition)
    (h : ∀ k, Formula.Refers (snapshot.system user key) k → P k) :
    Evaluation.DefinitionCalls snapshot (FittingCalls snapshot P) key.object key.relation
      definition := by
  have hsystem : snapshot.system user key = definitionFormula snapshot.relationships.liveSet
      (directMatch snapshot.relationships user) key definition := by
    unfold PublishedSnapshot.system membershipSystem
    rw [hdefinition]
  obtain ⟨objectType, htype, hrelation⟩ := CompiledSchema.definitionOf_eq_some.mp hdefinition
  obtain ⟨hsource, hresolved⟩ := hsnapshot.schema.relation hrelation
  rw [hsystem] at h
  unfold definitionFormula at h
  unfold Evaluation.DefinitionCalls
  cases hcompiled : definition.compiledUsersetRewrite with
  | none =>
      rw [hcompiled] at hsource
      rw [← hsource] at h
      exact rowsCall_this hsnapshot.inv h
  | some expression =>
      rw [hcompiled] at hsource
      rw [← hsource] at h
      exact callsIn_of_refers hsnapshot.inv htype (hresolved expression hcompiled) h

/-- So does the body of a nested key, whichever way its definition is found. -/
theorem bodyCalls_of_fits
    (hsnapshot : snapshot.Admissible)
    {key : RelKey} {body : Evaluation.NestedBody}
    (hfits : Search.BodyFits snapshot key body)
    (h : ∀ k, Formula.Refers (snapshot.system user key) k → P k) :
    Evaluation.BodyCalls snapshot (FittingCalls snapshot P) key.object key.relation body := by
  cases body with
  | relationName =>
      intro objectType definition htype hrelation
      exact definitionCalls_of_definitionOf hsnapshot
        (CompiledSchema.definitionOf_eq_some.mpr ⟨objectType, htype, hrelation⟩) h
  | relationId id =>
      intro definition hid
      obtain ⟨found, hfound, hget⟩ := hfits
      rw [hid] at hget
      cases hget
      exact definitionCalls_of_definitionOf hsnapshot hfound h
  | plain =>
      obtain ⟨definition, hdefinition, hrewrite⟩ := hfits
      obtain ⟨_, _, hrelation⟩ := CompiledSchema.definitionOf_eq_some.mp hdefinition
      have hcompiled : definition.compiledUsersetRewrite = none := by
        have hsource := (hsnapshot.schema.relation hrelation).1
        rw [hrewrite, Option.map_eq_none_iff] at hsource
        exact hsource
      have hcalls := definitionCalls_of_definitionOf hsnapshot hdefinition h
      unfold Evaluation.DefinitionCalls at hcalls
      rw [hcompiled] at hcalls
      exact hcalls

/-- The keys that a check asks for: those that the equation of the checked key refers to. -/
def CheckRequest.Asks (snapshot : PublishedSnapshot) (request : CheckRequest) (k : RelKey) :
    Prop :=
  ∃ name : RelationName, name.value = request.relation.name ∧
    Formula.Refers (snapshot.system request.user ⟨request.object, name⟩) k

/-- A check over two evaluations of nested keys that are related on the keys it asks for. -/
theorem CheckRequest.entered_related
    {Rel : ∀ α : Type, Evaluation α → Evaluation α → Prop}
    (hrel : Evaluation.Congruence snapshot Rel)
    (hsnapshot : snapshot.Admissible)
    {request : CheckRequest}
    (hresolved : request.Resolved snapshot.schema)
    {nested nested' : Evaluation.Nested}
    (hnested : ∀ k body, request.Asks snapshot k → Search.BodyFits snapshot k body →
      Rel Membership (nested k.object k.relation body) (nested' k.object k.relation body)) :
    Rel Membership (request.entered nested) (request.entered nested') := by
  have hcalls : ∀ object relation body,
      FittingCalls snapshot (request.Asks snapshot) object relation body →
      Rel Membership (nested object relation body) (nested' object relation body) :=
    fun object relation body hcall => hnested ⟨object, relation⟩ body hcall.1 hcall.2
  cases request with
  | named object relation user =>
      refine hrel.checkEntered hcalls user ?_
      intro objectType name definition htype hname hdefinition
      have hfound : snapshot.schema.definitionOf ⟨object, name⟩ = some definition :=
        CompiledSchema.definitionOf_eq_some.mpr ⟨objectType, htype, hdefinition⟩
      exact definitionCalls_of_definitionOf hsnapshot hfound
        (fun k hrefers => ⟨name, Identifier.new_ok_iff.mp hname, hrefers⟩)
  | prepared object relation user definition =>
      exact hrel.evalDefinition hcalls user (definitionCalls_of_definitionOf hsnapshot
        hresolved.2 (fun k hrefers => ⟨definition.name, hresolved.1, hrefers⟩))

end Calls

/-! ## Fresh runs and shared runs -/

section Runs

variable [StoreHasher]

/-- The key on the stack. -/
abbrev stackKey (snapshot : PublishedSnapshot) (user : User) (key : RelKey) : CheckKey :=
  CheckKey.fromRelationName snapshot key.object key.relation user

/-- Every key that the stack cuts depends on the key. -/
def StackAbove (snapshot : PublishedSnapshot) (user : User) (key : RelKey)
    (stack : List CheckKey) : Prop :=
  ∀ s ∈ cutSet snapshot user stack, Relation.TransGen (Step (snapshot.system user)) s key

/-- No key depends on itself. -/
def PublishedSnapshot.Acyclic (snapshot : PublishedSnapshot) : Prop :=
  ∀ user key, ¬ Relation.TransGen (Step (snapshot.system user)) key key

/-- A context without a memo, of this stack and depth and under the fanout limit. -/
structure Unmemoised (snapshot : PublishedSnapshot) (limits : EvaluationLimits)
    (stack : List CheckKey) (depth : Nat) (context : EvaluationContext) : Prop where
  reads : context.snapshot = snapshot
  fanout : context.limits.maxFanoutPerStep = limits.maxFanoutPerStep
  active : context.ActiveInv
  checkStack : context.checkStack = stack
  remainingDepth : context.remainingDepth = depth
  noMemo : context.checkMemo = none

/-- Evaluating the key from scratch with at least the depth that the entry takes gives the
answer of the entry. -/
def HonestEntry (snapshot : PublishedSnapshot) (limits : EvaluationLimits) (user : User)
    (key : RelKey) (entry : CheckMemoEntry) : Prop :=
  ∀ stack depth fuel body context, StackAbove snapshot user key stack →
    Search.BodyFits snapshot key body → entry.depthRequired ≤ depth → depth ≤ fuel →
    depth ≤ u32Max → Unmemoised snapshot limits stack depth context →
    ∃ context', Evaluation.checkNested user fuel key.object key.relation body context =
      (.ok entry.membership, context') ∧ Unmemoised snapshot limits stack depth context'

/-- Every entry of the memo is honest. -/
def RequestCheckMemo.Honest (snapshot : PublishedSnapshot) (limits : EvaluationLimits)
    (memo : RequestCheckMemo) : Prop :=
  ∀ memoKey entry, memo.entries.lookup memoKey = some entry →
    ∃ user key, memoKey = memoKeyOf snapshot user key ∧ HonestEntry snapshot limits user key entry

/-- A context with an honest memo, of this stack and depth and with these frames. -/
structure Memoised (snapshot : PublishedSnapshot) (limits : EvaluationLimits)
    (stack : List CheckKey) (depth : Nat) (frames : List CheckFrame)
    (context : EvaluationContext) : Prop where
  reads : context.snapshot = snapshot
  underLimits : context.limits = limits
  active : context.ActiveInv
  checkStack : context.checkStack = stack
  remainingDepth : context.remainingDepth = depth
  aligned : Aligned frames context.checkFrames
  memo : ∃ memo, context.checkMemo = some memo ∧ memo.Honest snapshot limits

/-- The errors that a simulation does not follow: no depth left, and the mark of the guard. -/
def DepthOrMark (error : ZanzibarError) : Prop :=
  error = uncoveredHitError ∨ ∃ key, error = .evaluation (.depthExceeded key)

/-- A shared run of this stack and depth is simulated by a fresh one that has no less depth
than the floor leaves of it. -/
abbrev Simulated (snapshot : PublishedSnapshot) (limits : EvaluationLimits)
    (stack : List CheckKey) (depth : Nat) (frames : List CheckFrame) (stack' : List CheckKey)
    (depth' floor : Nat) (α : Type) (x x' : Evaluation α) : Prop :=
  x.Tracks (Memoised snapshot limits stack depth frames)
    (fun context => AboveFloor floor context.checkFrames) DepthOrMark
    (fun _ context' => Unmemoised snapshot limits stack' depth' context') x'

variable {snapshot : PublishedSnapshot} {limits : EvaluationLimits} {user : User}
  {key : RelKey} {stack stack' : List CheckKey} {depth depth' floor : Nat}
  {frames : List CheckFrame} {context : EvaluationContext}

theorem StackAbove.not_mem
    (h : StackAbove snapshot user key stack)
    (hacyclic : snapshot.Acyclic) :
    stackKey snapshot user key ∉ stack :=
  fun hmem => hacyclic user key (h key hmem)

/-- Below a key the stack is above the keys that it refers to. -/
theorem StackAbove.push
    {k : RelKey}
    (h : StackAbove snapshot user key stack)
    (hrefers : Formula.Refers (snapshot.system user key) k) :
    StackAbove snapshot user k
      (stackKey snapshot user key :: stack) := by
  intro s hs
  rw [cutSet_cons] at hs
  rcases hs with rfl | hs
  · exact .single hrefers
  · exact .tail (h s hs) hrefers

theorem congruence_simulated :
    Evaluation.Congruence snapshot
      (Simulated snapshot limits stack depth frames stack' depth' floor) := by
  refine Evaluation.congruence_tracks (fun _ h => h.reads) (fun _ _ _ h => h.reads)
    (fun current => ?_)
  have happly : ∀ context : EvaluationContext,
      (Evaluation.incrementFanout current context).2 = context := by
    intro context
    unfold Evaluation.incrementFanout
    rw [Action.get_bind_apply]
    split <;> rfl
  refine ⟨fun context h => ?_, fun context _ h => ?_, ?_⟩
  · rw [happly]
    exact h
  · rwa [happly] at h
  · rintro context context' r t h h' hrun _ _
    refine ⟨context', ?_, h'⟩
    have hsame : (Evaluation.incrementFanout current context').1 =
        (Evaluation.incrementFanout current context).1 := by
      unfold Evaluation.incrementFanout
      rw [Action.get_bind_apply, Action.get_bind_apply, h'.fanout, h.underLimits]
      split <;> rfl
    rw [hrun] at hsame
    exact Prod.ext hsame (happly context')

omit [StoreHasher] in
theorem Unmemoised.not_active
    (h : Unmemoised snapshot limits stack depth context)
    {checkKey : CheckKey}
    (hkey : checkKey ∉ stack) :
    context.isCheckActive checkKey = false := by
  rw [← Bool.not_eq_true, h.active.isCheckActive_iff, h.checkStack]
  exact hkey

omit [StoreHasher] in
/-- Without a memo a key is evaluated by its body, one level deeper. -/
theorem Unmemoised.evaluateCheckKey
    (h : Unmemoised snapshot limits stack depth context)
    {checkKey : CheckKey} {evaluate : Evaluation Membership}
    {result : Except ZanzibarError Membership}
    (hkey : checkKey ∉ stack)
    (hdepth : depth ≠ 0)
    (hmax : depth ≤ u32Max)
    (hbody : ∀ opened, Unmemoised snapshot limits (checkKey :: stack) (depth - 1) opened →
      ∃ evaluated, evaluate opened = (result, evaluated) ∧
        Unmemoised snapshot limits (checkKey :: stack) (depth - 1) evaluated) :
    ∃ closed, Evaluation.evaluateCheckKey checkKey evaluate context = (result, closed) ∧
      Unmemoised snapshot limits stack depth closed := by
  have hremaining : context.remainingDepth ≠ 0 := h.remainingDepth ▸ hdepth
  obtain ⟨active, hopen⟩ := Evaluation.openKey_apply checkKey false hremaining
  have hactive := h.checkStack ▸ Evaluation.openKey_cases checkKey false context
  rcases hactive with hfail | ⟨opened, hopened, hover, hlimits, hstack, hmemo, hinv⟩
  · rw [hopen] at hfail
    cases hfail
  · have hopenedDepth : opened.remainingDepth = depth - 1 := by
      rw [hopen] at hopened
      cases hopened
      exact congrArg (· - 1) h.remainingDepth
    obtain ⟨evaluated, hevaluated, hafter⟩ := hbody opened
      ⟨hover.trans h.reads, (congrArg (·.maxFanoutPerStep) hlimits).trans h.fanout,
        hinv h.active hkey, hstack, hopenedDepth, hmemo.trans h.noMemo⟩
    obtain ⟨hclosedActive, _⟩ := Evaluation.closeKey_spec false result hafter.active
      hafter.checkStack
    obtain ⟨active', hclose⟩ := Evaluation.closeKey_apply hafter.checkStack result
    refine ⟨Evaluation.closeKey checkKey false result evaluated, ?_, ?_⟩
    · unfold Evaluation.evaluateCheckKey
      rw [Action.get_bind_apply, h.not_active hkey, h.noMemo]
      simp only [Bool.false_eq_true, if_false, Option.isSome_none, Bool.false_and,
        Evaluation.runKey_apply, hopened, hevaluated]
    · refine ⟨?_, ?_, hclosedActive, ?_, ?_, ?_⟩
      · rw [hclose]
        exact hafter.reads
      · rw [hclose]
        exact hafter.fanout
      · rw [hclose]
      · rw [hclose]
        show min (evaluated.remainingDepth + 1) u32Max = depth
        rw [hafter.remainingDepth]
        omega
      · rw [hclose]
        exact hafter.noMemo

theorem Memoised.not_active
    (h : Memoised snapshot limits stack depth frames context)
    {checkKey : CheckKey}
    (hkey : checkKey ∉ stack) :
    context.isCheckActive checkKey = false := by
  rw [← Bool.not_eq_true, h.active.isCheckActive_iff, h.checkStack]
  exact hkey

/-- Opening a key on the shared context. -/
theorem Memoised.openKey
    (h : Memoised snapshot limits stack depth frames context)
    (checkKey : CheckKey) (memoEligible : Bool)
    (hkey : checkKey ∉ stack)
    (hdepth : depth ≠ 0) :
    ∃ opened, Evaluation.openKey checkKey memoEligible context = (.ok (), opened) ∧
      Memoised snapshot limits (checkKey :: stack) (depth - 1) opened.checkFrames opened ∧
      opened.checkFrames =
        if memoEligible then
          ⟨depth, depth - 1⟩ :: lowerFrames (depth - 1) context.checkFrames
        else lowerFrames (depth - 1) context.checkFrames := by
  have hremaining : context.remainingDepth ≠ 0 := h.remainingDepth ▸ hdepth
  obtain ⟨active, hopen⟩ := Evaluation.openKey_apply checkKey memoEligible hremaining
  rcases Evaluation.openKey_cases checkKey memoEligible context with hfail |
    ⟨opened, hopened, hover, hlimits, hstack, hmemo, hinv⟩
  · rw [hopen] at hfail
    cases hfail
  · have hstate := congrArg Prod.snd (hopened.symm.trans hopen)
    simp only [h.remainingDepth] at hstate
    refine ⟨opened, hopened, ⟨hover.trans h.reads, hlimits.trans h.underLimits,
      hinv h.active (h.checkStack ▸ hkey), hstack.trans (congrArg _ h.checkStack), ?_,
      Aligned.refl _, hmemo ▸ h.memo⟩, ?_⟩
    · rw [hstate]
    · rw [hstate]

/-- Closing a key on the shared context keeps the memo honest where the answer of the key is
honest at the depth that its frame has seen. -/
theorem Memoised.closeKey
    {evaluated : EvaluationContext} {minimum : Nat} {outer : List CheckFrame}
    {result : Except ZanzibarError Membership}
    (h : Memoised snapshot limits
      (stackKey snapshot user key :: stack) (depth - 1)
      (⟨depth, minimum⟩ :: outer) evaluated)
    (hdepth : depth ≠ 0)
    (hmax : depth ≤ u32Max)
    (houter : Aligned frames outer)
    (hhonest : ∀ membership minimum', result = .ok membership →
      evaluated.checkFrames = ⟨depth, minimum'⟩ :: outer →
      HonestEntry snapshot limits user key ⟨membership, max 1 (depth - minimum')⟩) :
    Memoised snapshot limits stack depth frames (Evaluation.closeKey
        (stackKey snapshot user key) true result evaluated) ∧
      ∃ minimum', evaluated.checkFrames = ⟨depth, minimum'⟩ :: outer ∧
        (Evaluation.closeKey (stackKey snapshot user key) true
          result evaluated).checkFrames = lowerFrames minimum' outer := by
  obtain ⟨minimum', hframes⟩ : ∃ minimum', evaluated.checkFrames = ⟨depth, minimum'⟩ :: outer := by
    have haligned := h.aligned
    generalize evaluated.checkFrames = current at haligned
    cases haligned with
    | cons entry minimum minimum' rest => exact ⟨minimum', rfl⟩
  obtain ⟨memo, hmemo, hentries⟩ := h.memo
  obtain ⟨hactive, _⟩ := Evaluation.closeKey_spec true result h.active h.checkStack
  obtain ⟨active, memo', hclose, hinsert⟩ := Evaluation.closeKey_frame h.checkStack hframes hmemo
    (fromCheckKey_fromRelationName snapshot user key) result
  refine ⟨⟨?_, ?_, hactive, ?_, ?_, ?_, ?_⟩, minimum', hframes, ?_⟩
  · rw [hclose]
    exact h.reads
  · rw [hclose]
    exact h.underLimits
  · rw [hclose]
  · rw [hclose]
    show min (evaluated.remainingDepth + 1) u32Max = depth
    rw [h.remainingDepth]
    omega
  · rw [hclose]
    exact houter.lower minimum'
  · rw [hclose]
    refine ⟨memo', rfl, ?_⟩
    rcases hinsert with rfl | ⟨membership, hresult, rfl⟩
    · exact hentries
    · intro memoKey entry hlookup
      rcases RequestCheckMemo.lookup_insert_or hlookup with hold | ⟨hkey, rfl⟩
      · exact hentries memoKey entry hold
      · exact ⟨user, key, hkey, hhonest membership minimum' hresult hframes⟩
  · rw [hclose]

/-- A nested key on the shared context is looked up in the memo, and run where it is not found. -/
theorem Memoised.evaluateCheckKey_eq
    (h : Memoised snapshot limits stack depth frames context)
    (evaluate : Evaluation Membership)
    (hkey : stackKey snapshot user key ∉ stack)
    (hstack : stack ≠ []) :
    ∃ memo, context.checkMemo = some memo ∧
      Evaluation.evaluateCheckKey (stackKey snapshot user key) evaluate context =
        (memo.get (memoKeyOf snapshot user key) depth).elim
          (Evaluation.runKey (stackKey snapshot user key) true evaluate context)
          (fun membership => (.ok membership, context)) := by
  obtain ⟨memo, hmemo, _⟩ := h.memo
  have hlookup : context.memoLookup
      (stackKey snapshot user key) =
      .ok (memo.get (memoKeyOf snapshot user key) depth) := by
    unfold EvaluationContext.memoLookup
    rw [hmemo]
    simp only [fromCheckKey_fromRelationName, h.remainingDepth]
    rfl
  have hnonempty : context.checkStack.isEmpty = false := by
    rw [h.checkStack, List.isEmpty_eq_false_iff]
    exact hstack
  refine ⟨memo, hmemo, ?_⟩
  unfold Evaluation.evaluateCheckKey
  rw [Action.get_bind_apply, h.not_active hkey, hmemo, hnonempty]
  simp only [Bool.false_eq_true, if_false, Option.isSome_some, Bool.not_false, Bool.and_self,
    if_true, hlookup, Action.bind_apply, Action.lift_apply]
  cases memo.get (memoKeyOf snapshot user key) depth <;> rfl

/-- A nested key on the shared context is answered from the memo, fails without depth or is
evaluated below a frame of its own. -/
theorem Memoised.evaluateCheckKey_cases
    (h : Memoised snapshot limits stack depth frames context)
    (evaluate : Evaluation Membership)
    (hkey : stackKey snapshot user key ∉ stack)
    (hstack : stack ≠ []) :
    (∃ memo entry, context.checkMemo = some memo ∧
        memo.entries.lookup (memoKeyOf snapshot user key) = some entry ∧
        entry.depthRequired ≤ depth ∧
        Evaluation.evaluateCheckKey (stackKey snapshot user key)
          evaluate context = (.ok entry.membership, context)) ∨
      Evaluation.evaluateCheckKey (stackKey snapshot user key) evaluate context =
        (.error (.evaluation (.depthExceeded (.check (stackKey snapshot user key)))), context) ∨
      depth ≠ 0 ∧ ∃ opened,
        Memoised snapshot limits
          (stackKey snapshot user key :: stack) (depth - 1)
          (⟨depth, depth - 1⟩ :: lowerFrames (depth - 1) context.checkFrames) opened ∧
        Evaluation.evaluateCheckKey (stackKey snapshot user key)
          evaluate context = ((evaluate opened).1,
            Evaluation.closeKey (stackKey snapshot user key)
              true (evaluate opened).1 (evaluate opened).2) := by
  obtain ⟨memo, hmemo, hevaluate⟩ := h.evaluateCheckKey_eq evaluate hkey hstack
  rw [hevaluate]
  cases hget : memo.get (memoKeyOf snapshot user key) depth with
  | some membership =>
      left
      unfold RequestCheckMemo.get at hget
      split at hget
      · next entry hentry =>
          split at hget
          · next hrequired =>
              cases hget
              exact ⟨memo, entry, hmemo, hentry, hrequired, rfl⟩
          · cases hget
      · cases hget
  | none =>
      right
      by_cases hdepth : depth = 0
      · left
        have hopen := Evaluation.openKey_zero
          (stackKey snapshot user key) true
          (h.remainingDepth.trans hdepth)
        simp only [Option.elim_none, Evaluation.runKey_apply, hopen]
      · right
        obtain ⟨opened, hopen, hopened, hframes⟩ := h.openKey _ true hkey hdepth
        rw [if_pos rfl] at hframes
        rw [hframes] at hopened
        refine ⟨hdepth, opened, hopened, ?_⟩
        simp only [Option.elim_none, Evaluation.runKey_apply, hopen]

/-- The body of a key, whichever way it is found. -/
theorem nestedEntered_apply
    {nested : Evaluation.Nested} {body : Evaluation.NestedBody} {definition : RelationDefinition}
    (hschema : snapshot.schema.Accepted)
    (hfits : Search.BodyFits snapshot key body)
    (hdefinition : snapshot.schema.definitionOf key = some definition)
    (hover : context.snapshot = snapshot) :
    Evaluation.nestedEntered nested key.object key.relation user body context =
      Evaluation.evalDefinition nested key.object key.relation user definition context := by
  obtain ⟨objectType, htype, hrelation⟩ := CompiledSchema.definitionOf_eq_some.mp hdefinition
  cases body with
  | relationName =>
      show Evaluation.checkRelationNameEntered nested key.object key.relation user context = _
      unfold Evaluation.checkRelationNameEntered Evaluation.ofDomain Evaluation.ofSchema
      simp only [htype, Action.bind_apply, Action.lift_apply, Except.mapError, Action.get_apply,
        hover, hrelation]
  | relationId id =>
      obtain ⟨found, hfound, hid⟩ := hfits
      rw [hdefinition] at hfound
      cases hfound
      show Evaluation.checkRelationIdEntered nested key.object key.relation id user context = _
      unfold Evaluation.checkRelationIdEntered Evaluation.relationById
      simp only [Action.bind_apply, Action.get_apply, hover, hid, Action.pure_apply]
  | plain =>
      obtain ⟨found, hfound, hrewrite⟩ := hfits
      rw [hdefinition] at hfound
      cases hfound
      have hcompiled : definition.compiledUsersetRewrite = none := by
        have hsource := (hschema.relation hrelation).1
        rw [hrewrite, Option.map_eq_none_iff] at hsource
        exact hsource
      show Evaluation.evalThis nested key.object key.relation user context = _
      unfold Evaluation.evalDefinition
      rw [hcompiled]

/-- The bodies of a key are simulated where the keys below it are. -/
theorem nestedEntered_simulated
    (hsnapshot : snapshot.Admissible)
    {nested nested' : Evaluation.Nested} {body body' : Evaluation.NestedBody}
    (hfits : Search.BodyFits snapshot key body)
    (hfits' : Search.BodyFits snapshot key body')
    (hnested : ∀ k body, Formula.Refers (snapshot.system user key) k →
      Search.BodyFits snapshot k body →
      Simulated snapshot limits stack depth frames stack' depth' floor Membership
        (nested k.object k.relation body) (nested' k.object k.relation body)) :
    Simulated snapshot limits stack depth frames stack' depth' floor Membership
      (Evaluation.nestedEntered nested key.object key.relation user body)
      (Evaluation.nestedEntered nested' key.object key.relation user body') := by
  have hcalls : ∀ object relation body,
      FittingCalls snapshot (Formula.Refers (snapshot.system user key)) object relation body →
      Simulated snapshot limits stack depth frames stack' depth' floor Membership
        (nested object relation body) (nested' object relation body) :=
    fun object relation body hcall => hnested ⟨object, relation⟩ body hcall.1 hcall.2
  cases hdefinition : snapshot.schema.definitionOf key with
  | some definition =>
      have hbody := congruence_simulated.evalDefinition hcalls user
        (definitionCalls_of_definitionOf hsnapshot hdefinition (fun _ hk => hk))
      exact hbody.congr
        (fun context h => nestedEntered_apply hsnapshot.schema hfits hdefinition h.reads)
        (fun _ context _ h => nestedEntered_apply hsnapshot.schema hfits' hdefinition h.reads)
  | none =>
      have hname : ∀ {body}, Search.BodyFits snapshot key body → body = .relationName := by
        intro body hfits
        cases body with
        | relationName => rfl
        | relationId id =>
            obtain ⟨_, hfound, _⟩ := hfits
            rw [hdefinition] at hfound
            cases hfound
        | plain =>
            obtain ⟨_, hfound, _⟩ := hfits
            rw [hdefinition] at hfound
            cases hfound
      rw [hname hfits, hname hfits']
      refine congruence_simulated.nestedEntered hcalls user
        (fun objectType definition htype hrelation => ?_)
      rw [CompiledSchema.definitionOf_eq_some.mpr ⟨objectType, htype, hrelation⟩] at hdefinition
      cases hdefinition

/-- A run of the body of a key on the shared context gives the run of the key on a fresh one. -/
theorem checkNested_of_body
    (hacyclic : snapshot.Acyclic)
    {evaluate : Evaluation Membership} {opened : EvaluationContext} {fuel : Nat}
    {body : Evaluation.NestedBody}
    (habove : StackAbove snapshot user key stack')
    (hdepth : depth' ≠ 0)
    (hmax : depth' ≤ u32Max)
    (hfuel : depth' ≤ fuel)
    (hcontext : Unmemoised snapshot limits stack' depth' context)
    (hsimulated : Simulated snapshot limits stack depth frames
      (stackKey snapshot user key :: stack') (depth' - 1)
      floor Membership evaluate (Evaluation.nestedEntered
        (Evaluation.checkNested user (fuel - 1)) key.object key.relation user body))
    (hopened : Memoised snapshot limits stack depth frames opened)
    (hfloor : AboveFloor floor (evaluate opened).2.checkFrames)
    (hexempt : ∀ error, (evaluate opened).1 = .error error → ¬ DepthOrMark error) :
    ∃ closed, Evaluation.checkNested user fuel key.object key.relation body context =
        ((evaluate opened).1, closed) ∧
      Unmemoised snapshot limits stack' depth' closed := by
  obtain ⟨fuel, rfl⟩ : ∃ n, fuel = n + 1 := ⟨fuel - 1, by omega⟩
  unfold Evaluation.checkNested
  rw [Action.get_bind_apply, hcontext.reads]
  refine hcontext.evaluateCheckKey (habove.not_mem hacyclic) hdepth hmax (fun fresh hfresh => ?_)
  exact hsimulated.simulates opened fresh _ _ hopened hfresh rfl hfloor hexempt

/-- What a guarded run of a nested key on the shared context ends with. -/
inductive GuardedRun (snapshot : PublishedSnapshot) (limits : EvaluationLimits) (user : User)
    (key : RelKey) (stack : List CheckKey) (depth : Nat) (evaluate : Evaluation Membership)
    (context : EvaluationContext) : Except ZanzibarError Membership × EvaluationContext → Prop
  | stop {error : ZanzibarError} :
      DepthOrMark error →
      GuardedRun snapshot limits user key stack depth evaluate context (.error error, context)
  | hit {memo : RequestCheckMemo} {entry : CheckMemoEntry} :
      context.checkMemo = some memo →
      memo.entries.lookup (memoKeyOf snapshot user key) = some entry →
      entry.depthRequired ≤ depth →
      HonestEntry snapshot limits user key entry →
      context.uncoveredHit (stackKey snapshot user key) = false →
      GuardedRun snapshot limits user key stack depth evaluate context
        (.ok entry.membership, context)
  | body {opened : EvaluationContext} :
      depth ≠ 0 →
      Memoised snapshot limits (stackKey snapshot user key :: stack) (depth - 1)
        (⟨depth, depth - 1⟩ :: lowerFrames (depth - 1) context.checkFrames) opened →
      GuardedRun snapshot limits user key stack depth evaluate context
        ((evaluate opened).1, Evaluation.closeKey (stackKey snapshot user key) true
          (evaluate opened).1 (evaluate opened).2)

theorem Memoised.guarded_cases
    (h : Memoised snapshot limits stack depth frames context)
    (evaluate : Evaluation Membership)
    (hkey : stackKey snapshot user key ∉ stack)
    (hstack : stack ≠ []) :
    GuardedRun snapshot limits user key stack depth evaluate context
      (Evaluation.guardHits (stackKey snapshot user key)
        (Evaluation.evaluateCheckKey (stackKey snapshot user key) evaluate) context) := by
  unfold Evaluation.guardHits
  rw [Action.get_bind_apply]
  by_cases hhit : context.uncoveredHit (stackKey snapshot user key) = true
  · rw [if_pos hhit]
    exact .stop (Or.inl rfl)
  · rw [if_neg hhit]
    rcases h.evaluateCheckKey_cases evaluate hkey hstack with
      ⟨memo, entry, hmemo, hentry, hrequired, heq⟩ | heq | ⟨hdepth, opened, hopened, heq⟩
    · rw [heq]
      obtain ⟨memo', hmemo', hentries⟩ := h.memo
      rw [hmemo] at hmemo'
      cases hmemo'
      obtain ⟨user', key', hsame, hhonest⟩ := hentries _ _ hentry
      obtain ⟨rfl, rfl⟩ := memoKeyOf_injective hsame
      exact .hit hmemo hentry hrequired hhonest (by simpa using hhit)
    · rw [heq]
      exact .stop (Or.inr ⟨_, rfl⟩)
    · rw [heq]
      exact .body hdepth hopened

/-- A covered hit leaves a fresh run the depth that the entry takes. -/
theorem Memoised.depth_of_covered
    (h : Memoised snapshot limits stack depth frames context)
    {memo : RequestCheckMemo} {entry : CheckMemoEntry}
    (hmemo : context.checkMemo = some memo)
    (hentry : memo.entries.lookup (memoKeyOf snapshot user key) = some entry)
    (hrequired : entry.depthRequired ≤ depth)
    (hcovered : context.uncoveredHit (stackKey snapshot user key) = false)
    (habove : AboveFloor floor context.checkFrames)
    (hfloor : depth ≤ depth' + floor) :
    entry.depthRequired ≤ depth' := by
  unfold EvaluationContext.uncoveredHit at hcovered
  rw [hmemo, fromCheckKey_fromRelationName] at hcovered
  cases hframes : context.checkFrames with
  | nil =>
      rw [hframes] at habove
      have hzero : floor = 0 := habove
      omega
  | cons frame rest =>
      rw [hframes] at habove hcovered
      have hminimum : floor ≤ frame.minimumRemainingDepth := habove
      simp only [hentry, Option.any_some, Bool.and_eq_false_iff, decide_eq_false_iff_not,
        h.remainingDepth] at hcovered
      omega

section Key

variable {evaluate : Evaluation Membership}
  (hbody : ∀ stack' depth' floor fuel frames body, StackAbove snapshot user key stack' →
    Search.BodyFits snapshot key body → depth' ≤ u32Max → depth ≤ depth' + floor →
    depth' ≤ fuel → depth ≠ 0 → depth' ≠ 0 →
    Simulated snapshot limits (stackKey snapshot user key :: stack) (depth - 1) frames
      (stackKey snapshot user key :: stack') (depth' - 1) floor Membership evaluate
      (Evaluation.nestedEntered (Evaluation.checkNested user (fuel - 1)) key.object key.relation
        user body))
include hbody

/-- Closing a key whose body is simulated: the depth that its frame has seen is enough for
every fresh evaluation of the key. -/
theorem closeKey_simulated
    (hacyclic : snapshot.Acyclic)
    {opened : EvaluationContext}
    (habove : StackAbove snapshot user key stack)
    (hmax : depth ≤ u32Max)
    (hdepth : depth ≠ 0)
    (hcontext : Memoised snapshot limits stack depth frames context)
    (hopened : Memoised snapshot limits (stackKey snapshot user key :: stack) (depth - 1)
      (⟨depth, depth - 1⟩ :: lowerFrames (depth - 1) context.checkFrames) opened) :
    Memoised snapshot limits stack depth frames (Evaluation.closeKey (stackKey snapshot user key)
        true (evaluate opened).1 (evaluate opened).2) ∧
      ∃ minimum, (evaluate opened).2.checkFrames =
          ⟨depth, minimum⟩ :: lowerFrames (depth - 1) context.checkFrames ∧
        (Evaluation.closeKey (stackKey snapshot user key) true (evaluate opened).1
            (evaluate opened).2).checkFrames =
          lowerFrames minimum (lowerFrames (depth - 1) context.checkFrames) := by
  have hevaluated := (hbody stack depth 0 depth _ .relationName habove trivial hmax
    (Nat.le_refl _) (Nat.le_refl _) hdepth hdepth).keeps opened hopened
  refine hevaluated.closeKey hdepth hmax (hcontext.aligned.lower _) ?_
  intro membership minimum hresult hframes other otherDepth fuel body fresh hother hfits hrequired
    hfuel hmaxOther hfresh
  have hrequired' : max 1 (depth - minimum) ≤ otherDepth := hrequired
  have hpositive : otherDepth ≠ 0 := by omega
  have hfloor : AboveFloor (depth - otherDepth) (evaluate opened).2.checkFrames := by
    rw [hframes]
    show depth - otherDepth ≤ minimum
    omega
  have hrun := checkNested_of_body hacyclic hother hpositive hmaxOther hfuel hfresh
    (hbody other otherDepth (depth - otherDepth) fuel _ body hother hfits hmaxOther (by omega)
      hfuel hdepth hpositive)
    hopened hfloor (fun error herror => (by rw [hresult] at herror; cases herror))
  rw [hresult] at hrun
  exact hrun

/-- A nested key is simulated by a fresh evaluation where its body is, whatever the fresh stack,
depth and body. -/
theorem guarded_simulated
    (hacyclic : snapshot.Acyclic)
    {fuel : Nat} {body : Evaluation.NestedBody}
    (habove : StackAbove snapshot user key stack)
    (habove' : StackAbove snapshot user key stack')
    (hstack : stack ≠ [])
    (hfits : Search.BodyFits snapshot key body)
    (hmax : depth ≤ u32Max)
    (hmax' : depth' ≤ u32Max)
    (hfloor : depth ≤ depth' + floor)
    (hfuel : depth' ≤ fuel) :
    Simulated snapshot limits stack depth frames stack' depth' floor Membership
      (Evaluation.guardHits (stackKey snapshot user key)
        (Evaluation.evaluateCheckKey (stackKey snapshot user key) evaluate))
      (Evaluation.checkNested user fuel key.object key.relation body) := by
  have hkey := habove.not_mem hacyclic
  refine ⟨?_, ?_, ?_⟩
  · intro context hcontext
    have hcases := hcontext.guarded_cases evaluate hkey hstack
    generalize Evaluation.guardHits (stackKey snapshot user key)
      (Evaluation.evaluateCheckKey (stackKey snapshot user key) evaluate) context = run at hcases
    cases hcases with
    | stop _ => exact hcontext
    | hit _ _ _ _ _ => exact hcontext
    | body hdepth hopened =>
        exact (closeKey_simulated hbody hacyclic habove hmax hdepth hcontext hopened).1
  · intro context hcontext hlive
    have hcases := hcontext.guarded_cases evaluate hkey hstack
    generalize Evaluation.guardHits (stackKey snapshot user key)
      (Evaluation.evaluateCheckKey (stackKey snapshot user key) evaluate) context = run
      at hcases hlive
    cases hcases with
    | stop _ => exact hlive
    | hit _ _ _ _ _ => exact hlive
    | body hdepth hopened =>
        obtain ⟨_, minimum, _, hframes⟩ :=
          closeKey_simulated hbody hacyclic habove hmax hdepth hcontext hopened
        simp only [hframes] at hlive
        exact (aboveFloor_lowerFrames (aboveFloor_lowerFrames hlive).1).1
  · intro context fresh r t hcontext hfresh hrun hlive hexempt
    have hcases := hcontext.guarded_cases evaluate hkey hstack
    rw [hrun] at hcases
    cases hcases with
    | stop herror => exact absurd herror (hexempt _ rfl)
    | hit hmemo hentry hrequired hhonest hcovered =>
        exact hhonest stack' depth' fuel body fresh habove' hfits
          (hcontext.depth_of_covered hmemo hentry hrequired hcovered hlive hfloor) hfuel hmax'
          hfresh
    | body hdepth hopened =>
        obtain ⟨_, minimum, hframes, hclosed⟩ :=
          closeKey_simulated hbody hacyclic habove hmax hdepth hcontext hopened
        rw [hclosed] at hlive
        obtain ⟨hlive, hminimum⟩ := aboveFloor_lowerFrames hlive
        obtain ⟨_, hentered⟩ := aboveFloor_lowerFrames hlive
        have hdepth' : depth' ≠ 0 := by omega
        exact checkNested_of_body hacyclic habove' hdepth' hmax' hfuel hfresh
          (hbody stack' depth' floor fuel _ body habove' hfits hmax' hfloor hfuel hdepth hdepth')
          hopened (hframes ▸ hminimum) hexempt

end Key

/-- A covered run of a nested key is simulated by a fresh one that has the depth which the
innermost frame has left of it. -/
theorem coveredNested_simulated
    (hsnapshot : snapshot.Admissible)
    (hacyclic : snapshot.Acyclic)
    {fuel fuel' : Nat} {body body' : Evaluation.NestedBody}
    (habove : StackAbove snapshot user key stack)
    (habove' : StackAbove snapshot user key stack')
    (hstack : stack ≠ [])
    (hfits : Search.BodyFits snapshot key body)
    (hfits' : Search.BodyFits snapshot key body')
    (hmax : depth ≤ u32Max)
    (hmax' : depth' ≤ u32Max)
    (hfloor : depth ≤ depth' + floor)
    (hfuel : depth' ≤ fuel') :
    Simulated snapshot limits stack depth frames stack' depth' floor Membership
      (Evaluation.coveredNested user fuel key.object key.relation body)
      (Evaluation.checkNested user fuel' key.object key.relation body') := by
  induction fuel generalizing fuel' key body body' stack stack' depth depth' floor frames with
  | zero =>
      have hguarded : Simulated snapshot limits stack depth frames stack' depth' floor Membership
          (Evaluation.guardHits (stackKey snapshot user key)
            (Evaluation.evaluateCheckKey (stackKey snapshot user key) (Action.throw
              (.evaluation (.depthExceeded (.check (stackKey snapshot user key)))))))
          (Evaluation.checkNested user fuel' key.object key.relation body') := by
        refine guarded_simulated (fun _ _ _ _ _ _ _ _ _ _ _ _ _ => ?_) hacyclic habove habove'
          hstack hfits' hmax hmax' hfloor hfuel
        apply Action.tracks_throw
        exact Or.inr ⟨_, rfl⟩
      refine hguarded.congr (fun context h => ?_) (fun _ _ _ _ => rfl)
      unfold Evaluation.coveredNested
      rw [Action.get_bind_apply, h.reads]
  | succ fuel ih =>
      have hguarded : Simulated snapshot limits stack depth frames stack' depth' floor Membership
          (Evaluation.guardHits (stackKey snapshot user key)
            (Evaluation.evaluateCheckKey (stackKey snapshot user key)
              (Evaluation.nestedEntered (Evaluation.coveredNested user fuel) key.object
                key.relation user body)))
          (Evaluation.checkNested user fuel' key.object key.relation body') := by
        refine guarded_simulated (fun stack₁ depth₁ floor₁ fuel₁ frames₁ body₁ habove₁ hfits₁
          hmax₁ hfloor₁ hfuel₁ hdepth hdepth₁ => ?_) hacyclic habove habove' hstack hfits' hmax
          hmax' hfloor hfuel
        apply nestedEntered_simulated hsnapshot hfits hfits₁
        intro k body₂ hrefers hfits₂
        exact ih (habove.push hrefers) (habove₁.push hrefers) (List.cons_ne_nil _ _) hfits₂ hfits₂
          (by omega) (by omega) (by omega) (by omega)
      refine hguarded.congr (fun context h => ?_) (fun _ _ _ _ => rfl)
      unfold Evaluation.coveredNested
      rw [Action.get_bind_apply, h.reads]

/-! ## Checks of a request -/

/-- A check from an empty stack runs its body without a frame. -/
theorem Memoised.evaluateRoot
    {checkKey : CheckKey} (evaluate : Evaluation Membership)
    (hdepth : depth ≠ 0)
    (h : Memoised snapshot limits [] depth [] context) :
    ∃ opened, Memoised snapshot limits [checkKey] (depth - 1) [] opened ∧
      Evaluation.evaluateCheckKey checkKey evaluate context = ((evaluate opened).1,
        Evaluation.closeKey checkKey false (evaluate opened).1 (evaluate opened).2) := by
  obtain ⟨opened, hopen, hopened, hframes⟩ := h.openKey checkKey false List.not_mem_nil hdepth
  rw [h.aligned.eq_nil] at hframes
  rw [hframes] at hopened
  refine ⟨opened, hopened, ?_⟩
  unfold Evaluation.evaluateCheckKey
  rw [Action.get_bind_apply, h.not_active List.not_mem_nil, h.checkStack]
  simp only [Bool.false_eq_true, if_false, List.isEmpty_nil, Bool.not_true, Bool.and_false,
    Evaluation.runKey_apply, hopen]

/-- Closing the root of a check, which has no frame. -/
theorem Memoised.closeRoot
    {checkKey : CheckKey} {evaluated : EvaluationContext}
    (hdepth : depth ≠ 0)
    (hmax : depth ≤ u32Max)
    (h : Memoised snapshot limits [checkKey] (depth - 1) [] evaluated)
    (result : Except ZanzibarError Membership) :
    Memoised snapshot limits [] depth []
      (Evaluation.closeKey checkKey false result evaluated) := by
  obtain ⟨hactive, _⟩ := Evaluation.closeKey_spec false result h.active h.checkStack
  obtain ⟨_, hclose⟩ := Evaluation.closeKey_apply h.checkStack result
  rw [hclose] at hactive ⊢
  refine ⟨h.reads, h.underLimits, hactive, rfl, ?_, h.aligned, h.memo⟩
  show min (evaluated.remainingDepth + 1) u32Max = depth
  rw [h.remainingDepth]
  omega

/-- A check from an empty stack is simulated where its body is. -/
theorem evaluateRoot_simulated
    {checkKey : CheckKey} {evaluate evaluate' : Evaluation Membership} {fresh : EvaluationContext}
    (hdepth : depth ≠ 0)
    (hmax : depth ≤ u32Max)
    (hbody : Simulated snapshot limits [checkKey] (depth - 1) [] [checkKey] (depth - 1) 0
      Membership evaluate evaluate')
    (hcontext : Memoised snapshot limits [] depth [] context)
    (hfresh : Unmemoised snapshot limits [] depth fresh) :
    Memoised snapshot limits [] depth []
        (Evaluation.evaluateCheckKey checkKey evaluate context).2 ∧
      ((∀ error, (Evaluation.evaluateCheckKey checkKey evaluate context).1 = .error error →
          ¬ DepthOrMark error) →
        (Evaluation.evaluateCheckKey checkKey evaluate' fresh).1 =
          (Evaluation.evaluateCheckKey checkKey evaluate context).1) := by
  obtain ⟨opened, hopened, hevaluate⟩ := hcontext.evaluateRoot evaluate hdepth
  have hevaluated := hbody.keeps opened hopened
  rw [hevaluate]
  refine ⟨hevaluated.closeRoot hdepth hmax (evaluate opened).1, fun hexempt => ?_⟩
  have hfloor : AboveFloor 0 (evaluate opened).2.checkFrames := by
    rw [hevaluated.aligned.eq_nil]
    rfl
  obtain ⟨_, hrun, _⟩ := hfresh.evaluateCheckKey List.not_mem_nil hdepth hmax
    (fun fresh hfresh => hbody.simulates opened fresh _ _ hopened hfresh rfl hfloor hexempt)
  rw [hrun]

/-- The root alone is above the keys that a check asks for. -/
theorem CheckRequest.Asks.above
    {request : CheckRequest} {k : RelKey}
    (h : request.Asks snapshot k) :
    StackAbove snapshot request.user k [request.rootKey snapshot] := by
  obtain ⟨name, hname, hrefers⟩ := h
  intro s hs
  have hroot : s = ⟨request.object, name⟩ := by
    unfold CheckRequest.rootKey at hs
    rw [show request.relation = ⟨name.value⟩ by rw [hname]] at hs
    exact Search.rootCut_subset snapshot request.user _ hs
  rw [hroot]
  exact .single hrefers

/-- A covered check of a request is simulated by the fresh one. -/
theorem CheckRequest.runCovered_simulated
    (hsnapshot : snapshot.Admissible)
    (hacyclic : snapshot.Acyclic)
    (request : CheckRequest)
    (hresolved : request.Resolved snapshot.schema)
    {fresh : EvaluationContext}
    (hcontext : Memoised snapshot limits [] limits.maxDepth.get [] context)
    (hfresh : Unmemoised snapshot limits [] limits.maxDepth.get fresh) :
    Memoised snapshot limits [] limits.maxDepth.get [] (request.runCovered context).2 ∧
      ((∀ error, (request.runCovered context).1 = .error error → ¬ DepthOrMark error) →
        (request.run fresh).1 = (request.runCovered context).1) := by
  have hdepth : limits.maxDepth.get ≠ 0 := limits.maxDepth.pos.ne'
  have hmax : limits.maxDepth.get ≤ u32Max := Nat.le_pred_of_lt limits.maxDepth.lt
  rw [request.runCovered_eq, request.run_eq, hcontext.reads, hfresh.reads,
    hcontext.remainingDepth, hfresh.remainingDepth]
  refine evaluateRoot_simulated hdepth hmax ?_ hcontext hfresh
  refine CheckRequest.entered_related congruence_simulated hsnapshot hresolved ?_
  intro k body hasks hfits
  exact coveredNested_simulated hsnapshot hacyclic hasks.above hasks.above
    (List.cons_ne_nil _ _) hfits hfits (by omega) (by omega) (by omega) (by omega)

theorem Memoised.resetForReuse
    {depth : Nat}
    (h : Memoised snapshot limits stack depth frames context) :
    Memoised snapshot limits [] limits.maxDepth.get [] context.resetForReuse := by
  obtain ⟨hactive, hempty, hover, hlimits, hmemo, hdepth⟩ := h.active.resetForReuse
  refine ⟨hover.trans h.reads, hlimits.trans h.underLimits, hactive, hempty,
    hdepth.trans (by rw [h.underLimits]), ?_, ?_⟩
  · have hframes : context.resetForReuse.checkFrames = [] := by
      unfold EvaluationContext.resetForReuse
      split <;> rfl
    rw [hframes]
    exact .nil
  · rw [hmemo]
    exact h.memo

theorem memoised_new
    (snapshot : PublishedSnapshot) (limits : EvaluationLimits) :
    Memoised snapshot limits [] limits.maxDepth.get [] (.newWithRequestMemo snapshot limits) := by
  have hnew := EvaluationContext.activeInv_new snapshot limits
  refine ⟨rfl, rfl, { hnew with }, rfl, rfl, .nil, .new limits, rfl, ?_⟩
  intro memoKey entry hlookup
  cases hlookup

omit [StoreHasher] in
theorem unmemoised_new
    (snapshot : PublishedSnapshot) (limits : EvaluationLimits) :
    Unmemoised snapshot limits [] limits.maxDepth.get (.new snapshot limits) :=
  ⟨rfl, rfl, EvaluationContext.activeInv_new snapshot limits, rfl, rfl, rfl⟩

/-- One check of a covered run: the memo stays honest, and the check runs out of depth where
the fresh one does. -/
theorem CheckRequest.run_of_memoised
    (hsnapshot : snapshot.Admissible)
    (hacyclic : snapshot.Acyclic)
    {request : CheckRequest}
    (hresolved : request.Resolved snapshot.schema)
    (hcontext : Memoised snapshot limits [] limits.maxDepth.get [] context)
    (hcovered : (request.runCovered context).1 ≠ .error uncoveredHitError) :
    Memoised snapshot limits [] limits.maxDepth.get [] (request.run context).2 ∧
      ∀ key, (request.run (.new snapshot limits)).1 =
          .error (.evaluation (.depthExceeded key)) →
        ∃ key', (request.run context).1 = .error (.evaluation (.depthExceeded key')) := by
  rw [request.run_of_covered context hcovered]
  obtain ⟨hafter, hsame⟩ := request.runCovered_simulated hsnapshot hacyclic hresolved hcontext
    (unmemoised_new snapshot limits)
  refine ⟨hafter, fun key hfresh => ?_⟩
  by_contra hother
  have hexempt : ∀ error, (request.runCovered context).1 = .error error → ¬ DepthOrMark error := by
    rintro error herror (rfl | ⟨key', rfl⟩)
    · exact hcovered herror
    · exact hother ⟨key', herror⟩
  rw [← hsame hexempt] at hother
  exact hother ⟨key, hfresh⟩

/-- A run of covered checks. -/
theorem CheckRequest.runAll_of_memoised
    (hsnapshot : snapshot.Admissible)
    (hacyclic : snapshot.Acyclic)
    {requests : List CheckRequest}
    (hresolved : ∀ request ∈ requests, request.Resolved snapshot.schema)
    (hcontext : Memoised snapshot limits [] limits.maxDepth.get [] context)
    (hcovered : CheckRequest.Covered context requests) :
    Memoised snapshot limits [] limits.maxDepth.get []
      (CheckRequest.contextAfter context requests) ∧
      ∀ (n : Nat) (request : CheckRequest) (key : EvaluationKey), requests[n]? = some request →
        (request.run (.new snapshot limits)).1 = .error (.evaluation (.depthExceeded key)) →
        ∃ key' : EvaluationKey, (CheckRequest.runAll context requests)[n]? =
          some (.error (.evaluation (.depthExceeded key'))) := by
  induction requests generalizing context with
  | nil =>
      exact ⟨hcontext, fun n request key hget _ => (by cases hget)⟩
  | cons first rest ih =>
      obtain ⟨hmemoised, hdepth⟩ := CheckRequest.run_of_memoised hsnapshot hacyclic
        (hresolved first List.mem_cons_self) hcontext hcovered.1
      obtain ⟨hafter, hrest⟩ := ih (fun request hrequest =>
        hresolved request (List.mem_cons_of_mem _ hrequest)) hmemoised.resetForReuse hcovered.2
      refine ⟨hafter, fun n request key hget hfresh => ?_⟩
      cases n with
      | zero =>
          cases hget
          obtain ⟨key', hkey'⟩ := hdepth key hfresh
          exact ⟨key', congrArg some hkey'⟩
      | succ n => exact hrest n request key hget hfresh

end Runs

/-- On every snapshot whose keys do not depend on themselves and in every run of checks that
meets no uncovered hit, a check runs out of depth on the shared context whenever it does so on
a fresh one; and every entry of the memo that the run leaves stands for a key that with the
depth of the entry is evaluated from scratch. -/
theorem memo_reports_depth_of_covered
    [StoreHasher] {snapshot : PublishedSnapshot}
    (hsnapshot : snapshot.Admissible)
    (hacyclic : snapshot.Acyclic)
    {limits : EvaluationLimits} {start : EvaluationContext}
    (hstart : start = .newWithRequestMemo snapshot limits ∨
      start = (EvaluationContext.newWithRequestMemo snapshot limits).resetForReuse)
    {requests : List CheckRequest}
    (hresolved : ∀ request ∈ requests, request.Resolved snapshot.schema)
    (hcovered : CheckRequest.Covered start requests) :
    (∀ (n : Nat) (request : CheckRequest) (key : EvaluationKey), requests[n]? = some request →
      (request.run (.new snapshot limits)).1 = .error (.evaluation (.depthExceeded key)) →
      ∃ key' : EvaluationKey, (CheckRequest.runAll start requests)[n]? =
        some (.error (.evaluation (.depthExceeded key')))) ∧
    ∀ memo memoKey entry, (CheckRequest.contextAfter start requests).checkMemo = some memo →
      memo.entries.lookup memoKey = some entry →
      ∃ user key, memoKey = memoKeyOf snapshot user key ∧
        ∀ limits' : EvaluationLimits, limits'.maxFanoutPerStep = limits.maxFanoutPerStep →
          entry.depthRequired ≤ limits'.maxDepth.get →
          (Evaluation.checkNested user limits'.maxDepth.get key.object key.relation .relationName
            (.new snapshot limits')).1 = .ok entry.membership := by
  have hmemoised : Memoised snapshot limits [] limits.maxDepth.get [] start := by
    rcases hstart with rfl | rfl
    · exact memoised_new snapshot limits
    · exact (memoised_new snapshot limits).resetForReuse
  obtain ⟨hafter, hdepth⟩ := CheckRequest.runAll_of_memoised hsnapshot hacyclic hresolved
    hmemoised hcovered
  refine ⟨hdepth, fun memo memoKey entry hmemo hlookup => ?_⟩
  obtain ⟨memo', hmemo', hhonest⟩ := hafter.memo
  rw [hmemo] at hmemo'
  cases hmemo'
  obtain ⟨user, key, hkey, hentry⟩ := hhonest memoKey entry hlookup
  refine ⟨user, key, hkey, fun limits' hfanout hrequired => ?_⟩
  have hfresh : Unmemoised snapshot limits [] limits'.maxDepth.get (.new snapshot limits') :=
    { unmemoised_new snapshot limits' with fanout := hfanout }
  have habove : StackAbove snapshot user key [] := fun s hs => (by cases hs)
  obtain ⟨_, hrun, _⟩ := hentry [] _ limits'.maxDepth.get .relationName _ habove trivial hrequired
    (Nat.le_refl _) (Nat.le_pred_of_lt limits'.maxDepth.lt) hfresh
  rw [hrun]

/-- A snapshot all of whose references go to relations of lower rank is acyclic. -/
theorem PublishedSnapshot.acyclic_of_ranked
    [StoreHasher] {snapshot : PublishedSnapshot} {rank : RelationName → Nat}
    (h : snapshot.ranked rank = true) :
    snapshot.Acyclic := by
  have hdown : ∀ {user : User} {j k : RelKey},
      Relation.TransGen (Step (snapshot.system user)) j k → rank k.relation < rank j.relation := by
    intro user j k hjk
    induction hjk with
    | single hstep => exact PublishedSnapshot.refers_of_ranked h hstep
    | tail _ hstep ih => exact (PublishedSnapshot.refers_of_ranked h hstep).trans ih
  exact fun user key hcycle => Nat.lt_irrefl _ (hdown hcycle)

def chainLimits : EvaluationLimits :=
  ⟨⟨3, by decide, by decide⟩, ⟨10, by decide, by decide⟩, ⟨10, by decide, by decide⟩⟩

/-- Whether the evaluation ended without depth. -/
def isDepthExceeded : Except ZanzibarError Membership → Bool
  | .error (.evaluation (.depthExceeded _)) => true
  | _ => false

theorem exists_of_isDepthExceeded
    {result : Except ZanzibarError Membership}
    (h : isDepthExceeded result = true) :
    ∃ key, result = .error (.evaluation (.depthExceeded key)) := by
  unfold isDepthExceeded at h
  split at h
  · next key => exact ⟨key, rfl⟩
  · cases h

/-- The chain is checked three times with depth three.  The first check keeps the answer of `a`,
the second meets it below `b` and keeps `b` as if it took one step, and the third reads `b`
back with one step left; a fresh check of the third does not have the depth. -/
theorem memo_hides_depth_error :
    ∃ snapshot, @PublishedSnapshot.Reachable fnvHasher snapshot ∧
      @PublishedSnapshot.Acyclic fnvHasher snapshot ∧
      (@CheckRequest.runAll fnvHasher (.newWithRequestMemo snapshot chainLimits)
        [chainRequest "b", chainRequest "c", chainRequest "d"])[2]? = some (.ok .allowed) ∧
      ∃ key, @checkWithSnapshot fnvHasher snapshot ⟨"doc", "1"⟩ ⟨"d"⟩ (.userId "alice")
        chainLimits = .error (.evaluation (.depthExceeded key)) := by
  let _ := fnvHasher
  have hrun : ((WriterCommand.runAll .latestFirst chainCommands .new).map (fun state =>
      state.published.map (fun snapshot => snapshot.ranked chainRank &&
        decide (((CheckRequest.runAll (.newWithRequestMemo snapshot chainLimits)
          [chainRequest "b", chainRequest "c", chainRequest "d"])[2]?.map (·.toOption)) =
            some (some .allowed)) &&
        isDepthExceeded (checkWithSnapshot snapshot ⟨"doc", "1"⟩ ⟨"d"⟩ (.userId "alice")
          chainLimits)))).toOption = some (some true) := by
    decide +kernel
  obtain ⟨snapshot, hreachable, hvalue⟩ := exists_published_of_runAll hrun
  rw [Bool.and_eq_true, Bool.and_eq_true, decide_eq_true_iff] at hvalue
  obtain ⟨⟨hranked, hmemo⟩, hfresh⟩ := hvalue
  obtain ⟨answer, hanswer, hallowed⟩ := Option.map_eq_some_iff.mp hmemo
  refine ⟨snapshot, hreachable, PublishedSnapshot.acyclic_of_ranked hranked, ?_,
    exists_of_isDepthExceeded hfresh⟩
  rw [hanswer, eq_ok_of_toOption hallowed]

/-- The last relation of the chain does not fit the depth, before and after a check that fills
the memo. -/
theorem memo_reports_depth_of_covered_chain :
    ∃ snapshot, @PublishedSnapshot.Admissible fnvHasher snapshot ∧
      @PublishedSnapshot.Acyclic fnvHasher snapshot ∧
      @CheckRequest.Covered fnvHasher (.newWithRequestMemo snapshot chainLimits)
        [chainRequest "b", chainRequest "b", chainRequest "d"] ∧
      (∃ key, @checkWithSnapshot fnvHasher snapshot ⟨"doc", "1"⟩ ⟨"d"⟩ (.userId "alice")
        chainLimits = .error (.evaluation (.depthExceeded key))) ∧
      ∃ key, (@CheckRequest.runAll fnvHasher (.newWithRequestMemo snapshot chainLimits)
        [chainRequest "b", chainRequest "b", chainRequest "d"])[2]? =
          some (.error (.evaluation (.depthExceeded key))) := by
  let _ := fnvHasher
  have hrun : ((WriterCommand.runAll .latestFirst chainCommands .new).map (fun state =>
      state.published.map (fun snapshot => snapshot.ranked chainRank &&
        decide (CheckRequest.Covered (.newWithRequestMemo snapshot chainLimits)
          [chainRequest "b", chainRequest "b", chainRequest "d"]) &&
        isDepthExceeded (checkWithSnapshot snapshot ⟨"doc", "1"⟩ ⟨"d"⟩ (.userId "alice")
          chainLimits)))).toOption = some (some true) := by
    decide +kernel
  obtain ⟨snapshot, hreachable, hvalue⟩ := exists_published_of_runAll hrun
  rw [Bool.and_eq_true, Bool.and_eq_true, decide_eq_true_iff] at hvalue
  obtain ⟨⟨hranked, hcovered⟩, hfresh⟩ := hvalue
  have hacyclic := PublishedSnapshot.acyclic_of_ranked hranked
  obtain ⟨key, hkey⟩ := exists_of_isDepthExceeded hfresh
  have hresolved : ∀ request ∈ [chainRequest "b", chainRequest "b", chainRequest "d"],
      request.Resolved snapshot.schema := by
    intro request hrequest
    rcases List.mem_cons.mp hrequest with rfl | hrequest
    · trivial
    · rcases List.mem_cons.mp hrequest with rfl | hrequest
      · trivial
      · rw [List.mem_singleton.mp hrequest]
        trivial
  exact ⟨snapshot, hreachable.admissible, hacyclic, hcovered, ⟨key, hkey⟩,
    (memo_reports_depth_of_covered hreachable.admissible hacyclic (Or.inl rfl) hresolved
      hcovered).1 2 (chainRequest "d") key rfl hkey⟩

end SimpleZanzibar
