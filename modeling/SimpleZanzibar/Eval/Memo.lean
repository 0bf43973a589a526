import SimpleZanzibar.Eval.FreshCheck

/-!
# The request memo

A request runs several checks on one context and keeps the answers of nested keys in
between.  An answer that was computed while an ancestor of its key was cut is kept too
and then holds under other stacks, so the memo is transparent only where the keys that a
check meets do not depend on each other.
-/

namespace SimpleZanzibar

open BoolSystem

/-- One check of a request: by name, or with a relation that the caller resolved. -/
inductive CheckRequest where
  | named (object : Object) (relation : Relation) (user : User)
  | prepared (object : Object) (relation : Relation) (user : User)
      (definition : RelationDefinition)

namespace CheckRequest

def object : CheckRequest → Object
  | .named object _ _ => object
  | .prepared object _ _ _ => object

def relation : CheckRequest → Relation
  | .named _ relation _ => relation
  | .prepared _ relation _ _ => relation

def user : CheckRequest → User
  | .named _ _ user => user
  | .prepared _ _ user _ => user

/-- A prepared definition is the one that the relation names on the object. -/
def Resolved (schema : CompiledSchema) : CheckRequest → Prop
  | .named _ _ _ => True
  | .prepared object relation _ definition =>
      definition.name.value = relation.name ∧
        schema.definitionOf ⟨object, definition.name⟩ = some definition

section Runs

variable [StoreHasher]

def run : CheckRequest → Evaluation Membership
  | .named object relation user => Evaluation.check object relation user
  | .prepared object relation user definition =>
      Evaluation.checkPrepared object relation user definition

/-- The answers of the checks of a request, with a reset of the context in between. -/
def runAll : EvaluationContext → List CheckRequest → List (Except ZanzibarError Membership)
  | _, [] => []
  | context, request :: rest =>
      (request.run context).1 :: runAll (request.run context).2.resetForReuse rest

end Runs

end CheckRequest

/-- The keys that the checks of a request start from. -/
def requestedKeys (requests : List CheckRequest) (user : User) : Set RelKey :=
  {key | ∃ request ∈ requests, request.user = user ∧ key.object = request.object ∧
    key.relation.value = request.relation.name}

section Memo

variable [StoreHasher] {snapshot : PublishedSnapshot}

/-- Below the checks of the request no two keys depend on each other. -/
def NoMutualKeys (snapshot : PublishedSnapshot) (requests : List CheckRequest) : Prop :=
  ∀ user, NoMutualBelow (snapshot.system user) (requestedKeys requests user)

/-- The search of a context whose memo holds answers from scratch: below the roots no two keys
depend on each other. -/
def Search.below
    {roots : User → Set RelKey}
    (hmutual : ∀ user, NoMutualBelow (snapshot.system user) (roots user)) : Search snapshot where
  Context user := PathContext (snapshot.system user) (roots user)
  Answer user S t f b := Eval (snapshot.system user) (S ∩ {t}) f b
  memoised := True
  Memo user key b := Eval (snapshot.system user) ∅ (.atom key) b
  laws user := answerLaws_noMutual (hmutual user)

theorem Search.valid_below_new
    {roots : User → Set RelKey}
    (hmutual : ∀ user, NoMutualBelow (snapshot.system user) (roots user))
    (limits : EvaluationLimits) :
    (Search.below hmutual).Valid (.newWithRequestMemo snapshot limits) := by
  refine ⟨rfl, ?_, ?_⟩
  · have hnew := EvaluationContext.activeInv_new snapshot limits
    exact { hnew with }
  · intro memo hmemo
    cases hmemo
    refine ⟨trivial, ?_⟩
    intro user key entry h
    cases h

/-- The search of the checks of a request. -/
def Search.memo
    {requests : List CheckRequest}
    (hmutual : NoMutualKeys snapshot requests) : Search snapshot :=
  Search.below hmutual

variable {requests : List CheckRequest} (hmutual : NoMutualKeys snapshot requests)

theorem Search.rootContext_memo
    {request : CheckRequest}
    (hrequest : request ∈ requests) :
    (Search.memo hmutual).RootContext request.user request.object request.relation := by
  intro name hname
  refine ⟨?_, ⟨request.object, name⟩, ⟨request, hrequest, rfl, rfl, hname⟩, .refl⟩
  intro s hs
  have hkey : s = ⟨request.object, name⟩ := Search.rootCut_subset snapshot _ _ hs
  rw [hkey]
  exact .refl

/-- Every check of the request answers as the plain search from its root does. -/
theorem CheckRequest.run_memo
    (hview : snapshot.relationships.Inv)
    (hschema : snapshot.schema.Accepted)
    {request : CheckRequest} {context : EvaluationContext}
    (hrequest : request ∈ requests)
    (hresolved : request.Resolved snapshot.schema)
    (hvalid : (Search.memo hmutual).Valid context)
    (hempty : context.checkStack = []) :
    (Search.memo hmutual).Valid (request.run context).2 ∧
      ∀ m, (request.run context).1 = .ok m → ∃ (name : RelationName) (b : Bool),
        name.value = request.relation.name ∧ m = .ofBool b ∧
          RootEval snapshot request.user ⟨request.object, name⟩ b := by
  have hroot := Search.rootContext_memo hmutual hrequest
  have hreturns : request.run.Leaves context ((Search.memo hmutual).Returns context
      ((Search.memo hmutual).RootAnswer request.user request.object request.relation)) := by
    cases request with
    | named object relation user =>
        exact Search.check_answered hview hschema hvalid hempty hroot
    | prepared object relation user definition =>
        exact Search.checkPrepared_answered hview hschema hresolved.1 hresolved.2 hvalid hempty
          hroot
  refine ⟨hreturns.valid, ?_⟩
  intro m hm
  obtain ⟨b, rfl, name, hname, heval⟩ := hreturns.answer m hm
  refine ⟨name, b, hname, rfl, ?_⟩
  have hcut : Search.rootCut snapshot request.user ⟨request.object, name⟩ ∩
      {⟨request.object, name⟩} = Search.rootCut snapshot request.user ⟨request.object, name⟩ :=
    Set.inter_eq_left.mpr (Search.rootCut_subset snapshot _ _)
  rw [RootEval, ← hcut]
  exact heval

theorem Search.Valid.resetForReuse
    {search : Search snapshot} {context : EvaluationContext}
    (h : search.Valid context) :
    search.Valid context.resetForReuse ∧ context.resetForReuse.checkStack = [] := by
  obtain ⟨hactive, hempty, hover, _, hmemo, _⟩ := h.active.resetForReuse
  refine ⟨⟨hover.trans h.reads, hactive, ?_⟩, hempty⟩
  intro memo hsome
  exact h.memo memo (hmemo ▸ hsome)

/-- The plain search from a root has one answer. -/
theorem rootEval_unique
    {user : User} {object : Object} {relation : Relation} {name name' : RelationName}
    {b b' : Bool}
    (hname : name.value = relation.name)
    (hname' : name'.value = relation.name)
    (h : RootEval snapshot user ⟨object, name⟩ b)
    (h' : RootEval snapshot user ⟨object, name'⟩ b') :
    b = b' := by
  cases Identifier.ext (hname.trans hname'.symm)
  exact Eval.deterministic h h'

/-- A run of checks that starts from a valid context. -/
theorem CheckRequest.runAll_memo
    (hsnapshot : snapshot.Admissible)
    {part : List CheckRequest} {context : EvaluationContext}
    (hpart : ∀ request ∈ part, request ∈ requests ∧ request.Resolved snapshot.schema)
    (hvalid : (Search.memo hmutual).Valid context)
    (hempty : context.checkStack = [])
    {n : Nat} {request : CheckRequest} {m m' : Membership} {limits : EvaluationLimits}
    (hget : part[n]? = some request)
    (hmemo : (CheckRequest.runAll context part)[n]? = some (.ok m))
    (hfresh : checkWithSnapshot snapshot request.object request.relation request.user limits =
      .ok m') :
    m = m' := by
  induction part generalizing context n with
  | nil =>
      cases hget
  | cons first rest ih =>
      obtain ⟨hmem, hresolved⟩ := hpart first List.mem_cons_self
      obtain ⟨hvalid', hanswer⟩ :=
        CheckRequest.run_memo hmutual hsnapshot.inv hsnapshot.schema hmem hresolved hvalid
          hempty
      cases n with
      | zero =>
          cases hget
          obtain ⟨name, b, hname, rfl, heval⟩ := hanswer m (Option.some.inj hmemo)
          obtain ⟨name', b', hname', rfl, heval'⟩ := hsnapshot.check_eval hfresh
          rw [rootEval_unique hname hname' heval heval']
      | succ n =>
          obtain ⟨hreset, hresetEmpty⟩ := hvalid'.resetForReuse
          exact ih (fun request hrequest => hpart request (List.mem_cons_of_mem _ hrequest))
            hreset hresetEmpty hget hmemo

end Memo

/-- On every published snapshot and in every run of checks below which no two keys depend on
each other, a check on the shared context and a fresh one that both answer agree. -/
theorem memo_transparent_of_noMutualKeys
    [StoreHasher] {snapshot : PublishedSnapshot}
    (hreachable : snapshot.Reachable)
    {requests : List CheckRequest}
    (hresolved : ∀ request ∈ requests, request.Resolved snapshot.schema)
    (hmutual : NoMutualKeys snapshot requests)
    {limits : EvaluationLimits} {start : EvaluationContext}
    (hstart : start = .newWithRequestMemo snapshot limits ∨
      start = (EvaluationContext.newWithRequestMemo snapshot limits).resetForReuse)
    {n : Nat} {request : CheckRequest} {m m' : Membership}
    (hget : requests[n]? = some request)
    (hmemo : (CheckRequest.runAll start requests)[n]? = some (.ok m))
    (hfresh : checkWithSnapshot snapshot request.object request.relation request.user limits =
      .ok m') :
    m = m' := by
  have hnew := Search.valid_below_new hmutual limits
  have hvalid : (Search.memo hmutual).Valid start ∧ start.checkStack = [] := by
    rcases hstart with rfl | rfl
    · exact ⟨hnew, rfl⟩
    · exact hnew.resetForReuse
  exact CheckRequest.runAll_memo hmutual hreachable.admissible
    (fun request hrequest => ⟨hrequest, hresolved request hrequest⟩) hvalid.1 hvalid.2 hget
    hmemo hfresh

/-- `x` and `y` contain each other.  The check of `p` evaluates `y` below `x`, where `x` is
cut, and keeps the answer `Denied`; the check of `q` then reads it back, while a fresh check
of `q` is allowed. -/
theorem memo_keeps_answer_under_cut :
    let configs : List NamespaceConfig :=
      [.ofRelations "doc" [("c", none), ("p", some (.computedUserset ⟨"x"⟩)),
        ("q", some (.computedUserset ⟨"y"⟩)),
        ("x", some (.union [.computedUserset ⟨"y"⟩, .computedUserset ⟨"c"⟩])),
        ("y", some (.computedUserset ⟨"x"⟩))]]
    let row : Relationship :=
      ⟨objectLit "doc" "1", relationLit "c", .object (objectLit "user" "alice")⟩
    let request (relation : String) : CheckRequest :=
      .named ⟨"doc", "1"⟩ ⟨relation⟩ (.userId "alice")
    ∃ snapshot, @PublishedSnapshot.Reachable fnvHasher snapshot ∧
      (∃ state, @WriterCommand.runAll fnvHasher .latestFirst [.applyNamespaceConfigs configs,
        .applyRelationshipMutations [.create row] []] .new = .ok state ∧
        state.published = some snapshot) ∧
      (@CheckRequest.runAll fnvHasher (.newWithRequestMemo snapshot .default)
        [request "p", request "q"])[1]? = some (.ok .denied) ∧
      @checkWithSnapshot fnvHasher snapshot ⟨"doc", "1"⟩ ⟨"q"⟩ (.userId "alice") .default =
        .ok .allowed := by
  intro configs row request
  let _ := fnvHasher
  have hrun : ((WriterCommand.runAll .latestFirst [.applyNamespaceConfigs configs,
      .applyRelationshipMutations [.create row] []] .new).map (fun state =>
        state.published.map (fun snapshot =>
          ((CheckRequest.runAll (.newWithRequestMemo snapshot .default)
            [request "p", request "q"])[1]?.map (·.toOption),
          (checkWithSnapshot snapshot ⟨"doc", "1"⟩ ⟨"q"⟩ (.userId "alice")
            .default).toOption)))).toOption =
      some (some (some (some .denied), some .allowed)) := by
    decide +kernel
  obtain ⟨state, hstate, hvalue⟩ := exists_ok_of_map_toOption hrun
  obtain ⟨snapshot, hsnapshot, hvalue⟩ := Option.map_eq_some_iff.mp hvalue
  obtain ⟨hmemo, hfresh⟩ := Prod.mk.inj hvalue
  obtain ⟨answer, hanswer, hdenied⟩ := Option.map_eq_some_iff.mp hmemo
  refine ⟨snapshot, ⟨state, WriterReachable.new.runAll hstate, hsnapshot⟩,
    ⟨state, hstate, hsnapshot⟩, ?_, eq_ok_of_toOption hfresh⟩
  rw [hanswer, eq_ok_of_toOption hdenied]

/-- A chain of four relations, each computed from the one before. -/
def chainConfigs : List NamespaceConfig :=
  [.ofRelations "doc" [("a", none), ("b", some (.computedUserset ⟨"a"⟩)),
    ("c", some (.computedUserset ⟨"b"⟩)), ("d", some (.computedUserset ⟨"c"⟩))]]

/-- The commands that publish the chain with one row at its end. -/
def chainCommands : List WriterCommand :=
  [.applyNamespaceConfigs chainConfigs,
    .applyRelationshipMutations [.create ⟨objectLit "doc" "1", relationLit "a",
      .object (objectLit "user" "alice")⟩] []]

/-- The place of a relation in the chain. -/
def chainRank (name : RelationName) : Nat :=
  ["a", "b", "c", "d"].idxOf name.value

def chainRequest (relation : String) : CheckRequest :=
  .named ⟨"doc", "1"⟩ ⟨relation⟩ (.userId "alice")

/-- Whether the memo of the context answers a nested check of the relation. -/
def memoAnswers [StoreHasher] (context : EvaluationContext) (name : RelationName) : Bool :=
  decide ((context.memoLookup (CheckKey.fromRelationName context.snapshot ⟨"doc", "1"⟩ name
    (.userId "alice"))).toOption = some (some .allowed))

/-- The chain is checked from `c` and then from `d`.  The first check keeps the answer of `b`,
which the second reads back below `c`, and the fresh check of `d` agrees. -/
theorem memo_transparent_chain :
    ∃ snapshot, @PublishedSnapshot.Reachable fnvHasher snapshot ∧
      @NoMutualKeys fnvHasher snapshot [chainRequest "c", chainRequest "d"] ∧
      @memoAnswers fnvHasher (@CheckRequest.run fnvHasher (chainRequest "c")
        (.newWithRequestMemo snapshot .default)).2.resetForReuse (relationLit "b") = true ∧
      (@CheckRequest.runAll fnvHasher (.newWithRequestMemo snapshot .default)
        [chainRequest "c", chainRequest "d"])[1]? = some (.ok .allowed) ∧
      ∀ m', @checkWithSnapshot fnvHasher snapshot ⟨"doc", "1"⟩ ⟨"d"⟩ (.userId "alice")
        .default = .ok m' → .allowed = m' := by
  let _ := fnvHasher
  have hrun : ((WriterCommand.runAll .latestFirst chainCommands .new).map (fun state =>
      state.published.map (fun snapshot => snapshot.ranked chainRank &&
        memoAnswers ((chainRequest "c").run
          (.newWithRequestMemo snapshot .default)).2.resetForReuse (relationLit "b") &&
        decide (((CheckRequest.runAll (.newWithRequestMemo snapshot .default)
          [chainRequest "c", chainRequest "d"])[1]?.map (·.toOption)) =
            some (some .allowed))))).toOption = some (some true) := by
    decide +kernel
  obtain ⟨snapshot, hreachable, hvalue⟩ := exists_published_of_runAll hrun
  rw [Bool.and_eq_true, Bool.and_eq_true, decide_eq_true_iff] at hvalue
  obtain ⟨⟨hranked, hanswers⟩, hmemo⟩ := hvalue
  obtain ⟨answer, hanswer, hallowed⟩ := Option.map_eq_some_iff.mp hmemo
  rw [eq_ok_of_toOption hallowed] at hanswer
  have hmutual : NoMutualKeys snapshot [chainRequest "c", chainRequest "d"] :=
    fun _ => noMutualBelow_of_decreasing
      (fun hrefers => PublishedSnapshot.refers_of_ranked hranked hrefers) _
  have hresolved : ∀ request ∈ [chainRequest "c", chainRequest "d"],
      request.Resolved snapshot.schema := by
    intro request hrequest
    rcases List.mem_cons.mp hrequest with rfl | hrequest
    · trivial
    · rw [List.mem_singleton.mp hrequest]
      trivial
  have hsecond : [chainRequest "c", chainRequest "d"][1]? = some (chainRequest "d") := rfl
  exact ⟨snapshot, hreachable, hmutual, hanswers, hanswer, fun m' hfresh =>
    memo_transparent_of_noMutualKeys hreachable hresolved hmutual (Or.inl rfl) hsecond hanswer
      hfresh⟩

end SimpleZanzibar
