import SimpleZanzibar.EngineCorrect

/-!
# Clients and the writer

Clients send commands into one bounded queue and wait for the answer.  The writer takes the
commands in queue order, executes each, publishes the new state and then answers.  Reads load
the published state at any time, also between an execution and its publication.

The log is kept for the statements only: it records what the parties did, oldest first.

**Results.**
* `EngineWriter.Sound.run_ok`: what a successful command does to the history.
* `Publications.Kept.append`: what a token resolves to, after one more publication.
* `EngineSystem.run_justified`: in every interleaving, commands are executed once and in queue
  order, and every read is justified by what was published before.
-/

namespace SimpleZanzibar

/-- The command replaces the whole state. -/
def EngineCommand.replaces : EngineCommand → Bool
  | .applyPolicyText _ => true
  | _ => false

namespace EngineWriter

variable [Blake3] [StoreHasher] {listing : MapListing}

/-- The revisions in the history are newer than the bound, and so is the next one. -/
structure NewerThan (bound : Revision) (writer : EngineWriter) : Prop where
  history : ∀ snapshot ∈ writer.snapshotHistory, bound.get < snapshot.revision.get
  last : ∃ last, writer.lastRevision = some last ∧ bound.get ≤ last.get

omit [StoreHasher] in
theorem mem_trimHistory
    {retained : Nat} {history : List RevisionSnapshot} {snapshot : RevisionSnapshot}
    (h : snapshot ∈ trimHistory retained history) :
    snapshot ∈ history :=
  List.mem_of_mem_drop h

theorem NewerThan.publishesOne
    {bound : Revision} {writer next : EngineWriter} {token : ConsistencyToken}
    (hnewer : NewerThan bound writer)
    (h : PublishesOne listing writer token next) :
    NewerThan bound next := by
  obtain ⟨snapshot, hpub, _, rfl⟩ := h
  obtain ⟨last, hlast, hbound⟩ := hnewer.last
  have hrevision := nextRevision_get hpub.revision hlast
  constructor
  · intro snapshot' hmem
    rcases List.mem_append.mp (mem_trimHistory hmem) with hold | hnew
    · exact hnewer.history snapshot' hold
    · rw [List.mem_singleton.mp hnew]
      omega
  · exact ⟨snapshot.revision, rfl, by omega⟩

theorem NewerThan.publishesMany
    {bound : Revision} {writer next : EngineWriter} {token : ConsistencyToken}
    (hnewer : NewerThan bound writer)
    (h : PublishesMany listing writer token next) :
    NewerThan bound next := by
  induction h with
  | one hone => exact hnewer.publishesOne hone
  | more _ hone ih => exact ih.publishesOne hone

omit [StoreHasher] in
theorem newerThan_candidate
    {bound : Revision} {writer : EngineWriter}
    (hlast : writer.lastRevision = some bound) :
    NewerThan bound writer.candidate :=
  ⟨fun _ hmem => (by cases hmem), bound, hlast, Nat.le_refl _⟩

/-- What publishing leaves of the identity of the engine, and the token it returns. -/
structure Follows (writer : EngineWriter) (token : ConsistencyToken)
    (snapshot : RevisionSnapshot) (next : EngineWriter) : Prop where
  latest : next.Latest snapshot
  token : token = ⟨snapshot.revision, snapshot.schemaHash, writer.datastoreId⟩
  datastoreId : next.datastoreId = writer.datastoreId
  retained : next.retainedSnapshots = writer.retainedSnapshots

theorem follows_publishesOne
    {writer next : EngineWriter} {token : ConsistencyToken}
    (h : PublishesOne listing writer token next) :
    ∃ snapshot, writer.Follows token snapshot next ∧
      next.snapshotHistory = writer.extended snapshot ∧
      writer.core.nextRevision = .ok snapshot.revision := by
  obtain ⟨snapshot, hpub, rfl, rfl⟩ := h
  exact ⟨snapshot, ⟨latest_afterPublish hpub.schemaHash, rfl, rfl, rfl⟩, rfl, hpub.revision⟩

theorem follows_publishesMany
    {writer next : EngineWriter} {token : ConsistencyToken}
    (h : PublishesMany listing writer token next) :
    ∃ snapshot, writer.Follows token snapshot next := by
  induction h with
  | one hone =>
      obtain ⟨snapshot, hfollows, _⟩ := follows_publishesOne hone
      exact ⟨snapshot, hfollows⟩
  | more _ hone ih =>
      obtain ⟨_, hbefore⟩ := ih
      obtain ⟨snapshot, hfollows, _⟩ := follows_publishesOne hone
      refine ⟨snapshot, hfollows.latest, ?_, hfollows.datastoreId.trans hbefore.datastoreId,
        hfollows.retained.trans hbefore.retained⟩
      rw [hfollows.token, hbefore.datastoreId]

/-- What a successful command does to the history. -/
theorem run_ok
    {command : EngineCommand} {writer next : EngineWriter} {token : ConsistencyToken}
    (h : command.run listing writer = (.ok token, next)) :
    ∃ snapshot, writer.Follows token snapshot next ∧
      (command.replaces = false → next.snapshotHistory = writer.extended snapshot ∧
        writer.core.nextRevision = .ok snapshot.revision) ∧
      (command.replaces = true → ∀ last, writer.lastRevision = some last →
        NewerThan last next) := by
  have hperforms := (command.transacts_run listing writer).apply_ok h
  have hone : PublishesOne listing writer token next → command.replaces = false →
      ∃ snapshot, writer.Follows token snapshot next ∧
      (command.replaces = false → next.snapshotHistory = writer.extended snapshot ∧
        writer.core.nextRevision = .ok snapshot.revision) ∧
      (command.replaces = true → ∀ last, writer.lastRevision = some last →
        NewerThan last next) := by
    intro hpublishes hreplaces
    obtain ⟨snapshot, hfollows, hhistory, hrevision⟩ := follows_publishesOne hpublishes
    refine ⟨snapshot, hfollows, fun _ => ⟨hhistory, hrevision⟩, ?_⟩
    intro htrue
    cases hreplaces.symm.trans htrue
  cases command with
  | applyPolicyText policy =>
      obtain ⟨snapshot, hfollows⟩ := follows_publishesMany hperforms
      refine ⟨snapshot, ⟨hfollows.latest, hfollows.token, hfollows.datastoreId,
        hfollows.retained⟩, fun hfalse => (by cases hfalse), ?_⟩
      intro _ last hlast
      exact (newerThan_candidate hlast).publishesMany hperforms
  | writeRelationships mutations preconditions => exact hone hperforms rfl
  | applySchema text => exact hone hperforms rfl
  | applyNamespaceConfigs configs => exact hone hperforms rfl
  | replaceSchema text => exact hone hperforms rfl
  | deleteNamespace namespaceName => exact hone hperforms rfl
  | deleteRelation namespaceName relation => exact hone hperforms rfl

end EngineWriter

/-! ## What a token resolves to -/

section Publications

variable [Blake3]

/-- A successful write, with the snapshot that it published. -/
structure Publication where
  command : EngineCommand
  token : ConsistencyToken
  snapshot : RevisionSnapshot

/-- The snapshot is still retained: no later write replaced the state, and fewer than the
retained number were published. -/
def Retained (retained : ℕ+) (later : List Publication) : Prop :=
  (∀ publication ∈ later, publication.command.replaces = false) ∧
    later.length < (retained : Nat)

instance (retained : ℕ+) (later : List Publication) : Decidable (Retained retained later) :=
  inferInstanceAs (Decidable (_ ∧ _))

theorem Consecutive.pairwise
    {history : List RevisionSnapshot}
    (h : Consecutive history) :
    history.Pairwise (fun older newer => older.revision.get < newer.revision.get) := by
  have htrans : IsTrans RevisionSnapshot
      (fun older newer => older.revision.get < newer.revision.get) :=
    ⟨fun _ _ _ => Nat.lt_trans⟩
  have hchain : history.IsChain
      (fun older newer => older.revision.get < newer.revision.get) := by
    refine List.IsChain.imp (fun older newer hnext => ?_) h
    omega
  exact List.isChain_iff_pairwise.mp hchain

/-- The history reaches back as far as it is long. -/
theorem Consecutive.last_lt
    {history : List RevisionSnapshot} {last : RevisionSnapshot}
    (h : Consecutive history)
    (hlast : history.getLast? = some last) :
    ∀ snapshot ∈ history, last.revision.get < snapshot.revision.get + history.length := by
  induction history with
  | nil => cases hlast
  | cons first rest ih =>
      cases rest with
      | nil =>
          cases hlast
          intro snapshot hmem
          rw [List.mem_singleton.mp hmem]
          exact Nat.lt_succ_self _
      | cons second rest =>
          have hrest := ih (List.IsChain.tail h) hlast
          have hnext : second.revision.get = first.revision.get + 1 := h.rel
          intro snapshot hmem
          rcases List.mem_cons.mp hmem with rfl | hmem
          · have hsecond := hrest second List.mem_cons_self
            rw [List.length_cons] at hsecond ⊢
            rw [List.length_cons]
            omega
          · have hsnapshot := hrest snapshot hmem
            rw [List.length_cons]
            omega

/-- The oldest snapshot of a history has the smallest revision. -/
theorem Consecutive.head_le
    {history : List RevisionSnapshot} {oldest snapshot : RevisionSnapshot}
    (h : Consecutive history)
    (hhead : history.head? = some oldest)
    (hmem : snapshot ∈ history) :
    oldest.revision.get ≤ snapshot.revision.get := by
  cases history with
  | nil => cases hhead
  | cons first rest =>
      cases hhead
      rcases List.mem_cons.mp hmem with rfl | hrest
      · exact Nat.le_refl _
      · exact Nat.le_of_lt ((List.pairwise_cons.mp h.pairwise).1 snapshot hrest)

/-- A revision names at most one snapshot of a history. -/
theorem Consecutive.find?_eq_some
    {history : List RevisionSnapshot} {snapshot : RevisionSnapshot}
    (h : Consecutive history)
    (hmem : snapshot ∈ history) :
    history.find? (fun candidate => decide (candidate.revision = snapshot.revision)) =
      some snapshot := by
  have hdistinct : (history.map (·.revision)).Nodup := by
    refine List.pairwise_map.mpr (h.pairwise.imp ?_)
    intro older newer hlt heq
    rw [heq] at hlt
    exact Nat.lt_irrefl _ hlt
  exact (SchemaResolver.find?_eq_some_iff_mem hdistinct).mpr ⟨hmem, rfl⟩

/-- What the writer keeps of a publication, in view of the later ones. -/
structure Publication.Kept (writer : EngineWriter) (publication : Publication)
    (later : List Publication) : Prop where
  token : publication.token =
    ⟨publication.snapshot.revision, publication.snapshot.schemaHash, writer.datastoreId⟩
  le_last : ∃ last, writer.lastRevision = some last ∧
    publication.snapshot.revision.get ≤ last.get
  unreplaced : (∀ entry ∈ later, entry.command.replaces = false) →
    (∀ last, writer.lastRevision = some last →
      publication.snapshot.revision.get + later.length = last.get) ∧
    (later.length < (writer.retainedSnapshots : Nat) →
      writer.snapshotHistory.reverse[later.length]? = some publication.snapshot)
  replaced : (∃ entry ∈ later, entry.command.replaces = true) →
    ∀ snapshot ∈ writer.snapshotHistory,
      publication.snapshot.revision.get < snapshot.revision.get

/-- Every publication is kept in view of those after it. -/
def Publications.Kept (writer : EngineWriter) (publications : List Publication) : Prop :=
  ∀ before publication later, publications = before ++ publication :: later →
    publication.Kept writer later

/-- What an exact read returns, when the token is from this engine and not from the future. -/
theorem EngineState.snapshotForToken_eq
    {state : EngineState} {token : ConsistencyToken} {oldest : RevisionSnapshot}
    (hid : token.datastoreId = state.datastoreId)
    (hle : token.revision.get ≤ state.lastRevision.get)
    (hhead : state.snapshotHistory.head? = some oldest) :
    state.snapshotForToken token =
      if token.revision.get < oldest.revision.get then
        .error (.revisionExpired token.revision)
      else
        match state.snapshotHistory.find? (fun snapshot =>
            decide (snapshot.revision = token.revision)) with
        | none => .error (.revisionUnavailable token.revision)
        | some snapshot =>
            if snapshot.schemaHash ≠ token.schemaHash then
              .error (.schemaHashMismatch token.revision)
            else .ok snapshot := by
  unfold EngineState.snapshotForToken
  rw [if_neg (not_not.mpr hid), if_neg (Nat.not_lt.mpr hle), hhead]
  dsimp only
  split
  · rfl
  · rfl

/-- An exact read with the token of a publication. -/
theorem Publication.Kept.snapshotForToken
    {writer : EngineWriter} {publication : Publication} {later : List Publication}
    (hkept : publication.Kept writer later)
    (hconsecutive : Consecutive writer.snapshotHistory)
    (hlength : writer.snapshotHistory.length ≤ writer.retainedSnapshots)
    {latest : RevisionSnapshot}
    (hlatest : writer.Latest latest)
    {state : EngineState}
    (hstate : writer.publishedState = some state) :
    state.snapshotForToken publication.token =
      if Retained writer.retainedSnapshots later then .ok publication.snapshot
      else .error (.revisionExpired publication.token.revision) := by
  rw [hlatest.published] at hstate
  cases hstate
  have hrevision : publication.token.revision = publication.snapshot.revision := by
    rw [hkept.token]
  obtain ⟨last, hlast, hle⟩ := hkept.le_last
  cases hlast.symm.trans hlatest.revision
  have hne : writer.snapshotHistory ≠ [] := by
    intro hnil
    have hhistory := hlatest.history
    rw [hnil] at hhistory
    cases hhistory
  obtain ⟨oldest, hhead⟩ : ∃ oldest, writer.snapshotHistory.head? = some oldest :=
    ⟨_, List.head?_eq_some_head hne⟩
  have hid : publication.token.datastoreId = writer.datastoreId := by
    rw [hkept.token]
  have hnotFuture : publication.token.revision.get ≤ latest.revision.get := by
    rw [hrevision]
    exact hle
  rw [EngineState.snapshotForToken_eq hid hnotFuture hhead]
  by_cases hretained : Retained writer.retainedSnapshots later
  · have hmem : publication.snapshot ∈ writer.snapshotHistory :=
      List.mem_reverse.mp (List.mem_of_getElem?
        ((hkept.unreplaced hretained.1).2 hretained.2))
    have hnot := Nat.not_lt.mpr (hconsecutive.head_le hhead hmem)
    rw [if_pos hretained, hrevision, if_neg hnot]
    dsimp only
    rw [hconsecutive.find?_eq_some hmem]
    dsimp only
    rw [if_neg]
    rw [hkept.token]
    exact not_not.mpr rfl
  · rw [if_neg hretained, if_pos]
    have holdest : oldest ∈ writer.snapshotHistory := List.mem_of_mem_head? hhead
    rw [hrevision]
    by_cases hreplaced : ∃ entry ∈ later, entry.command.replaces = true
    · exact hkept.replaced hreplaced oldest holdest
    · have hunreplaced : ∀ entry ∈ later, entry.command.replaces = false := by
        intro entry hentry
        exact Bool.eq_false_iff.mpr (fun htrue => hreplaced ⟨entry, hentry, htrue⟩)
      have hmany : (writer.retainedSnapshots : Nat) ≤ later.length :=
        Nat.not_lt.mp (fun hlt => hretained ⟨hunreplaced, hlt⟩)
      have hcount := (hkept.unreplaced hunreplaced).1 _ hlatest.revision
      have hreach := hconsecutive.last_lt hlatest.history oldest holdest
      omega

/-- The history after one more publication, newest first. -/
theorem reverse_extended
    (writer : EngineWriter) (snapshot : RevisionSnapshot) :
    (writer.extended snapshot).reverse =
      (snapshot :: writer.snapshotHistory.reverse).take writer.retainedSnapshots := by
  unfold EngineWriter.extended EngineWriter.trimHistory
  rw [List.reverse_drop, List.reverse_append, List.reverse_singleton, List.singleton_append]
  by_cases hle : (writer.snapshotHistory ++ [snapshot]).length ≤ writer.retainedSnapshots
  · rw [Nat.sub_eq_zero_of_le hle, Nat.sub_zero, List.take_of_length_le, List.take_of_length_le]
    · rw [List.length_append, List.length_singleton] at hle
      rw [List.length_cons, List.length_reverse]
      exact hle
    · rw [List.length_cons, List.length_reverse, List.length_append, List.length_singleton]
  · congr 1
    omega

omit [Blake3] in
/-- The splits of a list with one more entry. -/
theorem append_singleton_eq_split
    {α : Type} {as before later : List α} {a b : α}
    (h : as ++ [a] = before ++ b :: later) :
    (b = a ∧ later = []) ∨ ∃ later', later = later' ++ [a] ∧ as = before ++ b :: later' := by
  rcases List.eq_nil_or_concat later with rfl | ⟨later', last, rfl⟩
  · obtain ⟨_, hlast⟩ := List.append_inj' h rfl
    cases hlast
    exact Or.inl ⟨rfl, rfl⟩
  · rw [List.concat_eq_append, ← List.cons_append, ← List.append_assoc] at h
    obtain ⟨hinit, hlast⟩ := List.append_inj' h rfl
    cases hlast
    exact Or.inr ⟨later', by rw [List.concat_eq_append], hinit⟩

/-- Publications stay kept when one more is added. -/
theorem Publications.Kept.append
    [StoreHasher] {listing : MapListing} {command : EngineCommand} {writer next : EngineWriter}
    {token : ConsistencyToken} {publications : List Publication}
    (hkept : Publications.Kept writer publications)
    (h : command.run listing writer = (.ok token, next)) :
    ∃ snapshot, writer.Follows token snapshot next ∧
      Publications.Kept next (publications ++ [⟨command, token, snapshot⟩]) := by
  obtain ⟨snapshot, hfollows, hextends, hreplaces⟩ := EngineWriter.run_ok h
  refine ⟨snapshot, hfollows, ?_⟩
  have hretained : (next.retainedSnapshots : Nat) = writer.retainedSnapshots := by
    rw [hfollows.retained]
  intro before publication later hsplit
  rcases append_singleton_eq_split hsplit with ⟨rfl, rfl⟩ | ⟨later', rfl, hbefore⟩
  · refine ⟨?_, ⟨_, hfollows.latest.revision, Nat.le_refl _⟩, ?_, ?_⟩
    · rw [hfollows.datastoreId]
      exact hfollows.token
    · intro _
      refine ⟨fun last hlast => ?_, fun _ => ?_⟩
      · cases hlast.symm.trans hfollows.latest.revision
        rfl
      · rw [List.length_nil, ← List.head?_eq_getElem?, List.head?_reverse]
        exact hfollows.latest.history
    · rintro ⟨entry, hentry, _⟩
      cases hentry
  · have hold := hkept before publication later' hbefore
    obtain ⟨last, hlast, hle⟩ := hold.le_last
    have hnewer : last.get < snapshot.revision.get := by
      cases hcommand : command.replaces with
      | false =>
          have hget := EngineWriter.nextRevision_get (hextends hcommand).2 hlast
          omega
      | true =>
          have hnewer := hreplaces hcommand last hlast
          exact hnewer.history snapshot (List.mem_of_getLast? hfollows.latest.history)
    refine ⟨?_, ⟨_, hfollows.latest.revision, by omega⟩, ?_, ?_⟩
    · rw [hfollows.datastoreId]
      exact hold.token
    · intro hunreplaced
      have hunreplaced' : ∀ entry ∈ later', entry.command.replaces = false :=
        fun entry hentry => hunreplaced entry (List.mem_append_left _ hentry)
      have hcommand : command.replaces = false :=
        hunreplaced _ (List.mem_append_right _ List.mem_cons_self)
      obtain ⟨hhistory, hrevision⟩ := hextends hcommand
      obtain ⟨hcount, hindex⟩ := hold.unreplaced hunreplaced'
      have hget := EngineWriter.nextRevision_get hrevision hlast
      have hcount := hcount last hlast
      rw [List.length_append, List.length_singleton]
      refine ⟨fun last' hlast' => ?_, fun hlt => ?_⟩
      · cases hlast'.symm.trans hfollows.latest.revision
        omega
      · rw [hretained] at hlt
        rw [hhistory, reverse_extended, List.getElem?_take_of_lt hlt, List.getElem?_cons_succ]
        exact hindex (Nat.lt_of_succ_lt hlt)
    · intro hreplaced snapshot' hmem
      cases hcommand : command.replaces with
      | true =>
          have hlt := (hreplaces hcommand last hlast).history snapshot' hmem
          omega
      | false =>
          have hreplaced' : ∃ entry ∈ later', entry.command.replaces = true := by
            obtain ⟨entry, hentry, htrue⟩ := hreplaced
            rcases List.mem_append.mp hentry with hentry | hentry
            · exact ⟨entry, hentry, htrue⟩
            · rw [List.mem_singleton.mp hentry] at htrue
              cases hcommand.symm.trans htrue
          rw [(hextends hcommand).1] at hmem
          rcases List.mem_append.mp (EngineWriter.mem_trimHistory hmem) with hold' | hnew
          · exact hold.replaced hreplaced' snapshot' hold'
          · rw [List.mem_singleton.mp hnew]
            omega

/-- The tokens of earlier publications are older than the last. -/
theorem Publications.Kept.token_lt
    {writer : EngineWriter} {publications : List Publication} {last : Publication}
    (hkept : Publications.Kept writer (publications ++ [last]))
    (hlatest : writer.Latest last.snapshot) :
    ∀ publication ∈ publications,
      publication.token.revision.get < last.token.revision.get := by
  intro publication hmem
  obtain ⟨before, later, rfl⟩ := List.append_of_mem hmem
  have hlast := hkept _ last [] rfl
  have hold := hkept before publication (later ++ [last])
    (by rw [List.append_assoc, List.cons_append])
  rw [hold.token, hlast.token]
  by_cases hreplaced : ∃ entry ∈ later ++ [last], entry.command.replaces = true
  · exact hold.replaced hreplaced _ (List.mem_of_getLast? hlatest.history)
  · have hunreplaced : ∀ entry ∈ later ++ [last], entry.command.replaces = false := by
      intro entry hentry
      exact Bool.eq_false_iff.mpr (fun htrue => hreplaced ⟨entry, hentry, htrue⟩)
    have hcount := (hold.unreplaced hunreplaced).1 _ hlatest.revision
    rw [List.length_append, List.length_singleton] at hcount
    dsimp only
    omega

/-- After a publication the writer has a latest snapshot. -/
theorem Publication.Kept.exists_latest
    [StoreHasher] {writer : EngineWriter} {publication : Publication}
    {later : List Publication}
    (hkept : publication.Kept writer later)
    (hsound : writer.Sound) :
    ∃ latest, writer.Latest latest ∧
      publication.snapshot.revision.get ≤ latest.revision.get := by
  obtain ⟨last, hlast, hle⟩ := hkept.le_last
  cases hschema : writer.schema with
  | none =>
      rw [hsound.unpublished hschema] at hlast
      cases hlast
  | some schema =>
      obtain ⟨latest, hlatest⟩ := hsound.latest schema hschema
      cases hlast.symm.trans hlatest.revision
      exact ⟨latest, hlatest, hle⟩

end Publications

/-! ## The parties -/

section Protocol

variable [Blake3]

inductive ReadError where
  | schemaRequired
  | consistency (error : ConsistencyError)

inductive ClientState where
  | idle
  | waiting
  | reading (consistency : Consistency)

variable (Client : Type)

/-- A command in the queue, with the client that waits for its answer. -/
structure Request where
  client : Client
  command : EngineCommand

/-- What the writer does between two commands. -/
inductive WriterPhase where
  | receiving
  | publishing (request : Request Client) (token : ConsistencyToken)
  | responding (client : Client) (result : Except ZanzibarError ConsistencyToken)

variable {Client} in
/-- A command that failed has nothing to publish. -/
def WriterPhase.afterExecution (request : Request Client) :
    Except ZanzibarError ConsistencyToken → WriterPhase Client
  | .ok token => .publishing request token
  | .error error => .responding request.client (.error error)

/-- A command that was executed, the order in which the maps were listed, and its result. -/
structure Execution where
  listing : MapListing
  request : Request Client
  result : Except ZanzibarError ConsistencyToken

/-- What a party did. -/
inductive Observation where
  | submitted (request : Request Client)
  | executed (execution : Execution Client)
  | published (publication : Publication)
  | received (client : Client) (result : Except ZanzibarError ConsistencyToken)
  | readStarted (client : Client) (consistency : Consistency)
  | readFinished (client : Client) (consistency : Consistency)
      (result : Except ReadError RevisionSnapshot)

/-- What may happen next. -/
inductive EngineEvent where
  | submit (client : Client) (command : EngineCommand)
  | execute (listing : MapListing)
  | publish
  | respond
  | receive (client : Client)
  | startRead (client : Client) (consistency : Consistency)
  | load (client : Client)

/-- The writer, the queue, the published state and the clients. -/
structure EngineSystem where
  writer : EngineWriter
  phase : WriterPhase Client
  queueCapacity : ℕ+
  queue : List (Request Client)
  state : Option EngineState
  responses : Client → Option (Except ZanzibarError ConsistencyToken)
  clients : Client → ClientState
  log : List (Observation Client)

variable {Client}

namespace EngineSystem

def init (writer : EngineWriter) (queueCapacity : ℕ+) : EngineSystem Client where
  writer := writer
  phase := .receiving
  queueCapacity := queueCapacity
  queue := []
  state := writer.publishedState
  responses := fun _ => none
  clients := fun _ => .idle
  log := []

/-- Loads the published state and picks a snapshot. -/
def snapshotForConsistency (system : EngineSystem Client) (consistency : Consistency) :
    Except ReadError RevisionSnapshot :=
  match system.state with
  | none => .error .schemaRequired
  | some state => (state.snapshotForConsistency consistency).mapError .consistency

variable [StoreHasher] [DecidableEq Client]

/-- One event, when it can happen. -/
def step (system : EngineSystem Client) : EngineEvent Client → Option (EngineSystem Client)
  | .submit client command =>
      match system.clients client with
      | .idle =>
          if system.queue.length < system.queueCapacity then
            some { system with
              queue := system.queue ++ [⟨client, command⟩]
              clients := Function.update system.clients client .waiting
              log := system.log ++ [.submitted ⟨client, command⟩] }
          else none
      | _ => none
  | .execute listing =>
      match system.phase, system.queue with
      | .receiving, request :: queue =>
          let (result, writer) := request.command.run listing system.writer
          some { system with
            writer := writer
            queue := queue
            phase := .afterExecution request result
            log := system.log ++ [.executed ⟨listing, request, result⟩] }
      | _, _ => none
  | .publish =>
      match system.phase, system.writer.publishedState with
      | .publishing request token, some state =>
          some { system with
            state := some state
            phase := .responding request.client (.ok token)
            log := system.log ++ [.published ⟨request.command, token, state.latestSnapshot⟩] }
      | _, _ => none
  | .respond =>
      match system.phase with
      | .responding client result =>
          some { system with
            phase := .receiving
            responses := Function.update system.responses client (some result) }
      | _ => none
  | .receive client =>
      match system.clients client, system.responses client with
      | .waiting, some result =>
          some { system with
            responses := Function.update system.responses client none
            clients := Function.update system.clients client .idle
            log := system.log ++ [.received client result] }
      | _, _ => none
  | .startRead client consistency =>
      match system.clients client with
      | .idle =>
          some { system with
            clients := Function.update system.clients client (.reading consistency)
            log := system.log ++ [.readStarted client consistency] }
      | _ => none
  | .load client =>
      match system.clients client with
      | .reading consistency =>
          some { system with
            clients := Function.update system.clients client .idle
            log := system.log ++ [.readFinished client consistency
              (system.snapshotForConsistency consistency)] }
      | _ => none

/-- Runs an interleaving; an event that cannot happen is skipped. -/
def run (system : EngineSystem Client) (events : List (EngineEvent Client)) :
    EngineSystem Client :=
  events.foldl (fun system event => (system.step event).getD system) system

end EngineSystem

/-! ## What the log says -/

/-- The commands in the order in which they entered the queue. -/
def submissions (log : List (Observation Client)) : List (Request Client) :=
  log.filterMap (fun
    | .submitted request => some request
    | _ => none)

/-- The commands in the order in which they were executed. -/
def executions (log : List (Observation Client)) : List (Execution Client) :=
  log.filterMap (fun
    | .executed execution => some execution
    | _ => none)

/-- The successful writes in the order in which they were published. -/
def publications (log : List (Observation Client)) : List Publication :=
  log.filterMap (fun
    | .published publication => some publication
    | _ => none)

/-- The answers that a client received. -/
def receipts [DecidableEq Client] (client : Client) (log : List (Observation Client)) :
    List (Except ZanzibarError ConsistencyToken) :=
  log.filterMap (fun
    | .received client' result => if client' = client then some result else none
    | _ => none)

/-- The results of the commands of a client. -/
def resultsOf [DecidableEq Client] (client : Client) (log : List (Observation Client)) :
    List (Except ZanzibarError ConsistencyToken) :=
  ((executions log).filter (fun execution => execution.request.client = client)).map (·.result)

/-- The tokens of the successful writes in the order of execution. -/
def returnedTokens (log : List (Observation Client)) : List ConsistencyToken :=
  (executions log).filterMap (·.result.toOption)

/-- Runs the commands of the executions one after the other, without any interleaving. -/
def replay [StoreHasher] : List (Execution Client) → EngineWriter →
    List (Except ZanzibarError ConsistencyToken) × EngineWriter
  | [], writer => ([], writer)
  | execution :: rest, writer =>
      let (result, writer) := execution.request.command.run execution.listing writer
      let (results, writer) := replay rest writer
      (result :: results, writer)

/-- The observation is justified by what was observed before. -/
def Observation.Justified (retained : ℕ+) (before : List (Observation Client)) :
    Observation Client → Prop
  | .received _ (.ok token) => ∃ publication ∈ publications before, publication.token = token
  | .readFinished _ .latest result =>
      ∀ client token, .received client (.ok token) ∈ before →
        ∃ snapshot, result = .ok snapshot ∧ token.revision.get ≤ snapshot.revision.get
  | .readFinished _ (.exact token) result =>
      ∀ earlier publication later, publications before = earlier ++ publication :: later →
        publication.token = token →
        result = if Retained retained later then .ok publication.snapshot
          else .error (.consistency (.revisionExpired token.revision))
  | _ => True

/-! ## The invariant of the system -/

section Log

variable (log log' : List (Observation Client))

@[simp] theorem submissions_append :
    submissions (log ++ log') = submissions log ++ submissions log' :=
  List.filterMap_append

@[simp] theorem executions_append :
    executions (log ++ log') = executions log ++ executions log' :=
  List.filterMap_append

@[simp] theorem publications_append :
    publications (log ++ log') = publications log ++ publications log' :=
  List.filterMap_append

@[simp] theorem receipts_append
    [DecidableEq Client] (client : Client) :
    receipts client (log ++ log') = receipts client log ++ receipts client log' :=
  List.filterMap_append

@[simp] theorem resultsOf_append
    [DecidableEq Client] (client : Client) :
    resultsOf client (log ++ log') = resultsOf client log ++ resultsOf client log' := by
  unfold resultsOf
  rw [executions_append, List.filter_append, List.map_append]

@[simp] theorem returnedTokens_append :
    returnedTokens (log ++ log') = returnedTokens log ++ returnedTokens log' := by
  unfold returnedTokens
  rw [executions_append, List.filterMap_append]

end Log

theorem replay_append
    [StoreHasher] (executions : List (Execution Client)) (execution : Execution Client)
    {writer middle : EngineWriter}
    {results : List (Except ZanzibarError ConsistencyToken)}
    (h : replay executions writer = (results, middle)) :
    replay (executions ++ [execution]) writer =
      (results ++ [(execution.request.command.run execution.listing middle).1],
        (execution.request.command.run execution.listing middle).2) := by
  induction executions generalizing writer results with
  | nil =>
      cases h
      rfl
  | cons first rest ih =>
      rcases hrun : first.request.command.run first.listing writer with ⟨result, after⟩
      rcases hrest : replay rest after with ⟨results', middle'⟩
      unfold replay at h
      rw [hrun] at h
      dsimp only at h
      rw [hrest] at h
      cases h
      rw [List.cons_append, replay, hrun]
      dsimp only
      rw [ih hrest]
      rfl

namespace WriterPhase

/-- The answer that the writer still owes. -/
def pending : WriterPhase Client → List (Client × Except ZanzibarError ConsistencyToken)
  | .receiving => []
  | .publishing request token => [(request.client, .ok token)]
  | .responding client result => [(client, result)]

/-- The token of a write that is not published yet. -/
def unpublished : WriterPhase Client → List ConsistencyToken
  | .publishing _ token => [token]
  | _ => []

end WriterPhase

namespace EngineSystem

variable [StoreHasher] [DecidableEq Client]

/-- The requests of a client that it has no answer to yet. -/
def outstanding (system : EngineSystem Client) (client : Client) : Nat :=
  system.queue.countP (fun request => request.client = client) +
    system.phase.pending.countP (fun answer => answer.1 = client) +
    (system.responses client).toList.length

/-- The published state is that of this writer: of the one that executes, or of the one
before when the last command is not published yet. -/
structure Visible (first : EngineWriter) (system : EngineSystem Client)
    (visible : EngineWriter) : Prop where
  sound : visible.Sound
  retained : visible.retainedSnapshots = first.retainedSnapshots
  state : system.state = visible.publishedState
  kept : Publications.Kept visible (publications system.log)
  phase : match system.phase with
    | .publishing request token =>
        ∃ listing, request.command.run listing visible = (.ok token, system.writer)
    | _ => visible = system.writer

structure Inv (first : EngineWriter) (system : EngineSystem Client) : Prop where
  fifo : submissions system.log = (executions system.log).map (·.request) ++ system.queue
  replayed : replay (executions system.log) first =
    ((executions system.log).map (·.result), system.writer)
  visible : ∃ visible, Visible first system visible
  returned : returnedTokens system.log =
    (publications system.log).map (·.token) ++ system.phase.unpublished
  waiting : ∀ client, system.clients client = .waiting → system.outstanding client = 1
  settled : ∀ client, system.clients client ≠ .waiting → system.outstanding client = 0
  answers : ∀ client, resultsOf client system.log = receipts client system.log ++
    (system.responses client).toList ++
    (system.phase.pending.filter (fun answer => answer.1 = client)).map (·.2)
  responses : ∀ client token, system.responses client = some (.ok token) →
    ∃ publication ∈ publications system.log, publication.token = token
  responding : ∀ client token, system.phase = .responding client (.ok token) →
    ∃ publication ∈ publications system.log, publication.token = token
  increasing : (publications system.log).Pairwise
    (fun older newer => older.token.revision.get < newer.token.revision.get)
  justified : ∀ before observation after, system.log = before ++ observation :: after →
    observation.Justified first.retainedSnapshots before

omit [StoreHasher] [DecidableEq Client] in
theorem justified_append
    {retained : ℕ+} {log : List (Observation Client)} {last : Observation Client}
    (h : ∀ before observation after, log = before ++ observation :: after →
      observation.Justified retained before)
    (hlast : last.Justified retained log) :
    ∀ before observation after, log ++ [last] = before ++ observation :: after →
      observation.Justified retained before := by
  intro before observation after hsplit
  rcases append_singleton_eq_split hsplit with ⟨rfl, rfl⟩ | ⟨after', _, hbefore⟩
  · obtain ⟨rfl, _⟩ := List.append_inj' hsplit rfl
    exact hlast
  · exact h before observation after' hbefore

theorem inv_init
    {first : EngineWriter}
    (hsound : first.Sound)
    (queueCapacity : ℕ+) :
    (init first queueCapacity : EngineSystem Client).Inv first where
  fifo := rfl
  replayed := rfl
  visible := ⟨first, hsound, rfl, rfl, fun before _ _ h => (by cases before <;> cases h), rfl⟩
  returned := rfl
  waiting := fun _ h => (by cases h)
  settled := fun _ _ => rfl
  answers := fun _ => rfl
  responses := fun _ _ h => (by cases h)
  responding := fun _ _ h => (by cases h)
  increasing := List.Pairwise.nil
  justified := fun before _ _ h => (by cases before <;> cases h)

variable {first : EngineWriter} {system : EngineSystem Client}

omit [DecidableEq Client] in
/-- A log entry that is no publication keeps what is visible. -/
theorem Visible.of_log
    {visible : EngineWriter} {log : List (Observation Client)}
    (h : Visible first system visible)
    (hlog : publications log = publications system.log) :
    Publications.Kept visible (publications log) := by
  rw [hlog]
  exact h.kept

/-- A client sends a command. -/
theorem Inv.submit
    (hinv : system.Inv first)
    {client : Client}
    (hidle : system.clients client = .idle)
    (command : EngineCommand) :
    { system with
      queue := system.queue ++ [⟨client, command⟩]
      clients := Function.update system.clients client .waiting
      log := system.log ++ [.submitted ⟨client, command⟩] : EngineSystem Client }.Inv first := by
  obtain ⟨visible, hvisible⟩ := hinv.visible
  have hnone : system.outstanding client = 0 := hinv.settled client (by rw [hidle]; simp)
  constructor
  · have hsubmissions : submissions (system.log ++ [.submitted ⟨client, command⟩]) =
        submissions system.log ++ [⟨client, command⟩] := submissions_append _ _
    rw [hsubmissions, hinv.fifo, List.append_assoc]
    simp [executions]
  · simpa [executions] using hinv.replayed
  · exact ⟨visible, hvisible.sound, hvisible.retained, hvisible.state,
      hvisible.of_log (by simp [publications]), hvisible.phase⟩
  · simpa [returnedTokens, executions, publications] using hinv.returned
  · intro other hwaiting
    unfold outstanding
    by_cases hother : other = client
    · subst hother
      unfold outstanding at hnone
      simp only [List.countP_append, List.countP_singleton, decide_true, if_true]
      omega
    · have hwaiting' : system.clients other = .waiting := by
        simpa [Function.update_of_ne hother] using hwaiting
      have hone := hinv.waiting other hwaiting'
      unfold outstanding at hone
      simpa [List.countP_append, Ne.symm hother] using hone
  · intro other hsettled
    by_cases hother : other = client
    · subst hother
      simp at hsettled
    · have hsettled' : system.clients other ≠ .waiting := by
        simpa [Function.update_of_ne hother] using hsettled
      have hzero := hinv.settled other hsettled'
      unfold outstanding at hzero ⊢
      simpa [List.countP_append, Ne.symm hother] using hzero
  · intro other
    simpa [resultsOf, executions, SimpleZanzibar.receipts] using hinv.answers other
  · intro other token h
    simpa [publications] using hinv.responses other token h
  · intro other token h
    simpa [publications] using hinv.responding other token h
  · simpa [publications] using hinv.increasing
  · exact justified_append hinv.justified trivial

omit [StoreHasher] [DecidableEq Client] in
/-- The writer owes the result of the command that it has executed. -/
@[simp] theorem pending_afterExecution
    (request : Request Client) (result : Except ZanzibarError ConsistencyToken) :
    (WriterPhase.afterExecution request result).pending = [(request.client, result)] := by
  cases result <;> rfl

omit [StoreHasher] [DecidableEq Client] in
/-- The token of a successful command is not published yet. -/
@[simp] theorem unpublished_afterExecution
    (request : Request Client) (result : Except ZanzibarError ConsistencyToken) :
    (WriterPhase.afterExecution request result).unpublished = result.toOption.toList := by
  cases result <;> rfl

/-- The system after the writer has executed the next command. -/
def executed (system : EngineSystem Client) (listing : MapListing) (request : Request Client)
    (queue : List (Request Client)) (result : Except ZanzibarError ConsistencyToken)
    (writer : EngineWriter) : EngineSystem Client :=
  { system with
    writer := writer
    queue := queue
    phase := .afterExecution request result
    log := system.log ++ [.executed ⟨listing, request, result⟩] }

section Execute

variable {listing : MapListing} {request : Request Client} {queue : List (Request Client)}
  {result : Except ZanzibarError ConsistencyToken} {writer : EngineWriter}

omit [StoreHasher] in
/-- The client of the command waits for the writer instead of the queue. -/
theorem outstanding_executed
    (hphase : system.phase = .receiving)
    (hqueue : system.queue = request :: queue)
    (client : Client) :
    (system.executed listing request queue result writer).outstanding client =
      system.outstanding client := by
  unfold outstanding executed
  rw [hphase, hqueue, List.countP_cons, pending_afterExecution, List.countP_cons]
  simp only [WriterPhase.pending, List.countP_nil]
  omega

omit [DecidableEq Client] in
/-- The published state is that of the writer before the command. -/
theorem Visible.executed
    {visible : EngineWriter}
    (h : Visible first system visible)
    (hphase : system.phase = .receiving)
    (hrun : request.command.run listing system.writer = (result, writer)) :
    Visible first (system.executed listing request queue result writer) system.writer := by
  have hsame : visible = system.writer := by
    have hcase := h.phase
    rw [hphase] at hcase
    exact hcase
  subst hsame
  refine ⟨h.sound, h.retained, h.state, h.of_log (by simp [EngineSystem.executed, publications]),
    ?_⟩
  cases result with
  | ok token => exact ⟨listing, hrun⟩
  | error error =>
      have hunchanged := request.command.run_error listing system.writer (by rw [hrun])
      rw [hrun] at hunchanged
      exact hunchanged.symm

/-- The writer takes the next command and executes it. -/
theorem Inv.execute
    (hinv : system.Inv first)
    (hphase : system.phase = .receiving)
    (hqueue : system.queue = request :: queue)
    (hrun : request.command.run listing system.writer = (result, writer)) :
    (system.executed listing request queue result writer).Inv first := by
  obtain ⟨visible, hvisible⟩ := hinv.visible
  have hexecutions : executions (system.executed listing request queue result writer).log =
      executions system.log ++ [⟨listing, request, result⟩] := executions_append _ _
  have hpublications : publications (system.executed listing request queue result writer).log =
      publications system.log := by
    simp [executed, publications]
  constructor
  · have hfifo := hinv.fifo
    rw [hqueue] at hfifo
    rw [hexecutions, List.map_append, List.append_assoc]
    simpa [executed, submissions] using hfifo
  · rw [hexecutions, replay_append _ _ hinv.replayed, List.map_append, hrun]
    rfl
  · exact ⟨system.writer, hvisible.executed hphase hrun⟩
  · have hreturned := hinv.returned
    rw [hphase] at hreturned
    rw [hpublications]
    dsimp only [executed]
    rw [unpublished_afterExecution, returnedTokens_append, hreturned]
    cases result with
    | ok token => simp [returnedTokens, executions, WriterPhase.unpublished, Except.toOption]
    | error error => simp [returnedTokens, executions, WriterPhase.unpublished, Except.toOption]
  · intro client hwaiting
    exact (outstanding_executed hphase hqueue client).trans (hinv.waiting client hwaiting)
  · intro client hsettled
    exact (outstanding_executed hphase hqueue client).trans (hinv.settled client hsettled)
  · intro client
    have hanswers := hinv.answers client
    rw [hphase] at hanswers
    dsimp only [executed]
    rw [pending_afterExecution, resultsOf_append, hanswers]
    by_cases hclient : request.client = client
    · simp [resultsOf, executions, SimpleZanzibar.receipts, WriterPhase.pending, hclient]
    · simp [resultsOf, executions, SimpleZanzibar.receipts, WriterPhase.pending, hclient]
  · intro client token h
    rw [hpublications]
    exact hinv.responses client token h
  · intro client token h
    cases result with
    | ok token' => cases h
    | error error => cases h
  · rw [hpublications]
    exact hinv.increasing
  · exact justified_append hinv.justified trivial

end Execute

/-- The writer publishes the state that the last command led to. -/
theorem Inv.publish
    (hinv : system.Inv first)
    {request : Request Client} {token : ConsistencyToken}
    (hphase : system.phase = .publishing request token)
    {state : EngineState}
    (hstate : system.writer.publishedState = some state) :
    { system with
      state := some state
      phase := .responding request.client (.ok token)
      log := system.log ++ [.published ⟨request.command, token, state.latestSnapshot⟩] :
        EngineSystem Client }.Inv first := by
  obtain ⟨visible, hvisible⟩ := hinv.visible
  have hcase := hvisible.phase
  rw [hphase] at hcase
  obtain ⟨listing, hrun⟩ := hcase
  obtain ⟨snapshot, hfollows, hkept⟩ := hvisible.kept.append hrun
  have hlatest : state.latestSnapshot = snapshot := by
    cases hstate.symm.trans hfollows.latest.published
    rfl
  have hsound := hvisible.sound.run listing request.command
  rw [hrun] at hsound
  have hexecutions : executions (system.log ++
      [.published ⟨request.command, token, state.latestSnapshot⟩]) = executions system.log := by
    simp [executions]
  have hpublications : publications (system.log ++
      [.published ⟨request.command, token, state.latestSnapshot⟩]) =
      publications system.log ++ [⟨request.command, token, state.latestSnapshot⟩] :=
    publications_append _ _
  have hmember : ∃ publication ∈ publications (system.log ++
      [.published ⟨request.command, token, state.latestSnapshot⟩]),
      publication.token = token := by
    rw [hpublications]
    exact ⟨_, List.mem_append_right _ List.mem_cons_self, rfl⟩
  have houtstanding : ∀ client, outstanding { system with
      state := some state
      phase := .responding request.client (.ok token)
      log := system.log ++ [.published ⟨request.command, token, state.latestSnapshot⟩] :
        EngineSystem Client } client = system.outstanding client := by
    intro client
    unfold outstanding
    rw [hphase]
    rfl
  constructor
  · dsimp only
    rw [hexecutions]
    simpa [submissions] using hinv.fifo
  · dsimp only
    rw [hexecutions]
    exact hinv.replayed
  · refine ⟨system.writer, hsound, hfollows.retained.trans hvisible.retained, hstate.symm, ?_, rfl⟩
    dsimp only
    rw [hpublications, hlatest]
    exact hkept
  · have hreturned := hinv.returned
    rw [hphase] at hreturned
    dsimp only
    rw [hpublications, List.map_append, returnedTokens_append, hreturned]
    simp [returnedTokens, executions, WriterPhase.unpublished]
  · intro client hwaiting
    exact (houtstanding client).trans (hinv.waiting client hwaiting)
  · intro client hsettled
    exact (houtstanding client).trans (hinv.settled client hsettled)
  · intro client
    have hanswers := hinv.answers client
    rw [hphase] at hanswers
    simpa [resultsOf, executions, SimpleZanzibar.receipts, WriterPhase.pending] using hanswers
  · intro client token' h
    obtain ⟨publication, hmem, htoken⟩ := hinv.responses client token' h
    dsimp only
    rw [hpublications]
    exact ⟨publication, List.mem_append_left _ hmem, htoken⟩
  · intro client token' h
    cases h
    exact hmember
  · dsimp only
    rw [hpublications]
    refine List.pairwise_append.mpr ⟨hinv.increasing, List.pairwise_singleton _ _, ?_⟩
    intro older holder newer hnewer
    rw [List.mem_singleton.mp hnewer]
    rw [← hlatest] at hkept
    exact hkept.token_lt (hlatest ▸ hfollows.latest) older holder
  · exact justified_append hinv.justified trivial

/-- The writer answers. -/
theorem Inv.respond
    (hinv : system.Inv first)
    {client : Client} {result : Except ZanzibarError ConsistencyToken}
    (hphase : system.phase = .responding client result) :
    { system with
      phase := .receiving
      responses := Function.update system.responses client (some result) :
        EngineSystem Client }.Inv first := by
  obtain ⟨visible, hvisible⟩ := hinv.visible
  have hcase := hvisible.phase
  rw [hphase] at hcase
  have hpending : system.phase.pending = [(client, result)] := by
    rw [hphase]
    rfl
  -- the client has one request outstanding, which is the one that is answered
  have hempty : system.responses client = none := by
    have hone : system.outstanding client ≤ 1 := by
      by_cases hwaiting : system.clients client = .waiting
      · exact Nat.le_of_eq (hinv.waiting client hwaiting)
      · exact Nat.le_trans (Nat.le_of_eq (hinv.settled client hwaiting)) (Nat.zero_le 1)
    unfold outstanding at hone
    rw [hpending] at hone
    cases hresponse : system.responses client with
    | none => rfl
    | some answer =>
        rw [hresponse] at hone
        simp at hone
  have houtstanding : ∀ other, outstanding { system with
      phase := .receiving
      responses := Function.update system.responses client (some result) :
        EngineSystem Client } other = system.outstanding other := by
    intro other
    unfold outstanding
    rw [hpending]
    by_cases hother : other = client
    · subst hother
      simp [WriterPhase.pending, hempty]
    · simp [WriterPhase.pending, Function.update_of_ne hother, Ne.symm hother]
  constructor
  · exact hinv.fifo
  · exact hinv.replayed
  · exact ⟨visible, hvisible.sound, hvisible.retained, hvisible.state, hvisible.kept, hcase⟩
  · have hreturned := hinv.returned
    rw [hphase] at hreturned
    exact hreturned
  · intro other hwaiting
    exact (houtstanding other).trans (hinv.waiting other hwaiting)
  · intro other hsettled
    exact (houtstanding other).trans (hinv.settled other hsettled)
  · intro other
    have hanswers := hinv.answers other
    rw [hpending] at hanswers
    by_cases hother : other = client
    · subst hother
      simpa [WriterPhase.pending, hempty] using hanswers
    · simpa [WriterPhase.pending, Function.update_of_ne hother, Ne.symm hother] using hanswers
  · intro other token h
    dsimp only at h
    by_cases hother : other = client
    · subst hother
      rw [Function.update_self] at h
      cases h
      exact hinv.responding other token hphase
    · rw [Function.update_of_ne hother] at h
      exact hinv.responses other token h
  · intro other token h
    cases h
  · exact hinv.increasing
  · exact hinv.justified

/-- A client takes its answer. -/
theorem Inv.receive
    (hinv : system.Inv first)
    {client : Client} {result : Except ZanzibarError ConsistencyToken}
    (hwaiting : system.clients client = .waiting)
    (hresponse : system.responses client = some result) :
    { system with
      responses := Function.update system.responses client none
      clients := Function.update system.clients client .idle
      log := system.log ++ [.received client result] : EngineSystem Client }.Inv first := by
  obtain ⟨visible, hvisible⟩ := hinv.visible
  have hone := hinv.waiting client hwaiting
  unfold outstanding at hone
  rw [hresponse] at hone
  have hqueue : system.queue.countP (fun request => request.client = client) = 0 := by
    simp only [Option.toList_some, List.length_singleton] at hone
    omega
  have hpending : system.phase.pending.countP (fun answer => answer.1 = client) = 0 := by
    simp only [Option.toList_some, List.length_singleton] at hone
    omega
  constructor
  · simpa [submissions, executions] using hinv.fifo
  · simpa [executions] using hinv.replayed
  · exact ⟨visible, hvisible.sound, hvisible.retained, hvisible.state,
      hvisible.of_log (by simp [publications]), hvisible.phase⟩
  · simpa [returnedTokens, executions, publications] using hinv.returned
  · intro other hother
    dsimp only at hother
    by_cases hsame : other = client
    · subst hsame
      simp at hother
    · rw [Function.update_of_ne hsame] at hother
      have hcount := hinv.waiting other hother
      unfold outstanding at hcount ⊢
      simpa [Function.update_of_ne hsame] using hcount
  · intro other hother
    dsimp only at hother
    by_cases hsame : other = client
    · subst hsame
      unfold outstanding
      dsimp only
      rw [hqueue, hpending, Function.update_self]
      rfl
    · rw [Function.update_of_ne hsame] at hother
      have hcount := hinv.settled other hother
      unfold outstanding at hcount ⊢
      simpa [Function.update_of_ne hsame] using hcount
  · intro other
    have hanswers := hinv.answers other
    by_cases hsame : other = client
    · subst hsame
      rw [hresponse] at hanswers
      simpa [resultsOf, executions, SimpleZanzibar.receipts] using hanswers
    · simpa [resultsOf, executions, SimpleZanzibar.receipts, Function.update_of_ne hsame,
        Ne.symm hsame] using hanswers
  · intro other token h
    dsimp only at h
    by_cases hsame : other = client
    · subst hsame
      rw [Function.update_self] at h
      cases h
    · rw [Function.update_of_ne hsame] at h
      simpa [publications] using hinv.responses other token h
  · intro other token h
    simpa [publications] using hinv.responding other token h
  · simpa [publications] using hinv.increasing
  · refine justified_append hinv.justified ?_
    cases result with
    | error error => trivial
    | ok token => exact hinv.responses client token hresponse

/-- A client that is not waiting starts or ends a read. -/
theorem Inv.read
    (hinv : system.Inv first)
    {client : Client} {before after : ClientState} {observation : Observation Client}
    (hbefore : system.clients client = before)
    (hnotWaiting : before ≠ .waiting)
    (hnotWaiting' : after ≠ .waiting)
    (hobservation : submissions [observation] = [] ∧ executions [observation] = [] ∧
      publications [observation] = [] ∧ ∀ client, receipts client [observation] = [])
    (hjustified : observation.Justified first.retainedSnapshots system.log) :
    { system with
      clients := Function.update system.clients client after
      log := system.log ++ [observation] : EngineSystem Client }.Inv first := by
  obtain ⟨visible, hvisible⟩ := hinv.visible
  obtain ⟨hsubmissions, hexecutions, hpublications, hreceipts⟩ := hobservation
  have hclients : ∀ other, Function.update system.clients client after other = .waiting ↔
      system.clients other = .waiting := by
    intro other
    by_cases hother : other = client
    · subst hother
      rw [Function.update_self, hbefore]
      exact ⟨fun h => absurd h hnotWaiting', fun h => absurd h hnotWaiting⟩
    · rw [Function.update_of_ne hother]
  have hsubmissions' : submissions (system.log ++ [observation]) = submissions system.log := by
    rw [submissions_append, hsubmissions, List.append_nil]
  have hexecutions' : executions (system.log ++ [observation]) = executions system.log := by
    rw [executions_append, hexecutions, List.append_nil]
  have hpublications' : publications (system.log ++ [observation]) =
      publications system.log := by
    rw [publications_append, hpublications, List.append_nil]
  constructor
  · dsimp only
    rw [hsubmissions', hexecutions']
    exact hinv.fifo
  · dsimp only
    rw [hexecutions']
    exact hinv.replayed
  · exact ⟨visible, hvisible.sound, hvisible.retained, hvisible.state,
      hvisible.of_log hpublications', hvisible.phase⟩
  · dsimp only
    rw [returnedTokens, hexecutions', hpublications']
    exact hinv.returned
  · intro other hwaiting
    exact hinv.waiting other ((hclients other).mp hwaiting)
  · intro other hsettled
    exact hinv.settled other (fun hwaiting => hsettled ((hclients other).mpr hwaiting))
  · intro other
    dsimp only
    rw [resultsOf, hexecutions', receipts_append, hreceipts, List.append_nil]
    exact hinv.answers other
  · intro other token h
    dsimp only
    rw [hpublications']
    exact hinv.responses other token h
  · intro other token h
    dsimp only
    rw [hpublications']
    exact hinv.responding other token h
  · dsimp only
    rw [hpublications']
    exact hinv.increasing
  · exact justified_append hinv.justified hjustified

/-- What a read returns is justified. -/
theorem Inv.justified_load
    (hinv : system.Inv first)
    (client : Client) (consistency : Consistency) :
    (Observation.readFinished client consistency
      (system.snapshotForConsistency consistency)).Justified first.retainedSnapshots
      system.log := by
  obtain ⟨visible, hvisible⟩ := hinv.visible
  cases consistency with
  | latest =>
      intro other token hreceived
      obtain ⟨before, after, hsplit⟩ := List.append_of_mem hreceived
      obtain ⟨publication, hmem, htoken⟩ := hinv.justified before _ after hsplit
      have hmem' : publication ∈ publications system.log := by
        rw [hsplit, publications_append]
        exact List.mem_append_left _ hmem
      obtain ⟨earlier, later, hpublications⟩ := List.append_of_mem hmem'
      have hkept := hvisible.kept earlier publication later hpublications
      obtain ⟨latest, hlatest, hle⟩ := hkept.exists_latest hvisible.sound
      refine ⟨latest, ?_, ?_⟩
      · unfold snapshotForConsistency
        rw [hvisible.state, hlatest.published]
        rfl
      · rw [← htoken, hkept.token]
        exact hle
  | exact token =>
      rintro earlier publication later hpublications rfl
      have hkept := hvisible.kept earlier publication later hpublications
      obtain ⟨latest, hlatest, _⟩ := hkept.exists_latest hvisible.sound
      have hread := hkept.snapshotForToken hvisible.sound.coherent.consecutive
        hvisible.sound.coherent.length_le hlatest hlatest.published
      unfold snapshotForConsistency
      rw [hvisible.state, hlatest.published]
      dsimp only [EngineState.snapshotForConsistency]
      rw [hread, hvisible.retained]
      split <;> rfl

/-- Every event keeps the invariant. -/
theorem Inv.step
    (hinv : system.Inv first)
    {event : EngineEvent Client} {next : EngineSystem Client}
    (h : system.step event = some next) :
    next.Inv first := by
  cases event with
  | submit client command =>
      unfold EngineSystem.step at h
      dsimp only at h
      split at h
      · next hidle =>
          split at h
          · cases h
            exact hinv.submit hidle command
          · cases h
      · cases h
  | execute listing =>
      unfold EngineSystem.step at h
      dsimp only at h
      split at h
      · next request queue hphase hqueue =>
          cases h
          exact hinv.execute hphase hqueue rfl
      · cases h
  | publish =>
      unfold EngineSystem.step at h
      dsimp only at h
      split at h
      · next request token state hphase hstate =>
          cases h
          exact hinv.publish hphase hstate
      · cases h
  | respond =>
      unfold EngineSystem.step at h
      dsimp only at h
      split at h
      · next client result hphase =>
          cases h
          exact hinv.respond hphase
      · cases h
  | receive client =>
      unfold EngineSystem.step at h
      dsimp only at h
      split at h
      · next result hwaiting hresponse =>
          cases h
          exact hinv.receive hwaiting hresponse
      · cases h
  | startRead client consistency =>
      unfold EngineSystem.step at h
      dsimp only at h
      split at h
      · next hidle =>
          cases h
          exact hinv.read hidle (by simp) (by simp) ⟨rfl, rfl, rfl, fun _ => rfl⟩ trivial
      · cases h
  | load client =>
      unfold EngineSystem.step at h
      dsimp only at h
      split at h
      · next consistency hreading =>
          cases h
          exact hinv.read hreading (by simp) (by simp) ⟨rfl, rfl, rfl, fun _ => rfl⟩
            (hinv.justified_load client consistency)
      · cases h

theorem Inv.run
    (hinv : system.Inv first)
    (events : List (EngineEvent Client)) :
    (system.run events).Inv first := by
  induction events generalizing system with
  | nil => exact hinv
  | cons event rest ih =>
      cases hstep : system.step event with
      | none =>
          have hskip : system.run (event :: rest) = system.run rest := by
            unfold EngineSystem.run
            rw [List.foldl_cons, hstep]
            rfl
          rw [hskip]
          exact ih hinv
      | some next =>
          have htake : system.run (event :: rest) = next.run rest := by
            unfold EngineSystem.run
            rw [List.foldl_cons, hstep]
            rfl
          rw [htake]
          exact ih (hinv.step hstep)

/-- The revisions of successful writes grow in the order of execution. -/
theorem Inv.returnedTokens_increasing
    (hinv : system.Inv first) :
    (returnedTokens system.log).Pairwise
      (fun older newer => older.revision.get < newer.revision.get) := by
  have hpublished : ((publications system.log).map (·.token)).Pairwise
      (fun older newer => older.revision.get < newer.revision.get) :=
    List.pairwise_map.mpr hinv.increasing
  rw [hinv.returned]
  cases hphase : system.phase with
  | receiving => simpa [WriterPhase.unpublished] using hpublished
  | responding client result => simpa [WriterPhase.unpublished] using hpublished
  | publishing request token =>
      obtain ⟨visible, hvisible⟩ := hinv.visible
      have hcase := hvisible.phase
      rw [hphase] at hcase
      obtain ⟨listing, hrun⟩ := hcase
      obtain ⟨snapshot, hfollows, hkept⟩ := hvisible.kept.append hrun
      refine List.pairwise_append.mpr ⟨hpublished, List.pairwise_singleton _ _, ?_⟩
      intro older holder newer hnewer
      obtain ⟨publication, hpublication, rfl⟩ := List.mem_map.mp holder
      rw [List.mem_singleton.mp hnewer]
      exact hkept.token_lt hfollows.latest publication hpublication

/-- Each command is executed once, in queue order, and each answer goes to its sender. -/
structure ExecutesOnce (first : EngineWriter) (system : EngineSystem Client) : Prop where
  queueOrder :
    submissions system.log = (executions system.log).map (·.request) ++ system.queue
  sequential : replay (executions system.log) first =
    ((executions system.log).map (·.result), system.writer)
  answered : ∀ client, receipts client system.log <+: resultsOf client system.log

/-- In every interleaving of clients and writer, the commands are executed once and in queue
order, the revisions of successful writes grow in that order, and every read is justified. -/
theorem run_justified
    (datastoreId : DatastoreId) (retainedSnapshots : ℕ+) (evaluationLimits : EvaluationLimits)
    (queueCapacity : ℕ+) (events : List (EngineEvent Client)) :
    let first := EngineWriter.new datastoreId retainedSnapshots evaluationLimits
    let system := (init first queueCapacity).run events
    system.ExecutesOnce first ∧
      (returnedTokens system.log).Pairwise
        (fun older newer => older.revision.get < newer.revision.get) ∧
      ∀ before observation after, system.log = before ++ observation :: after →
        observation.Justified retainedSnapshots before := by
  intro first system
  have hinv : system.Inv first :=
    (inv_init (EngineWriter.sound_new _ _ _) queueCapacity).run events
  refine ⟨⟨hinv.fifo, hinv.replayed, fun client => ?_⟩, hinv.returnedTokens_increasing,
    hinv.justified⟩
  rw [hinv.answers client, List.append_assoc]
  exact List.prefix_append _ _

end EngineSystem

end Protocol

end SimpleZanzibar
