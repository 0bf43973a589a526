import SimpleZanzibar.Store.QueryCorrect

/-!
# The indexed store against a linear scan

A list of relationships in the order of their insertion is the reference: a creation or a
touch appends an absent relationship, a deletion takes it out.  Along every run of calls
from the empty store, failed calls included, the live rows are the list that the performed
mutations lead to, and every query is the scan of that list.

**Results.**
* `Grown.applyMutations`: what one call performs, whether it succeeds or fails.
* `runCalls_refines_scan`: the indexed store refines the list over every run.
-/

namespace SimpleZanzibar

namespace IndexedRelationshipStore

/-- What a mutation does to the relationships in the order of their insertion. -/
def scanMutation (rows : List Relationship) : RelationshipMutation → List Relationship
  | .create relationship =>
      if relationship ∈ rows then rows else rows ++ [relationship]
  | .touch relationship =>
      if relationship ∈ rows then rows else rows ++ [relationship]
  | .delete relationship => rows.filter (fun r => decide (r ≠ relationship))

section Grown

variable [StoreHasher]

/-- A store that mutations built from the empty one. -/
structure Grown (store : IndexedRelationshipStore) : Prop where
  writable : store.Writable
  unsorted : store.interner.sortedLookup = []

theorem grown_default :
    default.Grown :=
  ⟨writable_default, rfl⟩

theorem Grown.contains_iff
    {store : IndexedRelationshipStore}
    (hg : store.Grown)
    (r : Relationship) :
    store.containsRelationship r = true ↔ r ∈ store.rows :=
  hg.writable.inv.containsRelationship_iff hg.writable.ready r

/-- What interning its strings one after the other keeps, interning a relationship keeps. -/
theorem fromRelationship_keeps
    {P Q : IdentifierInterner → Prop} {r : Relationship}
    (hintern : ∀ i value, P i → value ∈ relationshipIdentifierValues r →
      (IdentifierInterner.intern value).Leaves i (fun result j =>
        (∀ id, result = .ok id → P j) ∧ ∀ error, result = .error error → Q j))
    {i : IdentifierInterner}
    (hi : P i) :
    (RowIdentity.fromRelationship r).Leaves i (fun result j =>
      (∀ row, result = .ok row → P j) ∧ ∀ error, result = .error error → Q j) := by
  have hstep : ∀ {value : String} {f : SymbolId → Action IdentifierInterner StoreError RowIdentity}
      {k : IdentifierInterner}, P k → value ∈ relationshipIdentifierValues r →
      (∀ id l, P l → (f id).Leaves l (fun result j =>
        (∀ row, result = .ok row → P j) ∧ ∀ error, result = .error error → Q j)) →
      (IdentifierInterner.intern value >>= f).Leaves k (fun result j =>
        (∀ row, result = .ok row → P j) ∧ ∀ error, result = .error error → Q j) := by
    intro value f k hk hvalue hf
    refine Action.Leaves.bind (hintern k value hk hvalue) ?_ ?_
    · rintro id l ⟨hl, -⟩
      exact hf id l (hl id rfl)
    · rintro error l ⟨-, hl⟩
      exact ⟨fun _ h => (by cases h), fun _ _ => hl error rfl⟩
  have hdone : ∀ (row : RowIdentity) {k : IdentifierInterner}, P k →
      (pure row : Action IdentifierInterner StoreError RowIdentity).Leaves k (fun result j =>
        (∀ row, result = .ok row → P j) ∧ ∀ error, result = .error error → Q j) :=
    fun row k hk => ⟨fun _ _ => hk, fun _ h => (by cases h)⟩
  have hmem : ∀ value, value ∈ [r.resource.objectType.value, r.resource.objectId.value,
      r.relation.value, r.subject.objectRef.objectType.value,
      r.subject.objectRef.objectId.value] → value ∈ relationshipIdentifierValues r :=
    fun value hvalue => List.mem_append_left _ hvalue
  unfold RowIdentity.fromRelationship
  refine hstep hi (hmem _ (by simp)) (fun _ i1 h1 => ?_)
  refine hstep h1 (hmem _ (by simp)) (fun _ i2 h2 => ?_)
  refine hstep h2 (hmem _ (by simp)) (fun _ i3 h3 => ?_)
  refine hstep h3 (hmem _ (by simp)) (fun _ i4 h4 => ?_)
  refine hstep h4 (hmem _ (by simp)) (fun _ i5 h5 => ?_)
  cases hsubject : r.subject with
  | object target => exact hdone _ h5
  | userset target relation =>
      refine hstep h5 ?_ (fun _ i6 h6 => hdone _ h6)
      simp [relationshipIdentifierValues, hsubject]

/-- Interning the strings of a relationship keeps the interner also when it fails. -/
theorem fromRelationship_unsorted
    {i : IdentifierInterner}
    (hinv : i.Inv)
    (hempty : i.sortedLookup = [])
    (r : Relationship) :
    (RowIdentity.fromRelationship r).Leaves i (fun _ j => j.Inv ∧ j.sortedLookup = [] ∧
      i.entries <+: j.entries) := by
  have hkeeps := @fromRelationship_keeps _
    (fun j => j.Inv ∧ j.sortedLookup = [] ∧ i.entries <+: j.entries)
    (fun j => j.Inv ∧ j.sortedLookup = [] ∧ i.entries <+: j.entries) r
    (fun k value hk _ => (hk.1.intern_unsorted hk.2.1 value).imp (fun result j hj => by
      have hprefix := hk.2.2.trans hj.2.2
      exact ⟨fun _ _ => ⟨hj.1, hj.2.1, hprefix⟩, fun _ _ => ⟨hj.1, hj.2.1, hprefix⟩⟩))
    i ⟨hinv, hempty, List.prefix_refl _⟩
  refine hkeeps.imp ?_
  rintro (error | row) j ⟨hok, herror⟩
  · exact herror error rfl
  · exact hok row rfl

/-- A larger interner leaves a grown store as it is. -/
theorem Grown.with_interner
    {store : IndexedRelationshipStore}
    (hg : store.Grown)
    {interner : IdentifierInterner}
    (hinv : interner.Inv)
    (hsorted : interner.sortedLookup = [])
    (hextends : store.interner.entries <+: interner.entries) :
    ({ store with interner := interner } : IndexedRelationshipStore).Grown ∧
      ({ store with interner := interner } : IndexedRelationshipStore).rows = store.rows := by
  obtain ⟨hw, hrows⟩ := hg.writable.with_interner hinv hextends
  exact ⟨⟨hw, hsorted⟩, hrows⟩

/-- What a mutation of a grown store leaves: the mutated rows, or the old ones after a
failure. -/
def Mutated (store : IndexedRelationshipStore) (rows : List Relationship)
    (result : Except StoreError Unit) (store' : IndexedRelationshipStore) : Prop :=
  store'.Grown ∧ match result with
    | .ok () => store'.rows = rows
    | .error _ => store'.rows = store.rows

/-- The row of a relationship and the interner, also when interning fails. -/
theorem fromRelationship_leaves
    {i : IdentifierInterner}
    (hinv : i.Inv)
    (hempty : i.sortedLookup = [])
    (r : Relationship) :
    (RowIdentity.fromRelationship r).Leaves i (fun result j => j.Inv ∧ j.sortedLookup = [] ∧
      i.entries <+: j.entries ∧ ∀ row, result = .ok row → row.Denotes j r) := by
  have hleaves := fromRelationship_unsorted hinv hempty r
  unfold Action.Leaves at hleaves ⊢
  refine ⟨hleaves.1, hleaves.2.1, hleaves.2.2, ?_⟩
  intro row hrow
  rcases (RowIdentity.fromRelationship_ensures hinv r).cases with
    ⟨row', j, hrun, hspec⟩ | ⟨error, j, hrun, _⟩
  · rw [hrun] at hrow ⊢
    cases hrow
    exact hspec.2.2
  · rw [hrun] at hrow
    cases hrow

/-- Appending a row to a grown store. -/
theorem Grown.appendRow
    {store : IndexedRelationshipStore}
    (hg : store.Grown)
    {rowId : RowId} {row : RowIdentity} {r : Relationship}
    (hnext : rowId.index = store.rowTable.length)
    (hd : row.Denotes store.interner r)
    (habsent : r ∉ store.rows) :
    ∃ store', IndexedRelationshipStore.appendRow rowId row store = (.ok (), store') ∧
      store'.Grown ∧ store'.rows = store.rows ++ [r] := by
  obtain ⟨index, hready⟩ := hg.writable.ready
  have hrun := appendRow_apply hready rowId row
  have hensures := hg.writable.appendRow hnext hd habsent
  unfold Action.Ensures at hensures
  rw [hrun] at hensures
  exact ⟨_, hrun, ⟨hensures.1, hg.unsorted⟩, hensures.2⟩

/-- Inserting an absent relationship appends it or fails without a trace in the rows. -/
theorem Grown.insert
    {store : IndexedRelationshipStore}
    (hg : store.Grown)
    {r : Relationship}
    (habsent : r ∉ store.rows) :
    (IndexedRelationshipStore.insert r).Leaves store (Mutated store (store.rows ++ [r])) := by
  unfold IndexedRelationshipStore.insert
  apply Action.Leaves.get_bind
  apply Action.Leaves.lift_bind
  · intro rowId hrowId
    have hrow := fromRelationship_leaves hg.writable.inv.interner hg.unsorted r
    refine Action.Leaves.bind hrow.zoom ?_ ?_
    · rintro row _ ⟨interner, ⟨hinv, hsorted, hextends, hd⟩, rfl⟩
      obtain ⟨hg', hrows⟩ := hg.with_interner hinv hsorted hextends
      obtain ⟨store', hrun, hgrown, hrows'⟩ :=
        hg'.appendRow (RowId.fromLen_ok_iff.mp hrowId) (hd row rfl) (by rwa [hrows])
      unfold Action.Leaves
      rw [hrun]
      exact ⟨hgrown, by rw [hrows', hrows]⟩
    · rintro error _ ⟨interner, ⟨hinv, hsorted, hextends, _⟩, rfl⟩
      exact hg.with_interner hinv hsorted hextends
  · intro error _
    exact ⟨hg, rfl⟩

/-- A deletion leaves the interner alone. -/
theorem interner_delete
    (r : Relationship) (store : IndexedRelationshipStore) :
    (IndexedRelationshipStore.delete r store).2.interner = store.interner := by
  unfold IndexedRelationshipStore.delete
  simp only [Action.bind_apply, Action.get_apply]
  cases store.lookupRelationshipRow r with
  | none => rfl
  | some row =>
      simp only [Action.bind_apply, Action.lift_apply]
      cases store.readyUniqueness with
      | error error => rfl
      | ok index =>
          simp only [Action.set_apply]
          cases (index.remove store.rowTable row).1 with
          | none => rfl
          | some rowId => rfl

/-- Deleting an absent relationship changes nothing. -/
theorem Grown.delete_absent
    {store : IndexedRelationshipStore}
    (hg : store.Grown)
    {r : Relationship}
    (hmem : r ∉ store.rows) :
    IndexedRelationshipStore.delete r store = (.error (.relationshipNotFound r), store) := by
  obtain ⟨index, hready⟩ := hg.writable.ready
  cases hlookup : store.lookupRelationshipRow r with
  | none =>
      unfold IndexedRelationshipStore.delete
      simp [Action.bind_apply, hlookup]
  | some row =>
      have hnone : index.find store.rowTable row = none := by
        by_contra hsome
        refine hmem ((hg.contains_iff r).mp ?_)
        unfold containsRelationship uniquenessRef
        rw [hlookup, hready]
        simp [Option.isSome_iff_ne_none, hsome]
      have hsame : ({ store with uniqueness := .ready index } : IndexedRelationshipStore) =
          store := by
        rw [← hready]
      unfold IndexedRelationshipStore.delete readyUniqueness
      simp [Action.bind_apply, hlookup, hready,
        RelationshipIdentityIndex.remove_of_find_none hnone, hsame]

/-- Deleting a relationship takes it out of the rows, or fails when it is absent. -/
theorem Grown.delete
    {store : IndexedRelationshipStore}
    (hg : store.Grown)
    (r : Relationship) :
    (IndexedRelationshipStore.delete r).Leaves store
      (Mutated store (store.rows.filter (fun r' => decide (r' ≠ r)))) := by
  have hinterner := interner_delete r store
  unfold Action.Leaves
  by_cases hmem : r ∈ store.rows
  · obtain ⟨store', hrun, hw, hrows⟩ := hg.writable.delete hmem
    rw [hrun] at hinterner ⊢
    exact ⟨⟨hw, hinterner ▸ hg.unsorted⟩, hrows⟩
  · rw [hg.delete_absent hmem]
    exact ⟨hg, rfl⟩

/-- One mutation of a grown store. -/
theorem Grown.applySingleMutation
    {store : IndexedRelationshipStore}
    (hg : store.Grown)
    (mutation : RelationshipMutation) :
    (IndexedRelationshipStore.applySingleMutation mutation).Leaves store
      (Mutated store (scanMutation store.rows mutation)) := by
  cases mutation with
  | create r =>
      apply Action.Leaves.get_bind
      by_cases hmem : r ∈ store.rows
      · rw [if_pos ((hg.contains_iff r).mpr hmem)]
        exact ⟨hg, rfl⟩
      · rw [if_neg (fun h => hmem ((hg.contains_iff r).mp h))]
        simp only [scanMutation, if_neg hmem]
        exact hg.insert hmem
  | touch r =>
      apply Action.Leaves.get_bind
      by_cases hmem : r ∈ store.rows
      · rw [if_pos ((hg.contains_iff r).mpr hmem)]
        simp only [scanMutation, if_pos hmem]
        exact ⟨hg, rfl⟩
      · rw [if_neg (fun h => hmem ((hg.contains_iff r).mp h))]
        simp only [scanMutation, if_neg hmem]
        exact hg.insert hmem
  | delete r => exact hg.delete r

/-- A sequence of mutations performs a first part of them, all when it succeeds. -/
theorem Grown.forEach_mutation
    {store : IndexedRelationshipStore}
    (hg : store.Grown)
    (mutations : List RelationshipMutation) :
    (Action.forEach IndexedRelationshipStore.applySingleMutation mutations).Leaves store
      (fun result store' => store'.Grown ∧ ∃ performed, performed <+: mutations ∧
        store'.rows = performed.foldl scanMutation store.rows ∧
        (result = .ok () → performed = mutations)) := by
  induction mutations generalizing store with
  | nil => exact ⟨hg, [], List.prefix_refl _, rfl, fun _ => rfl⟩
  | cons mutation rest ih =>
      refine Action.Leaves.bind (hg.applySingleMutation mutation) ?_ ?_
      · rintro ⟨⟩ store' ⟨hg', hrows⟩
        refine (ih hg').imp ?_
        rintro result store'' ⟨hg'', performed, hstart, hrows', hall⟩
        refine ⟨hg'', mutation :: performed, (List.prefix_cons_inj _).mpr hstart, ?_, ?_⟩
        · rw [hrows', hrows]
          rfl
        · intro hok
          rw [hall hok]
      · rintro error store' ⟨hg', hrows⟩
        exact ⟨hg', [], List.nil_prefix, hrows, fun h => (by cases h)⟩

/-- Copying a row into a compacted store is inserting the relationship it stands for. -/
theorem insertCompactRowFrom_eq
    {source : IndexedRelationshipStore} {row : RowIdentity} {r : Relationship}
    (hd : row.Denotes source.interner r) :
    insertCompactRowFrom source row = IndexedRelationshipStore.insert r := by
  have hresolve : ∀ {id value}, source.interner.resolve id = .ok value →
      source.resolve id = value := by
    intro id value h
    unfold IndexedRelationshipStore.resolve
    rw [h]
  have hsplit : ∀ {α β γ : Type} (x : Action IdentifierInterner StoreError α)
      (f : α → Action IdentifierInterner StoreError β)
      (g : β → Action IndexedRelationshipStore StoreError γ),
      interning (x >>= f) >>= g = interning x >>= fun a => interning (f a) >>= g := by
    intro α β γ x f g
    unfold interning
    refine Action.zoom_bind_bind ?_ ?_ x f g
    · intro interner store
      rfl
    · intro interner interner' store
      rfl
  have hdone : ∀ {α γ : Type} (a : α) (g : α → Action IndexedRelationshipStore StoreError γ),
      interning (pure a) >>= g = g a := by
    intro α γ a g
    unfold interning
    exact Action.zoom_pure_bind (fun _ => rfl) a g
  unfold insertCompactRowFrom IndexedRelationshipStore.insert RowIdentity.fromRelationship
  simp only [hsplit, hresolve hd.resourceType, hresolve hd.resourceId, hresolve hd.relation,
    hresolve hd.subjectType, hresolve hd.subjectId]
  have hrelation := hd.subjectRelation
  cases hsubject : r.subject with
  | object target =>
      rw [hsubject] at hrelation
      have hnone : row.subjectRelation = none := Option.map_eq_none_iff.mp hrelation
      simp only [hnone, hdone]
  | userset target relation =>
      rw [hsubject] at hrelation
      obtain ⟨id, hid, hvalue⟩ := Option.map_eq_some_iff.mp hrelation
      simp only [hid, hsplit, hdone, hresolve hvalue]

/-- The rows are copied in their order. -/
theorem forEach_insertCompactRowFrom
    {source : IndexedRelationshipStore} {table : List RelationshipRow} {rs : List Relationship}
    (h : RowsDenote source.interner table rs) :
    Action.forEach (fun row : RelationshipRow => insertCompactRowFrom source row.identity)
      table = Action.forEach IndexedRelationshipStore.insert rs := by
  induction h with
  | nil => rfl
  | cons hd _ ih =>
      rw [Action.forEach, Action.forEach, ih, insertCompactRowFrom_eq hd]

/-- Compaction keeps the rows, or fails and keeps the store. -/
theorem Grown.compactIfNeeded
    {store : IndexedRelationshipStore}
    (hg : store.Grown) :
    IndexedRelationshipStore.compactIfNeeded.Leaves store
      (fun _ store' => store'.Grown ∧ store'.rows = store.rows) := by
  unfold IndexedRelationshipStore.compactIfNeeded
  apply Action.Leaves.get_bind
  split_ifs with hfew
  · exact ⟨hg, rfl⟩
  · have hinv := hg.writable.inv
    rw [forEach_insertCompactRowFrom hinv.rowsDenote]
    have hcopied := Action.ensures_forEach_append (fun store _ => store.Grown)
      IndexedRelationshipStore.rows
      (fun _ _ _ hg habsent => (hg.insert habsent).ensures.imp (fun _ _ h => h)
        (fun _ _ => trivial))
      grown_default hinv.nodup_rows (fun r _ hmem => (by cases hmem))
    rcases hcopied.cases with ⟨_, compacted, hrun, hg', hrows⟩ | ⟨error, _, hrun, _⟩
    · rw [hrun]
      exact ⟨hg', hrows⟩
    · rw [hrun]
      exact ⟨hg, rfl⟩

/-- What a call leaves behind: it performed its mutations, or failed after a first part of
them. -/
def Performed (mutations : List RelationshipMutation) (store : IndexedRelationshipStore)
    (performed : List RelationshipMutation) (result : Except StoreError Unit)
    (store' : IndexedRelationshipStore) : Prop :=
  store'.Grown ∧ store'.rows = performed.foldl scanMutation store.rows ∧
    performed <+: mutations ∧ (result = .ok () → performed = mutations)

theorem Grown.performed_nothing
    {store : IndexedRelationshipStore}
    (hg : store.Grown)
    (mutations : List RelationshipMutation) (error : StoreError) :
    Performed mutations store [] (.error error) store :=
  ⟨hg, rfl, List.nil_prefix, fun h => (by cases h)⟩

/-- A grown store has its identity index. -/
theorem Grown.ensureUniqueness_first
    {store : IndexedRelationshipStore}
    (hg : store.Grown)
    {c : Prop} [Decidable c] {x : Action IndexedRelationshipStore StoreError Unit}
    {post : Except StoreError Unit → IndexedRelationshipStore → Prop}
    (hx : x.Leaves store post) :
    (if c then (do ensureUniquenessIndex; x) else x).Leaves store post := by
  obtain ⟨index, hready⟩ := hg.writable.ready
  have hrun : ensureUniquenessIndex store = (.ok (), store) := by
    simp [ensureUniquenessIndex, Action.bind_apply, hready]
  split_ifs
  · unfold Action.Leaves at hx ⊢
    rw [Action.bind_apply, hrun]
    exact hx
  · exact hx

/-- Compaction after the mutations were performed. -/
theorem Performed.compact
    {mutations performed : List RelationshipMutation}
    {store store' : IndexedRelationshipStore}
    (h : Performed mutations store performed (.ok ()) store') :
    IndexedRelationshipStore.compactIfNeeded.Leaves store'
      (fun result store'' => Performed mutations store performed result store'') := by
  obtain ⟨hg, hrows, hstart, hall⟩ := h
  refine hg.compactIfNeeded.imp ?_
  rintro result store'' ⟨hg', hrows'⟩
  exact ⟨hg', hrows'.trans hrows, hstart, fun _ => hall rfl⟩

omit [StoreHasher] in
theorem isTouch_iff
    {mutation : RelationshipMutation} :
    mutation.isTouch = true ↔ mutation = .touch mutation.relationship := by
  cases mutation <;> simp [RelationshipMutation.isTouch, RelationshipMutation.relationship]

/-- A batch of touches is a sequence of mutations. -/
theorem forEach_touch
    {mutations : List RelationshipMutation}
    (h : mutations.all RelationshipMutation.isTouch = true) :
    Action.forEach (fun mutation : RelationshipMutation => touch mutation.relationship)
      mutations = Action.forEach IndexedRelationshipStore.applySingleMutation mutations := by
  induction mutations with
  | nil => rfl
  | cons mutation rest ih =>
      rw [List.all_cons, Bool.and_eq_true] at h
      rw [Action.forEach, Action.forEach, ih h.2, isTouch_iff.mp h.1]
      rfl

/-- One call, whether it succeeds or fails. -/
theorem Grown.applyMutations
    {store : IndexedRelationshipStore}
    (hg : store.Grown)
    (mutations : List RelationshipMutation) (preconditions : List Precondition) :
    (IndexedRelationshipStore.applyMutations mutations preconditions).Leaves store
      (fun result store' => ∃ performed, Performed mutations store performed result store') := by
  have hnothing : ∀ error, ∃ performed,
      Performed mutations store performed (.error error) store :=
    fun error => ⟨[], hg.performed_nothing mutations error⟩
  have hsequence : (Action.forEach IndexedRelationshipStore.applySingleMutation
      mutations).Leaves store (fun result store' => ∃ performed,
        Performed mutations store performed result store') := by
    refine (hg.forEach_mutation mutations).imp ?_
    rintro result store' ⟨hg', performed, hstart, hrows, hall⟩
    exact ⟨performed, hg', hrows, hstart, hall⟩
  have hcompacted : (do
      Action.forEach IndexedRelationshipStore.applySingleMutation mutations
      IndexedRelationshipStore.compactIfNeeded).Leaves store (fun result store' => ∃ performed,
        Performed mutations store performed result store') := by
    refine Action.Leaves.bind hsequence ?_ (fun _ _ h => h)
    rintro ⟨⟩ store' ⟨performed, h⟩
    exact h.compact.imp (fun result store'' h' => ⟨performed, h'⟩)
  unfold IndexedRelationshipStore.applyMutations
  apply Action.Leaves.get_bind
  refine Action.Leaves.lift_bind (fun u hbatch => ?_) (fun error _ => hnothing error)
  apply hg.ensureUniqueness_first
  refine Action.Leaves.lift_bind (fun u' hdistinct => ?_) (fun error _ => hnothing error)
  split
  · next mutation =>
      refine Action.Leaves.bind (hg.applySingleMutation mutation) ?_ ?_
      · rintro ⟨⟩ store' ⟨hg', hrows⟩
        have hone : Performed [mutation] store [mutation] (.ok ()) store' :=
          ⟨hg', hrows, List.prefix_refl _, fun _ => rfl⟩
        exact hone.compact.imp (fun result store'' h => ⟨[mutation], h⟩)
      · rintro error store' ⟨hg', hrows⟩
        exact ⟨[], hg', hrows, List.nil_prefix, fun h => (by cases h)⟩
  · split_ifs with htouch
    · unfold applyTouchBatchInPlace
      rw [forEach_touch htouch]
      refine Action.Leaves.bind (Action.Leaves.get_bind (Action.Leaves.lift_bind
        (fun _ _ => hsequence) (fun error _ => hnothing error))) ?_ (fun _ _ h => h)
      rintro ⟨⟩ store' ⟨performed, h⟩
      exact h.compact.imp (fun result store'' h' => ⟨performed, h'⟩)
    · apply Action.Leaves.get_bind
      unfold Action.Leaves at hcompacted
      rcases hrun : (do
        Action.forEach IndexedRelationshipStore.applySingleMutation mutations
        IndexedRelationshipStore.compactIfNeeded : Action _ _ _) store with ⟨result, candidate⟩
      rw [hrun] at hcompacted
      cases result with
      | ok _ => exact hcompacted
      | error error => exact hnothing error

end Grown

/-- The arguments of one call. -/
structure MutationCall where
  mutations : List RelationshipMutation
  preconditions : List Precondition

section Runs

variable [StoreHasher]

/-- Runs the calls one after the other, also after a failure, and collects the results. -/
def runCalls : List MutationCall → IndexedRelationshipStore →
    List (Except StoreError Unit) × IndexedRelationshipStore
  | [], store => ([], store)
  | call :: rest, store =>
      let (result, store') := applyMutations call.mutations call.preconditions store
      let (results, final) := runCalls rest store'
      (result :: results, final)

/-- A call that succeeded performed all its mutations, one that failed a first part. -/
def CallPerformed (call : MutationCall × Except StoreError Unit)
    (performed : List RelationshipMutation) : Prop :=
  performed <+: call.1.mutations ∧ (call.2 = .ok () → performed = call.1.mutations)

theorem Grown.runCalls
    {store : IndexedRelationshipStore}
    (hg : store.Grown)
    (calls : List MutationCall) :
    (IndexedRelationshipStore.runCalls calls store).2.Grown ∧ ∃ performed,
      List.Forall₂ CallPerformed
        (calls.zip (IndexedRelationshipStore.runCalls calls store).1) performed ∧
      (IndexedRelationshipStore.runCalls calls store).2.rows =
        performed.flatten.foldl scanMutation store.rows := by
  induction calls generalizing store with
  | nil => exact ⟨hg, [], List.Forall₂.nil, rfl⟩
  | cons call rest ih =>
      have hcall := hg.applyMutations call.mutations call.preconditions
      unfold Action.Leaves at hcall
      rcases hrun : IndexedRelationshipStore.applyMutations call.mutations
        call.preconditions store with ⟨result, store'⟩
      rw [hrun] at hcall
      obtain ⟨first, hg', hrows, hstart, hall⟩ := hcall
      obtain ⟨hfinal, performed, hperformed, hrows'⟩ := ih hg'
      unfold IndexedRelationshipStore.runCalls
      rw [hrun]
      refine ⟨hfinal, first :: performed,
        List.Forall₂.cons ⟨hstart, hall⟩ hperformed, ?_⟩
      rw [List.flatten_cons, List.foldl_append, ← hrows]
      exact hrows'

/-- Over every run of calls from the empty store the live rows are the list that the
performed mutations lead to, in insertion order and without repetition, and the queries,
the listing and the membership test read that list. -/
theorem runCalls_refines_scan
    (calls : List MutationCall) :
    let (results, store) := runCalls calls default
    ∃ performed, List.Forall₂ CallPerformed (calls.zip results) performed ∧
      store.rows = performed.flatten.foldl scanMutation [] ∧
      store.rows.Nodup ∧
      (∀ filter : RelationshipFilter, store.Yields (store.queryCompactRelationships filter)
        ((store.rows.filter (fun r => decide (filter.Matches r))).take filter.limit.get)) ∧
      (∀ filter : SubjectFilter, store.Yields (store.reverseQueryCompactRelationships filter)
        (store.rows.filter (fun r => decide (filter.Matches r.subject)))) ∧
      ∀ r, store.containsRelationship r = true ↔ r ∈ store.rows := by
  obtain ⟨hg, performed, hperformed, hrows⟩ := grown_default.runCalls calls
  have hinv := hg.writable.inv
  have hfull := hg.writable.profile
  refine ⟨performed, hperformed, hrows, hinv.nodup_rows, ?_, hinv.reverseQuery hfull,
    hg.contains_iff⟩
  intro filter
  exact hinv.query filter (Or.inl hfull)

end Runs

end IndexedRelationshipStore

end SimpleZanzibar
